import ScratchServers.EchoExchange
import ScratchServers.EchoConservation
import ScratchServers.RelayProgress
import ScratchServers.RelayAvailability
import ScratchServers.PipeHandles
import ScratchServers.PipeClients
import ScratchServers.PipeOpen
import ScratchServers.UnixDeadline
import ScratchServers.UnixServer
import ScratchServers.HttpAgreement
import ScratchServers.SocketPath
import ScratchServers.KeyPem
import ScratchServers.Completion
import ScratchServers.EchoProgress
import ScratchServers.Family
import ScratchServers.PipeWorld
import ScratchServers.PortablePipe
import ScratchServers.RelayRefinement
import ScratchServers.RelaySettles
import ScratchServers.TlsExchange
import ScratchServers.Handles
import ScratchServers.NamedPipe
import ScratchServers.NamedPipeOutcome
import ScratchServers.PipeProgress
import ScratchServers.UnixWorld
import ScratchServers.CopiedOutcome
