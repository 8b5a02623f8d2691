import ScratchServers.EchoServer
import ScratchServers.Selection

/-! The session of the TLS relay `echo_ssl_server.cpp`: read a chunk from the
client, connect to the echo server, forward the chunk, read once, write back. -/

namespace ScratchServers

inductive RelayOp where
  | handshake
  | read
  | connect (length : Nat)
  | forwardWrite (t : Transfer)
  | forwardRead
  | write (t : Transfer)
  deriving DecidableEq

/-- Both ends of a client's TLS stream, with what has passed over it: all that
the client sent, each chunk that a read returned, all that was written back. -/
structure TlsStream where
  inbound : Bytes
  outbound : Bytes
  shut : Bool
  sent : Bytes
  chunks : List Bytes
  returned : Bytes

def TlsStream.fresh : TlsStream :=
  ⟨[], [], false, [], [], []⟩

def TlsStream.send (st : TlsStream) (xs : Bytes) : TlsStream :=
  { st with inbound := st.inbound ++ xs, sent := st.sent ++ xs }

def TlsStream.readChunk (st : TlsStream) (n : Nat) : TlsStream :=
  { st with inbound := st.inbound.drop n, chunks := st.chunks ++ [st.inbound.take n] }

def TlsStream.writeBack (st : TlsStream) (xs : Bytes) : TlsStream :=
  { st with outbound := st.outbound ++ xs, returned := st.returned ++ xs }

def TlsStream.receive (st : TlsStream) (n : Nat) : TlsStream :=
  { st with outbound := st.outbound.drop n }

/-- `socket` names the connection that `socket_` is open on. With nothing
pending the session has been destroyed. -/
structure RelaySession where
  stream : TlsStream
  data : Buffer Byte maxLength
  forwardData : Buffer Byte maxLength
  socket : Option Nat
  pending : Option RelayOp

/-- The constructor; of its members only `endpoints_`, the result of the
throwing `resolve`, can fail. -/
def RelaySession.construct (data forwardData : Buffer Byte maxLength)
    (resolve : Except Nat Unit) : Except Nat RelaySession :=
  resolve.map fun _ => ⟨.fresh, data, forwardData, none, none⟩

def RelaySession.doHandshake (s : RelaySession) : RelaySession :=
  { s with pending := some .handshake }

def RelaySession.start (s : RelaySession) : RelaySession :=
  s.doHandshake

def RelaySession.doRead (s : RelaySession) : RelaySession :=
  { s with pending := some .read }

-- `async_connect` over a range of endpoints first closes a socket that is open
def RelaySession.doForward (s : RelaySession) (length : Nat) : RelaySession :=
  { s with socket := none, pending := some (.connect length) }

def RelaySession.doForwardRead (s : RelaySession) : RelaySession :=
  { s with pending := some .forwardRead }

def RelaySession.doWrite (s : RelaySession) (length : Nat) : RelaySession :=
  { s with pending := some (.write (.start length)) }

-- a handler that starts nothing lets the session, and with it `socket_`, go
def RelaySession.release (s : RelaySession) : RelaySession :=
  { s with socket := none, pending := none }

def RelaySession.onCompletion (s : RelaySession) (ec : ErrorCode)
    (next : RelaySession → RelaySession) : RelaySession :=
  if ec = .success then next s else s.release

def RelaySession.onHandshake (s : RelaySession) (ec : ErrorCode) : RelaySession :=
  s.onCompletion ec doRead

def RelaySession.onRead (s : RelaySession) (ec : ErrorCode) (length : Nat) : RelaySession :=
  s.onCompletion ec (·.doForward length)

def RelaySession.onConnect (s : RelaySession) (ec : ErrorCode) (length : Nat) : RelaySession :=
  s.onCompletion ec fun s => { s with pending := some (.forwardWrite (.start length)) }

def RelaySession.onForwardWrite (s : RelaySession) (ec : ErrorCode) : RelaySession :=
  s.onCompletion ec doForwardRead

def RelaySession.onForwardRead (s : RelaySession) (ec : ErrorCode) (length : Nat) : RelaySession :=
  s.onCompletion ec (·.doWrite length)

def RelaySession.onWrite (s : RelaySession) (ec : ErrorCode) : RelaySession :=
  s.onCompletion ec doRead

def RelaySession.onError (s : RelaySession) (ec : ErrorCode) : RelaySession :=
  match s.pending with
  | some .handshake => s.onHandshake ec
  | some .read => s.onRead ec 0
  | some (.connect length) => s.onConnect ec length
  | some (.forwardWrite _) => s.onForwardWrite ec
  | some .forwardRead => s.onForwardRead ec 0
  | some (.write _) => s.onWrite ec
  | none => s

inductive RelayEvent where
  | handshake
  | read (n : Nat)
  | contextExpired
  | connect
  | forwardWriteSome (n : Nat)
  | forwardWrite
  | forwardRead (n : Nat)
  | writeSome (n : Nat)
  | write
  | fail

def RelaySession.closeSocket (s : RelaySession) (conns : List EchoConnection) :
    List EchoConnection :=
  match s.socket with
  | some c => conns.modify c fun conn => { conn with nearOpen := false }
  | none => conns

/-- A step of one session acts on the table of connections to the echo server
through the session's own socket, or adds a connection to it. -/
def RelaySession.step (s : RelaySession) (conns : List EchoConnection) :
    RelayEvent → Option (RelaySession × List EchoConnection)
  | .handshake =>
    if s.pending = some .handshake then some (s.onHandshake .success, conns) else none
  | .read n =>
    if s.pending = some .read ∧ CanRead maxLength s.stream.inbound n then
      let s' := { s with
        stream := s.stream.readChunk n
        data := s.data.put 0 (s.stream.inbound.take n) }
      some (s'.onRead .success n, s.closeSocket conns)
    else none
  | .contextExpired =>
    if s.pending = some .read ∧ s.stream.inbound = [] ∧ s.stream.shut = true then
      some (s.onRead .contextExpired 0, s.closeSocket conns)
    else none
  | .connect =>
    match s.pending with
    | some (.connect length) =>
      some ({ s with socket := some conns.length }.onConnect .success length, conns ++ [.fresh])
    | _ => none
  | .forwardWriteSome n =>
    match s.pending, s.socket with
    | some (.forwardWrite t), some c =>
      conns[c]?.bind fun conn =>
        if t.CanAccept none conn.up n then
          some ({ s with pending := some (.forwardWrite (t.advance n)) },
            conns.set c { conn with up := conn.up ++ (t.unsent s.data.cells).take n })
        else none
    | _, _ => none
  | .forwardWrite =>
    match s.pending with
    | some (.forwardWrite t) =>
      if t.left = 0 then some (s.onForwardWrite .success, conns) else none
    | _ => none
  | .forwardRead n =>
    match s.pending, s.socket with
    | some .forwardRead, some c =>
      conns[c]?.bind fun conn =>
        if CanRead maxLength conn.down n then
          let s' := { s with forwardData := s.forwardData.put 0 (conn.down.take n) }
          some (s'.onForwardRead .success n, conns.set c { conn with down := conn.down.drop n })
        else none
    | _, _ => none
  | .writeSome n =>
    match s.pending with
    | some (.write t) =>
      if t.CanAccept none s.stream.outbound n then
        some ({ s with
          stream := s.stream.writeBack ((t.unsent s.forwardData.cells).take n)
          pending := some (.write (t.advance n)) }, conns)
      else none
    | _ => none
  | .write =>
    match s.pending with
    | some (.write t) => if t.left = 0 then some (s.onWrite .success, conns) else none
    | _ => none
  | .fail =>
    if s.pending = none then none else some (s.onError .failed, s.closeSocket conns)

section

variable {s s' : RelaySession} {conns conns' : List EchoConnection}

theorem RelaySession.step_handshake :
    s.step conns .handshake = some (s', conns') ↔
      s.pending = some .handshake ∧ s' = { s with pending := some .read } ∧ conns' = conns := by
  simp [step, onHandshake, onCompletion, doRead, @eq_comm _ _ s', @eq_comm _ _ conns']

theorem RelaySession.step_read {n : Nat} :
    s.step conns (.read n) = some (s', conns') ↔
      s.pending = some .read ∧ CanRead maxLength s.stream.inbound n ∧
        s' = { s with
          stream := s.stream.readChunk n
          data := s.data.put 0 (s.stream.inbound.take n)
          socket := none
          pending := some (.connect n) } ∧ conns' = s.closeSocket conns := by
  simp [step, onRead, onCompletion, doForward, and_assoc, @eq_comm _ _ s', @eq_comm _ _ conns']

theorem RelaySession.step_contextExpired :
    s.step conns .contextExpired = some (s', conns') ↔
      s.pending = some .read ∧ s.stream.inbound = [] ∧ s.stream.shut = true ∧
        s' = { s with socket := none, pending := none } ∧ conns' = s.closeSocket conns := by
  simp [step, onRead, onCompletion, release, and_assoc, @eq_comm _ _ s', @eq_comm _ _ conns']

theorem RelaySession.step_connect :
    s.step conns .connect = some (s', conns') ↔
      ∃ length, s.pending = some (.connect length) ∧
        s' = { s with
          socket := some conns.length
          pending := some (.forwardWrite (.start length)) } ∧ conns' = conns ++ [.fresh] := by
  rcases hp : s.pending with _ | _ | _ | length | t | _ | t <;>
    simp [step, hp, onConnect, onCompletion, @eq_comm _ _ s', @eq_comm _ _ conns']

theorem RelaySession.step_forwardWriteSome {n : Nat} :
    s.step conns (.forwardWriteSome n) = some (s', conns') ↔
      ∃ t c conn, s.pending = some (.forwardWrite t) ∧ s.socket = some c ∧
        conns[c]? = some conn ∧ t.CanAccept none conn.up n ∧
        s' = { s with pending := some (.forwardWrite (t.advance n)) } ∧
        conns' = conns.set c { conn with up := conn.up ++ (t.unsent s.data.cells).take n } := by
  rcases hp : s.pending with _ | _ | _ | length | t | _ | t <;>
    rcases hsock : s.socket with _ | c <;>
    simp [step, hp, hsock, Option.bind_eq_some_iff, @eq_comm _ _ s', @eq_comm _ _ conns']

theorem RelaySession.step_forwardWrite :
    s.step conns .forwardWrite = some (s', conns') ↔
      ∃ t, s.pending = some (.forwardWrite t) ∧ t.left = 0 ∧
        s' = { s with pending := some .forwardRead } ∧ conns' = conns := by
  rcases hp : s.pending with _ | _ | _ | length | t | _ | t <;>
    simp [step, hp, onForwardWrite, onCompletion, doForwardRead, @eq_comm _ _ s',
      @eq_comm _ _ conns']

theorem RelaySession.step_forwardRead {n : Nat} :
    s.step conns (.forwardRead n) = some (s', conns') ↔
      ∃ c conn, s.pending = some .forwardRead ∧ s.socket = some c ∧
        conns[c]? = some conn ∧ CanRead maxLength conn.down n ∧
        s' = { s with
          forwardData := s.forwardData.put 0 (conn.down.take n)
          pending := some (.write (.start n)) } ∧
        conns' = conns.set c { conn with down := conn.down.drop n } := by
  rcases hp : s.pending with _ | _ | _ | length | t | _ | t <;>
    rcases hsock : s.socket with _ | c <;>
    simp [step, hp, hsock, onForwardRead, onCompletion, doWrite, Option.bind_eq_some_iff,
      @eq_comm _ _ s', @eq_comm _ _ conns']

theorem RelaySession.step_writeSome {n : Nat} :
    s.step conns (.writeSome n) = some (s', conns') ↔
      ∃ t, s.pending = some (.write t) ∧ t.CanAccept none s.stream.outbound n ∧
        s' = { s with
          stream := s.stream.writeBack ((t.unsent s.forwardData.cells).take n)
          pending := some (.write (t.advance n)) } ∧ conns' = conns := by
  rcases hp : s.pending with _ | _ | _ | length | t | _ | t <;>
    simp [step, hp, @eq_comm _ _ s', @eq_comm _ _ conns']

theorem RelaySession.step_write :
    s.step conns .write = some (s', conns') ↔
      ∃ t, s.pending = some (.write t) ∧ t.left = 0 ∧
        s' = { s with pending := some .read } ∧ conns' = conns := by
  rcases hp : s.pending with _ | _ | _ | length | t | _ | t <;>
    simp [step, hp, onWrite, onCompletion, doRead, @eq_comm _ _ s', @eq_comm _ _ conns']

theorem RelaySession.step_fail :
    s.step conns .fail = some (s', conns') ↔
      s.pending ≠ none ∧
        s' = { s with socket := none, pending := none } ∧ conns' = s.closeSocket conns := by
  rcases hp : s.pending with _ | _ | _ | length | t | _ | t <;>
    simp [step, hp, onError, onHandshake, onRead, onConnect, onForwardWrite, onForwardRead,
      onWrite, onCompletion, release, @eq_comm _ _ s', @eq_comm _ _ conns']

end

end ScratchServers
