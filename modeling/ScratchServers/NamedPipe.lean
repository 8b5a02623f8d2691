import ScratchServers.Completion
import ScratchServers.Handles
import ScratchServers.LineInput
import ScratchServers.PipeServer

/-! The program of `namedpipe.cpp`: one thread serves the pipe and one writes into
it. Both open handles of the same process, and the writer closes its own twice. -/

namespace ScratchServers

def bufSize : Nat := 512

/-- What the array `data` of the client holds: the literal, and zeros behind it. -/
def helloFromClient : Bytes :=
  "hello from client".toList.map (·.toNat.toUInt8)

def clientData : Bytes :=
  helloFromClient ++ List.replicate (bufSize - helloFromClient.length) 0

inductive HandleOwner where
  | serverPipe
  | serverPort
  | clientPipe
  | clientPort
  deriving DecidableEq

/-- What the server thread prints: the array up to its first NUL, or an exception. -/
inductive ServerPrint where
  | data (text : Bytes)
  | error
  deriving DecidableEq

/-- Where `ServerWaitToRead` is. `port` is the handle of its `io_context`; the pipe
is not in the stream handle where `assign` has thrown. -/
inductive ServerThread where
  | creating
  | constructing (hPipe : Nat)
  | assigning (hPipe port : Nat)
  | connecting (hPipe port : Nat)
  | waiting (hPipe port : Nat)
  | reading (hPipe port : Nat)
  | closingPipe (hPipe : Option Nat) (port : Nat) (print : ServerPrint)
  | closingPort (port : Nat) (print : ServerPrint)
  | returned (print : ServerPrint)
  deriving DecidableEq

/-- Where `ClientWrite` is. -/
inductive ClientThread where
  | opening
  | constructing (hPipe : Nat)
  | assigning (hPipe port : Nat)
  | writing (hPipe port : Nat)
  | closing (hPipe port : Nat)
  | closingPipe (hPipe : Option Nat) (port : Nat)
  | closingPort (port : Nat)
  | returned
  deriving DecidableEq

structure NamedPipe where
  handles : HandleTable HandleOwner
  bytes : Bytes
  data : Buffer Byte bufSize
  server : ServerThread
  client : ClientThread
  terminated : Bool

def NamedPipe.start (data : Buffer Byte bufSize) : NamedPipe :=
  ⟨.empty, [], data, .creating, .opening, false⟩

inductive ServerThreadEvent where
  | create (answer : Except Nat Nat)
  | construct (port : Nat)
  | assign
  | connect
  | connected
  | read
  | readFails
  | runFails
  | closePipe
  | closePort

inductive ClientThreadEvent where
  | openFails
  | «open» (hPipe : Nat)
  | construct (port : Nat)
  | assign
  | write
  | closeHandle
  | closePipe
  | closePort

inductive NamedPipeEvent where
  | server (e : ServerThreadEvent)
  | client (e : ClientThreadEvent)

/-- The end that this side holds of the pipe is open. -/
def NamedPipe.isOpen (w : NamedPipe) (o : HandleOwner) : Bool :=
  w.handles.entries.any (·.1 = o)

def NamedPipe.serverClose (w : NamedPipe) (h : Option Nat) (server : ServerThread) : NamedPipe :=
  { w with handles := h.elim w.handles w.handles.close, server := server }

def NamedPipe.clientClose (w : NamedPipe) (h : Option Nat) (client : ClientThread) : NamedPipe :=
  { w with handles := h.elim w.handles w.handles.close, client := client }

def NamedPipe.serverStep (w : NamedPipe) : ServerThreadEvent → Option NamedPipe
  | .create answer =>
    match w.server, answer with
    | .creating, .ok h =>
      if hfree : w.handles.Free h then
        some { w with handles := w.handles.assign .serverPipe h hfree, server := .constructing h }
      else none
    | .creating, .error _ => some { w with terminated := true }
    | _, _ => none
  | .construct port =>
    match w.server with
    | .constructing h =>
      if hfree : w.handles.Free port then
        some { w with
          handles := w.handles.assign .serverPort port hfree
          server := .assigning h port }
      else none
    | _ => none
  | .assign =>
    match w.server with
    | .assigning h port =>
      if w.handles.Holds .serverPipe h ∧ w.handles.Holds .serverPort port then
        some { w with server := .connecting h port }
      else some { w with server := .closingPipe none port .error }
    | _ => none
  | .connect =>
    match w.server with
    | .connecting h port =>
      if w.isOpen .clientPipe then some { w with server := .reading h port }
      else if w.client = .opening then some { w with server := .waiting h port }
      else some { w with terminated := true }
    | _ => none
  | .connected =>
    match w.server with
    | .waiting h port =>
      if w.client = .opening then none else some { w with server := .reading h port }
    | _ => none
  | .read =>
    match w.server with
    | .reading h port =>
      if w.handles.Holds .serverPort port ∧ w.bytes ≠ [] then
        let data := w.data.put 0 (w.bytes.take bufSize)
        some { w with
          bytes := w.bytes.drop bufSize
          data := data
          server := .closingPipe (some h) port (.data (data.front (strlen data))) }
      else none
    | _ => none
  | .readFails =>
    match w.server with
    | .reading h port =>
      if w.handles.Holds .serverPort port ∧ w.bytes = [] ∧ w.isOpen .clientPipe = false then
        some { w with
          server := .closingPipe (some h) port (.data (w.data.front (strlen w.data))) }
      else none
    | _ => none
  | .runFails =>
    match w.server with
    | .reading h port =>
      if w.handles.Holds .serverPort port then none
      else some { w with server := .closingPipe (some h) port .error }
    | _ => none
  | .closePipe =>
    match w.server with
    | .closingPipe h port print => some (w.serverClose h (.closingPort port print))
    | _ => none
  | .closePort =>
    match w.server with
    | .closingPort port print => some (w.serverClose (some port) (.returned print))
    | _ => none

/-- `CreateFile` succeeds where an instance of the pipe is there; else the loop
goes on. `CloseHandle` comes before the destructor of the stream handle. -/
def NamedPipe.clientStep (w : NamedPipe) : ClientThreadEvent → Option NamedPipe
  | .openFails => if w.client = .opening ∧ w.isOpen .serverPipe = false then some w else none
  | .open h =>
    if hfree : w.client = .opening ∧ w.isOpen .serverPipe = true ∧ w.handles.Free h then
      some { w with
        handles := w.handles.assign .clientPipe h hfree.2.2
        client := .constructing h }
    else none
  | .construct port =>
    match w.client with
    | .constructing h =>
      if hfree : w.handles.Free port then
        some { w with
          handles := w.handles.assign .clientPort port hfree
          client := .assigning h port }
      else none
    | _ => none
  | .assign =>
    match w.client with
    | .assigning h port =>
      if w.handles.Holds .clientPipe h ∧ w.handles.Holds .clientPort port then
        some { w with client := .writing h port }
      else some { w with client := .closingPipe none port }
    | _ => none
  | .write =>
    match w.client with
    | .writing h port =>
      if w.handles.Holds .clientPort port then
        some { w with
          bytes := if w.isOpen .serverPipe then w.bytes ++ clientData else w.bytes
          client := .closing h port }
      else some { w with client := .closingPipe (some h) port }
    | _ => none
  | .closeHandle =>
    match w.client with
    | .closing h port => some (w.clientClose (some h) (.closingPipe (some h) port))
    | _ => none
  | .closePipe =>
    match w.client with
    | .closingPipe h port => some (w.clientClose h (.closingPort port))
    | _ => none
  | .closePort =>
    match w.client with
    | .closingPort port => some (w.clientClose (some port) .returned)
    | _ => none

def NamedPipe.step (w : NamedPipe) (e : NamedPipeEvent) : Option NamedPipe :=
  if w.terminated then none
  else match e with
    | .server e => w.serverStep e
    | .client e => w.clientStep e

def namedPipe : System NamedPipe NamedPipeEvent where
  start w := ∃ data, w = .start data
  step := NamedPipe.step

section

variable {w w' : NamedPipe}

theorem NamedPipe.step_server {e : ServerThreadEvent} :
    w.step (.server e) = some w' ↔ w.terminated = false ∧ w.serverStep e = some w' := by
  cases hterm : w.terminated <;> simp [step, hterm]

theorem NamedPipe.step_client {e : ClientThreadEvent} :
    w.step (.client e) = some w' ↔ w.terminated = false ∧ w.clientStep e = some w' := by
  cases hterm : w.terminated <;> simp [step, hterm]

theorem NamedPipe.server_create {answer : Except Nat Nat} :
    w.serverStep (.create answer) = some w' ↔ w.server = .creating ∧
      ((∃ h, ∃ hfree : w.handles.Free h, answer = .ok h ∧ w' = { w with
        handles := w.handles.assign .serverPipe h hfree, server := .constructing h }) ∨
      ∃ code, answer = .error code ∧ w' = { w with terminated := true }) := by
  cases hserver : w.server <;> rcases answer with code | h <;>
    simp [serverStep, hserver, @eq_comm _ _ w']

theorem NamedPipe.server_construct {port : Nat} :
    w.serverStep (.construct port) = some w' ↔
      ∃ h, ∃ hfree : w.handles.Free port, w.server = .constructing h ∧ w' = { w with
        handles := w.handles.assign .serverPort port hfree, server := .assigning h port } := by
  cases hserver : w.server <;> simp [serverStep, hserver, @eq_comm _ _ w']

theorem NamedPipe.server_assign :
    w.serverStep .assign = some w' ↔ ∃ h port, w.server = .assigning h port ∧
      ((w.handles.Holds .serverPipe h ∧ w.handles.Holds .serverPort port ∧
          w' = { w with server := .connecting h port }) ∨
        (¬ (w.handles.Holds .serverPipe h ∧ w.handles.Holds .serverPort port) ∧
          w' = { w with server := .closingPipe none port .error })) := by
  cases hserver : w.server with
  | assigning h port =>
    by_cases hheld : w.handles.Holds .serverPipe h ∧ w.handles.Holds .serverPort port
    · simp [serverStep, hserver, hheld, @eq_comm _ _ w']
    · have hno : ¬ (w.handles.Holds .serverPipe h ∧ w.handles.Holds .serverPort port ∧
          w' = { w with server := .connecting h port }) := fun h => hheld ⟨h.1, h.2.1⟩
      simp only [serverStep, hserver, hheld, if_false, ServerThread.assigning.injEq]
      constructor
      · intro hs
        exact ⟨h, port, ⟨rfl, rfl⟩, .inr ⟨hheld, (Option.some.inj hs).symm⟩⟩
      · rintro ⟨_, _, ⟨rfl, rfl⟩, hs | ⟨_, rfl⟩⟩
        · exact absurd hs hno
        · rfl
  | _ => simp [serverStep, hserver]

theorem NamedPipe.server_connect :
    w.serverStep .connect = some w' ↔ ∃ h port, w.server = .connecting h port ∧
      ((w.isOpen .clientPipe = true ∧ w' = { w with server := .reading h port }) ∨
        (w.isOpen .clientPipe = false ∧ w.client = .opening ∧
          w' = { w with server := .waiting h port }) ∨
        (w.isOpen .clientPipe = false ∧ w.client ≠ .opening ∧
          w' = { w with terminated := true })) := by
  cases hserver : w.server with
  | connecting h port =>
    cases hopen : w.isOpen .clientPipe <;> by_cases hclient : w.client = .opening <;>
      simp [serverStep, hserver, hopen, hclient, @eq_comm _ _ w']
  | _ => simp [serverStep, hserver]

theorem NamedPipe.server_connected :
    w.serverStep .connected = some w' ↔ ∃ h port, w.server = .waiting h port ∧
      w.client ≠ .opening ∧ w' = { w with server := .reading h port } := by
  cases hserver : w.server <;> simp [serverStep, hserver, @eq_comm _ _ w']

theorem NamedPipe.server_read :
    w.serverStep .read = some w' ↔ ∃ h port, w.server = .reading h port ∧
      w.handles.Holds .serverPort port ∧ w.bytes ≠ [] ∧
        w' = { w with
          bytes := w.bytes.drop bufSize
          data := w.data.put 0 (w.bytes.take bufSize)
          server := .closingPipe (some h) port (.data ((w.data.put 0 (w.bytes.take bufSize)).front
            (strlen (w.data.put 0 (w.bytes.take bufSize))))) } := by
  cases hserver : w.server <;> simp [serverStep, hserver, and_assoc, @eq_comm _ _ w']

theorem NamedPipe.server_readFails :
    w.serverStep .readFails = some w' ↔ ∃ h port, w.server = .reading h port ∧
      w.handles.Holds .serverPort port ∧ w.bytes = [] ∧ w.isOpen .clientPipe = false ∧
        w' = { w with
          server := .closingPipe (some h) port (.data (w.data.front (strlen w.data))) } := by
  cases hserver : w.server <;> simp [serverStep, hserver, and_assoc, @eq_comm _ _ w']

theorem NamedPipe.server_runFails :
    w.serverStep .runFails = some w' ↔ ∃ h port, w.server = .reading h port ∧
      ¬ w.handles.Holds .serverPort port ∧
        w' = { w with server := .closingPipe (some h) port .error } := by
  cases hserver : w.server <;> simp [serverStep, hserver, @eq_comm _ _ w']

theorem NamedPipe.server_closePipe :
    w.serverStep .closePipe = some w' ↔ ∃ h port print, w.server = .closingPipe h port print ∧
      w' = w.serverClose h (.closingPort port print) := by
  cases hserver : w.server <;> simp [serverStep, hserver, @eq_comm _ _ w']

theorem NamedPipe.server_closePort :
    w.serverStep .closePort = some w' ↔ ∃ port print, w.server = .closingPort port print ∧
      w' = w.serverClose (some port) (.returned print) := by
  cases hserver : w.server <;> simp [serverStep, hserver, @eq_comm _ _ w']

theorem NamedPipe.client_openFails :
    w.clientStep .openFails = some w' ↔
      w.client = .opening ∧ w.isOpen .serverPipe = false ∧ w' = w := by
  simp [clientStep, and_assoc, @eq_comm _ _ w']

theorem NamedPipe.client_open {h : Nat} :
    w.clientStep (.open h) = some w' ↔
      ∃ hfree : w.handles.Free h, w.client = .opening ∧ w.isOpen .serverPipe = true ∧
        w' = { w with
          handles := w.handles.assign .clientPipe h hfree, client := .constructing h } := by
  by_cases hopen : w.client = .opening ∧ w.isOpen .serverPipe = true ∧ w.handles.Free h
  · simp [clientStep, hopen, @eq_comm _ _ w']
  · simp only [clientStep, hopen, dif_neg, not_false_eq_true, reduceCtorEq, false_iff]
    rintro ⟨hfree, hclient, hserver, _⟩
    exact hopen ⟨hclient, hserver, hfree⟩

theorem NamedPipe.client_construct {port : Nat} :
    w.clientStep (.construct port) = some w' ↔
      ∃ h, ∃ hfree : w.handles.Free port, w.client = .constructing h ∧ w' = { w with
        handles := w.handles.assign .clientPort port hfree, client := .assigning h port } := by
  cases hclient : w.client <;> simp [clientStep, hclient, @eq_comm _ _ w']

theorem NamedPipe.client_assign :
    w.clientStep .assign = some w' ↔ ∃ h port, w.client = .assigning h port ∧
      ((w.handles.Holds .clientPipe h ∧ w.handles.Holds .clientPort port ∧
          w' = { w with client := .writing h port }) ∨
        (¬ (w.handles.Holds .clientPipe h ∧ w.handles.Holds .clientPort port) ∧
          w' = { w with client := .closingPipe none port })) := by
  cases hclient : w.client with
  | assigning h port =>
    by_cases hheld : w.handles.Holds .clientPipe h ∧ w.handles.Holds .clientPort port
    · simp [clientStep, hclient, hheld, @eq_comm _ _ w']
    · have hno : ¬ (w.handles.Holds .clientPipe h ∧ w.handles.Holds .clientPort port ∧
          w' = { w with client := .writing h port }) := fun h => hheld ⟨h.1, h.2.1⟩
      simp only [clientStep, hclient, hheld, if_false, ClientThread.assigning.injEq]
      constructor
      · intro hs
        exact ⟨h, port, ⟨rfl, rfl⟩, .inr ⟨hheld, (Option.some.inj hs).symm⟩⟩
      · rintro ⟨_, _, ⟨rfl, rfl⟩, hs | ⟨_, rfl⟩⟩
        · exact absurd hs hno
        · rfl
  | _ => simp [clientStep, hclient]

theorem NamedPipe.client_write :
    w.clientStep .write = some w' ↔ ∃ h port, w.client = .writing h port ∧
      ((w.handles.Holds .clientPort port ∧ w' = { w with
          bytes := if w.isOpen .serverPipe then w.bytes ++ clientData else w.bytes
          client := .closing h port }) ∨
        (¬ w.handles.Holds .clientPort port ∧
          w' = { w with client := .closingPipe (some h) port })) := by
  cases hclient : w.client with
  | writing h port =>
    by_cases hheld : w.handles.Holds .clientPort port <;>
      simp [clientStep, hclient, hheld, @eq_comm _ _ w']
  | _ => simp [clientStep, hclient]

theorem NamedPipe.client_closeHandle :
    w.clientStep .closeHandle = some w' ↔ ∃ h port, w.client = .closing h port ∧
      w' = w.clientClose (some h) (.closingPipe (some h) port) := by
  cases hclient : w.client <;> simp [clientStep, hclient, @eq_comm _ _ w']

theorem NamedPipe.client_closePipe :
    w.clientStep .closePipe = some w' ↔ ∃ h port, w.client = .closingPipe h port ∧
      w' = w.clientClose h (.closingPort port) := by
  cases hclient : w.client <;> simp [clientStep, hclient, @eq_comm _ _ w']

theorem NamedPipe.client_closePort :
    w.clientStep .closePort = some w' ↔ ∃ port, w.client = .closingPort port ∧
      w' = w.clientClose (some port) .returned := by
  cases hclient : w.client <;> simp [clientStep, hclient, @eq_comm _ _ w']

end

end ScratchServers
