import ScratchServers.PipeRequest

/-! The main loop of the named-pipe server, call by call of `ServerWaitToRead`. -/

namespace ScratchServers

def errorNoData : Nat := 232

def errorPipeConnected : Nat := 535

/-- What the system answers to the calls of one `ServerWaitToRead`. A failure is
given by its error code. -/
structure PipeAnswers where
  create : Except Nat Nat
  connect : Except Nat Unit
  sent : Bytes
  write : WriteOutcome

/-- `throw new` throws a pointer; `http::write` throws a `system_error` by value. -/
inductive Thrown where
  | pointer
  | systemError
  deriving DecidableEq

inductive HandleOp where
  | create (h : Nat)
  | close (h : Nat)
  deriving DecidableEq

structure StreamHandle where
  handle : Option Nat

def StreamHandle.assign (h : Nat) : StreamHandle :=
  ⟨some h⟩

def StreamHandle.close (p : StreamHandle) : StreamHandle × List HandleOp :=
  (⟨none⟩, p.handle.toList.map .close)

/-- The destructor closes a handle that is still open. -/
def StreamHandle.destroy (p : StreamHandle) : List HandleOp :=
  p.close.2

def PipeAnswers.fConnected (a : PipeAnswers) : Bool :=
  match a.connect with
  | .ok _ => true
  | .error code => code = errorPipeConnected

def serverWaitToRead (asyncRead : Bytes → Except BeastError Request) (a : PipeAnswers) :
    List HandleOp × Except Thrown Unit :=
  match a.create with
  | .error _ => ([], .error .pointer)
  | .ok hPipe =>
    if a.fConnected then
      let pipe := StreamHandle.assign hPipe
      if (handleRequest asyncRead a.sent a.write).threw then
        (.create hPipe :: pipe.destroy, .error .systemError)
      else
        let (pipe, closed) := pipe.close
        (.create hPipe :: closed ++ .close hPipe :: pipe.destroy, .ok ())
    else ([.create hPipe], .error .pointer)

/-- `main` catches `std::exception const&` and returns `EXIT_FAILURE`; nothing
catches a pointer, and `std::terminate` is called. `blocked` is a call that does not
return. -/
inductive PipeStatus where
  | looping
  | blocked
  | exitFailure
  | terminated
  deriving DecidableEq

def PipeStatus.afterCall : Except Thrown Unit → PipeStatus
  | .ok _ => .looping
  | .error .systemError => .exitFailure
  | .error .pointer => .terminated

structure PipeServer where
  status : PipeStatus
  calls : List (List HandleOp)

def PipeServer.step (asyncRead : Bytes → Except BeastError Request) (s : PipeServer)
    (a : PipeAnswers) : Option PipeServer :=
  if s.status = .looping then
    let (ops, result) := serverWaitToRead asyncRead a
    some ⟨.afterCall result, s.calls ++ [ops]⟩
  else none

def PipeServer.start : PipeServer :=
  ⟨.looping, []⟩

def pipeServer (asyncRead : Bytes → Except BeastError Request) : System PipeServer PipeAnswers where
  start s := s = .start
  step := PipeServer.step asyncRead

section

variable {asyncRead : Bytes → Except BeastError Request}

theorem PipeServer.step_eq {s s' : PipeServer} {a : PipeAnswers}
    (h : s.step asyncRead a = some s') :
    s.status = .looping ∧
      s' = ⟨.afterCall (serverWaitToRead asyncRead a).2,
        s.calls ++ [(serverWaitToRead asyncRead a).1]⟩ := by
  unfold step at h
  split at h
  · exact ⟨‹_›, (Option.some.inj h).symm⟩
  · exact absurd h nofun

theorem handleRequest_threw (asyncRead : Bytes → Except BeastError Request) (sent : Bytes)
    (outcome : WriteOutcome) :
    (handleRequest asyncRead sent outcome).threw = true ↔ outcome ≠ .complete := by
  cases outcome <;> simp [handleRequest, Response.write]

theorem serverWaitToRead_cases (asyncRead : Bytes → Except BeastError Request) (a : PipeAnswers) :
    (∃ code, a.create = .error code ∧ serverWaitToRead asyncRead a = ([], .error .pointer)) ∨
      ∃ h, a.create = .ok h ∧
        ((a.fConnected = false ∧ serverWaitToRead asyncRead a = ([.create h], .error .pointer)) ∨
          (a.fConnected = true ∧ a.write ≠ .complete ∧
            serverWaitToRead asyncRead a = ([.create h, .close h], .error .systemError)) ∨
          (a.fConnected = true ∧ a.write = .complete ∧
            serverWaitToRead asyncRead a = ([.create h, .close h, .close h], .ok ()))) := by
  cases hcreate : a.create with
  | error code => exact .inl ⟨code, rfl, by simp [serverWaitToRead, hcreate]⟩
  | ok h =>
    refine .inr ⟨h, rfl, ?_⟩
    cases hconn : a.fConnected with
    | false => exact .inl ⟨rfl, by simp [serverWaitToRead, hcreate, hconn]⟩
    | true =>
      by_cases hw : a.write = .complete
      · have ht : (handleRequest asyncRead a.sent a.write).threw = false := by
          simpa [hw] using handleRequest_threw asyncRead a.sent a.write
        refine .inr (.inr ⟨rfl, hw, ?_⟩)
        simp [serverWaitToRead, hcreate, hconn, ht, StreamHandle.assign, StreamHandle.close,
          StreamHandle.destroy]
      · have ht := (handleRequest_threw asyncRead a.sent a.write).mpr hw
        refine .inr (.inl ⟨rfl, hw, ?_⟩)
        simp [serverWaitToRead, hcreate, hconn, ht, StreamHandle.assign, StreamHandle.close,
          StreamHandle.destroy]

end

def getTimeText : Bytes :=
  "GET /time HTTP/1.1\r\n\r\n".toList.map (·.toNat.toUInt8)

def getTime (sent : Bytes) : Except BeastError Request :=
  if sent = getTimeText then .ok ⟨"GET", "/time", 11⟩
  else if sent = [] then .error .endOfStream
  else .error .malformed

end ScratchServers
