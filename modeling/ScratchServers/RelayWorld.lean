import ScratchServers.RelayLedger

/-! The process of `echo_ssl_server.cpp`: the relay's accept loop and its
sessions on one `io_context`, the echo server on another, and any number of TLS
clients that do as they please. -/

namespace ScratchServers

inductive ProcessStatus where
  | running
  | terminated
  deriving DecidableEq

/-- `accepts` counts the `async_accept` operations outstanding on the relay. -/
structure RelayWorld where
  accepts : Nat
  sessions : List RelaySession
  backend : EchoServer
  status : ProcessStatus

def RelayWorld.doAccept (w : RelayWorld) : RelayWorld :=
  { w with accepts := w.accepts + 1 }

/-- The handler of `async_accept`. With no error it constructs a session before
it accepts again, and the constructor may throw. -/
def RelayWorld.onAccept (w : RelayWorld) : Option (Except Nat RelaySession) → Except Nat RelayWorld
  | some session => session.map fun s => doAccept { w with sessions := w.sessions ++ [s.start] }
  | none => .ok w.doAccept

/-- What is left of the process when a handler has run. An exception leaves
`io_context2.run()` and unwinds `main`, where the destructor of `t2`, started
and not yet joined, terminates the process before any `catch` is reached. -/
def RelayWorld.afterHandler (w : RelayWorld) : Except Nat RelayWorld → RelayWorld
  | .ok w' => w'
  | .error _ => { w with status := .terminated }

def RelayWorld.construct : RelayWorld :=
  doAccept ⟨0, [], .construct, .running⟩

inductive RelayWorldEvent where
  | accept (data forwardData : Buffer Byte maxLength) (resolve : Except Nat Unit)
  | acceptFailed
  | clientSend (k : Nat) (xs : Bytes)
  | clientReceive (k n : Nat)
  | clientShutdown (k : Nat)
  | session (k : Nat) (e : RelayEvent)
  | backend (e : EchoServerEvent)

def RelayWorld.onStream (w : RelayWorld) (k : Nat) (f : TlsStream → TlsStream) :
    Option RelayWorld :=
  w.sessions[k]?.map fun s =>
    { w with sessions := w.sessions.set k { s with stream := f s.stream } }

def RelayWorld.stepRunning (w : RelayWorld) : RelayWorldEvent → Option RelayWorld
  | .accept data forwardData resolve =>
    if 0 < w.accepts then
      let w' := { w with accepts := w.accepts - 1 }
      some (w'.afterHandler (w'.onAccept (some (RelaySession.construct data forwardData resolve))))
    else none
  | .acceptFailed =>
    if 0 < w.accepts then
      let w' := { w with accepts := w.accepts - 1 }
      some (w'.afterHandler (w'.onAccept none))
    else none
  | .clientSend k xs => w.onStream k (·.send xs)
  | .clientReceive k n => w.onStream k (·.receive n)
  | .clientShutdown k => w.onStream k fun st => { st with shut := true }
  | .session k e =>
    w.sessions[k]?.bind fun s =>
      (s.step w.backend.connections e).map fun r => { w with
        sessions := w.sessions.set k r.1
        backend := { w.backend with connections := r.2 } }
  | .backend e => (w.backend.step e).map fun v => { w with backend := v }

def RelayWorld.step (w : RelayWorld) (e : RelayWorldEvent) : Option RelayWorld :=
  if w.status = .running then w.stepRunning e else none

def relayWorld : System RelayWorld RelayWorldEvent where
  start w := w = .construct
  step := RelayWorld.step

section

variable {w w' : RelayWorld}

theorem RelayWorld.step_running {e : RelayWorldEvent} (h : w.step e = some w') :
    w.status = .running ∧ w.stepRunning e = some w' := by
  unfold step at h
  split at h
  · exact ⟨‹_›, h⟩
  · exact absurd h nofun

theorem RelayWorld.step_accept {data forwardData : Buffer Byte maxLength}
    {resolve : Except Nat Unit} (h : w.step (.accept data forwardData resolve) = some w') :
    0 < w.accepts ∧
      ((resolve = .ok () ∧ w' = { w with
          sessions := w.sessions ++ [⟨.fresh, data, forwardData, none, some .handshake⟩] }) ∨
        ((∃ e, resolve = .error e) ∧
          w' = { w with accepts := w.accepts - 1, status := .terminated })) := by
  obtain ⟨_, hs⟩ := step_running h
  obtain ⟨accepts, sessions, backend, status⟩ := w
  simp only [stepRunning] at hs
  split at hs
  · rename_i hpos
    refine ⟨hpos, ?_⟩
    cases resolve with
    | ok =>
      refine .inl ⟨rfl, (Option.some.inj hs).symm.trans ?_⟩
      simp only [onAccept, RelaySession.construct, Except.map, afterHandler, doAccept,
        RelaySession.start, RelaySession.doHandshake, Nat.sub_add_cancel hpos]
    | error e => exact .inr ⟨⟨e, rfl⟩, (Option.some.inj hs).symm⟩
  · exact absurd hs nofun

theorem RelayWorld.step_acceptFailed (h : w.step .acceptFailed = some w') :
    0 < w.accepts ∧ w' = w := by
  obtain ⟨_, hs⟩ := step_running h
  obtain ⟨accepts, sessions, backend, status⟩ := w
  simp only [stepRunning] at hs
  split at hs
  · rename_i hpos
    refine ⟨hpos, (Option.some.inj hs).symm.trans ?_⟩
    simp only [onAccept, afterHandler, doAccept, Nat.sub_add_cancel hpos]
  · exact absurd hs nofun

theorem RelayWorld.onStream_some {k : Nat} {f : TlsStream → TlsStream} :
    w.onStream k f = some w' ↔ ∃ s, w.sessions[k]? = some s ∧
      w' = { w with sessions := w.sessions.set k { s with stream := f s.stream } } := by
  simp [onStream, Option.map_eq_some_iff, eq_comm (b := w')]

theorem RelayWorld.step_session {k : Nat} {e : RelayEvent} (h : w.step (.session k e) = some w') :
    ∃ s s' conns, w.sessions[k]? = some s ∧
      s.step w.backend.connections e = some (s', conns) ∧
      w' = { w with
        sessions := w.sessions.set k s'
        backend := { w.backend with connections := conns } } := by
  obtain ⟨s, hk, hs⟩ := Option.bind_eq_some_iff.mp (step_running h).2
  obtain ⟨r, hr, rfl⟩ := Option.map_eq_some_iff.mp hs
  exact ⟨s, r.1, r.2, hk, hr, rfl⟩

theorem RelayWorld.step_backend {e : EchoServerEvent} (h : w.step (.backend e) = some w') :
    ∃ v, w.backend.step e = some v ∧ w' = { w with backend := v } := by
  obtain ⟨v, hv, rfl⟩ := Option.map_eq_some_iff.mp (step_running h).2
  exact ⟨v, hv, rfl⟩

end

end ScratchServers
