import ScratchServers.RelayIsolation

/-! Whether the process stays up and keeps accepting, whatever its clients and
its sessions meet. -/

namespace ScratchServers

/-- The operations outstanding on an `io_context`; its run loop ends at zero. -/
def EchoServer.work (v : EchoServer) : Nat :=
  v.accepts + v.connections.countP (·.session.any (·.pending.isSome))

def RelayWorld.work (w : RelayWorld) : Nat :=
  w.accepts + w.sessions.countP (·.pending.isSome)

/-- Between two handlers: both servers have armed exactly one `async_accept`,
and neither run loop has come to its end. -/
structure RelayWorld.Available (w : RelayWorld) : Prop where
  running : w.status = .running
  accepts : w.accepts = 1
  backend : w.backend.accepts = 1
  work : 0 < w.work ∧ 0 < w.backend.work

theorem RelayWorld.Available.of_accepts {w : RelayWorld} (hr : w.status = .running)
    (ha : w.accepts = 1) (hb : w.backend.accepts = 1) : w.Available := by
  refine ⟨hr, ha, hb, ?_⟩
  simp only [RelayWorld.work, EchoServer.work, ha, hb]
  omega

def RelayWorldEvent.resolves : RelayWorldEvent → Bool
  | .accept _ _ (.error _) => false
  | _ => true

theorem RelayWorld.Available.step {w w' : RelayWorld} {e : RelayWorldEvent} (h : w.Available)
    (hs : w.step e = some w') (he : e.resolves = true) : w'.Available := by
  obtain ⟨hrunning, haccepts, hbackend, _⟩ := h
  have onStream {k : Nat} {f : TlsStream → TlsStream} (hs : w.onStream k f = some w') :
      w'.Available := by
    obtain ⟨s, _, rfl⟩ := onStream_some.mp hs
    exact .of_accepts hrunning haccepts hbackend
  cases e with
  | accept data forwardData resolve =>
    obtain ⟨_, ⟨_, rfl⟩ | ⟨⟨code, rfl⟩, _⟩⟩ := step_accept hs
    · exact .of_accepts hrunning haccepts hbackend
    · exact absurd he nofun
  | acceptFailed =>
    obtain ⟨_, rfl⟩ := step_acceptFailed hs
    exact .of_accepts hrunning haccepts hbackend
  | clientSend k xs => exact onStream (f := (·.send xs)) (step_running hs).2
  | clientReceive k n => exact onStream (f := (·.receive n)) (step_running hs).2
  | clientShutdown k => exact onStream (f := ({ · with shut := true })) (step_running hs).2
  | session k e =>
    obtain ⟨s, s', conns, _, _, rfl⟩ := step_session hs
    exact .of_accepts hrunning haccepts hbackend
  | backend e =>
    obtain ⟨v, hv, rfl⟩ := step_backend hs
    refine .of_accepts hrunning haccepts ?_
    cases e with
    | acceptFailed =>
      obtain ⟨_, rfl⟩ := EchoServer.step_acceptFailed.mp hv
      exact hbackend
    | connection c e =>
      obtain ⟨_, _, _, _, rfl⟩ := EchoServer.step_connection hv
      exact hbackend

theorem RelayWorld.terminated_of_unresolved {w w' : RelayWorld} {e : RelayWorldEvent}
    (hs : w.step e = some w') (he : e.resolves = false) : w'.status = .terminated := by
  match e with
  | .accept data forwardData (.error code) =>
    obtain ⟨_, ⟨hok, _⟩ | ⟨_, rfl⟩⟩ := step_accept hs
    · exact absurd hok nofun
    · rfl

theorem relay_available_iff {ls : List RelayWorldEvent} {u : RelayWorld}
    (hr : relayWorld.run .construct ls = some u) :
    relayWorld.StatesMeet RelayWorld.Available .construct ls ↔
      relayWorld.StepsMeet (fun _ e => e.resolves) .construct ls := by
  refine System.statesMeet_iff_stepsMeet (J := RelayWorld.Available) (fun _ => id) ?_ ?_ ?_ hr
  · intro w e w' hw he hs
    exact hw.step hs he
  · intro w e w' _ he hs h
    have hterm := RelayWorld.terminated_of_unresolved hs (Bool.eq_false_iff.mpr he)
    exact absurd (h.running.symm.trans hterm) nofun
  · exact .of_accepts rfl rfl rfl

theorem relay_available_run :
    relayWorld.StatesMeet RelayWorld.Available .construct
      (acceptClient 0 ++ [.acceptFailed] ++ echoRound 0 0 1 [1, 2] ++ [.session 0 .fail,
        .backend .acceptFailed]) := by
  obtain ⟨w, hw⟩ : ∃ w, relayWorld.run .construct (acceptClient 0 ++ [.acceptFailed] ++
      echoRound 0 0 1 [1, 2] ++ [.session 0 .fail, .backend .acceptFailed]) = some w :=
    Option.isSome_iff_exists.mp (by decide +kernel)
  exact (relay_available_iff hw).mpr (System.stepsMeet_of_runBy (by decide +kernel))

theorem relay_terminates_unresolved :
    ¬ ∀ w : RelayWorld, relayWorld.Reachable w → w.Available := by
  intro h
  obtain ⟨w, hw, hq⟩ := relayWorld.exists_reachable_of_run .construct
    [.accept (.filled 0) (.filled 0) (.error 11001)] (fun w => w.status = .terminated) rfl
    (by decide +kernel)
  exact absurd ((h w hw).running.symm.trans (of_decide_eq_true hq)) nofun

end ScratchServers
