import ScratchServers.PipeServer

/-! What becomes of the handles that `CreateNamedPipe` returns. -/

namespace ScratchServers

section

variable {asyncRead : Bytes → Except BeastError Request}

def HandleOp.own : Option Nat → HandleOp → Option (Option Nat)
  | none, .create h => some (some h)
  | some h, .close h' => if h' = h then some none else none
  | _, _ => none

/-- A call that starts without a handle ends without one, and never closes a
handle that it does not own. -/
def Disciplined (ops : List HandleOp) : Prop :=
  ops.foldlM HandleOp.own none = some none

instance (ops : List HandleOp) : Decidable (Disciplined ops) :=
  inferInstanceAs (Decidable (_ = _))

def PipeServer.HandlesDisciplined (s : PipeServer) : Prop :=
  ∀ ops ∈ s.calls, Disciplined ops

/-- No pipe was created, or its client connected and `http::write` threw, so that
only the destructor of the stream handle closes it. -/
def PipeAnswers.Releases (a : PipeAnswers) : Prop :=
  (∃ code, a.create = .error code) ∨ (a.fConnected = true ∧ a.write ≠ .complete)

theorem serverWaitToRead_disciplined (a : PipeAnswers) :
    Disciplined (serverWaitToRead asyncRead a).1 ↔ a.Releases := by
  rcases serverWaitToRead_cases asyncRead a with ⟨code, hcreate, he⟩ |
    ⟨h, hcreate, ⟨hconn, he⟩ | ⟨hconn, hw, he⟩ | ⟨hconn, hw, he⟩⟩
  · simp [he, PipeAnswers.Releases, hcreate, Disciplined]
  · simp [he, PipeAnswers.Releases, hcreate, hconn, Disciplined, HandleOp.own]
  · simp [he, PipeAnswers.Releases, hconn, hw, Disciplined, HandleOp.own]
  · simp [he, PipeAnswers.Releases, hcreate, hw, Disciplined, HandleOp.own]

theorem pipe_handles_iff {ls : List PipeAnswers} {u : PipeServer}
    (hr : (pipeServer asyncRead).run .start ls = some u) :
    (pipeServer asyncRead).StatesMeet PipeServer.HandlesDisciplined .start ls ↔
      (pipeServer asyncRead).StepsMeet (fun _ a => a.Releases) .start ls := by
  refine System.statesMeet_iff_stepsMeet (J := PipeServer.HandlesDisciplined) (fun _ => id)
    ?_ ?_ nofun hr
  · intro s a s' hs ha hstep
    obtain ⟨_, rfl⟩ := PipeServer.step_eq hstep
    intro ops hops
    rcases List.mem_append.mp hops with hops | hops
    · exact hs ops hops
    · obtain rfl := List.mem_singleton.mp hops
      exact (serverWaitToRead_disciplined a).mpr ha
  · intro s a s' _ ha hstep h
    obtain ⟨_, rfl⟩ := PipeServer.step_eq hstep
    exact ha ((serverWaitToRead_disciplined a).mp (h (serverWaitToRead asyncRead a).1 (by simp)))

theorem pipe_handles_run :
    (pipeServer getTime).StatesMeet PipeServer.HandlesDisciplined .start
      [⟨.ok 4, .error errorPipeConnected, getTimeText, .torn⟩] := by
  obtain ⟨u, hu⟩ : ∃ u, (pipeServer getTime).run .start
      [⟨.ok 4, .error errorPipeConnected, getTimeText, .torn⟩] = some u :=
    Option.isSome_iff_exists.mp (by decide)
  exact (pipe_handles_iff hu).mpr ⟨.inr (by decide), fun _ _ => trivial⟩

/-- A client that is served without any error: its handle is closed twice. -/
theorem pipe_handle_closed_twice :
    ¬ ∀ (asyncRead : Bytes → Except BeastError Request) (s : PipeServer),
      (pipeServer asyncRead).Reachable s → s.HandlesDisciplined := by
  intro h
  obtain ⟨s, hs, hq⟩ := (pipeServer getTime).exists_reachable_of_run .start
    [⟨.ok 4, .ok (), getTimeText, .complete⟩] (·.calls = [[.create 4, .close 4, .close 4]]) rfl
    (by decide)
  have hcalls := of_decide_eq_true hq
  exact absurd (h getTime s hs [.create 4, .close 4, .close 4] (by simp [hcalls])) (by decide)

end

end ScratchServers
