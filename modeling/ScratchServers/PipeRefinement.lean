import ScratchServers.PipeWorld

/-! The calls that the named-pipe server makes among its clients are those of the
server that is told how each client behaves, and it stops with the first client
that it loses. -/

namespace ScratchServers

/-- No call of `CreateNamedPipe` fails. -/
def PipeWorldEvent.creates : PipeWorldEvent → Bool
  | .create (.error _) => false
  | _ => true

/-- A client that was let in and has left without an answer. -/
def PipePeer.Lost (p : PipePeer) : Prop :=
  p.opened = true ∧ p.left = true ∧ p.got = none

section

variable {parse : Bytes → Option (Except BeastError Request)} {room : List Bytes → Nat}
  {w w' : PipeWorld} {result : Except BeastError Request}

/-- What is known of `ConnectNamedPipe` once it has let a client in. -/
def PipePhase.LetIn : PipePhase → Prop
  | .reading _ _ connect | .writing _ _ connect _ =>
    connect = .ok () ∨ connect = .error errorPipeConnected
  | _ => True

theorem pipeService_step {v : PipeServer} {h : Nat} {c : PipeClient}
    (hread : readPipe parse room c.closes [] c.messages = some result) (htakes : c.takes = true)
    {v' : PipeServer} (hs : v.step (fun _ => result) (c.answers h) = some v') :
    (pipeService parse room).step v (h, c) = some v' := by
  have hlooping := (PipeServer.step_eq hs).1
  have hwaits : ¬ (c.stays = true ∧ c.takes = false) := by simp [htakes]
  simp only [pipeService, PipeServer.serve, if_pos hlooping, hread, if_neg hwaits]
  exact hs

/-- However the write fails, it throws. -/
theorem PipeServer.step_refused (v : PipeServer) (asyncRead : Bytes → Except BeastError Request)
    (create : Except Nat Nat) (connect : Except Nat Unit) (sent : Bytes) {outcome : WriteOutcome}
    (hw : outcome ≠ .complete) :
    v.step asyncRead ⟨create, connect, sent, outcome⟩ =
      v.step asyncRead ⟨create, connect, sent, .refused⟩ := by
  have hthrew : (handleRequest asyncRead sent outcome).threw =
      (handleRequest asyncRead sent .refused).threw := by
    rw [(handleRequest_threw asyncRead sent outcome).mpr hw,
      (handleRequest_threw asyncRead sent .refused).mpr (by simp)]
  simp only [PipeServer.step, serverWaitToRead, PipeAnswers.fConnected, hthrew]

/-- The call is that of the service with a client that has written what the server
has read, and is still there if the response could be written. -/
theorem pipeService_returns {v v' : PipeServer} {h : Nat} {connect : Except Nat Unit}
    (hconn : connect = .ok () ∨ connect = .error errorPipeConnected) {left : Bool}
    {read : List Bytes} (hread : readPipe parse room left [] read = some result)
    {outcome : WriteOutcome} (houtcome : outcome = .complete ↔ left = false)
    (hs : v.step (fun _ => result) ⟨.ok h, connect, read.flatten, outcome⟩ = some v') :
    ∃ c : PipeClient, (pipeService parse room).step v (h, c) = some v' := by
  obtain ⟨early, hearly⟩ : ∃ early : Bool, connect =
      if early then .error errorPipeConnected else .ok () := by
    rcases hconn with rfl | rfl
    · exact ⟨false, rfl⟩
    · exact ⟨true, rfl⟩
  subst hearly
  by_cases hw : outcome = .complete
  · have hleft := houtcome.mp hw
    subst hleft hw
    exact ⟨⟨read, early, true, none⟩, pipeService_step hread rfl hs⟩
  · have hleft : left = true := by
      by_contra hno
      exact hw (houtcome.mpr (Bool.eq_false_iff.mpr hno))
    subst hleft
    rw [v.step_refused _ _ _ _ hw] at hs
    exact ⟨⟨read, early, true, some .beforeWrite⟩, pipeService_step hread rfl hs⟩

structure PipeWorld.Serves (parse : Bytes → Option (Except BeastError Request))
    (room : List Bytes → Nat) (w : PipeWorld) : Prop where
  letIn : w.phase.LetIn
  service : (pipeService parse room).Reachable w.server
  lost : w.phase = .ended → ∃ (k : Nat) (p : PipePeer), w.peers[k]? = some p ∧ p.Lost

theorem PipeWorld.Serves.step (h : w.Serves parse room) (hsound : w.Sound parse room)
    {e : PipeWorldEvent} (he : e.creates = true) (hs : w.step parse room e = some w') :
    w'.Serves parse room := by
  cases e with
  | arrive text =>
    obtain rfl := Option.some.inj hs
    refine ⟨h.letIn, h.service, fun hended => ?_⟩
    obtain ⟨k, p, hk, hlost⟩ := h.lost hended
    refine ⟨k, p, ?_, hlost⟩
    simp only [List.getElem?_append_left (lt_length_of_getElem? hk), hk]
  | «open» k =>
    obtain ⟨p, phase, hk, hopened, hleft, hphase, rfl⟩ := step_open.mp hs
    obtain ⟨_, _, hended, _, _⟩ := PipePhase.view_openBy hphase
    refine ⟨?_, h.service, fun hstop => absurd hstop hended⟩
    obtain ⟨hPipe, ⟨_, rfl⟩ | ⟨_, rfl⟩⟩ := PipePhase.openBy_eq_some.mp hphase <;> trivial
  | send k n =>
    obtain ⟨p, hk, _, hleft, _, _, rfl⟩ := step_send.mp hs
    refine ⟨h.letIn, h.service, fun hended => ?_⟩
    obtain ⟨j, q, hj, hlost⟩ := h.lost hended
    have hne : k ≠ j := by
      rintro rfl
      obtain rfl : p = q := Option.some.inj (hk.symm.trans hj)
      exact absurd (hleft.symm.trans hlost.2.1) (by simp)
    exact ⟨j, q, by rw [List.getElem?_set_ne hne, hj], hlost⟩
  | leave k =>
    obtain ⟨p, hk, hleft, rfl⟩ := step_leave.mp hs
    refine ⟨h.letIn, h.service, fun hended => ?_⟩
    obtain ⟨j, q, hj, hlost⟩ := h.lost hended
    have hne : k ≠ j := by
      rintro rfl
      obtain rfl : p = q := Option.some.inj (hk.symm.trans hj)
      exact absurd (hleft.symm.trans hlost.2.1) (by simp)
    exact ⟨j, q, by rw [List.getElem?_set_ne hne, hj], hlost⟩
  | create answer =>
    obtain ⟨_, ⟨hPipe, rfl, rfl⟩ | ⟨code, rfl, _⟩⟩ := step_create.mp hs
    · exact ⟨trivial, h.service, (by simp)⟩
    · exact absurd he (by simp [PipeWorldEvent.creates])
  | connect =>
    obtain ⟨hPipe, ⟨_, rfl⟩ | ⟨k, p, _, hk, _, rfl⟩ | ⟨k, p, hphase, hk, hleft, hs⟩ |
      ⟨k, _, rfl⟩⟩ := step_connect.mp hs
    · exact ⟨trivial, h.service, (by simp)⟩
    · exact ⟨.inr rfl, h.service, (by simp)⟩
    · have hno : ¬ PipeAnswers.Returns ⟨.ok hPipe, .error errorNoData, [], .refused⟩ :=
        fun hreturns => absurd hreturns.2.2 (by simp)
      have hcall := finish_step hs
      have hstep : (pipeService parse room).step w.server
          (hPipe, ⟨[], true, true, some .beforeConnect⟩) = some w'.server :=
        pipeService_step rfl rfl hcall
      obtain ⟨_, hw'⟩ := finish_throws hno hs
      have hplace := (hsound.peers k p hk).place
      simp only [hphase, PipePhase.view, if_true] at hplace
      refine ⟨by rw [hw']; trivial, h.service.next trivial hstep, fun _ => ?_⟩
      exact ⟨k, p, by rw [hw']; exact hk, hplace.1, hleft, hplace.2.1⟩
    · exact ⟨.inl rfl, h.service, (by simp)⟩
  | read =>
    obtain ⟨hPipe, k, connect, p, hphase, _, hs⟩ := step_read.mp hs
    have hletIn := h.letIn
    rw [hphase] at hletIn
    rcases readNext_cases hs with ⟨_, _, _, _, rfl⟩ | ⟨_, _, _, _, _, rfl⟩ | ⟨_, _, rfl⟩
    · exact ⟨hletIn, h.service, (by simp)⟩
    · exact ⟨hletIn, h.service, (by simp)⟩
    · exact ⟨hletIn, h.service, (by simp)⟩
  | write outcome =>
    obtain ⟨hPipe, k, connect, result, p, hphase, hk, houtcome, hs⟩ := step_write.mp hs
    have hletIn := h.letIn
    rw [hphase] at hletIn
    have hplace := (hsound.peers k p hk).place
    simp only [hphase, PipePhase.view, if_true] at hplace
    obtain ⟨hopened, hgot, hread⟩ := hplace
    have hconn : (PipeAnswers.mk (.ok hPipe) connect p.read.flatten outcome).fConnected =
        true := by
      rcases hletIn with rfl | rfl <;> simp [PipeAnswers.fConnected]
    have hcall := finish_step hs
    have hserver : (if outcome = .complete then
        { w with peers := w.peers.set k { p with
          got := (handleRequest (fun _ => result) p.read.flatten outcome).written } }
      else w : PipeWorld).server = w.server := by
      split <;> rfl
    rw [hserver] at hcall
    obtain ⟨c, hstep⟩ := pipeService_returns hletIn hread houtcome hcall
    have hservice := h.service.next trivial hstep
    by_cases hw : outcome = .complete
    · obtain ⟨_, hw'⟩ := finish_returns ⟨⟨hPipe, rfl⟩, hconn, hw⟩ hs
      exact ⟨by rw [hw']; trivial, hservice, by rw [hw']; simp⟩
    · rw [if_neg hw] at hs
      have hleft : p.left = true := by
        by_contra hno
        exact hw (houtcome.mpr (Bool.eq_false_iff.mpr hno))
      obtain ⟨_, hw'⟩ := finish_throws (fun hreturns => hw hreturns.2.2) hs
      refine ⟨by rw [hw']; trivial, hservice, fun _ => ?_⟩
      exact ⟨k, p, by rw [hw']; exact hk, hopened, hleft, hgot⟩

theorem pipeWorld_serves (h : (pipeWorld parse room).ReachableBy (fun _ e => e.creates) w) :
    w.Sound parse room ∧ w.Serves parse room := by
  refine h.invariant (P := fun w => w.Sound parse room ∧ w.Serves parse room) ?_ ?_
  · intro w hstart
    refine ⟨pipeWorld_sound (.start hstart), ?_⟩
    subst hstart
    exact ⟨trivial, .start rfl, nofun⟩
  · intro w e w' hboth he hs
    exact ⟨hboth.1.step hs, hboth.2.step hboth.1 he hs⟩

end

end ScratchServers
