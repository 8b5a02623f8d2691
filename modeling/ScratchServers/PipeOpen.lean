import Mathlib.Data.List.Induction
import Mathlib.Data.Seq.Basic
import ScratchServers.Transition

/-! The loop in which the three named-pipe clients open the pipe, against every
finite or infinite sequence of answers of the system. -/

namespace ScratchServers

def errorFileNotFound : Nat := 2

def errorPipeBusy : Nat := 231

/-- What the system answers in one round. A failure of `CreateFile` is given by
what `GetLastError` then returns. -/
structure OpenAnswers where
  createFile : Except Nat Nat
  waitNamedPipe : Bool

inductive PipeCall where
  | createFile
  | print (text : String)
  | waitNamedPipe (milliseconds : Nat)
  | setNamedPipeHandleState (h : Nat)
  | assign (h : Nat)
  | write (h : Nat)
  | read (h : Nat)
  | close (h : Nat)
  deriving DecidableEq

def PipeCall.handle : PipeCall → Option Nat
  | .createFile | .print _ | .waitNamedPipe _ => none
  | .setNamedPipeHandleState h | .assign h | .write h | .read h | .close h => some h

/-- `hPipe` is the valid handle that the loop was left with. -/
structure OpenLoop where
  hPipe : Option Nat
  calls : List PipeCall

-- the `return -1` of both failures is commented out in all three copies
def OpenLoop.round (s : OpenLoop) (r : OpenAnswers) : OpenLoop :=
  match s.hPipe, r.createFile with
  | some _, _ => s
  | none, .ok h => { hPipe := some h, calls := s.calls ++ [.createFile] }
  | none, .error code =>
    let refused :=
      if code ≠ errorPipeBusy then [.print ("Could not open pipe. GLE=" ++ toString code ++ "\n")]
      else []
    let timedOut :=
      if r.waitNamedPipe then []
      else [.print "Could not open pipe: 20 second wait timed out."]
    { s with calls := s.calls ++ .createFile :: refused ++ .waitNamedPipe 20000 :: timedOut }

def openLoop (rs : List OpenAnswers) : OpenLoop :=
  rs.foldl OpenLoop.round ⟨none, []⟩

/-- `ClientWrite` up to what the answers make it do: `after` is what it does with
the handle once the loop is left. -/
def clientWriteWith (after : Nat → List PipeCall) (rs : List OpenAnswers) : List PipeCall :=
  (openLoop rs).calls ++ (openLoop rs).hPipe.elim [] after

/-- `http::write` may throw; the destructor of the stream handle closes it. -/
def Client.clientWrite (sent : Bool) : List OpenAnswers → List PipeCall :=
  clientWriteWith fun h =>
    [.setNamedPipeHandleState h, .assign h, .write h] ++ (if sent then [.read h] else []) ++
      [.close h]

def ClientWrite.clientWrite : List OpenAnswers → List PipeCall :=
  clientWriteWith fun h => [.setNamedPipeHandleState h, .assign h, .write h, .close h]

-- `CloseHandle` and the destructor of the stream handle both close it
def NamedPipe.clientWrite : List OpenAnswers → List PipeCall :=
  clientWriteWith fun h =>
    [.setNamedPipeHandleState h, .assign h, .write h, .close h, .close h]

/-- The pipe was busy, and an instance of it came free in time. -/
def OpenAnswers.Busy (r : OpenAnswers) : Prop :=
  r.createFile = .error errorPipeBusy ∧ r.waitNamedPipe = true

/-- A valid handle, another error, or a wait that has timed out. -/
def OpenAnswers.Final (r : OpenAnswers) : Prop :=
  (∃ h, r.createFile = .ok h) ∨ (∃ code, r.createFile = .error code ∧ code ≠ errorPipeBusy) ∨
    r.waitNamedPipe = false

def Looping (answers : Stream'.Seq OpenAnswers) (n : Nat) : Prop :=
  (openLoop (answers.take n)).hPipe = none

/-- The loop goes round again only when the pipe was busy and has come free, it
ends with the first final answer, only a handle that was obtained is used, and
without a pipe the client comes to an end. -/
structure StopsWhenItShould (clientWrite : List OpenAnswers → List PipeCall)
    (answers : Stream'.Seq OpenAnswers) : Prop where
  again : ∀ k r, answers.get? k = some r → Looping answers (k + 1) → r.Busy
  ends : ∀ k r, answers.get? k = some r → r.Final → ¬ Looping answers (k + 1)
  uses : ∀ n, ∀ call ∈ clientWrite (answers.take n), ∀ h ∈ call.handle,
    ∃ k r, k < n ∧ answers.get? k = some r ∧ r.createFile = .ok h
  absent : (∀ k, ∃ r, answers.get? k = some r ∧ r.createFile = .error errorFileNotFound) →
    ∃ n, ¬ Looping answers n

/-- Every round before the first valid handle finds the pipe busy, and waits for
it with success. -/
def BusyUntilOpen (answers : Stream'.Seq OpenAnswers) : Prop :=
  ∀ k r, answers.get? k = some r →
    (∀ j ≤ k, ∀ q ∈ answers.get? j, ∀ h, q.createFile ≠ .ok h) → r.Busy

theorem OpenLoop.round_hPipe {s : OpenLoop} {r : OpenAnswers} {h : Nat} :
    (s.round r).hPipe = some h ↔ s.hPipe = some h ∨ (s.hPipe = none ∧ r.createFile = .ok h) := by
  cases hp : s.hPipe with
  | some g => simp [round, hp]
  | none => cases hc : r.createFile <;> simp [round, hp, hc]

theorem OpenLoop.round_calls {s : OpenLoop} {r : OpenAnswers} {call : PipeCall}
    (h : call ∈ (s.round r).calls) : call ∈ s.calls ∨ call.handle = none := by
  cases hp : s.hPipe with
  | some g =>
    simp only [round, hp] at h
    exact .inl h
  | none =>
    cases hc : r.createFile with
    | ok g =>
      simp only [round, hp, hc, List.mem_append, List.mem_singleton] at h
      exact h.imp_right fun he => by rw [he]; rfl
    | error code =>
      simp only [round, hp, hc, List.mem_append, List.mem_cons] at h
      rcases h with (h | rfl | h) | rfl | h
      · exact .inl h
      · exact .inr rfl
      · split at h <;> simp at h
        exact .inr (by rw [h]; rfl)
      · exact .inr rfl
      · split at h <;> simp at h
        exact .inr (by rw [h]; rfl)

theorem openLoop_append (rs : List OpenAnswers) (r : OpenAnswers) :
    openLoop (rs ++ [r]) = (openLoop rs).round r := by
  simp only [openLoop, List.foldl_append, List.foldl_cons, List.foldl_nil]

theorem openLoop_looping_iff (rs : List OpenAnswers) :
    (openLoop rs).hPipe = none ↔ ∀ r ∈ rs, ∀ h, r.createFile ≠ .ok h := by
  induction rs using List.reverseRecOn with
  | nil => simp [openLoop]
  | append_singleton rs r ih =>
    have hround (h : Nat) := (openLoop rs).round_hPipe (r := r) (h := h)
    simp only [openLoop_append, Option.eq_none_iff_forall_ne_some, ne_eq, hround, not_or, not_and,
      List.mem_append, List.mem_singleton] at ih ⊢
    constructor
    · intro hn q hq h
      rcases hq with hq | rfl
      · exact ih.mp (fun g => (hn g).1) q hq h
      · exact (hn h).2 fun g => (hn g).1
    · intro hall h
      have hold := ih.mpr fun q hq => hall q (.inl hq)
      exact ⟨hold h, fun _ => hall r (.inr rfl) h⟩

theorem openLoop_handle {rs : List OpenAnswers} {h : Nat} (hp : (openLoop rs).hPipe = some h) :
    ∃ r ∈ rs, r.createFile = .ok h := by
  induction rs using List.reverseRecOn with
  | nil => simp [openLoop] at hp
  | append_singleton rs r ih =>
    rw [openLoop_append, OpenLoop.round_hPipe] at hp
    rcases hp with hp | ⟨_, hc⟩
    · obtain ⟨q, hq, hc⟩ := ih hp
      exact ⟨q, List.mem_append_left _ hq, hc⟩
    · exact ⟨r, List.mem_append_right _ (List.mem_singleton.mpr rfl), hc⟩

theorem openLoop_calls {rs : List OpenAnswers} {call : PipeCall}
    (h : call ∈ (openLoop rs).calls) : call.handle = none := by
  induction rs using List.reverseRecOn with
  | nil => simp [openLoop] at h
  | append_singleton rs r ih =>
    rw [openLoop_append] at h
    exact (OpenLoop.round_calls h).elim ih id

section

variable {answers : Stream'.Seq OpenAnswers}

theorem mem_take_answers {n : Nat} {r : OpenAnswers} :
    r ∈ answers.take n ↔ ∃ k < n, answers.get? k = some r := by
  simp only [List.mem_iff_getElem?, Stream'.Seq.getElem?_take, Option.ite_none_right_eq_some]

theorem looping_iff {n : Nat} :
    Looping answers n ↔ ∀ j < n, ∀ q ∈ answers.get? j, ∀ h, q.createFile ≠ .ok h := by
  rw [Looping, openLoop_looping_iff]
  constructor
  · intro h j hj q hq
    exact h q (mem_take_answers.mpr ⟨j, hj, hq⟩)
  · intro h q hq
    obtain ⟨j, hj, hget⟩ := mem_take_answers.mp hq
    exact h j hj q hget

theorem clientWriteWith_uses {after : Nat → List PipeCall}
    (hafter : ∀ h, ∀ call ∈ after h, ∀ g ∈ call.handle, g = h) {n : Nat} {call : PipeCall}
    (hcall : call ∈ clientWriteWith after (answers.take n)) {h : Nat} (hh : h ∈ call.handle) :
    ∃ k r, k < n ∧ answers.get? k = some r ∧ r.createFile = .ok h := by
  rcases List.mem_append.mp hcall with hcall | hcall
  · have hnone := openLoop_calls hcall
    rw [hnone] at hh
    exact absurd hh (by simp)
  · cases hp : (openLoop (answers.take n)).hPipe with
    | none => simp [hp] at hcall
    | some g =>
      rw [hp] at hcall
      obtain rfl : h = g := hafter g call hcall h hh
      obtain ⟨r, hr, hc⟩ := openLoop_handle hp
      obtain ⟨k, hk, hget⟩ := mem_take_answers.mp hr
      exact ⟨k, r, hk, hget, hc⟩

/-- Without the commented returns the loop takes every failure for a busy pipe. -/
theorem clientWriteWith_stops_iff {after : Nat → List PipeCall}
    (hafter : ∀ h, ∀ call ∈ after h, ∀ g ∈ call.handle, g = h) :
    StopsWhenItShould (clientWriteWith after) answers ↔ BusyUntilOpen answers := by
  constructor
  · intro hstops k r hk hno
    exact hstops.again k r hk (looping_iff.mpr fun j hj => hno j (Nat.le_of_lt_succ hj))
  · intro hbusy
    have again (k : Nat) (r : OpenAnswers) (hk : answers.get? k = some r)
        (hloop : Looping answers (k + 1)) : r.Busy :=
      hbusy k r hk fun j hj => looping_iff.mp hloop j (Nat.lt_succ_of_le hj)
    refine ⟨again, fun k r hk hfinal hloop => ?_, ?_, fun habsent => ?_⟩
    · obtain ⟨hcreate, hwait⟩ := again k r hk hloop
      rcases hfinal with ⟨h, hok⟩ | ⟨code, hcode, hne⟩ | htimeout
      · exact absurd (hok.symm.trans hcreate) (by simp)
      · exact hne (Except.error.inj (hcode.symm.trans hcreate))
      · exact absurd (htimeout.symm.trans hwait) Bool.false_ne_true
    · intro n call hcall h hh
      exact clientWriteWith_uses hafter hcall hh
    · obtain ⟨r, hr, hc⟩ := habsent 0
      have hno : ∀ j ≤ 0, ∀ q ∈ answers.get? j, ∀ h, q.createFile ≠ .ok h := by
        intro j hj q hq h hok
        obtain rfl : j = 0 := Nat.le_zero.mp hj
        obtain rfl : r = q := Option.some.inj (hr.symm.trans hq)
        exact absurd (hc.symm.trans hok) (by simp)
      have hbad := (hbusy 0 r hr hno).1
      exact absurd (hc.symm.trans hbad) (by simp [errorFileNotFound, errorPipeBusy])

end

/-- Each of the three clients' loops does what it is for exactly on the sequences
in which every round before the first valid handle finds the pipe busy and waits
for it with success. -/
theorem open_loop_stops_iff (answers : Stream'.Seq OpenAnswers) (sent : Bool) :
    (StopsWhenItShould (Client.clientWrite sent) answers ↔ BusyUntilOpen answers) ∧
      (StopsWhenItShould ClientWrite.clientWrite answers ↔ BusyUntilOpen answers) ∧
      (StopsWhenItShould NamedPipe.clientWrite answers ↔ BusyUntilOpen answers) := by
  refine ⟨clientWriteWith_stops_iff fun h => ?_, clientWriteWith_stops_iff fun h => ?_,
    clientWriteWith_stops_iff fun h => ?_⟩
  · cases sent <;> simp [PipeCall.handle]
  · simp [PipeCall.handle]
  · simp [PipeCall.handle]

/-- No pipe exists: the client tries for ever. -/
theorem open_loop_spins :
    ¬ ∀ (answers : Stream'.Seq OpenAnswers) (sent : Bool),
      StopsWhenItShould (Client.clientWrite sent) answers := by
  intro h
  let refused : OpenAnswers := ⟨.error errorFileNotFound, false⟩
  let answers : Stream'.Seq OpenAnswers := ⟨fun _ => some refused, fun hn => absurd hn (by simp)⟩
  obtain ⟨n, hn⟩ := (h answers true).absent fun k => ⟨refused, rfl, rfl⟩
  refine hn (looping_iff.mpr fun j _ q hq g hok => ?_)
  obtain rfl : refused = q := Option.some.inj hq
  exact absurd hok (by simp [refused])

end ScratchServers
