import Mathlib.Data.List.Induction
import ScratchServers.Transition

/-! Runs that come to an end. A measure that every step lowers bounds the runs
of a system, and what holds where no step is left is their result. -/

namespace ScratchServers

variable {S L : Type*}

/-- No run from `s` has more than `n` steps, each can be carried on until no
step is left, and `Q` holds there. -/
structure System.Completes (m : System S L) (Q : S → Prop) (n : Nat) (s : S) : Prop where
  bounded : ∀ ls t, m.run s ls = some t → ls.length ≤ n
  ends : ∀ ls t, m.run s ls = some t → ∃ ls' u, m.run t ls' = some u ∧ m.Stuck u
  result : ∀ ls t, m.run s ls = some t → m.Stuck t → Q t

/-- The steps of `m` that are allowed where they are taken. -/
def System.only (m : System S L) (allowed : S → L → Prop) [∀ s l, Decidable (allowed s l)] :
    System S L where
  start := m.start
  step s l := if allowed s l then m.step s l else none

section

variable {m : System S L} {s t u : S} {l : L} {ls ls' : List L}

theorem System.step_only {allowed : S → L → Prop} [∀ s l, Decidable (allowed s l)] :
    (m.only allowed).step s l = some t ↔ allowed s l ∧ m.step s l = some t := by
  simp only [only, Option.ite_none_right_eq_some]

theorem System.stuck_only {allowed : S → L → Prop} [∀ s l, Decidable (allowed s l)] :
    (m.only allowed).Stuck s ↔ ∀ l t, allowed s l → m.step s l ≠ some t := by
  constructor
  · intro h l t ha ht
    exact h.not_step l (step_only.mpr ⟨ha, ht⟩)
  · intro h l
    rw [Option.eq_none_iff_forall_ne_some]
    intro t ht
    obtain ⟨ha, hs⟩ := step_only.mp ht
    exact h l t ha hs

theorem System.run_singleton : m.run s [l] = m.step s l := by
  rcases h : m.step s l with _ | t <;> simp [run, h]

theorem System.run_append (h : m.run s ls = some t) : m.run s (ls ++ ls') = m.run t ls' := by
  induction ls generalizing s with
  | nil =>
    obtain rfl : s = t := Option.some.inj h
    rfl
  | cons l ls ih =>
    obtain ⟨v, hv, hr⟩ := run_cons h
    simp only [List.cons_append, run, hv, Option.bind_some]
    exact ih hr

theorem System.run_snoc (h : m.run s (ls ++ [l]) = some u) :
    ∃ t, m.run s ls = some t ∧ m.step t l = some u := by
  induction ls generalizing s with
  | nil => exact ⟨s, rfl, run_singleton.symm.trans h⟩
  | cons l' ls ih =>
    obtain ⟨v, hv, hr⟩ := run_cons h
    obtain ⟨t, ht, hu⟩ := ih hr
    refine ⟨t, ?_, hu⟩
    simp only [run, hv, Option.bind_some]
    exact ht

/-- What holds of a run and its last state, step after step. -/
theorem System.run_history {P : List L → S → Prop} (hnil : P [] s)
    (hsnoc : ∀ ls l t u, m.run s ls = some t → P ls t → m.step t l = some u → P (ls ++ [l]) u)
    (hr : m.run s ls = some t) : P ls t := by
  induction ls using List.reverseRecOn generalizing t with
  | nil => exact Option.some.inj hr ▸ hnil
  | append_singleton ls l ih =>
    obtain ⟨v, hv, ht⟩ := run_snoc hr
    exact hsnoc ls l v t hv (ih hv) ht

theorem System.Reachable.run (h : m.Reachable s) (hr : m.run s ls = some t) : m.Reachable t :=
  System.run_keeps (fun _ _ _ hs ht => ReachableBy.next hs trivial ht) h hr

variable {I Q : S → Prop} {μ : S → Nat}

/-- The steps that `p` picks out lower the measure, and the others do not raise it. -/
theorem System.countP_add_measure_le {p : L → Bool}
    (hkeep : ∀ s l t, I s → m.step s l = some t → I t)
    (hlower : ∀ s l t, I s → m.step s l = some t → μ t + (if p l then 1 else 0) ≤ μ s)
    (hs : I s) (hr : m.run s ls = some t) : ls.countP p + μ t ≤ μ s := by
  induction ls generalizing s with
  | nil =>
    obtain rfl : s = t := Option.some.inj hr
    simp
  | cons l ls ih =>
    obtain ⟨v, hv, hr⟩ := run_cons hr
    have hrest := ih (hkeep s l v hs hv) hr
    have hstep := hlower s l v hs hv
    rw [List.countP_cons]
    omega

theorem System.length_add_measure_le
    (hkeep : ∀ s l t, I s → m.step s l = some t → I t)
    (hlower : ∀ s l t, I s → m.step s l = some t → μ t < μ s)
    (hs : I s) (hr : m.run s ls = some t) : ls.length + μ t ≤ μ s := by
  have hcount := countP_add_measure_le (p := fun _ => true) hkeep
    (fun s l t hs ht => hlower s l t hs ht) hs hr
  rwa [List.countP_true] at hcount

theorem System.exists_stuck_run
    (hkeep : ∀ s l t, I s → m.step s l = some t → I t)
    (hlower : ∀ s l t, I s → m.step s l = some t → μ t < μ s)
    (hs : I s) : ∃ ls t, m.run s ls = some t ∧ m.Stuck t := by
  induction hn : μ s using Nat.strongRecOn generalizing s with
  | ind n ih =>
    by_cases hstuck : m.Stuck s
    · exact ⟨[], s, rfl, hstuck⟩
    · obtain ⟨l, hl⟩ := not_forall.mp hstuck
      obtain ⟨v, hv⟩ := Option.ne_none_iff_exists'.mp hl
      have hlt := hlower s l v hs hv
      obtain ⟨ls, t, hr, ht⟩ := ih (μ v) (hn ▸ hlt) (hkeep s l v hs hv) rfl
      refine ⟨l :: ls, t, ?_, ht⟩
      simp only [run, hv, Option.bind_some]
      exact hr

/-- Total correctness from an invariant and a measure. -/
theorem System.completes_of_measure
    (hkeep : ∀ s l t, I s → m.step s l = some t → I t)
    (hlower : ∀ s l t, I s → m.step s l = some t → μ t < μ s)
    (hstuck : ∀ s, I s → m.Stuck s → Q s)
    (hs : I s) : m.Completes Q (μ s) s where
  bounded ls t hr := by
    have h := length_add_measure_le hkeep hlower hs hr
    omega
  ends ls t hr := exists_stuck_run hkeep hlower (run_keeps hkeep hs hr)
  result ls t hr ht := hstuck t (run_keeps hkeep hs hr) ht

theorem System.Completes.mono {Q' : S → Prop} {n n' : Nat} (h : m.Completes Q n s)
    (hQ : ∀ t, Q t → Q' t) (hn : n ≤ n') : m.Completes Q' n' s where
  bounded ls t hr := Nat.le_trans (h.bounded ls t hr) hn
  ends := h.ends
  result ls t hr ht := hQ t (h.result ls t hr ht)

end

/-- The last state of a run tells whether all its steps have met `C`: a step that
has not leads into `D`, which no step leaves. -/
theorem System.stepsMeet_or_of_run {m : System S L} {J D : S → Prop} {C : S → L → Prop}
    (hkeep : ∀ s l t, J s → C s l → m.step s l = some t → J t)
    (hbad : ∀ s l t, J s → ¬ C s l → m.step s l = some t → D t)
    (hstays : ∀ s l t, D s → m.step s l = some t → D t)
    {s u : S} {ls : List L} (hs : J s) (hr : m.run s ls = some u) :
    (m.StepsMeet C s ls ∧ J u) ∨ (¬ m.StepsMeet C s ls ∧ D u) := by
  induction ls generalizing s with
  | nil =>
    obtain rfl : s = u := Option.some.inj hr
    exact .inl ⟨trivial, hs⟩
  | cons l ls ih =>
    obtain ⟨v, hv, hr⟩ := run_cons hr
    by_cases hl : C s l
    · rcases ih (hkeep s l v hs hl hv) hr with ⟨hmeet, hu⟩ | ⟨hno, hu⟩
      · refine .inl ⟨⟨hl, fun t ht => ?_⟩, hu⟩
        exact Option.some.inj (hv.symm.trans ht) ▸ hmeet
      · exact .inr ⟨fun hmeet => hno (hmeet.2 v hv), hu⟩
    · exact .inr ⟨fun hmeet => hl hmeet.1, run_keeps hstays (hbad s l v hs hl hv) hr⟩

end ScratchServers
