import Mathlib.Data.List.Forall2
import Mathlib.Order.Basic

/-! Labelled systems given by an executable partial step. A run is a list of
labels, and a condition on a run is a condition on each state and the label
taken there. -/

namespace ScratchServers

/-- `step s l = none` means that `l` is not enabled in `s`. -/
structure System (S L : Type*) where
  start : S → Prop
  step : S → L → Option S

variable {S L : Type*}

/-- States reached by runs all of whose steps are allowed where they are taken. -/
inductive System.ReachableBy (m : System S L) (allowed : S → L → Prop) : S → Prop
  | start {s : S} : m.start s → ReachableBy m allowed s
  | next {s t : S} {l : L} :
      ReachableBy m allowed s → allowed s l → m.step s l = some t → ReachableBy m allowed t

def System.Reachable (m : System S L) : S → Prop :=
  m.ReachableBy fun _ _ => True

def System.Stuck (m : System S L) (s : S) : Prop :=
  ∀ l, m.step s l = none

def System.run (m : System S L) : S → List L → Option S
  | s, [] => some s
  | s, l :: ls => (m.step s l).bind fun t => m.run t ls

def System.runBy (m : System S L) (allowed : S → L → Prop) [∀ s l, Decidable (allowed s l)] :
    S → List L → Option S
  | s, [] => some s
  | s, l :: ls => if allowed s l then (m.step s l).bind fun t => m.runBy allowed t ls else none

def System.StepsMeet (m : System S L) (C : S → L → Prop) : S → List L → Prop
  | _, [] => True
  | s, l :: ls => C s l ∧ ∀ t, m.step s l = some t → m.StepsMeet C t ls

/-- The property holds in each state that the labels pass through. -/
def System.StatesMeet (m : System S L) (P : S → Prop) : S → List L → Prop
  | s, [] => P s
  | s, l :: ls => P s ∧ ∀ t, m.step s l = some t → m.StatesMeet P t ls

theorem System.Stuck.not_step {m : System S L} {s t : S} (h : m.Stuck s) (l : L) :
    m.step s l ≠ some t := by
  simp [h l]

theorem System.run_cons {m : System S L} {s u : S} {l : L} {ls : List L}
    (h : m.run s (l :: ls) = some u) : ∃ t, m.step s l = some t ∧ m.run t ls = some u :=
  Option.bind_eq_some_iff.mp h

theorem System.ReachableBy.mono {m : System S L} {A B : S → L → Prop} {s : S}
    (h : m.ReachableBy A s) (hAB : ∀ s l, A s l → B s l) : m.ReachableBy B s := by
  induction h with
  | start hs => exact .start hs
  | next _ ha ht ih => exact .next ih (hAB _ _ ha) ht

theorem System.ReachableBy.reachable {m : System S L} {A : S → L → Prop} {s : S}
    (h : m.ReachableBy A s) : m.Reachable s :=
  h.mono fun _ _ _ => trivial

theorem System.ReachableBy.invariant {m : System S L} {A : S → L → Prop} {P : S → Prop} {s : S}
    (h : m.ReachableBy A s) (hstart : ∀ s, m.start s → P s)
    (hstep : ∀ s l t, P s → A s l → m.step s l = some t → P t) : P s := by
  induction h with
  | start hs => exact hstart _ hs
  | next _ ha ht ih => exact hstep _ _ _ ih ha ht

theorem System.Reachable.invariant {m : System S L} {P : S → Prop} {s : S}
    (h : m.Reachable s) (hstart : ∀ s, m.start s → P s)
    (hstep : ∀ s l t, P s → m.step s l = some t → P t) : P s :=
  System.ReachableBy.invariant h hstart fun s l t hp _ ht => hstep s l t hp ht

theorem System.ReachableBy.runBy {m : System S L} {A : S → L → Prop}
    [∀ s l, Decidable (A s l)] {s t : S} {ls : List L} (h : m.ReachableBy A s)
    (hr : m.runBy A s ls = some t) : m.ReachableBy A t := by
  induction ls generalizing s with
  | nil => exact Option.some.inj hr ▸ h
  | cons l ls ih =>
    simp only [System.runBy] at hr
    split at hr
    · rename_i ha
      obtain ⟨u, hu, hr⟩ := Option.bind_eq_some_iff.mp hr
      exact ih (h.next ha hu) hr
    · exact absurd hr nofun

theorem System.run_keeps {m : System S L} {P : S → Prop} {s t : S} {ls : List L}
    (hstep : ∀ s l t, P s → m.step s l = some t → P t) (hs : P s) (hr : m.run s ls = some t) :
    P t := by
  induction ls generalizing s with
  | nil => exact Option.some.inj hr ▸ hs
  | cons l ls ih =>
    obtain ⟨u, hu, hr⟩ := run_cons hr
    exact ih (hstep _ _ _ hs hu) hr

theorem System.exists_reachableBy_of_run (m : System S L) (A : S → L → Prop)
    [∀ s l, Decidable (A s l)] (s : S) (ls : List L) (q : S → Bool) (hs : m.start s)
    (h : (m.runBy A s ls).any q = true) : ∃ t, m.ReachableBy A t ∧ q t = true := by
  obtain ⟨t, ht, hq⟩ := (Option.any_eq_true _ _).mp h
  exact ⟨t, System.ReachableBy.runBy (.start hs) ht, hq⟩

theorem System.exists_reachable_of_run (m : System S L) (s : S) (ls : List L) (q : S → Bool)
    (hs : m.start s) (h : (m.runBy (fun _ _ => True) s ls).any q = true) :
    ∃ t, m.Reachable t ∧ q t = true :=
  m.exists_reachableBy_of_run _ s ls q hs h

theorem System.stepsMeet_of_runBy {m : System S L} {C : S → L → Prop}
    [∀ s l, Decidable (C s l)] {s : S} {ls : List L} (h : (m.runBy C s ls).isSome = true) :
    m.StepsMeet C s ls := by
  induction ls generalizing s with
  | nil => trivial
  | cons l ls ih =>
    simp only [System.runBy] at h
    split at h
    · rename_i hc
      refine ⟨hc, fun t ht => ih ?_⟩
      rwa [ht] at h
    · exact absurd h nofun

/-- When steps that meet `C` keep an invariant that gives `P`, and every other
step out of the invariant breaks `P`, the runs that keep `P` are exactly those
whose steps all meet `C`. -/
theorem System.statesMeet_iff_stepsMeet {m : System S L} {C : S → L → Prop} {P J : S → Prop}
    (hJP : ∀ s, J s → P s)
    (hkeep : ∀ s l t, J s → C s l → m.step s l = some t → J t)
    (hbreak : ∀ s l t, J s → ¬ C s l → m.step s l = some t → ¬ P t)
    {s u : S} {ls : List L} (hs : J s) (hr : m.run s ls = some u) :
    m.StatesMeet P s ls ↔ m.StepsMeet C s ls := by
  induction ls generalizing s with
  | nil => exact ⟨fun _ => trivial, fun _ => hJP s hs⟩
  | cons l ls ih =>
    obtain ⟨t, ht, hr⟩ := run_cons hr
    have head {Q : S → Prop} (hq : ∀ v, m.step s l = some v → Q v) : Q t := hq t ht
    constructor
    · intro h
      have hPt : P t := by
        have htail := head h.2
        cases ls with
        | nil => exact htail
        | cons => exact htail.1
      have hC : C s l := by
        by_contra hC
        exact hbreak s l t hs hC ht hPt
      refine ⟨hC, fun v hv => ?_⟩
      obtain rfl : t = v := Option.some.inj (ht.symm.trans hv)
      exact (ih (hkeep s l t hs hC ht) hr).mp (head h.2)
    · intro h
      refine ⟨hJP s hs, fun v hv => ?_⟩
      obtain rfl : t = v := Option.some.inj (ht.symm.trans hv)
      exact (ih (hkeep s l t hs h.1 ht) hr).mpr (head h.2)

/-- Each step of one system is matched by a step of another, or leaves its
image where it is. -/
theorem System.ReachableBy.simulate {S' L' : Type*} {m : System S L} {m' : System S' L'}
    {A : S → L → Prop} {A' : S' → L' → Prop} (f : S → S')
    (hstart : ∀ s, m.start s → m'.start (f s))
    (hstep : ∀ s l t, m.ReachableBy A s → A s l → m.step s l = some t →
      f t = f s ∨ ∃ l', A' (f s) l' ∧ m'.step (f s) l' = some (f t))
    {s : S} (h : m.ReachableBy A s) : m'.ReachableBy A' (f s) := by
  induction h with
  | start hs => exact .start (hstart _ hs)
  | next hs ha ht ih =>
    rcases hstep _ _ _ hs ha ht with he | ⟨l', ha', ht'⟩
    · exact he ▸ ih
    · exact ih.next ha' ht'

end ScratchServers
