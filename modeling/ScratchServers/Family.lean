import ScratchServers.Completion
import ScratchServers.Selection

/-! Any number of components of one system, added one after another and each
taking steps of its own: what holds of one alone holds of each among the others. -/

namespace ScratchServers

variable {S L : Type*}

inductive FamilyEvent (S L : Type*) where
  | spawn (s : S)
  | member (i : Nat) (l : L)

/-- A component is added in a start state. -/
def System.family (m : System S L) : System (List S) (FamilyEvent {s // m.start s} L) where
  start ss := ss = []
  step ss
    | .spawn s => some (ss ++ [s.1])
    | .member i l => ss[i]?.bind fun s => (m.step s l).map (ss.set i ·)

section

variable {m : System S L} {ss ss' : List S}

theorem System.family_step_member {i : Nat} {l : L} :
    m.family.step ss (.member i l) = some ss' ↔
      ∃ s t, ss[i]? = some s ∧ m.step s l = some t ∧ ss' = ss.set i t := by
  simp only [family, Option.bind_eq_some_iff, Option.map_eq_some_iff]
  constructor
  · rintro ⟨s, hs, t, ht, rfl⟩
    exact ⟨s, t, hs, ht, rfl⟩
  · rintro ⟨s, t, hs, ht, rfl⟩
    exact ⟨s, hs, t, ht, rfl⟩

/-- The steps of each component are allowed where it takes them. -/
def FamilyEvent.Within {T : Type*} (allowed : S → L → Prop) (ss : List S) :
    FamilyEvent T L → Prop
  | .spawn _ => True
  | .member i l => ∀ s, ss[i]? = some s → allowed s l

/-- Whatever the others do in between, each component is in a state that it
reaches by itself. -/
theorem System.reachableBy_member {allowed : S → L → Prop}
    (h : m.family.ReachableBy (fun ss e => e.Within allowed ss) ss) :
    ∀ (i : Nat) s, ss[i]? = some s → m.ReachableBy allowed s := by
  refine System.ReachableBy.invariant (P := fun ss : List S => ∀ (i : Nat) s, ss[i]? = some s →
    m.ReachableBy allowed s) h ?_ fun ss e ss' hall he hs i s hi => ?_
  · rintro ss rfl i s hi
    exact absurd hi (by simp)
  · cases e with
    | spawn u =>
      obtain rfl : ss ++ [u.1] = ss' := Option.some.inj hs
      rcases getElem?_snoc_cases hi with ⟨_, rfl⟩ | ⟨_, hi⟩
      · exact .start u.2
      · exact hall i s hi
    | member j l =>
      obtain ⟨u, t, hu, ht, rfl⟩ := family_step_member.mp hs
      rcases getElem?_set_cases hi with ⟨rfl, rfl⟩ | ⟨_, hi⟩
      · exact (hall i u hu).next (he u hu) ht
      · exact hall i s hi

theorem System.reachable_member (h : m.family.Reachable ss) :
    ∀ (i : Nat) s, ss[i]? = some s → m.Reachable s := by
  refine reachableBy_member (h.mono fun ss e _ => ?_)
  cases e with
  | spawn u => trivial
  | member i l => exact fun _ _ => trivial

end

/-- The sum of a measure of the components. -/
def total (f : S → Nat) : List S → Nat
  | [] => 0
  | s :: ss => f s + total f ss

theorem total_append (f : S → Nat) (ss ts : List S) :
    total f (ss ++ ts) = total f ss + total f ts := by
  induction ss with
  | nil => simp [total]
  | cons s ss ih =>
    simp only [List.cons_append, total, ih]
    omega

theorem total_le {f : S → Nat} {n : Nat} {ss : List S} (h : ∀ s ∈ ss, f s ≤ n) :
    total f ss ≤ n * ss.length := by
  induction ss with
  | nil => simp [total]
  | cons s ss ih =>
    have hs := h s List.mem_cons_self
    have hrest := ih fun t ht => h t (List.mem_cons_of_mem s ht)
    simp only [total, List.length_cons, Nat.mul_succ]
    omega

theorem total_of_map_eq {f : S → Nat} {ss ts : List S} (h : ts.map f = ss.map f) :
    total f ts = total f ss := by
  induction ss generalizing ts with
  | nil =>
    obtain rfl := List.map_eq_nil_iff.mp h
    rfl
  | cons s ss ih =>
    obtain ⟨t, ts, rfl, ht, hrest⟩ := List.map_eq_cons_iff.mp h
    simp only [total, ht, ih hrest]

theorem total_set {f : S → Nat} {ss : List S} {i : Nat} {s t : S} (h : ss[i]? = some s) :
    total f (ss.set i t) + f s = total f ss + f t := by
  induction ss generalizing i with
  | nil => simp at h
  | cons u ss ih =>
    cases i with
    | zero =>
      obtain rfl : u = s := by simpa using h
      simp only [List.set_cons_zero, total]
      omega
    | succ i =>
      have hrest := ih (i := i) (by simpa using h)
      simp only [List.set_cons_succ, total]
      omega

end ScratchServers
