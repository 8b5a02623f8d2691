import Mathlib.Data.List.Pairwise
import Mathlib.Logic.Function.Basic
import ScratchServers.Handles

/-! Variables that refer to the handles of a process. A variable keeps its value
when the handle is released, so a second release of it may find the handle gone,
or meet another one that has been given the same value. -/

namespace ScratchServers

inductive Slot where
  | uninitialised
  | null
  | value (h : Nat)
  deriving DecidableEq

/-- `faults` lists the variables that were released without referring to an open
handle of their kind. -/
structure HandleVars (V O : Type*) where
  vars : V → Slot
  table : HandleTable O
  faults : List V

section

variable {V O : Type*} [DecidableEq V] [DecidableEq O] (kind : V → O)

/-- The system answers with a value that no open handle has. -/
def HandleVars.issue (fresh : (t : HandleTable O) → {h // t.Free h}) (s : HandleVars V O)
    (v : V) : HandleVars V O :=
  { s with
    vars := Function.update s.vars v (.value (fresh s.table).1)
    table := s.table.assign (kind v) (fresh s.table).1 (fresh s.table).2 }

def HandleVars.setNull (s : HandleVars V O) (v : V) : HandleVars V O :=
  { s with vars := Function.update s.vars v .null }

def HandleVars.release (s : HandleVars V O) (v : V) : HandleVars V O :=
  match s.vars v with
  | .uninitialised => { s with faults := v :: s.faults }
  | .null => s
  | .value h =>
    if s.table.Holds (kind v) h then { s with table := s.table.close h }
    else { s with faults := v :: s.faults }

def HandleVars.releaseAll (s : HandleVars V O) (vs : List V) : HandleVars V O :=
  vs.foldl (release kind) s

/-- Releasing the variable is in order. -/
def HandleVars.Ready (s : HandleVars V O) (v : V) : Prop :=
  s.vars v = .null ∨ ∃ h, s.vars v = .value h ∧ s.table.Holds (kind v) h

/-- The variables of `vs` refer to handles of their kind, each to one of its own,
and the other handles that are open are the ones of `lost`, to which none of them
refers. -/
structure HandleVars.Owns (s : HandleVars V O) (vs : List V) (lost : List (O × Nat)) : Prop where
  held : ∀ v ∈ vs, ∃ h, s.vars v = .value h ∧ s.table.Holds (kind v) h
  distinct : ∀ v ∈ vs, ∀ w ∈ vs, s.vars v = s.vars w → v = w
  covers : ∀ o h, s.table.Holds o h ↔
    (∃ v ∈ vs, kind v = o ∧ s.vars v = .value h) ∨ (o, h) ∈ lost
  apart : ∀ p ∈ lost, ∀ v ∈ vs, s.vars v ≠ .value p.2

end

section

variable {V O : Type*} [DecidableEq O] {kind : V → O} {s : HandleVars V O} {v : V} {vs : List V}

@[simp] theorem HandleVars.vars_release : (s.release kind v).vars = s.vars := by
  cases hv : s.vars v with
  | value h => by_cases hheld : s.table.Holds (kind v) h <;> simp [release, hv, hheld]
  | _ => simp [release, hv]

theorem HandleVars.release_null (hv : s.vars v = .null) : s.release kind v = s := by
  simp [release, hv]

theorem HandleVars.release_held {h : Nat} (hv : s.vars v = .value h)
    (hheld : s.table.Holds (kind v) h) :
    s.release kind v = { s with table := s.table.close h } := by
  simp [release, hv, hheld]

theorem HandleVars.release_fault (hv : ¬ s.Ready kind v) :
    s.release kind v = { s with faults := v :: s.faults } := by
  cases hslot : s.vars v with
  | uninitialised => simp [release, hslot]
  | null => exact absurd (.inl hslot) hv
  | value h =>
    have hno : ¬ s.table.Holds (kind v) h := fun hheld => hv (.inr ⟨h, hslot, hheld⟩)
    simp [release, hslot, hno]

theorem HandleVars.faults_le_release : s.faults.length ≤ (s.release kind v).faults.length := by
  by_cases hv : s.Ready kind v
  · rcases hv with hnull | ⟨h, hvalue, hheld⟩
    · exact Nat.le_of_eq (by rw [release_null hnull])
    · exact Nat.le_of_eq (by rw [release_held hvalue hheld])
  · rw [release_fault hv]
    exact Nat.le_succ _

theorem HandleVars.faults_le_releaseAll :
    s.faults.length ≤ (s.releaseAll kind vs).faults.length := by
  induction vs generalizing s with
  | nil => exact Nat.le_refl _
  | cons v vs ih => exact Nat.le_trans faults_le_release ih

/-- Releasing the variables one after another is in order exactly if each of them
was before the first, and no two of them refer to one handle. -/
theorem HandleVars.releaseAll_faults_iff :
    (s.releaseAll kind vs).faults = s.faults ↔
      (∀ v ∈ vs, s.Ready kind v) ∧
        vs.Pairwise fun v w => ∀ h, s.vars v = .value h → s.vars w ≠ .value h := by
  induction vs generalizing s with
  | nil => simp [releaseAll]
  | cons v vs ih =>
    have hcons : s.releaseAll kind (v :: vs) = (s.release kind v).releaseAll kind vs := rfl
    rw [hcons, List.pairwise_cons]
    by_cases hv : s.Ready kind v
    · rcases hv with hnull | ⟨h, hvalue, hheld⟩
      · rw [release_null hnull, ih]
        simp [hnull, Ready]
      · rw [release_held hvalue hheld, ih]
        simp only [Ready, hvalue, HandleTable.holds_close, List.mem_cons, forall_eq_or_imp,
          Slot.value.injEq, forall_eq', reduceCtorEq, false_or, hheld, exists_eq_left', true_and]
        constructor
        · rintro ⟨hready, hpairs⟩
          refine ⟨fun w hw => ?_, fun w hw hsame => ?_, hpairs⟩
          · rcases hready w hw with hnull | ⟨g, hg, hgheld, _⟩
            · exact .inl hnull
            · exact .inr ⟨g, hg, hgheld⟩
          · rcases hready w hw with hnull | ⟨g, hg, _, hne⟩
            · exact absurd (hsame.symm.trans hnull) (by simp)
            · exact hne (Slot.value.inj (hg.symm.trans hsame))
        · rintro ⟨hready, hfirst, hpairs⟩
          refine ⟨fun w hw => ?_, hpairs⟩
          rcases hready w hw with hnull | ⟨g, hg, hgheld⟩
          · exact .inl hnull
          · refine .inr ⟨g, hg, hgheld, ?_⟩
            rintro rfl
            exact hfirst w hw hg
    · rw [release_fault hv]
      refine iff_of_false (fun hsame => ?_) fun hall => hv (hall.1 v List.mem_cons_self)
      let t : HandleVars V O := { s with faults := v :: s.faults }
      have hgrows : t.faults.length ≤ (t.releaseAll kind vs).faults.length := faults_le_releaseAll
      rw [hsame, List.length_cons] at hgrows
      omega

theorem HandleVars.releaseAll_faults_ne_nil (hv : v ∈ vs) (hno : ¬ s.Ready kind v) :
    (s.releaseAll kind vs).faults ≠ [] := by
  intro hnil
  have hgrows : s.faults.length ≤ (s.releaseAll kind vs).faults.length := faults_le_releaseAll
  rw [hnil] at hgrows
  have hbefore : s.faults = [] := List.length_eq_zero_iff.mp (Nat.le_zero.mp hgrows)
  exact hno ((releaseAll_faults_iff.mp (hnil.trans hbefore.symm)).1 v hv)

end

section

variable {V O : Type*} {kind : V → O} {s : HandleVars V O} {v : V} {vs : List V}
  {lost : List (O × Nat)}

theorem HandleVars.Owns.congr {ws : List V} (h : s.Owns kind vs lost)
    (hsame : ∀ v, v ∈ ws ↔ v ∈ vs) : s.Owns kind ws lost where
  held v hv := h.held v ((hsame v).mp hv)
  distinct v hv w hw := h.distinct v ((hsame v).mp hv) w ((hsame w).mp hw)
  covers o x := by simp only [h.covers, hsame]
  apart p hp v hv := h.apart p hp v ((hsame v).mp hv)

variable [DecidableEq V]

@[simp] theorem HandleVars.vars_setNull : (s.setNull v).vars v = .null :=
  Function.update_self v _ s.vars

/-- The last reference to a handle is overwritten: it stays open for good. -/
theorem HandleVars.Owns.setNull (h : s.Owns kind vs lost) (hv : v ∈ vs) :
    ∃ x, s.vars v = .value x ∧
      (s.setNull v).Owns kind (vs.filter (· ≠ v)) ((kind v, x) :: lost) := by
  obtain ⟨x, hx, hheld⟩ := h.held v hv
  have hmem : ∀ w, w ∈ vs.filter (· ≠ v) ↔ w ∈ vs ∧ w ≠ v := by simp
  have hother : ∀ w, w ≠ v → (s.setNull v).vars w = s.vars w :=
    fun w hne => Function.update_of_ne hne _ _
  refine ⟨x, hx, fun w hw => ?_, fun w hw u hu hsame => ?_, fun o y => ?_, fun p hp w hw => ?_⟩
  · obtain ⟨hw, hne⟩ := (hmem w).mp hw
    obtain ⟨y, hy, hyheld⟩ := h.held w hw
    exact ⟨y, (hother w hne).trans hy, hyheld⟩
  · obtain ⟨hw, hwne⟩ := (hmem w).mp hw
    obtain ⟨hu, hune⟩ := (hmem u).mp hu
    rw [hother w hwne, hother u hune] at hsame
    exact h.distinct w hw u hu hsame
  · change s.table.Holds o y ↔ _
    rw [h.covers, List.mem_cons, Prod.mk.injEq]
    constructor
    · rintro (⟨w, hw, hkind, hy⟩ | hlost)
      · by_cases hne : w = v
        · subst hne
          exact .inr (.inl ⟨hkind.symm, Slot.value.inj (hy.symm.trans hx)⟩)
        · exact .inl ⟨w, (hmem w).mpr ⟨hw, hne⟩, hkind, (hother w hne).trans hy⟩
      · exact .inr (.inr hlost)
    · rintro (⟨w, hw, hkind, hy⟩ | ⟨rfl, rfl⟩ | hlost)
      · obtain ⟨hw, hne⟩ := (hmem w).mp hw
        exact .inl ⟨w, hw, hkind, (hother w hne).symm.trans hy⟩
      · exact .inl ⟨v, hv, rfl, hx⟩
      · exact .inr hlost
  · obtain ⟨hw, hne⟩ := (hmem w).mp hw
    rw [hother w hne]
    rcases List.mem_cons.mp hp with rfl | hp
    · exact fun hsame => hne (h.distinct w hw v hv (hsame.trans hx.symm))
    · exact h.apart p hp w hw

/-- A variable that owns nothing is overwritten. -/
theorem HandleVars.Owns.setNull_ne (h : s.Owns kind vs lost) (hv : v ∉ vs) :
    (s.setNull v).Owns kind vs lost := by
  have hother : ∀ w ∈ vs, (s.setNull v).vars w = s.vars w := by
    intro w hw
    exact Function.update_of_ne (ne_of_mem_of_not_mem hw hv) _ _
  refine ⟨fun w hw => ?_, fun w hw u hu hsame => ?_, fun o x => ?_, fun p hp w hw => ?_⟩
  · rw [hother w hw]
    exact h.held w hw
  · rw [hother w hw, hother u hu] at hsame
    exact h.distinct w hw u hu hsame
  · change s.table.Holds o x ↔ _
    rw [h.covers]
    refine or_congr_left (exists_congr fun w => and_congr_right fun hw => ?_)
    rw [hother w hw]
  · rw [hother w hw]
    exact h.apart p hp w hw

theorem HandleVars.Owns.issue {fresh : (t : HandleTable O) → {h // t.Free h}}
    (h : s.Owns kind vs lost) (hv : v ∉ vs) : (s.issue kind fresh v).Owns kind (v :: vs) lost := by
  have hfree := (fresh s.table).2
  have hvar : (s.issue kind fresh v).vars v = .value (fresh s.table).1 := Function.update_self ..
  have hother : ∀ w ∈ vs, (s.issue kind fresh v).vars w = s.vars w := by
    intro w hw
    exact Function.update_of_ne (ne_of_mem_of_not_mem hw hv) _ _
  have hnew : ∀ w ∈ vs, s.vars w ≠ .value (fresh s.table).1 := by
    intro w hw hsame
    obtain ⟨x, hx, hheld⟩ := h.held w hw
    obtain rfl : x = (fresh s.table).1 := Slot.value.inj (hx.symm.trans hsame)
    exact hfree.not_holds hheld
  refine ⟨fun w hw => ?_, fun w hw u hu hsame => ?_, fun o x => ?_, fun p hp w hw => ?_⟩
  · rcases List.mem_cons.mp hw with rfl | hw
    · exact ⟨_, hvar, (HandleTable.holds_assign hfree).mpr (.inr ⟨rfl, rfl⟩)⟩
    · obtain ⟨x, hx, hheld⟩ := h.held w hw
      exact ⟨x, (hother w hw).trans hx, (HandleTable.holds_assign hfree).mpr (.inl hheld)⟩
  · rcases List.mem_cons.mp hw with hwv | hwvs <;> rcases List.mem_cons.mp hu with huv | huvs
    · exact hwv.trans huv.symm
    · rw [hwv, hvar, hother u huvs] at hsame
      exact absurd hsame.symm (hnew u huvs)
    · rw [huv, hvar, hother w hwvs] at hsame
      exact absurd hsame (hnew w hwvs)
    · rw [hother w hwvs, hother u huvs] at hsame
      exact h.distinct w hwvs u huvs hsame
  · change (s.table.assign (kind v) _ hfree).Holds o x ↔ _
    rw [HandleTable.holds_assign hfree, h.covers]
    constructor
    · rintro ((⟨w, hw, hkind, hx⟩ | hlost) | ⟨rfl, rfl⟩)
      · exact .inl ⟨w, List.mem_cons_of_mem _ hw, hkind, (hother w hw).trans hx⟩
      · exact .inr hlost
      · exact .inl ⟨v, List.mem_cons_self, rfl, hvar⟩
    · rintro (⟨w, hw, hkind, hx⟩ | hlost)
      · rcases List.mem_cons.mp hw with rfl | hw
        · exact .inr ⟨hkind.symm, Slot.value.inj (hx.symm.trans hvar)⟩
        · exact .inl (.inl ⟨w, hw, hkind, (hother w hw).symm.trans hx⟩)
      · exact .inl (.inr hlost)
  · rcases List.mem_cons.mp hw with rfl | hw
    · rw [hvar]
      intro hsame
      have hheld := (h.covers p.1 p.2).mpr (.inr hp)
      exact hfree.not_holds (Slot.value.inj hsame ▸ hheld)
    · rw [hother w hw]
      exact h.apart p hp w hw

end

section

variable {V O : Type*} [DecidableEq O] {kind : V → O} {s : HandleVars V O} {v : V} {vs : List V}
  {lost : List (O × Nat)}

/-- A variable whose handle has been released is not ready beside the owners that are. -/
theorem HandleVars.Owns.dangling {x : Nat} {ws : List V} (h : s.Owns kind vs []) (hv : v ∉ vs)
    (hx : s.vars v = .value x) (hmem : v ∈ ws) (hall : ∀ w ∈ vs, w ∈ ws) :
    (s.releaseAll kind ws).faults ≠ s.faults := by
  intro hfaults
  obtain ⟨hready, hpairs⟩ := releaseAll_faults_iff.mp hfaults
  rcases hready v hmem with hnull | ⟨y, hy, hheld⟩
  · exact absurd (hnull.symm.trans hx) (by simp)
  · rcases (h.covers _ _).mp hheld with ⟨w, hw, _, hwy⟩ | hlost
    · have hne : v ≠ w := fun hsame => hv (hsame ▸ hw)
      have hsym : Std.Symm fun u w => ∀ x, s.vars u = .value x → s.vars w ≠ .value x :=
        ⟨fun u w hap x hw hu => hap x hu hw⟩
      exact hpairs.forall hmem (hall w hw) hne y hy hwy
    · exact absurd hlost List.not_mem_nil

variable [DecidableEq V]

/-- The variable keeps its value, but the handle is its own no longer. -/
theorem HandleVars.Owns.release (h : s.Owns kind vs lost) (hv : v ∈ vs) :
    (s.release kind v).Owns kind (vs.filter (· ≠ v)) lost := by
  obtain ⟨x, hx, hheld⟩ := h.held v hv
  rw [release_held hx hheld]
  have hmem : ∀ w, w ∈ vs.filter (· ≠ v) ↔ w ∈ vs ∧ w ≠ v := by simp
  have hapart : ∀ w ∈ vs, w ≠ v → s.vars w ≠ .value x := fun w hw hne hsame =>
    hne (h.distinct w hw v hv (hsame.trans hx.symm))
  refine ⟨fun w hw => ?_, fun w hw u hu => ?_, fun o y => ?_, fun p hp w hw => ?_⟩
  · obtain ⟨hw, hne⟩ := (hmem w).mp hw
    obtain ⟨y, hy, hyheld⟩ := h.held w hw
    refine ⟨y, hy, HandleTable.holds_close.mpr ⟨hyheld, ?_⟩⟩
    rintro rfl
    exact hapart w hw hne hy
  · exact h.distinct w ((hmem w).mp hw).1 u ((hmem u).mp hu).1
  · change (s.table.close x).Holds o y ↔ _
    rw [HandleTable.holds_close, h.covers]
    constructor
    · rintro ⟨⟨w, hw, hkind, hy⟩ | hlost, hne⟩
      · refine .inl ⟨w, (hmem w).mpr ⟨hw, ?_⟩, hkind, hy⟩
        rintro rfl
        exact hne (Slot.value.inj (hy.symm.trans hx))
      · exact .inr hlost
    · rintro (⟨w, hw, hkind, hy⟩ | hlost)
      · obtain ⟨hw, hne⟩ := (hmem w).mp hw
        refine ⟨.inl ⟨w, hw, hkind, hy⟩, ?_⟩
        rintro rfl
        exact hapart w hw hne hy
      · refine ⟨.inr hlost, ?_⟩
        rintro rfl
        exact h.apart _ hlost v hv hx
  · exact h.apart p hp w ((hmem w).mp hw).1

/-- Where every variable owns a handle or is null, all of them are released. -/
theorem HandleVars.Owns.releaseAll (h : s.Owns kind vs lost) {ws : List V} (hnodup : ws.Nodup)
    (hall : ∀ w ∈ vs, w ∈ ws) (hnull : ∀ w ∈ ws, w ∉ vs → s.vars w = .null) :
    (s.releaseAll kind ws).faults = s.faults ∧
      (s.releaseAll kind ws).Owns kind [] lost := by
  induction ws generalizing s vs with
  | nil =>
    refine ⟨rfl, h.congr fun v => ?_⟩
    simpa using fun hv => List.not_mem_nil (hall v hv)
  | cons v ws ih =>
    obtain ⟨hv, hnodup⟩ := List.nodup_cons.mp hnodup
    by_cases hmem : v ∈ vs
    · have hnext := h.release hmem
      have hrest := ih hnext hnodup (fun w hw => ?_) fun w hw hno => ?_
      · refine ⟨hrest.1.trans ?_, hrest.2⟩
        obtain ⟨x, hx, hheld⟩ := h.held v hmem
        rw [release_held hx hheld]
      · obtain ⟨hw, hne⟩ : w ∈ vs ∧ w ≠ v := by simpa using hw
        exact (List.mem_cons.mp (hall w hw)).resolve_left hne
      · rw [vars_release]
        refine hnull w (List.mem_cons_of_mem _ hw) fun hwvs => hno ?_
        have hne : w ≠ v := ne_of_mem_of_not_mem hw hv
        simpa using ⟨hwvs, hne⟩
    · have hsame : s.release kind v = s := release_null (hnull v List.mem_cons_self hmem)
      have hcons : s.releaseAll kind (v :: ws) = s.releaseAll kind ws :=
        congrArg (·.releaseAll kind ws) hsame
      rw [hcons]
      refine ih h hnodup (fun w hw => ?_) fun w hw => hnull w (List.mem_cons_of_mem _ hw)
      exact (List.mem_cons.mp (hall w hw)).resolve_left (ne_of_mem_of_not_mem hw hmem)

end

end ScratchServers
