import Mathlib.Data.List.Nodup

/-! The open handles of a process. A value that has been closed may be given out
again, so whoever closes it once more closes what another owner has opened. -/

namespace ScratchServers

variable {O : Type*}

/-- The owners of the open handles, each with its value. -/
structure HandleTable (O : Type*) where
  entries : List (O × Nat)
  nodup : (entries.map Prod.snd).Nodup

def HandleTable.empty : HandleTable O :=
  ⟨[], List.nodup_nil⟩

def HandleTable.Free (t : HandleTable O) (h : Nat) : Prop :=
  h ∉ t.entries.map Prod.snd

instance (t : HandleTable O) (h : Nat) : Decidable (t.Free h) :=
  inferInstanceAs (Decidable (h ∉ t.entries.map Prod.snd))

def HandleTable.Holds (t : HandleTable O) (o : O) (h : Nat) : Prop :=
  (o, h) ∈ t.entries

instance [DecidableEq O] (t : HandleTable O) (o : O) (h : Nat) : Decidable (t.Holds o h) :=
  inferInstanceAs (Decidable ((o, h) ∈ t.entries))

def HandleTable.assign (t : HandleTable O) (o : O) (h : Nat) (hfree : t.Free h) :
    HandleTable O where
  entries := t.entries ++ [(o, h)]
  nodup := by
    rw [List.map_append, List.map_singleton, List.nodup_append_comm, List.singleton_append]
    exact List.nodup_cons.mpr ⟨hfree, t.nodup⟩

/-- A handle is closed by its value, whoever owns it. -/
def HandleTable.close (t : HandleTable O) (h : Nat) : HandleTable O where
  entries := t.entries.filter (·.2 ≠ h)
  nodup := t.nodup.sublist (List.filter_sublist.map _)

/-- A value above all of `hs`. -/
def above : List Nat → Nat
  | [] => 0
  | h :: hs => h + above hs + 1

theorem lt_above {hs : List Nat} {h : Nat} (hmem : h ∈ hs) : h < above hs := by
  induction hs with
  | nil => exact absurd hmem List.not_mem_nil
  | cons g hs ih =>
    rw [above]
    rcases List.mem_cons.mp hmem with rfl | hmem
    · omega
    · have hlt := ih hmem
      omega

def HandleTable.next (t : HandleTable O) : {h // t.Free h} :=
  ⟨above (t.entries.map Prod.snd), fun hmem => Nat.lt_irrefl _ (lt_above hmem)⟩

section

variable {t : HandleTable O} {o o' : O} {h h' : Nat}

@[simp] theorem HandleTable.holds_empty : ¬ (empty : HandleTable O).Holds o h :=
  List.not_mem_nil

@[simp] theorem HandleTable.holds_assign (hfree : t.Free h) :
    (t.assign o h hfree).Holds o' h' ↔ t.Holds o' h' ∨ o' = o ∧ h' = h := by
  simp only [Holds, assign, List.mem_append, List.mem_singleton, Prod.mk.injEq]

@[simp] theorem HandleTable.holds_close :
    (t.close h).Holds o' h' ↔ t.Holds o' h' ∧ h' ≠ h := by
  simp [Holds, close]

theorem HandleTable.Free.not_holds (hfree : t.Free h) : ¬ t.Holds o h :=
  fun hholds => hfree (List.mem_map_of_mem hholds)

theorem HandleTable.free_iff : t.Free h ↔ ∀ o, ¬ t.Holds o h := by
  constructor
  · intro hfree o
    exact hfree.not_holds
  · intro hall hmem
    obtain ⟨⟨o, h'⟩, ho, rfl⟩ := List.mem_map.mp hmem
    exact hall o ho

/-- One value has one owner at a time. -/
theorem HandleTable.Holds.unique (ho : t.Holds o h) (ho' : t.Holds o' h) : o = o' := by
  have hinj := List.inj_on_of_nodup_map t.nodup ho ho' rfl
  exact congrArg Prod.fst hinj

theorem HandleTable.holds_assign_ne (hfree : t.Free h) (hne : o' ≠ o) :
    (t.assign o h hfree).Holds o' h' ↔ t.Holds o' h' := by
  simp only [holds_assign, hne, false_and, or_false]

/-- Closing a handle of its own, an owner leaves those of the others open. -/
theorem HandleTable.Holds.close_ne (ho : t.Holds o h) (hne : o' ≠ o) :
    (t.close h).Holds o' h' ↔ t.Holds o' h' := by
  rw [holds_close, and_iff_left_iff_imp]
  rintro ho' rfl
  exact hne (ho'.unique ho)

theorem HandleTable.free_close_self : (t.close h).Free h := by
  rw [free_iff]
  intro o ho
  exact (holds_close.mp ho).2 rfl

theorem HandleTable.Free.close (hfree : t.Free h) : (t.close h').Free h := by
  rw [free_iff]
  intro o ho
  exact hfree.not_holds (holds_close.mp ho).1

theorem HandleTable.Free.close_eq (hfree : t.Free h) : t.close h = t := by
  have hkeep : t.entries.filter (·.2 ≠ h) = t.entries := by
    rw [List.filter_eq_self]
    intro p hp
    exact decide_eq_true fun heq => hfree (heq ▸ List.mem_map_of_mem hp)
  cases t
  simp only [HandleTable.close, hkeep]

theorem HandleTable.exists_free (t : HandleTable O) : ∃ h, t.Free h :=
  ⟨_, t.next.2⟩

end

end ScratchServers
