import ScratchServers.Stream

/-! Streams put together from prefixes of chunks, and tables addressed by
position. -/

namespace ScratchServers

variable {A : Type*}

/-- `out` is, in order, a concatenation of one possibly empty prefix of each chunk. -/
def Selects (chunks : List (List A)) (out : List A) : Prop :=
  ∃ ps, List.Forall₂ (· <+: ·) ps chunks ∧ ps.flatten = out

theorem selects_nil : Selects ([] : List (List A)) [] :=
  ⟨[], .nil, rfl⟩

theorem Selects.snoc {chunks : List (List A)} {out c p : List A} (h : Selects chunks out)
    (hp : p <+: c) : Selects (chunks ++ [c]) (out ++ p) := by
  obtain ⟨ps, hps, rfl⟩ := h
  refine ⟨ps ++ [p], List.rel_append hps (.cons hp .nil), ?_⟩
  simp only [List.flatten_append, List.flatten_singleton]

theorem Selects.sublist {chunks : List (List A)} {out : List A} (h : Selects chunks out) :
    out.Sublist chunks.flatten := by
  obtain ⟨ps, hps, rfl⟩ := h
  induction hps with
  | nil => exact .slnil
  | cons hp _ ih =>
    simp only [List.flatten_cons]
    exact hp.sublist.append ih

theorem getElem?_set_cases {l : List A} {i j : Nat} {a b : A} (h : (l.set i a)[j]? = some b) :
    (j = i ∧ b = a) ∨ (j ≠ i ∧ l[j]? = some b) := by
  by_cases hij : j = i
  · subst j
    have hlt : i < l.length := by
      obtain ⟨hlt, _⟩ := List.getElem?_eq_some_iff.mp h
      simpa using hlt
    rw [List.getElem?_set_self hlt] at h
    exact .inl ⟨rfl, (Option.some.inj h).symm⟩
  · rw [List.getElem?_set_ne (Ne.symm hij)] at h
    exact .inr ⟨hij, h⟩

theorem getElem?_snoc_cases {l : List A} {j : Nat} {a b : A} (h : (l ++ [a])[j]? = some b) :
    (j = l.length ∧ b = a) ∨ (j < l.length ∧ l[j]? = some b) := by
  rcases Nat.lt_trichotomy j l.length with hj | hj | hj
  · rw [List.getElem?_append_left hj] at h
    exact .inr ⟨hj, h⟩
  · subst j
    rw [List.getElem?_concat_length] at h
    exact .inl ⟨rfl, (Option.some.inj h).symm⟩
  · rw [List.getElem?_append_right (by omega), List.getElem?_eq_none (by simp; omega)] at h
    exact absurd h nofun

theorem lt_length_of_getElem? {l : List A} {i : Nat} {a : A} (h : l[i]? = some a) :
    i < l.length :=
  (List.getElem?_eq_some_iff.mp h).1

theorem map_set_of_eq {B : Type*} {l : List A} {i : Nat} {a b : A} {f : A → B} (h : l[i]? = some a)
    (hf : f b = f a) : (l.set i b).map f = l.map f := by
  have hi := lt_length_of_getElem? h
  have ha : l[i] = a := (List.getElem?_eq_some_iff.mp h).2
  rw [List.map_set, hf, ← ha, ← List.getElem_map f (h := by simpa using hi), List.set_getElem_self]

theorem getElem?_of_map_eq {B : Type*} {f : A → B} {l l' : List A} (h : l'.map f = l.map f)
    {i : Nat} {b : A} (hb : l'[i]? = some b) : ∃ a, l[i]? = some a ∧ f a = f b := by
  have hi : (l.map f)[i]? = some (f b) := by rw [← h, List.getElem?_map, hb, Option.map_some]
  rwa [List.getElem?_map, Option.map_eq_some_iff] at hi

end ScratchServers
