import Mathlib.Logic.Basic

/-! Programs without loops that change a state and may jump to a label at their
end, and triples for them: one assertion holds where the program is left in order,
and one at the label, wherever it is reached from. -/

namespace ScratchServers

/-- `none` is the jump. -/
structure Script (S α : Type) where
  run : S → S × Option α

instance {S : Type} : Monad (Script S) where
  pure a := ⟨fun s => (s, some a)⟩
  bind x f := ⟨fun s =>
    match x.run s with
    | (t, some a) => (f a).run t
    | (t, none) => (t, none)⟩

variable {S α β : Type}

theorem Script.run_bind {x : Script S α} {f : α → Script S β} {s : S} :
    (x >>= f).run s = match x.run s with
      | (t, some a) => (f a).run t
      | (t, none) => (t, none) := rfl

theorem Script.run_bind_some {x : Script S α} {f : α → Script S β} {s t : S} {a : α}
    (h : x.run s = (t, some a)) : (x >>= f).run s = (f a).run t := by
  rw [run_bind, h]

theorem Script.run_bind_none {x : Script S α} {f : α → Script S β} {s t : S}
    (h : x.run s = (t, none)) : (x >>= f).run s = (t, none) := by
  rw [run_bind, h]

def Script.modify (f : S → S) : Script S Unit :=
  ⟨fun s => (f s, some ())⟩

def Script.require (ok : Bool) : Script S Unit :=
  ⟨fun s => (s, if ok then some () else none)⟩

def Script.jump : Script S α :=
  ⟨fun s => (s, none)⟩

@[simp] theorem Script.result_pure {s : S} {a : α} :
    ((pure a : Script S α).run s).2 = some a := rfl

@[simp] theorem Script.result_bind {x : Script S α} {f : α → Script S β} {s : S} {b : β} :
    ((x >>= f).run s).2 = some b ↔
      ∃ a, (x.run s).2 = some a ∧ ((f a).run (x.run s).1).2 = some b := by
  rw [run_bind]
  rcases hx : x.run s with ⟨t, _ | a⟩ <;> simp

@[simp] theorem Script.result_modify {f : S → S} {s : S} :
    ((Script.modify f).run s).2 = some () := rfl

@[simp] theorem Script.result_require {ok : Bool} {s : S} {a : Unit} :
    ((Script.require ok).run s).2 = some a ↔ ok = true := by
  cases ok <;> simp [Script.require]

@[simp] theorem Script.result_jump {s : S} {a : α} :
    ((Script.jump : Script S α).run s).2 ≠ some a := nofun

def Script.Triple (P : S → Prop) (x : Script S α) (Q : α → S → Prop) (R : S → Prop) : Prop :=
  ∀ s, P s → (∀ t a, x.run s = (t, some a) → Q a t) ∧ (∀ t, x.run s = (t, none) → R t)

section

variable {P P' R R' : S → Prop} {x : Script S α} {Q Q' : α → S → Prop}

theorem Script.Triple.pure {a : α} (h : ∀ s, P s → Q a s) :
    Triple P (Pure.pure a : Script S α) Q R := by
  intro s hs
  refine ⟨fun t b hrun => ?_, fun t hrun => ?_⟩
  · obtain ⟨rfl, hb⟩ := Prod.mk.inj hrun
    obtain rfl := Option.some.inj hb
    exact h s hs
  · exact absurd (Prod.mk.inj hrun).2 (by simp)

theorem Script.Triple.bind {f : α → Script S β} {Q' : β → S → Prop} (hx : Triple P x Q R)
    (hf : ∀ a, Triple (Q a) (f a) Q' R) : Triple P (x >>= f) Q' R := by
  intro s hs
  obtain ⟨hok, hbad⟩ := hx s hs
  rcases hxs : x.run s with ⟨t, _ | a⟩
  · rw [run_bind_none hxs]
    refine ⟨fun u b hu => ?_, fun u hu => ?_⟩
    · exact absurd (Prod.mk.inj hu).2 (by simp)
    · obtain ⟨rfl, _⟩ := Prod.mk.inj hu
      exact hbad t hxs
  · rw [run_bind_some hxs]
    exact hf a t (hok t a hxs)

theorem Script.Triple.conseq (h : Triple P x Q R) (hP : ∀ s, P' s → P s)
    (hQ : ∀ a s, Q a s → Q' a s) (hR : ∀ s, R s → R' s) : Triple P' x Q' R' := by
  intro s hs
  obtain ⟨hok, hbad⟩ := h s (hP s hs)
  exact ⟨fun t a ht => hQ a t (hok t a ht), fun t ht => hR t (hbad t ht)⟩

theorem Script.Triple.and (h : Triple P x Q R) (h' : Triple P' x Q' R') :
    Triple (fun s => P s ∧ P' s) x (fun a s => Q a s ∧ Q' a s) (fun s => R s ∧ R' s) := by
  intro s hs
  obtain ⟨hok, hbad⟩ := h s hs.1
  obtain ⟨hok', hbad'⟩ := h' s hs.2
  exact ⟨fun t a ht => ⟨hok t a ht, hok' t a ht⟩, fun t ht => ⟨hbad t ht, hbad' t ht⟩⟩

/-- A fact about the program alone is as good as an assertion. -/
theorem Script.Triple.of_pure {φ : Prop} (h : φ → Triple P x Q R) :
    Triple (fun s => φ ∧ P s) x Q R :=
  fun s hs => h hs.1 s hs.2

/-- What the program answers, apart from any assertion. -/
theorem Script.Triple.of_result :
    Triple P x (fun a _ => ∃ s, (x.run s).2 = some a) fun _ => ∃ s, (x.run s).2 = none := by
  intro s _
  exact ⟨fun t a hrun => ⟨s, by rw [hrun]⟩, fun t hrun => ⟨s, by rw [hrun]⟩⟩

theorem Script.Triple.modify {f : S → S} {Q : Unit → S → Prop} (h : ∀ s, P s → Q () (f s)) :
    Triple P (Script.modify f) Q R := by
  intro s hs
  refine ⟨fun t a hrun => ?_, fun t hrun => ?_⟩
  · obtain ⟨rfl, _⟩ := Prod.mk.inj hrun
    exact h s hs
  · exact absurd (Prod.mk.inj hrun).2 (by simp)

theorem Script.Triple.require {ok : Bool} {Q : Unit → S → Prop}
    (hok : ok = true → ∀ s, P s → Q () s) (hbad : ok = false → ∀ s, P s → R s) :
    Triple P (Script.require ok) Q R := by
  intro s hs
  cases ok with
  | true =>
    refine ⟨fun t a hrun => ?_, fun t hrun => absurd (Prod.mk.inj hrun).2 (by simp)⟩
    obtain ⟨rfl, _⟩ := Prod.mk.inj hrun
    exact hok rfl s hs
  | false =>
    refine ⟨fun t a hrun => absurd (Prod.mk.inj hrun).2 (by simp), fun t hrun => ?_⟩
    obtain ⟨rfl, _⟩ := Prod.mk.inj hrun
    exact hbad rfl s hs

theorem Script.Triple.jump (h : ∀ s, P s → R s) : Triple P (Script.jump : Script S α) Q R := by
  intro s hs
  refine ⟨fun t a hrun => absurd (Prod.mk.inj hrun).2 (by simp), fun t hrun => ?_⟩
  obtain ⟨rfl, _⟩ := Prod.mk.inj hrun
  exact h s hs

end

/-- A program whose statements all keep an assertion keeps it to its end and to
its label. -/
def Script.Keeps (I : S → Prop) (x : Script S α) : Prop :=
  Triple I x (fun _ => I) I

theorem Script.Keeps.bind {I : S → Prop} {x : Script S α} {f : α → Script S β}
    {Q : β → S → Prop} (hx : x.Keeps I) (hf : ∀ a, Triple I (f a) Q I) :
    Triple I (x >>= f) Q I :=
  Triple.bind hx hf

end ScratchServers
