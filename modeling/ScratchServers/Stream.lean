import ScratchServers.Transition

/-! Byte streams as the asynchronous operations see them: fixed arrays that keep
stale cells, composed transfers that move a range piece by piece, and the rules
by which one read or one write takes part of a queue. The element type is
arbitrary. -/

namespace ScratchServers

variable {A : Type*}

/-- A fixed array; a cell that no read has filled holds whatever it held before. -/
structure Buffer (A : Type*) (cap : Nat) where
  cells : List A
  length_cells : cells.length = cap

def Buffer.front {cap : Nat} (b : Buffer A cap) (n : Nat) : List A :=
  b.cells.take n

def Buffer.filled {cap : Nat} (a : A) : Buffer A cap :=
  ⟨List.replicate cap a, List.length_replicate⟩

def Buffer.put {cap : Nat} (b : Buffer A cap) (off : Nat) (xs : List A) : Buffer A cap where
  cells := (b.cells.take off ++ xs).take cap ++ b.cells.drop (off + xs.length)
  length_cells := by
    simp only [List.length_append, List.length_take, List.length_drop, b.length_cells]
    omega

theorem Buffer.front_put {cap off : Nat} (b : Buffer A cap) {xs : List A}
    (h : off + xs.length ≤ cap) : (b.put off xs).front (off + xs.length) = b.front off ++ xs := by
  have hlen : (b.cells.take off ++ xs).length = off + xs.length := by
    simp only [List.length_append, List.length_take, b.length_cells]
    omega
  have hfit : (b.cells.take off ++ xs).take cap = b.cells.take off ++ xs :=
    List.take_of_length_le (hlen ▸ h)
  change ((b.cells.take off ++ xs).take cap ++ b.cells.drop _).take _ = b.cells.take off ++ xs
  rw [hfit, List.take_left' hlen]

theorem Buffer.length_front {cap n : Nat} (b : Buffer A cap) (h : n ≤ cap) :
    (b.front n).length = n := by
  simp [front, b.length_cells, h]

/-- Counters of a composed operation on the first `length` elements of a range. -/
structure Transfer where
  length : Nat
  moved : Nat
  moved_le : moved ≤ length
  deriving DecidableEq

def Transfer.start (n : Nat) : Transfer := ⟨n, 0, Nat.zero_le n⟩

def Transfer.left (t : Transfer) : Nat := t.length - t.moved

def Transfer.advance (t : Transfer) (n : Nat) : Transfer :=
  ⟨t.length, min t.length (t.moved + n), Nat.min_le_left _ _⟩

def Transfer.unsent (t : Transfer) (xs : List A) : List A :=
  (xs.take t.length).drop t.moved

@[simp] theorem Transfer.length_start (n : Nat) : (start n).length = n := rfl

@[simp] theorem Transfer.moved_start (n : Nat) : (start n).moved = 0 := rfl

@[simp] theorem Transfer.length_advance (t : Transfer) (n : Nat) :
    (t.advance n).length = t.length := rfl

theorem Transfer.moved_advance {t : Transfer} {n : Nat} (h : n ≤ t.left) :
    (t.advance n).moved = t.moved + n := by
  have := t.moved_le
  simp only [advance, left] at h ⊢
  omega

@[simp] theorem Transfer.left_start (n : Nat) : (start n).left = n := rfl

theorem Transfer.left_advance {t : Transfer} {n : Nat} (h : n ≤ t.left) :
    (t.advance n).left + n = t.left := by
  have := t.moved_le
  simp only [advance, left] at h ⊢
  omega

theorem Transfer.moved_add_left (t : Transfer) : t.moved + t.left = t.length :=
  Nat.add_sub_cancel' t.moved_le

@[simp] theorem Transfer.unsent_start (n : Nat) (xs : List A) : (start n).unsent xs = xs.take n :=
  rfl

theorem Transfer.length_unsent {t : Transfer} {xs : List A} (h : t.length ≤ xs.length) :
    (t.unsent xs).length = t.left := by
  simp [unsent, left, h]

theorem Transfer.unsent_eq_nil {t : Transfer} (h : t.left = 0) (xs : List A) :
    t.unsent xs = [] := by
  have := t.moved_le
  simp only [left] at h
  apply List.drop_eq_nil_of_le
  simp only [List.length_take]
  omega

theorem Transfer.unsent_advance {t : Transfer} {n : Nat} (h : n ≤ t.left) (xs : List A) :
    (t.advance n).unsent xs = (t.unsent xs).drop n := by
  simp only [unsent, moved_advance h, length_advance, List.drop_drop]

theorem Transfer.take_append_unsent {t : Transfer} {n : Nat} (h : n ≤ t.left) (xs : List A) :
    (t.unsent xs).take n ++ (t.advance n).unsent xs = t.unsent xs := by
  rw [unsent_advance h, List.take_append_drop]

theorem Transfer.take_moved_advance {t : Transfer} {n : Nat} (h : n ≤ t.left) (xs : List A) :
    (xs.take t.length).take (t.advance n).moved =
      (xs.take t.length).take t.moved ++ (t.unsent xs).take n := by
  rw [moved_advance h, List.take_add, unsent]

/-- One read into `cap` cells may return any non-empty available prefix. -/
def CanRead (cap : Nat) (q : List A) (n : Nat) : Prop :=
  0 < n ∧ n ≤ cap ∧ n ≤ q.length

instance (cap : Nat) (q : List A) (n : Nat) : Decidable (CanRead cap q n) :=
  inferInstanceAs (Decidable (_ ∧ _ ∧ _))

/-- The queue has room for `n` more elements; `none` is an unbounded queue. -/
def Room (cap : Option Nat) (q : List A) (n : Nat) : Prop :=
  ∀ c, cap = some c → q.length + n ≤ c

instance (cap : Option Nat) (q : List A) (n : Nat) : Decidable (Room cap q n) :=
  match cap with
  | none => .isTrue nofun
  | some c => decidable_of_iff (q.length + n ≤ c) (by simp [Room])

def Transfer.CanAccept (t : Transfer) (cap : Option Nat) (q : List A) (n : Nat) : Prop :=
  0 < n ∧ n ≤ t.left ∧ Room cap q n

instance (t : Transfer) (cap : Option Nat) (q : List A) (n : Nat) :
    Decidable (t.CanAccept cap q n) :=
  inferInstanceAs (Decidable (_ ∧ _ ∧ _))

@[simp] theorem room_none (q : List A) (n : Nat) : Room none q n := nofun

theorem CanRead.length_take {cap n : Nat} {q : List A} (h : CanRead cap q n) :
    (q.take n).length = n := by
  simp [h.2.2]

/-- What a read stores behind the first `off` cells. -/
theorem CanRead.front_put {room cap off n : Nat} {q : List A} (h : CanRead room q n)
    (b : Buffer A cap) (hfit : off + n ≤ cap) :
    (b.put off (q.take n)).front (off + n) = b.front off ++ q.take n := by
  have hlen := h.length_take
  have hput := b.front_put (show off + (q.take n).length ≤ cap by rwa [hlen])
  rwa [hlen] at hput

theorem CanRead.front_put_zero {cap n : Nat} {q : List A} (h : CanRead cap q n)
    (b : Buffer A cap) : (b.put 0 (q.take n)).front n = q.take n := by
  have hput := h.front_put b (show 0 + n ≤ cap by have := h.2.1; omega)
  simpa only [Nat.zero_add, Buffer.front, List.take_zero, List.nil_append] using hput

theorem canRead_one {cap : Nat} {q : List A} (hcap : 0 < cap) (hq : q ≠ []) : CanRead cap q 1 :=
  ⟨Nat.one_pos, hcap, List.length_pos_iff.mpr hq⟩

theorem Transfer.canAccept_one {t : Transfer} {cap : Option Nat} {q : List A} (hleft : 0 < t.left)
    (hroom : Room cap q 1) : t.CanAccept cap q 1 :=
  ⟨Nat.one_pos, hleft, hroom⟩

/-- What a loop-back line does with one message: each element is still to be
sent, in flight, or received, and moves on in order. -/
structure Loopback (A : Type*) where
  unsent : List A
  inFlight : List A
  received : List A

inductive LoopbackLabel where
  | send (n : Nat)
  | receive (n : Nat)

def Loopback.step (s : Loopback A) : LoopbackLabel → Option (Loopback A)
  | .send n => some { s with
      unsent := s.unsent.drop n
      inFlight := s.inFlight ++ s.unsent.take n }
  | .receive n => some { s with
      inFlight := s.inFlight.drop n
      received := s.received ++ s.inFlight.take n }

def loopback (message : List A) : System (Loopback A) LoopbackLabel where
  start s := s = ⟨message, [], []⟩
  step := Loopback.step

theorem loopback_conserves {message : List A} {s : Loopback A}
    (h : (loopback message).Reachable s) : s.received ++ (s.inFlight ++ s.unsent) = message := by
  refine h.invariant (P := fun s => s.received ++ (s.inFlight ++ s.unsent) = message) ?_ ?_
  · rintro s rfl
    simp
  intro s l t hs ht
  cases l with
  | send n =>
    obtain rfl : _ = t := Option.some.inj ht
    simpa only [List.append_assoc, List.take_append_drop] using hs
  | receive n =>
    obtain rfl : _ = t := Option.some.inj ht
    calc s.received ++ s.inFlight.take n ++ (s.inFlight.drop n ++ s.unsent)
        = s.received ++ (s.inFlight.take n ++ s.inFlight.drop n ++ s.unsent) := by
          simp only [List.append_assoc]
      _ = message := by rw [List.take_append_drop, hs]

/-- A parser that reads a stream piece by piece takes the text for a whole
message, and no part of it that comes before. -/
structure Delimits {R : Type*} (parse : List A → Option R) (text : List A) (result : R) : Prop where
  nonempty : text ≠ []
  whole : parse text = some result
  part : ∀ xs, xs <+: text → xs ≠ text → parse xs = none

theorem Delimits.of_prefix {R : Type*} {parse : List A → Option R} {text xs : List A}
    {result r : R} (h : Delimits parse text result) (hxs : xs <+: text) (hr : parse xs = some r) :
    xs = text ∧ r = result := by
  have hwhole : xs = text := by
    by_contra hne
    rw [h.part xs hxs hne] at hr
    exact absurd hr (by simp)
  subst hwhole
  exact ⟨rfl, Option.some.inj (hr.symm.trans h.whole)⟩

end ScratchServers
