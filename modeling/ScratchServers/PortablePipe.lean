import ScratchServers.Completion
import ScratchServers.LineInput

/-! The anonymous pipe of `portablepipe.cpp`: one thread first writes and reads
with blocking calls, and then starts both ends asynchronously. -/

namespace ScratchServers

/-- The characters of `write_data` with the terminator of the literal. -/
def writeData : Bytes :=
  [83, 111, 109, 101, 68, 117, 109, 109, 121, 68, 97, 116, 97, 0]

/-- The string made of `write_data`, which ends before the terminator. -/
def data1 : Bytes :=
  writeData.takeWhile (· != 0)

/-- In `run` an operation is gone once its handler has been called and has set
its flag. -/
inductive PortablePipeOp where
  | write (t : Transfer)
  | read (t : Transfer)
  | run (read write : Option Transfer)
  | closed
  deriving DecidableEq

structure PortablePipe where
  bytes : Bytes
  data2 : Buffer Byte data1.length
  readBuffer : Buffer Byte writeData.length
  op : PortablePipeOp

def PortablePipe.start (readBuffer : Buffer Byte writeData.length) : PortablePipe :=
  ⟨[], .filled 0, readBuffer, .write (.start data1.length)⟩

def PortablePipe.startAsync (s : PortablePipe) : PortablePipe :=
  { s with op := .run (some (.start writeData.length)) (some (.start writeData.length)) }

inductive PortablePipeEvent where
  | writeSome (n : Nat)
  | write
  | readSome (n : Nat)
  | read
  | close

def PortablePipe.step (cap : Nat) (s : PortablePipe) : PortablePipeEvent → Option PortablePipe
  | .writeSome n =>
    match s.op with
    | .write t =>
      if t.CanAccept (some cap) s.bytes n then
        some { s with
          bytes := s.bytes ++ (t.unsent data1).take n
          op := .write (t.advance n) }
      else none
    | .run r (some t) =>
      if t.CanAccept (some cap) s.bytes n then
        some { s with
          bytes := s.bytes ++ (t.unsent writeData).take n
          op := .run r (some (t.advance n)) }
      else none
    | _ => none
  | .write =>
    match s.op with
    | .write t => if t.left = 0 then some { s with op := .read (.start data1.length) } else none
    | .run r (some t) => if t.left = 0 then some { s with op := .run r none } else none
    | _ => none
  | .readSome n =>
    match s.op with
    | .read t =>
      if CanRead t.left s.bytes n then
        some { s with
          bytes := s.bytes.drop n
          data2 := s.data2.put t.moved (s.bytes.take n)
          op := .read (t.advance n) }
      else none
    | .run (some t) w =>
      if CanRead t.left s.bytes n then
        some { s with
          bytes := s.bytes.drop n
          readBuffer := s.readBuffer.put t.moved (s.bytes.take n)
          op := .run (some (t.advance n)) w }
      else none
    | _ => none
  | .read =>
    match s.op with
    | .read t => if t.left = 0 then some s.startAsync else none
    | .run (some t) w => if t.left = 0 then some { s with op := .run none w } else none
    | _ => none
  | .close => if s.op = .run none none then some { s with op := .closed } else none

/-- `cap` is what the pipe holds. -/
def portablePipe (cap : Nat) : System PortablePipe PortablePipeEvent where
  start s := ∃ readBuffer, s = .start readBuffer
  step := PortablePipe.step cap

section

variable {cap : Nat} {s s' : PortablePipe}

theorem PortablePipe.step_writeSome {n : Nat} :
    s.step cap (.writeSome n) = some s' ↔
      (∃ t, s.op = .write t ∧ t.CanAccept (some cap) s.bytes n ∧
        s' = { s with
          bytes := s.bytes ++ (t.unsent data1).take n
          op := .write (t.advance n) }) ∨
      ∃ r t, s.op = .run r (some t) ∧ t.CanAccept (some cap) s.bytes n ∧
        s' = { s with
          bytes := s.bytes ++ (t.unsent writeData).take n
          op := .run r (some (t.advance n)) } := by
  rcases hop : s.op with t | t | ⟨r, _ | t⟩ | _ <;> simp [step, hop, @eq_comm _ _ s']

theorem PortablePipe.step_write :
    s.step cap .write = some s' ↔
      (∃ t, s.op = .write t ∧ t.left = 0 ∧
        s' = { s with op := .read (.start data1.length) }) ∨
      ∃ r t, s.op = .run r (some t) ∧ t.left = 0 ∧ s' = { s with op := .run r none } := by
  rcases hop : s.op with t | t | ⟨r, _ | t⟩ | _ <;> simp [step, hop, @eq_comm _ _ s']

theorem PortablePipe.step_readSome {n : Nat} :
    s.step cap (.readSome n) = some s' ↔
      (∃ t, s.op = .read t ∧ CanRead t.left s.bytes n ∧
        s' = { s with
          bytes := s.bytes.drop n
          data2 := s.data2.put t.moved (s.bytes.take n)
          op := .read (t.advance n) }) ∨
      ∃ t w, s.op = .run (some t) w ∧ CanRead t.left s.bytes n ∧
        s' = { s with
          bytes := s.bytes.drop n
          readBuffer := s.readBuffer.put t.moved (s.bytes.take n)
          op := .run (some (t.advance n)) w } := by
  rcases hop : s.op with t | t | ⟨_ | t, w⟩ | _ <;> simp [step, hop, @eq_comm _ _ s']

theorem PortablePipe.step_read :
    s.step cap .read = some s' ↔
      (∃ t, s.op = .read t ∧ t.left = 0 ∧ s' = s.startAsync) ∨
      ∃ t w, s.op = .run (some t) w ∧ t.left = 0 ∧ s' = { s with op := .run none w } := by
  rcases hop : s.op with t | t | ⟨_ | t, w⟩ | _ <;> simp [step, hop, @eq_comm _ _ s']

theorem PortablePipe.step_close :
    s.step cap .close = some s' ↔ s.op = .run none none ∧ s' = { s with op := .closed } := by
  simp [step, @eq_comm _ _ s']

end

/-- What the asynchronous read has stored. -/
def PortablePipe.received (s : PortablePipe) : Option Transfer → Bytes
  | some t => s.readBuffer.front t.moved
  | none => s.readBuffer.cells

def PortablePipe.unwritten : Option Transfer → Bytes
  | some t => t.unsent writeData
  | none => []

/-- Each of the two messages is still to be written, in the pipe, or read. -/
def PortablePipe.Sound (s : PortablePipe) : Prop :=
  match s.op with
  | .write t => t.length = data1.length ∧ s.bytes ++ t.unsent data1 = data1
  | .read t => t.length = data1.length ∧ s.data2.front t.moved ++ s.bytes = data1
  | .run r w =>
    s.data2.cells = data1 ∧ (∀ t ∈ r, t.length = writeData.length) ∧
      (∀ t ∈ w, t.length = writeData.length) ∧
      s.received r ++ (s.bytes ++ unwritten w) = writeData
  | .closed => s.data2.cells = data1 ∧ s.readBuffer.cells = writeData

/-- Both messages have arrived as they were sent. -/
structure PortablePipe.Done (s : PortablePipe) : Prop where
  closed : s.op = .closed
  first : s.data2.cells = data1
  second : s.readBuffer.cells = writeData

def PortablePipe.remaining (s : PortablePipe) : Nat :=
  s.bytes.length +
    match s.op with
    | .write t => 2 * t.left + 33
    | .read _ => 32
    | .run r w =>
      (match r with | some _ => 1 | none => 0) +
        (match w with | some t => 2 * t.left + 1 | none => 0) + 1
    | .closed => 0

section

variable {cap : Nat} {s s' : PortablePipe}

theorem Buffer.cells_of_full {cap : Nat} {b : Buffer Byte cap} {t : Transfer}
    (hlen : t.length = cap) (hleft : t.left = 0) : b.cells = b.front t.moved := by
  have hmoved : t.moved = cap := by
    have hadd := t.moved_add_left
    omega
  rw [front, hmoved, List.take_of_length_le (Nat.le_of_eq b.length_cells)]

theorem eq_of_full {cap : Nat} (b : Buffer Byte cap) {xs ys : Bytes} (hlen : ys.length = cap)
    (h : b.cells ++ xs = ys) : b.cells = ys ∧ xs = [] := by
  have hall := congrArg List.length h
  rw [List.length_append, b.length_cells, hlen] at hall
  have hnil : xs = [] := List.length_eq_zero_iff.mp (by omega)
  rw [hnil, List.append_nil] at h
  exact ⟨h, hnil⟩

theorem PortablePipe.Sound.step {e : PortablePipeEvent} (h : s.Sound)
    (hs : s.step cap e = some s') : s'.Sound := by
  unfold Sound at h
  cases e with
  | writeSome n =>
    rcases step_writeSome.mp hs with ⟨t, hop, hn, rfl⟩ | ⟨r, t, hop, hn, rfl⟩
    · simp only [hop] at h
      refine ⟨h.1, ?_⟩
      rw [List.append_assoc, Transfer.take_append_unsent hn.2.1]
      exact h.2
    · simp only [hop] at h
      obtain ⟨hfirst, hr, hw, hall⟩ := h
      refine ⟨hfirst, hr, fun t' ht' => ?_, ?_⟩
      · obtain rfl := Option.mem_some.mp ht'
        exact hw t rfl
      · simp only [received, unwritten, List.append_assoc, Transfer.take_append_unsent hn.2.1]
        exact hall
  | write =>
    rcases step_write.mp hs with ⟨t, hop, ht, rfl⟩ | ⟨r, t, hop, ht, rfl⟩
    · simp only [hop] at h
      rw [Transfer.unsent_eq_nil ht, List.append_nil] at h
      exact ⟨rfl, h.2⟩
    · simp only [hop] at h
      obtain ⟨hfirst, hr, _, hall⟩ := h
      refine ⟨hfirst, hr, nofun, ?_⟩
      simp only [unwritten, Transfer.unsent_eq_nil ht] at hall ⊢
      exact hall
  | readSome n =>
    rcases step_readSome.mp hs with ⟨t, hop, hn, rfl⟩ | ⟨t, w, hop, hn, rfl⟩
    · simp only [hop] at h
      have hfit : t.moved + n ≤ data1.length := by
        have hadd := t.moved_add_left
        have hleft := hn.2.1
        omega
      refine ⟨h.1, ?_⟩
      rw [Transfer.moved_advance hn.2.1, hn.front_put s.data2 hfit, List.append_assoc,
        List.take_append_drop]
      exact h.2
    · simp only [hop] at h
      obtain ⟨hfirst, hr, hw, hall⟩ := h
      have hlen := hr t rfl
      have hfit : t.moved + n ≤ writeData.length := by
        have hadd := t.moved_add_left
        have hleft := hn.2.1
        omega
      refine ⟨hfirst, fun t' ht' => ?_, hw, ?_⟩
      · obtain rfl := Option.mem_some.mp ht'
        exact hlen
      · have hfront := hn.front_put s.readBuffer hfit
        simp only [received, Transfer.moved_advance hn.2.1, hfront, List.append_assoc]
        rw [← List.append_assoc (s.bytes.take n), List.take_append_drop]
        exact hall
  | read =>
    rcases step_read.mp hs with ⟨t, hop, ht, rfl⟩ | ⟨t, w, hop, ht, rfl⟩
    · simp only [hop] at h
      obtain ⟨hlen, hall⟩ := h
      rw [← Buffer.cells_of_full hlen ht] at hall
      obtain ⟨hfirst, hempty⟩ := eq_of_full s.data2 rfl hall
      have hhalf (t : Transfer) (ht : t ∈ some (Transfer.start writeData.length)) :
          t.length = writeData.length := by
        obtain rfl := Option.mem_some.mp ht
        rfl
      refine ⟨hfirst, hhalf, hhalf, ?_⟩
      simp only [startAsync, received, unwritten, hempty]
      rfl
    · simp only [hop] at h
      obtain ⟨hfirst, hr, hw, hall⟩ := h
      refine ⟨hfirst, nofun, hw, ?_⟩
      simp only [received, Buffer.cells_of_full (hr t rfl) ht]
      exact hall
  | close =>
    obtain ⟨hop, rfl⟩ := step_close.mp hs
    simp only [hop] at h
    obtain ⟨hfirst, _, _, hall⟩ := h
    exact ⟨hfirst, (eq_of_full s.readBuffer rfl hall).1⟩

theorem PortablePipe.step_remaining {e : PortablePipeEvent} (hs : s.step cap e = some s') :
    s'.remaining < s.remaining := by
  cases e with
  | writeSome n =>
    rcases step_writeSome.mp hs with ⟨t, hop, hn, rfl⟩ | ⟨r, t, hop, hn, rfl⟩
    · have hpos := hn.1
      have hleft := Transfer.left_advance hn.2.1
      have hlen := List.length_take_le n (t.unsent data1)
      simp only [remaining, hop, List.length_append]
      omega
    · have hpos := hn.1
      have hleft := Transfer.left_advance hn.2.1
      have hlen := List.length_take_le n (t.unsent writeData)
      simp only [remaining, hop, List.length_append]
      omega
  | write =>
    rcases step_write.mp hs with ⟨t, hop, ht, rfl⟩ | ⟨r, t, hop, ht, rfl⟩
    · simp only [remaining, hop]
      omega
    · simp only [remaining, hop]
      omega
  | readSome n =>
    rcases step_readSome.mp hs with ⟨t, hop, hn, rfl⟩ | ⟨t, w, hop, hn, rfl⟩
    · have hpos := hn.1
      have hle := hn.2.2
      simp only [remaining, hop, List.length_drop]
      omega
    · have hpos := hn.1
      have hle := hn.2.2
      simp only [remaining, hop, List.length_drop]
      omega
  | read =>
    rcases step_read.mp hs with ⟨t, hop, ht, rfl⟩ | ⟨t, w, hop, ht, rfl⟩
    · have hlen : writeData.length = 14 := rfl
      simp only [remaining, hop, startAsync, Transfer.left_start, hlen]
      omega
    · simp only [remaining, hop]
      omega
  | close =>
    obtain ⟨hop, rfl⟩ := step_close.mp hs
    simp only [remaining, hop]
    omega

/-- A read that nothing can serve waits at an empty pipe. -/
theorem PortablePipe.async_read_idle {r : Transfer} {w : Option Transfer}
    (hop : s.op = .run (some r) w) (hno : ∀ e s', s.step cap e ≠ some s') :
    0 < r.left ∧ s.bytes = [] := by
  have hleft : 0 < r.left := by
    by_contra hr
    exact hno _ _ (step_read.mpr (.inr ⟨r, w, hop, by omega, rfl⟩))
  refine ⟨hleft, ?_⟩
  by_contra hbytes
  have hread : CanRead r.left s.bytes 1 := canRead_one hleft hbytes
  exact hno _ _ (step_readSome.mpr (.inr ⟨r, w, hop, hread, rfl⟩))

/-- A pipe with room for the first message never stops half-way. -/
theorem PortablePipe.Sound.done (hcap : data1.length ≤ cap) (h : s.Sound)
    (hstuck : (portablePipe cap).Stuck s) : s.Done := by
  have hno {e : PortablePipeEvent} {s' : PortablePipe} : s.step cap e ≠ some s' :=
    hstuck.not_step e
  have hone : 1 ≤ cap := Nat.le_trans (by decide) hcap
  unfold Sound at h
  rcases hop : s.op with t | t | ⟨_ | r, _ | w⟩ | _ <;> simp only [hop] at h
  · obtain ⟨hlen, hall⟩ := h
    by_cases ht : t.left = 0
    · exact (hno (step_write.mpr (.inl ⟨t, hop, ht, rfl⟩))).elim
    · have hbytes := congrArg List.length hall
      rw [List.length_append, Transfer.length_unsent (Nat.le_of_eq hlen)] at hbytes
      have hroom : Room (some cap) s.bytes 1 := by
        simp only [Room, Option.some.injEq, forall_eq']
        omega
      have hacc := Transfer.canAccept_one (Nat.pos_of_ne_zero ht) hroom
      exact (hno (step_writeSome.mpr (.inl ⟨t, hop, hacc, rfl⟩))).elim
  · obtain ⟨hlen, hall⟩ := h
    by_cases ht : t.left = 0
    · exact (hno (step_read.mpr (.inl ⟨t, hop, ht, rfl⟩))).elim
    · have hadd := t.moved_add_left
      have hbytes := congrArg List.length hall
      rw [List.length_append, s.data2.length_front (by omega)] at hbytes
      have hne : s.bytes ≠ [] := by
        rw [← List.length_pos_iff]
        omega
      have hread : CanRead t.left s.bytes 1 := canRead_one (Nat.pos_of_ne_zero ht) hne
      exact (hno (step_readSome.mpr (.inl ⟨t, hop, hread, rfl⟩))).elim
  · exact (hno (step_close.mpr ⟨hop, rfl⟩)).elim
  · obtain ⟨_, _, hw, hall⟩ := h
    have hlen := hw w rfl
    have hempty := (eq_of_full s.readBuffer rfl hall).2
    have hunsent : (w.unsent writeData).length = 0 :=
      congrArg List.length (List.append_eq_nil_iff.mp hempty).2
    rw [Transfer.length_unsent (Nat.le_of_eq hlen)] at hunsent
    exact (hno (step_write.mpr (.inr ⟨none, w, hop, hunsent, rfl⟩))).elim
  · obtain ⟨_, hr, _, hall⟩ := h
    obtain ⟨hleft, hempty⟩ := async_read_idle hop fun e s' => hno
    have hlen := hr r rfl
    have hadd := r.moved_add_left
    have hbytes := congrArg List.length hall
    simp only [received, unwritten, hempty, List.append_nil] at hbytes
    rw [s.readBuffer.length_front (by omega)] at hbytes
    omega
  · obtain ⟨_, hr, hw, hall⟩ := h
    obtain ⟨hleft, hempty⟩ := async_read_idle hop fun e s' => hno
    have hlen := hr r rfl
    have hlen' := hw w rfl
    have hadd := r.moved_add_left
    have hbytes := congrArg List.length hall
    simp only [received, unwritten, hempty, List.nil_append, List.length_append] at hbytes
    rw [s.readBuffer.length_front (by omega), Transfer.length_unsent (Nat.le_of_eq hlen')] at hbytes
    have hroom : Room (some cap) s.bytes 1 := by
      simp only [Room, hempty, Option.some.injEq, forall_eq', List.length_nil]
      omega
    have hacc := Transfer.canAccept_one (t := w) (by omega) hroom
    exact (hno (step_writeSome.mpr (.inr ⟨some r, w, hop, hacc, rfl⟩))).elim
  · exact ⟨hop, h.1, h.2⟩

theorem PortablePipe.sound_start {readBuffer : Buffer Byte writeData.length} :
    (start readBuffer).Sound :=
  ⟨rfl, rfl⟩

/-- The blocking write never gets past what the pipe holds, as nobody reads yet. -/
theorem PortablePipe.writing_of_small (hcap : cap < data1.length)
    (h : (portablePipe cap).Reachable s) :
    ∃ t, s.op = .write t ∧ t.length = data1.length ∧ s.bytes.length = t.moved ∧ t.moved ≤ cap := by
  refine h.invariant (P := fun s : PortablePipe => ∃ t, s.op = .write t ∧
    t.length = data1.length ∧ s.bytes.length = t.moved ∧ t.moved ≤ cap) ?_ ?_
  · rintro s ⟨readBuffer, rfl⟩
    exact ⟨.start data1.length, rfl, rfl, rfl, Nat.zero_le cap⟩
  · rintro s e s' ⟨t, hop, hlen, hbytes, hmoved⟩ hs
    change s.step cap e = some s' at hs
    have hadd := t.moved_add_left
    cases e with
    | writeSome n =>
      rcases step_writeSome.mp hs with ⟨t', hop', hn, rfl⟩ | ⟨_, _, hop', _⟩
      · obtain rfl : t = t' := PortablePipeOp.write.inj (hop.symm.trans hop')
        have hle := hn.2.1
        have hroom := hn.2.2 cap rfl
        have hunsent : (t.unsent data1).length = t.left :=
          Transfer.length_unsent (Nat.le_of_eq hlen)
        refine ⟨t.advance n, rfl, hlen, ?_, ?_⟩
        · rw [List.length_append, List.length_take, hunsent, Transfer.moved_advance hle]
          omega
        · rw [Transfer.moved_advance hle]
          omega
      · exact absurd (hop.symm.trans hop') nofun
    | write =>
      rcases step_write.mp hs with ⟨t', hop', ht, rfl⟩ | ⟨_, _, hop', _⟩
      · obtain rfl : t = t' := PortablePipeOp.write.inj (hop.symm.trans hop')
        omega
      · exact absurd (hop.symm.trans hop') nofun
    | readSome n =>
      rcases step_readSome.mp hs with ⟨_, hop', _⟩ | ⟨_, _, hop', _⟩
      · exact absurd (hop.symm.trans hop') nofun
      · exact absurd (hop.symm.trans hop') nofun
    | read =>
      rcases step_read.mp hs with ⟨_, hop', _⟩ | ⟨_, _, hop', _⟩
      · exact absurd (hop.symm.trans hop') nofun
      · exact absurd (hop.symm.trans hop') nofun
    | close => exact absurd (hop.symm.trans (step_close.mp hs).1) nofun

/-- Both messages arrive and the program ends, in every order of its
operations, exactly when the pipe holds the whole first message. -/
theorem portable_pipe_completes_iff (cap : Nat) (readBuffer : Buffer Byte writeData.length) :
    (portablePipe cap).Completes PortablePipe.Done 59 (.start readBuffer) ↔ data1.length ≤ cap := by
  constructor
  · intro h
    by_contra hcap
    obtain ⟨ls, u, hr, hstuck⟩ := h.ends [] (.start readBuffer) rfl
    have hreach := System.Reachable.run (m := portablePipe cap) (.start ⟨readBuffer, rfl⟩) hr
    obtain ⟨t, hop, _⟩ := PortablePipe.writing_of_small (by omega) hreach
    exact absurd (hop.symm.trans (h.result ls u hr hstuck).closed) nofun
  · intro hcap
    exact System.completes_of_measure (m := portablePipe cap) (Q := PortablePipe.Done)
      (μ := PortablePipe.remaining) (fun _ _ _ h hs => PortablePipe.Sound.step h hs)
      (fun _ _ _ _ hs => PortablePipe.step_remaining hs)
      (fun _ h hstuck => PortablePipe.Sound.done hcap h hstuck) PortablePipe.sound_start

end

end ScratchServers
