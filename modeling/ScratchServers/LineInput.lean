import ScratchServers.EchoServer

/-! What the echo clients send: `std::cin.getline` into a fixed array, and then
as many of its cells as `strlen` counts. -/

namespace ScratchServers

def newline : Byte := 10

/-- What `getline(request, max_length)` stores: the input up to its first
newline or its end, and no more than leaves room for the terminator. -/
def lineOf (input : Bytes) : Bytes :=
  (input.takeWhile (· != newline)).take (maxLength - 1)

/-- The terminator is stored whether or not anything could be read. -/
def getline (request : Buffer Byte maxLength) (input : Bytes) : Buffer Byte maxLength :=
  request.put 0 (lineOf input ++ [0])

def strlen {cap : Nat} (b : Buffer Byte cap) : Nat :=
  (b.cells.takeWhile (· != 0)).length

def message (input : Bytes) : Bytes :=
  (lineOf input).takeWhile (· != 0)

theorem length_lineOf (input : Bytes) : (lineOf input).length ≤ maxLength - 1 := by
  simp only [lineOf, List.length_take]
  omega

theorem message_prefix_lineOf (input : Bytes) : message input <+: lineOf input :=
  List.takeWhile_prefix _

theorem length_message (input : Bytes) : (message input).length ≤ 1023 :=
  Nat.le_trans (message_prefix_lineOf input).length_le (length_lineOf input)

theorem takeWhile_terminated (xs ys : Bytes) :
    (xs ++ 0 :: ys).takeWhile (· != 0) = xs.takeWhile (· != 0) := by
  induction xs with
  | nil => simp
  | cons x xs ih =>
    simp only [List.cons_append, List.takeWhile_cons]
    rw [ih]

/-- Whatever the array held before, `strlen` stops in the line. -/
theorem getline_strlen (request : Buffer Byte maxLength) (input : Bytes) :
    strlen (getline request input) = (message input).length ∧
      (getline request input).front (message input).length = message input := by
  have hlen := length_lineOf input
  have hfit : 0 + (lineOf input ++ [0]).length ≤ maxLength := by
    simp only [List.length_append, List.length_singleton, maxLength] at hlen ⊢
    omega
  have hfront : (getline request input).front (0 + (lineOf input ++ [0]).length) =
      lineOf input ++ [0] := request.front_put hfit
  have hstart : lineOf input ++ [0] <+: (getline request input).cells :=
    hfront ▸ List.take_prefix _ _
  obtain ⟨rest, hrest⟩ := hstart
  rw [List.append_assoc, List.singleton_append] at hrest
  constructor
  · rw [strlen, ← hrest, takeWhile_terminated, message]
  · have hmessage : message input <+: lineOf input ++ 0 :: rest :=
      (message_prefix_lineOf input).trans (List.prefix_append _ _)
    rw [Buffer.front, ← hrest]
    exact (List.prefix_iff_eq_take.mp hmessage).symm

end ScratchServers
