import Mathlib.Data.List.GetD
import Mathlib.Data.List.Nodup

/-! Base64 in groups of three bytes, and the armour of a BEGIN line and an END
line around lines of it. -/

namespace ScratchServers

def base64Digits : List Char :=
  "ABCDEFGHIJKLMNOPQRSTUVWXYZabcdefghijklmnopqrstuvwxyz0123456789+/".toList

def base64Digit (v : Nat) : Char :=
  base64Digits.getD v '='

def base64Value (c : Char) : Option Nat :=
  base64Digits.idxOf? c

def isBase64 (c : Char) : Bool :=
  c = '=' || base64Digits.contains c

def base64Encode : List UInt8 → List Char
  | [] => []
  | [a] =>
    let v := a.toNat * 16
    [base64Digit (v / 64), base64Digit (v % 64), '=', '=']
  | [a, b] =>
    let v := (a.toNat * 256 + b.toNat) * 4
    [base64Digit (v / 4096), base64Digit (v / 64 % 64), base64Digit (v % 64), '=']
  | a :: b :: c :: rest =>
    let v := a.toNat * 65536 + b.toNat * 256 + c.toNat
    base64Digit (v / 262144) :: base64Digit (v / 4096 % 64) :: base64Digit (v / 64 % 64) ::
      base64Digit (v % 64) :: base64Encode rest

/-- A last group with one or two characters of padding. The bits that the padding
stands for have to be zero. -/
def base64DecodeLast (a b c : Char) : Option (List UInt8) := do
  let p ← base64Value a
  let q ← base64Value b
  if c = '=' then
    let v := p * 64 + q
    if v % 16 = 0 then some [.ofNat (v / 16)] else none
  else
    let r ← base64Value c
    let v := p * 4096 + q * 64 + r
    if v % 4 = 0 then some [.ofNat (v / 1024), .ofNat (v / 4)] else none

def base64Decode : List Char → Option (List UInt8)
  | [] => some []
  | a :: b :: c :: d :: rest =>
    if d = '=' then
      if rest = [] then base64DecodeLast a b c else none
    else do
      let p ← base64Value a
      let q ← base64Value b
      let r ← base64Value c
      let s ← base64Value d
      let v := p * 262144 + q * 4096 + r * 64 + s
      let xs ← base64Decode rest
      some (.ofNat (v / 65536) :: .ofNat (v / 256) :: .ofNat v :: xs)
  | _ => none

theorem length_base64Digits : base64Digits.length = 64 := by decide +kernel

theorem nodup_base64Digits : base64Digits.Nodup := by decide +kernel

theorem pad_not_mem_base64Digits : '=' ∉ base64Digits := by decide +kernel

theorem base64Digit_mem {v : Nat} (h : v < 64) : base64Digit v ∈ base64Digits := by
  have hlt : v < base64Digits.length := by rw [length_base64Digits]; exact h
  rw [base64Digit, List.getD_eq_getElem _ _ hlt]
  exact List.getElem_mem hlt

theorem base64Value_digit {v : Nat} (h : v < 64) : base64Value (base64Digit v) = some v := by
  have hlt : v < base64Digits.length := by rw [length_base64Digits]; exact h
  rw [base64Value, base64Digit, List.getD_eq_getElem _ _ hlt, List.idxOf?_eq_some_iff]
  refine ⟨hlt, rfl, fun j hj he => ?_⟩
  have hsame := nodup_base64Digits.getElem_inj_iff.mp he
  omega

theorem base64Digit_ne_pad {v : Nat} (h : v < 64) : base64Digit v ≠ '=' :=
  ne_of_mem_of_not_mem (base64Digit_mem h) pad_not_mem_base64Digits

theorem isBase64_digit {v : Nat} (h : v < 64) : isBase64 (base64Digit v) = true := by
  have hcontains := List.contains_iff_mem.mpr (base64Digit_mem h)
  rw [isBase64, hcontains, Bool.or_true]

theorem ofNat_eq_of_mod {n : Nat} {a : UInt8} (h : n % 256 = a.toNat) : UInt8.ofNat n = a := by
  apply UInt8.toNat_inj.mp
  rw [UInt8.toNat_ofNat']
  exact h

theorem base64Decode_one (a : UInt8) : base64Decode (base64Encode [a]) = some [a] := by
  have ha := a.toNat_lt
  have hp := base64Value_digit (show a.toNat * 16 / 64 < 64 by omega)
  have hq := base64Value_digit (show a.toNat * 16 % 64 < 64 by omega)
  have hv : a.toNat * 16 / 64 * 64 + a.toNat * 16 % 64 = a.toNat * 16 := by omega
  have hzero : a.toNat * 16 % 16 = 0 := by omega
  simp [base64Encode, base64Decode, base64DecodeLast, hp, hq, hv, hzero]

theorem base64DecodeLast_two {v : Nat} (hlt : v < 262144) (hzero : v % 4 = 0) :
    base64DecodeLast (base64Digit (v / 4096)) (base64Digit (v / 64 % 64))
        (base64Digit (v % 64)) =
      some [UInt8.ofNat (v / 1024), UInt8.ofNat (v / 4)] := by
  have hp := base64Value_digit (show v / 4096 < 64 by omega)
  have hq := base64Value_digit (show v / 64 % 64 < 64 by omega)
  have hr := base64Value_digit (show v % 64 < 64 by omega)
  have hpad := base64Digit_ne_pad (show v % 64 < 64 by omega)
  have hv : v / 4096 * 4096 + v / 64 % 64 * 64 + v % 64 = v := by omega
  simp only [base64DecodeLast, hp, hq, hr, hpad, if_false, Option.bind_eq_bind, Option.bind_some,
    hv, hzero, if_true]

theorem base64Decode_two (a b : UInt8) : base64Decode (base64Encode [a, b]) = some [a, b] := by
  have ha := a.toNat_lt
  have hb := b.toNat_lt
  let v := (a.toNat * 256 + b.toNat) * 4
  have hfirst : UInt8.ofNat (v / 1024) = a := ofNat_eq_of_mod (by omega)
  have hsecond : UInt8.ofNat (v / 4) = b := ofNat_eq_of_mod (by omega)
  have hlast := base64DecodeLast_two (show v < 262144 by omega) (show v % 4 = 0 by omega)
  rw [hfirst, hsecond] at hlast
  simp only [base64Encode, base64Decode, if_true]
  exact hlast

theorem base64Decode_group {v : Nat} (hlt : v < 16777216) (cs : List Char) :
    base64Decode (base64Digit (v / 262144) :: base64Digit (v / 4096 % 64) ::
        base64Digit (v / 64 % 64) :: base64Digit (v % 64) :: cs) =
      (base64Decode cs).map fun xs =>
        UInt8.ofNat (v / 65536) :: UInt8.ofNat (v / 256) :: UInt8.ofNat v :: xs := by
  have hp := base64Value_digit (show v / 262144 < 64 by omega)
  have hq := base64Value_digit (show v / 4096 % 64 < 64 by omega)
  have hr := base64Value_digit (show v / 64 % 64 < 64 by omega)
  have hs := base64Value_digit (show v % 64 < 64 by omega)
  have hpad := base64Digit_ne_pad (show v % 64 < 64 by omega)
  have hv : v / 262144 * 262144 + v / 4096 % 64 * 4096 + v / 64 % 64 * 64 + v % 64 = v := by omega
  simp only [base64Decode, hp, hq, hr, hs, hpad, if_false, Option.bind_eq_bind, Option.bind_some,
    hv]
  cases base64Decode cs <;> rfl

theorem base64Decode_encode (xs : List UInt8) : base64Decode (base64Encode xs) = some xs := by
  induction xs using base64Encode.induct with
  | case1 => rfl
  | case2 a => exact base64Decode_one a
  | case3 a b => exact base64Decode_two a b
  | case4 a b c rest ih =>
    have ha := a.toNat_lt
    have hb := b.toNat_lt
    have hc := c.toNat_lt
    let v := a.toNat * 65536 + b.toNat * 256 + c.toNat
    have hfirst : UInt8.ofNat (v / 65536) = a := ofNat_eq_of_mod (by omega)
    have hsecond : UInt8.ofNat (v / 256) = b := ofNat_eq_of_mod (by omega)
    have hthird : UInt8.ofNat v = c := ofNat_eq_of_mod (by omega)
    have hgroup := base64Decode_group (show v < 16777216 by omega) (base64Encode rest)
    rw [ih, Option.map_some, hfirst, hsecond, hthird] at hgroup
    exact hgroup

theorem isBase64_pad : isBase64 '=' = true := rfl

theorem isBase64_encode (xs : List UInt8) : ∀ c ∈ base64Encode xs, isBase64 c = true := by
  induction xs using base64Encode.induct with
  | case1 => exact List.forall_mem_nil _
  | case2 a =>
    have ha := a.toNat_lt
    have hp := isBase64_digit (show a.toNat * 16 / 64 < 64 by omega)
    have hq := isBase64_digit (show a.toNat * 16 % 64 < 64 by omega)
    simp only [base64Encode, List.forall_mem_cons]
    exact ⟨hp, hq, isBase64_pad, isBase64_pad, List.forall_mem_nil _⟩
  | case3 a b =>
    have ha := a.toNat_lt
    have hb := b.toNat_lt
    let v := (a.toNat * 256 + b.toNat) * 4
    have hp := isBase64_digit (show v / 4096 < 64 by omega)
    have hq := isBase64_digit (show v / 64 % 64 < 64 by omega)
    have hr := isBase64_digit (show v % 64 < 64 by omega)
    simp only [base64Encode, List.forall_mem_cons]
    exact ⟨hp, hq, hr, isBase64_pad, List.forall_mem_nil _⟩
  | case4 a b c rest ih =>
    have ha := a.toNat_lt
    have hb := b.toNat_lt
    have hc := c.toNat_lt
    let v := a.toNat * 65536 + b.toNat * 256 + c.toNat
    have hp := isBase64_digit (show v / 262144 < 64 by omega)
    have hq := isBase64_digit (show v / 4096 % 64 < 64 by omega)
    have hr := isBase64_digit (show v / 64 % 64 < 64 by omega)
    have hs := isBase64_digit (show v % 64 < 64 by omega)
    simp only [base64Encode, List.forall_mem_cons]
    exact ⟨hp, hq, hr, hs, ih⟩

/-- Cuts `cs` into lines of `width` characters; `line` is the start of the first. -/
def cutLines (width : Nat) (line : List Char) : List Char → List (List Char)
  | [] => if line = [] then [] else [line]
  | c :: cs =>
    if line.length + 1 = width then (line ++ [c]) :: cutLines width [] cs
    else cutLines width (line ++ [c]) cs

theorem flatten_cutLines (width : Nat) (line cs : List Char) :
    (cutLines width line cs).flatten = line ++ cs := by
  induction cs generalizing line with
  | nil => by_cases hl : line = [] <;> simp [cutLines, hl]
  | cons c cs ih =>
    by_cases hw : line.length + 1 = width
    · simp [cutLines, hw, ih]
    · simp [cutLines, hw, ih]

inductive LineEnd where
  | lf
  | crlf
  deriving DecidableEq

def LineEnd.chars : LineEnd → List Char
  | .lf => ['\n']
  | .crlf => ['\r', '\n']

def isLabel (c : Char) : Bool :=
  c = ' ' || c.isUpper

/-- A BEGIN line, lines of base64 characters and an END line. -/
structure Pem where
  label : List Char
  begins : LineEnd
  lines : List (List Char × LineEnd)
  ends : LineEnd
  labelled : ∀ c ∈ label, isLabel c = true
  armoured : ∀ l ∈ lines, ∀ c ∈ l.1, isBase64 c = true

def armourLine (mark label : List Char) (e : LineEnd) : List Char :=
  "-----".toList ++ mark ++ label ++ "-----".toList ++ e.chars

def Pem.text (p : Pem) : List Char :=
  armourLine "BEGIN ".toList p.label p.begins ++
    p.lines.flatMap (fun l => l.1 ++ l.2.chars) ++
    armourLine "END ".toList p.label p.ends

def Pem.content (p : Pem) : Option (List UInt8) :=
  base64Decode (p.lines.flatMap Prod.fst)

/-- Such a text, and the base64 between its lines is that of `xs`. -/
def ReadsBack (text : List Char) (xs : List UInt8) : Prop :=
  ∃ p : Pem, p.text = text ∧ p.content = some xs

theorem ne_nul_of_isLabel {c : Char} (h : isLabel c = true) : c ≠ Char.ofNat 0 := by
  rintro rfl
  exact absurd h (by decide)

theorem ne_nul_of_isBase64 {c : Char} (h : isBase64 c = true) : c ≠ Char.ofNat 0 := by
  rintro rfl
  exact absurd h (by decide)

theorem LineEnd.ne_nul {e : LineEnd} {c : Char} (hc : c ∈ e.chars) : c ≠ Char.ofNat 0 := by
  have hnul : Char.ofNat 0 ∉ e.chars := by cases e <;> decide
  exact ne_of_mem_of_not_mem hc hnul

theorem armourLine_ne_nul {mark label : List Char} {e : LineEnd}
    (hmark : Char.ofNat 0 ∉ mark) (hlabel : ∀ c ∈ label, isLabel c = true) {c : Char}
    (hc : c ∈ armourLine mark label e) : c ≠ Char.ofNat 0 := by
  have hdashes : Char.ofNat 0 ∉ "-----".toList := by decide
  unfold armourLine at hc
  simp only [List.mem_append] at hc
  rcases hc with (((hc | hc) | hc) | hc) | hc
  · exact ne_of_mem_of_not_mem hc hdashes
  · exact ne_of_mem_of_not_mem hc hmark
  · exact ne_nul_of_isLabel (hlabel c hc)
  · exact ne_of_mem_of_not_mem hc hdashes
  · exact LineEnd.ne_nul hc

theorem Pem.ne_nul {p : Pem} {c : Char} (hc : c ∈ p.text) : c ≠ Char.ofNat 0 := by
  rcases List.mem_append.mp hc with hc | hc
  · rcases List.mem_append.mp hc with hc | hc
    · exact armourLine_ne_nul (by decide) p.labelled hc
    · obtain ⟨l, hl, hc⟩ := List.mem_flatMap.mp hc
      rcases List.mem_append.mp hc with hc | hc
      · exact ne_nul_of_isBase64 (p.armoured l hl c hc)
      · exact LineEnd.ne_nul hc
  · exact armourLine_ne_nul (by decide) p.labelled hc

theorem not_readsBack_of_nul {text : List Char} {xs : List UInt8} (h : Char.ofNat 0 ∈ text) :
    ¬ ReadsBack text xs := by
  rintro ⟨p, rfl, _⟩
  exact Pem.ne_nul h rfl

theorem ReadsBack.dash_mem {text : List Char} {xs : List UInt8} (h : ReadsBack text xs) :
    '-' ∈ text := by
  obtain ⟨p, rfl, _⟩ := h
  have hdash : '-' ∈ "-----".toList := by decide
  have hline : '-' ∈ armourLine "BEGIN ".toList p.label p.begins :=
    List.mem_append_left _ (List.mem_append_right _ hdash)
  exact List.mem_append_left _ (List.mem_append_left _ hline)

/-- Lines of 64 characters. -/
def base64Lines (xs : List UInt8) : List (List Char) :=
  cutLines 64 [] (base64Encode xs)

def base64Text (xs : List UInt8) : List Char :=
  (base64Lines xs).flatMap fun l => l ++ LineEnd.crlf.chars

theorem flatten_base64Lines (xs : List UInt8) : (base64Lines xs).flatten = base64Encode xs :=
  flatten_cutLines 64 [] (base64Encode xs)

def Pem.ofBytes (label : List Char) (labelled : ∀ c ∈ label, isLabel c = true)
    (begins ends : LineEnd) (xs : List UInt8) : Pem where
  label := label
  begins := begins
  lines := (base64Lines xs).map fun l => (l, .crlf)
  ends := ends
  labelled := labelled
  armoured := by
    intro l hl c hc
    obtain ⟨line, hline, rfl⟩ := List.mem_map.mp hl
    have hmem : c ∈ (base64Lines xs).flatten := List.mem_flatten.mpr ⟨line, hline, hc⟩
    rw [flatten_base64Lines] at hmem
    exact isBase64_encode xs c hmem

theorem Pem.text_ofBytes {label : List Char} (labelled : ∀ c ∈ label, isLabel c = true)
    (begins ends : LineEnd) (xs : List UInt8) :
    (Pem.ofBytes label labelled begins ends xs).text =
      armourLine "BEGIN ".toList label begins ++ base64Text xs ++
        armourLine "END ".toList label ends := by
  have hlines : ((base64Lines xs).map fun l => (l, LineEnd.crlf)).flatMap
      (fun l => l.1 ++ l.2.chars) = base64Text xs := by
    rw [List.flatMap_map, base64Text]
  rw [Pem.text, Pem.ofBytes, hlines]

theorem Pem.content_ofBytes {label : List Char} (labelled : ∀ c ∈ label, isLabel c = true)
    (begins ends : LineEnd) (xs : List UInt8) :
    (Pem.ofBytes label labelled begins ends xs).content = some xs := by
  have hlines : ((base64Lines xs).map fun l => (l, LineEnd.crlf)).flatMap Prod.fst =
      base64Encode xs := by
    rw [List.flatMap_map, ← flatten_base64Lines]
    exact List.flatMap_id
  rw [Pem.content, Pem.ofBytes, hlines]
  exact base64Decode_encode xs

end ScratchServers
