import Mathlib.Algebra.Group.Int.Defs
import Mathlib.Algebra.Group.Nat.Defs
import Mathlib.Data.List.TakeWhile

/-! NUL-terminated strings of C as lists of bytes.  A cursor into a string is the list of the bytes
from the cursor on; the end of the list reads as NUL, and a NUL inside the list ends the string as
well.  The functions are those of the C library in the "C" locale. -/

namespace Esp32Fx.Lib

/-- The bytes of an ASCII text. -/
def ascii (text : String) : List UInt8 := text.toList.map fun c => UInt8.ofNat c.toNat

theorem ascii_ge {text : String} {least : UInt8} (h : (ascii text).all (least ≤ ·) = true) :
    ∀ b ∈ ascii text, least ≤ b := by
  intro b hb
  simpa using List.all_eq_true.mp h b hb

/-- The byte under a cursor. -/
def peek : List UInt8 → UInt8
  | [] => 0
  | b :: _ => b

@[simp] theorem peek_nil : peek [] = 0 := rfl

@[simp] theorem peek_cons (b : UInt8) (bs : List UInt8) : peek (b :: bs) = b := rfl

/-- The bytes before the first NUL. -/
def cString (bs : List UInt8) : List UInt8 := bs.takeWhile (· ≠ 0)

theorem cString_of_nulFree {bs : List UInt8} (h : (0 : UInt8) ∉ bs) : cString bs = bs := by
  refine List.takeWhile_eq_self_iff.mpr fun b hb => ?_
  have hne : b ≠ 0 := fun h0 => h (h0 ▸ hb)
  simpa using hne

/-- `strlen`. -/
def strlen (bs : List UInt8) : Nat := (cString bs).length

/-- `strcmp(a, b) == 0`. -/
def strEq (a b : List UInt8) : Bool := cString a == cString b

/-- A string of C reads as a word when nothing or a NUL follows the word. -/
theorem strEq_iff {s word : List UInt8} (h : (0 : UInt8) ∉ word) :
    strEq s word = true ↔ s = word ∨ ∃ rest, s = word ++ 0 :: rest := by
  rw [strEq, beq_iff_eq, cString_of_nulFree h]
  constructor
  · intro hEq
    have hSplit : cString s ++ s.dropWhile (· ≠ 0) = s := List.takeWhile_append_dropWhile
    cases hRest : s.dropWhile (· ≠ 0) with
    | nil => exact .inl (by rw [← hSplit, hRest, hEq, List.append_nil])
    | cons b rest =>
      have hb : b = 0 := by
        have := List.head?_dropWhile_not (fun b : UInt8 => decide (b ≠ 0)) s
        rw [hRest] at this
        simpa using this
      exact .inr ⟨rest, by rw [← hSplit, hRest, hEq, hb]⟩
  · rintro (rfl | ⟨rest, rfl⟩)
    · exact cString_of_nulFree h
    · have hAll : ∀ b ∈ word, decide (b ≠ 0) = true :=
        fun b hb => decide_eq_true fun h0 => h (h0 ▸ hb)
      rw [cString, List.takeWhile_append_of_pos hAll, List.takeWhile_cons_of_neg (by simp),
        List.append_nil]

/-- `isspace`. -/
def isspace (b : UInt8) : Bool := b == 0x20 || (0x09 ≤ b && b ≤ 0x0d)

/-- `strchr(s, c)` for a `c` other than NUL: the string from the first `c` on. -/
def strchr (c : UInt8) : List UInt8 → Option (List UInt8)
  | [] => none
  | b :: rest => if b = c then some (b :: rest) else if b = 0 then none else strchr c rest

theorem strchr_self (c : UInt8) (rest : List UInt8) : strchr c (c :: rest) = some (c :: rest) := by
  simp [strchr]

/-- A stretch without the byte and without NUL is passed over. -/
theorem strchr_append {c : UInt8} {skipped : List UInt8} (hc : c ∉ skipped)
    (h0 : (0 : UInt8) ∉ skipped) (rest : List UInt8) :
    strchr c (skipped ++ rest) = strchr c rest := by
  induction skipped with
  | nil => rfl
  | cons b bs ih =>
    simp only [List.mem_cons, not_or] at hc h0
    rw [List.cons_append, strchr, if_neg (Ne.symm hc.1), if_neg (Ne.symm h0.1)]
    exact ih hc.2 h0.2

theorem strchr_eq_some {c : UInt8} {s found : List UInt8} (h : strchr c s = some found) :
    found.length ≤ s.length ∧ ∃ rest, found = c :: rest := by
  induction s with
  | nil => simp [strchr] at h
  | cons b bs ih =>
    rw [strchr] at h
    split at h
    · next hb =>
      cases h
      exact ⟨Nat.le_refl _, bs, by rw [hb]⟩
    · split at h
      · simp at h
      · obtain ⟨hLength, hFound⟩ := ih h
        exact ⟨by simp only [List.length_cons]; omega, hFound⟩

/-! ### Conversion of digits -/

/-- The value of a digit of a base up to 16. -/
def hexValue (b : UInt8) : Option Nat :=
  if 0x30 ≤ b ∧ b ≤ 0x39 then some (b.toNat - 0x30)
  else if 0x61 ≤ b ∧ b ≤ 0x66 then some (b.toNat - 0x61 + 10)
  else if 0x41 ≤ b ∧ b ≤ 0x46 then some (b.toNat - 0x41 + 10)
  else none

theorem hexValue_lt {b : UInt8} {v : Nat} (h : hexValue b = some v) : v < 16 := by
  unfold hexValue at h
  simp only [UInt8.le_iff_toNat_le, UInt8.toNat_ofNat] at h
  split at h
  · cases h; omega
  · split at h
    · cases h; omega
    · split at h
      · cases h; omega
      · simp at h

/-- A digit below 16 as `%x` prints it. -/
def hexLower (digit : Nat) : UInt8 :=
  if digit < 10 then UInt8.ofNat (0x30 + digit) else UInt8.ofNat (0x61 + digit - 10)

theorem hexValue_hexLower (v : Fin 16) : hexValue (hexLower v) = some v.val := by
  revert v
  decide

/-- The value of a digit of `base`, for a base up to 16. -/
def digitValue (base : Nat) (b : UInt8) : Option Nat :=
  (hexValue b).filter (· < base)

/-- Reads digits of `base` as long as there are any: the value that `acc` and the digits spell, and
the rest. -/
def readDigits (base : Nat) : Nat → List UInt8 → Nat × List UInt8
  | acc, [] => (acc, [])
  | acc, b :: rest =>
    match digitValue base b with
    | some d => readDigits base (acc * base + d) rest
    | none => (acc, b :: rest)

/-- The sign before a number: whether it is a minus, and the rest. -/
def readSign : List UInt8 → Bool × List UInt8
  | 0x2d :: rest => (true, rest)
  | 0x2b :: rest => (false, rest)
  | s => (false, s)

/-- What a conversion leaves: the value, the cursor after the number, and whether the number was
out of range. -/
structure Converted where
  value : Int
  rest : List UInt8
  erange : Bool
  deriving DecidableEq, Repr

/-- `strtol(s, &end, 10)` for a `long` of `bits` bits; none when `s` starts with no number. -/
def strtol (bits : Nat) (s : List UInt8) : Option Converted :=
  let (neg, digits) := readSign (s.dropWhile isspace)
  if (digitValue 10 (peek digits)).isNone then none
  else
    let (magnitude, rest) := readDigits 10 0 digits
    let value : Int := if neg then -magnitude else magnitude
    if value < -2 ^ (bits - 1) then some ⟨-2 ^ (bits - 1), rest, true⟩
    else if 2 ^ (bits - 1) ≤ value then some ⟨2 ^ (bits - 1) - 1, rest, true⟩
    else some ⟨value, rest, false⟩

/-- The base that `strtoul(s, &end, 0)` takes from the prefix of a number, and the digits. -/
def readBase : List UInt8 → Nat × List UInt8
  | 0x30 :: x :: rest =>
    if (x = 0x78 ∨ x = 0x58) ∧ (hexValue (peek rest)).isSome then (16, rest)
    else (8, 0x30 :: x :: rest)
  | 0x30 :: [] => (8, [0x30])
  | s => (10, s)

/-- `strtoul(s, &end, 0)` for an `unsigned long` of `bits` bits; none when `s` starts with no
number.  A minus sign negates the value modulo `2 ^ bits`. -/
def strtoul (bits : Nat) (s : List UInt8) : Option Converted :=
  let (neg, number) := readSign (s.dropWhile isspace)
  let (base, digits) := readBase number
  if (digitValue base (peek digits)).isNone then none
  else
    let (magnitude, rest) := readDigits base 0 digits
    if 2 ^ bits ≤ magnitude then some ⟨2 ^ bits - 1, rest, true⟩
    else some ⟨if neg then ((2 ^ bits - magnitude) % 2 ^ bits : Nat) else magnitude, rest, false⟩

/-- `strtoul(s, &end, 10)`; a text that starts with no number converts to 0, up to its start. -/
def strtoulDecimal (bits : Nat) (s : List UInt8) : Converted :=
  let (neg, digits) := readSign (s.dropWhile isspace)
  if (digitValue 10 (peek digits)).isNone then ⟨0, s, false⟩
  else
    let (magnitude, rest) := readDigits 10 0 digits
    if 2 ^ bits ≤ magnitude then ⟨2 ^ bits - 1, rest, true⟩
    else ⟨if neg then ((2 ^ bits - magnitude) % 2 ^ bits : Nat) else magnitude, rest, false⟩

example : strtoul 32 (ascii "0x3df00000") = some ⟨0x3df00000, [], false⟩ := by decide

example : strtol 32 (ascii "3.5,") = some ⟨3, ascii ".5,", false⟩ := by decide

end Esp32Fx.Lib
