import Mathlib.Data.List.DropRight
import Mathlib.Data.List.Sort

/-! Texts of Python as lists of characters: the methods of `str` that split a text into fields, and
`int` of a text in the base that its prefix gives. -/

namespace Esp32Fx.Lib.Py

/-- `str.isspace` of a character. -/
def isSpace (c : Char) : Bool :=
  (9 ≤ c.toNat && c.toNat ≤ 13) || (0x1c ≤ c.toNat && c.toNat ≤ 0x20) || c.toNat == 0x85 ||
    c.toNat == 0xa0 || c.toNat == 0x1680 || (0x2000 ≤ c.toNat && c.toNat ≤ 0x200a) ||
    c.toNat == 0x2028 || c.toNat == 0x2029 || c.toNat == 0x202f || c.toNat == 0x205f ||
    c.toNat == 0x3000

/-- `str.strip`. -/
def strip (text : List Char) : List Char := (text.dropWhile isSpace).rdropWhile isSpace

/-- A line without white space comes back from its text. -/
theorem strip_line {text : List Char} (h : ∀ c ∈ text, isSpace c = false) :
    strip (text ++ ['\n']) = text := by
  have hEnd : isSpace '\n' = true := by decide
  cases text with
  | nil => decide
  | cons c rest =>
    have hStart : ¬isSpace c = true := by simp [h c (by simp)]
    rw [strip, List.cons_append, List.dropWhile_cons_of_neg hStart, ← List.cons_append,
      List.rdropWhile_concat_pos _ _ _ hEnd, List.rdropWhile_eq_self_iff]
    intro hNonempty
    simp [h _ (List.getLast_mem hNonempty)]

/-- A character that ends a line for `str.splitlines`. -/
def isLineBreak (c : Char) : Bool :=
  (10 ≤ c.toNat && c.toNat ≤ 13) || (0x1c ≤ c.toNat && c.toNat ≤ 0x1e) || c.toNat == 0x85 ||
    c.toNat == 0x2028 || c.toNat == 0x2029

/-- The lines of a text that goes on with `current`. -/
def linesFrom (current : List Char) : List Char → List (List Char)
  | [] => if current = [] then [] else [current]
  | '\r' :: '\n' :: rest => current :: linesFrom [] rest
  | c :: rest =>
    if isLineBreak c then current :: linesFrom [] rest else linesFrom (current ++ [c]) rest

/-- `str.splitlines`. -/
def splitLines (text : List Char) : List (List Char) := linesFrom [] text

theorem linesFrom_feed_nil (current rest : List Char) :
    linesFrom current ('\n' :: rest) = current :: linesFrom [] rest := by
  rw [linesFrom]
  · rfl
  · exact fun _ hSame => absurd hSame (by decide)

theorem linesFrom_break {c : Char} (h : isLineBreak c = true) {current rest : List Char}
    (hPair : ∀ rest', c = '\r' → rest = '\n' :: rest' → False) :
    linesFrom current (c :: rest) = current :: linesFrom [] rest := by
  rw [linesFrom]
  · rw [if_pos h]
  · exact hPair

theorem linesFrom_char {c : Char} (h : isLineBreak c = false) (current rest : List Char) :
    linesFrom current (c :: rest) = linesFrom (current ++ [c]) rest := by
  rw [linesFrom]
  · simp [h]
  · rintro _ rfl
    cases h

/-- A line goes on where no character ends it. -/
theorem linesFrom_run {text : List Char} (h : ∀ c ∈ text, isLineBreak c = false)
    (current rest : List Char) :
    linesFrom current (text ++ rest) = linesFrom (current ++ text) rest := by
  induction text generalizing current with
  | nil => rw [List.nil_append, List.append_nil]
  | cons c text ih =>
    obtain ⟨hFirst, hRest⟩ := List.forall_mem_cons.mp h
    rw [List.cons_append, linesFrom_char hFirst, ih hRest, List.append_assoc,
      List.singleton_append]

/-- The lines up to a line feed do not depend on what is behind. -/
theorem linesFrom_feed (current text rest : List Char) :
    linesFrom current (text ++ '\n' :: rest) =
      linesFrom current (text ++ ['\n']) ++ linesFrom [] rest := by
  fun_induction linesFrom current text with
  | case1 => rfl
  | case2 current hOpen =>
    rw [List.nil_append, List.nil_append, linesFrom_feed_nil, linesFrom_feed_nil]
    rfl
  | case3 current text ih =>
    simp only [List.cons_append, linesFrom, ih]
  | case4 current c text hPair hBreak ih =>
    cases text with
    | nil =>
      by_cases hReturn : c = '\r'
      · subst hReturn
        simp [linesFrom]
      · have hAlone (rest : List Char) : ∀ rest', c = '\r' → rest = '\n' :: rest' → False :=
          fun _ hSame => absurd hSame hReturn
        rw [List.singleton_append, List.singleton_append, linesFrom_break hBreak (hAlone _),
          linesFrom_break hBreak (hAlone _)]
        exact congrArg (current :: ·) ih
    | cons c' text =>
      have hApart (behind : List Char) :
          ∀ rest', c = '\r' → c' :: text ++ behind = '\n' :: rest' → False := by
        intro rest' hReturn hFeed
        obtain ⟨rfl, -⟩ := List.cons.inj hFeed
        exact hPair text hReturn rfl
      calc linesFrom current (c :: (c' :: text ++ '\n' :: rest))
          = current :: linesFrom [] (c' :: text ++ '\n' :: rest) := linesFrom_break hBreak (hApart _)
        _ = current :: linesFrom [] (c' :: text ++ ['\n']) ++ linesFrom [] rest := by
            rw [ih]
            rfl
        _ = linesFrom current (c :: (c' :: text ++ ['\n'])) ++ linesFrom [] rest := by
            rw [linesFrom_break hBreak (hApart _)]
  | case5 current c text hPair hChar ih =>
    rw [Bool.not_eq_true] at hChar
    rw [List.cons_append, List.cons_append, linesFrom_char hChar, linesFrom_char hChar, ih]

/-- Lines with their line feeds and nothing behind. -/
def EndsLine (text : List Char) : Prop := text = [] ∨ text.getLast? = some '\n'

instance : DecidablePred EndsLine := fun text =>
  inferInstanceAs (Decidable (text = [] ∨ text.getLast? = some '\n'))

theorem splitLines_append {before : List Char} (h : EndsLine before) (after : List Char) :
    splitLines (before ++ after) = splitLines before ++ splitLines after := by
  obtain rfl | hLast := h
  · rfl
  · obtain ⟨front, rfl⟩ := List.getLast?_eq_some_iff.mp hLast
    rw [List.append_assoc, List.singleton_append]
    exact linesFrom_feed [] front after

/-- The zeros of the decimal digits of Unicode 14. -/
def decimalZeros : List Nat :=
  [0x30, 0x660, 0x6f0, 0x7c0, 0x966, 0x9e6, 0xa66, 0xae6, 0xb66, 0xbe6, 0xc66, 0xce6, 0xd66, 0xde6,
    0xe50, 0xed0, 0xf20, 0x1040, 0x1090, 0x17e0, 0x1810, 0x1946, 0x19d0, 0x1a80, 0x1a90, 0x1b50,
    0x1bb0, 0x1c40, 0x1c50, 0xa620, 0xa8d0, 0xa900, 0xa9d0, 0xa9f0, 0xaa50, 0xabf0, 0xff10, 0x104a0,
    0x10d30, 0x11066, 0x110f0, 0x11136, 0x111d0, 0x112f0, 0x11450, 0x114d0, 0x11650, 0x116c0,
    0x11730, 0x118e0, 0x11950, 0x11c50, 0x11d50, 0x11da0, 0x16a60, 0x16ac0, 0x16b50, 0x1d7ce,
    0x1d7d8, 0x1d7e2, 0x1d7ec, 0x1d7f6, 0x1e140, 0x1e2f0, 0x1e950, 0x1fbf0]

/-- A decimal digit as the ASCII digit of its value; other characters stay. -/
def asciiDigit (c : Char) : Char :=
  match decimalZeros.find? fun first => first ≤ c.toNat && c.toNat < first + 10 with
  | some first => Char.ofNat (0x30 + (c.toNat - first))
  | none => c

/-- The value of a digit in a base of at most 36. -/
def digitValue (base : Nat) (c : Char) : Option Nat :=
  let value :=
    if '0' ≤ c ∧ c ≤ '9' then c.toNat - 0x30
    else if 'a' ≤ c ∧ c ≤ 'z' then c.toNat - 0x61 + 10
    else if 'A' ≤ c ∧ c ≤ 'Z' then c.toNat - 0x41 + 10
    else base
  if value < base then some value else none

/-- Digits with single underscores between them; `digit` tells whether one was just read. -/
def digitsFrom (base : Nat) (digit : Bool) (value : Nat) : List Char → Option Nat
  | [] => if digit then some value else none
  | c :: rest =>
    if c = '_' then if digit then digitsFrom base false value rest else none
    else
      match digitValue base c with
      | some d => digitsFrom base true (value * base + d) rest
      | none => none

/-- The digits after a prefix, which an underscore may precede. -/
def prefixed (base : Nat) : List Char → Option Nat
  | '_' :: rest => digitsFrom base false 0 rest
  | rest => digitsFrom base false 0 rest

/-- The digits of an integer literal: a decimal one that starts with `0` has to be zero. -/
def magnitude : List Char → Option Nat
  | '0' :: 'x' :: rest | '0' :: 'X' :: rest => prefixed 16 rest
  | '0' :: 'o' :: rest | '0' :: 'O' :: rest => prefixed 8 rest
  | '0' :: 'b' :: rest | '0' :: 'B' :: rest => prefixed 2 rest
  | '0' :: rest => (digitsFrom 10 true 0 rest).filter (· = 0)
  | rest => digitsFrom 10 false 0 rest

/-- `int(text, 0)`, or none for a `ValueError`. -/
def int0 (text : List Char) : Option Int :=
  match (strip text).map asciiDigit with
  | '-' :: rest => (magnitude rest).map fun n => -(n : Int)
  | '+' :: rest => (magnitude rest).map fun n => (n : Int)
  | rest => (magnitude rest).map fun n => (n : Int)

example : ["0x_1F", " 0_0 ", "01", "-0b10", "1__0", "٠x10"].map (fun t => int0 t.toList) =
    [some 31, some 0, none, some (-2), none, some 16] := by decide

end Esp32Fx.Lib.Py
