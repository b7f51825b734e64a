import Mathlib.Data.List.TakeDrop
import Esp32Fx.Lib.CString

/-! `sanitize_text` and `wrap_text` of `einkctl.c`.  A cursor into a text is the list of the bytes
from the cursor on.  `allocates` tells for each size whether an allocation of that size succeeds; no
two allocations of a run have the same size. -/

namespace Esp32Fx.Einkctl

open Lib

abbrev textColumns : Nat := 98

/-! ### Lines -/

/-- `struct text_lines`: the records that are in use, and how many there is room for. -/
structure TextLines where
  records : List (List UInt8)
  capacity : Nat

def TextLines.count (lines : TextLines) : Nat := lines.records.length

/-- The doubling of a capacity, which is not zero, until it is as large as wanted. -/
def doubled (capacity wanted : Nat) : Nat :=
  if 0 < capacity ∧ capacity < wanted then doubled (capacity * 2) wanted else capacity
termination_by wanted - capacity

def linesReserve (allocates : Nat → Bool) (lines : TextLines) (wanted : Nat) : Option TextLines :=
  if wanted ≤ lines.capacity then some lines
  else
    let capacity := doubled (if lines.capacity ≠ 0 then lines.capacity else 64) wanted
    if allocates (capacity * (textColumns + 1)) then some { lines with capacity } else none

/-- `lines_push`, which copies bytes into a record and a NUL after them. -/
def linesPush (allocates : Nat → Bool) (lines : TextLines) (text : List UInt8) (length : Nat) :
    Option TextLines :=
  let length := if length > textColumns then textColumns else length
  match linesReserve allocates lines (lines.count + 1) with
  | none => none
  | some lines => some { lines with records := lines.records ++ [text.take length] }

/-! ### `sanitize_text` -/

def isUtf8Continuation (byte : UInt8) : Bool := byte &&& 0xc0 = 0x80

inductive Escape
  | none
  | start
  | csi
  | osc
  deriving DecidableEq, Repr

/-- The loop of `sanitize_text`, with the number of bytes written so far. -/
def sanitizeFrom (escape : Escape) (destination : Nat) : List UInt8 → List UInt8
  | [] => []
  | byte :: rest =>
    match escape with
    | .start =>
      sanitizeFrom (if byte = 0x5b then .csi else if byte = 0x5d then .osc else .none) destination
        rest
    | .csi => sanitizeFrom (if 0x40 ≤ byte ∧ byte ≤ 0x7e then .none else .csi) destination rest
    | .osc =>
      if byte = 0x07 then sanitizeFrom .none destination rest
      else if byte = 0x1b ∧ rest.head? = some 0x5c then sanitizeFrom .none destination rest.tail
      else sanitizeFrom .osc destination rest
    | .none =>
      if byte = 0x1b then sanitizeFrom .start destination rest
      else if byte = 0x0d then
        if rest.head? = some 0x0a then sanitizeFrom .none destination rest
        else 0x0a :: sanitizeFrom .none (destination + 1) rest
      else if byte = 0x09 then
        let spaces := 4 - destination % 4
        List.replicate spaces 0x20 ++ sanitizeFrom .none (destination + spaces) rest
      else if byte = 0x0a ∨ (0x20 ≤ byte ∧ byte ≤ 0x7e) then
        byte :: sanitizeFrom .none (destination + 1) rest
      else if 0x80 ≤ byte then
        0x3f :: sanitizeFrom .none (destination + 1) (rest.dropWhile isUtf8Continuation)
      else sanitizeFrom .none destination rest
termination_by text => text.length
decreasing_by
  all_goals simp only [List.length_cons, List.length_tail]
  all_goals first
    | omega
    | exact Nat.lt_succ_of_le (List.length_dropWhile_le ..)

def sanitizeText (input : List UInt8) : List UInt8 := sanitizeFrom .none 0 input

/-! ### `wrap_text` -/

/-- Where the last space at or before a place is, after the first place; zero if there is none. -/
def lastSpace (line : List UInt8) : Nat → Nat
  | 0 => 0
  | split + 1 => if line.getD (split + 1) 0 ≠ 0x20 then lastSpace line split else split + 1

/-- The length without the spaces at its end. -/
def trimmed (line : List UInt8) : Nat → Nat
  | 0 => 0
  | take + 1 => if line.getD take 0 = 0x20 then trimmed line take else take + 1

/-- How many bytes of the rest of a line go into a record, and where the line is split: `take` and
`split`. -/
def lineSplit (line : List UInt8) : Nat × Nat :=
  let remaining := line.length
  let take := if remaining > textColumns then textColumns else remaining
  let split :=
    if take < remaining then
      let split := lastSpace line take
      if split < textColumns / 3 then take else split
    else take
  let take := trimmed line take
  (if split ≠ take ∧ split ≠ 0 then split else take, split)

/-- How far the cursor moves. -/
def lineAdvance (line : List UInt8) : Nat :=
  if (lineSplit line).2 ≠ 0 then (lineSplit line).2 else (lineSplit line).1

theorem lineAdvance_pos {line : List UInt8} (h : line ≠ []) : 0 < lineAdvance line := by
  have hLength : 0 < line.length := List.length_pos_iff.mpr h
  have hSplit : (lineSplit line).2 ≠ 0 := by
    simp only [lineSplit, textColumns]
    split <;> split <;> (try split) <;> omega
  rw [lineAdvance, if_pos hSplit]
  omega

/-- The line after a record and the spaces behind it. -/
def lineRest (line : List UInt8) : List UInt8 :=
  (line.drop (lineAdvance line)).dropWhile (· = 0x20)

theorem lineRest_length {line : List UInt8} (h : line ≠ []) :
    (lineRest line).length < line.length := by
  have hAdvance := lineAdvance_pos h
  have hLength : 0 < line.length := List.length_pos_iff.mpr h
  have hDropped := List.length_dropWhile_le (· = (0x20 : UInt8)) (line.drop (lineAdvance line))
  rw [List.length_drop] at hDropped
  rw [lineRest]
  omega

/-- The records of the rest of a line. -/
def wrapLine (allocates : Nat → Bool) (line : List UInt8) (lines : TextLines) : Option TextLines :=
  if line = [] then some lines
  else
    match linesPush allocates lines line (lineSplit line).1 with
    | none => none
    | some lines => wrapLine allocates (lineRest line) lines
termination_by line.length
decreasing_by exact lineRest_length ‹_›

/-- The loop over the lines of the text. -/
def wrapLines (allocates : Nat → Bool) (text : List UInt8) (lines : TextLines) :
    Option TextLines :=
  if text = [] then some lines
  else
    let line := text.takeWhile (· ≠ 0x0a)
    let pushed :=
      if line = [] then linesPush allocates lines [] 0 else wrapLine allocates line lines
    match pushed with
    | none => none
    | some lines => wrapLines allocates (text.drop line.length).tail lines
termination_by text.length
decreasing_by
  have hLength : 0 < text.length := List.length_pos_iff.mpr ‹_›
  rw [List.length_tail, List.length_drop]
  omega

def wrapText (allocates : Nat → Bool) (text : List UInt8) (lines : TextLines) :
    Option TextLines :=
  match wrapLines allocates text lines with
  | none => none
  | some lines =>
    if text.length = 0 ∨ text.getLast? = some 0x0a then linesPush allocates lines [] 0
    else some lines

end Esp32Fx.Einkctl
