import Esp32Fx.Native.Json
import Esp32Fx.Native.Sink

/-! The request headers that a guest passes as JSON: `parse_headers` of `runtime/fx_wamr_native.c`.
A decoded string is the list of the bytes before the NUL that the parser puts behind it; what reads
it as a string of C stops at a NUL among them. -/

namespace Esp32Fx.Native

open Lib

def isWs (ch : UInt8) : Bool := ch == 0x20 || ch == 0x09 || ch == 0x0d || ch == 0x0a

/-- `skip_ws`. -/
def skipWs (p : List UInt8) : List UInt8 := p.dropWhile isWs

/-- `*cursor >= end || *(*cursor)++ != b`: none when it holds. -/
def expect (b : UInt8) : List UInt8 → Option (List UInt8)
  | [] => none
  | ch :: p => if ch = b then some p else none

/-- The comma before every part but the first. -/
def expectComma (first : Bool) (p : List UInt8) : Option (List UInt8) :=
  if first then some p else (expect 0x2c p).map skipWs

/-- `header_is_safe`. -/
def headerIsSafe : List UInt8 → Bool
  | [] => true
  | b :: p =>
    if b = 0 then true
    else if b = 0x0d ∨ b = 0x0a ∨ b = 0x7f ∨ b < 0x20 then false
    else headerIsSafe p

/-- The `name` and the `value` of `parse_header_object`. -/
structure HeaderFields where
  name : Option (List UInt8)
  value : Option (List UInt8)
  deriving DecidableEq, Repr

namespace HeaderFields

def empty : HeaderFields := ⟨none, none⟩

/-- One member of an object. -/
def store (fields : HeaderFields) (member : List UInt8 × List UInt8) : HeaderFields :=
  if strEq member.1 (ascii "name") then { fields with name := some member.2 }
  else if strEq member.1 (ascii "value") then { fields with value := some member.2 }
  else fields

/-- The line for an object; none when one of the checks fails. -/
def line (cfg : Config) (fields : HeaderFields) : Option (List UInt8) :=
  match fields.name, fields.value with
  | some name, some value =>
    if peek name = 0 ∨ headerIsSafe name = false ∨ headerIsSafe value = false ∨
        (strchr 0x3a name).isSome then none
    else if strlen name > cfg.sizeMax - strlen value - 3 then none
    else some (cString name ++ [0x3a, 0x20] ++ cString value)
  | _, _ => none

end HeaderFields

/- `memory` says whether the allocations at a cursor succeed: those of a string where it starts, and
those of a line where its object ends. -/
variable (cfg : Config) (memory : List UInt8 → Bool)

/-- `parse_json_string` where `malloc` may fail. -/
def headerString (p : List UInt8) : Option (List UInt8 × List UInt8) :=
  if memory p then parseJsonString p else none

/-- A key, its value, and the white space behind them. -/
def headerMember (p : List UInt8) : Option ((List UInt8 × List UInt8) × List UInt8) :=
  match headerString memory p with
  | none => none
  | some (key, p) =>
    match expect 0x3a (skipWs p) with
    | none => none
    | some p =>
      match headerString memory (skipWs p) with
      | none => none
      | some (field, p) => some ((key, field), skipWs p)

/-- The loop of `parse_header_object`.  A round takes a byte at least. -/
def headerMembers : (rounds : Nat) → (first : Bool) → HeaderFields → List UInt8 →
    Option (HeaderFields × List UInt8)
  | 0, _, _, _ => none
  | rounds + 1, first, fields, p =>
    match expect 0x7d (skipWs p) with
    | some p => some (fields, p)
    | none =>
      match expectComma first (skipWs p) with
      | none => none
      | some p =>
        match headerMember memory p with
        | none => none
        | some (member, p) => headerMembers rounds false (fields.store member) p

/-- `parse_header_object`: the line that it appends and the cursor, or none for -1. -/
def parseHeaderObject (p : List UInt8) : Option (List UInt8 × List UInt8) :=
  match expect 0x7b p with
  | none => none
  | some p =>
    match headerMembers memory (p.length + 1) true .empty p with
    | none => none
    | some (fields, p) =>
      match fields.line cfg with
      | none => none
      | some line => if memory p then some (line, p) else none

/-- What `parse_headers` returns, and the lines in the list that it appends to. -/
structure HeaderList where
  accepted : Bool
  lines : List (List UInt8)
  deriving DecidableEq, Repr

/-- The loop of `parse_headers`. -/
def headerObjects : (rounds : Nat) → (first : Bool) → (lines : List (List UInt8)) →
    List UInt8 → HeaderList
  | 0, _, lines, _ => ⟨false, lines⟩
  | rounds + 1, first, lines, p =>
    match expect 0x5d (skipWs p) with
    | some p => ⟨skipWs p = [], lines⟩
    | none =>
      match expectComma first (skipWs p) with
      | none => ⟨false, lines⟩
      | some p =>
        match parseHeaderObject cfg memory p with
        | none => ⟨false, lines⟩
        | some (line, p) => headerObjects rounds false (lines ++ [line]) p

/-- `FX_WAMR_MAX_HEADERS_BYTES`. -/
def maxHeadersBytes : Nat := 64 * 1024

def parseHeaders (json : List UInt8) : HeaderList :=
  if json.length > maxHeadersBytes then ⟨false, []⟩
  else
    match expect 0x5b (skipWs json) with
    | none => ⟨false, []⟩
    | some p => headerObjects cfg memory (p.length + 1) true [] p

example : parseHeaders board (fun _ => true)
    (ascii " [\x7b\"name\":\"a\" , \"value\":\"b\"\x7d, \x7b\"value\":\"\",\"name\":\"c\"\x7d ] ") =
    ⟨true, [ascii "a: b", ascii "c: "]⟩ := by decide

end Esp32Fx.Native
