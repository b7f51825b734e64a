import Esp32Fx.Lib.Json

/-! The JSON reader and writer of `runtime/fx_eink.c`: the growing text buffer, the string decoder,
the search for a key at any depth, and the string encoder.  A `const char *` is the list of the
bytes from it on.  Allocation is taken to succeed. -/

namespace Esp32Fx.Eink

open Lib

/-- `MAX_RESPONSE_BYTES`. -/
def maxResponseBytes : Nat := 32 * 1024

/-- `MAX_PROTOCOL_LINE_BYTES`. -/
def maxProtocolLineBytes : Nat := 128 * 1024

/-- `struct text_buffer`: `data` has the `length` bytes, and is a null pointer while `capacity` is
zero. -/
structure TextBuffer where
  data : List UInt8
  capacity : Nat
  deriving DecidableEq, Repr

namespace TextBuffer

def empty : TextBuffer := ⟨[], 0⟩

/-- `data != NULL`. -/
def allocated (b : TextBuffer) : Bool := b.capacity ≠ 0

end TextBuffer

/-- `while (capacity < needed) capacity *= 2U`, for at most the given number of rounds. -/
def growCapacity (needed : Nat) : Nat → Nat → Nat
  | 0, capacity => capacity
  | rounds + 1, capacity =>
    if capacity < needed then growCapacity needed rounds (capacity * 2) else capacity

def bufferAppend (buffer : TextBuffer) (text : List UInt8) : Option TextBuffer :=
  if text.length > maxResponseBytes - buffer.data.length then none
  else
    let needed := buffer.data.length + text.length + 1
    let capacity := if buffer.capacity ≠ 0 then buffer.capacity else 1024
    some {
      data := buffer.data ++ text
      capacity :=
        if needed > buffer.capacity then growCapacity needed needed capacity
        else buffer.capacity }

/-- The bytes that `append_utf8` appends: a surrogate becomes a question mark. -/
def utf8Bytes (codepoint : Nat) : List UInt8 :=
  if codepoint ≤ 0x7f then [UInt8.ofNat codepoint]
  else if codepoint ≤ 0x7ff then
    [UInt8.ofNat (0xc0 ||| codepoint >>> 6), UInt8.ofNat (0x80 ||| codepoint &&& 0x3f)]
  else if codepoint ≤ 0xffff ∧ ¬(0xd800 ≤ codepoint ∧ codepoint ≤ 0xdfff) then
    [UInt8.ofNat (0xe0 ||| codepoint >>> 12), UInt8.ofNat (0x80 ||| codepoint >>> 6 &&& 0x3f),
      UInt8.ofNat (0x80 ||| codepoint &&& 0x3f)]
  else [0x3f]

def appendUtf8 (buffer : TextBuffer) (codepoint : Nat) : Option TextBuffer :=
  bufferAppend buffer (utf8Bytes codepoint)

/-- `count` rounds of the loop that reads the digits of a `\u` escape. -/
def readCodepoint : Nat → Nat → List UInt8 → Option (Nat × List UInt8)
  | 0, codepoint, p => some (codepoint, p)
  | count + 1, codepoint, p =>
    match hexValue (peek p) with
    | none => none
    | some value => readCodepoint count (codepoint <<< 4 ||| value) p.tail

/-- The byte for the letter of an escape other than `\u`. -/
def escapeByte (letter : UInt8) : Option UInt8 :=
  if letter = 0x22 then some 0x22
  else if letter = 0x5c then some 0x5c
  else if letter = 0x2f then some 0x2f
  else if letter = 0x62 then some 0x08
  else if letter = 0x66 then some 0x0c
  else if letter = 0x6e then some 0x0a
  else if letter = 0x72 then some 0x0d
  else if letter = 0x74 then some 0x09
  else none

/-- The loop of `decode_json_string`: the buffer and the cursor where it stops, at a quote or at
the end.  Each round reads at least one byte, so more rounds than bytes are never needed. -/
def decodeLoop : Nat → List UInt8 → TextBuffer → Option (TextBuffer × List UInt8)
  | 0, _, _ => none
  | rounds + 1, p, decoded =>
    let byte := peek p
    if byte = 0 ∨ byte = 0x22 then some (decoded, p)
    else if byte < 0x20 then none
    else if byte ≠ 0x5c then
      match bufferAppend decoded [byte] with
      | none => none
      | some decoded => decodeLoop rounds p.tail decoded
    else
      let letter := peek p.tail
      let p := p.tail.tail
      if letter = 0x75 then
        match readCodepoint 4 0 p with
        | none => none
        | some (codepoint, p) =>
          match appendUtf8 decoded codepoint with
          | none => none
          | some decoded => decodeLoop rounds p decoded
      else
        match escapeByte letter with
        | none => none
        | some byte =>
          match bufferAppend decoded [byte] with
          | none => none
          | some decoded => decodeLoop rounds p decoded

/-- `decode_json_string`: the buffer and the cursor past the closing quote, or none for -1. -/
def decodeJsonString (cursor : List UInt8) (decoded : TextBuffer) :
    Option (TextBuffer × List UInt8) :=
  if peek cursor ≠ 0x22 then none
  else
    match decodeLoop cursor.length cursor.tail decoded with
    | none => none
    | some (decoded, p) => if peek p ≠ 0x22 then none else some (decoded, p.tail)

def skipWhitespace (cursor : List UInt8) : List UInt8 := cursor.dropWhile isspace

/-- The loop of `find_json_key`.  Each round moves the cursor on. -/
def findJsonKeyLoop (wanted : List UInt8) : Nat → List UInt8 → Option (List UInt8)
  | 0, _ => none
  | rounds + 1, cursor =>
    match strchr 0x22 cursor with
    | none => none
    | some cursor =>
      match decodeJsonString cursor .empty with
      | none => findJsonKeyLoop wanted rounds cursor.tail
      | some (key, after) =>
        let cursor := skipWhitespace after
        if peek cursor ≠ 0x3a then findJsonKeyLoop wanted rounds cursor
        else
          let cursor := skipWhitespace cursor.tail
          if key.allocated && strEq key.data wanted then some cursor
          else findJsonKeyLoop wanted rounds cursor

def findJsonKey (json wanted : List UInt8) : Option (List UInt8) :=
  findJsonKeyLoop wanted (json.length + 1) json

/-- What a lookup of a value returns: 0, -1, or 1 with the value. -/
inductive Lookup (α : Type)
  | absent
  | invalid
  | found (value : α)
  deriving DecidableEq, Repr

/-- `json_string_value` into an empty buffer. -/
def jsonStringValue (json key : List UInt8) : Lookup TextBuffer :=
  match findJsonKey json key with
  | none => .absent
  | some cursor =>
    if peek cursor ≠ 0x22 then .absent
    else
      match decodeJsonString cursor .empty with
      | none => .invalid
      | some (value, _) => .found value

/-- `json_integer_value`, for a `long` of `bits` bits. -/
def jsonIntegerValue (bits : Nat) (json key : List UInt8) : Lookup Int :=
  match findJsonKey json key with
  | none => .absent
  | some cursor =>
    match strtol bits cursor with
    | none => .invalid
    | some parsed => if parsed.erange then .invalid else .found parsed.value

/-- `fprintf(output, "\\u%04x", byte)`, for a byte. -/
def printUnicodeEscape (byte : UInt8) : List UInt8 :=
  [0x5c, 0x75, hexLower 0, hexLower 0, hexLower (byte.toNat / 16), hexLower (byte.toNat % 16)]

/-- What `write_json_string` prints for a byte of the text. -/
def writeByte (byte : UInt8) : List UInt8 :=
  if byte = 0x22 then [0x5c, 0x22]
  else if byte = 0x5c then [0x5c, 0x5c]
  else if byte = 0x08 then [0x5c, 0x62]
  else if byte = 0x0c then [0x5c, 0x66]
  else if byte = 0x0a then [0x5c, 0x6e]
  else if byte = 0x0d then [0x5c, 0x72]
  else if byte = 0x09 then [0x5c, 0x74]
  else if byte < 0x20 then printUnicodeEscape byte
  else [byte]

def writeBytes : List UInt8 → List UInt8
  | [] => []
  | byte :: cursor => if byte = 0 then [] else writeByte byte ++ writeBytes cursor

/-- The bytes that `write_json_string` writes. -/
def writeJsonString (text : List UInt8) : List UInt8 := 0x22 :: (writeBytes text ++ [0x22])

example : findJsonKey (ascii "\"a\":\"id\",\"id\":7") (ascii "id") = some (ascii "7") := by decide

end Esp32Fx.Eink
