import Mathlib.Data.List.TakeWhile

/-! `json.loads` of Python, by recursive descent with a bound on the depth that the length of the
text makes large enough.  A text that raises is none. -/

namespace Esp32Fx.Lib.PyJson

/-- A `str` by its code points; surrogates may stand alone. -/
abbrev Str := List Nat

def str (s : String) : Str := s.toList.map Char.toNat

inductive Value
  | null
  | bool (b : Bool)
  /-- A number, or `NaN`, `Infinity` or `-Infinity`, as it is written. -/
  | number (literal : List Char)
  | string (s : Str)
  | array (elements : List Value)
  /-- The members as they are written; the `dict` has the last of those with one key. -/
  | object (members : List (Str × Value))

/-! ### Strings -/

def isSpace (c : Char) : Bool := c = ' ' || c = '\t' || c = '\n' || c = '\r'

def skip (text : List Char) : List Char := text.dropWhile isSpace

def hexValue (c : Char) : Option Nat :=
  if '0' ≤ c ∧ c ≤ '9' then some (c.toNat - 0x30)
  else if 'a' ≤ c ∧ c ≤ 'f' then some (c.toNat - 0x61 + 10)
  else if 'A' ≤ c ∧ c ≤ 'F' then some (c.toNat - 0x41 + 10)
  else none

/-- `\uXXXX`, behind the `u`. -/
def hexUnit (a b c d : Char) : Option Nat :=
  match hexValue a, hexValue b, hexValue c, hexValue d with
  | some a, some b, some c, some d => some (((a * 16 + b) * 16 + c) * 16 + d)
  | _, _, _, _ => none

/-- The other escapes. -/
def escapes : List (Char × Nat) :=
  [('"', 0x22), ('\\', 0x5c), ('/', 0x2f), ('b', 0x08), ('f', 0x0c), ('n', 0x0a), ('r', 0x0d),
    ('t', 0x09)]

/-- The characters up to the closing quote, an escape as the unit it stands for. -/
def scanUnits : List Char → Option (List Nat × List Char)
  | [] => none
  | '"' :: rest => some ([], rest)
  | '\\' :: 'u' :: a :: b :: c :: d :: rest =>
    match hexUnit a b c d with
    | some unit => (scanUnits rest).map fun r => (unit :: r.1, r.2)
    | none => none
  | '\\' :: e :: rest =>
    match escapes.lookup e with
    | some unit => (scanUnits rest).map fun r => (unit :: r.1, r.2)
    | none => none
  | c :: rest =>
    if c = '\\' ∨ c.toNat < 0x20 then none
    else (scanUnits rest).map fun r => (c.toNat :: r.1, r.2)

def isHigh (unit : Nat) : Bool := 0xd800 ≤ unit && unit ≤ 0xdbff

def isLow (unit : Nat) : Bool := 0xdc00 ≤ unit && unit ≤ 0xdfff

/-- A high and a low surrogate next to each other are one character. -/
def joinSurrogates : List Nat → Str
  | high :: low :: rest =>
    if isHigh high && isLow low then
      (0x10000 + (high - 0xd800) * 0x400 + (low - 0xdc00)) :: joinSurrogates rest
    else high :: joinSurrogates (low :: rest)
  | units => units

/-- `scanstring`, behind the opening quote. -/
def scanString (text : List Char) : Option (Str × List Char) :=
  (scanUnits text).map fun r => (joinSurrogates r.1, r.2)

/-! ### Numbers and words -/

def isDigit (c : Char) : Bool := '0' ≤ c && c ≤ '9'

/-- The sign of a number. -/
def minus : List Char → List Char
  | '-' :: _ => ['-']
  | _ => []

/-- The sign of an exponent. -/
def exponentSign : List Char → List Char
  | '+' :: _ => ['+']
  | '-' :: _ => ['-']
  | _ => []

/-- The exponent, if there is a whole one. -/
def scanExponent (read rest : List Char) : List Char × List Char :=
  match rest with
  | [] => (read, [])
  | e :: after =>
    let unsigned := after.drop (exponentSign after).length
    if (e = 'e' ∨ e = 'E') ∧ unsigned.takeWhile isDigit ≠ [] then
      (read ++ e :: exponentSign after ++ unsigned.takeWhile isDigit, unsigned.dropWhile isDigit)
    else (read, rest)

/-- The fraction, if there is a whole one, and the exponent. -/
def scanFraction (read rest : List Char) : List Char × List Char :=
  match rest with
  | [] => (read, [])
  | point :: after =>
    if point = '.' ∧ after.takeWhile isDigit ≠ [] then
      scanExponent (read ++ point :: after.takeWhile isDigit) (after.dropWhile isDigit)
    else scanExponent read rest

def scanNumber (text : List Char) : Option (List Char × List Char) :=
  match text.drop (minus text).length with
  | [] => none
  | c :: rest =>
    if c = '0' then some (scanFraction (minus text ++ [c]) rest)
    else if isDigit c then
      some (scanFraction (minus text ++ c :: rest.takeWhile isDigit) (rest.dropWhile isDigit))
    else none

def words : List (List Char × Value) :=
  [("null".toList, .null), ("true".toList, .bool true), ("false".toList, .bool false),
    ("NaN".toList, .number "NaN".toList), ("Infinity".toList, .number "Infinity".toList),
    ("-Infinity".toList, .number "-Infinity".toList)]

def scanWord (text : List Char) : Option (Value × List Char) :=
  (words.find? fun w => w.1.isPrefixOf text).map fun w => (w.2, text.drop w.1.length)

/-! ### Values -/

mutual

/-- `scan_once`. -/
def parseValue : Nat → List Char → Option (Value × List Char)
  | 0, _ => none
  | _ + 1, [] => none
  | fuel + 1, c :: rest =>
    if c = '"' then (scanString rest).map fun r => (.string r.1, r.2)
    else if c = '{' then
      match skip rest with
      | '}' :: rest => some (.object [], rest)
      | '"' :: rest => (parseMembers fuel rest).map fun r => (.object r.1, r.2)
      | _ => none
    else if c = '[' then
      match skip rest with
      | ']' :: rest => some (.array [], rest)
      | rest => (parseElements fuel rest).map fun r => (.array r.1, r.2)
    else
      match scanWord (c :: rest) with
      | some r => some r
      | none => (scanNumber (c :: rest)).map fun r => (.number r.1, r.2)

/-- The elements of an array from one on. -/
def parseElements : Nat → List Char → Option (List Value × List Char)
  | 0, _ => none
  | fuel + 1, text =>
    match parseValue fuel text with
    | none => none
    | some (v, rest) =>
      match skip rest with
      | ']' :: rest => some ([v], rest)
      | ',' :: rest => (parseElements fuel (skip rest)).map fun r => (v :: r.1, r.2)
      | _ => none

/-- The members of an object from one on, behind the opening quote of its key. -/
def parseMembers : Nat → List Char → Option (List (Str × Value) × List Char)
  | 0, _ => none
  | fuel + 1, text =>
    match scanString text with
    | none => none
    | some (key, rest) =>
      match skip rest with
      | ':' :: rest =>
        match parseValue fuel (skip rest) with
        | none => none
        | some (v, rest) =>
          match skip rest with
          | '}' :: rest => some ([(key, v)], rest)
          | ',' :: rest =>
            match skip rest with
            | '"' :: rest => (parseMembers fuel rest).map fun r => ((key, v) :: r.1, r.2)
            | _ => none
          | _ => none
      | _ => none

end

/-- `json.loads`. -/
def loads (text : List Char) : Option Value :=
  if text.head? = some '\ufeff' then none
  else
    match parseValue (text.length + 1) (skip text) with
    | some (v, rest) => if skip rest = [] then some v else none
    | none => none

end Esp32Fx.Lib.PyJson
