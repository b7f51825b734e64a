import Esp32Fx.Lib.CString

/-! The grammar of JSON texts as concrete syntax: a `Value` records every byte of a text, so that
`Value.text` is the text and there is one `Value` for each derivation.  A byte from `0x80` on counts
as a character of a string, so the texts are those of the grammar over bytes, of which the UTF-8
texts are a part. -/

namespace Esp32Fx.Lib.Json

/-! ### String literals -/

/-- A hexadecimal digit, in either case, with its value. -/
structure HexDigit where
  byte : UInt8
  value : Nat
  spells : hexValue byte = some value

/-- The escapes of one letter. -/
inductive Escape
  | quote | backslash | slash | backspace | formFeed | newline | carriageReturn | tab
  deriving DecidableEq, Repr

namespace Escape

/-- The letter after the backslash. -/
def letter : Escape → UInt8
  | quote => 0x22
  | backslash => 0x5c
  | slash => 0x2f
  | backspace => 0x62
  | formFeed => 0x66
  | newline => 0x6e
  | carriageReturn => 0x72
  | tab => 0x74

/-- The byte that an escape stands for. -/
def byte : Escape → UInt8
  | quote => 0x22
  | backslash => 0x5c
  | slash => 0x2f
  | backspace => 0x08
  | formFeed => 0x0c
  | newline => 0x0a
  | carriageReturn => 0x0d
  | tab => 0x09

end Escape

/-- One character of a string literal, as it is written. -/
inductive Item
  | plain (b : UInt8) (h : 0x20 ≤ b ∧ b ≠ 0x22 ∧ b ≠ 0x5c)
  | escape (e : Escape)
  | unicode (d₁ d₂ d₃ d₄ : HexDigit)

namespace Item

def text : Item → List UInt8
  | plain b _ => [b]
  | escape e => [0x5c, e.letter]
  | unicode d₁ d₂ d₃ d₄ => [0x5c, 0x75, d₁.byte, d₂.byte, d₃.byte, d₄.byte]

/-- The code unit of a `\u` escape. -/
def unit (d₁ d₂ d₃ d₄ : HexDigit) : Nat :=
  ((d₁.value * 16 + d₂.value) * 16 + d₃.value) * 16 + d₄.value

/-- What a reader of hexadecimal digits makes of four of them. -/
theorem unit_of_four {read : Nat → Nat → List UInt8 → Option (Nat × List UInt8)}
    (hStep : ∀ {count value p r}, read (count + 1) value p = some r →
      ∃ (d : HexDigit) (p' : List UInt8),
        p = d.byte :: p' ∧ read count (value * 16 + d.value) p' = some r)
    (hDone : ∀ value p, read 0 value p = some (value, p)) {p rest : List UInt8} {value : Nat}
    (h : read 4 0 p = some (value, rest)) : ∃ d₁ d₂ d₃ d₄ : HexDigit,
      p = d₁.byte :: d₂.byte :: d₃.byte :: d₄.byte :: rest ∧ value = unit d₁ d₂ d₃ d₄ := by
  obtain ⟨d₁, p₁, rfl, h₁⟩ := hStep h
  obtain ⟨d₂, p₂, rfl, h₂⟩ := hStep h₁
  obtain ⟨d₃, p₃, rfl, h₃⟩ := hStep h₂
  obtain ⟨d₄, p₄, rfl, h₄⟩ := hStep h₃
  rw [hDone] at h₄
  cases h₄
  exact ⟨d₁, d₂, d₃, d₄, rfl, by simp [unit]⟩

end Item

/-- Half of a surrogate pair. -/
def isSurrogate (unit : Nat) : Bool := 0xd800 ≤ unit && unit ≤ 0xdfff

/-- The UTF-8 encoding of a code point. -/
def utf8 (c : Nat) : List UInt8 :=
  if c ≤ 0x7f then [UInt8.ofNat c]
  else if c ≤ 0x7ff then [UInt8.ofNat (0xc0 + c / 64), UInt8.ofNat (0x80 + c % 64)]
  else if c ≤ 0xffff then
    [UInt8.ofNat (0xe0 + c / 4096), UInt8.ofNat (0x80 + c / 64 % 64), UInt8.ofNat (0x80 + c % 64)]
  else
    [UInt8.ofNat (0xf0 + c / 262144), UInt8.ofNat (0x80 + c / 4096 % 64),
      UInt8.ofNat (0x80 + c / 64 % 64), UInt8.ofNat (0x80 + c % 64)]

/-- The items between the quotes. -/
abbrev Literal := List Item

namespace Literal

/-- A literal with its quotes. -/
def text (l : Literal) : List UInt8 := 0x22 :: (l.flatMap Item.text ++ [0x22])

/-- The text that a literal stands for, in UTF-8; none when it has half of a surrogate pair. -/
def decode : Literal → Option (List UInt8)
  | [] => some []
  | .plain b _ :: rest => (decode rest).map (b :: ·)
  | .escape e :: rest => (decode rest).map (e.byte :: ·)
  | .unicode d₁ d₂ d₃ d₄ :: rest =>
    let high := Item.unit d₁ d₂ d₃ d₄
    if isSurrogate high then
      match rest with
      | .unicode e₁ e₂ e₃ e₄ :: rest =>
        let low := Item.unit e₁ e₂ e₃ e₄
        if high < 0xdc00 ∧ 0xdc00 ≤ low ∧ low ≤ 0xdfff then
          (decode rest).map (utf8 (0x10000 + (high - 0xd800) * 1024 + (low - 0xdc00)) ++ ·)
        else none
      | _ => none
    else (decode rest).map (utf8 high ++ ·)

/-- No item is half of a surrogate pair. -/
def NoSurrogate (l : Literal) : Prop :=
  ∀ d₁ d₂ d₃ d₄, .unicode d₁ d₂ d₃ d₄ ∈ l → isSurrogate (Item.unit d₁ d₂ d₃ d₄) = false

end Literal

/-- The bytes of an item that is not half of a surrogate pair. -/
def Item.bytes : Item → List UInt8
  | .plain b _ => [b]
  | .escape e => [e.byte]
  | .unicode d₁ d₂ d₃ d₄ => utf8 (Item.unit d₁ d₂ d₃ d₄)

theorem unit_le (d₁ d₂ d₃ d₄ : HexDigit) : Item.unit d₁ d₂ d₃ d₄ ≤ 0xffff := by
  have h₁ := hexValue_lt d₁.spells
  have h₂ := hexValue_lt d₂.spells
  have h₃ := hexValue_lt d₃.spells
  have h₄ := hexValue_lt d₄.spells
  unfold Item.unit
  omega

theorem length_flatMap_text (l : Literal) : l.length ≤ (l.flatMap Item.text).length := by
  induction l with
  | nil => simp
  | cons i l ih =>
    have hpos : 0 < i.text.length := by cases i <;> simp [Item.text]
    simp only [List.flatMap_cons, List.length_append, List.length_cons]
    omega

namespace Literal

theorem NoSurrogate.of_cons {i : Item} {l : Literal} (h : NoSurrogate (i :: l)) : NoSurrogate l :=
  fun d₁ d₂ d₃ d₄ hMem => h d₁ d₂ d₃ d₄ (List.mem_cons_of_mem _ hMem)

theorem NoSurrogate.single {i : Item}
    (h : ∀ d₁ d₂ d₃ d₄, i = .unicode d₁ d₂ d₃ d₄ → isSurrogate (Item.unit d₁ d₂ d₃ d₄) = false) :
    NoSurrogate [i] :=
  fun d₁ d₂ d₃ d₄ hMem => h d₁ d₂ d₃ d₄ (List.mem_singleton.mp hMem).symm

theorem NoSurrogate.cons {i : Item} {l : Literal} (hItem : NoSurrogate [i]) (hRest : NoSurrogate l) :
    NoSurrogate (i :: l) := by
  intro d₁ d₂ d₃ d₄ hMem
  obtain hEq | hMem := List.mem_cons.mp hMem
  · exact hItem d₁ d₂ d₃ d₄ (hEq ▸ List.mem_singleton_self i)
  · exact hRest d₁ d₂ d₃ d₄ hMem

theorem decode_of_noSurrogate {l : Literal} (h : l.NoSurrogate) :
    l.decode = some (l.flatMap Item.bytes) := by
  induction l with
  | nil => rfl
  | cons i l ih =>
    have hRest := ih h.of_cons
    cases i with
    | plain b hb => simp [decode, hRest, Item.bytes]
    | escape e => simp [decode, hRest, Item.bytes]
    | unicode d₁ d₂ d₃ d₄ =>
      have hUnit := h d₁ d₂ d₃ d₄ List.mem_cons_self
      rw [decode.eq_def]
      simp [hUnit, hRest, Item.bytes]

end Literal

/-- A literal whose text is ASCII has no surrogate. -/
theorem noSurrogate_of_decode {l : Literal} {s : List UInt8} (h : l.decode = some s)
    (hAscii : ∀ b ∈ s, b.toNat < 0x80) : l.NoSurrogate := by
  fun_induction Literal.decode l generalizing s with
  | case1 => exact fun d₁ d₂ d₃ d₄ hMem => absurd hMem List.not_mem_nil
  | case2 b hb rest ih =>
    obtain ⟨text, hRest, rfl⟩ := Option.map_eq_some_iff.mp h
    refine .cons (.single (by simp)) (ih hRest fun b hb => ?_)
    exact hAscii b (List.mem_cons_of_mem _ hb)
  | case3 e rest ih =>
    obtain ⟨text, hRest, rfl⟩ := Option.map_eq_some_iff.mp h
    refine .cons (.single (by simp)) (ih hRest fun b hb => ?_)
    exact hAscii b (List.mem_cons_of_mem _ hb)
  | case4 d₁ d₂ d₃ d₄ high hSurrogate e₁ e₂ e₃ e₄ rest low hPair =>
    -- A pair is four bytes of UTF-8, the first from `0xf0` on.
    obtain ⟨text, hRest, rfl⟩ := Option.map_eq_some_iff.mp h
    have hHead := hAscii (UInt8.ofNat (0xf0 +
      (0x10000 + (high - 0xd800) * 1024 + (low - 0xdc00)) / 262144)) (List.mem_append_left _ (by
        rw [utf8, if_neg (by omega), if_neg (by omega), if_neg (by omega)]
        exact List.mem_cons_self))
    rw [UInt8.toNat_ofNat'] at hHead
    simp only [isSurrogate, Bool.and_eq_true, decide_eq_true_eq] at hSurrogate
    omega
  | case5 => cases h
  | case6 => cases h
  | case7 d₁ d₂ d₃ d₄ rest high hSurrogate =>
    rename_i ih
    obtain ⟨text, hRest, rfl⟩ := Option.map_eq_some_iff.mp h
    refine .cons (.single ?_)
      (ih hRest fun b hb => hAscii b (List.mem_append_right _ hb))
    rintro _ _ _ _ ⟨⟩
    exact Bool.eq_false_iff.mpr hSurrogate

/-! ### The literal of a text -/

def HexDigit.lower (v : Fin 16) : HexDigit := ⟨hexLower v, v, hexValue_hexLower v⟩

/-- A byte as an item: a short escape where there is one, `\u00XX` for the other control bytes, and
the byte itself otherwise. -/
def encodeByte (b : UInt8) : Item :=
  if b = 0x22 then .escape .quote
  else if b = 0x5c then .escape .backslash
  else if b = 0x08 then .escape .backspace
  else if b = 0x0c then .escape .formFeed
  else if b = 0x0a then .escape .newline
  else if b = 0x0d then .escape .carriageReturn
  else if b = 0x09 then .escape .tab
  else if h : 0x20 ≤ b ∧ b ≠ 0x22 ∧ b ≠ 0x5c then .plain b h
  else .unicode (.lower 0) (.lower 0) (.lower (Fin.ofNat 16 (b.toNat / 16)))
    (.lower (Fin.ofNat 16 (b.toNat % 16)))

/-- The literal for a text. -/
def encode (s : List UInt8) : Literal := s.map encodeByte

@[simp] theorem encode_nil : encode [] = [] := rfl

@[simp] theorem encode_cons (b : UInt8) (s : List UInt8) :
    encode (b :: s) = encodeByte b :: encode s := rfl

theorem encodeByte_cases (b : UInt8) : (∃ e : Escape, e.byte = b ∧ encodeByte b = .escape e) ∨
    (∃ h, encodeByte b = .plain b h) ∨
    (b.toNat < 0x20 ∧ encodeByte b = .unicode (.lower 0) (.lower 0)
      (.lower (Fin.ofNat 16 (b.toNat / 16))) (.lower (Fin.ofNat 16 (b.toNat % 16)))) := by
  unfold encodeByte
  repeat' split
  all_goals first
    | exact .inl ⟨_, by subst_vars; rfl, rfl⟩
    | exact .inr (.inl ⟨‹_›, rfl⟩)
    | skip
  next h₁ h₂ _ _ _ _ _ h =>
  refine .inr (.inr ⟨?_, rfl⟩)
  have hLow : ¬0x20 ≤ b := fun hb => h ⟨hb, h₁, h₂⟩
  simpa [UInt8.le_iff_toNat_le] using hLow

theorem unit_lower (b : UInt8) (h : b.toNat < 0x20) :
    Item.unit (.lower 0) (.lower 0) (.lower (Fin.ofNat 16 (b.toNat / 16)))
      (.lower (Fin.ofNat 16 (b.toNat % 16))) = b.toNat := by
  simp only [Item.unit, HexDigit.lower, Fin.ofNat]
  simp
  omega

theorem bytes_encodeByte (b : UInt8) : (encodeByte b).bytes = [b] := by
  rcases encodeByte_cases b with ⟨e, rfl, h⟩ | ⟨hPlain, h⟩ | ⟨hLow, h⟩
  · rw [h, Item.bytes]
  · rw [h, Item.bytes]
  · rw [h, Item.bytes, unit_lower b hLow, utf8, if_pos (by omega), UInt8.ofNat_toNat]

/-- The literal of a text stands for the text. -/
theorem bytes_encode (s : List UInt8) : (encode s).flatMap Item.bytes = s := by
  induction s with
  | nil => rfl
  | cons b s ih => rw [encode_cons, List.flatMap_cons, ih, bytes_encodeByte, List.singleton_append]

theorem noSurrogate_encode (s : List UInt8) : (encode s).NoSurrogate := by
  intro d₁ d₂ d₃ d₄ hMem
  obtain ⟨b, -, hb⟩ := List.mem_map.mp hMem
  rcases encodeByte_cases b with ⟨e, -, h⟩ | ⟨hPlain, h⟩ | ⟨hLow, h⟩
  · rw [h] at hb
    cases hb
  · rw [h] at hb
    cases hb
  · rw [h] at hb
    cases hb
    rw [unit_lower b hLow, isSurrogate]
    simp only [Bool.and_eq_false_iff, decide_eq_false_iff_not]
    omega

/-! ### The bytes of a literal -/

/-- The positions, counted from `i` on, of the quotes that no backslash escapes. -/
def bareQuotes : (escaped : Bool) → (i : Nat) → List UInt8 → List Nat
  | _, _, [] => []
  | true, i, _ :: rest => bareQuotes false (i + 1) rest
  | false, i, b :: rest =>
    if b = 0x22 then i :: bareQuotes false (i + 1) rest
    else bareQuotes (b = 0x5c) (i + 1) rest

theorem bareQuotes_plain {b : UInt8} (hQuote : b ≠ 0x22) (hSlash : b ≠ 0x5c) (i : Nat)
    (rest : List UInt8) :
    bareQuotes false i (b :: rest) = bareQuotes false (i + 1) rest := by
  rw [bareQuotes, if_neg hQuote, decide_eq_false hSlash]

theorem HexDigit.byte_plain (d : HexDigit) :
    0x20 ≤ d.byte.toNat ∧ d.byte ≠ 0x22 ∧ d.byte ≠ 0x5c := by
  have hSpells := d.spells
  refine ⟨?_, ?_, ?_⟩
  · simp only [hexValue, UInt8.le_iff_toNat_le, UInt8.toNat_ofNat] at hSpells
    by_contra hLow
    rw [if_neg (by omega), if_neg (by omega), if_neg (by omega)] at hSpells
    cases hSpells
  · intro hQuote
    rw [hQuote, show hexValue 0x22 = none by decide] at hSpells
    cases hSpells
  · intro hSlash
    rw [hSlash, show hexValue 0x5c = none by decide] at hSpells
    cases hSpells

theorem bareQuotes_item (item : Item) (i : Nat) (rest : List UInt8) :
    bareQuotes false i (item.text ++ rest) = bareQuotes false (i + item.text.length) rest := by
  cases item with
  | plain b h => exact bareQuotes_plain h.2.1 h.2.2 i rest
  | escape e => rfl
  | unicode d₁ d₂ d₃ d₄ =>
    have hDigit := fun (d : HexDigit) => bareQuotes_plain d.byte_plain.2.1 d.byte_plain.2.2
    show bareQuotes false (i + 1 + 1) (d₁.byte :: d₂.byte :: d₃.byte :: d₄.byte :: rest) = _
    rw [hDigit, hDigit, hDigit, hDigit]
    rfl

theorem bareQuotes_items (l : Literal) (i : Nat) (rest : List UInt8) :
    bareQuotes false i (l.flatMap Item.text ++ rest) =
      bareQuotes false (i + (l.flatMap Item.text).length) rest := by
  induction l generalizing i with
  | nil => rfl
  | cons item l ih =>
    rw [List.flatMap_cons, List.append_assoc, bareQuotes_item, ih, List.length_append,
      Nat.add_assoc]

/-- The quotes around a literal are its only bare ones. -/
theorem bareQuotes_text (l : Literal) :
    bareQuotes false 0 l.text = [0, l.text.length - 1] := by
  have hLength : l.text.length - 1 = 1 + (l.flatMap Item.text).length := by
    simp [Literal.text, Nat.add_comm]
  rw [hLength, Literal.text, bareQuotes, if_pos rfl, bareQuotes_items]
  rfl

theorem item_text_ge (item : Item) : ∀ b ∈ item.text, 0x20 ≤ b := by
  intro b hb
  cases item with
  | plain c h =>
    obtain rfl := List.mem_singleton.mp hb
    exact h.1
  | escape e => cases e <;> simp [Item.text, Escape.letter] at hb <;> rcases hb with rfl | rfl <;> decide
  | unicode d₁ d₂ d₃ d₄ =>
    have hDigit := fun (d : HexDigit) => d.byte_plain.1
    simp only [Item.text, List.mem_cons, List.not_mem_nil, or_false] at hb
    rcases hb with rfl | rfl | rfl | rfl | rfl | rfl
    · decide
    · decide
    all_goals exact UInt8.le_iff_toNat_le.mpr (hDigit _)

/-- A literal has no control byte. -/
theorem literal_text_ge (l : Literal) : ∀ b ∈ l.text, 0x20 ≤ b := by
  intro b hb
  simp only [Literal.text, List.mem_cons, List.mem_append, List.mem_flatMap, List.not_mem_nil,
    or_false] at hb
  rcases hb with rfl | ⟨item, -, hb⟩ | rfl
  · decide
  · exact item_text_ge item b hb
  · decide

/-! ### Numbers, words, and white space -/

def isDigit (b : UInt8) : Bool := 0x30 ≤ b && b ≤ 0x39

/-- One or more decimal digits. -/
structure Digits where
  bytes : List UInt8
  nonempty : bytes ≠ []
  digits : ∀ b ∈ bytes, isDigit b

/-- A number: its integer part has no needless leading zero. -/
structure Number where
  negative : Bool
  whole : Digits
  noLeadingZero : whole.bytes.head whole.nonempty = 0x30 → whole.bytes = [0x30]
  fraction : Option Digits
  /-- The letter, the sign if there is one, and the digits. -/
  exponent : Option (Bool × Option Bool × Digits)

namespace Number

def exponentText : Bool × Option Bool × Digits → List UInt8
  | (upper, sign, digits) =>
    (if upper then 0x45 else 0x65) ::
      ((match sign with | none => [] | some true => [0x2d] | some false => [0x2b]) ++ digits.bytes)

/-- What follows the integer part. -/
def tail (n : Number) : List UInt8 :=
  (match n.fraction with | none => [] | some d => 0x2e :: d.bytes) ++
    (match n.exponent with | none => [] | some e => exponentText e)

def text (n : Number) : List UInt8 :=
  (if n.negative then [0x2d] else []) ++ n.whole.bytes ++ n.tail

/-- The integer part. -/
def truncated (n : Number) : Int :=
  let magnitude : Int := (readDigits 10 0 n.whole.bytes).1
  if n.negative then -magnitude else magnitude

/-- The integer that a number without fraction and exponent denotes. -/
def integer? (n : Number) : Option Int :=
  if n.fraction.isNone ∧ n.exponent.isNone then some n.truncated else none

end Number

inductive Word
  | null | true | false
  deriving DecidableEq, Repr

def Word.text : Word → List UInt8
  | null => ascii "null"
  | true => ascii "true"
  | false => ascii "false"

/-- White space between tokens. -/
structure Space where
  bytes : List UInt8
  blank : ∀ b ∈ bytes, b = 0x20 ∨ b = 0x09 ∨ b = 0x0a ∨ b = 0x0d

/-! ### Values -/

mutual

inductive Value
  | word (w : Word)
  | number (n : Number)
  | string (l : Literal)
  | emptyArray (w : Space)
  | array (es : Elements)
  | emptyObject (w : Space)
  | object (ms : Members)

/-- The elements of an array that has some, each with the space around it. -/
inductive Elements
  | last (before : Space) (v : Value) (after : Space)
  | more (before : Space) (v : Value) (after : Space) (rest : Elements)

/-- The members of an object that has some, each with the space around its parts. -/
inductive Members
  | last (before : Space) (key : Literal) (afterKey beforeValue : Space) (v : Value) (after : Space)
  | more (before : Space) (key : Literal) (afterKey beforeValue : Space) (v : Value) (after : Space)
    (rest : Members)

end

mutual

/-- The bytes of a value. -/
def Value.text : Value → List UInt8
  | .word w => w.text
  | .number n => n.text
  | .string l => l.text
  | .emptyArray w => 0x5b :: (w.bytes ++ [0x5d])
  | .array es => 0x5b :: (es.text ++ [0x5d])
  | .emptyObject w => 0x7b :: (w.bytes ++ [0x7d])
  | .object ms => 0x7b :: (ms.text ++ [0x7d])

def Elements.text : Elements → List UInt8
  | .last before v after => before.bytes ++ v.text ++ after.bytes
  | .more before v after rest => before.bytes ++ v.text ++ after.bytes ++ 0x2c :: rest.text

def Members.text : Members → List UInt8
  | .last before key afterKey beforeValue v after =>
    before.bytes ++ key.text ++ afterKey.bytes ++ 0x3a :: (beforeValue.bytes ++ v.text ++ after.bytes)
  | .more before key afterKey beforeValue v after rest =>
    before.bytes ++ key.text ++ afterKey.bytes ++
      0x3a :: (beforeValue.bytes ++ v.text ++ after.bytes ++ 0x2c :: rest.text)

end

mutual

/-- The string literals of a value, keys included, in document order. -/
def Value.literals : Value → List Literal
  | .string l => [l]
  | .array es => es.literals
  | .object ms => ms.literals
  | .word _ | .number _ | .emptyArray _ | .emptyObject _ => []

def Elements.literals : Elements → List Literal
  | .last _ v _ => v.literals
  | .more _ v _ rest => v.literals ++ rest.literals

def Members.literals : Members → List Literal
  | .last _ key _ _ v _ => key :: v.literals
  | .more _ key _ _ v _ rest => key :: (v.literals ++ rest.literals)

end

/-- A string literal of a text, and whether it is the key of a member. -/
structure Token where
  literal : Literal
  isKey : Bool

mutual

/-- The string literals of a value, in document order. -/
def Value.tokens : Value → List Token
  | .string l => [⟨l, false⟩]
  | .array es => es.tokens
  | .object ms => ms.tokens
  | .word _ | .number _ | .emptyArray _ | .emptyObject _ => []

def Elements.tokens : Elements → List Token
  | .last _ v _ => v.tokens
  | .more _ v _ rest => v.tokens ++ rest.tokens

def Members.tokens : Members → List Token
  | .last _ key _ _ v _ => ⟨key, true⟩ :: v.tokens
  | .more _ key _ _ v _ rest => ⟨key, true⟩ :: (v.tokens ++ rest.tokens)

end

mutual

theorem value_tokens : (v : Value) → v.tokens.map Token.literal = v.literals
  | .word _ | .number _ | .string _ | .emptyArray _ | .emptyObject _ => by
    simp [Value.tokens, Value.literals]
  | .array es => by
    rw [Value.tokens, Value.literals]
    exact elements_tokens es
  | .object ms => by
    rw [Value.tokens, Value.literals]
    exact members_tokens ms

theorem elements_tokens : (es : Elements) → es.tokens.map Token.literal = es.literals
  | .last _ v _ => by
    rw [Elements.tokens, Elements.literals]
    exact value_tokens v
  | .more _ v _ es => by
    rw [Elements.tokens, Elements.literals, List.map_append, value_tokens v, elements_tokens es]

theorem members_tokens : (ms : Members) → ms.tokens.map Token.literal = ms.literals
  | .last _ key _ _ v _ => by
    rw [Members.tokens, Members.literals, List.map_cons, value_tokens v]
  | .more _ key _ _ v _ ms => by
    rw [Members.tokens, Members.literals, List.map_cons, List.map_append, value_tokens v,
      members_tokens ms]

end

/-- A member of some object in a text: its key, its value, and the bytes after the value. -/
structure Place where
  key : Literal
  value : Value
  after : List UInt8

/-- The text from the start of the member's value on. -/
def Place.start (p : Place) : List UInt8 := p.value.text ++ p.after

mutual

/-- The members at any depth of a value that `rest` follows, in document order. -/
def Value.places : Value → List UInt8 → List Place
  | .array es, rest => es.places (0x5d :: rest)
  | .object ms, rest => ms.places (0x7d :: rest)
  | .word _, _ | .number _, _ | .string _, _ | .emptyArray _, _ | .emptyObject _, _ => []

def Elements.places : Elements → List UInt8 → List Place
  | .last _ v after, rest => v.places (after.bytes ++ rest)
  | .more _ v after es, rest =>
    v.places (after.bytes ++ 0x2c :: (es.text ++ rest)) ++ es.places rest

def Members.places : Members → List UInt8 → List Place
  | .last _ key _ _ v after, rest =>
    ⟨key, v, after.bytes ++ rest⟩ :: v.places (after.bytes ++ rest)
  | .more _ key _ _ v after ms, rest =>
    ⟨key, v, after.bytes ++ 0x2c :: (ms.text ++ rest)⟩ ::
      (v.places (after.bytes ++ 0x2c :: (ms.text ++ rest)) ++ ms.places rest)

end

/-! ### Values without white space -/

def Space.none : Space := ⟨[], by simp⟩

@[simp] theorem Space.bytes_none : Space.none.bytes = [] := rfl

/-- The members of an object that has one member. -/
def Members.single (name : List UInt8) (v : Value) : Members :=
  .last .none (encode name) .none .none v .none

/-- A member before others. -/
def Members.cons (name : List UInt8) (v : Value) (rest : Members) : Members :=
  .more .none (encode name) .none .none v .none rest

theorem isDigit_ofNat (d : Fin 10) : isDigit (UInt8.ofNat (0x30 + d)) = true := by
  revert d
  decide

/-- The number of the last digit of `n`. -/
def Number.ofDigit (n : Nat) : Number where
  negative := false
  whole := ⟨[UInt8.ofNat (0x30 + n % 10)], by simp, by
    simpa using isDigit_ofNat ⟨n % 10, Nat.mod_lt n (by omega)⟩⟩
  noLeadingZero h := congrArg (fun b => [b]) h
  fraction := Option.none
  exponent := Option.none

/-! ### Members of one object -/

/-- The value of the first member with a given name. -/
def Members.field? (name : List UInt8) : Members → Option Value
  | .last _ key _ _ v _ => if key.decode = some name then some v else none
  | .more _ key _ _ v _ rest => if key.decode = some name then some v else rest.field? name

/-- The value of an object's own member with a given name. -/
def Value.field? (name : List UInt8) : Value → Option Value
  | .object ms => ms.field? name
  | _ => none

/-- The text of a string value. -/
def Value.string? : Value → Option (List UInt8)
  | .string l => l.decode
  | _ => none

/-- The integer of an integer value. -/
def Value.integer? : Value → Option Int
  | .number n => n.integer?
  | _ => none

/-! ### Arrays, and objects of strings -/

def Elements.values : Elements → List Value
  | .last _ v _ => [v]
  | .more _ v _ rest => v :: rest.values

/-- The elements of an array, in order. -/
def Value.elements? : Value → Option (List Value)
  | .emptyArray _ => some []
  | .array es => some es.values
  | _ => none

/-- A key with the text of its value, when that is a string. -/
def member? (key : Literal) (v : Value) : Option (List UInt8 × List UInt8) :=
  match key.decode, v.string? with
  | some key, some text => some (key, text)
  | _, _ => none

theorem member?_eq_some {key : Literal} {v : Value} {member : List UInt8 × List UInt8}
    (h : member? key v = some member) :
    ∃ l : Literal, v = .string l ∧ key.decode = some member.1 ∧ l.decode = some member.2 := by
  unfold member? at h
  split at h
  · next name text hName hText =>
    cases h
    cases v with
    | string l => exact ⟨l, rfl, hName, hText⟩
    | _ => cases hText
  · cases h

def Members.strings? : Members → Option (List (List UInt8 × List UInt8))
  | .last _ key _ _ v _ => (member? key v).map ([·])
  | .more _ key _ _ v _ rest =>
    match member? key v, rest.strings? with
    | some member, some members => some (member :: members)
    | _, _ => none

theorem strings?_more {w afterKey beforeValue after : Space} {key : Literal} {v : Value}
    {ms : Members} {list : List (List UInt8 × List UInt8)}
    (h : (Members.more w key afterKey beforeValue v after ms).strings? = some list) :
    ∃ member rest, member? key v = some member ∧ ms.strings? = some rest ∧
      list = member :: rest := by
  rw [Members.strings?] at h
  split at h
  · next member rest hMember hRest =>
    cases h
    exact ⟨member, rest, hMember, hRest, rfl⟩
  · cases h

/-- The keys and the texts of an object that has only strings as members, in order. -/
def Value.strings? : Value → Option (List (List UInt8 × List UInt8))
  | .emptyObject _ => some []
  | .object ms => ms.strings?
  | _ => none

/-- The text of the last member with a given name. -/
def lastNamed (name : List UInt8) : List (List UInt8 × List UInt8) → Option (List UInt8)
  | [] => none
  | member :: rest => lastNamed name rest <|> if member.1 = name then some member.2 else none

theorem lastNamed_self {member : List UInt8 × List UInt8} {name : List UInt8}
    (h : member.1 = name) (rest : List (List UInt8 × List UInt8)) :
    lastNamed name (member :: rest) = some ((lastNamed name rest).getD member.2) := by
  rw [lastNamed, if_pos h]
  cases lastNamed name rest <;> rfl

theorem lastNamed_other {member : List UInt8 × List UInt8} {name : List UInt8}
    (h : member.1 ≠ name) (rest : List (List UInt8 × List UInt8)) :
    lastNamed name (member :: rest) = lastNamed name rest := by
  rw [lastNamed, if_neg h]
  cases lastNamed name rest <;> rfl

end Esp32Fx.Lib.Json
