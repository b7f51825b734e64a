import Esp32Fx.Lib.Json

/-! The arguments of an example tool (`src/runtime/fx_example_tools.c`): a strict decoder of one flat
object with the members `path` and `content`.  The cursor is the list of the bytes before `end`. -/

namespace Esp32Fx.ExampleTools

open Esp32Fx.Lib

def FILE_LIMIT : Nat := 4096

def ARG_LIMIT : Nat := 8192

def isBlank (b : UInt8) : Bool := b == 0x20 || b == 0x09 || b == 0x0d || b == 0x0a

def whitespace (p : List UInt8) : List UInt8 := p.dropWhile isBlank

/-- `*p == end || *p++ != b`: passes over the byte `b`. -/
def passByte (b : UInt8) : List UInt8 → Option (List UInt8)
  | [] => none
  | c :: rest => if c = b then some rest else none

/-- `count` rounds of the loop that reads the digits of a `\u` escape. -/
def unicodeValue : (count value : Nat) → (p : List UInt8) → Option (Nat × List UInt8)
  | 0, value, p => some (value, p)
  | _ + 1, _, [] => none
  | count + 1, value, digit :: p =>
    match hexValue digit with
    | none => none
    | some digit => unicodeValue count (value * 16 + digit) p

/-- What follows a backslash: the byte that the escape stands for, and the rest. -/
def escapeValue : List UInt8 → Option (UInt8 × List UInt8)
  | [] => none
  | ch :: p =>
    if ch = 0x22 ∨ ch = 0x5c ∨ ch = 0x2f then some (ch, p)
    else if ch = 0x6e then some (0x0a, p)
    else if ch = 0x72 then some (0x0d, p)
    else if ch = 0x74 then some (0x09, p)
    else if ch = 0x75 then
      match unicodeValue 4 0 p with
      | none => none
      | some (value, p) =>
        if value = 0 ∨ value > 126 ∨ (value < 32 ∧ value ≠ 9 ∧ value ≠ 10 ∧ value ≠ 13) then none
        else some (UInt8.ofNat value, p)
    else none

/-- One character of a string, escaped or not. -/
def charValue (ch : UInt8) (p : List UInt8) : Option (UInt8 × List UInt8) :=
  if ch < 32 ∨ ch > 126 then none
  else if ch = 0x5c then escapeValue p
  else some (ch, p)

/-- The loop of `string_value` behind the opening quote, with the bytes of `out` so far.  Every round
takes a byte, so that as many rounds as there are bytes are enough. -/
def stringLoop (cap : Nat) : (rounds : Nat) → (p out : List UInt8) →
    Option (List UInt8 × List UInt8)
  | 0, _, _ => none
  | _ + 1, [], _ => none
  | rounds + 1, ch :: p, out =>
    if ch = 0x22 then some (out, p)
    else
      match charValue ch p with
      | none => none
      | some (ch, p) => if out.length + 1 ≥ cap then none else stringLoop cap rounds p (out ++ [ch])

def stringValue (cap : Nat) (p : List UInt8) : Option (List UInt8 × List UInt8) :=
  match passByte 0x22 p with
  | none => none
  | some p => stringLoop cap p.length p []

structure Args where
  path : List UInt8
  content : List UInt8
  fields : Nat
  deriving DecidableEq, Repr

/-- The bit of a field; none has bit 0. -/
def fieldOf (key : List UInt8) : Nat :=
  if strEq key (ascii "path") then 1 else if strEq key (ascii "content") then 2 else 0

def fieldCap (field : Nat) : Nat := if field = 1 then 32 else FILE_LIMIT + 1

def Args.store (args : Args) (field : Nat) (value : List UInt8) : Args :=
  if field = 1 then { args with path := value, fields := args.fields ||| field }
  else { args with content := value, fields := args.fields ||| field }

/-- One member, with the space around its parts but before the key. -/
def member (args : Args) (p : List UInt8) : Option (Args × List UInt8) :=
  match stringValue 16 p with
  | none => none
  | some (key, p) =>
    if fieldOf key = 0 ∨ args.fields &&& fieldOf key ≠ 0 then none
    else
      match passByte 0x3a (whitespace p) with
      | none => none
      | some p =>
        match stringValue (fieldCap (fieldOf key)) (whitespace p) with
        | none => none
        | some (value, p) => some (args.store (fieldOf key) value, whitespace p)

/-- The loop over the members; a round takes a byte at least. -/
def members : (rounds : Nat) → (args : Args) → (p : List UInt8) → Option (Args × List UInt8)
  | 0, _, _ => none
  | rounds + 1, args, p =>
    match member args p with
    | none => none
    | some (_, []) => none
    | some (args, ch :: p) =>
      if ch = 0x2c then members rounds args (whitespace p) else some (args, ch :: p)

/-- The members, if there are any, up to the closing brace. -/
def parseMembers (p : List UInt8) : Option (Args × List UInt8) :=
  if p ≠ [] ∧ peek p ≠ 0x7d then members p.length ⟨[], [], 0⟩ p else some (⟨[], [], 0⟩, p)

def parseArgs (p : List UInt8) : Option Args :=
  if p.length > ARG_LIMIT then none
  else
    match passByte 0x7b (whitespace p) with
    | none => none
    | some p =>
      match parseMembers (whitespace p) with
      | none => none
      | some (args, p) =>
        match passByte 0x7d p with
        | none => none
        | some p => if whitespace p = [] then some args else none

example : parseArgs (ascii "\x7b\"path\":\"a\", \"content\":\"\\u0041\\n\"\x7d") =
    some ⟨ascii "a", ascii "A\n", 3⟩ := by decide

/-! ### What is accepted -/

open Json

theorem whitespace_split (p : List UInt8) : ∃ w : Space, p = w.bytes ++ whitespace p := by
  refine ⟨⟨p.takeWhile isBlank, fun b hb => ?_⟩, List.takeWhile_append_dropWhile.symm⟩
  have hBlank := List.mem_takeWhile_imp hb
  simp only [isBlank, Bool.or_eq_true, beq_iff_eq] at hBlank
  obtain ((h | h) | h) | h := hBlank
  · exact .inl h
  · exact .inr (.inl h)
  · exact .inr (.inr (.inr h))
  · exact .inr (.inr (.inl h))

theorem passByte_eq {b : UInt8} {p rest : List UInt8} (h : passByte b p = some rest) :
    p = b :: rest := by
  cases p with
  | nil => simp [passByte] at h
  | cons c p =>
    rw [passByte] at h
    split at h
    · next hc => cases h; rw [hc]
    · cases h

theorem unicodeValue_succ {count value : Nat} {p : List UInt8} {r : Nat × List UInt8}
    (h : unicodeValue (count + 1) value p = some r) :
    ∃ (d : HexDigit) (p' : List UInt8),
      p = d.byte :: p' ∧ unicodeValue count (value * 16 + d.value) p' = some r := by
  cases p with
  | nil => simp [unicodeValue] at h
  | cons digit p =>
    rw [unicodeValue] at h
    split at h
    · cases h
    · next d hd => exact ⟨⟨digit, d, hd⟩, p, rfl, h⟩

theorem unicodeValue_four {p rest : List UInt8} {value : Nat}
    (h : unicodeValue 4 0 p = some (value, rest)) : ∃ d₁ d₂ d₃ d₄ : HexDigit,
      p = d₁.byte :: d₂.byte :: d₃.byte :: d₄.byte :: rest ∧ value = Item.unit d₁ d₂ d₃ d₄ :=
  Item.unit_of_four unicodeValue_succ (fun _ _ => by rw [unicodeValue]) h

/-- An item that is one byte of the text, other than NUL. -/
structure OneByte (i : Item) (b : UInt8) : Prop where
  bytes : i.bytes = [b]
  nonzero : b ≠ 0
  whole : Literal.NoSurrogate [i]

theorem oneByte_escape (e : Escape) : OneByte (.escape e) e.byte where
  bytes := rfl
  nonzero := by cases e <;> decide
  whole := .single (by simp)

theorem oneByte_unicode {d₁ d₂ d₃ d₄ : HexDigit} (hPos : Item.unit d₁ d₂ d₃ d₄ ≠ 0)
    (hMax : Item.unit d₁ d₂ d₃ d₄ ≤ 126) :
    OneByte (.unicode d₁ d₂ d₃ d₄) (UInt8.ofNat (Item.unit d₁ d₂ d₃ d₄)) where
  bytes := by rw [Item.bytes, utf8, if_pos (by omega)]
  nonzero h := by
    have hValue := congrArg UInt8.toNat h
    simp only [UInt8.toNat_ofNat', UInt8.toNat_ofNat] at hValue
    omega
  whole := by
    apply Literal.NoSurrogate.single
    rintro e₁ e₂ e₃ e₄ ⟨⟩
    simp only [isSurrogate, Bool.and_eq_false_iff, decide_eq_false_iff_not]
    omega

theorem escapeValue_sound {p rest : List UInt8} {b : UInt8}
    (h : escapeValue p = some (b, rest)) :
    ∃ i : Item, 0x5c :: p = i.text ++ rest ∧ OneByte i b := by
  cases p with
  | nil => simp [escapeValue] at h
  | cons ch p =>
    rw [escapeValue] at h
    split at h
    · next hch =>
      cases h
      obtain rfl | rfl | rfl := hch
      · exact ⟨.escape .quote, rfl, oneByte_escape .quote⟩
      · exact ⟨.escape .backslash, rfl, oneByte_escape .backslash⟩
      · exact ⟨.escape .slash, rfl, oneByte_escape .slash⟩
    split at h
    · next hch => cases h; exact ⟨.escape .newline, by rw [hch]; rfl, oneByte_escape .newline⟩
    split at h
    · next hch =>
      cases h; exact ⟨.escape .carriageReturn, by rw [hch]; rfl, oneByte_escape .carriageReturn⟩
    split at h
    · next hch => cases h; exact ⟨.escape .tab, by rw [hch]; rfl, oneByte_escape .tab⟩
    split at h
    · next hch =>
      split at h
      · cases h
      next value p' hValue =>
      obtain ⟨d₁, d₂, d₃, d₄, rfl, rfl⟩ := unicodeValue_four hValue
      split at h
      · cases h
      next hRange =>
      cases h
      exact ⟨.unicode d₁ d₂ d₃ d₄, by rw [hch]; rfl, oneByte_unicode (by omega) (by omega)⟩
    · cases h

theorem charValue_sound {ch b : UInt8} {p rest : List UInt8} (hQuote : ch ≠ 0x22)
    (h : charValue ch p = some (b, rest)) :
    ∃ i : Item, ch :: p = i.text ++ rest ∧ OneByte i b := by
  unfold charValue at h
  split at h
  · cases h
  next hRange =>
  split at h
  · next hSlash => rw [hSlash]; exact escapeValue_sound h
  next hSlash =>
  cases h
  have hLow : 0x20 ≤ ch := UInt8.not_lt.mp fun hlt => hRange (.inl hlt)
  refine ⟨.plain ch ⟨hLow, hQuote, hSlash⟩, rfl, rfl, ?_, .single (by simp)⟩
  intro h0
  rw [h0] at hLow
  exact absurd hLow (by decide)

theorem stringLoop_sound {cap rounds : Nat} {p out value rest : List UInt8}
    (h : stringLoop cap rounds p out = some (value, rest)) :
    ∃ (l : Literal) (read : List UInt8), p = l.flatMap Item.text ++ 0x22 :: rest ∧
      value = out ++ read ∧ l.decode = some read ∧ l.NoSurrogate ∧ (0 : UInt8) ∉ read ∧
      (out.length < cap → value.length < cap) := by
  induction rounds generalizing p out with
  | zero => simp [stringLoop] at h
  | succ rounds ih =>
    cases p with
    | nil => simp [stringLoop] at h
    | cons ch p =>
      rw [stringLoop] at h
      split at h
      · next hQuote =>
        cases h
        exact ⟨[], [], by simp [hQuote], by simp, rfl, by simp [Literal.NoSurrogate], by simp, id⟩
      next hQuote =>
      split at h
      · cases h
      next b p' hChar =>
      split at h
      · cases h
      next hCap =>
      obtain ⟨i, hText, hByte⟩ := charValue_sound hQuote hChar
      obtain ⟨l, read, rfl, hValue, hDecode, hWhole, hNul, hLength⟩ := ih h
      have hWhole' : Literal.NoSurrogate (i :: l) := hByte.whole.cons hWhole
      refine ⟨i :: l, b :: read, ?_, ?_, ?_, hWhole', ?_, ?_⟩
      · rw [hText, List.flatMap_cons, List.append_assoc]
      · rw [hValue, List.append_assoc, List.singleton_append]
      · rw [Literal.decode_of_noSurrogate hWhole] at hDecode
        rw [Literal.decode_of_noSurrogate hWhole', List.flatMap_cons, hByte.bytes,
          Option.some.inj hDecode, List.singleton_append]
      · exact List.not_mem_cons_of_ne_of_not_mem hByte.nonzero.symm hNul
      · exact fun _ => hLength (by simp only [List.length_append, List.length_singleton]; omega)

/-- An accepted string is a literal with its text, which has no NUL and fits the buffer. -/
theorem stringValue_sound {cap : Nat} {p value rest : List UInt8} (hCap : 0 < cap)
    (h : stringValue cap p = some (value, rest)) :
    ∃ l : Literal, p = l.text ++ rest ∧ l.decode = some value ∧ (0 : UInt8) ∉ value ∧
      value.length < cap := by
  unfold stringValue at h
  split at h
  · cases h
  next p' hQuote =>
  obtain ⟨l, read, rfl, hValue, hDecode, -, hNul, hLength⟩ := stringLoop_sound h
  rw [List.nil_append] at hValue
  subst hValue
  refine ⟨l, ?_, hDecode, hNul, hLength hCap⟩
  rw [passByte_eq hQuote, Literal.text, List.cons_append, List.append_assoc, List.singleton_append]

/-! ### Fields -/

def fieldName (field : Nat) : List UInt8 := if field = 1 then ascii "path" else ascii "content"

/-- The text of a field whose bit is set. -/
def Args.field? (args : Args) (field : Nat) : Option (List UInt8) :=
  if args.fields &&& field = 0 then none else some (if field = 1 then args.path else args.content)

/-- A string of C that fits the buffer of a field. -/
def Fits (field : Nat) (text : List UInt8) : Prop :=
  (0 : UInt8) ∉ text ∧ text.length < fieldCap field

/-- `args'` has the fields of `args`, and those that the members give. -/
structure Reads (args : Args) (ms : Members) (args' : Args) : Prop where
  value : ∀ field, field = 1 ∨ field = 2 → args'.field? field =
    (args.field? field <|> (ms.field? (fieldName field)).bind Value.string?)
  fits : ∀ field text, field = 1 ∨ field = 2 → args'.field? field = some text →
    args.field? field = some text ∨ Fits field text

theorem fieldOf_eq {key : List UInt8} (hNul : (0 : UInt8) ∉ key) (h : fieldOf key ≠ 0) :
    (fieldOf key = 1 ∨ fieldOf key = 2) ∧ key = fieldName (fieldOf key) := by
  have hStrEq : ∀ text, (0 : UInt8) ∉ text → strEq key text = true → key = text := by
    intro text hText hEq
    simpa [strEq, cString_of_nulFree hNul, cString_of_nulFree hText] using hEq
  revert h
  unfold fieldOf
  split
  · next hPath => exact fun _ => ⟨.inl rfl, hStrEq _ (by decide) hPath⟩
  split
  · next hContent => exact fun _ => ⟨.inr rfl, hStrEq _ (by decide) hContent⟩
  · exact fun h => absurd rfl h

theorem field?_store {args : Args} {field other : Nat} (text : List UInt8)
    (hField : field = 1 ∨ field = 2) (hOther : other = 1 ∨ other = 2) :
    (args.store field text).field? other =
      if other = field then some text else args.field? other := by
  rcases hField with rfl | rfl <;> rcases hOther with rfl | rfl <;>
    simp [-Nat.and_one_is_mod, Args.store, Args.field?, Nat.and_or_distrib_right]

theorem fieldName_inj {field other : Nat} (hField : field = 1 ∨ field = 2)
    (hOther : other = 1 ∨ other = 2) (h : fieldName field = fieldName other) : field = other := by
  rcases hField with rfl | rfl <;> rcases hOther with rfl | rfl
  · rfl
  · exact absurd h (by decide)
  · exact absurd h (by decide)
  · rfl

/-- A member puts its own text before those of the members behind it. -/
theorem fits_store {args : Args} {field other : Nat} {text text' : List UInt8}
    (hField : field = 1 ∨ field = 2) (hFits : Fits field text) (hOther : other = 1 ∨ other = 2)
    (h : (args.store field text).field? other = some text') :
    args.field? other = some text' ∨ Fits other text' := by
  rw [field?_store text hField hOther] at h
  split at h
  · next hEq =>
    cases h
    exact .inr (hEq ▸ hFits)
  · exact .inl h

theorem Reads.more {args args' : Args} {field : Nat} {key l : Literal} {text : List UInt8}
    {ms : Members} (hField : field = 1 ∨ field = 2) (hKey : key.decode = some (fieldName field))
    (hDecode : l.decode = some text) (hFits : Fits field text) (hNone : args.field? field = none)
    (h : Reads (args.store field text) ms args') (w afterKey beforeValue after : Space) :
    Reads args (.more w key afterKey beforeValue (.string l) after ms) args' where
  value other hOther := by
    rw [h.value other hOther, field?_store text hField hOther, Members.field?, hKey]
    by_cases hEq : other = field
    · subst hEq
      simp [hNone, Value.string?, hDecode]
    · have hName : fieldName field ≠ fieldName other :=
        fun h => hEq (fieldName_inj hField hOther h).symm
      simp [hEq, hName]
  fits other text' hOther hSome := by
    rcases h.fits other text' hOther hSome with hOld | hNew
    · exact fits_store hField hFits hOther hOld
    · exact .inr hNew

theorem Reads.last {args : Args} {field : Nat} {key l : Literal} {text : List UInt8}
    (hField : field = 1 ∨ field = 2) (hKey : key.decode = some (fieldName field))
    (hDecode : l.decode = some text) (hFits : Fits field text) (hNone : args.field? field = none)
    (w afterKey beforeValue after : Space) :
    Reads args (.last w key afterKey beforeValue (.string l) after) (args.store field text) where
  value other hOther := by
    rw [field?_store text hField hOther, Members.field?, hKey]
    by_cases hEq : other = field
    · subst hEq
      simp [hNone, Value.string?, hDecode]
    · have hName : fieldName field ≠ fieldName other :=
        fun h => hEq (fieldName_inj hField hOther h).symm
      simp [hEq, hName]
  fits _ _ hOther hSome := fits_store hField hFits hOther hSome

theorem member_sound {args args' : Args} {p rest : List UInt8}
    (h : member args p = some (args', rest)) :
    ∃ (key : Literal) (afterKey beforeValue : Space) (l : Literal) (after : Space) (field : Nat)
      (text : List UInt8),
      p = key.text ++ afterKey.bytes ++ 0x3a :: (beforeValue.bytes ++ l.text ++ after.bytes) ++ rest ∧
      (field = 1 ∨ field = 2) ∧ key.decode = some (fieldName field) ∧ l.decode = some text ∧
      Fits field text ∧ args.field? field = none ∧ args' = args.store field text := by
  unfold member at h
  split at h
  · cases h
  next key p₁ hKey =>
  split at h
  · cases h
  next hField =>
  simp only [not_or, not_not] at hField
  split at h
  · cases h
  next p₂ hColon =>
  split at h
  · cases h
  next text p₃ hValue =>
  cases h
  obtain ⟨key, rfl, hKeyText, hKeyNul, -⟩ := stringValue_sound (by decide) hKey
  obtain ⟨l, hText, hDecode, hFits⟩ := stringValue_sound (by unfold fieldCap; split <;> decide) hValue
  obtain ⟨afterKey, hAfterKey⟩ := whitespace_split p₁
  obtain ⟨beforeValue, hBeforeValue⟩ := whitespace_split p₂
  obtain ⟨after, hAfter⟩ := whitespace_split p₃
  obtain ⟨hBit, hName⟩ := fieldOf_eq hKeyNul hField.1
  refine ⟨key, afterKey, beforeValue, l, after, _, text, ?_, hBit, hName ▸ hKeyText, hDecode, hFits,
    if_pos hField.2, rfl⟩
  generalize whitespace p₃ = rest at hAfter ⊢
  rw [hAfterKey, passByte_eq hColon, hBeforeValue, hText, hAfter]
  simp only [List.append_assoc, List.cons_append]

theorem members_sound {rounds : Nat} {args args' : Args} {p rest : List UInt8}
    (h : members rounds args p = some (args', rest)) (w : Space) :
    ∃ ms : Members, w.bytes ++ p = ms.text ++ rest ∧ Reads args ms args' := by
  induction rounds generalizing args p w with
  | zero => simp [members] at h
  | succ rounds ih =>
    rw [members] at h
    split at h
    · cases h
    · cases h
    next args₁ ch p₁ hMember =>
    obtain ⟨key, afterKey, beforeValue, l, after, field, text, rfl, hField, hKey, hDecode, hFits,
      hNone, rfl⟩ := member_sound hMember
    split at h
    · next hComma =>
      obtain ⟨before, hBefore⟩ := whitespace_split p₁
      obtain ⟨ms, hText, hReads⟩ := ih h before
      refine ⟨.more w key afterKey beforeValue (.string l) after ms, ?_,
        hReads.more hField hKey hDecode hFits hNone w afterKey beforeValue after⟩
      rw [Members.text, hComma, hBefore, hText]
      simp only [Value.text, List.append_assoc, List.cons_append]
    · cases h
      refine ⟨.last w key afterKey beforeValue (.string l) after, ?_,
        .last hField hKey hDecode hFits hNone w afterKey beforeValue after⟩
      rw [Members.text]
      simp only [Value.text, List.append_assoc, List.cons_append]

/-- What the arguments give for a name: the text of the member with that name. -/
def Gives (arguments name text : List UInt8) : Prop :=
  ∃ (before : Space) (v : Value) (after : Space),
    arguments = before.bytes ++ v.text ++ after.bytes ∧
      (v.field? name).bind Value.string? = some text

/-- Accepted arguments are the text of an object.  The fields are its strings of the same names,
without NUL and within their bounds. -/
theorem parseArgs_sound {arguments : List UInt8} {args : Args}
    (h : parseArgs arguments = some args) {field : Nat} (hField : field = 1 ∨ field = 2)
    {text : List UInt8} (hSome : args.field? field = some text) :
    Gives arguments (fieldName field) text ∧ Fits field text := by
  unfold parseArgs at h
  split at h
  · cases h
  split at h
  · cases h
  next p₁ hOpen =>
  split at h
  · cases h
  next args' p₂ hMembers =>
  split at h
  · cases h
  next p₃ hClose =>
  split at h
  · next hEnd =>
    cases h
    obtain ⟨before, hBefore⟩ := whitespace_split arguments
    obtain ⟨w, hW⟩ := whitespace_split p₁
    obtain ⟨after, hAfter⟩ := whitespace_split p₃
    rw [hEnd, List.append_nil] at hAfter
    rw [parseMembers] at hMembers
    split at hMembers
    · obtain ⟨ms, hText, hReads⟩ := members_sound hMembers w
      have hEmpty : Args.field? ⟨[], [], 0⟩ field = none := by simp [Args.field?]
      constructor
      · refine ⟨before, .object ms, after, ?_, ?_⟩
        · rw [hBefore, passByte_eq hOpen, hW, hText, passByte_eq hClose, hAfter]
          simp only [Value.text, List.append_assoc, List.cons_append, List.nil_append]
        · rw [hReads.value field hField, hEmpty] at hSome
          simpa [Value.field?] using hSome
      · rcases hReads.fits field text hField hSome with hOld | hNew
        · rw [hEmpty] at hOld
          cases hOld
        · exact hNew
    · cases hMembers
      simp [Args.field?] at hSome
  · cases h

end Esp32Fx.ExampleTools
