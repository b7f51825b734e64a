import Mathlib.Data.Bool.AllAny
import Esp32Fx.ExampleTools.Args

/-! The language of `parse_args` (`src/runtime/fx_example_tools.c`): it accepts the texts of the
grammar, all of them and no others, and stores within its buffers. -/

namespace Esp32Fx.ExampleTools

open Esp32Fx.Lib Json

/-! ### The grammar -/

/-- A byte that a text may have. -/
def TextByte (b : UInt8) : Prop := b = 0x09 ∨ b = 0x0a ∨ b = 0x0d ∨ 0x20 ≤ b ∧ b ≤ 0x7e

/-- Printable ASCII, and the escapes for it and for tab, line feed and carriage return. -/
def Strict : Item → Prop
  | .plain b _ => b ≤ 0x7e
  | .escape e => e ≠ .backspace ∧ e ≠ .formFeed
  | .unicode d₁ d₂ d₃ d₄ =>
    Item.unit d₁ d₂ d₃ d₄ = 9 ∨ Item.unit d₁ d₂ d₃ d₄ = 10 ∨ Item.unit d₁ d₂ d₃ d₄ = 13 ∨
      0x20 ≤ Item.unit d₁ d₂ d₃ d₄ ∧ Item.unit d₁ d₂ d₃ d₄ ≤ 0x7e

/-- A text of the grammar, with its keys and the decoded texts of its values. -/
structure ArgsText (p : List UInt8) (members : List (List UInt8 × List UInt8)) : Prop where
  length : p.length ≤ 8192
  text : ∃ (before : Space) (object : Value) (after : Space),
    p = before.bytes ++ object.text ++ after.bytes ∧ object.strings? = some members ∧
      ∀ token ∈ object.tokens, token.isKey = false → ∀ i ∈ token.literal, Strict i
  distinct : (members.map Prod.fst).Nodup
  named : ∀ member ∈ members, member.1 = ascii "path" ∧ member.2.length ≤ 31 ∨
    member.1 = ascii "content" ∧ member.2.length ≤ 4096

/-- The arguments that members give: the decoded texts, and the bits of the members there are. -/
def argsOf (members : List (List UInt8 × List UInt8)) : Args where
  path := (lastNamed (ascii "path") members).getD []
  content := (lastNamed (ascii "content") members).getD []
  fields := (if (lastNamed (ascii "path") members).isSome then 1 else 0) +
    if (lastNamed (ascii "content") members).isSome then 2 else 0

/-! ### Literals of the grammar -/

theorem oneByte_of_strict {i : Item} (h : Strict i) : ∃ b, OneByte i b ∧ TextByte b := by
  cases i with
  | plain b hb =>
    refine ⟨b, ⟨rfl, ?_, .single (by simp)⟩, .inr (.inr (.inr ⟨hb.1, h⟩))⟩
    rintro rfl
    exact absurd hb.1 (by decide)
  | escape e =>
    refine ⟨e.byte, oneByte_escape e, ?_⟩
    cases e with
    | backspace => exact absurd rfl h.1
    | formFeed => exact absurd rfl h.2
    | newline => exact .inr (.inl rfl)
    | carriageReturn => exact .inr (.inr (.inl rfl))
    | tab => exact .inl rfl
    | _ => exact .inr (.inr (.inr (by decide)))
  | unicode d₁ d₂ d₃ d₄ =>
    simp only [Strict] at h
    refine ⟨_, oneByte_unicode (by omega) (by omega), ?_⟩
    rcases h with h | h | h | h
    · rw [h]
      exact .inl rfl
    · rw [h]
      exact .inr (.inl rfl)
    · rw [h]
      exact .inr (.inr (.inl rfl))
    · refine .inr (.inr (.inr ?_))
      simp only [UInt8.le_iff_toNat_le, UInt8.toNat_ofNat', UInt8.toNat_ofNat]
      omega

/-- The bytes of a code point from 0x80 on are no ASCII. -/
theorem utf8_high {c : Nat} (h : 0x7f < c) (hMax : c ≤ 0x10ffff) :
    ∃ b ∈ utf8 c, 0x7e < b.toNat := by
  unfold utf8
  rw [if_neg (by omega)]
  split
  · refine ⟨_, List.mem_cons_self, ?_⟩
    rw [UInt8.toNat_ofNat']
    omega
  · split
    · refine ⟨_, List.mem_cons_self, ?_⟩
      rw [UInt8.toNat_ofNat']
      omega
    · refine ⟨_, List.mem_cons_self, ?_⟩
      rw [UInt8.toNat_ofNat']
      omega

theorem TextByte.toNat_le {b : UInt8} (h : TextByte b) : b.toNat ≤ 0x7e := by
  rcases h with rfl | rfl | rfl | h
  · decide
  · decide
  · decide
  · exact UInt8.le_iff_toNat_le.mp h.2

theorem utf8_text {c : Nat} (hMax : c ≤ 0x10ffff) (h : ∀ b ∈ utf8 c, TextByte b) :
    c = 9 ∨ c = 10 ∨ c = 13 ∨ 0x20 ≤ c ∧ c ≤ 0x7e := by
  by_cases hAscii : c ≤ 0x7f
  · rw [utf8, if_pos hAscii] at h
    have hByte := h _ List.mem_cons_self
    have hValue : (UInt8.ofNat c).toNat = c := by
      rw [UInt8.toNat_ofNat']
      omega
    simp only [TextByte, ← UInt8.toNat_inj, UInt8.le_iff_toNat_le, hValue, UInt8.toNat_ofNat]
      at hByte
    omega
  · obtain ⟨b, hb, hHigh⟩ := utf8_high (by omega) hMax
    exact absurd (h b hb).toNat_le (by omega)

/-- An item that stands for bytes of a text is one of the grammar. -/
theorem strict_of_bytes {i : Item} (h : ∀ b ∈ i.bytes, TextByte b) : Strict i := by
  cases i with
  | plain b hb => exact UInt8.le_iff_toNat_le.mpr (h b List.mem_cons_self).toNat_le
  | escape e =>
    have hByte := h e.byte List.mem_cons_self
    constructor
    · rintro rfl
      simp [TextByte, Escape.byte] at hByte
    · rintro rfl
      simp [TextByte, Escape.byte] at hByte
  | unicode d₁ d₂ d₃ d₄ =>
    have hMax := unit_le d₁ d₂ d₃ d₄
    exact utf8_text (by omega) h

theorem strict_of_decode {l : Literal} {text : List UInt8} (h : l.decode = some text)
    (hText : ∀ b ∈ text, TextByte b) : ∀ i ∈ l, Strict i := by
  have hWhole := noSurrogate_of_decode h fun b hb => by
    have := (hText b hb).toNat_le
    omega
  rw [Literal.decode_of_noSurrogate hWhole] at h
  cases h
  exact fun i hi => strict_of_bytes fun b hb => hText b (List.mem_flatMap_of_mem hi hb)

/-- A literal of the grammar stands for one byte of text by each item. -/
theorem noSurrogate_of_strict {l : Literal} (h : ∀ i ∈ l, Strict i) : l.NoSurrogate := by
  induction l with
  | nil => nofun
  | cons i l ih =>
    obtain ⟨hItem, hRest⟩ := List.forall_mem_cons.mp h
    obtain ⟨b, hByte, -⟩ := oneByte_of_strict hItem
    exact hByte.whole.cons (ih hRest)

theorem decode_of_strict {l : Literal} (h : ∀ i ∈ l, Strict i) :
    l.decode = some (l.flatMap Item.bytes) :=
  Literal.decode_of_noSurrogate (noSurrogate_of_strict h)

/-! ### Strings -/

theorem unicodeValue_digits (d₁ d₂ d₃ d₄ : HexDigit) (rest : List UInt8) :
    unicodeValue 4 0 (d₁.byte :: d₂.byte :: d₃.byte :: d₄.byte :: rest) =
      some (Item.unit d₁ d₂ d₃ d₄, rest) := by
  simp [unicodeValue, d₁.spells, d₂.spells, d₃.spells, d₄.spells, Item.unit]

theorem escapeValue_letter {e : Escape} (h : e ≠ .backspace ∧ e ≠ .formFeed) (rest : List UInt8) :
    escapeValue (e.letter :: rest) = some (e.byte, rest) := by
  cases e with
  | backspace => exact absurd rfl h.1
  | formFeed => exact absurd rfl h.2
  | _ => rfl

/-- `string_value` reads an item of the grammar as its byte. -/
theorem charValue_item {i : Item} (h : Strict i) (rest : List UInt8) :
    ∃ ch p b, i.text ++ rest = ch :: p ∧ ch ≠ 0x22 ∧ charValue ch p = some (b, rest) ∧
      i.bytes = [b] := by
  cases i with
  | plain b hb =>
    refine ⟨b, rest, b, rfl, hb.2.1, ?_, rfl⟩
    have hRange : ¬(b < 32 ∨ b > 126) := by
      rintro (hLow | hHigh)
      · exact UInt8.not_lt.mpr hb.1 hLow
      · exact UInt8.not_lt.mpr h hHigh
    rw [charValue, if_neg hRange, if_neg hb.2.2]
  | escape e =>
    refine ⟨0x5c, e.letter :: rest, e.byte, rfl, by decide, ?_, rfl⟩
    rw [charValue, if_neg (by decide), if_pos rfl, escapeValue_letter h]
  | unicode d₁ d₂ d₃ d₄ =>
    simp only [Strict] at h
    refine ⟨0x5c, 0x75 :: d₁.byte :: d₂.byte :: d₃.byte :: d₄.byte :: rest,
      UInt8.ofNat (Item.unit d₁ d₂ d₃ d₄), rfl, by decide, ?_, ?_⟩
    · rw [charValue, if_neg (by decide), if_pos rfl, escapeValue]
      simp only [unicodeValue_digits]
      rw [if_neg (by decide), if_neg (by decide), if_neg (by decide), if_neg (by decide), if_pos trivial,
        if_neg (by omega)]
    · rw [Item.bytes, utf8, if_pos (by omega)]

theorem stringLoop_literal {cap : Nat} {l : Literal} (h : ∀ i ∈ l, Strict i) {rounds : Nat}
    {rest out : List UInt8} (hRounds : l.length < rounds)
    (hCap : out.length + (l.flatMap Item.bytes).length < cap) :
    stringLoop cap rounds (l.flatMap Item.text ++ 0x22 :: rest) out =
      some (out ++ l.flatMap Item.bytes, rest) := by
  induction l generalizing rounds out with
  | nil =>
    obtain ⟨rounds, rfl⟩ : ∃ r, rounds = r + 1 := ⟨rounds - 1, by simp at hRounds; omega⟩
    simp [stringLoop]
  | cons i l ih =>
    obtain ⟨rounds, rfl⟩ : ∃ r, rounds = r + 1 := ⟨rounds - 1, by simp at hRounds; omega⟩
    obtain ⟨hItem, hRest⟩ := List.forall_mem_cons.mp h
    obtain ⟨ch, p, b, hText, hQuote, hChar, hBytes⟩ :=
      charValue_item hItem (l.flatMap Item.text ++ 0x22 :: rest)
    rw [List.flatMap_cons, hBytes, List.length_append, List.length_singleton] at hCap
    rw [List.flatMap_cons, List.append_assoc, hText, stringLoop, if_neg hQuote, hChar]
    simp only
    rw [if_neg (by omega), ih hRest, List.append_assoc, List.flatMap_cons, hBytes]
    · simp only [List.length_cons] at hRounds
      omega
    · simp only [List.length_append, List.length_singleton]
      omega

/-- A string of the grammar that fits the buffer is accepted. -/
theorem stringValue_literal {cap : Nat} {l : Literal} {text : List UInt8}
    (h : ∀ i ∈ l, Strict i) (hDecode : l.decode = some text) (hCap : text.length < cap)
    (rest : List UInt8) : stringValue cap (l.text ++ rest) = some (text, rest) := by
  rw [decode_of_strict h] at hDecode
  cases hDecode
  have hLength := length_flatMap_text l
  rw [Literal.text, List.cons_append, stringValue, passByte, if_pos rfl]
  simp only
  rw [List.append_assoc, List.singleton_append, stringLoop_literal h]
  · rfl
  · simp only [List.length_append, List.length_cons]
    omega
  · simpa using hCap

theorem escapeValue_text {p rest : List UInt8} {b : UInt8} (h : escapeValue p = some (b, rest)) :
    TextByte b := by
  cases p with
  | nil => cases h
  | cons ch p =>
    rw [escapeValue] at h
    split at h
    · next hch =>
      cases h
      rcases hch with rfl | rfl | rfl <;> exact .inr (.inr (.inr (by decide)))
    split at h
    · cases h; exact .inr (.inl rfl)
    split at h
    · cases h; exact .inr (.inr (.inl rfl))
    split at h
    · cases h; exact .inl rfl
    split at h
    · split at h
      · cases h
      split at h
      · cases h
      next value _ _ hRange =>
      cases h
      have hValue : (UInt8.ofNat value).toNat = value := by
        rw [UInt8.toNat_ofNat']
        omega
      simp only [TextByte, ← UInt8.toNat_inj, UInt8.le_iff_toNat_le, hValue, UInt8.toNat_ofNat]
      omega
    · cases h

theorem charValue_text {ch b : UInt8} {p rest : List UInt8}
    (h : charValue ch p = some (b, rest)) : TextByte b := by
  unfold charValue at h
  split at h
  · cases h
  next hRange =>
  split at h
  · exact escapeValue_text h
  · cases h
    rw [not_or, UInt8.not_lt] at hRange
    exact .inr (.inr (.inr ⟨hRange.1, UInt8.not_lt.mp hRange.2⟩))

theorem stringLoop_text {cap rounds : Nat} {p out value rest : List UInt8}
    (h : stringLoop cap rounds p out = some (value, rest)) (hOut : ∀ b ∈ out, TextByte b) :
    ∀ b ∈ value, TextByte b := by
  induction rounds generalizing p out with
  | zero => cases h
  | succ rounds ih =>
    cases p with
    | nil => cases h
    | cons ch p =>
      rw [stringLoop] at h
      split at h
      · cases h
        exact hOut
      split at h
      · cases h
      next b p' hChar =>
      split at h
      · cases h
      · apply ih h
        exact List.forall_mem_append.mpr ⟨hOut, List.forall_mem_singleton.mpr (charValue_text hChar)⟩

theorem stringValue_text {cap : Nat} {p value rest : List UInt8}
    (h : stringValue cap p = some (value, rest)) : ∀ b ∈ value, TextByte b := by
  unfold stringValue at h
  split at h
  · cases h
  · exact stringLoop_text h (by nofun)

/-! ### Members -/

theorem whitespace_space (w : Space) {p : List UInt8} (h : isBlank (peek p) = false) :
    whitespace (w.bytes ++ p) = p := by
  have hBlank : ∀ b ∈ w.bytes, isBlank b = true := by
    intro b hb
    rcases w.blank b hb with rfl | rfl | rfl | rfl <;> rfl
  rw [whitespace, List.dropWhile_append_of_pos hBlank]
  cases p with
  | nil => rfl
  | cons b p => exact List.dropWhile_cons_of_neg (by simpa using h)

theorem fieldOf_fieldName {field : Nat} (h : field = 1 ∨ field = 2) :
    fieldOf (fieldName field) = field := by
  rcases h with rfl | rfl <;> decide

theorem field?_eq_none {args : Args} {field : Nat} :
    args.field? field = none ↔ args.fields &&& field = 0 := by
  unfold Args.field?
  split <;> simp_all

theorem textByte_fieldName (field : Nat) : ∀ b ∈ fieldName field, TextByte b := by
  have hNames : ∀ b ∈ ascii "path" ++ ascii "content", 0x20 ≤ b ∧ b ≤ 0x7e :=
    List.all_iff_forall_prop.mp (by decide)
  intro b hb
  refine .inr (.inr (.inr (hNames b ?_)))
  unfold fieldName at hb
  split at hb
  · exact List.mem_append_left _ hb
  · exact List.mem_append_right _ hb

/-- A member with a field of its own that fits the buffer is accepted. -/
theorem member_literal {args : Args} {field : Nat} {key l : Literal} {text rest : List UInt8}
    (hField : field = 1 ∨ field = 2) (hKey : key.decode = some (fieldName field))
    (hStrict : ∀ i ∈ l, Strict i) (hDecode : l.decode = some text)
    (hFits : text.length < fieldCap field) (hNone : args.field? field = none)
    (afterKey beforeValue after : Space) (hRest : isBlank (peek rest) = false) :
    member args (key.text ++ (afterKey.bytes ++
      0x3a :: (beforeValue.bytes ++ (l.text ++ (after.bytes ++ rest))))) =
        some (args.store field text, rest) := by
  have hKeyStrict := strict_of_decode hKey (textByte_fieldName field)
  have hKeyFits : (fieldName field).length < 16 := by
    rcases hField with rfl | rfl <;> decide
  rw [member, stringValue_literal hKeyStrict hKey hKeyFits]
  simp only
  rw [fieldOf_fieldName hField, if_neg, whitespace_space afterKey rfl, passByte, if_pos rfl]
  · simp only
    rw [whitespace_space beforeValue rfl, stringValue_literal hStrict hDecode hFits]
    simp only
    rw [whitespace_space after hRest]
  · rintro (hZero | hBit)
    · omega
    · exact hBit (field?_eq_none.mp hNone)

/-- Members that can be added to the arguments. -/
structure Admits (args : Args) (members : List (List UInt8 × List UInt8)) : Prop where
  distinct : (members.map Prod.fst).Nodup
  fresh : ∀ member ∈ members, ∃ field, (field = 1 ∨ field = 2) ∧ member.1 = fieldName field ∧
    args.field? field = none ∧ member.2.length < fieldCap field

theorem admits_cons {args : Args} {member : List UInt8 × List UInt8}
    {members : List (List UInt8 × List UInt8)} :
    Admits args (member :: members) ↔ ∃ field, (field = 1 ∨ field = 2) ∧
      member.1 = fieldName field ∧ args.field? field = none ∧ member.2.length < fieldCap field ∧
      Admits (args.store field member.2) members := by
  constructor
  · rintro ⟨hDistinct, hFresh⟩
    rw [List.map_cons, List.nodup_cons] at hDistinct
    obtain ⟨⟨field, hField, hName, hNone, hFits⟩, hRest⟩ := List.forall_mem_cons.mp hFresh
    refine ⟨field, hField, hName, hNone, hFits, hDistinct.2, fun other hMem => ?_⟩
    obtain ⟨field', hField', hName', hNone', hFits'⟩ := hRest other hMem
    refine ⟨field', hField', hName', ?_, hFits'⟩
    rw [field?_store _ hField hField', if_neg]
    · exact hNone'
    · rintro rfl
      exact hDistinct.1 (List.mem_map.mpr ⟨other, hMem, hName'.trans hName.symm⟩)
  · rintro ⟨field, hField, hName, hNone, hFits, hDistinct, hFresh⟩
    refine ⟨?_, List.forall_mem_cons.mpr ⟨⟨field, hField, hName, hNone, hFits⟩, ?_⟩⟩
    · rw [List.map_cons, List.nodup_cons]
      refine ⟨fun hMem => ?_, hDistinct⟩
      obtain ⟨other, hOther, hEq⟩ := List.mem_map.mp hMem
      obtain ⟨field', hField', hName', hNone', -⟩ := hFresh other hOther
      have hSame := fieldName_inj hField' hField (hName'.symm.trans (hEq.trans hName))
      rw [field?_store _ hField hField', if_pos hSame] at hNone'
      cases hNone'
    · intro other hOther
      obtain ⟨field', hField', hName', hNone', hFits'⟩ := hFresh other hOther
      refine ⟨field', hField', hName', ?_, hFits'⟩
      rw [field?_store _ hField hField'] at hNone'
      split at hNone'
      · cases hNone'
      · exact hNone'

def storeMember (args : Args) (member : List UInt8 × List UInt8) : Args :=
  args.store (fieldOf member.1) member.2

/-- The values of the members are literals of the grammar. -/
def StrictValues (ms : Members) : Prop :=
  ∀ token ∈ ms.tokens, token.isKey = false → ∀ i ∈ token.literal, Strict i

theorem strictValues_last {w afterKey beforeValue after : Space} {key l : Literal} :
    StrictValues (.last w key afterKey beforeValue (.string l) after) ↔ ∀ i ∈ l, Strict i := by
  simp [StrictValues, Members.tokens, Value.tokens]

theorem strictValues_more {w afterKey beforeValue after : Space} {key l : Literal} {ms : Members} :
    StrictValues (.more w key afterKey beforeValue (.string l) after ms) ↔
      (∀ i ∈ l, Strict i) ∧ StrictValues ms := by
  simp [StrictValues, Members.tokens, Value.tokens]

theorem whitespace_members (ms : Members) (rest : List UInt8) :
    ∃ tail, whitespace (ms.text ++ rest) = 0x22 :: tail := by
  cases ms with
  | last w key afterKey beforeValue v after =>
    simp only [Members.text, List.append_assoc]
    exact ⟨_, whitespace_space w rfl⟩
  | more w key afterKey beforeValue v after ms =>
    simp only [Members.text, List.append_assoc]
    exact ⟨_, whitespace_space w rfl⟩

/-- Members of the grammar are accepted, each with its own field, up to the closing brace. -/
theorem members_literal : (ms : Members) → {list : List (List UInt8 × List UInt8)} → {args : Args} →
    {rounds : Nat} → {rest : List UInt8} → ms.strings? = some list → StrictValues ms →
    Admits args list → (whitespace (ms.text ++ 0x7d :: rest)).length ≤ rounds →
    members rounds args (whitespace (ms.text ++ 0x7d :: rest)) =
      some (list.foldl storeMember args, 0x7d :: rest)
  | .last w key afterKey beforeValue v after, list, args, rounds, rest => by
    intro hStrings hStrict hAdmits hRounds
    obtain ⟨member, hMember, rfl⟩ := Option.map_eq_some_iff.mp hStrings
    obtain ⟨l, rfl, hKey, hText⟩ := member?_eq_some hMember
    obtain ⟨field, hField, hName, hNone, hFits, -⟩ := admits_cons.mp hAdmits
    obtain ⟨tail, hTail⟩ := whitespace_members (.last w key afterKey beforeValue (.string l) after)
      (0x7d :: rest)
    obtain ⟨rounds, rfl⟩ : ∃ r, rounds = r + 1 := ⟨rounds - 1, by
      rw [hTail, List.length_cons] at hRounds
      omega⟩
    have hAccept := member_literal hField (hName ▸ hKey) (strictValues_last.mp hStrict) hText hFits
      hNone afterKey beforeValue after (show isBlank (peek (0x7d :: rest)) = false by rfl)
    have hSpace : whitespace ((Members.last w key afterKey beforeValue (.string l) after).text ++
        0x7d :: rest) = key.text ++ (afterKey.bytes ++
          0x3a :: (beforeValue.bytes ++ (l.text ++ (after.bytes ++ 0x7d :: rest)))) := by
      simp only [Members.text, Value.text, List.append_assoc, List.cons_append]
      exact whitespace_space w rfl
    rw [hSpace, members, hAccept]
    simp only
    rw [if_neg (by decide), List.foldl_cons, List.foldl_nil, storeMember, hName,
      fieldOf_fieldName hField]
  | .more w key afterKey beforeValue v after ms, list, args, rounds, rest => by
    intro hStrings hStrict hAdmits hRounds
    obtain ⟨member, others, hMember, hOthers, rfl⟩ := strings?_more hStrings
    obtain ⟨l, rfl, hKey, hText⟩ := member?_eq_some hMember
    obtain ⟨field, hField, hName, hNone, hFits, hRest⟩ := admits_cons.mp hAdmits
    obtain ⟨hValue, hValues⟩ := strictValues_more.mp hStrict
    have hSpace : whitespace ((Members.more w key afterKey beforeValue (.string l) after ms).text ++
        0x7d :: rest) = key.text ++ (afterKey.bytes ++ 0x3a :: (beforeValue.bytes ++ (l.text ++
          (after.bytes ++ 0x2c :: (ms.text ++ 0x7d :: rest))))) := by
      simp only [Members.text, Value.text, List.append_assoc, List.cons_append]
      exact whitespace_space w rfl
    have hAccept := member_literal hField (hName ▸ hKey) hValue hText hFits hNone afterKey beforeValue
      after (show isBlank (peek (0x2c :: (ms.text ++ 0x7d :: rest))) = false by rfl)
    have hShorter := List.length_dropWhile_le isBlank (ms.text ++ 0x7d :: rest)
    rw [hSpace] at hRounds
    simp only [Literal.text, List.length_append, List.length_cons] at hRounds hShorter
    obtain ⟨rounds, rfl⟩ : ∃ r, rounds = r + 1 := ⟨rounds - 1, by omega⟩
    have hFieldOf : fieldOf member.1 = field := by rw [hName, fieldOf_fieldName hField]
    rw [hSpace, members, hAccept]
    simp only
    rw [if_pos trivial, members_literal ms hOthers hValues hRest, List.foldl_cons, storeMember, hFieldOf]
    rw [whitespace]
    omega

/-- Both texts may be texts. -/
def TextArgs (args : Args) : Prop :=
  (∀ b ∈ args.path, TextByte b) ∧ ∀ b ∈ args.content, TextByte b

theorem member_text {args args' : Args} {p rest : List UInt8} (hArgs : TextArgs args)
    (h : member args p = some (args', rest)) : TextArgs args' := by
  unfold member at h
  split at h
  · cases h
  split at h
  · cases h
  split at h
  · cases h
  split at h
  · cases h
  next text _ hValue =>
  cases h
  have hText := stringValue_text hValue
  unfold Args.store
  split
  · exact ⟨hText, hArgs.2⟩
  · exact ⟨hArgs.1, hText⟩

theorem TextArgs.of_store {args : Args} {field : Nat} {text : List UInt8}
    (h : TextArgs (args.store field text)) : ∀ b ∈ text, TextByte b := by
  unfold Args.store at h
  split at h
  · exact h.1
  · exact h.2

/-- The loop accepts members of the grammar only. -/
theorem members_grammar {rounds : Nat} {args args' : Args} {p rest : List UInt8}
    (hArgs : TextArgs args) (h : members rounds args p = some (args', rest)) (w : Space) :
    ∃ (ms : Members) (list : List (List UInt8 × List UInt8)), w.bytes ++ p = ms.text ++ rest ∧
      ms.strings? = some list ∧ StrictValues ms ∧ Admits args list ∧
      args' = list.foldl storeMember args := by
  induction rounds generalizing args p w with
  | zero => cases h
  | succ rounds ih =>
    rw [members] at h
    split at h
    · cases h
    · cases h
    next args₁ ch p₁ hMember =>
    have hArgs₁ := member_text hArgs hMember
    obtain ⟨key, afterKey, beforeValue, l, after, field, text, rfl, hField, hKey, hDecode, hFits,
      hNone, rfl⟩ := member_sound hMember
    have hStrict := strict_of_decode hDecode hArgs₁.of_store
    have hPair : member? key (.string l) = some (fieldName field, text) := by
      simp [member?, Value.string?, hKey, hDecode]
    have hStore : storeMember args (fieldName field, text) = args.store field text := by
      rw [storeMember, fieldOf_fieldName hField]
    split at h
    · next hComma =>
      obtain ⟨before, hBefore⟩ := whitespace_split p₁
      obtain ⟨ms, list, hText, hStrings, hValues, hAdmits, rfl⟩ := ih hArgs₁ h before
      refine ⟨.more w key afterKey beforeValue (.string l) after ms, (fieldName field, text) :: list,
        ?_, ?_, strictValues_more.mpr ⟨hStrict, hValues⟩,
        admits_cons.mpr ⟨field, hField, rfl, hNone, hFits.2, hAdmits⟩, ?_⟩
      · rw [Members.text, hComma, hBefore, hText]
        simp only [Value.text, List.append_assoc, List.cons_append]
      · rw [Members.strings?, hPair, hStrings]
      · rw [List.foldl_cons, hStore]
    · cases h
      refine ⟨.last w key afterKey beforeValue (.string l) after, [(fieldName field, text)], ?_, ?_,
        strictValues_last.mpr hStrict,
        admits_cons.mpr ⟨field, hField, rfl, hNone, hFits.2, by simp, by simp⟩, ?_⟩
      · rw [Members.text]
        simp only [Value.text, List.append_assoc, List.cons_append]
      · rw [Members.strings?, hPair]
        rfl
      · rw [List.foldl_cons, List.foldl_nil, hStore]

/-! ### Arguments -/

/-- The bit of a member that is there. -/
def fieldBit (field : Nat) (members : List (List UInt8 × List UInt8)) : Nat :=
  if (lastNamed (fieldName field) members).isSome then field else 0

theorem foldl_storeMember {members : List (List UInt8 × List UInt8)} {args : Args}
    (h : ∀ member ∈ members, ∃ field, (field = 1 ∨ field = 2) ∧ member.1 = fieldName field) :
    members.foldl storeMember args =
      ⟨(lastNamed (ascii "path") members).getD args.path,
        (lastNamed (ascii "content") members).getD args.content,
        args.fields ||| (fieldBit 1 members ||| fieldBit 2 members)⟩ := by
  induction members generalizing args with
  | nil => simp [lastNamed, fieldBit]
  | cons member members ih =>
    obtain ⟨⟨field, hField, hName⟩, hRest⟩ := List.forall_mem_cons.mp h
    rw [List.foldl_cons, ih hRest, storeMember, hName, fieldOf_fieldName hField]
    rcases hField with rfl | rfl
    · have hOther : member.1 ≠ fieldName 2 := by rw [hName]; decide
      have hContent : lastNamed (ascii "content") (member :: members) =
        lastNamed (ascii "content") members := lastNamed_other hOther members
      have hPath : lastNamed (ascii "path") (member :: members) =
        some ((lastNamed (ascii "path") members).getD member.2) := lastNamed_self hName members
      simp only [fieldBit, lastNamed_self hName, lastNamed_other hOther, hContent, hPath, Args.store,
        Option.isSome_some, if_true, Option.getD_some, Nat.or_assoc]
      cases (lastNamed (fieldName 1) members).isSome <;> simp [← Nat.or_assoc]
    · have hOther : member.1 ≠ fieldName 1 := by rw [hName]; decide
      have hPath : lastNamed (ascii "path") (member :: members) =
        lastNamed (ascii "path") members := lastNamed_other hOther members
      have hContent : lastNamed (ascii "content") (member :: members) =
        some ((lastNamed (ascii "content") members).getD member.2) := lastNamed_self hName members
      simp only [fieldBit, lastNamed_self hName, lastNamed_other hOther, hContent, hPath, Args.store,
        Option.isSome_some, if_true, Option.getD_some]
      rw [if_neg (by decide)]
      simp only [Nat.or_assoc, Nat.or_comm 2]
      cases (lastNamed (fieldName 2) members).isSome <;> simp

theorem Admits.argsOf_eq {members : List (List UInt8 × List UInt8)}
    (h : Admits ⟨[], [], 0⟩ members) : members.foldl storeMember ⟨[], [], 0⟩ = argsOf members := by
  rw [foldl_storeMember fun member hMember => ?_]
  · show Args.mk _ _ (0 ||| (fieldBit 1 members ||| fieldBit 2 members)) = argsOf members
    simp only [argsOf, fieldBit, fieldName, if_true, if_neg (by decide : ¬2 = 1)]
    cases (lastNamed (ascii "path") members).isSome <;>
      cases (lastNamed (ascii "content") members).isSome <;> rfl
  · obtain ⟨field, hField, hName, -⟩ := h.fresh member hMember
    exact ⟨field, hField, hName⟩

theorem Admits.named {members : List (List UInt8 × List UInt8)} (h : Admits ⟨[], [], 0⟩ members) :
    ∀ member ∈ members, member.1 = ascii "path" ∧ member.2.length ≤ 31 ∨
      member.1 = ascii "content" ∧ member.2.length ≤ 4096 := by
  intro member hMember
  obtain ⟨field, hField, hName, -, hFits⟩ := h.fresh member hMember
  rcases hField with rfl | rfl
  · exact .inl ⟨hName, Nat.le_of_lt_succ hFits⟩
  · exact .inr ⟨hName, Nat.le_of_lt_succ hFits⟩

theorem ArgsText.admits {p : List UInt8} {members : List (List UInt8 × List UInt8)}
    (h : ArgsText p members) : Admits ⟨[], [], 0⟩ members where
  distinct := h.distinct
  fresh member hMember := by
    rcases h.named member hMember with ⟨hName, hFits⟩ | ⟨hName, hFits⟩
    · exact ⟨1, .inl rfl, hName, rfl, Nat.lt_succ_of_le hFits⟩
    · exact ⟨2, .inr rfl, hName, rfl, Nat.lt_succ_of_le hFits⟩

theorem parseMembers_grammar {p rest : List UInt8} {args : Args} (w : Space)
    (h : parseMembers p = some (args, 0x7d :: rest)) :
    ∃ (object : Value) (members : List (List UInt8 × List UInt8)),
      0x7b :: (w.bytes ++ p) = object.text ++ rest ∧ object.strings? = some members ∧
      (∀ token ∈ object.tokens, token.isKey = false → ∀ i ∈ token.literal, Strict i) ∧
      Admits ⟨[], [], 0⟩ members ∧ args = members.foldl storeMember ⟨[], [], 0⟩ := by
  unfold parseMembers at h
  split at h
  · obtain ⟨ms, members, hText, hStrings, hStrict, hAdmits, hArgs⟩ :=
      members_grammar ⟨by nofun, by nofun⟩ h w
    refine ⟨.object ms, members, ?_, hStrings, hStrict, hAdmits, hArgs⟩
    rw [hText, Value.text]
    simp only [List.append_assoc, List.cons_append, List.nil_append]
  · cases h
    refine ⟨.emptyObject w, [], ?_, rfl, by simp [Value.tokens], ⟨by simp, by simp⟩, rfl⟩
    rw [Value.text]
    simp only [List.append_assoc, List.cons_append, List.nil_append]

theorem argsText_of_parseArgs {p : List UInt8} {args : Args} (h : parseArgs p = some args) :
    ∃ members, ArgsText p members ∧ args = argsOf members := by
  unfold parseArgs at h
  split at h
  · cases h
  next hLength =>
  split at h
  · cases h
  next p₁ hOpen =>
  split at h
  · cases h
  next args₁ p₂ hMembers =>
  split at h
  · cases h
  next p₃ hClose =>
  split at h
  · next hEnd =>
    cases h
    obtain ⟨before, hBefore⟩ := whitespace_split p
    obtain ⟨w, hW⟩ := whitespace_split p₁
    obtain ⟨after, hAfter⟩ := whitespace_split p₃
    rw [hEnd, List.append_nil] at hAfter
    rw [passByte_eq hClose] at hMembers
    obtain ⟨object, members, hText, hStrings, hStrict, hAdmits, rfl⟩ := parseMembers_grammar w hMembers
    refine ⟨members, ⟨Nat.le_of_not_lt hLength, ⟨before, object, after, ?_, hStrings, hStrict⟩,
      hAdmits.distinct, hAdmits.named⟩, hAdmits.argsOf_eq⟩
    rw [hBefore, passByte_eq hOpen, hW, hText, hAfter, List.append_assoc]
  · cases h

theorem parseArgs_of_argsText {p : List UInt8} {members : List (List UInt8 × List UInt8)}
    (h : ArgsText p members) : parseArgs p = some (argsOf members) := by
  obtain ⟨before, object, after, hText, hStrings, hStrict⟩ := h.text
  have hLength : ¬p.length > ARG_LIMIT := Nat.not_lt.mpr h.length
  have hAfter : whitespace after.bytes = [] := by
    simpa using whitespace_space after (show isBlank (peek []) = false by rfl)
  rw [parseArgs, if_neg hLength, hText, List.append_assoc]
  cases object with
  | emptyObject w =>
    cases hStrings
    rw [Value.text, List.cons_append, whitespace_space before rfl, passByte, if_pos rfl]
    simp only [List.append_assoc, List.singleton_append]
    rw [whitespace_space w rfl, parseMembers, if_neg (by simp)]
    simp only [passByte, if_true]
    rw [if_pos hAfter]
    rfl
  | object ms =>
    obtain ⟨tail, hTail⟩ := whitespace_members ms (0x7d :: after.bytes)
    have hAccept := members_literal ms hStrings hStrict h.admits
      (Nat.le_refl (whitespace (ms.text ++ 0x7d :: after.bytes)).length)
    have hFirst : whitespace (ms.text ++ 0x7d :: after.bytes) ≠ [] ∧
        peek (whitespace (ms.text ++ 0x7d :: after.bytes)) ≠ 0x7d := by
      rw [hTail]
      exact ⟨by simp, by simp⟩
    rw [Value.text, List.cons_append, whitespace_space before rfl, passByte, if_pos rfl]
    simp only [List.append_assoc, List.singleton_append]
    rw [parseMembers, if_pos hFirst, hAccept]
    simp only [passByte, if_true]
    rw [if_pos hAfter, h.admits.argsOf_eq]
  | _ => cases hStrings

/-! ### Stores -/

/-- The buffers that `string_value` fills. -/
inductive ArgsBuffer
  | key | path | content
  deriving DecidableEq, Repr

def ArgsBuffer.size : ArgsBuffer → Nat
  | key => 16
  | path => 32
  | content => FILE_LIMIT + 1

/-- The indices of `out` that the loop of `string_value` stores to, with the NUL behind the text. -/
def stringStores (cap : Nat) : (rounds : Nat) → (p : List UInt8) → (length : Nat) → List Nat
  | 0, _, _ => []
  | _ + 1, [], _ => []
  | rounds + 1, ch :: p, length =>
    if ch = 0x22 then [length]
    else
      match charValue ch p with
      | none => []
      | some (_, p) =>
        if length + 1 ≥ cap then [] else length :: stringStores cap rounds p (length + 1)

def stringValueStores (cap : Nat) (p : List UInt8) : List Nat :=
  match passByte 0x22 p with
  | none => []
  | some p => stringStores cap p.length p 0

/-- The stores for one member, up to where the member is rejected. -/
def memberStores (args : Args) (p : List UInt8) : List (ArgsBuffer × Nat) :=
  (stringValueStores 16 p).map (ArgsBuffer.key, ·) ++
    match stringValue 16 p with
    | none => []
    | some (key, p) =>
      if fieldOf key = 0 ∨ args.fields &&& fieldOf key ≠ 0 then []
      else
        match passByte 0x3a (whitespace p) with
        | none => []
        | some p =>
          (stringValueStores (fieldCap (fieldOf key)) (whitespace p)).map
            (if fieldOf key = 1 then ArgsBuffer.path else ArgsBuffer.content, ·)

def membersStores : (rounds : Nat) → (args : Args) → (p : List UInt8) → List (ArgsBuffer × Nat)
  | 0, _, _ => []
  | rounds + 1, args, p =>
    memberStores args p ++
      match member args p with
      | none => []
      | some (_, []) => []
      | some (args, ch :: p) => if ch = 0x2c then membersStores rounds args (whitespace p) else []

/-- All stores of `parse_args` behind its `memset`, of accepted and of rejected arguments. -/
def parseArgsStores (p : List UInt8) : List (ArgsBuffer × Nat) :=
  if p.length > ARG_LIMIT then []
  else
    match passByte 0x7b (whitespace p) with
    | none => []
    | some p =>
      if whitespace p ≠ [] ∧ peek (whitespace p) ≠ 0x7d then
        membersStores (whitespace p).length ⟨[], [], 0⟩ (whitespace p)
      else []

theorem stringStores_lt {cap rounds length : Nat} {p : List UInt8} (hLength : length < cap) :
    ∀ i ∈ stringStores cap rounds p length, i < cap := by
  induction rounds generalizing p length with
  | zero => nofun
  | succ rounds ih =>
    cases p with
    | nil => nofun
    | cons ch p =>
      rw [stringStores]
      split
      · exact List.forall_mem_singleton.mpr hLength
      split
      · nofun
      split
      · nofun
      next hRoom => exact List.forall_mem_cons.mpr ⟨hLength, ih (by omega)⟩

theorem stringValueStores_lt {cap : Nat} {p : List UInt8} (hCap : 0 < cap) :
    ∀ i ∈ stringValueStores cap p, i < cap := by
  unfold stringValueStores
  split
  · nofun
  · exact stringStores_lt hCap

/-- An accepted string stores its bytes and the NUL, in order. -/
theorem stringStores_accepted {cap rounds : Nat} {p out value rest : List UInt8}
    (h : stringLoop cap rounds p out = some (value, rest)) :
    stringStores cap rounds p out.length = List.range' out.length (value.length + 1 - out.length) ∧
      out.length ≤ value.length := by
  induction rounds generalizing p out with
  | zero => cases h
  | succ rounds ih =>
    cases p with
    | nil => cases h
    | cons ch p =>
      rw [stringLoop] at h
      rw [stringStores]
      split at h
      · next hQuote =>
        cases h
        rw [if_pos hQuote, Nat.add_sub_cancel_left]
        exact ⟨rfl, Nat.le_refl _⟩
      next hQuote =>
      rw [if_neg hQuote]
      split at h
      · cases h
      next b p' hChar =>
      split at h
      · cases h
      next hRoom =>
      obtain ⟨hStores, hLength⟩ := ih h
      rw [List.length_append, List.length_singleton] at hStores hLength
      simp only [hChar, if_neg hRoom, hStores]
      refine ⟨?_, by omega⟩
      rw [show value.length + 1 - out.length = value.length + 1 - (out.length + 1) + 1 by omega,
        List.range'_succ]

theorem memberStores_lt (args : Args) (p : List UInt8) :
    ∀ store ∈ memberStores args p, store.2 < store.1.size := by
  refine List.forall_mem_append.mpr ⟨?_, ?_⟩
  · exact List.forall_mem_map.mpr (stringValueStores_lt (by decide))
  · split
    · nofun
    split
    · nofun
    next key _ _ _ =>
    split
    · nofun
    refine List.forall_mem_map.mpr fun i hi => ?_
    have hLt := stringValueStores_lt (by unfold fieldCap; split <;> decide) i hi
    unfold fieldCap at hLt
    split
    · next hPath => rwa [if_pos hPath] at hLt
    · next hPath => rwa [if_neg hPath] at hLt

theorem membersStores_lt (rounds : Nat) (args : Args) (p : List UInt8) :
    ∀ store ∈ membersStores rounds args p, store.2 < store.1.size := by
  induction rounds generalizing args p with
  | zero => nofun
  | succ rounds ih =>
    refine List.forall_mem_append.mpr ⟨memberStores_lt args p, ?_⟩
    split
    · nofun
    · nofun
    · split
      · exact ih _ _
      · nofun

theorem parseArgsStores_lt (p : List UInt8) :
    ∀ store ∈ parseArgsStores p, store.2 < store.1.size := by
  unfold parseArgsStores
  split
  · nofun
  split
  · nofun
  split
  · exact membersStores_lt _ _ _
  · nofun

/-- `parse_args` accepts the texts of its grammar, with what their members give, and no others.  It
stores within its buffers, whatever it is given. -/
theorem parseArgs_language (p : List UInt8) :
    (∀ args, parseArgs p = some args ↔ ∃ members, ArgsText p members ∧ args = argsOf members) ∧
      ∀ store ∈ parseArgsStores p, store.2 < store.1.size := by
  refine ⟨fun args => ⟨argsText_of_parseArgs, ?_⟩, parseArgsStores_lt p⟩
  rintro ⟨members, hText, rfl⟩
  exact parseArgs_of_argsText hText

end Esp32Fx.ExampleTools
