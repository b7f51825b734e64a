import Esp32Fx.Eink.Decode

/-! The JSON string parser of `runtime/fx_wamr_native.c`.  A cursor is the list of the bytes from it
to `end`.  Allocation is taken to succeed; the capacity of the output is the one that the parser
allocates. -/

namespace Esp32Fx.Native

open Lib

/-- The bytes that `append_utf8` writes. -/
def utf8Bytes (codepoint : Nat) : List UInt8 :=
  if codepoint ≤ 0x7f then [UInt8.ofNat codepoint]
  else if codepoint ≤ 0x7ff then
    [UInt8.ofNat (0xc0 ||| codepoint >>> 6), UInt8.ofNat (0x80 ||| codepoint &&& 0x3f)]
  else
    [UInt8.ofNat (0xe0 ||| codepoint >>> 12), UInt8.ofNat (0x80 ||| codepoint >>> 6 &&& 0x3f),
      UInt8.ofNat (0x80 ||| codepoint &&& 0x3f)]

/-- `append_utf8` to the `out` written so far: none for -1. -/
def appendUtf8 (cap : Nat) (out : List UInt8) (codepoint : Nat) : Option (List UInt8) :=
  let bytes := utf8Bytes codepoint
  if out.length + bytes.length ≥ cap then none else some (out ++ bytes)

/-- `count` rounds of the loop that reads the digits of a `\u` escape. -/
def readCodepoint : Nat → Nat → List UInt8 → Option (Nat × List UInt8)
  | 0, codepoint, p => some (codepoint, p)
  | _ + 1, _, [] => none
  | count + 1, codepoint, ch :: p =>
    match hexValue ch with
    | none => none
    | some digit => readCodepoint count (codepoint <<< 4 ||| digit) p

/-- The byte for the letter of an escape other than `\u`. -/
def escapeByte (ch : UInt8) : Option UInt8 :=
  if ch = 0x22 ∨ ch = 0x5c ∨ ch = 0x2f then some ch
  else if ch = 0x62 then some 0x08
  else if ch = 0x66 then some 0x0c
  else if ch = 0x6e then some 0x0a
  else if ch = 0x72 then some 0x0d
  else if ch = 0x74 then some 0x09
  else none

/-- The loop of `parse_json_string`: the output and the cursor past the closing quote. -/
def parseLoop (cap : Nat) : Nat → List UInt8 → List UInt8 → Option (List UInt8 × List UInt8)
  | 0, _, _ => none
  | _ + 1, [], _ => none
  | rounds + 1, ch :: p, out =>
    if ch = 0x22 then some (out, p)
    else if ch < 0x20 then none
    else if ch ≠ 0x5c then
      if out.length + 1 ≥ cap then none else parseLoop cap rounds p (out ++ [ch])
    else
      match p with
      | [] => none
      | ch :: p =>
        if ch = 0x75 then
          if p.length < 4 then none
          else
            match readCodepoint 4 0 p with
            | none => none
            | some (codepoint, p) =>
              if codepoint ≥ 0xd800 ∧ codepoint ≤ 0xdfff then none
              else
                match appendUtf8 cap out codepoint with
                | none => none
                | some out => parseLoop cap rounds p out
        else
          match escapeByte ch with
          | none => none
          | some byte => parseLoop cap rounds p (out ++ [byte])

/-- `parse_json_string`: the value before its NUL and the cursor past the literal, or none for
-1. -/
def parseJsonString : List UInt8 → Option (List UInt8 × List UInt8)
  | [] => none
  | ch :: p => if ch ≠ 0x22 then none else parseLoop (p.length + 1) (p.length + 1) p []

/-! ### Literals -/

open Json

variable {cap : Nat}

theorem readCodepoint_digits (d₁ d₂ d₃ d₄ : HexDigit) (rest : List UInt8) :
    readCodepoint 4 0 (d₁.byte :: d₂.byte :: d₃.byte :: d₄.byte :: rest) =
      some (Item.unit d₁ d₂ d₃ d₄, rest) := by
  simp [readCodepoint, d₁.spells, d₂.spells, d₃.spells, d₄.spells,
    Eink.shiftLeft_or_digit (hexValue_lt d₂.spells), Eink.shiftLeft_or_digit (hexValue_lt d₃.spells),
    Eink.shiftLeft_or_digit (hexValue_lt d₄.spells), Item.unit]

theorem escapeByte_letter (e : Escape) : escapeByte e.letter = some e.byte ∧ e.letter ≠ 0x75 := by
  cases e <;> decide

theorem utf8Bytes_eq {c : Nat} (hMax : c ≤ 0xffff) (hSurrogate : isSurrogate c = false) :
    utf8Bytes c = utf8 c := by
  rw [← Eink.utf8Bytes_eq hMax hSurrogate]
  simp only [isSurrogate, Bool.and_eq_false_iff, decide_eq_false_iff_not] at hSurrogate
  unfold utf8Bytes Eink.utf8Bytes
  split
  · rfl
  · split
    · rfl
    · rw [if_pos ⟨hMax, by omega⟩]

theorem length_utf8 (c : Nat) : (utf8 c).length ≤ 4 := by
  unfold utf8
  repeat' split
  all_goals simp

theorem length_bytes_le (i : Item) : i.bytes.length ≤ i.text.length ∧ 0 < i.text.length := by
  cases i with
  | plain b h => simp [Item.bytes, Item.text]
  | escape e => simp [Item.bytes, Item.text]
  | unicode d₁ d₂ d₃ d₄ =>
    have := length_utf8 (Item.unit d₁ d₂ d₃ d₄)
    simp only [Item.bytes, Item.text, List.length_cons, List.length_nil]
    omega

/-- One round of the parser reads one item, other than half of a surrogate pair. -/
theorem parseLoop_item (i : Item) {rounds : Nat} {rest out : List UInt8}
    (hCap : out.length + i.text.length < cap)
    (hSurrogate : ∀ d₁ d₂ d₃ d₄, i = .unicode d₁ d₂ d₃ d₄ →
      isSurrogate (Item.unit d₁ d₂ d₃ d₄) = false) :
    parseLoop cap (rounds + 1) (i.text ++ rest) out =
      parseLoop cap rounds rest (out ++ i.bytes) := by
  have hLength := length_bytes_le i
  cases i with
  | plain b h =>
    obtain ⟨hNul, hControl⟩ := Eink.plain_ne h
    have hRoom : ¬out.length + 1 ≥ cap := by
      simp only [Item.text, List.length_singleton] at hCap
      omega
    simp only [Item.text, List.singleton_append, parseLoop, h.2.1, hControl, h.2.2, Item.bytes,
      ne_eq, not_false_eq_true, if_true, if_false, hRoom]
  | escape e =>
    obtain ⟨hByte, hLetter⟩ := escapeByte_letter e
    simp only [Item.text, List.cons_append, List.nil_append, parseLoop, if_neg hLetter, hByte,
      Item.bytes]
    rfl
  | unicode d₁ d₂ d₃ d₄ =>
    have hUnit := hSurrogate d₁ d₂ d₃ d₄ rfl
    have hUtf8 := utf8Bytes_eq (unit_le d₁ d₂ d₃ d₄) hUnit
    have hRange : ¬(Item.unit d₁ d₂ d₃ d₄ ≥ 0xd800 ∧ Item.unit d₁ d₂ d₃ d₄ ≤ 0xdfff) := by
      simpa [isSurrogate] using hUnit
    have hRoom : ¬out.length + (utf8 (Item.unit d₁ d₂ d₃ d₄)).length ≥ cap := by
      simp only [Item.bytes] at hLength
      omega
    simp only [Item.text, List.cons_append, List.nil_append, parseLoop, readCodepoint_digits,
      appendUtf8, hUtf8, if_neg hRange, if_neg hRoom, Item.bytes, List.length_cons]
    rw [if_neg (by decide), if_neg (by decide), if_neg (by decide), if_pos trivial, if_neg (by omega)]

/-- The parser reads the items of a literal and stops past the quote. -/
theorem parseLoop_literal {l : Literal} (h : l.NoSurrogate) {rounds : Nat} {rest out : List UInt8}
    (hRounds : l.length < rounds) (hCap : out.length + (l.flatMap Item.text).length < cap) :
    parseLoop cap rounds (l.flatMap Item.text ++ 0x22 :: rest) out =
      some (out ++ l.flatMap Item.bytes, rest) := by
  induction l generalizing rounds out with
  | nil =>
    obtain ⟨rounds, rfl⟩ : ∃ r, rounds = r + 1 := ⟨rounds - 1, by simp at hRounds; omega⟩
    simp [parseLoop]
  | cons i l ih =>
    obtain ⟨rounds, rfl⟩ : ∃ r, rounds = r + 1 := ⟨rounds - 1, by simp at hRounds; omega⟩
    have hLength := length_bytes_le i
    simp only [List.flatMap_cons, List.length_append] at hCap
    rw [List.flatMap_cons, List.append_assoc, parseLoop_item i (by omega), ih h.of_cons,
      List.append_assoc, List.flatMap_cons]
    · simp at hRounds; omega
    · rw [List.length_append]
      omega
    · rintro d₁ d₂ d₃ d₄ rfl
      exact h d₁ d₂ d₃ d₄ List.mem_cons_self

/-- `parse_json_string` accepts a literal without surrogates, and consumes exactly the literal. -/
theorem parseJsonString_literal {l : Literal} (h : l.NoSurrogate) (rest : List UInt8) :
    parseJsonString (l.text ++ rest) = some (l.flatMap Item.bytes, rest) := by
  have hLength := length_flatMap_text l
  rw [Literal.text, List.cons_append, parseJsonString, if_neg (by simp), List.append_assoc,
    List.singleton_append, parseLoop_literal h]
  · rfl
  · simp only [List.length_append, List.length_cons]
    omega
  · simp only [List.length_nil, List.length_append, List.length_cons]
    omega

/-! ### What the parser accepts -/

theorem readCodepoint_succ {count codepoint : Nat} {p : List UInt8} {r : Nat × List UInt8}
    (h : readCodepoint (count + 1) codepoint p = some r) :
    ∃ (d : HexDigit) (p' : List UInt8),
      p = d.byte :: p' ∧ readCodepoint count (codepoint * 16 + d.value) p' = some r := by
  cases p with
  | nil => simp [readCodepoint] at h
  | cons ch p =>
    rw [readCodepoint] at h
    split at h
    · cases h
    next digit hDigit =>
    rw [Eink.shiftLeft_or_digit (hexValue_lt hDigit)] at h
    exact ⟨⟨ch, digit, hDigit⟩, p, rfl, h⟩

theorem readCodepoint_four {p rest : List UInt8} {codepoint : Nat}
    (h : readCodepoint 4 0 p = some (codepoint, rest)) : ∃ d₁ d₂ d₃ d₄ : HexDigit,
      p = d₁.byte :: d₂.byte :: d₃.byte :: d₄.byte :: rest ∧
        codepoint = Item.unit d₁ d₂ d₃ d₄ :=
  Item.unit_of_four readCodepoint_succ (fun _ _ => by rw [readCodepoint]) h

theorem escapeByte_eq {ch b : UInt8} (h : escapeByte ch = some b) :
    ∃ e : Escape, e.letter = ch ∧ e.byte = b := by
  unfold escapeByte at h
  split at h
  · next hch =>
    cases h
    obtain rfl | rfl | rfl := hch
    · exact ⟨.quote, rfl, rfl⟩
    · exact ⟨.backslash, rfl, rfl⟩
    · exact ⟨.slash, rfl, rfl⟩
  split at h
  · next hch => cases h; exact ⟨.backspace, hch.symm, rfl⟩
  split at h
  · next hch => cases h; exact ⟨.formFeed, hch.symm, rfl⟩
  split at h
  · next hch => cases h; exact ⟨.newline, hch.symm, rfl⟩
  split at h
  · next hch => cases h; exact ⟨.carriageReturn, hch.symm, rfl⟩
  split at h
  · next hch => cases h; exact ⟨.tab, hch.symm, rfl⟩
  · cases h

/-- The parser has read items without surrogates, up to the closing quote. -/
def Parsed (p out value rest : List UInt8) : Prop :=
  ∃ l : Literal, p = l.flatMap Item.text ++ 0x22 :: rest ∧ l.NoSurrogate ∧
    value = out ++ l.flatMap Item.bytes

/-- One more item in front. -/
theorem Parsed.cons {p p' out value rest : List UInt8} {i : Item} (hText : p = i.text ++ p')
    (hWhole : Literal.NoSurrogate [i]) (h : Parsed p' (out ++ i.bytes) value rest) :
    Parsed p out value rest := by
  obtain ⟨l, rfl, hRest, rfl⟩ := h
  refine ⟨i :: l, ?_, hWhole.cons hRest, ?_⟩
  · rw [hText, List.flatMap_cons, List.append_assoc]
  · rw [List.flatMap_cons, List.append_assoc]

theorem parseLoop_sound {cap rounds : Nat} {p out value rest : List UInt8}
    (h : parseLoop cap rounds p out = some (value, rest)) : Parsed p out value rest := by
  induction rounds generalizing p out with
  | zero => simp [parseLoop] at h
  | succ rounds ih =>
    cases p with
    | nil => simp [parseLoop] at h
    | cons ch p =>
      rw [parseLoop.eq_def] at h
      simp only at h
      split at h
      · next hQuote =>
        cases h
        exact ⟨[], by simp [hQuote], by simp [Literal.NoSurrogate], by simp⟩
      next hQuote =>
      split at h
      · cases h
      next hControl =>
      split at h
      · next hSlash =>
        split at h
        · cases h
        refine .cons (i := .plain ch ⟨UInt8.not_lt.mp hControl, hQuote, hSlash⟩) rfl
          (.single (by simp)) (ih h)
      next hSlash =>
      rw [Decidable.not_not] at hSlash
      subst hSlash
      split at h
      · cases h
      next letter p =>
      split at h
      · next hU =>
        subst hU
        split at h
        · cases h
        split at h
        · cases h
        next codepoint p' hRead =>
        obtain ⟨d₁, d₂, d₃, d₄, rfl, rfl⟩ := readCodepoint_four hRead
        split at h
        · cases h
        next hRange =>
        have hSurrogate : isSurrogate (Item.unit d₁ d₂ d₃ d₄) = false := by
          simp only [isSurrogate, Bool.and_eq_false_iff, decide_eq_false_iff_not]
          omega
        split at h
        · cases h
        next out' hAppend =>
        unfold appendUtf8 at hAppend
        simp only at hAppend
        split at hAppend
        · cases hAppend
        cases hAppend
        rw [utf8Bytes_eq (unit_le d₁ d₂ d₃ d₄) hSurrogate] at h
        refine .cons (i := .unicode d₁ d₂ d₃ d₄) rfl (.single ?_) (ih h)
        rintro e₁ e₂ e₃ e₄ ⟨⟩
        exact hSurrogate
      · split at h
        · cases h
        next byte hEscape =>
        obtain ⟨e, rfl, rfl⟩ := escapeByte_eq hEscape
        exact .cons (i := .escape e) rfl (.single (by simp)) (ih h)

/-- What `parse_json_string` accepts is a literal without surrogates. -/
theorem parseJsonString_sound {p value rest : List UInt8}
    (h : parseJsonString p = some (value, rest)) :
    ∃ l : Literal, p = l.text ++ rest ∧ l.NoSurrogate ∧ value = l.flatMap Item.bytes := by
  cases p with
  | nil => simp [parseJsonString] at h
  | cons ch p =>
    rw [parseJsonString] at h
    split at h
    · cases h
    next hQuote =>
    rw [Decidable.not_not] at hQuote
    obtain ⟨l, rfl, hWhole, rfl⟩ := parseLoop_sound h
    exact ⟨l, by simp [hQuote, Literal.text], hWhole, List.nil_append _⟩

end Esp32Fx.Native
