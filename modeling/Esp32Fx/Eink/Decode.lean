import Esp32Fx.Eink.Json

/-! `decode_json_string` on string literals: what it makes of each item, and that it reads a literal
to its closing quote exactly when the decoded bytes fit the buffer. -/

namespace Esp32Fx.Eink

open Lib Lib.Json

theorem growCapacity_pos (needed : Nat) {capacity : Nat} (rounds : Nat) (h : 0 < capacity) :
    0 < growCapacity needed rounds capacity := by
  induction rounds generalizing capacity with
  | zero => exact h
  | succ rounds ih =>
    rw [growCapacity]
    split
    · exact ih (by omega)
    · exact h

theorem bufferAppend_fits {buffer : TextBuffer} {text : List UInt8}
    (h : buffer.data.length + text.length ≤ maxResponseBytes) :
    ∃ after, bufferAppend buffer text = some after ∧ after.data = buffer.data ++ text ∧
      after.allocated = true := by
  refine ⟨_, if_neg (by omega), rfl, ?_⟩
  simp only [TextBuffer.allocated, decide_eq_true_eq]
  split
  · have hpos : 0 < (if buffer.capacity ≠ 0 then buffer.capacity else 1024) := by split <;> omega
    have := growCapacity_pos (buffer.data.length + text.length + 1)
      (buffer.data.length + text.length + 1) hpos
    omega
  · omega

theorem bufferAppend_full {buffer : TextBuffer} {text : List UInt8}
    (hText : text ≠ []) (h : maxResponseBytes < buffer.data.length + text.length) :
    bufferAppend buffer text = none := by
  have hpos := List.length_pos_iff.mpr hText
  exact if_pos (by omega)

/-- What the decoder makes of an item. -/
def itemBytes : Item → List UInt8
  | .plain b _ => [b]
  | .escape e => [e.byte]
  | .unicode d₁ d₂ d₃ d₄ => utf8Bytes (Item.unit d₁ d₂ d₃ d₄)

/-- What the decoder makes of a literal. -/
def literalBytes (l : Literal) : List UInt8 := l.flatMap itemBytes

theorem utf8Bytes_ne_nil (c : Nat) : utf8Bytes c ≠ [] := by
  unfold utf8Bytes
  split
  · simp
  · split
    · simp
    · split <;> simp

theorem itemBytes_ne_nil (i : Item) : itemBytes i ≠ [] := by
  cases i with
  | plain b h => simp [itemBytes]
  | escape e => simp [itemBytes]
  | unicode d₁ d₂ d₃ d₄ => exact utf8Bytes_ne_nil _

@[simp] theorem literalBytes_nil : literalBytes [] = [] := rfl

@[simp] theorem literalBytes_cons (i : Item) (l : Literal) :
    literalBytes (i :: l) = itemBytes i ++ literalBytes l := rfl

theorem literalBytes_eq_nil {l : Literal} : literalBytes l = [] ↔ l = [] := by
  cases l with
  | nil => simp
  | cons i l => simp [itemBytes_ne_nil]

theorem plain_ne {b : UInt8} (h : 0x20 ≤ b ∧ b ≠ 0x22 ∧ b ≠ 0x5c) :
    b ≠ 0 ∧ ¬b < 0x20 := by
  constructor
  · rintro rfl
    exact absurd h.1 (by decide)
  · simp only [UInt8.lt_iff_toNat_lt, UInt8.le_iff_toNat_le] at h ⊢
    omega

theorem shiftLeft_or_digit {c v : Nat} (h : v < 16) : c <<< 4 ||| v = c * 16 + v := by
  rw [← Nat.shiftLeft_add_eq_or_of_lt (by simpa using h), Nat.shiftLeft_eq]

theorem readCodepoint_digits (d₁ d₂ d₃ d₄ : HexDigit) (rest : List UInt8) :
    readCodepoint 4 0 (d₁.byte :: d₂.byte :: d₃.byte :: d₄.byte :: rest) =
      some (Item.unit d₁ d₂ d₃ d₄, rest) := by
  simp [readCodepoint, d₁.spells, d₂.spells, d₃.spells, d₄.spells,
    shiftLeft_or_digit (hexValue_lt d₂.spells), shiftLeft_or_digit (hexValue_lt d₃.spells),
    shiftLeft_or_digit (hexValue_lt d₄.spells), Item.unit]

theorem escapeByte_letter (e : Escape) :
    escapeByte e.letter = some e.byte ∧ e.letter ≠ 0x75 := by
  cases e <;> decide

/-- One round of the decoder reads one item. -/
theorem decodeLoop_item (i : Item) (rounds : Nat) (rest : List UInt8) (buffer : TextBuffer) :
    decodeLoop (rounds + 1) (i.text ++ rest) buffer =
      (bufferAppend buffer (itemBytes i)).bind (decodeLoop rounds rest) := by
  cases i with
  | plain b h =>
    obtain ⟨hNul, hControl⟩ := plain_ne h
    simp only [Item.text, List.singleton_append, decodeLoop, peek_cons, hNul, h.2.1, hControl, h.2.2,
      List.tail_cons, itemBytes, or_self, ne_eq, not_false_eq_true, if_true, if_false]
    cases bufferAppend buffer [b] <;> rfl
  | escape e =>
    obtain ⟨hByte, hLetter⟩ := escapeByte_letter e
    simp only [Item.text, List.cons_append, List.nil_append, decodeLoop, peek_cons, List.tail_cons,
      if_neg hLetter, hByte, itemBytes]
    cases bufferAppend buffer [e.byte] <;> rfl
  | unicode d₁ d₂ d₃ d₄ =>
    simp only [Item.text, List.cons_append, List.nil_append, decodeLoop, peek_cons, List.tail_cons,
      readCodepoint_digits, appendUtf8, itemBytes]
    cases bufferAppend buffer (utf8Bytes (Item.unit d₁ d₂ d₃ d₄)) <;> rfl

/-- The decoder stops at a quote. -/
theorem decodeLoop_quote (rounds : Nat) (rest : List UInt8) (buffer : TextBuffer) :
    decodeLoop (rounds + 1) (0x22 :: rest) buffer = some (buffer, 0x22 :: rest) := by
  simp [decodeLoop]

/-- The decoder reads the items of a literal when their bytes fit. -/
theorem decodeLoop_literal (l : Literal) (rest : List UInt8) {rounds : Nat} {buffer : TextBuffer}
    (hRounds : l.length < rounds)
    (hFits : buffer.data.length + (literalBytes l).length ≤ maxResponseBytes) :
    ∃ after, decodeLoop rounds (l.flatMap Item.text ++ 0x22 :: rest) buffer =
        some (after, 0x22 :: rest) ∧
      after.data = buffer.data ++ literalBytes l ∧
      (after.allocated = true ↔ buffer.allocated = true ∨ l ≠ []) := by
  induction l generalizing rounds buffer with
  | nil =>
    obtain ⟨rounds, rfl⟩ : ∃ r, rounds = r + 1 := ⟨rounds - 1, by simp at hRounds; omega⟩
    exact ⟨buffer, decodeLoop_quote _ _ _, by simp, by simp⟩
  | cons i l ih =>
    obtain ⟨rounds, rfl⟩ : ∃ r, rounds = r + 1 := ⟨rounds - 1, by simp at hRounds; omega⟩
    simp only [literalBytes_cons, List.length_append] at hFits
    have hItem : buffer.data.length + (itemBytes i).length ≤ maxResponseBytes := by omega
    obtain ⟨next, hNext, hData, hAlloc⟩ := bufferAppend_fits hItem
    have hLength : next.data.length = buffer.data.length + (itemBytes i).length := by
      rw [hData, List.length_append]
    have hRest : next.data.length + (literalBytes l).length ≤ maxResponseBytes := by omega
    obtain ⟨after, hAfter, hAfterData, hAfterAlloc⟩ :=
      ih (Nat.lt_of_succ_lt_succ hRounds) hRest
    refine ⟨after, ?_, ?_, ?_⟩
    · rw [List.flatMap_cons, List.append_assoc, decodeLoop_item, hNext]
      exact hAfter
    · rw [hAfterData, hData, literalBytes_cons, List.append_assoc]
    · simp [hAfterAlloc, hAlloc]

/-- The decoder reads a literal and stops past its closing quote, when the decoded bytes fit. -/
theorem decodeJsonString_literal (l : Literal) (rest : List UInt8)
    (hFits : (literalBytes l).length ≤ maxResponseBytes) :
    ∃ after, decodeJsonString (l.text ++ rest) .empty = some (after, rest) ∧
      after.data = literalBytes l ∧ (after.allocated = true ↔ l ≠ []) := by
  have hText : l.text ++ rest = 0x22 :: (l.flatMap Item.text ++ 0x22 :: rest) := by
    simp [Literal.text]
  have hRounds : l.length < (l.text ++ rest).length := by
    have := length_flatMap_text l
    simp only [hText, List.length_cons, List.length_append]
    omega
  have hEmpty : TextBuffer.empty.data.length + (literalBytes l).length ≤ maxResponseBytes := by
    simpa [TextBuffer.empty]
  obtain ⟨after, hAfter, hData, hAlloc⟩ :=
    decodeLoop_literal l rest hRounds hEmpty
  refine ⟨after, ?_, by simpa [TextBuffer.empty] using hData, by
    simpa [TextBuffer.empty, TextBuffer.allocated] using hAlloc⟩
  have hTail : (l.text ++ rest).tail = l.flatMap Item.text ++ 0x22 :: rest := by rw [hText]; rfl
  have hHead : peek (l.text ++ rest) = 0x22 := by rw [hText]; rfl
  simp only [decodeJsonString, hHead, hTail, hAfter]
  simp

/-! ### Agreement with the grammar -/

theorem or_eq_add {a x i : Nat} (h : x < 2 ^ i) : a * 2 ^ i ||| x = a * 2 ^ i + x := by
  rw [← Nat.shiftLeft_eq, Nat.shiftLeft_add_eq_or_of_lt h]

/-- Other than a surrogate, a code unit is encoded as UTF-8 has it. -/
theorem utf8Bytes_eq {c : Nat} (hMax : c ≤ 0xffff) (hSurrogate : isSurrogate c = false) :
    utf8Bytes c = utf8 c := by
  have hMask : ∀ x, x &&& 0x3f = x % 64 := fun x => Nat.and_two_pow_sub_one_eq_mod x 6
  have hTail : ∀ x, 0x80 ||| x % 64 = 0x80 + x % 64 := fun x =>
    or_eq_add (a := 2) (i := 6) (by omega)
  simp only [isSurrogate, Bool.and_eq_false_iff, decide_eq_false_iff_not] at hSurrogate
  unfold utf8Bytes utf8
  by_cases h₁ : c ≤ 0x7f
  · rw [if_pos h₁, if_pos h₁]
  rw [if_neg h₁, if_neg h₁]
  by_cases h₂ : c ≤ 0x7ff
  · have hHead : 0xc0 ||| c / 64 = 0xc0 + c / 64 := or_eq_add (a := 6) (i := 5) (by omega)
    rw [if_pos h₂, if_pos h₂, hMask, hTail, Nat.shiftRight_eq_div_pow, hHead]
  · have hHead : 0xe0 ||| c / 4096 = 0xe0 + c / 4096 := or_eq_add (a := 14) (i := 4) (by omega)
    rw [if_neg h₂, if_neg h₂, if_pos ⟨hMax, by omega⟩, if_pos hMax, hMask, hMask, hTail, hTail,
      Nat.shiftRight_eq_div_pow, Nat.shiftRight_eq_div_pow, hHead]

/-- The decoder agrees with the grammar on a literal without surrogates. -/
theorem literalBytes_eq {l : Literal} (h : l.NoSurrogate) :
    literalBytes l = l.flatMap Item.bytes := by
  induction l with
  | nil => rfl
  | cons i l ih =>
    rw [literalBytes_cons, List.flatMap_cons, ih h.of_cons]
    cases i with
    | plain b hb => rfl
    | escape e => rfl
    | unicode d₁ d₂ d₃ d₄ =>
      have hUnit := h d₁ d₂ d₃ d₄ List.mem_cons_self
      rw [itemBytes, Item.bytes, utf8Bytes_eq (unit_le d₁ d₂ d₃ d₄) hUnit]

theorem decode_eq_literalBytes {l : Literal} (h : l.NoSurrogate) :
    l.decode = some (literalBytes l) := by
  rw [Literal.decode_of_noSurrogate h, literalBytes_eq h]

theorem literalBytes_encode (s : List UInt8) : literalBytes (encode s) = s := by
  rw [literalBytes_eq (noSurrogate_encode s), bytes_encode]

/-- `write_json_string` writes each byte as its item. -/
theorem writeByte_eq (b : UInt8) : writeByte b = (encodeByte b).text := by
  unfold writeByte encodeByte
  repeat' split
  all_goals first
    | rfl
    | skip
  · next h₁ h₂ _ _ _ _ _ hLow h =>
    simp only [UInt8.lt_iff_toNat_lt, UInt8.le_iff_toNat_le] at hLow h
    exact absurd h.1 (by omega)
  · next h₁ h₂ _ _ _ _ _ hLow h =>
    simp only [UInt8.lt_iff_toNat_lt] at hLow
    have hHigh : b.toNat / 16 < 16 := by
      have := b.toNat_lt
      omega
    simp [printUnicodeEscape, Item.text, HexDigit.lower, Fin.ofNat, Nat.mod_eq_of_lt hHigh]
  · next h₁ h₂ _ _ _ _ _ hLow h =>
    refine absurd ⟨?_, h₁, h₂⟩ h
    simp only [UInt8.lt_iff_toNat_lt, UInt8.le_iff_toNat_le] at hLow ⊢
    omega

/-- `write_json_string` writes the literal of its text. -/
theorem writeJsonString_eq {s : List UInt8} (h : (0 : UInt8) ∉ s) :
    writeJsonString s = (encode s).text := by
  have hBytes : writeBytes s = (encode s).flatMap Item.text := by
    induction s with
    | nil => rfl
    | cons b s ih =>
      simp only [List.mem_cons, not_or] at h
      rw [writeBytes, if_neg (Ne.symm h.1), ih h.2, writeByte_eq, encode_cons, List.flatMap_cons]
  rw [writeJsonString, hBytes, Literal.text]

end Esp32Fx.Eink
