import Mathlib.Data.List.TakeWhile
import Esp32Fx.Einkctl.RenderText

/-! What `sanitize_text` writes: how much at most, which characters, and for UTF-8 text one
character for each code point. -/

namespace Esp32Fx.Einkctl

open Lib

/-! ### Steps outside escape sequences -/

section Steps

variable {byte : UInt8} (destination : Nat) (rest : List UInt8)

theorem sanitizeFrom_kept (h : byte = 0x0a ∨ IsPrintable byte) :
    sanitizeFrom .none destination (byte :: rest) =
      byte :: sanitizeFrom .none (destination + 1) rest := by
  have hOther : byte ≠ 0x1b ∧ byte ≠ 0x0d ∧ byte ≠ 0x09 := by
    rcases h with rfl | ⟨hLow, -⟩
    · decide
    · refine ⟨?_, ?_, ?_⟩ <;> rintro rfl <;> exact absurd hLow (by decide)
  rw [sanitizeFrom, if_neg hOther.1, if_neg hOther.2.1, if_neg hOther.2.2, if_pos h]

theorem sanitizeFrom_high (h : 0x80 ≤ byte) :
    sanitizeFrom .none destination (byte :: rest) =
      0x3f :: sanitizeFrom .none (destination + 1) (rest.dropWhile isUtf8Continuation) := by
  have hOther : byte ≠ 0x1b ∧ byte ≠ 0x0d ∧ byte ≠ 0x09 ∧ ¬(byte = 0x0a ∨ IsPrintable byte) := by
    refine ⟨?_, ?_, ?_, ?_⟩
    · rintro rfl
      exact absurd h (by decide)
    · rintro rfl
      exact absurd h (by decide)
    · rintro rfl
      exact absurd h (by decide)
    · rintro (rfl | ⟨-, hHigh⟩)
      · exact absurd h (by decide)
      · exact absurd (UInt8.le_trans h hHigh) (by decide)
  rw [sanitizeFrom, if_neg hOther.1, if_neg hOther.2.1, if_neg hOther.2.2.1, if_neg hOther.2.2.2,
    if_pos h]

theorem sanitizeFrom_tab :
    sanitizeFrom .none destination (0x09 :: rest) =
      List.replicate (4 - destination % 4) 0x20 ++
        sanitizeFrom .none (destination + (4 - destination % 4)) rest := by
  rw [sanitizeFrom, if_neg (by decide), if_neg (by decide), if_pos rfl]

theorem sanitizeFrom_return (h : rest.head? ≠ some 0x0a) :
    sanitizeFrom .none destination (0x0d :: rest) =
      0x0a :: sanitizeFrom .none (destination + 1) rest := by
  rw [sanitizeFrom, if_neg (by decide), if_pos rfl, if_neg h]

theorem sanitizeFrom_folded (h : rest.head? = some 0x0a) :
    sanitizeFrom .none destination (0x0d :: rest) = sanitizeFrom .none destination rest := by
  rw [sanitizeFrom, if_neg (by decide), if_pos rfl, if_pos h]

/-- Other control characters are dropped. -/
theorem sanitizeFrom_control (hEscape : byte ≠ 0x1b) (hReturn : byte ≠ 0x0d) (hTab : byte ≠ 0x09)
    (hKept : ¬(byte = 0x0a ∨ IsPrintable byte)) (hLow : ¬0x80 ≤ byte) :
    sanitizeFrom .none destination (byte :: rest) = sanitizeFrom .none destination rest := by
  rw [sanitizeFrom, if_neg hEscape, if_neg hReturn, if_neg hTab, if_neg hKept, if_neg hLow]

end Steps

/-! ### Size and characters -/

theorem sanitizeFrom_length (escape : Escape) (destination : Nat) (input : List UInt8) :
    (sanitizeFrom escape destination input).length ≤ 4 * input.length := by
  fun_induction sanitizeFrom escape destination input with
  | case1 => exact Nat.zero_le _
  | case9 _ _ _ _ ih =>
    rw [List.length_cons, List.length_cons]
    omega
  | case10 _ _ _ _ spaces ih =>
    rw [List.length_append, List.length_replicate, List.length_cons]
    omega
  | case11 _ _ _ _ _ _ _ ih =>
    rw [List.length_cons, List.length_cons]
    omega
  | case12 _ _ rest _ _ _ _ _ ih =>
    have hDropped := List.length_dropWhile_le isUtf8Continuation rest
    rw [List.length_cons, List.length_cons]
    omega
  | _ =>
    -- nothing is written here
    apply Nat.le_trans (by assumption)
    simp only [List.length_cons, List.length_tail]
    omega

/-- Clean text comes out as it went in. -/
theorem sanitizeFrom_clean {text : List UInt8} (h : ∀ byte ∈ text, byte = 0x0a ∨ IsPrintable byte)
    (destination : Nat) : sanitizeFrom .none destination text = text := by
  induction text generalizing destination with
  | nil => rw [sanitizeFrom]
  | cons byte text ih =>
    obtain ⟨hByte, hText⟩ := List.forall_mem_cons.mp h
    rw [sanitizeFrom_kept _ _ hByte, ih hText]

/-! ### UTF-8 -/

/-- The bytes of a text. -/
def utf8 (text : List Char) : List UInt8 := text.flatMap String.utf8EncodeChar

/-- The cell of a code point. -/
def cellOf (c : Char) : UInt8 := if c.toNat < 0x80 then UInt8.ofNat c.toNat else 0x3f

/-- A byte that starts a character is no continuation. -/
theorem isUtf8Continuation_lead {byte : UInt8} (h : byte < 0x80 ∨ 0xc0 ≤ byte) :
    isUtf8Continuation byte = false := by
  have hAll : ∀ n : Fin 256, UInt8.ofFin n < 0x80 ∨ 0xc0 ≤ UInt8.ofFin n →
      isUtf8Continuation (UInt8.ofFin n) = false := by
    decide +kernel
  exact hAll byte.toFin h

theorem isUtf8Continuation_trail (n : Nat) :
    isUtf8Continuation (UInt8.ofNat (n % 0x40 + 0x80)) = true := by
  have hSmall : n % 0x40 < 64 := Nat.mod_lt _ (by decide)
  generalize n % 0x40 = digit at hSmall ⊢
  revert digit
  decide

theorem utf8EncodeChar_ascii {c : Char} (h : c.toNat < 0x80) :
    String.utf8EncodeChar c = [UInt8.ofNat c.toNat] :=
  if_pos (Nat.le_of_lt_succ h)

theorem lead_high {n base : Nat} (hBase : 0xc0 ≤ base) (hByte : base + n < 256) :
    0xc0 ≤ UInt8.ofNat (n + base) := by
  rw [UInt8.le_iff_toNat_le, UInt8.toNat_ofNat_of_lt' (by simp only [UInt8.size]; omega)]
  show 192 ≤ n + base
  omega

/-- The bytes of a code point that is not ASCII: one that is no continuation, and continuations. -/
theorem utf8EncodeChar_high {c : Char} (h : ¬c.toNat < 0x80) :
    ∃ lead trail, String.utf8EncodeChar c = lead :: trail ∧ 0xc0 ≤ lead ∧
      ∀ byte ∈ trail, isUtf8Continuation byte = true := by
  have hAscii : ¬c.val.toNat ≤ 0x7f := fun hLow => h (Nat.lt_succ_of_le hLow)
  have hTrail := isUtf8Continuation_trail
  unfold String.utf8EncodeChar
  simp only
  rw [if_neg hAscii]
  split
  · refine ⟨_, _, rfl, lead_high (by decide) (by omega), ?_⟩
    exact List.forall_mem_singleton.mpr (hTrail _)
  split
  · refine ⟨_, _, rfl, lead_high (by decide) (by omega), ?_⟩
    exact List.forall_mem_cons.mpr ⟨hTrail _, List.forall_mem_singleton.mpr (hTrail _)⟩
  · refine ⟨_, _, rfl, lead_high (by decide) (by omega), ?_⟩
    refine List.forall_mem_cons.mpr ⟨hTrail _, ?_⟩
    exact List.forall_mem_cons.mpr ⟨hTrail _, List.forall_mem_singleton.mpr (hTrail _)⟩

/-- Behind a code point nothing of the next one is skipped. -/
theorem utf8_dropWhile {trail : List UInt8} (h : ∀ byte ∈ trail, isUtf8Continuation byte = true)
    (text : List Char) : (trail ++ utf8 text).dropWhile isUtf8Continuation = utf8 text := by
  rw [List.dropWhile_append_of_pos h]
  cases text with
  | nil => rfl
  | cons c text =>
    rw [utf8, List.flatMap_cons]
    by_cases hAscii : c.toNat < 0x80
    · rw [utf8EncodeChar_ascii hAscii]
      apply List.dropWhile_cons_of_neg
      have hByte : UInt8.ofNat c.toNat < 0x80 := by
        rw [UInt8.lt_iff_toNat_lt, UInt8.toNat_ofNat_of_lt' (by simp only [UInt8.size]; omega)]
        exact hAscii
      rw [isUtf8Continuation_lead (.inl hByte)]
      decide
    · obtain ⟨lead, rest, hBytes, hLead, -⟩ := utf8EncodeChar_high hAscii
      rw [hBytes]
      apply List.dropWhile_cons_of_neg
      rw [isUtf8Continuation_lead (.inr hLead)]
      decide

theorem sanitizeFrom_utf8 {text : List Char} (h : ∀ c ∈ text, 0x20 ≤ c.toNat ∧ c.toNat ≠ 0x7f)
    (destination : Nat) : sanitizeFrom .none destination (utf8 text) = text.map cellOf := by
  induction text generalizing destination with
  | nil => exact sanitizeFrom.eq_1 _ _
  | cons c text ih =>
    obtain ⟨hc, hText⟩ := List.forall_mem_cons.mp h
    rw [utf8, List.flatMap_cons, List.map_cons, cellOf]
    by_cases hAscii : c.toNat < 0x80
    · have hPrintable : IsPrintable (UInt8.ofNat c.toNat) := by
        rw [IsPrintable, UInt8.le_iff_toNat_le, UInt8.le_iff_toNat_le,
          UInt8.toNat_ofNat_of_lt' (by simp only [UInt8.size]; omega)]
        show 32 ≤ c.toNat ∧ c.toNat ≤ 126
        omega
      rw [if_pos hAscii, utf8EncodeChar_ascii hAscii, List.singleton_append,
        sanitizeFrom_kept _ _ (.inr hPrintable), ← utf8, ih hText]
    · obtain ⟨lead, trail, hBytes, hLead, hTrail⟩ := utf8EncodeChar_high hAscii
      rw [if_neg hAscii, hBytes, List.cons_append,
        sanitizeFrom_high _ _ (UInt8.le_trans (by decide) hLead), ← utf8, utf8_dropWhile hTrail,
        ih hText]

/-- The size is what `render_text` allocates for, the output is clean, and text of code points that
are no control characters becomes one character for each. -/
theorem sanitizeText_output (input : List UInt8) :
    (sanitizeText input).length ≤ 4 * input.length ∧
    (∀ byte ∈ sanitizeText input, byte = 0x0a ∨ (0x20 ≤ byte ∧ byte ≤ 0x7e)) ∧
    sanitizeText (sanitizeText input) = sanitizeText input ∧
    ∀ text : List Char, (∀ c ∈ text, 0x20 ≤ c.toNat ∧ c.toNat ≠ 0x7f) → input = utf8 text →
      sanitizeText input =
        text.map fun c => if c.toNat < 0x80 then UInt8.ofNat c.toNat else 0x3f := by
  have hClean := sanitizeFrom_printable .none 0 input
  refine ⟨sanitizeFrom_length .none 0 input, hClean, sanitizeFrom_clean hClean 0, ?_⟩
  intro text hText hInput
  rw [hInput]
  exact sanitizeFrom_utf8 hText 0

end Esp32Fx.Einkctl
