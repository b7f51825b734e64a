import Mathlib.Data.Bool.AllAny
import Mathlib.Data.List.TakeDrop
import Mathlib.Data.List.TakeWhile

/-! Decoding as UTF-8 with the replacement character for what is no UTF-8, one for each longest
start of a character, and encoding again.  ASCII bytes come through, and nothing else becomes
ASCII. -/

namespace Esp32Fx.Lib

/-- How many bytes the first byte of a character asks for. -/
def trailLength (lead : UInt8) : Nat :=
  if 0xc2 ≤ lead ∧ lead ≤ 0xdf then 1
  else if 0xe0 ≤ lead ∧ lead ≤ 0xef then 2
  else if 0xf0 ≤ lead ∧ lead ≤ 0xf4 then 3
  else 0

/-- The second byte of a character, by its first: no overlong forms, no surrogates, nothing above
U+10FFFF. -/
def isSecond (lead b : UInt8) : Bool :=
  (if lead = 0xe0 then 0xa0 else if lead = 0xf0 then 0x90 else 0x80) ≤ b &&
    b ≤ (if lead = 0xed then 0x9f else if lead = 0xf4 then 0x8f else 0xbf)

def isTrail (b : UInt8) : Bool := 0x80 ≤ b && b ≤ 0xbf

/-- The bytes that continue a character after its first byte, as far as they go. -/
def trail (lead : UInt8) : List UInt8 → List UInt8
  | [] => []
  | b :: rest =>
    if trailLength lead = 0 ∨ isSecond lead b = false then []
    else b :: (rest.takeWhile isTrail).take (trailLength lead - 1)

/-- What comes out for a first byte that is not ASCII and the bytes that continue it. -/
def replaced (lead : UInt8) (trail : List UInt8) : List UInt8 :=
  if trailLength lead ≠ 0 ∧ trail.length = trailLength lead then lead :: trail
  else [0xef, 0xbf, 0xbd]

/-- `bytes.decode("utf8", "replace").encode()`. -/
def recode : List UInt8 → List UInt8
  | [] => []
  | lead :: rest =>
    if lead < 0x80 then lead :: recode rest
    else replaced lead (trail lead rest) ++ recode (rest.drop (trail lead rest).length)
termination_by bytes => bytes.length
decreasing_by
  all_goals simp only [List.length_cons, List.length_drop]
  all_goals omega

@[simp] theorem recode_nil : recode [] = [] := by rw [recode]

theorem recode_ascii {b : UInt8} (h : b < 0x80) (rest : List UInt8) :
    recode (b :: rest) = b :: recode rest := by
  rw [recode, if_pos h]

theorem recode_lead {lead : UInt8} (h : ¬lead < 0x80) (rest : List UInt8) :
    recode (lead :: rest) =
      replaced lead (trail lead rest) ++ recode (rest.drop (trail lead rest).length) := by
  rw [recode, if_neg h]

example : recode [0x41, 0xe2, 0x82, 0x42, 0xc3, 0xa9, 0xff] =
    [0x41, 0xef, 0xbf, 0xbd, 0x42, 0xc3, 0xa9, 0xef, 0xbf, 0xbd] := by decide +kernel

/-! ### ASCII -/

theorem isTrail_ascii {b : UInt8} (h : b < 0x80) : isTrail b = false := by
  simp [isTrail, UInt8.not_le.mpr h]

theorem isSecond_high {lead b : UInt8} (h : isSecond lead b = true) : ¬b < 0x80 := by
  simp only [isSecond, Bool.and_eq_true, decide_eq_true_eq] at h
  have hLow : (0x80 : UInt8) ≤ if lead = 0xe0 then 0xa0 else if lead = 0xf0 then 0x90 else 0x80 := by
    split
    · decide
    · split <;> decide
  exact UInt8.not_lt.mpr (UInt8.le_trans hLow h.1)

theorem trail_start (lead : UInt8) (rest : List UInt8) : trail lead rest <+: rest := by
  cases rest with
  | nil => exact List.nil_prefix
  | cons b rest =>
    rw [trail]
    split
    · exact List.nil_prefix
    · exact (List.prefix_cons_inj b).mpr ((List.take_prefix _ _).trans (List.takeWhile_prefix _))

theorem trail_high (lead : UInt8) (rest : List UInt8) : ∀ b ∈ trail lead rest, ¬b < 0x80 := by
  cases rest with
  | nil => nofun
  | cons first rest =>
    rw [trail]
    split
    · nofun
    · next hSecond =>
      simp only [not_or, Bool.not_eq_false] at hSecond
      intro b hb
      rcases List.mem_cons.mp hb with rfl | hb
      · exact isSecond_high hSecond.2
      · intro hAscii
        have hTrail := List.mem_takeWhile_imp (List.mem_of_mem_take hb)
        rw [isTrail_ascii hAscii] at hTrail
        cases hTrail

/-- A character ends before an ASCII byte. -/
theorem trail_append {lead b : UInt8} (h : b < 0x80) (text rest : List UInt8) :
    trail lead (text ++ b :: rest) = trail lead text := by
  cases text with
  | nil =>
    have hSecond : isSecond lead b = false := by
      by_contra hSecond
      exact isSecond_high (Bool.not_eq_false _ ▸ hSecond) h
    exact if_pos (.inr hSecond)
  | cons first text =>
    have hWhile : (text ++ b :: rest).takeWhile isTrail = text.takeWhile isTrail := by
      rw [List.takeWhile_append]
      split
      · next hAll =>
        rw [List.takeWhile_cons_of_neg (by rw [isTrail_ascii h]; nofun), List.append_nil]
        exact ((List.takeWhile_prefix _).eq_of_length hAll).symm
      · rfl
    rw [List.cons_append, trail, trail, hWhile]

theorem replaced_ne_nil (lead : UInt8) (rest : List UInt8) : replaced lead rest ≠ [] := by
  unfold replaced
  split <;> nofun

theorem replaced_high {lead : UInt8} (h : ¬lead < 0x80) (rest : List UInt8) :
    ∀ b ∈ replaced lead (trail lead rest), ¬b < 0x80 := by
  unfold replaced
  split
  · exact List.forall_mem_cons.mpr ⟨h, trail_high lead rest⟩
  · exact List.all_iff_forall_prop.mp (by decide)

theorem recode_append {b : UInt8} (h : b < 0x80) (text rest : List UInt8) :
    recode (text ++ b :: rest) = recode text ++ b :: recode rest := by
  induction hLength : text.length using Nat.strong_induction_on generalizing text with
  | h length ih =>
    subst hLength
    cases text with
    | nil => rw [recode_nil, List.nil_append, List.nil_append, recode_ascii h]
    | cons lead text =>
      rw [List.cons_append]
      by_cases hLead : lead < 0x80
      · rw [recode_ascii hLead, recode_ascii hLead, ih text.length (by simp) text rfl]
        rfl
      · have hTrail := (trail_start lead text).length_le
        rw [recode_lead hLead, recode_lead hLead, trail_append h, List.drop_append_of_le_length hTrail,
          ih _ _ (text.drop (trail lead text).length) rfl, List.append_assoc]
        simp only [List.length_drop, List.length_cons]
        omega

/-- A text of ASCII bytes. -/
def IsAscii (text : List UInt8) : Prop := ∀ b ∈ text, b < 0x80

@[simp] theorem isAscii_nil : IsAscii [] := nofun

@[simp] theorem isAscii_cons {b : UInt8} {text : List UInt8} :
    IsAscii (b :: text) ↔ b < 0x80 ∧ IsAscii text :=
  List.forall_mem_cons

@[simp] theorem isAscii_append {text text' : List UInt8} :
    IsAscii (text ++ text') ↔ IsAscii text ∧ IsAscii text' :=
  List.forall_mem_append

theorem recode_start {word : List UInt8} (h : IsAscii word) (rest : List UInt8) :
    recode (word ++ rest) = word ++ recode rest := by
  induction word with
  | nil => rfl
  | cons b word ih =>
    obtain ⟨hb, hWord⟩ := List.forall_mem_cons.mp h
    rw [List.cons_append, recode_ascii hb, ih hWord]
    rfl

theorem recode_word {word : List UInt8} (h : IsAscii word) (hNonempty : word ≠ [])
    (text rest : List UInt8) :
    recode (text ++ (word ++ rest)) = recode text ++ (word ++ recode rest) := by
  cases word with
  | nil => exact absurd rfl hNonempty
  | cons b word =>
    obtain ⟨hb, hWord⟩ := List.forall_mem_cons.mp h
    rw [List.cons_append, recode_append hb, recode_start hWord]
    rfl

/-- An ASCII byte that comes out is one that went in. -/
theorem recode_split {b : UInt8} (h : b < 0x80) {text pre' rest' : List UInt8}
    (hText : recode text = pre' ++ b :: rest') :
    ∃ pre rest, text = pre ++ b :: rest ∧ recode pre = pre' ∧ recode rest = rest' := by
  induction hLength : text.length using Nat.strong_induction_on generalizing text pre' with
  | h length ih =>
    subst hLength
    cases text with
    | nil => simp at hText
    | cons lead text =>
      by_cases hLead : lead < 0x80
      · rw [recode_ascii hLead] at hText
        cases pre' with
        | nil =>
          obtain ⟨rfl, rfl⟩ := List.cons.inj hText
          exact ⟨[], text, rfl, recode_nil, rfl⟩
        | cons first pre' =>
          obtain ⟨rfl, hTail⟩ := List.cons.inj hText
          obtain ⟨pre, rest, rfl, rfl, hRest⟩ := ih text.length (by simp) hTail rfl
          exact ⟨lead :: pre, rest, rfl, recode_ascii hLead _, hRest⟩
      · rw [recode_lead hLead] at hText
        -- the byte is not among those that stand for the first character
        obtain ⟨tail, rfl, hTail⟩ : ∃ tail, pre' = replaced lead (trail lead text) ++ tail ∧
            recode (text.drop (trail lead text).length) = tail ++ b :: rest' := by
          rcases List.append_eq_append_iff.mp hText with ⟨tail, hPre, hTail⟩ | ⟨tail, hUnit, hTail⟩
          · exact ⟨tail, hPre, hTail⟩
          · cases tail with
            | nil => exact ⟨[], by simpa using hUnit.symm, hTail.symm⟩
            | cons first tail =>
              obtain ⟨rfl, -⟩ := List.cons.inj hTail
              have hMem : b ∈ replaced lead (trail lead text) := hUnit ▸ by simp
              exact absurd h (replaced_high hLead text b hMem)
        have hShorter : (text.drop (trail lead text).length).length < (lead :: text).length := by
          simp only [List.length_drop, List.length_cons]
          omega
        obtain ⟨pre, rest, hDrop, hPre, hRest⟩ := ih _ hShorter hTail rfl
        have hSplit := List.prefix_iff_eq_append.mp (trail_start lead text)
        rw [hDrop] at hSplit
        have hWhole : lead :: text = (lead :: (trail lead text ++ pre)) ++ b :: rest := by
          rw [List.cons_append, List.append_assoc, hSplit]
        refine ⟨lead :: (trail lead text ++ pre), rest, hWhole, ?_, hRest⟩
        have hRecoded : recode (lead :: (trail lead text ++ pre)) ++ b :: rest' =
            replaced lead (trail lead text) ++ tail ++ b :: rest' := by
          rw [← hText, ← recode_lead hLead, hWhole, recode_append h, hRest]
        exact List.append_cancel_right hRecoded

theorem recode_eq_nil {text : List UInt8} (h : recode text = []) : text = [] := by
  cases text with
  | nil => rfl
  | cons lead text =>
    by_cases hLead : lead < 0x80
    · rw [recode_ascii hLead] at h
      cases h
    · rw [recode_lead hLead] at h
      exact absurd (List.append_eq_nil_iff.mp h).1 (replaced_ne_nil _ _)

theorem recode_start_split {word : List UInt8} (h : IsAscii word) {text rest' : List UInt8}
    (hText : recode text = word ++ rest') : ∃ rest, text = word ++ rest ∧ recode rest = rest' := by
  induction word generalizing text with
  | nil => exact ⟨text, rfl, hText⟩
  | cons b word ih =>
    obtain ⟨hb, hWord⟩ := List.forall_mem_cons.mp h
    have hHead : recode text = [] ++ b :: (word ++ rest') := hText
    obtain ⟨pre, rest, rfl, hPre, hRest⟩ := recode_split hb hHead
    obtain rfl := recode_eq_nil hPre
    obtain ⟨tail, rfl, hTail⟩ := ih hWord hRest
    exact ⟨tail, rfl, hTail⟩

theorem recode_word_split {word : List UInt8} (h : IsAscii word) (hNonempty : word ≠ [])
    {text pre' rest' : List UInt8} (hText : recode text = pre' ++ (word ++ rest')) :
    ∃ pre rest, text = pre ++ (word ++ rest) ∧ recode pre = pre' ∧ recode rest = rest' := by
  cases word with
  | nil => exact absurd rfl hNonempty
  | cons b word =>
    obtain ⟨hb, hWord⟩ := List.forall_mem_cons.mp h
    obtain ⟨pre, tail, rfl, hPre, hTail⟩ := recode_split hb hText
    obtain ⟨rest, rfl, hRest⟩ := recode_start_split hWord hTail
    exact ⟨pre, rest, rfl, hPre, hRest⟩

end Esp32Fx.Lib
