import Esp32Fx.Lib.PyJsonFacts

/-! The bound on the depth of the reader plays no part: what is read with some bound is read with
every bound of at least the characters that it takes. -/

namespace Esp32Fx.Lib.PyJson

variable {α : Type} {text rest : List Char} {fuel : Nat}

/-- Something is read of the text, and with every bound that covers it the same. -/
def Enough (parse : Nat → List Char → Option (α × List Char)) (text : List Char)
    (r : α × List Char) : Prop :=
  r.2.length < text.length ∧ ∀ fuel, text.length ≤ fuel + r.2.length → parse fuel text = some r

theorem skip_le (text : List Char) : (skip text).length ≤ text.length :=
  (List.dropWhile_suffix _).length_le

theorem skip_cons_lt {c : Char} (h : skip text = c :: rest) : rest.length < text.length := by
  have hLength := skip_le text
  rw [h, List.length_cons] at hLength
  exact hLength

theorem scanString_lt {s : Str} (h : scanString text = some (s, rest)) :
    rest.length < text.length := by
  obtain ⟨used, rfl⟩ := scanString_quote h
  rw [List.length_append, List.length_cons]
  omega

theorem Splits.lt {used : List Char} (h : Splits text used rest) (hUsed : used ≠ []) :
    rest.length < text.length := by
  have hPositive := List.length_pos_iff.mpr hUsed
  rw [h.1, List.length_append]
  omega

/-- A bound that covers what is taken of a text that is not empty is positive. -/
theorem exists_fuel {rest : List Char} (hLess : rest.length < text.length)
    (hFuel : text.length ≤ fuel + rest.length) : ∃ k, fuel = k + 1 :=
  ⟨fuel - 1, by omega⟩

theorem value_enough {k : Nat}
    (hElements : ∀ text r, parseElements k text = some r → Enough parseElements text r)
    (hMembers : ∀ text r, parseMembers k text = some r → Enough parseMembers text r)
    {r : Value × List Char} (h : parseValue (k + 1) text = some r) :
    Enough parseValue text r := by
  cases text with
  | nil => cases h
  | cons c text =>
    rw [parseValue] at h
    split at h
    · next hQuote =>
      obtain ⟨scanned, hScan, rfl⟩ := Option.map_eq_some_iff.mp h
      have hLess := (scanString_lt hScan).trans (Nat.lt_succ_self _)
      refine ⟨hLess, fun fuel hFuel => ?_⟩
      obtain ⟨fuel, rfl⟩ := exists_fuel hLess hFuel
      rw [parseValue, if_pos hQuote, hScan]
      rfl
    · next hQuote =>
      split at h
      · next hBrace =>
        split at h
        · next inner hSkip =>
          obtain rfl := Option.some.inj h
          have hLess := (skip_cons_lt hSkip).trans (Nat.lt_succ_self _)
          refine ⟨hLess, fun fuel hFuel => ?_⟩
          obtain ⟨fuel, rfl⟩ := exists_fuel hLess hFuel
          rw [parseValue, if_neg hQuote, if_pos hBrace, hSkip]
          rfl
        · next inner hSkip =>
          obtain ⟨members, hRead, rfl⟩ := Option.map_eq_some_iff.mp h
          obtain ⟨hTaken, hAgain⟩ := hMembers _ _ hRead
          have hInner := skip_cons_lt hSkip
          have hLess := (hTaken.trans hInner).trans (Nat.lt_succ_self _)
          refine ⟨hLess, fun fuel hFuel => ?_⟩
          obtain ⟨fuel, rfl⟩ := exists_fuel hLess hFuel
          rw [List.length_cons] at hFuel
          rw [parseValue, if_neg hQuote, if_pos hBrace, hSkip]
          simp only [hAgain fuel (by dsimp only at hFuel; omega), Option.map_some]
        · cases h
      · next hBrace =>
        split at h
        · next hBracket =>
          split at h
          · next inner hSkip =>
            obtain rfl := Option.some.inj h
            have hLess := (skip_cons_lt hSkip).trans (Nat.lt_succ_self _)
            refine ⟨hLess, fun fuel hFuel => ?_⟩
            obtain ⟨fuel, rfl⟩ := exists_fuel hLess hFuel
            rw [parseValue, if_neg hQuote, if_neg hBrace, if_pos hBracket, hSkip]
            rfl
          · next hOpen =>
            obtain ⟨elements, hRead, rfl⟩ := Option.map_eq_some_iff.mp h
            obtain ⟨hTaken, hAgain⟩ := hElements _ _ hRead
            have hBlank := skip_le text
            have hLess := (hTaken.trans_le hBlank).trans (Nat.lt_succ_self _)
            refine ⟨hLess, fun fuel hFuel => ?_⟩
            obtain ⟨fuel, rfl⟩ := exists_fuel hLess hFuel
            rw [List.length_cons] at hFuel
            rw [parseValue, if_neg hQuote, if_neg hBrace, if_pos hBracket]
            split
            · next inner hSkip => exact absurd hSkip (hOpen inner)
            · rw [hAgain fuel (by dsimp only at hFuel; omega)]
              rfl
        · next hBracket =>
          split at h
          · next word hWord =>
            obtain rfl := Option.some.inj h
            obtain ⟨used, hSplits, hUsed⟩ := scanWord_splits hWord
            have hLess := hSplits.lt hUsed
            refine ⟨hLess, fun fuel hFuel => ?_⟩
            obtain ⟨fuel, rfl⟩ := exists_fuel hLess hFuel
            rw [parseValue, if_neg hQuote, if_neg hBrace, if_neg hBracket, hWord]
          · next hNone =>
            obtain ⟨number, hNumber, rfl⟩ := Option.map_eq_some_iff.mp h
            obtain ⟨hSplits, hUsed⟩ := scanNumber_splits hNumber
            have hLess := hSplits.lt hUsed
            refine ⟨hLess, fun fuel hFuel => ?_⟩
            obtain ⟨fuel, rfl⟩ := exists_fuel hLess hFuel
            rw [parseValue, if_neg hQuote, if_neg hBrace, if_neg hBracket, hNone, hNumber]
            rfl

theorem elements_enough {k : Nat}
    (hValue : ∀ text r, parseValue k text = some r → Enough parseValue text r)
    (hElements : ∀ text r, parseElements k text = some r → Enough parseElements text r)
    {r : List Value × List Char} (h : parseElements (k + 1) text = some r) :
    Enough parseElements text r := by
  rw [parseElements] at h
  split at h
  · cases h
  · next v middle hFirst =>
    obtain ⟨hLess, hAgain⟩ := hValue text _ hFirst
    split at h
    · next inner hSkip =>
      obtain rfl := Option.some.inj h
      have hInner := skip_cons_lt hSkip
      refine ⟨hInner.trans hLess, fun fuel hFuel => ?_⟩
      obtain ⟨fuel, rfl⟩ := exists_fuel (hInner.trans hLess) hFuel
      rw [parseElements, hAgain fuel (by dsimp only at hFuel ⊢; omega)]
      simp only [hSkip]
    · next inner hSkip =>
      obtain ⟨others, hRead, rfl⟩ := Option.map_eq_some_iff.mp h
      obtain ⟨hOthers, hAgainOthers⟩ := hElements _ _ hRead
      have hInner := skip_cons_lt hSkip
      have hBlank := skip_le inner
      have hAll : others.2.length < text.length :=
        (hOthers.trans_le hBlank).trans (hInner.trans hLess)
      refine ⟨hAll, fun fuel hFuel => ?_⟩
      obtain ⟨fuel, rfl⟩ := exists_fuel hAll hFuel
      rw [parseElements, hAgain fuel (by dsimp only at hFuel hLess ⊢; omega)]
      simp only [hSkip, hAgainOthers fuel (by dsimp only at hFuel hLess ⊢; omega), Option.map_some]
    · cases h

theorem members_enough {k : Nat}
    (hValue : ∀ text r, parseValue k text = some r → Enough parseValue text r)
    (hMembers : ∀ text r, parseMembers k text = some r → Enough parseMembers text r)
    {r : List (Str × Value) × List Char} (h : parseMembers (k + 1) text = some r) :
    Enough parseMembers text r := by
  rw [parseMembers] at h
  split at h
  · cases h
  · next key behindKey hScan =>
    have hKey := scanString_lt hScan
    split at h
    · next behindColon hColon =>
      have hBehindColon := skip_cons_lt hColon
      have hBlank := skip_le behindColon
      split at h
      · cases h
      · next v middle hFirst =>
        obtain ⟨hLess, hAgain⟩ := hValue _ _ hFirst
        dsimp only at hLess hAgain
        split at h
        · next inner hSkip =>
          obtain rfl := Option.some.inj h
          have hInner := skip_cons_lt hSkip
          have hAll : inner.length < text.length := by omega
          refine ⟨hAll, fun fuel hFuel => ?_⟩
          obtain ⟨fuel, rfl⟩ := exists_fuel hAll hFuel
          rw [parseMembers, hScan]
          simp only [hColon, hAgain fuel (by dsimp only at hFuel; omega), hSkip]
        · next behindComma hSkip =>
          have hBehindComma := skip_cons_lt hSkip
          split at h
          · next inner hQuote =>
            obtain ⟨others, hRead, rfl⟩ := Option.map_eq_some_iff.mp h
            obtain ⟨hOthers, hAgainOthers⟩ := hMembers _ _ hRead
            have hInner := skip_cons_lt hQuote
            have hAll : others.2.length < text.length := by omega
            refine ⟨hAll, fun fuel hFuel => ?_⟩
            obtain ⟨fuel, rfl⟩ := exists_fuel hAll hFuel
            rw [parseMembers, hScan]
            simp only [hColon, hAgain fuel (by dsimp only at hFuel; omega), hSkip, hQuote,
              hAgainOthers fuel (by dsimp only at hFuel; omega), Option.map_some]
          · cases h
        · cases h
    · cases h

theorem parse_enough (k : Nat) :
    (∀ text r, parseValue k text = some r → Enough parseValue text r) ∧
      (∀ text r, parseElements k text = some r → Enough parseElements text r) ∧
      ∀ text r, parseMembers k text = some r → Enough parseMembers text r := by
  induction k with
  | zero =>
    refine ⟨?_, ?_, ?_⟩
    · intro text r h
      cases h
    · intro text r h
      cases h
    · intro text r h
      cases h
  | succ k ih =>
    obtain ⟨hValue, hElements, hMembers⟩ := ih
    refine ⟨?_, ?_, ?_⟩
    · intro text r
      exact value_enough hElements hMembers
    · intro text r
      exact elements_enough hValue hElements
    · intro text r
      exact members_enough hValue hMembers

/-- A text has the value that is read of all of it, whatever the bound. -/
theorem loads_eq_some {v : Value} : loads text = some v ↔ text.head? ≠ some '\ufeff' ∧
    ∃ k rest, parseValue k (skip text) = some (v, rest) ∧ skip rest = [] := by
  rw [loads]
  constructor
  · intro h
    split at h
    · cases h
    · next hOrder =>
      refine ⟨hOrder, ?_⟩
      split at h
      · next read rest hParse =>
        split at h
        · next hEnd =>
          obtain rfl := Option.some.inj h
          exact ⟨_, rest, hParse, hEnd⟩
        · cases h
      · cases h
  · rintro ⟨hOrder, k, rest, hParse, hEnd⟩
    have hLength := skip_le text
    have hEnough := ((parse_enough k).1 _ _ hParse).2 (text.length + 1) (by omega)
    rw [if_neg hOrder, hEnough]
    exact if_pos hEnd

end Esp32Fx.Lib.PyJson
