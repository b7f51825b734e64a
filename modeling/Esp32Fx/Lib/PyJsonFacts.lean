import Mathlib.Data.Bool.AllAny
import Esp32Fx.Lib.PyJson

/-! What `loads` reads.  A property of texts that every token keeps is kept by the reader as a whole;
so a text whose quotes do not pair off has no value, and one in which a backslash stands before the
first quote has at most a value without strings. -/

namespace Esp32Fx.Lib.PyJson

variable {text rest : List Char} {P : List Char → Prop}

/-- What is left behind a token has the property that the text had from the token on. -/
structure Invariant (P : List Char → Prop) : Prop where
  /-- White space and punctuation, which are neither quotes nor backslashes. -/
  mark : ∀ c rest, c ≠ '"' → c ≠ '\\' → P (c :: rest) → P rest
  string : ∀ text s rest, scanString text = some (s, rest) → P ('"' :: text) → P rest

theorem Invariant.append (hP : Invariant P) {used : List Char}
    (hUsed : ∀ c ∈ used, c ≠ '"' ∧ c ≠ '\\') (h : P (used ++ rest)) : P rest := by
  induction used with
  | nil => exact h
  | cons c used ih =>
    have hFirst := hUsed c List.mem_cons_self
    apply ih (fun c h => hUsed c (List.mem_cons_of_mem _ h))
    exact hP.mark c _ hFirst.1 hFirst.2 h

/-! ### Tokens without quotes -/

/-- A part of the text that is neither quotes nor backslashes, and the rest. -/
def Splits (text used rest : List Char) : Prop :=
  text = used ++ rest ∧ ∀ c ∈ used, c ≠ '"' ∧ c ≠ '\\'

theorem skip_splits (text : List Char) : Splits text (text.takeWhile isSpace) (skip text) := by
  refine ⟨List.takeWhile_append_dropWhile.symm, fun c hMem => ?_⟩
  have hSpace := List.mem_takeWhile_imp hMem
  constructor
  · rintro rfl
    exact absurd hSpace (by decide)
  · rintro rfl
    exact absurd hSpace (by decide)

theorem isDigit_mark {c : Char} (h : isDigit c = true) : c ≠ '"' ∧ c ≠ '\\' := by
  constructor
  · rintro rfl
    exact absurd h (by decide)
  · rintro rfl
    exact absurd h (by decide)

/-- What a part of a number adds to what was read stands in the text and has no quotes. -/
def Extends (read rest : List Char) (r : List Char × List Char) : Prop :=
  ∃ used, r.1 = read ++ used ∧ Splits rest used r.2

theorem Extends.refl (read rest : List Char) : Extends read rest (read, rest) :=
  ⟨[], (List.append_nil _).symm, rfl, by simp⟩

theorem Extends.trans {read rest used rest' : List Char} {r : List Char × List Char}
    (hSplits : Splits rest used rest') (h : Extends (read ++ used) rest' r) :
    Extends read rest r := by
  obtain ⟨used', hRead, hText, hMarks⟩ := h
  refine ⟨used ++ used', by rw [hRead, List.append_assoc], ?_, ?_⟩
  · rw [hSplits.1, hText, List.append_assoc]
  · intro c hMem
    exact (List.mem_append.mp hMem).elim (hSplits.2 c) (hMarks c)

theorem minus_splits (text : List Char) :
    Splits text (minus text) (text.drop (minus text).length) := by
  rw [minus.eq_def]
  split
  · exact ⟨rfl, List.all_iff_forall_prop.mp (by decide)⟩
  · exact ⟨rfl, List.all_iff_forall_prop.mp (by decide)⟩

theorem exponentSign_splits (text : List Char) :
    Splits text (exponentSign text) (text.drop (exponentSign text).length) := by
  rw [exponentSign.eq_def]
  split
  · exact ⟨rfl, List.all_iff_forall_prop.mp (by decide)⟩
  · exact ⟨rfl, List.all_iff_forall_prop.mp (by decide)⟩
  · exact ⟨rfl, List.all_iff_forall_prop.mp (by decide)⟩

theorem digits_splits (text : List Char) :
    Splits text (text.takeWhile isDigit) (text.dropWhile isDigit) :=
  ⟨List.takeWhile_append_dropWhile.symm, fun _ hMem => isDigit_mark (List.mem_takeWhile_imp hMem)⟩

theorem Splits.cons {c : Char} {used : List Char} (hMark : c ≠ '"' ∧ c ≠ '\\')
    (h : Splits text used rest) : Splits (c :: text) (c :: used) rest :=
  ⟨congrArg (c :: ·) h.1, List.forall_mem_cons.mpr ⟨hMark, h.2⟩⟩

theorem Splits.append {used used' middle : List Char} (h : Splits text used middle)
    (h' : Splits middle used' rest) : Splits text (used ++ used') rest :=
  ⟨by rw [h.1, h'.1, List.append_assoc], List.forall_mem_append.mpr ⟨h.2, h'.2⟩⟩

theorem scanExponent_extends (read rest : List Char) :
    Extends read rest (scanExponent read rest) := by
  cases rest with
  | nil => exact Extends.refl _ _
  | cons e after =>
    rw [scanExponent]
    split
    · next h =>
      have hMark : e ≠ '"' ∧ e ≠ '\\' := by
        obtain rfl | rfl := h.1 <;> decide
      have hSplits := (exponentSign_splits after).append (digits_splits _)
      exact ⟨_, by simp, hSplits.cons hMark⟩
    · exact Extends.refl _ _

theorem scanFraction_extends (read rest : List Char) :
    Extends read rest (scanFraction read rest) := by
  cases rest with
  | nil => exact Extends.refl _ _
  | cons point after =>
    rw [scanFraction]
    split
    · next h =>
      have hMark : point ≠ '"' ∧ point ≠ '\\' := by
        rw [h.1]
        decide
      exact Extends.trans ((digits_splits after).cons hMark) (scanExponent_extends _ _)
    · exact scanExponent_extends _ _

theorem Extends.splits {used rest' : List Char} {r : List Char × List Char}
    (h : Extends used rest' r) (hSplits : Splits text used rest') : Splits text r.1 r.2 := by
  have hAll : Extends [] text r := Extends.trans hSplits h
  obtain ⟨used', hRead, hText⟩ := hAll
  rw [hRead, List.nil_append]
  exact hText

theorem Extends.ne_nil {read rest : List Char} {r : List Char × List Char}
    (h : Extends read rest r) (hRead : read ≠ []) : r.1 ≠ [] := by
  obtain ⟨used, hUsed, -⟩ := h
  rw [hUsed]
  exact List.append_ne_nil_of_left_ne_nil hRead _

theorem scanNumber_splits {literal : List Char} (h : scanNumber text = some (literal, rest)) :
    Splits text literal rest ∧ literal ≠ [] := by
  have hMinus := minus_splits text
  rw [scanNumber] at h
  cases hRest : text.drop (minus text).length with
  | nil =>
    rw [hRest] at h
    cases h
  | cons c after =>
    rw [hRest] at h hMinus
    have hScan : ∃ used rest', Splits (c :: after) (c :: used) rest' ∧
        scanFraction (minus text ++ c :: used) rest' = (literal, rest) := by
      dsimp only at h
      split at h
      · next hZero =>
        have hMark : c ≠ '"' ∧ c ≠ '\\' := by
          rw [hZero]
          decide
        exact ⟨[], after, ⟨rfl, by simpa using hMark⟩, Option.some.inj h⟩
      · split at h
        · next hDigit =>
          exact ⟨_, _, (digits_splits after).cons (isDigit_mark hDigit), Option.some.inj h⟩
        · cases h
    obtain ⟨used, rest', hSplits, hRead⟩ := hScan
    have hExtends := scanFraction_extends (minus text ++ c :: used) rest'
    rw [hRead] at hExtends
    exact ⟨hExtends.splits (hMinus.append hSplits), hExtends.ne_nil (by simp)⟩

theorem scanWord_splits {v : Value} (h : scanWord text = some (v, rest)) :
    ∃ used, Splits text used rest ∧ used ≠ [] := by
  have hWords : ∀ w ∈ words, (∀ c ∈ w.1, c ≠ '"' ∧ c ≠ '\\') ∧ w.1 ≠ [] := by
    simp [words]
  obtain ⟨w, hFind, hRest⟩ := Option.map_eq_some_iff.mp h
  obtain ⟨hMarks, hNonempty⟩ := hWords w (List.mem_of_find?_eq_some hFind)
  have hStarts : w.1.isPrefixOf text = true := by simpa using List.find?_some hFind
  obtain ⟨rest', hText⟩ := List.isPrefixOf_iff_prefix.mp hStarts
  refine ⟨w.1, ⟨?_, hMarks⟩, hNonempty⟩
  rw [← (Prod.mk.inj hRest).2, ← hText, List.drop_left]

/-! ### The reader -/

theorem Invariant.splits (hP : Invariant P) {used : List Char} (hSplits : Splits text used rest)
    (h : P text) : P rest := by
  rw [hSplits.1] at h
  exact hP.append hSplits.2 h

theorem Invariant.skip (hP : Invariant P) (h : P text) : P (skip text) :=
  hP.splits (skip_splits text) h

/-- Behind white space and a mark the property holds still. -/
theorem Invariant.behind (hP : Invariant P) {c : Char} (hSkip : PyJson.skip text = c :: rest)
    (hMark : c ≠ '"' ∧ c ≠ '\\') (h : P text) : P rest := by
  have hHere := hP.skip h
  rw [hSkip] at hHere
  exact hP.mark c rest hMark.1 hMark.2 hHere

variable {fuel : Nat}

theorem value_invariant (hP : Invariant P)
    (hElements : ∀ text vs rest, parseElements fuel text = some (vs, rest) → P text → P rest)
    (hMembers : ∀ text ms rest, parseMembers fuel text = some (ms, rest) → P ('"' :: text) → P rest)
    {v : Value} (h : parseValue (fuel + 1) text = some (v, rest)) (hText : P text) : P rest := by
  cases text with
  | nil => cases h
  | cons c text =>
    rw [parseValue] at h
    split at h
    · next hQuote =>
      obtain ⟨r, hScan, hRest⟩ := Option.map_eq_some_iff.mp h
      rw [hQuote] at hText
      rw [← (Prod.mk.inj hRest).2]
      exact hP.string text r.1 r.2 hScan hText
    · next hQuote =>
      have hInside : c ≠ '\\' → P text := fun hMark => hP.mark c text hQuote hMark hText
      split at h
      · next hBrace =>
        have hObject := hInside (by rw [hBrace]; decide)
        split at h
        · next hSkip =>
          rw [← (Prod.mk.inj (Option.some.inj h)).2]
          exact hP.behind hSkip (by decide) hObject
        · next inner hSkip =>
          obtain ⟨r, hRead, hRest⟩ := Option.map_eq_some_iff.mp h
          rw [← (Prod.mk.inj hRest).2]
          exact hMembers inner r.1 r.2 hRead (hSkip ▸ hP.skip hObject)
        · cases h
      · split at h
        · next hBracket =>
          have hArray := hInside (by rw [hBracket]; decide)
          split at h
          · next hSkip =>
            rw [← (Prod.mk.inj (Option.some.inj h)).2]
            exact hP.behind hSkip (by decide) hArray
          · obtain ⟨r, hRead, hRest⟩ := Option.map_eq_some_iff.mp h
            rw [← (Prod.mk.inj hRest).2]
            exact hElements _ r.1 r.2 hRead (hP.skip hArray)
        · split at h
          · next r hWord =>
            obtain ⟨used, hSplits, -⟩ := scanWord_splits hWord
            rw [Option.some.inj h] at hSplits
            exact hP.splits hSplits hText
          · obtain ⟨r, hNumber, hRest⟩ := Option.map_eq_some_iff.mp h
            rw [← (Prod.mk.inj hRest).2]
            exact hP.splits (scanNumber_splits hNumber).1 hText

theorem elements_invariant (hP : Invariant P)
    (hValue : ∀ text v rest, parseValue fuel text = some (v, rest) → P text → P rest)
    (hElements : ∀ text vs rest, parseElements fuel text = some (vs, rest) → P text → P rest)
    {vs : List Value} (h : parseElements (fuel + 1) text = some (vs, rest)) (hText : P text) :
    P rest := by
  rw [parseElements] at h
  split at h
  · cases h
  · next v middle hFirst =>
    have hMiddle := hValue text v middle hFirst hText
    split at h
    · next hSkip =>
      rw [← (Prod.mk.inj (Option.some.inj h)).2]
      exact hP.behind hSkip (by decide) hMiddle
    · next inner hSkip =>
      obtain ⟨r, hRead, hRest⟩ := Option.map_eq_some_iff.mp h
      rw [← (Prod.mk.inj hRest).2]
      exact hElements _ r.1 r.2 hRead (hP.skip (hP.behind hSkip (by decide) hMiddle))
    · cases h

theorem members_invariant (hP : Invariant P)
    (hValue : ∀ text v rest, parseValue fuel text = some (v, rest) → P text → P rest)
    (hMembers : ∀ text ms rest, parseMembers fuel text = some (ms, rest) → P ('"' :: text) → P rest)
    {ms : List (Str × Value)} (h : parseMembers (fuel + 1) text = some (ms, rest))
    (hText : P ('"' :: text)) : P rest := by
  rw [parseMembers] at h
  split at h
  · cases h
  · next key behindKey hScan =>
    have hKey := hP.string text key behindKey hScan hText
    split at h
    · next inner hSkip =>
      have hColon := hP.skip (hP.behind hSkip (by decide) hKey)
      split at h
      · cases h
      · next v middle hFirst =>
        have hMiddle := hValue _ v middle hFirst hColon
        split at h
        · next hSkip =>
          rw [← (Prod.mk.inj (Option.some.inj h)).2]
          exact hP.behind hSkip (by decide) hMiddle
        · next behind hSkip =>
          have hComma := hP.behind hSkip (by decide) hMiddle
          split at h
          · next inner hQuote =>
            obtain ⟨r, hRead, hRest⟩ := Option.map_eq_some_iff.mp h
            rw [← (Prod.mk.inj hRest).2]
            exact hMembers _ r.1 r.2 hRead (hQuote ▸ hP.skip hComma)
          · cases h
        · cases h
    · cases h

/-- What a value, elements or members leave has the property that the text had. -/
theorem parse_invariant (hP : Invariant P) (fuel : Nat) :
    (∀ text v rest, parseValue fuel text = some (v, rest) → P text → P rest) ∧
      (∀ text vs rest, parseElements fuel text = some (vs, rest) → P text → P rest) ∧
      ∀ text ms rest, parseMembers fuel text = some (ms, rest) → P ('"' :: text) → P rest := by
  induction fuel with
  | zero =>
    refine ⟨?_, ?_, ?_⟩
    · intro text v rest h
      cases h
    · intro text vs rest h
      cases h
    · intro text ms rest h
      cases h
  | succ fuel ih =>
    obtain ⟨hValue, hElements, hMembers⟩ := ih
    refine ⟨?_, ?_, ?_⟩
    · intro text v rest
      exact value_invariant hP hElements hMembers
    · intro text vs rest
      exact elements_invariant hP hValue hElements
    · intro text ms rest
      exact members_invariant hP hValue hMembers

/-- What `loads` has read of a text with the property, up to its end. -/
theorem loads_invariant (hP : Invariant P) {v : Value} (h : loads text = some v) (hText : P text) :
    P [] ∧ ∃ rest, parseValue (text.length + 1) (skip text) = some (v, rest) := by
  rw [loads] at h
  split at h
  · cases h
  · split at h
    · next v' rest hParse =>
      split at h
      · next hEnd =>
        obtain rfl := Option.some.inj h
        have hRest := (parse_invariant hP _).1 _ _ _ hParse (hP.skip hText)
        exact ⟨hEnd ▸ hP.skip hRest, rest, hParse⟩
      · cases h
    · cases h

/-! ### Quotes -/

/-- Where a character stands: outside the strings, in one, or behind a backslash in one. -/
inductive Quoting
  | outside
  | inside
  | escaped
  deriving DecidableEq, Repr

def Quoting.next : Quoting → Char → Quoting
  | .outside, c => if c = '"' then .inside else .outside
  | .inside, c => if c = '"' then .outside else if c = '\\' then .escaped else .inside
  | .escaped, _ => .inside

/-- Where a text ends. -/
def quoting (text : List Char) : Quoting := text.foldl Quoting.next .outside

theorem next_hex {c : Char} {n : Nat} (h : hexValue c = some n) :
    Quoting.inside.next c = .inside := by
  have hQuote : c ≠ '"' := by
    rintro rfl
    cases h
  have hBackslash : c ≠ '\\' := by
    rintro rfl
    cases h
  simp [Quoting.next, hQuote, hBackslash]

theorem next_hexUnit {a b c d : Char} {n : Nat} (h : hexUnit a b c d = some n)
    (rest : List Char) : (a :: b :: c :: d :: rest).foldl Quoting.next .inside =
      rest.foldl Quoting.next .inside := by
  rw [hexUnit] at h
  split at h
  · next ha hb hc hd =>
    simp only [List.foldl_cons, next_hex ha, next_hex hb, next_hex hc, next_hex hd]
  · cases h

theorem units_cons {scanned : Option (List Nat × List Char)} {unit : Nat} {units : List Nat}
    (h : scanned.map (fun r => (unit :: r.1, r.2)) = some (units, rest)) :
    ∃ units', scanned = some (units', rest) := by
  obtain ⟨r, hScan, hRest⟩ := Option.map_eq_some_iff.mp h
  exact ⟨r.1, by rw [hScan, ← (Prod.mk.inj hRest).2]⟩

theorem scanUnits_quoting {units : List Nat} (h : scanUnits text = some (units, rest)) :
    text.foldl Quoting.next .inside = rest.foldl Quoting.next .outside := by
  fun_induction scanUnits text generalizing units with
  | case1 => cases h
  | case2 text =>
    obtain ⟨-, rfl⟩ := Prod.mk.inj (Option.some.inj h)
    rfl
  | case3 _ _ _ _ text unit hUnit ih =>
    obtain ⟨units', hScan⟩ := units_cons h
    exact (next_hexUnit hUnit text).trans (ih hScan)
  | case4 => cases h
  | case5 e text _ unit _ ih =>
    obtain ⟨units', hScan⟩ := units_cons h
    exact ih hScan
  | case6 => cases h
  | case7 => cases h
  | case8 c text hQuote _ _ hMark ih =>
    obtain ⟨units', hScan⟩ := units_cons h
    rw [not_or] at hMark
    rw [← ih hScan, List.foldl_cons, Quoting.next, if_neg hQuote, if_neg hMark.1]

/-- A string goes on to a quote. -/
theorem scanUnits_quote {units : List Nat} (h : scanUnits text = some (units, rest)) :
    ∃ used, text = used ++ '"' :: rest := by
  fun_induction scanUnits text generalizing units with
  | case1 => cases h
  | case2 text =>
    obtain ⟨-, rfl⟩ := Prod.mk.inj (Option.some.inj h)
    exact ⟨[], rfl⟩
  | case3 a b c d text unit hUnit ih =>
    obtain ⟨units', hScan⟩ := units_cons h
    obtain ⟨used, rfl⟩ := ih hScan
    exact ⟨'\\' :: 'u' :: a :: b :: c :: d :: used, rfl⟩
  | case4 => cases h
  | case5 e text _ unit _ ih =>
    obtain ⟨units', hScan⟩ := units_cons h
    obtain ⟨used, rfl⟩ := ih hScan
    exact ⟨'\\' :: e :: used, rfl⟩
  | case6 => cases h
  | case7 => cases h
  | case8 c text hQuote _ _ hMark ih =>
    obtain ⟨units', hScan⟩ := units_cons h
    obtain ⟨used, rfl⟩ := ih hScan
    exact ⟨c :: used, rfl⟩

theorem scanString_units {s : Str} (h : scanString text = some (s, rest)) :
    ∃ units, scanUnits text = some (units, rest) := by
  obtain ⟨r, hScan, hRest⟩ := Option.map_eq_some_iff.mp h
  exact ⟨r.1, by rw [hScan, ← (Prod.mk.inj hRest).2]⟩

theorem scanString_quote {s : Str} (h : scanString text = some (s, rest)) :
    ∃ used, text = used ++ '"' :: rest := by
  obtain ⟨units, hUnits⟩ := scanString_units h
  exact scanUnits_quote hUnits

theorem quoting_invariant (q : Quoting) :
    Invariant fun text => text.foldl Quoting.next .outside = q where
  mark c rest hQuote _ h := by
    rwa [List.foldl_cons, Quoting.next, if_neg hQuote] at h
  string text s rest hScan h := by
    obtain ⟨units, hUnits⟩ := scanString_units hScan
    rw [← scanUnits_quoting hUnits, ← h]
    rfl

/-- A text with a value ends outside the strings. -/
theorem loads_quoting {v : Value} (h : loads text = some v) : quoting text = .outside :=
  (loads_invariant (quoting_invariant (quoting text)) h rfl).1.symm

/-- Every quote with no backslash before is the last one. -/
def Stringless (text : List Char) : Prop :=
  ∀ before after, text = before ++ '"' :: after → '\\' ∉ before → '"' ∉ after

theorem stringless_invariant : Invariant Stringless where
  mark c rest _ hMark h before after hText hBefore := by
    apply h (c :: before) after (by rw [hText, List.cons_append])
    rw [List.mem_cons, not_or]
    exact ⟨fun hSame => hMark hSame.symm, hBefore⟩
  string text s rest hScan h := by
    obtain ⟨used, rfl⟩ := scanString_quote hScan
    exact absurd (by simp) (h [] _ rfl List.not_mem_nil)

theorem parseMembers_quote {members : List (Str × Value)}
    (h : parseMembers fuel text = some (members, rest)) : '"' ∈ text := by
  cases fuel with
  | zero => cases h
  | succ fuel =>
    rw [parseMembers] at h
    split at h
    · cases h
    · next key behindKey hScan =>
      obtain ⟨used, rfl⟩ := scanString_quote hScan
      simp

theorem scanWord_object {members : List (Str × Value)} :
    scanWord text ≠ some (.object members, rest) := by
  have hWords : ∀ w ∈ words, w.2 ≠ .object members := by simp [words]
  intro h
  obtain ⟨w, hFind, hRest⟩ := Option.map_eq_some_iff.mp h
  exact hWords w (List.mem_of_find?_eq_some hFind) (Prod.mk.inj hRest).1

/-- In such a text `loads` reads no object with members. -/
theorem loads_stringless {members : List (Str × Value)} (h : loads text = some (.object members))
    (hText : Stringless text) : members = [] := by
  obtain ⟨-, rest, hParse⟩ := loads_invariant stringless_invariant h hText
  have hHere := stringless_invariant.skip hText
  cases hSkip : skip text with
  | nil =>
    rw [hSkip] at hParse
    cases hParse
  | cons c inside =>
    rw [hSkip] at hParse hHere
    rw [parseValue] at hParse
    split at hParse
    · obtain ⟨r, -, hRest⟩ := Option.map_eq_some_iff.mp hParse
      cases hRest
    · next hQuote =>
      split at hParse
      · next hBrace =>
        split at hParse
        · obtain ⟨hMembers, -⟩ := Prod.mk.inj (Option.some.inj hParse)
          cases hMembers
          rfl
        · next inner hInner =>
          obtain ⟨r, hRead, -⟩ := Option.map_eq_some_iff.mp hParse
          have hObject := stringless_invariant.skip
            (stringless_invariant.mark c inside hQuote (by rw [hBrace]; decide) hHere)
          rw [hInner] at hObject
          exact absurd (parseMembers_quote hRead)
            (hObject [] inner rfl List.not_mem_nil)
        · cases hParse
      · split at hParse
        · split at hParse
          · cases hParse
          · obtain ⟨r, -, hRest⟩ := Option.map_eq_some_iff.mp hParse
            cases hRest
        · split at hParse
          · next hWord =>
            exact absurd (hWord.trans hParse) scanWord_object
          · obtain ⟨r, -, hRest⟩ := Option.map_eq_some_iff.mp hParse
            cases hRest

end Esp32Fx.Lib.PyJson
