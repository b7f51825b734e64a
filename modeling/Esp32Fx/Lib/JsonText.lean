import Esp32Fx.Lib.Json

/-! The grammar of JSON is unambiguous: what a text begins with is one value at most, where nothing
behind the value could continue a number. -/

namespace Esp32Fx.Lib.Json

variable {p p' q q' : List UInt8}

/-- Two splits of a text behind all the bytes of one kind are the same split. -/
theorem run_append_inj {kind : UInt8 → Bool} {xs ys : List UInt8} (hXs : ∀ b ∈ xs, kind b = true)
    (hYs : ∀ b ∈ ys, kind b = true) (hP : ∀ b ∈ p.head?, kind b = false)
    (hP' : ∀ b ∈ p'.head?, kind b = false) (h : xs ++ p = ys ++ p') : xs = ys ∧ p = p' := by
  have hEmpty : ∀ {p : List UInt8}, (∀ b ∈ p.head?, kind b = false) → p.takeWhile kind = [] := by
    intro p hP
    cases p with
    | nil => rfl
    | cons b p => exact List.takeWhile_cons_of_neg (by simp [hP b rfl])
  have hTake := congrArg (List.takeWhile kind) h
  rw [List.takeWhile_append_of_pos hXs, List.takeWhile_append_of_pos hYs, hEmpty hP, hEmpty hP',
    List.append_nil, List.append_nil] at hTake
  subst hTake
  exact ⟨rfl, List.append_cancel_left h⟩

/-! ### White space -/

def isWhite (b : UInt8) : Bool := b = 0x20 ∨ b = 0x09 ∨ b = 0x0a ∨ b = 0x0d

/-- The text does not begin with white space. -/
def Solid (p : List UInt8) : Prop := ∀ b ∈ p.head?, isWhite b = false

theorem solid_cons {b : UInt8} (h : isWhite b = false) : Solid (b :: p) := by
  rintro _ ⟨⟩
  exact h

theorem space_append_inj {w w' : Space} (hP : Solid p) (hP' : Solid p')
    (h : w.bytes ++ p = w'.bytes ++ p') : w = w' ∧ p = p' := by
  obtain ⟨bytes, hBlank⟩ := w
  obtain ⟨bytes', hBlank'⟩ := w'
  obtain ⟨rfl, hRest⟩ := run_append_inj (fun b hb => decide_eq_true (hBlank b hb))
    (fun b hb => decide_eq_true (hBlank' b hb)) hP hP' h
  exact ⟨rfl, hRest⟩

/-! ### Strings -/

theorem hexDigit_eq {d d' : HexDigit} (h : d.byte = d'.byte) : d = d' := by
  obtain ⟨byte, value, hSpells⟩ := d
  obtain ⟨byte', value', hSpells'⟩ := d'
  cases h
  cases hSpells.symm.trans hSpells'
  rfl

/-- No item is the beginning of another one. -/
theorem item_append_inj {i i' : Item} (h : i.text ++ p = i'.text ++ p') : i = i' ∧ p = p' := by
  cases i with
  | plain b hPlain =>
    cases i' with
    | plain b' hPlain' =>
      cases h
      exact ⟨rfl, rfl⟩
    | escape e' => exact absurd (List.cons.inj h).1 hPlain.2.2
    | unicode => exact absurd (List.cons.inj h).1 hPlain.2.2
  | escape e =>
    cases i' with
    | plain b' hPlain' => exact absurd (List.cons.inj h).1.symm hPlain'.2.2
    | escape e' =>
      obtain ⟨hLetter, hRest⟩ := List.cons.inj (List.cons.inj h).2
      have hSame : e = e' := by cases e <;> cases e' <;> first | rfl | cases hLetter
      exact ⟨congrArg Item.escape hSame, hRest⟩
    | unicode =>
      have hLetter := (List.cons.inj (List.cons.inj h).2).1
      cases e <;> cases hLetter
  | unicode d₁ d₂ d₃ d₄ =>
    cases i' with
    | plain b' hPlain' => exact absurd (List.cons.inj h).1.symm hPlain'.2.2
    | escape e' =>
      have hLetter := (List.cons.inj (List.cons.inj h).2).1
      cases e' <;> cases hLetter
    | unicode d₁' d₂' d₃' d₄' =>
      simp only [Item.text, List.cons_append, List.nil_append, List.cons.injEq, true_and] at h
      obtain ⟨h₁, h₂, h₃, h₄, hRest⟩ := h
      rw [hexDigit_eq h₁, hexDigit_eq h₂, hexDigit_eq h₃, hexDigit_eq h₄]
      exact ⟨rfl, hRest⟩

theorem item_ne_quote (i : Item) : i.text ++ p ≠ 0x22 :: p' := by
  intro h
  cases i with
  | plain b hPlain => exact hPlain.2.1 (List.cons.inj h).1
  | escape e => cases (List.cons.inj h).1
  | unicode => cases (List.cons.inj h).1

/-- A string ends at its closing quote. -/
theorem literal_append_inj {l l' : Literal} (h : l.text ++ p = l'.text ++ p') :
    l = l' ∧ p = p' := by
  have hItems : l.flatMap Item.text ++ 0x22 :: p = l'.flatMap Item.text ++ 0x22 :: p' := by
    simpa [Literal.text] using h
  clear h
  induction l generalizing l' with
  | nil =>
    cases l' with
    | nil => exact ⟨rfl, (List.cons.inj hItems).2⟩
    | cons i' l' =>
      rw [List.flatMap_cons, List.append_assoc] at hItems
      exact absurd hItems.symm (item_ne_quote i')
  | cons i l ih =>
    rw [List.flatMap_cons, List.append_assoc] at hItems
    cases l' with
    | nil => exact absurd hItems (item_ne_quote i)
    | cons i' l' =>
      rw [List.flatMap_cons, List.append_assoc] at hItems
      obtain ⟨rfl, hInner⟩ := item_append_inj hItems
      obtain ⟨rfl, hRest⟩ := ih hInner
      exact ⟨rfl, hRest⟩

/-! ### Numbers -/

/-- A byte that may stand in a number behind its first digit. -/
def continuesNumber (b : UInt8) : Bool := isDigit b || b = 0x2e || b = 0x65 || b = 0x45

/-- The text does not continue a number. -/
def Ends (p : List UInt8) : Prop := ∀ b ∈ p.head?, continuesNumber b = false

theorem ends_cons {b : UInt8} (h : continuesNumber b = false) : Ends (b :: p) := by
  rintro _ ⟨⟩
  exact h

theorem ends_space (w : Space) (h : Ends p) : Ends (w.bytes ++ p) := by
  obtain ⟨bytes, hBlank⟩ := w
  cases bytes with
  | nil => exact h
  | cons b bytes =>
    apply ends_cons
    rcases hBlank b List.mem_cons_self with rfl | rfl | rfl | rfl <;> rfl

theorem Ends.notDigit (h : Ends p) : ∀ b ∈ p.head?, isDigit b = false := by
  intro b hb
  have hNot := h b hb
  simp only [continuesNumber, Bool.or_eq_false_iff] at hNot
  exact hNot.1.1.1

theorem digits_append_inj {d d' : Digits} (hP : ∀ b ∈ p.head?, isDigit b = false)
    (hP' : ∀ b ∈ p'.head?, isDigit b = false) (h : d.bytes ++ p = d'.bytes ++ p') :
    d = d' ∧ p = p' := by
  obtain ⟨bytes, _, hDigits⟩ := d
  obtain ⟨bytes', _, hDigits'⟩ := d'
  obtain ⟨rfl, hRest⟩ := run_append_inj hDigits hDigits' hP hP' h
  exact ⟨rfl, hRest⟩

theorem digits_ne_cons {d : Digits} {b : UInt8} (hb : isDigit b = false) : d.bytes ++ p ≠ b :: p' := by
  obtain ⟨bytes, hNonempty, hDigits⟩ := d
  intro h
  cases bytes with
  | nil => exact hNonempty rfl
  | cons first bytes =>
    have hDigit := hDigits first List.mem_cons_self
    rw [(List.cons.inj h).1, hb] at hDigit
    cases hDigit

/-- What a number has behind its integer part. -/
def fractionTail : Option Digits → List UInt8
  | none => []
  | some d => 0x2e :: d.bytes

def exponentTail : Option (Bool × Option Bool × Digits) → List UInt8
  | none => []
  | some e => Number.exponentText e

theorem tail_eq (n : Number) : n.tail = fractionTail n.fraction ++ exponentTail n.exponent := by
  rw [Number.tail]
  cases n.fraction <;> cases n.exponent <;> rfl

theorem exponentText_cons (e : Bool × Option Bool × Digits) :
    ∃ rest, Number.exponentText e = 0x45 :: rest ∨ Number.exponentText e = 0x65 :: rest := by
  obtain ⟨_ | _, sign, digits⟩ := e
  · exact ⟨_, .inr rfl⟩
  · exact ⟨_, .inl rfl⟩

theorem exponentText_append_inj {e e' : Bool × Option Bool × Digits} (hP : Ends p) (hP' : Ends p')
    (h : Number.exponentText e ++ p = Number.exponentText e' ++ p') : e = e' ∧ p = p' := by
  obtain ⟨upper, sign, digits⟩ := e
  obtain ⟨upper', sign', digits'⟩ := e'
  obtain ⟨hLetter, hRest⟩ := List.cons.inj h
  have hUpper : upper = upper' := by cases upper <;> cases upper' <;> first | rfl | cases hLetter
  have hSigned : sign = sign' ∧ digits.bytes ++ p = digits'.bytes ++ p' := by
    rcases sign with _ | _ | _ <;> rcases sign' with _ | _ | _
    · exact ⟨rfl, hRest⟩
    · exact absurd hRest (digits_ne_cons rfl)
    · exact absurd hRest (digits_ne_cons rfl)
    · exact absurd hRest.symm (digits_ne_cons rfl)
    · exact ⟨rfl, (List.cons.inj hRest).2⟩
    · cases (List.cons.inj hRest).1
    · exact absurd hRest.symm (digits_ne_cons rfl)
    · cases (List.cons.inj hRest).1
    · exact ⟨rfl, (List.cons.inj hRest).2⟩
  obtain ⟨rfl, hDigits⟩ := digits_append_inj hP.notDigit hP'.notDigit hSigned.2
  rw [hUpper, hSigned.1]
  exact ⟨rfl, hDigits⟩

/-- What is behind the fraction is no digit, and no other fraction. -/
theorem exponentTail_head (e : Option (Bool × Option Bool × Digits)) (hP : Ends p) :
    ∀ b ∈ (exponentTail e ++ p).head?, isDigit b = false ∧ b ≠ 0x2e := by
  intro b hb
  cases e with
  | none =>
    have hNot := hP b hb
    simp only [continuesNumber, Bool.or_eq_false_iff, decide_eq_false_iff_not] at hNot
    exact ⟨hNot.1.1.1, hNot.1.1.2⟩
  | some e =>
    obtain ⟨rest, hText | hText⟩ := exponentText_cons e
    · rw [exponentTail, hText] at hb
      cases hb
      decide
    · rw [exponentTail, hText] at hb
      cases hb
      decide

theorem exponentTail_append_inj {e e' : Option (Bool × Option Bool × Digits)} (hP : Ends p)
    (hP' : Ends p') (h : exponentTail e ++ p = exponentTail e' ++ p') : e = e' ∧ p = p' := by
  have hLetter : ∀ {p : List UInt8} (e : Bool × Option Bool × Digits) (q : List UInt8), Ends p →
      p ≠ Number.exponentText e ++ q := by
    rintro p e q hP rfl
    obtain ⟨rest, hText | hText⟩ := exponentText_cons e
    · rw [hText] at hP
      cases hP 0x45 rfl
    · rw [hText] at hP
      cases hP 0x65 rfl
  cases e with
  | none =>
    cases e' with
    | none => exact ⟨rfl, h⟩
    | some e' => exact absurd h (hLetter e' p' hP)
  | some e =>
    cases e' with
    | none => exact absurd h.symm (hLetter e p hP')
    | some e' =>
      obtain ⟨rfl, hRest⟩ := exponentText_append_inj hP hP' h
      exact ⟨rfl, hRest⟩

theorem tail_append_inj {f f' : Option Digits} {e e' : Option (Bool × Option Bool × Digits)}
    (hP : Ends p) (hP' : Ends p')
    (h : fractionTail f ++ (exponentTail e ++ p) = fractionTail f' ++ (exponentTail e' ++ p')) :
    f = f' ∧ e = e' ∧ p = p' := by
  cases f with
  | none =>
    cases f' with
    | none => exact ⟨rfl, exponentTail_append_inj hP hP' h⟩
    | some d' =>
      have hDot : exponentTail e ++ p = 0x2e :: (d'.bytes ++ (exponentTail e' ++ p')) := h
      exact absurd rfl (exponentTail_head e hP 0x2e (by rw [hDot]; rfl)).2
  | some d =>
    cases f' with
    | none =>
      have hDot : exponentTail e' ++ p' = 0x2e :: (d.bytes ++ (exponentTail e ++ p)) := h.symm
      exact absurd rfl (exponentTail_head e' hP' 0x2e (by rw [hDot]; rfl)).2
    | some d' =>
      obtain ⟨rfl, hRest⟩ := digits_append_inj (fun b hb => (exponentTail_head e hP b hb).1)
        (fun b hb => (exponentTail_head e' hP' b hb).1) (List.cons.inj h).2
      exact ⟨rfl, exponentTail_append_inj hP hP' hRest⟩

theorem tail_notDigit (n : Number) (hP : Ends p) :
    ∀ b ∈ (n.tail ++ p).head?, isDigit b = false := by
  intro b hb
  rw [tail_eq, List.append_assoc] at hb
  cases hFraction : n.fraction with
  | none =>
    rw [hFraction] at hb
    exact (exponentTail_head n.exponent hP b hb).1
  | some d =>
    rw [hFraction] at hb
    cases hb
    rfl

theorem number_append_inj {n n' : Number} (hP : Ends p) (hP' : Ends p')
    (h : n.text ++ p = n'.text ++ p') : n = n' ∧ p = p' := by
  have hSign : n.negative = n'.negative ∧
      n.whole.bytes ++ (n.tail ++ p) = n'.whole.bytes ++ (n'.tail ++ p') := by
    rw [Number.text, Number.text, List.append_assoc, List.append_assoc, List.append_assoc,
      List.append_assoc] at h
    cases hN : n.negative <;> cases hN' : n'.negative <;> rw [hN, hN'] at h
    · exact ⟨rfl, h⟩
    · exact absurd h (digits_ne_cons rfl)
    · exact absurd h.symm (digits_ne_cons rfl)
    · exact ⟨rfl, (List.cons.inj h).2⟩
  obtain ⟨hWhole, hTail⟩ := digits_append_inj (tail_notDigit n hP) (tail_notDigit n' hP') hSign.2
  rw [tail_eq, tail_eq, List.append_assoc, List.append_assoc] at hTail
  obtain ⟨hFraction, hExponent, hRest⟩ := tail_append_inj hP hP' hTail
  refine ⟨?_, hRest⟩
  obtain ⟨negative, whole, noLeadingZero, fraction, exponent⟩ := n
  obtain ⟨negative', whole', noLeadingZero', fraction', exponent'⟩ := n'
  obtain rfl : negative = negative' := hSign.1
  obtain rfl : whole = whole' := hWhole
  obtain rfl : fraction = fraction' := hFraction
  obtain rfl : exponent = exponent' := hExponent
  rfl

/-! ### Values -/

/-- What the first byte of a value says about it. -/
inductive Kind
  | word | number | string | array | object
  deriving DecidableEq

def Kind.ofByte (b : UInt8) : Kind :=
  if b = 0x22 then .string
  else if b = 0x5b then .array
  else if b = 0x7b then .object
  else if isDigit b || b = 0x2d then .number
  else .word

def Value.kind : Value → Kind
  | .word _ => .word
  | .number _ => .number
  | .string _ => .string
  | .emptyArray _ | .array _ => .array
  | .emptyObject _ | .object _ => .object

theorem isDigit_facts (b : UInt8) (h : isDigit b = true) :
    Kind.ofByte b = .number ∧ isWhite b = false ∧ b ≠ 0x5d ∧ b ≠ 0x7d := by
  have hRange : 0x30 ≤ b.toNat ∧ b.toNat ≤ 0x39 := by
    simpa [isDigit, UInt8.le_iff_toNat_le] using h
  have hNot : ∀ c : UInt8, c.toNat < 0x30 ∨ 0x39 < c.toNat → b ≠ c := by
    rintro c hc rfl
    omega
  refine ⟨?_, ?_, hNot 0x5d (by decide), hNot 0x7d (by decide)⟩
  · rw [Kind.ofByte, if_neg (hNot 0x22 (by decide)), if_neg (hNot 0x5b (by decide)),
      if_neg (hNot 0x7b (by decide)), h]
    rfl
  · rw [isWhite, decide_eq_false_iff_not]
    simp only [not_or]
    exact ⟨hNot 0x20 (by decide), hNot 0x09 (by decide), hNot 0x0a (by decide),
      hNot 0x0d (by decide)⟩

theorem number_text_cons (n : Number) : ∃ b rest, n.text = b :: rest ∧
    (isDigit b = true ∨ b = 0x2d) := by
  rw [Number.text]
  cases n.negative with
  | true => exact ⟨0x2d, _, rfl, .inr rfl⟩
  | false =>
    obtain ⟨bytes, hNonempty, hDigits⟩ := n.whole
    cases bytes with
    | nil => exact absurd rfl hNonempty
    | cons b bytes => exact ⟨b, _, rfl, .inl (hDigits b List.mem_cons_self)⟩

/-- A value begins with a byte that says its kind and is no white space and no closing bracket. -/
theorem value_text_cons (v : Value) : ∃ b rest, v.text = b :: rest ∧ Kind.ofByte b = v.kind ∧
    isWhite b = false ∧ b ≠ 0x5d ∧ b ≠ 0x7d := by
  have hQuote : Kind.ofByte 0x22 = .string ∧ isWhite 0x22 = false ∧
      (0x22 : UInt8) ≠ 0x5d ∧ (0x22 : UInt8) ≠ 0x7d := by decide
  have hArray : Kind.ofByte 0x5b = .array ∧ isWhite 0x5b = false ∧
      (0x5b : UInt8) ≠ 0x5d ∧ (0x5b : UInt8) ≠ 0x7d := by decide
  have hObject : Kind.ofByte 0x7b = .object ∧ isWhite 0x7b = false ∧
      (0x7b : UInt8) ≠ 0x5d ∧ (0x7b : UInt8) ≠ 0x7d := by decide
  have hMinus : Kind.ofByte 0x2d = .number ∧ isWhite 0x2d = false ∧
      (0x2d : UInt8) ≠ 0x5d ∧ (0x2d : UInt8) ≠ 0x7d := by decide
  cases v with
  | word w => cases w <;> exact ⟨_, _, rfl, by decide, by decide, by decide, by decide⟩
  | number n =>
    obtain ⟨b, rest, hText, hDigit | rfl⟩ := number_text_cons n
    · exact ⟨b, rest, by rw [Value.text, hText], isDigit_facts b hDigit⟩
    · exact ⟨_, rest, by rw [Value.text, hText], hMinus⟩
  | string l => exact ⟨_, _, rfl, hQuote⟩
  | emptyArray w => exact ⟨_, _, by rw [Value.text], hArray⟩
  | array es => exact ⟨_, _, by rw [Value.text], hArray⟩
  | emptyObject w => exact ⟨_, _, by rw [Value.text], hObject⟩
  | object ms => exact ⟨_, _, by rw [Value.text], hObject⟩

theorem value_solid (v : Value) : Solid (v.text ++ p) := by
  obtain ⟨b, rest, hText, -, hBlank, -⟩ := value_text_cons v
  rw [hText]
  exact solid_cons hBlank

theorem kind_eq {v v' : Value} (h : v.text ++ p = v'.text ++ p') : v.kind = v'.kind := by
  obtain ⟨b, rest, hText, hKind, -⟩ := value_text_cons v
  obtain ⟨b', rest', hText', hKind', -⟩ := value_text_cons v'
  rw [hText, hText'] at h
  rw [← hKind, ← hKind', (List.cons.inj h).1]

/-- What an array or an object begins with is not its end. -/
theorem space_value_ne {w w' : Space} {v : Value} {b : UInt8} (hEnd : b = 0x5d ∨ b = 0x7d) :
    w.bytes ++ b :: p ≠ w'.bytes ++ (v.text ++ p') := by
  intro h
  have hSolid : Solid (b :: p) := solid_cons (by rcases hEnd with rfl | rfl <;> decide)
  have hRest := (space_append_inj hSolid (value_solid v) h).2
  obtain ⟨first, rest, hText, -, -, hBracket, hBrace⟩ := value_text_cons v
  rw [hText] at hRest
  have hFirst := (List.cons.inj hRest).1
  rcases hEnd with rfl | rfl
  · exact hBracket hFirst.symm
  · exact hBrace hFirst.symm

theorem word_append_inj {w w' : Word} (h : w.text ++ p = w'.text ++ p') : w = w' ∧ p = p' := by
  cases w <;> cases w' <;> first
    | exact ⟨rfl, List.append_cancel_left h⟩
    | cases (List.cons.inj h).1

/-- What is behind a value and white space continues no number and is no white space. -/
structure Behind (p : List UInt8) : Prop where
  ends : Ends p
  solid : Solid p

theorem behind_cons {b : UInt8} (h : b = 0x2c ∨ b = 0x5d ∨ b = 0x7d) : Behind (b :: p) := by
  rcases h with rfl | rfl | rfl <;> exact ⟨ends_cons rfl, solid_cons rfl⟩

/-- `v` can be told from what is behind it. -/
def Value.Reads (v : Value) : Prop :=
  ∀ (v' : Value) (p p' : List UInt8), Ends p → Ends p' → v.text ++ p = v'.text ++ p' →
    v = v' ∧ p = p'

theorem element_append_inj {before before' after after' : Space} {v v' : Value} (hReads : v.Reads)
    (hP : Behind p) (hP' : Behind p')
    (h : before.bytes ++ (v.text ++ (after.bytes ++ p)) =
      before'.bytes ++ (v'.text ++ (after'.bytes ++ p'))) :
    before = before' ∧ v = v' ∧ after = after' ∧ p = p' := by
  obtain ⟨hBefore, hValue⟩ := space_append_inj (value_solid v) (value_solid v') h
  obtain ⟨hSame, hAfter⟩ :=
    hReads v' _ _ (ends_space after hP.ends) (ends_space after' hP'.ends) hValue
  obtain ⟨hSpace, hRest⟩ := space_append_inj hP.solid hP'.solid hAfter
  exact ⟨hBefore, hSame, hSpace, hRest⟩

theorem member_append_inj {before before' afterKey afterKey' beforeValue beforeValue' after after' :
    Space} {key key' : Literal} {v v' : Value} (hReads : v.Reads) (hP : Behind p) (hP' : Behind p')
    (h : before.bytes ++ (key.text ++ (afterKey.bytes ++ 0x3a :: (beforeValue.bytes ++
        (v.text ++ (after.bytes ++ p))))) =
      before'.bytes ++ (key'.text ++ (afterKey'.bytes ++ 0x3a :: (beforeValue'.bytes ++
        (v'.text ++ (after'.bytes ++ p')))))) :
    before = before' ∧ key = key' ∧ afterKey = afterKey' ∧ beforeValue = beforeValue' ∧ v = v' ∧
      after = after' ∧ p = p' := by
  obtain ⟨hBefore, hKey⟩ := space_append_inj (solid_cons rfl) (solid_cons rfl) h
  obtain ⟨hSame, hAfterKey⟩ := literal_append_inj hKey
  obtain ⟨hSpace, hColon⟩ := space_append_inj (solid_cons rfl) (solid_cons rfl) hAfterKey
  have hElement := element_append_inj hReads hP hP' (List.cons.inj hColon).2
  exact ⟨hBefore, hSame, hSpace, hElement⟩

theorem elements_ne_space (w : Space) (es : Elements) :
    w.bytes ++ 0x5d :: p ≠ es.text ++ 0x5d :: p' := by
  cases es <;> simp only [Elements.text, List.append_assoc] <;> exact space_value_ne (.inl rfl)

theorem members_ne_space (w : Space) (ms : Members) :
    w.bytes ++ 0x7d :: p ≠ ms.text ++ 0x7d :: p' := by
  cases ms with
  | last before key =>
    simp only [Members.text, List.append_assoc]
    exact space_value_ne (v := .string key) (.inr rfl)
  | more before key =>
    simp only [Members.text, List.append_assoc]
    exact space_value_ne (v := .string key) (.inr rfl)

theorem brackets_inj {b c : UInt8} {text text' : List UInt8}
    (h : b :: (text ++ [c]) ++ p = b :: (text' ++ [c]) ++ p') : text ++ c :: p = text' ++ c :: p' := by
  simpa using h

mutual

/-- A text begins with one value at most. -/
theorem value_append_inj : (v : Value) → v.Reads
  | .word w, v', p, p', hP, hP', h => by
    cases v' with
    | word w' =>
      obtain ⟨rfl, hRest⟩ := word_append_inj h
      exact ⟨rfl, hRest⟩
    | _ => cases kind_eq h
  | .number n, v', p, p', hP, hP', h => by
    cases v' with
    | number n' =>
      obtain ⟨rfl, hRest⟩ := number_append_inj hP hP' h
      exact ⟨rfl, hRest⟩
    | _ => cases kind_eq h
  | .string l, v', p, p', hP, hP', h => by
    cases v' with
    | string l' =>
      obtain ⟨rfl, hRest⟩ := literal_append_inj h
      exact ⟨rfl, hRest⟩
    | _ => cases kind_eq h
  | .emptyArray w, v', p, p', hP, hP', h => by
    cases v' with
    | emptyArray w' =>
      rw [Value.text, Value.text] at h
      obtain ⟨rfl, hRest⟩ := space_append_inj (solid_cons rfl) (solid_cons rfl) (brackets_inj h)
      exact ⟨rfl, (List.cons.inj hRest).2⟩
    | array es' =>
      rw [Value.text, Value.text] at h
      exact absurd (brackets_inj h) (elements_ne_space w es')
    | _ => cases kind_eq h
  | .array es, v', p, p', hP, hP', h => by
    cases v' with
    | emptyArray w' =>
      rw [Value.text, Value.text] at h
      exact absurd (brackets_inj h).symm (elements_ne_space w' es)
    | array es' =>
      rw [Value.text, Value.text] at h
      obtain ⟨rfl, hRest⟩ := elements_append_inj es es' (brackets_inj h)
      exact ⟨rfl, hRest⟩
    | _ => cases kind_eq h
  | .emptyObject w, v', p, p', hP, hP', h => by
    cases v' with
    | emptyObject w' =>
      rw [Value.text, Value.text] at h
      obtain ⟨rfl, hRest⟩ := space_append_inj (solid_cons rfl) (solid_cons rfl) (brackets_inj h)
      exact ⟨rfl, (List.cons.inj hRest).2⟩
    | object ms' =>
      rw [Value.text, Value.text] at h
      exact absurd (brackets_inj h) (members_ne_space w ms')
    | _ => cases kind_eq h
  | .object ms, v', p, p', hP, hP', h => by
    cases v' with
    | emptyObject w' =>
      rw [Value.text, Value.text] at h
      exact absurd (brackets_inj h).symm (members_ne_space w' ms)
    | object ms' =>
      rw [Value.text, Value.text] at h
      obtain ⟨rfl, hRest⟩ := members_append_inj ms ms' (brackets_inj h)
      exact ⟨rfl, hRest⟩
    | _ => cases kind_eq h

theorem elements_append_inj : (es es' : Elements) → {p p' : List UInt8} →
    es.text ++ 0x5d :: p = es'.text ++ 0x5d :: p' → es = es' ∧ p = p'
  | .last before v after, es', p, p', h => by
    cases es' with
    | last before' v' after' =>
      simp only [Elements.text, List.append_assoc] at h
      obtain ⟨rfl, rfl, rfl, hRest⟩ := element_append_inj (value_append_inj v)
        (behind_cons (.inr (.inl rfl))) (behind_cons (.inr (.inl rfl))) h
      exact ⟨rfl, (List.cons.inj hRest).2⟩
    | more before' v' after' rest' =>
      simp only [Elements.text, List.append_assoc, List.cons_append] at h
      obtain ⟨-, -, -, hRest⟩ := element_append_inj (value_append_inj v)
        (behind_cons (.inr (.inl rfl))) (behind_cons (.inl rfl)) h
      cases (List.cons.inj hRest).1
  | .more before v after rest, es', p, p', h => by
    cases es' with
    | last before' v' after' =>
      simp only [Elements.text, List.append_assoc, List.cons_append] at h
      obtain ⟨-, -, -, hRest⟩ := element_append_inj (value_append_inj v) (behind_cons (.inl rfl))
        (behind_cons (.inr (.inl rfl))) h
      cases (List.cons.inj hRest).1
    | more before' v' after' rest' =>
      simp only [Elements.text, List.append_assoc, List.cons_append] at h
      obtain ⟨rfl, rfl, rfl, hRest⟩ := element_append_inj (value_append_inj v)
        (behind_cons (.inl rfl)) (behind_cons (.inl rfl)) h
      obtain ⟨rfl, hEnd⟩ := elements_append_inj rest rest' (List.cons.inj hRest).2
      exact ⟨rfl, hEnd⟩

theorem members_append_inj : (ms ms' : Members) → {p p' : List UInt8} →
    ms.text ++ 0x7d :: p = ms'.text ++ 0x7d :: p' → ms = ms' ∧ p = p'
  | .last before key afterKey beforeValue v after, ms', p, p', h => by
    cases ms' with
    | last before' key' afterKey' beforeValue' v' after' =>
      simp only [Members.text, List.append_assoc, List.cons_append] at h
      obtain ⟨rfl, rfl, rfl, rfl, rfl, rfl, hRest⟩ := member_append_inj (value_append_inj v)
        (behind_cons (.inr (.inr rfl))) (behind_cons (.inr (.inr rfl))) h
      exact ⟨rfl, (List.cons.inj hRest).2⟩
    | more before' key' afterKey' beforeValue' v' after' rest' =>
      simp only [Members.text, List.append_assoc, List.cons_append] at h
      obtain ⟨-, -, -, -, -, -, hRest⟩ := member_append_inj (value_append_inj v)
        (behind_cons (.inr (.inr rfl))) (behind_cons (.inl rfl)) h
      cases (List.cons.inj hRest).1
  | .more before key afterKey beforeValue v after rest, ms', p, p', h => by
    cases ms' with
    | last before' key' afterKey' beforeValue' v' after' =>
      simp only [Members.text, List.append_assoc, List.cons_append] at h
      obtain ⟨-, -, -, -, -, -, hRest⟩ := member_append_inj (value_append_inj v)
        (behind_cons (.inl rfl)) (behind_cons (.inr (.inr rfl))) h
      cases (List.cons.inj hRest).1
    | more before' key' afterKey' beforeValue' v' after' rest' =>
      simp only [Members.text, List.append_assoc, List.cons_append] at h
      obtain ⟨rfl, rfl, rfl, rfl, rfl, rfl, hRest⟩ := member_append_inj (value_append_inj v)
        (behind_cons (.inl rfl)) (behind_cons (.inl rfl)) h
      obtain ⟨rfl, hEnd⟩ := members_append_inj rest rest' (List.cons.inj hRest).2
      exact ⟨rfl, hEnd⟩

end

/-- A text is that of one value at most, whatever the white space around it. -/
theorem document_unique {before before' after after' : Space} {v v' : Value}
    (h : before.bytes ++ v.text ++ after.bytes = before'.bytes ++ v'.text ++ after'.bytes) :
    v = v' := by
  have hNone : Behind [] := ⟨nofun, nofun⟩
  have hText : before.bytes ++ (v.text ++ (after.bytes ++ [])) =
      before'.bytes ++ (v'.text ++ (after'.bytes ++ [])) := by
    simpa only [List.append_nil, List.append_assoc] using h
  exact (element_append_inj (value_append_inj v) hNone hNone hText).2.1

end Esp32Fx.Lib.Json
