import Esp32Fx.Eink.Scan

/-! The two lookups on a line that holds one well-formed value: what `json_string_value` and
`json_integer_value` return for the first member, at any depth, that has the wanted key. -/

namespace Esp32Fx.Eink

open Lib Lib.Json

variable {wanted : List UInt8}

/-! ### What follows a member -/

/-- The first byte of a text, if there is one, is none that a value or a number goes on with. -/
def EndsValue (rest : List UInt8) : Prop := isDigit (peek rest) = false

theorem endsValue_space (w : Space) (rest : List UInt8) (h : EndsValue rest) :
    EndsValue (w.bytes ++ rest) := by
  rcases hBytes : w.bytes with _ | ⟨b, bs⟩
  · exact h
  · have hb : b ∈ w.bytes := by simp [hBytes]
    show isDigit b = false
    rcases w.blank b hb with rfl | rfl | rfl | rfl <;> decide

mutual

theorem value_places_end : (v : Value) → (rest : List UInt8) →
    ∀ p ∈ v.places rest, EndsValue p.after
  | .word _, _, p, hp | .number _, _, p, hp | .string _, _, p, hp | .emptyArray _, _, p, hp
  | .emptyObject _, _, p, hp => by
    rw [Value.places] at hp
    exact absurd hp List.not_mem_nil
  | .array es, rest, p, hp => by
    rw [Value.places] at hp
    exact elements_places_end es (0x5d :: rest) (show isDigit 0x5d = false by decide) p hp
  | .object ms, rest, p, hp => by
    rw [Value.places] at hp
    exact members_places_end ms (0x7d :: rest) (show isDigit 0x7d = false by decide) p hp

theorem elements_places_end : (es : Elements) → (rest : List UInt8) → EndsValue rest →
    ∀ p ∈ es.places rest, EndsValue p.after
  | .last _ v after, rest, _, p, hp => by
    rw [Elements.places] at hp
    exact value_places_end v _ p hp
  | .more _ v after es, rest, hRest, p, hp => by
    rw [Elements.places, List.mem_append] at hp
    rcases hp with hp | hp
    · exact value_places_end v _ p hp
    · exact elements_places_end es rest hRest p hp

theorem members_places_end : (ms : Members) → (rest : List UInt8) → EndsValue rest →
    ∀ p ∈ ms.places rest, EndsValue p.after
  | .last _ key _ _ v after, rest, hRest, p, hp => by
    rw [Members.places, List.mem_cons] at hp
    rcases hp with rfl | hp
    · exact endsValue_space after _ hRest
    · exact value_places_end v _ p hp
  | .more _ key _ _ v after ms, rest, hRest, p, hp => by
    rw [Members.places, List.mem_cons, List.mem_append] at hp
    rcases hp with rfl | hp | hp
    · exact endsValue_space after (0x2c :: _) (show isDigit 0x2c = false by decide)
    · exact value_places_end v _ p hp
    · exact members_places_end ms rest hRest p hp

end

mutual

/-- A member's value has no literal but those of the text. -/
theorem value_places_literals : (v : Value) → (rest : List UInt8) →
    ∀ p ∈ v.places rest, ∀ l ∈ p.value.literals, l ∈ v.literals
  | .word _, _, p, hp | .number _, _, p, hp | .string _, _, p, hp | .emptyArray _, _, p, hp
  | .emptyObject _, _, p, hp => by
    rw [Value.places] at hp
    exact absurd hp List.not_mem_nil
  | .array es, rest, p, hp => by
    rw [Value.places] at hp
    rw [Value.literals]
    exact elements_places_literals es _ p hp
  | .object ms, rest, p, hp => by
    rw [Value.places] at hp
    rw [Value.literals]
    exact members_places_literals ms _ p hp

theorem elements_places_literals : (es : Elements) → (rest : List UInt8) →
    ∀ p ∈ es.places rest, ∀ l ∈ p.value.literals, l ∈ es.literals
  | .last _ v after, rest, p, hp => by
    rw [Elements.places] at hp
    rw [Elements.literals]
    exact value_places_literals v _ p hp
  | .more _ v after es, rest, p, hp => by
    rw [Elements.places, List.mem_append] at hp
    intro l hl
    rw [Elements.literals, List.mem_append]
    rcases hp with hp | hp
    · exact .inl (value_places_literals v _ p hp l hl)
    · exact .inr (elements_places_literals es rest p hp l hl)

theorem members_places_literals : (ms : Members) → (rest : List UInt8) →
    ∀ p ∈ ms.places rest, ∀ l ∈ p.value.literals, l ∈ ms.literals
  | .last _ key _ _ v after, rest, p, hp => by
    rw [Members.places, List.mem_cons] at hp
    intro l hl
    rw [Members.literals, List.mem_cons]
    rcases hp with rfl | hp
    · exact .inr hl
    · exact .inr (value_places_literals v _ p hp l hl)
  | .more _ key _ _ v after ms, rest, p, hp => by
    rw [Members.places, List.mem_cons, List.mem_append] at hp
    intro l hl
    rw [Members.literals, List.mem_cons, List.mem_append]
    rcases hp with rfl | hp | hp
    · exact .inr (.inl hl)
    · exact .inr (.inl (value_places_literals v _ p hp l hl))
    · exact .inr (.inr (members_places_literals ms rest p hp l hl))

end

/-! ### Numbers -/

theorem digitValue_digit {b : UInt8} (h : isDigit b = true) :
    digitValue 10 b = some (b.toNat - 0x30) := by
  have hRange := isDigit_range h
  have hHex : hexValue b = some (b.toNat - 0x30) :=
    if_pos (by simpa [UInt8.le_iff_toNat_le] using hRange)
  rw [digitValue, hHex, Option.filter_some, if_pos (by simp; omega)]

theorem digitValue_other {b : UInt8} (h : isDigit b = false) : digitValue 10 b = none := by
  simp only [isDigit, Bool.and_eq_false_iff, decide_eq_false_iff_not, UInt8.le_iff_toNat_le,
    UInt8.toNat_ofNat] at h
  rw [digitValue, hexValue]
  simp only [UInt8.le_iff_toNat_le, UInt8.toNat_ofNat]
  rw [if_neg (by omega)]
  split
  · rw [Option.filter_some, if_neg (by simp)]
  · split
    · rw [Option.filter_some, if_neg (by simp)]
    · rfl

/-- Reading stops behind the digits. -/
theorem readDigits_append {digits rest : List UInt8} (hDigits : ∀ b ∈ digits, isDigit b)
    (hRest : EndsValue rest) (acc : Nat) :
    readDigits 10 acc (digits ++ rest) = ((readDigits 10 acc digits).1, rest) := by
  induction digits generalizing acc with
  | nil =>
    cases rest with
    | nil => rfl
    | cons b bs =>
      have hb : isDigit b = false := hRest
      simp only [List.nil_append, readDigits, digitValue_other hb]
  | cons b bs ih =>
    rw [List.cons_append, readDigits, readDigits,
      digitValue_digit (hDigits b List.mem_cons_self)]
    exact ih (fun c hc => hDigits c (List.mem_cons_of_mem _ hc)) _

theorem number_tail_end (n : Number) {rest : List UInt8} (h : EndsValue rest) :
    EndsValue (n.tail ++ rest) := by
  rw [Number.tail]
  rcases n.fraction with _ | d
  · rcases n.exponent with _ | ⟨upper, sign, digits⟩
    · exact h
    · cases upper
      · exact (by decide : isDigit 0x65 = false)
      · exact (by decide : isDigit 0x45 = false)
  · exact (by decide : isDigit 0x2e = false)

/-- A value is in the range of a `long` of `bits` bits. -/
def InLong (bits : Nat) (value : Int) : Prop := -2 ^ (bits - 1) ≤ value ∧ value < 2 ^ (bits - 1)

instance (bits : Nat) (value : Int) : Decidable (InLong bits value) := by
  unfold InLong; infer_instance

/-- The sign of a number and the digits of its integer part. -/
theorem readSign_number (n : Number) (rest : List UInt8) :
    readSign ((n.text ++ rest).dropWhile isspace) =
      (n.negative, n.whole.bytes ++ (n.tail ++ rest)) := by
  obtain ⟨d, ds, hWhole⟩ := List.exists_cons_of_ne_nil n.whole.nonempty
  have hd : isDigit d = true := n.whole.digits d (by simp [hWhole])
  rw [Number.text, hWhole]
  cases n.negative with
  | true =>
    show readSign (List.dropWhile isspace (0x2d :: (d :: ds ++ n.tail ++ rest))) = _
    rw [List.dropWhile_cons_of_neg (by decide), readSign, List.append_assoc]
  | false =>
    have hPlain : ∀ s, readSign (d :: s) = (false, d :: s) := by
      intro s
      have hMinus : d ≠ 0x2d := by rintro rfl; exact absurd hd (by decide)
      have hPlus : d ≠ 0x2b := by rintro rfl; exact absurd hd (by decide)
      rw [readSign.eq_def]
      split
      · next h => cases h; exact absurd rfl hMinus
      · next h => cases h; exact absurd rfl hPlus
      · rfl
    simp only [Bool.false_eq_true, if_false, List.nil_append, List.cons_append, List.append_assoc]
    rw [List.dropWhile_cons_of_neg (by simp [(isDigit_ne hd).2.2]), hPlain]

/-- `strtol` reads the integer part of a number, and says whether it is in range. -/
theorem strtol_number (bits : Nat) (n : Number) {rest : List UInt8} (hRest : EndsValue rest) :
    ∃ value after, strtol bits (n.text ++ rest) =
        some ⟨value, after, decide ¬InLong bits n.truncated⟩ ∧
      (InLong bits n.truncated → value = n.truncated) := by
  have hRead := readDigits_append n.whole.digits (number_tail_end n hRest) 0
  have hPeek : (digitValue 10 (peek (n.whole.bytes ++ (n.tail ++ rest)))).isNone = false := by
    obtain ⟨d, ds, hWhole⟩ := List.exists_cons_of_ne_nil n.whole.nonempty
    rw [hWhole, List.cons_append, peek_cons, digitValue_digit (n.whole.digits d (by simp [hWhole]))]
    rfl
  have hValue : (if n.negative = true then -((readDigits 10 0 n.whole.bytes).1 : Int)
      else ((readDigits 10 0 n.whole.bytes).1 : Int)) = n.truncated := rfl
  simp only [strtol, readSign_number, hPeek, hRead, hValue, if_false, Bool.false_eq_true]
  by_cases hLow : n.truncated < -2 ^ (bits - 1)
  · have hOut : ¬InLong bits n.truncated := fun h => absurd h.1 (by omega)
    exact ⟨_, _, by rw [if_pos hLow, decide_eq_true hOut], fun h => absurd h hOut⟩
  by_cases hHigh : 2 ^ (bits - 1) ≤ n.truncated
  · have hOut : ¬InLong bits n.truncated := fun h => absurd h.2 (by omega)
    exact ⟨_, _, by rw [if_neg hLow, if_pos hHigh, decide_eq_true hOut], fun h => absurd h hOut⟩
  · have hIn : InLong bits n.truncated := ⟨by omega, by omega⟩
    refine ⟨n.truncated, n.tail ++ rest, ?_, fun _ => rfl⟩
    rw [if_neg hLow, if_neg hHigh, decide_eq_false (fun h => h hIn)]

/-- `strtol` converts nothing at a value that is no number. -/
theorem strtol_other (bits : Nat) {b : UInt8} (rest : List UInt8) (hSpace : isspace b = false)
    (hDigit : isDigit b = false) (hMinus : b ≠ 0x2d) (hPlus : b ≠ 0x2b) :
    strtol bits (b :: rest) = none := by
  have hSign : readSign (b :: rest) = (false, b :: rest) := by
    rw [readSign.eq_def]
    split
    · next h => cases h; exact absurd rfl hMinus
    · next h => cases h; exact absurd rfl hPlus
    · rfl
  have hNone : (digitValue 10 (peek (b :: rest))).isNone = true := by
    rw [peek_cons, digitValue_other hDigit]
    rfl
  rw [strtol, List.dropWhile_cons_of_neg (by simp [hSpace]), hSign]
  simp only [hNone, if_true]

/-! ### Lookups on a line -/

/-- One value with space around it, to be followed by a newline. -/
structure Line where
  before : Space
  value : Value
  after : Space

namespace Line

/-- The bytes of the line before its newline. -/
def body (line : Line) : List UInt8 := line.before.bytes ++ line.value.text ++ line.after.bytes

def text (line : Line) : List UInt8 := line.body ++ [0x0a]

/-- The members of the line at any depth, in document order. -/
def places (line : Line) : List Place := line.value.places (line.after.bytes ++ [0x0a])

end Line

/-- The search on a line finds the first member that has the key. -/
theorem findJsonKey_text (wanted : List UInt8) (hWanted : cString wanted ≠ []) {line : Line}
    (hFits : FitsReads wanted line.value.tokens) :
    findJsonKey line.text wanted = (firstPlace wanted line.places).map Place.start := by
  have hNext : NotColon (line.after.bytes ++ [0x0a]) := by
    have hSpaces : ∀ b ∈ line.after.bytes ++ [0x0a], isspace b = true := by
      intro b hb
      rcases List.mem_append.mp hb with hb | hb
      · exact isspace_space line.after b hb
      · obtain rfl := List.mem_singleton.mp hb
        decide
    have hEmpty : skipWhitespace (line.after.bytes ++ [0x0a]) = [] := by
      rw [skipWhitespace, List.dropWhile_eq_nil_iff]
      exact hSpaces
    rw [NotColon, hEmpty]
    decide
  have hRest : strchr 0x22 (line.after.bytes ++ [0x0a]) = none := by
    rw [strchr_append (fun hMem => (space_ne line.after _ hMem).1 rfl)
      (fun hMem => (space_ne line.after _ hMem).2 rfl)]
    rfl
  rw [Line.text, Line.body, List.append_assoc, List.append_assoc,
    findJsonKey_skip (space_ne line.before), findJsonKey_reads hWanted hFits hNext hRest, Line.places]

theorem peek_text_ne (v : Value) (h : ∀ b ∈ v.text, b ≠ 0x22 ∧ b ≠ 0) (rest : List UInt8) :
    peek (v.text ++ rest) ≠ 0x22 := by
  obtain ⟨b, bs, hText, -⟩ := value_head v
  rw [hText] at h ⊢
  exact (h b List.mem_cons_self).1

/-- The string that the first member with a key has as its value, as the reader decodes it. -/
def placeString (places : List Place) (wanted : List UInt8) : Option (List UInt8) :=
  match (firstPlace wanted places).map Place.value with
  | some (.string l) => some (literalBytes l)
  | _ => none

/-- What a lookup of a string reads on a line fits the decoder: the strings up to the name, and the
string that it finds. -/
structure FitsLookup (wanted : List UInt8) (line : Line) : Prop where
  reads : FitsReads wanted line.value.tokens
  found : ∀ s, placeString line.places wanted = some s → s.length ≤ maxResponseBytes

theorem fitsReads_line {line : Line} (h : FitsDecoder line.value.literals) :
    FitsReads wanted line.value.tokens := fitsReads_of_literals (by rwa [value_tokens])

theorem fitsLookup_line {line : Line} (h : FitsDecoder line.value.literals) :
    FitsLookup wanted line := by
  refine ⟨fitsReads_line h, fun s hFound => ?_⟩
  unfold placeString at hFound
  split at hFound
  · next l hPlace =>
    obtain ⟨p, hMem, hValue⟩ := Option.map_eq_some_iff.mp hPlace
    have hLiterals := value_places_literals line.value _ p (List.mem_of_find?_eq_some hMem)
    cases hFound
    exact h l (hLiterals l (by simp [hValue, Value.literals]))
  · cases hFound

theorem jsonStringValue_text (wanted : List UInt8) (hWanted : cString wanted ≠ []) {line : Line}
    (hFits : FitsLookup wanted line) :
    match placeString line.places wanted with
    | none => jsonStringValue line.text wanted = .absent
    | some s => ∃ buffer, jsonStringValue line.text wanted = .found buffer ∧ buffer.data = s ∧
        (buffer.allocated = true ↔ s ≠ []) := by
  have hFound := hFits.found
  rw [placeString] at hFound ⊢
  rw [jsonStringValue, findJsonKey_text wanted hWanted hFits.reads]
  rcases hPlace : firstPlace wanted line.places with _ | p
  · rfl
  rw [hPlace] at hFound
  simp only [Option.map_some] at hFound ⊢
  rcases hValue : p.value with w | n | l | w | es | w | ms
  case string =>
    have hl : (literalBytes l).length ≤ maxResponseBytes := hFound _ (by rw [hValue])
    obtain ⟨buffer, hDecoded, hData, hAllocated⟩ := decodeJsonString_literal l p.after hl
    have hStart : p.start = l.text ++ p.after := by rw [Place.start, hValue, Value.text]
    refine ⟨buffer, ?_, hData, ?_⟩
    · rw [hStart, hDecoded, if_neg (by simp [Literal.text])]
    · rw [hAllocated, ne_eq, ne_eq, literalBytes_eq_nil]
  all_goals
    refine if_pos ?_
    rw [Place.start, hValue, Value.text]
  · exact peek_text_ne (.word w) (by rw [Value.text]; exact word_ne w) p.after
  · exact peek_text_ne (.number n) (by rw [Value.text]; exact number_ne n) p.after
  all_goals simp

/-- What `json_integer_value` makes of the first member with a key. -/
def placeInteger (bits : Nat) (places : List Place) (wanted : List UInt8) : Lookup Int :=
  match (firstPlace wanted places).map Place.value with
  | none => .absent
  | some (.number n) => if InLong bits n.truncated then .found n.truncated else .invalid
  | some _ => .invalid

theorem jsonIntegerValue_text (bits : Nat) (wanted : List UInt8) (hWanted : cString wanted ≠ [])
    {line : Line} (hFits : FitsReads wanted line.value.tokens) :
    jsonIntegerValue bits line.text wanted = placeInteger bits line.places wanted := by
  rw [jsonIntegerValue, findJsonKey_text wanted hWanted hFits, placeInteger]
  rcases hPlace : firstPlace wanted line.places with _ | p
  · rfl
  have hEnd := value_places_end line.value _ p (List.mem_of_find?_eq_some hPlace)
  simp only [Option.map_some]
  rcases hValue : p.value with w | n | l | w | es | w | ms
  case number =>
    have hStart : p.start = n.text ++ p.after := by rw [Place.start, hValue, Value.text]
    obtain ⟨value, after, hParsed, hIn⟩ := strtol_number bits n hEnd
    rw [hStart, hParsed]
    by_cases hRange : InLong bits n.truncated
    · simp only [hRange, not_true_eq_false, decide_false, if_true, if_false, Bool.false_eq_true,
        hIn hRange]
    · simp only [hRange, not_false_eq_true, decide_true, if_true, if_false]
  all_goals
    suffices hNone : strtol bits p.start = none by rw [hNone]
    rw [Place.start, hValue, Value.text]
  · cases w
    · exact strtol_other bits (b := 0x6e) _ (by decide) (by decide) (by decide) (by decide)
    · exact strtol_other bits (b := 0x74) _ (by decide) (by decide) (by decide) (by decide)
    · exact strtol_other bits (b := 0x66) _ (by decide) (by decide) (by decide) (by decide)
  all_goals exact strtol_other bits _ (by decide) (by decide) (by decide) (by decide)

end Esp32Fx.Eink
