import Esp32Fx.Eink.Decode

/-! `find_json_key` on well-formed texts: while every string literal fits the decoder, the search
steps from token to token and finds the first member, at any depth, that has the wanted key. -/

namespace Esp32Fx.Eink

open Lib Lib.Json

variable {wanted : List UInt8}

/-! ### The loop without its bound -/

theorem readCodepoint_length {count codepoint : Nat} {p rest : List UInt8} {c : Nat}
    (h : readCodepoint count codepoint p = some (c, rest)) : rest.length ≤ p.length := by
  induction count generalizing codepoint p with
  | zero =>
    cases h
    exact Nat.le_refl _
  | succ count ih =>
    rw [readCodepoint] at h
    split at h
    · cases h
    · have := ih h
      simp only [List.length_tail] at this
      omega

theorem decodeLoop_length {rounds : Nat} {p rest : List UInt8} {buffer after : TextBuffer}
    (h : decodeLoop rounds p buffer = some (after, rest)) : rest.length ≤ p.length := by
  induction rounds generalizing p buffer with
  | zero => cases h
  | succ rounds ih =>
    simp only [decodeLoop] at h
    split at h
    · cases h
      exact Nat.le_refl _
    split at h
    · cases h
    split at h
    · split at h
      · cases h
      · have := ih h
        simp only [List.length_tail] at this
        omega
    split at h
    · split at h
      · cases h
      · next hRead =>
        split at h
        · cases h
        · have := ih h
          have := readCodepoint_length hRead
          simp only [List.length_tail] at this
          omega
    · split at h
      · cases h
      · split at h
        · cases h
        · have := ih h
          simp only [List.length_tail] at this
          omega

/-- The decoder moves its cursor on. -/
theorem decodeJsonString_length {cursor rest : List UInt8} {buffer after : TextBuffer}
    (h : decodeJsonString cursor buffer = some (after, rest)) : rest.length < cursor.length := by
  unfold decodeJsonString at h
  split at h
  · cases h
  · next hQuote =>
    split at h
    · cases h
    · next p hLoop =>
      have hLength := decodeLoop_length hLoop
      have hPos : 0 < cursor.length := by
        cases cursor with
        | nil => simp at hQuote
        | cons b bs => simp
      split at h
      · cases h
      · cases h
        simp only [List.length_tail] at hLength ⊢
        omega

theorem length_skipWhitespace (s : List UInt8) : (skipWhitespace s).length ≤ s.length :=
  List.length_dropWhile_le _ _

/-- Rounds beyond the length of the text change nothing. -/
theorem findJsonKeyLoop_rounds {rounds rounds' : Nat} {s : List UInt8} (h : s.length < rounds)
    (h' : s.length < rounds') :
    findJsonKeyLoop wanted rounds s = findJsonKeyLoop wanted rounds' s := by
  induction rounds generalizing rounds' s with
  | zero => omega
  | succ rounds ih =>
    obtain ⟨rounds', rfl⟩ : ∃ r, rounds' = r + 1 := ⟨rounds' - 1, by omega⟩
    rcases hFound : strchr 0x22 s with _ | cursor
    · simp only [findJsonKeyLoop, hFound]
    obtain ⟨hLength, rest, rfl⟩ := strchr_eq_some hFound
    rw [List.length_cons] at hLength
    rcases hDecoded : decodeJsonString (0x22 :: rest) .empty with _ | ⟨key, after⟩
    · simp only [findJsonKeyLoop, hFound, hDecoded, List.tail_cons]
      exact ih (by omega) (by omega)
    have hAfter := decodeJsonString_length hDecoded
    have hSkip := length_skipWhitespace after
    have hNext := length_skipWhitespace (skipWhitespace after).tail
    simp only [List.length_cons, List.length_tail] at hAfter hNext
    simp only [findJsonKeyLoop, hFound, hDecoded]
    have hColon : (skipWhitespace after).length < rounds ∧ (skipWhitespace after).length < rounds' :=
      ⟨by omega, by omega⟩
    have hValue : (skipWhitespace (skipWhitespace after).tail).length < rounds ∧
        (skipWhitespace (skipWhitespace after).tail).length < rounds' := ⟨by omega, by omega⟩
    rw [ih hColon.1 hColon.2, ih hValue.1 hValue.2]

theorem findJsonKeyLoop_eq (rounds : Nat) {s : List UInt8} (h : s.length < rounds) :
    findJsonKeyLoop wanted rounds s = findJsonKey s wanted :=
  findJsonKeyLoop_rounds h (by omega)

/-- The search depends only on the text from the next quote on. -/
theorem findJsonKey_congr {s s' : List UInt8} (h : strchr 0x22 s = strchr 0x22 s') :
    findJsonKey s wanted = findJsonKey s' wanted := by
  have hLoop : findJsonKeyLoop wanted (s.length + s'.length + 1) s =
      findJsonKeyLoop wanted (s.length + s'.length + 1) s' := by
    simp only [findJsonKeyLoop, h]
  rwa [findJsonKeyLoop_eq _ (by omega), findJsonKeyLoop_eq _ (by omega)] at hLoop

theorem findJsonKey_none {s : List UInt8} (h : strchr 0x22 s = none) :
    findJsonKey s wanted = none := by
  simp only [findJsonKey, findJsonKeyLoop, h]

/-- A stretch without quotes is passed over. -/
theorem findJsonKey_skip {skipped : List UInt8} (h : ∀ b ∈ skipped, b ≠ 0x22 ∧ b ≠ 0)
    (rest : List UInt8) : findJsonKey (skipped ++ rest) wanted = findJsonKey rest wanted :=
  findJsonKey_congr (strchr_append (fun hMem => (h _ hMem).1 rfl) (fun hMem => (h _ hMem).2 rfl) _)

theorem findJsonKey_cons {b : UInt8} (h : b ≠ 0x22 ∧ b ≠ 0) (rest : List UInt8) :
    findJsonKey (b :: rest) wanted = findJsonKey rest wanted := by
  have hOne : ∀ c ∈ [b], c ≠ 0x22 ∧ c ≠ 0 := by simpa using h
  exact findJsonKey_skip hOne rest

theorem isspace_ne {b : UInt8} (h : isspace b = true) : b ≠ 0x22 ∧ b ≠ 0 := by
  constructor
  · rintro rfl
    exact absurd h (by decide)
  · rintro rfl
    exact absurd h (by decide)

theorem findJsonKey_skipWhitespace (s : List UInt8) :
    findJsonKey (skipWhitespace s) wanted = findJsonKey s wanted := by
  have hSpaces : ∀ b ∈ s.takeWhile isspace, b ≠ 0x22 ∧ b ≠ 0 :=
    fun b hb => isspace_ne (List.mem_takeWhile_imp hb)
  calc findJsonKey (skipWhitespace s) wanted
      = findJsonKey (s.takeWhile isspace ++ skipWhitespace s) wanted :=
        (findJsonKey_skip hSpaces _).symm
    _ = findJsonKey s wanted := by rw [skipWhitespace, List.takeWhile_append_dropWhile]

/-! ### Tokens -/

/-- The key of a place is the wanted one, as the search compares them. -/
def matchesKey (wanted : List UInt8) (l : Literal) : Bool := strEq (literalBytes l) wanted

/-- The search at a string literal that fits the decoder. -/
theorem findJsonKey_literal {l : Literal} {rest : List UInt8} (hWanted : cString wanted ≠ [])
    (hFits : (literalBytes l).length ≤ maxResponseBytes) :
    findJsonKey (l.text ++ rest) wanted =
      if peek (skipWhitespace rest) ≠ 0x3a then findJsonKey rest wanted
      else if matchesKey wanted l then some (skipWhitespace (skipWhitespace rest).tail)
      else findJsonKey (skipWhitespace rest).tail wanted := by
  obtain ⟨key, hDecoded, hData, hAllocated⟩ := decodeJsonString_literal l rest hFits
  have hQuote : strchr 0x22 (l.text ++ rest) = some (l.text ++ rest) := strchr_self _ _
  have hLength := decodeJsonString_length hDecoded
  have hSkip := length_skipWhitespace rest
  have hTail := length_skipWhitespace (skipWhitespace rest).tail
  simp only [List.length_tail] at hTail
  have hMatches : (key.allocated && strEq key.data wanted) = matchesKey wanted l := by
    rw [hData, matchesKey]
    by_cases hEmpty : l = []
    · subst hEmpty
      have hNe : strEq [] wanted = false := beq_eq_false_iff_ne.mpr (Ne.symm hWanted)
      rw [show literalBytes [] = [] from rfl, hNe, Bool.and_false]
    · rw [hAllocated.mpr hEmpty, Bool.true_and]
  rw [findJsonKey, findJsonKeyLoop]
  simp only [hQuote, hDecoded, hMatches]
  rw [findJsonKeyLoop_eq _ (by omega), findJsonKeyLoop_eq _ (by omega), findJsonKey_skipWhitespace,
    findJsonKey_skipWhitespace]

/-- The next token of the text is not a colon. -/
def NotColon (rest : List UInt8) : Prop := peek (skipWhitespace rest) ≠ 0x3a

theorem isspace_space (w : Space) : ∀ b ∈ w.bytes, isspace b = true := by
  intro b hb
  rcases w.blank b hb with rfl | rfl | rfl | rfl <;> decide

theorem skipWhitespace_space (w : Space) {b : UInt8} (h : isspace b = false) (rest : List UInt8) :
    skipWhitespace (w.bytes ++ b :: rest) = b :: rest := by
  rw [skipWhitespace, List.dropWhile_append_of_pos (isspace_space w), List.dropWhile_cons_of_neg]
  simp [h]

theorem notColon_space (w : Space) {b : UInt8} (h : isspace b = false) (hb : b ≠ 0x3a)
    (rest : List UInt8) : NotColon (w.bytes ++ b :: rest) := by
  rw [NotColon, skipWhitespace_space w h]
  exact hb

theorem space_ne (w : Space) : ∀ b ∈ w.bytes, b ≠ 0x22 ∧ b ≠ 0 :=
  fun b hb => isspace_ne (isspace_space w b hb)

theorem isDigit_range {b : UInt8} (h : isDigit b = true) : 0x30 ≤ b.toNat ∧ b.toNat ≤ 0x39 := by
  simpa [isDigit, UInt8.le_iff_toNat_le] using h

theorem isDigit_ne {b : UInt8} (h : isDigit b = true) : b ≠ 0x22 ∧ b ≠ 0 ∧ isspace b = false := by
  have hRange := isDigit_range h
  refine ⟨?_, ?_, ?_⟩
  · rintro rfl
    exact absurd hRange.1 (by decide)
  · rintro rfl
    exact absurd hRange.1 (by decide)
  · rw [Bool.eq_false_iff]
    intro hSpace
    simp only [isspace, UInt8.le_iff_toNat_le, Bool.or_eq_true, beq_iff_eq, Bool.and_eq_true,
      decide_eq_true_eq, UInt8.toNat_ofNat] at hSpace
    rcases hSpace with rfl | hSpace
    · exact absurd hRange.1 (by decide)
    · omega

theorem digits_ne (d : Digits) : ∀ b ∈ d.bytes, b ≠ 0x22 ∧ b ≠ 0 :=
  fun b hb => ⟨(isDigit_ne (d.digits b hb)).1, (isDigit_ne (d.digits b hb)).2.1⟩

theorem exponent_ne (e : Bool × Option Bool × Digits) :
    ∀ b ∈ Number.exponentText e, b ≠ 0x22 ∧ b ≠ 0 := by
  obtain ⟨upper, sign, digits⟩ := e
  intro b hb
  simp only [Number.exponentText, List.mem_cons, List.mem_append] at hb
  rcases hb with rfl | hb | hb
  · cases upper <;> decide
  · rcases sign with _ | _ | _ <;> simp at hb <;> subst hb <;> decide
  · exact digits_ne digits b hb

theorem number_ne (n : Number) : ∀ b ∈ n.text, b ≠ 0x22 ∧ b ≠ 0 := by
  intro b hb
  simp only [Number.text, Number.tail, List.mem_append] at hb
  rcases hb with (hb | hb) | hb | hb
  · split at hb <;> simp at hb
    subst hb
    decide
  · exact digits_ne n.whole b hb
  · split at hb
    · simp at hb
    · next d _ =>
      rcases List.mem_cons.mp hb with rfl | hb
      · decide
      · exact digits_ne d b hb
  · split at hb
    · simp at hb
    · next e _ => exact exponent_ne e b hb

theorem word_ne (w : Word) : ∀ b ∈ w.text, b ≠ 0x22 ∧ b ≠ 0 := by
  have hAll : w.text.all (fun b => b != 0x22 && b != 0) = true := by cases w <;> decide
  intro b hb
  simpa using List.all_eq_true.mp hAll b hb

/-- A value starts with a byte that is not white space. -/
theorem value_head (v : Value) : ∃ b rest, v.text = b :: rest ∧ isspace b = false := by
  cases v with
  | word w =>
    cases w
    · exact ⟨0x6e, ascii "ull", rfl, by decide⟩
    · exact ⟨0x74, ascii "rue", rfl, by decide⟩
    · exact ⟨0x66, ascii "alse", rfl, by decide⟩
  | number n =>
    rw [Value.text, Number.text]
    cases n.negative with
    | true => exact ⟨0x2d, n.whole.bytes ++ n.tail, by simp, by decide⟩
    | false =>
      obtain ⟨d, ds, hDigits⟩ := List.exists_cons_of_ne_nil n.whole.nonempty
      have hd : isDigit d = true := n.whole.digits d (by rw [hDigits]; simp)
      exact ⟨d, ds ++ n.tail, by simp [hDigits], (isDigit_ne hd).2.2⟩
  | string l => exact ⟨0x22, _, rfl, by decide⟩
  | emptyArray w => exact ⟨0x5b, _, by rw [Value.text], by decide⟩
  | array es => exact ⟨0x5b, _, by rw [Value.text], by decide⟩
  | emptyObject w => exact ⟨0x7b, _, by rw [Value.text], by decide⟩
  | object ms => exact ⟨0x7b, _, by rw [Value.text], by decide⟩

theorem skipWhitespace_value (w : Space) (v : Value) (rest : List UInt8) :
    skipWhitespace (w.bytes ++ (v.text ++ rest)) = v.text ++ rest := by
  obtain ⟨b, bs, hText, hSpace⟩ := value_head v
  rw [hText, List.cons_append, skipWhitespace_space w hSpace]

/-- The search at a member: at its key, then in its value. -/
theorem findJsonKey_member {key : Literal} {before afterKey beforeValue : Space} {v : Value}
    {rest : List UInt8} (hWanted : cString wanted ≠ [])
    (hFits : (literalBytes key).length ≤ maxResponseBytes) :
    findJsonKey (before.bytes ++ (key.text ++ (afterKey.bytes ++
        0x3a :: (beforeValue.bytes ++ (v.text ++ rest))))) wanted =
      if matchesKey wanted key then some (v.text ++ rest)
      else findJsonKey (v.text ++ rest) wanted := by
  rw [findJsonKey_skip (space_ne before), findJsonKey_literal hWanted hFits,
    skipWhitespace_space afterKey (by decide), List.tail_cons, skipWhitespace_value,
    findJsonKey_skip (space_ne beforeValue)]
  simp

/-! ### Values -/

/-- Every string literal of a value fits the decoder. -/
def FitsDecoder (literals : List Literal) : Prop :=
  ∀ l ∈ literals, (literalBytes l).length ≤ maxResponseBytes

instance (literals : List Literal) : Decidable (FitsDecoder literals) := by
  unfold FitsDecoder; infer_instance

/-- The first place whose key matches. -/
def firstPlace (wanted : List UInt8) (places : List Place) : Option Place :=
  places.find? fun p => matchesKey wanted p.key

theorem firstPlace_append (places places' : List Place) :
    firstPlace wanted (places ++ places') =
      (firstPlace wanted places).or (firstPlace wanted places') :=
  List.find?_append

theorem firstPlace_cons (p : Place) (places : List Place) :
    firstPlace wanted (p :: places) =
      if matchesKey wanted p.key then some p else firstPlace wanted places := by
  rw [firstPlace, List.find?_cons]
  cases matchesKey wanted p.key <;> rfl

/-- What the search returns when it goes through `places` and then on to `rest`. -/
def searched (wanted : List UInt8) (places : List Place) (rest : List UInt8) :
    Option (List UInt8) :=
  ((firstPlace wanted places).map Place.start).or (findJsonKey rest wanted)

theorem searched_nil (rest : List UInt8) : searched wanted [] rest = findJsonKey rest wanted := rfl

theorem searched_append {places places' : List Place} {rest rest' : List UInt8}
    (h : findJsonKey rest wanted = searched wanted places' rest') :
    searched wanted places rest = searched wanted (places ++ places') rest' := by
  rw [searched, h, searched, searched, firstPlace_append, Option.map_or, Option.or_assoc]

theorem searched_cons {p : Place} {places : List Place} {rest : List UInt8} :
    searched wanted (p :: places) rest =
      if matchesKey wanted p.key then some p.start else searched wanted places rest := by
  rw [searched, firstPlace_cons]
  split
  · rfl
  · rfl

/-- One place before the others that matches is the answer. -/
theorem searched_found {places places' : List Place} {rest rest' : List UInt8}
    (h : (firstPlace wanted places).isSome) :
    searched wanted places rest = searched wanted (places ++ places') rest' := by
  obtain ⟨p, hp⟩ := Option.isSome_iff_exists.mp h
  rw [searched, searched, firstPlace_append, hp]
  rfl

/-- The literals that the search reads: all up to the key that matches. -/
def reads (wanted : List UInt8) : List Token → List Literal
  | [] => []
  | t :: ts => if t.isKey && matchesKey wanted t.literal then [t.literal] else t.literal :: reads wanted ts

/-- One of the keys matches. -/
def anyMatch (wanted : List UInt8) (ts : List Token) : Bool :=
  ts.any fun t => t.isKey && matchesKey wanted t.literal

theorem anyMatch_cons (t : Token) (ts : List Token) :
    anyMatch wanted (t :: ts) = ((t.isKey && matchesKey wanted t.literal) || anyMatch wanted ts) := rfl

theorem reads_append (ts ts' : List Token) : reads wanted (ts ++ ts') =
    if anyMatch wanted ts then reads wanted ts else reads wanted ts ++ reads wanted ts' := by
  induction ts with
  | nil => rfl
  | cons t ts ih =>
    rw [List.cons_append, reads, reads, anyMatch_cons]
    cases t.isKey && matchesKey wanted t.literal with
    | true => rfl
    | false =>
      rw [ih, Bool.false_or]
      cases anyMatch wanted ts <;> rfl

theorem reads_subset (ts : List Token) : ∀ l ∈ reads wanted ts, l ∈ ts.map Token.literal := by
  induction ts with
  | nil => exact fun l hl => hl
  | cons t ts ih =>
    intro l hl
    rw [reads] at hl
    rw [List.map_cons]
    split at hl
    · rw [List.mem_singleton.mp hl]
      exact List.mem_cons_self
    · rcases List.mem_cons.mp hl with rfl | hl
      · exact List.mem_cons_self
      · exact List.mem_cons_of_mem _ (ih l hl)

/-- Every literal that the search reads fits the decoder. -/
def FitsReads (wanted : List UInt8) (ts : List Token) : Prop := FitsDecoder (reads wanted ts)

theorem FitsReads.left {ts ts' : List Token} (h : FitsReads wanted (ts ++ ts')) :
    FitsReads wanted ts := by
  intro l hl
  refine h l ?_
  rw [reads_append]
  split
  · exact hl
  · exact List.mem_append_left _ hl

theorem FitsReads.right {ts ts' : List Token} (h : FitsReads wanted (ts ++ ts'))
    (hNone : anyMatch wanted ts = false) : FitsReads wanted ts' := by
  intro l hl
  refine h l ?_
  rw [reads_append, hNone]
  exact List.mem_append_right _ hl

theorem FitsReads.key {key : Literal} {ts : List Token}
    (h : FitsReads wanted (⟨key, true⟩ :: ts)) : (literalBytes key).length ≤ maxResponseBytes := by
  refine h key ?_
  rw [reads]
  split <;> exact List.mem_cons_self

theorem FitsReads.value {key : Literal} {ts : List Token}
    (h : FitsReads wanted (⟨key, true⟩ :: ts)) (hNone : matchesKey wanted key = false) :
    FitsReads wanted ts := by
  intro l hl
  refine h l ?_
  rw [reads, hNone]
  exact List.mem_cons_of_mem _ hl

theorem fitsReads_of_literals {ts : List Token} (h : FitsDecoder (ts.map Token.literal)) :
    FitsReads wanted ts := fun l hl => h l (reads_subset ts l hl)

theorem isSome_firstPlace (places : List Place) :
    (firstPlace wanted places).isSome = places.any fun p => matchesKey wanted p.key := by
  rw [firstPlace, List.isSome_find?]

mutual

/-- The keys of a value are those of its places. -/
theorem value_anyMatch : (v : Value) → (rest : List UInt8) →
    (firstPlace wanted (v.places rest)).isSome = anyMatch wanted v.tokens
  | .word _, _ | .number _, _ | .string _, _ | .emptyArray _, _ | .emptyObject _, _ => by
    simp [Value.places, Value.tokens, anyMatch, isSome_firstPlace]
  | .array es, rest => by
    rw [Value.places, Value.tokens]
    exact elements_anyMatch es _
  | .object ms, rest => by
    rw [Value.places, Value.tokens]
    exact members_anyMatch ms _

theorem elements_anyMatch : (es : Elements) → (rest : List UInt8) →
    (firstPlace wanted (es.places rest)).isSome = anyMatch wanted es.tokens
  | .last _ v after, rest => by
    rw [Elements.places, Elements.tokens]
    exact value_anyMatch v _
  | .more _ v after es, rest => by
    rw [Elements.places, Elements.tokens, firstPlace_append, Option.isSome_or, value_anyMatch v,
      elements_anyMatch es, anyMatch, anyMatch, anyMatch, List.any_append]

theorem members_anyMatch : (ms : Members) → (rest : List UInt8) →
    (firstPlace wanted (ms.places rest)).isSome = anyMatch wanted ms.tokens
  | .last _ key _ _ v after, rest => by
    rw [Members.places, Members.tokens, firstPlace_cons, anyMatch, List.any_cons, ← anyMatch,
      ← value_anyMatch v]
    cases matchesKey wanted key <;> rfl
  | .more _ key _ _ v after ms, rest => by
    have hValue := value_anyMatch v (after.bytes ++ 0x2c :: (ms.text ++ rest))
    have hMembers := members_anyMatch ms rest
    rw [Members.places, Members.tokens, firstPlace_cons, firstPlace_append, anyMatch, List.any_cons,
      List.any_append, ← anyMatch, ← anyMatch, ← hValue, ← hMembers, ← Option.isSome_or]
    cases matchesKey wanted key <;> rfl

end

mutual

/-- The search goes through the members of a value in document order, and then on to what follows
the value. -/
theorem findJsonKey_value (hWanted : cString wanted ≠ []) : (v : Value) → (rest : List UInt8) →
    FitsReads wanted v.tokens → NotColon rest →
      findJsonKey (v.text ++ rest) wanted = searched wanted (v.places rest) rest
  | .word w, rest, _, _ => by
    rw [Value.text, Value.places, searched_nil, findJsonKey_skip (word_ne w)]
  | .number n, rest, _, _ => by
    rw [Value.text, Value.places, searched_nil, findJsonKey_skip (number_ne n)]
  | .string l, rest, hFits, hNext => by
    have hLiteral := hFits l (by simp [Value.tokens, reads])
    rw [Value.text, Value.places, searched_nil, findJsonKey_literal hWanted hLiteral,
      if_pos (show peek (skipWhitespace rest) ≠ 0x3a from hNext)]
  | .emptyArray w, rest, _, _ => by
    rw [Value.text, Value.places, searched_nil, List.cons_append, List.append_assoc,
      findJsonKey_cons (by decide), findJsonKey_skip (space_ne w), List.singleton_append,
      findJsonKey_cons (by decide)]
  | .emptyObject w, rest, _, _ => by
    rw [Value.text, Value.places, searched_nil, List.cons_append, List.append_assoc,
      findJsonKey_cons (by decide), findJsonKey_skip (space_ne w), List.singleton_append,
      findJsonKey_cons (by decide)]
  | .array es, rest, hFits, _ => by
    rw [Value.tokens] at hFits
    rw [Value.text, Value.places, List.cons_append, List.append_assoc,
      findJsonKey_cons (by decide), List.singleton_append,
      findJsonKey_elements hWanted es (0x5d :: rest) hFits ⟨_, _, rfl, by decide, by decide⟩]
    simp only [searched, findJsonKey_cons (show (0x5d : UInt8) ≠ 0x22 ∧ (0x5d : UInt8) ≠ 0 by decide)]
  | .object ms, rest, hFits, _ => by
    rw [Value.tokens] at hFits
    rw [Value.text, Value.places, List.cons_append, List.append_assoc,
      findJsonKey_cons (by decide), List.singleton_append,
      findJsonKey_members hWanted ms (0x7d :: rest) hFits ⟨_, _, rfl, by decide, by decide⟩]
    simp only [searched, findJsonKey_cons (show (0x7d : UInt8) ≠ 0x22 ∧ (0x7d : UInt8) ≠ 0 by decide)]

theorem findJsonKey_elements (hWanted : cString wanted ≠ []) : (es : Elements) →
    (rest : List UInt8) → FitsReads wanted es.tokens →
    (∃ b bs, rest = b :: bs ∧ isspace b = false ∧ b ≠ 0x3a) →
      findJsonKey (es.text ++ rest) wanted = searched wanted (es.places rest) rest
  | .last before v after, rest, hFits, hNext => by
    obtain ⟨b, bs, rfl, hSpace, hColon⟩ := hNext
    rw [Elements.tokens] at hFits
    rw [Elements.text, Elements.places, List.append_assoc, List.append_assoc,
      findJsonKey_skip (space_ne before),
      findJsonKey_value hWanted v _ hFits (notColon_space after hSpace hColon bs)]
    simp only [searched, findJsonKey_skip (space_ne after)]
  | .more before v after es, rest, hFits, hNext => by
    rw [Elements.tokens] at hFits
    simp only [Elements.text, Elements.places, List.append_assoc, List.cons_append]
    rw [findJsonKey_skip (space_ne before),
      findJsonKey_value hWanted v _ hFits.left (notColon_space after (by decide) (by decide) _)]
    cases hMatch : anyMatch wanted v.tokens with
    | true => exact searched_found (by rw [value_anyMatch, hMatch])
    | false =>
      refine searched_append ?_
      rw [findJsonKey_skip (space_ne after), findJsonKey_cons (by decide)]
      exact findJsonKey_elements hWanted es rest (hFits.right hMatch) hNext

theorem findJsonKey_members (hWanted : cString wanted ≠ []) : (ms : Members) →
    (rest : List UInt8) → FitsReads wanted ms.tokens →
    (∃ b bs, rest = b :: bs ∧ isspace b = false ∧ b ≠ 0x3a) →
      findJsonKey (ms.text ++ rest) wanted = searched wanted (ms.places rest) rest
  | .last before key afterKey beforeValue v after, rest, hFits, hNext => by
    obtain ⟨b, bs, rfl, hSpace, hColon⟩ := hNext
    rw [Members.tokens] at hFits
    simp only [Members.text, Members.places, List.append_assoc, List.cons_append]
    rw [findJsonKey_member hWanted hFits.key, searched_cons]
    split
    · rfl
    · next hKey =>
      rw [findJsonKey_value hWanted v _ (hFits.value (Bool.eq_false_iff.mpr hKey))
        (notColon_space after hSpace hColon bs)]
      simp only [searched, findJsonKey_skip (space_ne after)]
  | .more before key afterKey beforeValue v after ms, rest, hFits, hNext => by
    rw [Members.tokens] at hFits
    simp only [Members.text, Members.places, List.append_assoc, List.cons_append]
    rw [findJsonKey_member hWanted hFits.key, searched_cons]
    split
    · rfl
    · next hKey =>
      have hRest := hFits.value (Bool.eq_false_iff.mpr hKey)
      rw [findJsonKey_value hWanted v _ hRest.left (notColon_space after (by decide) (by decide) _)]
      cases hMatch : anyMatch wanted v.tokens with
      | true => exact searched_found (by rw [value_anyMatch, hMatch])
      | false =>
        refine searched_append ?_
        rw [findJsonKey_skip (space_ne after), findJsonKey_cons (by decide)]
        exact findJsonKey_members hWanted ms rest (hRest.right hMatch) hNext

end

/-- `find_json_key` on a text that holds one value: it returns the start of the value of the first
member, in document order and at any depth, whose key matches. -/
theorem findJsonKey_reads (hWanted : cString wanted ≠ []) {v : Value} {rest : List UInt8}
    (hFits : FitsReads wanted v.tokens) (hNext : NotColon rest) (hRest : strchr 0x22 rest = none) :
    findJsonKey (v.text ++ rest) wanted =
      (firstPlace wanted (v.places rest)).map Place.start := by
  rw [findJsonKey_value hWanted v rest hFits hNext, searched, findJsonKey_none hRest,
    Option.or_none]

end Esp32Fx.Eink
