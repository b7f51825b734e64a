import Mathlib.Data.List.DropRight
import Esp32Fx.Lib.JsonText
import Esp32Fx.Native.Headers

/-! What `parse_headers` accepts, and what its lines are made of. -/

namespace Esp32Fx.Native

open Lib Lib.Json

variable {cfg : Config} {memory : List UInt8 → Bool}

/-! ### The cursor -/

theorem expect_eq_some {b : UInt8} {p rest : List UInt8} (h : expect b p = some rest) :
    p = b :: rest := by
  cases p with
  | nil => cases h
  | cons ch p =>
    rw [expect] at h
    split at h
    · next hch => cases h; rw [hch]
    · cases h

theorem skipWs_split (p : List UInt8) : ∃ w : Space, p = w.bytes ++ skipWs p := by
  refine ⟨⟨p.takeWhile isWs, fun b hb => ?_⟩, List.takeWhile_append_dropWhile.symm⟩
  have hWs := List.mem_takeWhile_imp hb
  simp only [isWs, Bool.or_eq_true, beq_iff_eq] at hWs
  obtain ((h | h) | h) | h := hWs
  · exact .inl h
  · exact .inr (.inl h)
  · exact .inr (.inr (.inr h))
  · exact .inr (.inr (.inl h))

@[simp] theorem skipWs_skipWs (p : List UInt8) : skipWs (skipWs p) = skipWs p :=
  List.dropWhile_idempotent isWs p

theorem length_skipWs_le (p : List UInt8) : (skipWs p).length ≤ p.length :=
  List.length_dropWhile_le _ _

theorem expectComma_rest {p rest : List UInt8} (h : expectComma false p = some rest) :
    ∃ p', p = 0x2c :: p' ∧ rest = skipWs p' := by
  obtain ⟨p', hComma, rfl⟩ := Option.map_eq_some_iff.mp h
  exact ⟨p', expect_eq_some hComma, rfl⟩

theorem length_expectComma_le {first : Bool} {p rest : List UInt8}
    (h : expectComma first (skipWs p) = some rest) : rest.length ≤ p.length := by
  have hSkip := length_skipWs_le p
  cases first with
  | true => rwa [← Option.some.inj h]
  | false =>
    obtain ⟨p', hText, rfl⟩ := expectComma_rest h
    have := length_skipWs_le p'
    rw [hText, List.length_cons] at hSkip
    omega

/-! ### Members -/

theorem headerString_sound {p value rest : List UInt8}
    (h : headerString memory p = some (value, rest)) :
    ∃ l : Literal, p = l.text ++ rest ∧ l.decode = some value := by
  unfold headerString at h
  split at h
  · obtain ⟨l, hText, hWhole, rfl⟩ := parseJsonString_sound h
    exact ⟨l, hText, Literal.decode_of_noSurrogate hWhole⟩
  · cases h

theorem headerMember_sound {p rest : List UInt8} {member : List UInt8 × List UInt8}
    (h : headerMember memory p = some (member, rest)) :
    ∃ (key : Literal) (afterKey beforeValue : Space) (l : Literal) (after : Space),
      p = key.text ++ afterKey.bytes ++
        0x3a :: (beforeValue.bytes ++ l.text ++ after.bytes) ++ rest ∧
      member? key (.string l) = some member ∧ skipWs rest = rest := by
  unfold headerMember at h
  split at h
  · cases h
  next text p₁ hKey =>
  split at h
  · cases h
  next p₂ hColon =>
  split at h
  · cases h
  next field p₃ hField =>
  cases h
  obtain ⟨key, rfl, hKeyText⟩ := headerString_sound hKey
  obtain ⟨l, hText, hDecode⟩ := headerString_sound hField
  obtain ⟨afterKey, hAfterKey⟩ := skipWs_split p₁
  obtain ⟨beforeValue, hBeforeValue⟩ := skipWs_split p₂
  obtain ⟨after, hAfter⟩ := skipWs_split p₃
  refine ⟨key, afterKey, beforeValue, l, after, ?_, ?_, skipWs_skipWs p₃⟩
  · generalize skipWs p₃ = rest at hAfter ⊢
    rw [hAfterKey, expect_eq_some hColon, hBeforeValue, hText, hAfter]
    simp only [List.append_assoc, List.cons_append]
  · simp [member?, Value.string?, hKeyText, hDecode]

theorem length_headerMember_lt {p rest : List UInt8} {member : List UInt8 × List UInt8}
    (h : headerMember memory p = some (member, rest)) : rest.length < p.length := by
  obtain ⟨key, afterKey, beforeValue, l, after, rfl, -⟩ := headerMember_sound h
  simp only [List.length_append, List.length_cons]
  omega

/-- The loop from a member on reads members up to the closing brace, each behind a comma. -/
theorem headerMembers_sound {rounds : Nat} {fields fields' : HeaderFields} {p p' rest : List UInt8}
    {member : List UInt8 × List UInt8} (hMember : headerMember memory p = some (member, p'))
    (h : headerMembers memory rounds false (fields.store member) p' = some (fields', rest))
    (w : Space) : ∃ (ms : Members) (members : List (List UInt8 × List UInt8)),
      w.bytes ++ p = ms.text ++ 0x7d :: rest ∧ ms.strings? = some members ∧
      fields' = members.foldl HeaderFields.store fields := by
  induction rounds generalizing fields p p' member w with
  | zero => cases h
  | succ rounds ih =>
    obtain ⟨key, afterKey, beforeValue, l, after, rfl, hPair, hSkip⟩ := headerMember_sound hMember
    rw [headerMembers, hSkip] at h
    split at h
    · next hClose =>
      cases h
      refine ⟨.last w key afterKey beforeValue (.string l) after, [member], ?_, ?_, rfl⟩
      · rw [expect_eq_some hClose, Members.text]
        simp only [Value.text, List.append_assoc, List.cons_append]
      · rw [Members.strings?, hPair]
        rfl
    · split at h
      · cases h
      next p₁ hComma =>
      split at h
      · cases h
      next member₁ p₂ hMember₁ =>
      obtain ⟨p₀, rfl, rfl⟩ := expectComma_rest hComma
      obtain ⟨before, hBefore⟩ := skipWs_split p₀
      obtain ⟨ms, members, hText, hStrings, rfl⟩ := ih hMember₁ h before
      refine ⟨.more w key afterKey beforeValue (.string l) after ms, member :: members, ?_, ?_, rfl⟩
      · rw [hBefore, hText, Members.text]
        simp only [Value.text, List.append_assoc, List.cons_append]
      · rw [Members.strings?, hPair, hStrings]

/-- As many rounds as there are bytes are enough for the loop. -/
theorem headerMembers_rounds {rounds more : Nat} {first : Bool} {fields : HeaderFields}
    {p : List UInt8} (hRounds : p.length < rounds) (hMore : p.length < more) :
    headerMembers memory rounds first fields p = headerMembers memory more first fields p := by
  induction rounds generalizing more first fields p with
  | zero => omega
  | succ rounds ih =>
    obtain ⟨more, rfl⟩ : ∃ n, more = n + 1 := ⟨more - 1, by omega⟩
    rw [headerMembers, headerMembers]
    split
    · rfl
    · split
      · rfl
      next p₁ hComma =>
      split
      · rfl
      next member p₂ hMember =>
      have hShorter := length_headerMember_lt hMember
      have hStart := length_expectComma_le hComma
      exact ih (by omega) (by omega)

/-! ### Lines -/

/-- A byte that may stand in a header. -/
def PlainByte (b : UInt8) : Prop := 0x20 ≤ b ∧ b ≠ 0x7f

/-- One header: a name, a colon with a space, and a value, without control characters. -/
def HeaderLine (line : List UInt8) : Prop :=
  ∃ name value : List UInt8, line = name ++ ascii ": " ++ value ∧ name ≠ [] ∧ 0x3a ∉ name ∧
    (∀ b ∈ name, PlainByte b) ∧ ∀ b ∈ value, PlainByte b

theorem headerIsSafe_plain {value : List UInt8} (h : headerIsSafe value = true) :
    ∀ b ∈ cString value, PlainByte b := by
  induction value with
  | nil => exact List.forall_mem_nil _
  | cons b value ih =>
    rw [headerIsSafe] at h
    split at h
    · next h0 =>
      rw [cString, List.takeWhile_cons_of_neg (by simpa using h0)]
      exact List.forall_mem_nil _
    next h0 =>
    split at h
    · cases h
    next hPlain =>
    simp only [not_or] at hPlain
    rw [cString, List.takeWhile_cons_of_pos (by simpa using h0)]
    exact List.forall_mem_cons.mpr ⟨⟨UInt8.not_lt.mp hPlain.2.2.2, hPlain.2.2.1⟩, ih h⟩

theorem strchr_none {c : UInt8} {s : List UInt8} (h : strchr c s = none) : c ∉ cString s := by
  induction s with
  | nil => exact List.not_mem_nil
  | cons b s ih =>
    rw [strchr] at h
    split at h
    · cases h
    next hc =>
    split at h
    · next h0 =>
      rw [cString, List.takeWhile_cons_of_neg (by simpa using h0)]
      exact List.not_mem_nil
    next h0 =>
    rw [cString, List.takeWhile_cons_of_pos (by simpa using h0)]
    exact List.not_mem_cons_of_ne_of_not_mem (Ne.symm hc) (ih h)

theorem cString_ne_nil {s : List UInt8} (h : peek s ≠ 0) : cString s ≠ [] := by
  cases s with
  | nil => exact absurd rfl h
  | cons b s =>
    rw [cString, List.takeWhile_cons_of_pos (by simpa using h)]
    exact List.cons_ne_nil _ _

/-- What the checks of `parse_header_object` leave. -/
theorem line_eq_some {fields : HeaderFields} {line : List UInt8}
    (h : fields.line cfg = some line) : ∃ name value : List UInt8,
      fields.name = some name ∧ fields.value = some value ∧
      line = cString name ++ ascii ": " ++ cString value ∧ cString name ≠ [] ∧
      0x3a ∉ cString name ∧ (∀ b ∈ cString name, PlainByte b) ∧
      ∀ b ∈ cString value, PlainByte b := by
  unfold HeaderFields.line at h
  split at h
  · next name value hName hValue =>
    split at h
    · cases h
    next hChecks =>
    simp only [not_or, Bool.not_eq_false] at hChecks
    obtain ⟨hNonempty, hSafeName, hSafeValue, hColon⟩ := hChecks
    split at h
    · cases h
    cases h
    refine ⟨name, value, hName, hValue, rfl, cString_ne_nil hNonempty, ?_,
      headerIsSafe_plain hSafeName, headerIsSafe_plain hSafeValue⟩
    exact strchr_none (by simpa using hColon)
  · cases h

theorem headerLine_of_line {fields : HeaderFields} {line : List UInt8}
    (h : fields.line cfg = some line) : HeaderLine line := by
  obtain ⟨name, value, -, -, rfl, hNonempty, hColon, hName, hValue⟩ := line_eq_some h
  exact ⟨cString name, cString value, rfl, hNonempty, hColon, hName, hValue⟩

/-! ### Objects -/

/-- The object has only strings as members, and the line is made from them in their order. -/
def Heads (cfg : Config) (object : Value) (line : List UInt8) : Prop :=
  ∃ members, object.strings? = some members ∧
    (members.foldl HeaderFields.store .empty).line cfg = some line

theorem parseHeaderObject_sound {p line rest : List UInt8}
    (h : parseHeaderObject cfg memory p = some (line, rest)) :
    ∃ object : Value, p = object.text ++ rest ∧ Heads cfg object line := by
  unfold parseHeaderObject at h
  split at h
  · cases h
  next p₁ hOpen =>
  split at h
  · cases h
  next fields p₂ hMembers =>
  split at h
  · cases h
  next line₁ hLine =>
  split at h
  on_goal 2 => cases h
  cases h
  obtain ⟨w, hW⟩ := skipWs_split p₁
  rw [headerMembers] at hMembers
  split at hMembers
  · next hClose =>
    cases hMembers
    refine ⟨.emptyObject w, ?_, [], rfl, hLine⟩
    rw [expect_eq_some hOpen, hW, expect_eq_some hClose, Value.text]
    simp only [List.append_assoc, List.cons_append, List.nil_append]
  · split at hMembers
    · cases hMembers
    next p₃ hFirst =>
    cases hFirst
    split at hMembers
    · cases hMembers
    next member p₄ hMember =>
    obtain ⟨ms, members, hText, hStrings, rfl⟩ := headerMembers_sound hMember hMembers w
    refine ⟨.object ms, ?_, members, hStrings, hLine⟩
    rw [expect_eq_some hOpen, hW, hText, Value.text]
    simp only [List.append_assoc, List.cons_append, List.nil_append]

theorem length_parseHeaderObject_lt {p line rest : List UInt8}
    (h : parseHeaderObject cfg memory p = some (line, rest)) : rest.length < p.length := by
  obtain ⟨object, rfl, members, hStrings, -⟩ := parseHeaderObject_sound h
  have hText : object.text ≠ [] := by
    cases object with
    | emptyObject | object => simp [Value.text]
    | _ => cases hStrings
  have := List.length_pos_iff.mpr hText
  simp only [List.length_append]
  omega

theorem headerLine_of_object {p line rest : List UInt8}
    (h : parseHeaderObject cfg memory p = some (line, rest)) : HeaderLine line := by
  obtain ⟨object, -, members, -, hLine⟩ := parseHeaderObject_sound h
  exact headerLine_of_line hLine

/-! ### Lists of headers -/

/-- The loop from an object on reads objects up to the closing bracket, each behind a comma, and
appends the line of each. -/
theorem headerObjects_sound {rounds : Nat} {p p' line : List UInt8} {lines lines' : List (List UInt8)}
    (hObject : parseHeaderObject cfg memory p = some (line, p'))
    (h : headerObjects cfg memory rounds false (lines ++ [line]) p' = ⟨true, lines'⟩) (w : Space) :
    ∃ (es : Elements) (after : Space) (made : List (List UInt8)),
      w.bytes ++ p = es.text ++ 0x5d :: after.bytes ∧ lines' = lines ++ made ∧
      List.Forall₂ (Heads cfg) es.values made := by
  induction rounds generalizing p p' line lines w with
  | zero => cases h
  | succ rounds ih =>
    obtain ⟨object, rfl, hHeads⟩ := parseHeaderObject_sound hObject
    obtain ⟨behind, hBehind⟩ := skipWs_split p'
    rw [headerObjects] at h
    split at h
    · next p₁ hClose =>
      obtain ⟨hEnd, rfl⟩ := HeaderList.mk.inj h
      obtain ⟨after, hAfter⟩ := skipWs_split p₁
      rw [of_decide_eq_true hEnd, List.append_nil] at hAfter
      refine ⟨.last w object behind, after, [line], ?_, rfl, .cons hHeads .nil⟩
      rw [hBehind, expect_eq_some hClose, hAfter, Elements.text]
      simp only [List.append_assoc]
    · split at h
      · cases h
      next p₁ hComma =>
      split at h
      · cases h
      next line₁ p₂ hObject₁ =>
      obtain ⟨p₀, hText₀, rfl⟩ := expectComma_rest hComma
      obtain ⟨before, hBefore⟩ := skipWs_split p₀
      obtain ⟨es, after, made, hText, rfl, hMade⟩ := ih hObject₁ h before
      refine ⟨.more w object behind es, after, line :: made, ?_, ?_, .cons hHeads hMade⟩
      · rw [hBehind, hText₀, hBefore, hText, Elements.text]
        simp only [List.append_assoc, List.cons_append]
      · rw [List.append_assoc]
        rfl

theorem headerObjects_lines {rounds : Nat} {first : Bool} {p : List UInt8}
    {lines : List (List UInt8)} (hLines : ∀ line ∈ lines, HeaderLine line) :
    ∀ line ∈ (headerObjects cfg memory rounds first lines p).lines, HeaderLine line := by
  induction rounds generalizing first p lines with
  | zero => exact hLines
  | succ rounds ih =>
    rw [headerObjects]
    split
    · exact hLines
    · split
      · exact hLines
      · split
        · exact hLines
        next line p₁ hObject =>
        apply ih
        intro other hOther
        rcases List.mem_append.mp hOther with hOld | hNew
        · exact hLines other hOld
        · rw [List.mem_singleton.mp hNew]
          exact headerLine_of_object hObject

/-- As many rounds as there are bytes are enough for the loop. -/
theorem headerObjects_rounds {rounds more : Nat} {first : Bool} {lines : List (List UInt8)}
    {p : List UInt8} (hRounds : p.length < rounds) (hMore : p.length < more) :
    headerObjects cfg memory rounds first lines p = headerObjects cfg memory more first lines p := by
  induction rounds generalizing more first lines p with
  | zero => omega
  | succ rounds ih =>
    obtain ⟨more, rfl⟩ : ∃ n, more = n + 1 := ⟨more - 1, by omega⟩
    rw [headerObjects, headerObjects]
    split
    · rfl
    · split
      · rfl
      next p₁ hComma =>
      split
      · rfl
      next line p₂ hObject =>
      have hShorter := length_parseHeaderObject_lt hObject
      have hStart := length_expectComma_le hComma
      exact ih (by omega) (by omega)

/-- An array of objects of strings, with white space around it. -/
def HeaderArray (json : List UInt8) (objects : List Value) : Prop :=
  ∃ (before : Space) (array : Value) (after : Space),
    json = before.bytes ++ array.text ++ after.bytes ∧ array.elements? = some objects

/-- A text is that of one array at most. -/
theorem headerArray_unique {json : List UInt8} {objects objects' : List Value}
    (h : HeaderArray json objects) (h' : HeaderArray json objects') : objects = objects' := by
  obtain ⟨before, array, after, rfl, hElements⟩ := h
  obtain ⟨before', array', after', hText, hElements'⟩ := h'
  rw [document_unique hText] at hElements
  exact Option.some.inj (hElements.symm.trans hElements')

theorem parseHeaders_array {json : List UInt8} {lines : List (List UInt8)}
    (h : parseHeaders cfg memory json = ⟨true, lines⟩) :
    ∃ objects, HeaderArray json objects ∧ List.Forall₂ (Heads cfg) objects lines := by
  unfold parseHeaders at h
  split at h
  · cases h
  split at h
  · cases h
  next p hOpen =>
  obtain ⟨before, hBefore⟩ := skipWs_split json
  obtain ⟨w, hW⟩ := skipWs_split p
  rw [headerObjects] at h
  split at h
  · next p₁ hClose =>
    obtain ⟨hEnd, rfl⟩ := HeaderList.mk.inj h
    obtain ⟨after, hAfter⟩ := skipWs_split p₁
    rw [of_decide_eq_true hEnd, List.append_nil] at hAfter
    refine ⟨[], ⟨before, .emptyArray w, after, ?_, rfl⟩, .nil⟩
    rw [hBefore, expect_eq_some hOpen, hW, expect_eq_some hClose, hAfter, Value.text]
    simp only [List.append_assoc, List.cons_append, List.nil_append]
  · split at h
    · cases h
    next p₁ hFirst =>
    cases hFirst
    split at h
    · cases h
    next line p₂ hObject =>
    rw [← List.nil_append [line]] at h
    obtain ⟨es, after, made, hText, rfl, hMade⟩ := headerObjects_sound hObject h w
    refine ⟨es.values, ⟨before, .array es, after, ?_, rfl⟩, hMade⟩
    rw [hBefore, expect_eq_some hOpen, hW, hText, Value.text]
    simp only [List.append_assoc, List.cons_append, List.nil_append]

/-- Accepted input is an array of objects of strings, with a line for each object in order.  Every
line is one header, also when the input is rejected behind it. -/
theorem parseHeaders_sound (cfg : Config) (memory : List UInt8 → Bool) (json : List UInt8) :
    ((parseHeaders cfg memory json).accepted = true → ∃ objects, HeaderArray json objects ∧
      List.Forall₂ (Heads cfg) objects (parseHeaders cfg memory json).lines) ∧
    ∀ line ∈ (parseHeaders cfg memory json).lines, HeaderLine line := by
  constructor
  · intro hAccepted
    apply parseHeaders_array
    rw [← hAccepted]
  · unfold parseHeaders
    split
    · nofun
    · split
      · nofun
      · exact headerObjects_lines (by nofun)

/-- Two objects with a duplicate and an unknown member. -/
theorem parseHeaders_sound_two : ∃ objects, HeaderArray
      (ascii "[\x7b\"name\":\"x\",\"name\":\"a\",\"value\":\"b\"\x7d,\x7b\"value\":\"\",\"q\":\"\",\"name\":\"c\"\x7d]")
      objects ∧ List.Forall₂ (Heads board) objects [ascii "a: b", ascii "c: "] :=
  (parseHeaders_sound board (fun _ => true) _).1 (by decide)

/-! ### The strings of the guest and the strings of C -/

/-- The keys that `parse_header_object` looks for. -/
def headerWords : List (List UInt8) := [ascii "name", ascii "value"]

/-- The line is the text of the last `name` and the text of the last `value`, both whole and without
control characters, and no other key passes for one of the two. -/
def Whole (object : Value) (line : List UInt8) : Prop :=
  ∃ members name value, object.strings? = some members ∧
    lastNamed (ascii "name") members = some name ∧
    lastNamed (ascii "value") members = some value ∧ line = name ++ ascii ": " ++ value ∧
    (∀ b ∈ name ++ value, PlainByte b) ∧
    ∀ member ∈ members, ∀ word ∈ headerWords, strEq member.1 word = true → member.1 = word

/-- No key is one of the words with a NUL behind it, and there is no NUL in the last member of
either name. -/
def NulFree (object : Value) : Prop :=
  ∃ members, object.strings? = some members ∧ ∀ word ∈ headerWords,
    (∀ member ∈ members, ∀ rest, member.1 ≠ word ++ 0 :: rest) ∧
    ∀ text, lastNamed word members = some text → (0 : UInt8) ∉ text

theorem headerWords_nulFree : ∀ word ∈ headerWords, (0 : UInt8) ∉ word := by decide

theorem strEq_self (word : List UInt8) : strEq word word = true := beq_self_eq_true _

/-- Where only the words themselves pass for the words, the fields are those of the last members. -/
theorem foldl_store {members : List (List UInt8 × List UInt8)} {fields : HeaderFields}
    (h : ∀ member ∈ members, ∀ word ∈ headerWords, strEq member.1 word = true → member.1 = word) :
    members.foldl HeaderFields.store fields =
      ⟨lastNamed (ascii "name") members <|> fields.name,
        lastNamed (ascii "value") members <|> fields.value⟩ := by
  induction members generalizing fields with
  | nil => rfl
  | cons member members ih =>
    obtain ⟨hMember, hMembers⟩ := List.forall_mem_cons.mp h
    have hEq : ∀ word ∈ headerWords, strEq member.1 word = true ↔ member.1 = word :=
      fun word hWord => ⟨hMember word hWord, fun hEq => hEq ▸ strEq_self member.1⟩
    rw [List.foldl_cons, ih hMembers, lastNamed, lastNamed, HeaderFields.store]
    simp only [hEq (ascii "name") (by decide), hEq (ascii "value") (by decide)]
    split
    · next hName =>
      have hOther : member.1 ≠ ascii "value" := by rw [hName]; decide
      cases lastNamed (ascii "name") members <;> simp [hOther]
    · split
      · cases lastNamed (ascii "value") members <;> simp
      · simp

theorem whole_iff_nulFree {object : Value} {line : List UInt8} (h : Heads cfg object line) :
    Whole object line ↔ NulFree object := by
  obtain ⟨members, hStrings, hLine⟩ := h
  constructor
  · rintro ⟨members', name, value, hStrings', hName, hValue, -, hPlain, hWords⟩
    obtain rfl := Option.some.inj (hStrings.symm.trans hStrings')
    have hNul : (0 : UInt8) ∉ name ++ value := fun h0 => absurd (hPlain 0 h0).1 (by decide)
    rw [List.mem_append, not_or] at hNul
    refine ⟨members, hStrings, fun word hWord => ⟨fun member hMember rest hKey => ?_, ?_⟩⟩
    · have hPass := (strEq_iff (headerWords_nulFree word hWord)).mpr (.inr ⟨rest, hKey⟩)
      rw [hWords member hMember word hWord hPass] at hKey
      simpa using congrArg List.length hKey
    · simp only [headerWords, List.mem_cons, List.not_mem_nil, or_false] at hWord
      rcases hWord with rfl | rfl
      · rintro text hText
        rw [← Option.some.inj (hName.symm.trans hText)]
        exact hNul.1
      · rintro text hText
        rw [← Option.some.inj (hValue.symm.trans hText)]
        exact hNul.2
  · rintro ⟨members', hStrings', hFree⟩
    obtain rfl := Option.some.inj (hStrings.symm.trans hStrings')
    have hWords : ∀ member ∈ members, ∀ word ∈ headerWords,
        strEq member.1 word = true → member.1 = word := by
      intro member hMember word hWord hPass
      rcases (strEq_iff (headerWords_nulFree word hWord)).mp hPass with hKey | ⟨rest, hKey⟩
      · exact hKey
      · exact absurd hKey ((hFree word hWord).1 member hMember rest)
    rw [foldl_store hWords] at hLine
    obtain ⟨name, value, hName, hValue, rfl, -, -, hPlainName, hPlainValue⟩ := line_eq_some hLine
    replace hName : lastNamed (ascii "name") members = some name := by
      simpa [HeaderFields.empty] using hName
    replace hValue : lastNamed (ascii "value") members = some value := by
      simpa [HeaderFields.empty] using hValue
    have hNameFree := (hFree (ascii "name") (by decide)).2 name hName
    have hValueFree := (hFree (ascii "value") (by decide)).2 value hValue
    rw [cString_of_nulFree hNameFree] at hPlainName ⊢
    rw [cString_of_nulFree hValueFree] at hPlainValue ⊢
    exact ⟨members, name, value, hStrings, hName, hValue, rfl,
      List.forall_mem_append.mpr ⟨hPlainName, hPlainValue⟩, hWords⟩

theorem forall₂_whole_iff {objects : List Value} {lines : List (List UInt8)}
    (h : List.Forall₂ (Heads cfg) objects lines) :
    List.Forall₂ Whole objects lines ↔ ∀ object ∈ objects, NulFree object := by
  induction h with
  | nil => simp
  | cons hHeads _ ih => rw [List.forall₂_cons, List.forall_mem_cons, whole_iff_nulFree hHeads, ih]

/-- Accepted input is an array, and its lines are those of the objects read whole exactly when no NUL
stands where the strings of C end early. -/
theorem parseHeaders_whole_iff {json : List UInt8} {lines : List (List UInt8)}
    (h : parseHeaders cfg memory json = ⟨true, lines⟩) : (∃ objects, HeaderArray json objects) ∧
      ∀ objects, HeaderArray json objects →
        (List.Forall₂ Whole objects lines ↔ ∀ object ∈ objects, NulFree object) := by
  obtain ⟨objects, hArray, hHeads⟩ := parseHeaders_array h
  refine ⟨⟨objects, hArray⟩, fun objects' hArray' => ?_⟩
  rw [headerArray_unique hArray' hArray]
  exact forall₂_whole_iff hHeads

/-- A header with an unknown member. -/
theorem parseHeaders_whole_iff_one :
    (∃ objects, HeaderArray
      (ascii "[\x7b\"name\":\"a\",\"q\":\"\\n\",\"value\":\"b\"\x7d]") objects) ∧
    ∀ objects, HeaderArray
        (ascii "[\x7b\"name\":\"a\",\"q\":\"\\n\",\"value\":\"b\"\x7d]") objects →
      (List.Forall₂ Whole objects [ascii "a: b"] ↔ ∀ object ∈ objects, NulFree object) :=
  parseHeaders_whole_iff
    (show parseHeaders board (fun _ => true) _ = ⟨true, [ascii "a: b"]⟩ by decide)

/-- A value with a NUL in it is cut there, and its header accepted. -/
theorem parseHeaders_cut : ∃ object, HeaderArray
      (ascii "[\x7b\"name\":\"A\",\"value\":\"a\\u0000b\"\x7d]") [object] ∧
    parseHeaders board (fun _ => true)
      (ascii "[\x7b\"name\":\"A\",\"value\":\"a\\u0000b\"\x7d]") = ⟨true, [ascii "A: a"]⟩ ∧
    object.strings? = some [(ascii "name", ascii "A"), (ascii "value", [0x61, 0, 0x62])] ∧
    ¬Whole object (ascii "A: a") := by
  have hStrings : (Value.object (.cons (ascii "name") (.string (encode (ascii "A")))
      (.single (ascii "value") (.string (encode [0x61, 0, 0x62]))))).strings? =
        some [(ascii "name", ascii "A"), (ascii "value", [0x61, 0, 0x62])] := by decide
  refine ⟨_, ⟨.none, .array (.last .none _ .none), .none, by decide, rfl⟩, by decide, hStrings, ?_⟩
  rintro ⟨members, name, value, hMembers, -, hValue, -, hPlain, -⟩
  obtain rfl := Option.some.inj (hStrings.symm.trans hMembers)
  obtain rfl := Option.some.inj (hValue.symm.trans (show _ = some [0x61, 0, 0x62] by decide))
  exact absurd (hPlain 0 (by simp)).1 (by decide)

end Esp32Fx.Native
