import Esp32Fx.Eink.Lookup
import Mathlib.Data.List.Find

/-! What `find_json_key` promises for a text: the first member with a name, at any depth.  It holds
while every string up to that member's name fits the buffer of the decoder.  Behind a string that
does not, the search takes the closing quote for an opening one. -/

namespace Esp32Fx.Eink

open Lib Lib.Json

/-- One or more letters of ASCII. -/
structure Letters (name : List UInt8) : Prop where
  nonempty : name ≠ []
  letters : ∀ b ∈ name, (0x41 ≤ b.toNat ∧ b.toNat ≤ 0x5a) ∨ (0x61 ≤ b.toNat ∧ b.toNat ≤ 0x7a)

/-- No `\u0000`. -/
def NoNul (l : Literal) : Prop :=
  ∀ d₁ d₂ d₃ d₄, .unicode d₁ d₂ d₃ d₄ ∈ l → Item.unit d₁ d₂ d₃ d₄ ≠ 0

/-- The first member with a name, in document order and at any depth. -/
def firstNamed (name : List UInt8) (places : List Place) : Option Place :=
  places.find? fun p => p.key.decode = some name

/-! ### Names -/

theorem ofNat_ne_zero {n : Nat} (h : 0 < n) (hMax : n < 256) : UInt8.ofNat n ≠ 0 := by
  intro hZero
  have hNat := congrArg UInt8.toNat hZero
  rw [UInt8.toNat_ofNat', Nat.mod_eq_of_lt hMax] at hNat
  simp at hNat
  omega

theorem utf8Bytes_nulFree {c : Nat} (h : c ≠ 0) (hMax : c ≤ 0xffff) : (0 : UInt8) ∉ utf8Bytes c := by
  by_cases hSurrogate : isSurrogate c = true
  · simp only [isSurrogate, Bool.and_eq_true, decide_eq_true_eq] at hSurrogate
    rw [utf8Bytes, if_neg (by omega), if_neg (by omega), if_neg (by omega)]
    decide
  rw [utf8Bytes_eq hMax (Bool.eq_false_iff.mpr hSurrogate), utf8]
  split
  · have hByte := ofNat_ne_zero (n := c) (by omega) (by omega)
    exact List.not_mem_cons_of_ne_of_not_mem hByte.symm List.not_mem_nil
  split
  · have h₁ := ofNat_ne_zero (n := 0xc0 + c / 64) (by omega) (by omega)
    have h₂ := ofNat_ne_zero (n := 0x80 + c % 64) (by omega) (by omega)
    simp only [List.mem_cons, List.not_mem_nil, or_false, not_or]
    exact ⟨h₁.symm, h₂.symm⟩
  have h₁ := ofNat_ne_zero (n := 0xe0 + c / 4096) (by omega) (by omega)
  have h₂ := ofNat_ne_zero (n := 0x80 + c / 64 % 64) (by omega) (by omega)
  have h₃ := ofNat_ne_zero (n := 0x80 + c % 64) (by omega) (by omega)
  simp only [List.mem_cons, List.not_mem_nil, or_false, not_or]
  exact ⟨h₁.symm, h₂.symm, h₃.symm⟩

theorem literalBytes_nulFree {l : Literal} (h : NoNul l) : (0 : UInt8) ∉ literalBytes l := by
  intro hMem
  obtain ⟨i, hItem, hByte⟩ := List.mem_flatMap.mp hMem
  cases i with
  | plain b hb =>
    obtain rfl := List.mem_singleton.mp hByte
    exact absurd hb.1 (by decide)
  | escape e =>
    rw [itemBytes, List.mem_singleton] at hByte
    revert hByte
    cases e <;> decide
  | unicode d₁ d₂ d₃ d₄ =>
    exact utf8Bytes_nulFree (h d₁ d₂ d₃ d₄ hItem) (unit_le d₁ d₂ d₃ d₄) hByte

theorem Letters.nulFree {name : List UInt8} (h : Letters name) : (0 : UInt8) ∉ name := by
  intro hMem
  have := h.letters 0 hMem
  simp at this

theorem Letters.cString {name : List UInt8} (h : Letters name) : cString name ≠ [] := by
  rw [cString_of_nulFree h.nulFree]
  exact h.nonempty

theorem matchesKey_iff {name : List UInt8} (hName : Letters name) {l : Literal} (hNul : NoNul l) :
    matchesKey name l = true ↔ l.decode = some name := by
  rw [matchesKey, strEq, beq_iff_eq, cString_of_nulFree (literalBytes_nulFree hNul),
    cString_of_nulFree hName.nulFree]
  constructor
  · intro hEq
    have hWhole : l.NoSurrogate := by
      intro d₁ d₂ d₃ d₄ hMem
      by_contra hSurrogate
      -- A surrogate is decoded as a question mark, which is no letter.
      have hMark : (0x3f : UInt8) ∈ literalBytes l := by
        refine List.mem_flatMap.mpr ⟨_, hMem, ?_⟩
        rw [Bool.not_eq_false] at hSurrogate
        simp only [isSurrogate, Bool.and_eq_true, decide_eq_true_eq] at hSurrogate
        rw [itemBytes, utf8Bytes, if_neg (by omega), if_neg (by omega), if_neg (by omega)]
        exact List.mem_singleton_self _
      rw [hEq] at hMark
      have := hName.letters _ hMark
      simp at this
    rw [decode_eq_literalBytes hWhole, hEq]
  · intro hDecode
    have hWhole := noSurrogate_of_decode hDecode fun b hb => by
      have := hName.letters b hb
      omega
    rw [decode_eq_literalBytes hWhole] at hDecode
    exact Option.some.inj hDecode

/-! ### The search for a name -/

mutual

/-- The key of a member is a literal of the text. -/
theorem value_places_key : (v : Value) → (rest : List UInt8) →
    ∀ p ∈ v.places rest, p.key ∈ v.literals
  | .word _, _, p, hp | .number _, _, p, hp | .string _, _, p, hp | .emptyArray _, _, p, hp
  | .emptyObject _, _, p, hp => by
    rw [Value.places] at hp
    exact absurd hp List.not_mem_nil
  | .array es, rest, p, hp => by
    rw [Value.places] at hp
    rw [Value.literals]
    exact elements_places_key es _ p hp
  | .object ms, rest, p, hp => by
    rw [Value.places] at hp
    rw [Value.literals]
    exact members_places_key ms _ p hp

theorem elements_places_key : (es : Elements) → (rest : List UInt8) →
    ∀ p ∈ es.places rest, p.key ∈ es.literals
  | .last _ v after, rest, p, hp => by
    rw [Elements.places] at hp
    rw [Elements.literals]
    exact value_places_key v _ p hp
  | .more _ v after es, rest, p, hp => by
    rw [Elements.places, List.mem_append] at hp
    rw [Elements.literals, List.mem_append]
    rcases hp with hp | hp
    · exact .inl (value_places_key v _ p hp)
    · exact .inr (elements_places_key es rest p hp)

theorem members_places_key : (ms : Members) → (rest : List UInt8) →
    ∀ p ∈ ms.places rest, p.key ∈ ms.literals
  | .last _ key _ _ v after, rest, p, hp => by
    rw [Members.places, List.mem_cons] at hp
    rw [Members.literals, List.mem_cons]
    rcases hp with rfl | hp
    · exact .inl rfl
    · exact .inr (value_places_key v _ p hp)
  | .more _ key _ _ v after ms, rest, p, hp => by
    rw [Members.places, List.mem_cons, List.mem_append] at hp
    rw [Members.literals, List.mem_cons, List.mem_append]
    rcases hp with rfl | hp | hp
    · exact .inl rfl
    · exact .inr (.inl (value_places_key v _ p hp))
    · exact .inr (.inr (members_places_key ms rest p hp))

end

theorem value_places_keys (name : List UInt8) {v : Value} {rest : List UInt8}
    (hNul : ∀ l ∈ v.literals, NoNul l) (hName : Letters name) :
    firstPlace name (v.places rest) = firstNamed name (v.places rest) := by
  refine List.find?_congr fun p hp => ?_
  have hKey : NoNul p.key := hNul p.key (value_places_key v rest p hp)
  rw [Bool.eq_iff_iff, matchesKey_iff hName hKey, decide_eq_true_eq]

/-- The text behind a value, up to the end of the line. -/
theorem line_end (w : Space) {ending : List UInt8} (h : ending = [] ∨ ending = [0x0a]) :
    NotColon (w.bytes ++ ending) ∧ strchr 0x22 (w.bytes ++ ending) = none := by
  have hSpaces : ∀ b ∈ w.bytes ++ ending, isspace b = true := by
    intro b hb
    rcases List.mem_append.mp hb with hb | hb
    · exact isspace_space w b hb
    · rcases h with rfl | rfl
      · cases hb
      · rw [List.mem_singleton.mp hb]
        decide
  constructor
  · have hEmpty : skipWhitespace (w.bytes ++ ending) = [] := List.dropWhile_eq_nil_iff.mpr hSpaces
    rw [NotColon, hEmpty]
    decide
  · rw [strchr_append (fun hMem => (space_ne w _ hMem).1 rfl)
      (fun hMem => (space_ne w _ hMem).2 rfl)]
    rcases h with rfl | rfl <;> rfl

/-- While each string up to the name fits the decoder, the search returns the start of the value of
the first member with the name, and nothing when there is none. -/
theorem findJsonKey_named {name ending : List UInt8} {line : Line} (hName : Letters name)
    (hEnding : ending = [] ∨ ending = [0x0a]) (hNul : ∀ l ∈ line.value.literals, NoNul l)
    (hFits : FitsReads name line.value.tokens) :
    findJsonKey (line.body ++ ending) name =
      (firstNamed name (line.value.places (line.after.bytes ++ ending))).map Place.start := by
  obtain ⟨hNext, hRest⟩ := line_end line.after hEnding
  rw [Line.body, List.append_assoc, List.append_assoc, findJsonKey_skip (space_ne line.before),
    findJsonKey_reads hName.cString hFits hNext hRest, value_places_keys name hNul hName]

/-! ### A string that does not fit -/

theorem decodeLoop_full (l : Literal) (rest : List UInt8) {rounds : Nat} {buffer : TextBuffer}
    (hBuffer : buffer.data.length ≤ maxResponseBytes)
    (hFull : maxResponseBytes < buffer.data.length + (literalBytes l).length) :
    decodeLoop rounds (l.flatMap Item.text ++ rest) buffer = none := by
  induction l generalizing rounds buffer with
  | nil =>
    rw [literalBytes_nil, List.length_nil] at hFull
    omega
  | cons i l ih =>
    cases rounds with
    | zero => rfl
    | succ rounds =>
      rw [List.flatMap_cons, List.append_assoc, decodeLoop_item]
      rw [literalBytes_cons, List.length_append] at hFull
      by_cases hItem : buffer.data.length + (itemBytes i).length ≤ maxResponseBytes
      · obtain ⟨next, hNext, hData, -⟩ := bufferAppend_fits hItem
        have hLength : next.data.length = buffer.data.length + (itemBytes i).length := by
          rw [hData, List.length_append]
        rw [hNext]
        exact ih (by omega) (by omega)
      · rw [bufferAppend_full (itemBytes_ne_nil i) (by omega)]
        rfl

theorem decodeJsonString_full {l : Literal} (rest : List UInt8)
    (h : maxResponseBytes < (literalBytes l).length) :
    decodeJsonString (l.text ++ rest) .empty = none := by
  have hTail : (l.text ++ rest).tail = l.flatMap Item.text ++ 0x22 :: rest := by
    simp [Literal.text]
  have hHead : peek (l.text ++ rest) = 0x22 := rfl
  have hLoop : decodeLoop (l.text ++ rest).length (l.flatMap Item.text ++ 0x22 :: rest) .empty = none :=
    decodeLoop_full l (0x22 :: rest) (Nat.zero_le _) (by simpa [TextBuffer.empty] using h)
  rw [decodeJsonString, hHead, hTail, hLoop]
  rfl

/-- Behind the opening quote of a string that does not fit, the search goes on inside the string. -/
theorem findJsonKey_full {wanted : List UInt8} {l : Literal} (rest : List UInt8)
    (h : maxResponseBytes < (literalBytes l).length) :
    findJsonKey (l.text ++ rest) wanted = findJsonKey (l.flatMap Item.text ++ 0x22 :: rest) wanted := by
  have hTail : (l.text ++ rest).tail = l.flatMap Item.text ++ 0x22 :: rest := by
    simp [Literal.text]
  have hQuote : strchr 0x22 (l.text ++ rest) = some (l.text ++ rest) := strchr_self _ _
  have hLength : (l.flatMap Item.text ++ 0x22 :: rest).length < (l.text ++ rest).length := by
    rw [← hTail, List.length_tail]
    have hPos : 0 < (l.text ++ rest).length := Nat.succ_pos _
    omega
  rw [findJsonKey, findJsonKeyLoop]
  simp only [hQuote, decodeJsonString_full rest h, hTail]
  exact findJsonKeyLoop_eq _ hLength

/-- An object with a string of 32769 bytes before the member `id`. -/
def overlongLine : Line where
  before := .none
  value := .object (.cons (ascii "a") (.string (encode (List.replicate 32769 0x78)))
    (.single (ascii "id") (.number (.ofDigit 1))))
  after := .none

theorem flatMap_text_replicate (n : Nat) :
    (encode (List.replicate n 0x78)).flatMap Item.text = List.replicate n 0x78 := by
  induction n with
  | zero => rfl
  | succ n ih =>
    rw [List.replicate_succ, encode_cons, List.flatMap_cons, ih]
    rfl

theorem length_text_replicate (n : Nat) : (encode (List.replicate n 0x78)).text.length = n + 2 := by
  rw [Literal.text, flatMap_text_replicate, List.length_cons, List.length_append,
    List.length_replicate, List.length_singleton]

theorem overlongLine_text : overlongLine.text =
    0x7b :: ((encode (ascii "a")).text ++ 0x3a :: ((encode (List.replicate 32769 0x78)).text ++
      ascii ",\"id\":1\x7d\n")) := by
  have hTail : ascii ",\"id\":1\x7d\n" = 0x2c :: ((encode (ascii "id")).text ++
      0x3a :: ((Number.ofDigit 1).text ++ [0x7d, 0x0a])) := by decide
  rw [hTail]
  simp only [overlongLine, Line.text, Line.body, Value.text, Members.cons, Members.single,
    Members.text, Space.bytes_none, List.append_assoc, List.cons_append, List.nil_append,
    List.append_nil]

theorem overlongLine_named :
    (firstNamed (ascii "id") overlongLine.places).map Place.start = some (ascii "1\x7d\n") := by
  have hA : decide ((encode (ascii "a")).decode = some (ascii "id")) = false := by decide
  have hId : decide ((encode (ascii "id")).decode = some (ascii "id")) = true := by decide
  simp only [firstNamed, Line.places, overlongLine, Value.places, Members.cons, Members.single,
    Members.places, List.nil_append, List.find?_cons, hA, hId, Option.map_some, Place.start,
    Space.bytes_none]
  decide

/-- The search misses the member `id` behind the long string. -/
theorem findJsonKey_overlong : overlongLine.text.length ≤ maxProtocolLineBytes ∧
    (firstNamed (ascii "id") overlongLine.places).map Place.start = some (ascii "1\x7d\n") ∧
    findJsonKey overlongLine.text (ascii "id") = none := by
  have hLong : maxResponseBytes < (literalBytes (encode (List.replicate 32769 0x78))).length := by
    rw [literalBytes_encode, List.length_replicate]
    decide
  refine ⟨?_, overlongLine_named, ?_⟩
  · have hKey : (encode (ascii "a")).text.length = 3 := rfl
    have hEnd : (ascii ",\"id\":1\x7d\n").length = 9 := rfl
    rw [overlongLine_text, List.length_cons, List.length_append, List.length_cons,
      List.length_append, hKey, hEnd, length_text_replicate]
    decide
  · have hPlain : ∀ b ∈ List.replicate 32769 (0x78 : UInt8), b ≠ 0x22 ∧ b ≠ 0 := by
      intro b hb
      rw [List.eq_of_mem_replicate hb]
      decide
    have hName : matchesKey (ascii "id") (encode (ascii "a")) = false := by decide
    rw [overlongLine_text, findJsonKey_cons (by decide),
      findJsonKey_literal (by decide) (by rw [literalBytes_encode]; decide),
      if_neg (by decide), hName, if_neg (by decide)]
    show findJsonKey ((encode (List.replicate 32769 0x78)).text ++ _) _ = none
    rw [findJsonKey_full _ hLong, flatMap_text_replicate, findJsonKey_skip hPlain]
    decide

theorem noNul_encode {s : List UInt8} (h : (0 : UInt8) ∉ s) : NoNul (encode s) := by
  intro d₁ d₂ d₃ d₄ hMem hZero
  obtain ⟨b, hb, hItem⟩ := List.mem_map.mp hMem
  rcases encodeByte_cases b with ⟨e, -, hEncode⟩ | ⟨hPlain, hEncode⟩ | ⟨hLow, hEncode⟩
  · rw [hEncode] at hItem
    cases hItem
  · rw [hEncode] at hItem
    cases hItem
  · rw [hEncode] at hItem
    cases hItem
    rw [unit_lower b hLow] at hZero
    have hb0 : b = 0 := UInt8.toNat_inj.mp (hZero.trans rfl)
    exact h (hb0 ▸ hb)

/-- A string that looks like a member before the member. -/
def shortLine : Line where
  before := .none
  value := .object (.cons (ascii "a") (.string (encode (ascii "\"id\":")))
    (.single (ascii "id") (.number (.ofDigit 1))))
  after := .none

theorem findJsonKey_named_short :
    findJsonKey (shortLine.body ++ [0x0a]) (ascii "id") = some (ascii "1\x7d\n") := by
  have hFits : FitsReads (ascii "id") shortLine.value.tokens := by
    unfold FitsReads
    decide
  have hNul : ∀ l ∈ shortLine.value.literals, NoNul l := by
    simp only [shortLine, Value.literals, Members.cons, Members.single, Members.literals,
      List.nil_append, List.cons_append, List.mem_cons, List.not_mem_nil, or_false]
    rintro l (rfl | rfl | rfl)
    · exact noNul_encode (by decide)
    · exact noNul_encode (by decide)
    · exact noNul_encode (by decide)
  rw [findJsonKey_named ⟨by decide +kernel, by decide +kernel⟩ (.inr rfl) hNul hFits]
  decide

end Esp32Fx.Eink
