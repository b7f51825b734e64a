import Esp32Fx.Lib.PyJsonDepth
import Esp32Fx.Lib.PyText

/-! Serialisations on one line of objects whose last member is an object in turn, down to a last
string: how `loads` reads them, and what stands before and behind that string. -/

namespace Esp32Fx.Lib.PyJson

/-! ### String literals -/

/-- A character of a string as it is written. -/
inductive Item
  | plain (c : Char) (h : 0x20 ≤ c.toNat ∧ c ≠ '"' ∧ c ≠ '\\')
  | escape (c : Char) (unit : Nat) (h : escapes.lookup c = some unit)
  | unicode (a b c d : Char) (unit : Nat) (h : hexUnit a b c d = some unit)

namespace Item

def text : Item → List Char
  | plain c _ => [c]
  | escape c _ _ => ['\\', c]
  | unicode a b c d _ _ => ['\\', 'u', a, b, c, d]

def unit : Item → Nat
  | plain c _ => c.toNat
  | escape _ unit _ => unit
  | unicode _ _ _ _ unit _ => unit

end Item

/-- What stands between the quotes. -/
abbrev Literal := List Item

namespace Literal

def text (l : Literal) : List Char := l.flatMap Item.text

def value (l : Literal) : Str := joinSurrogates (l.map Item.unit)

end Literal

variable {rest tail : List Char}

theorem escapes_lookup {c : Char} {unit : Nat} (h : escapes.lookup c = some unit) : c ≠ 'u' := by
  rintro rfl
  cases h

theorem scanUnits_item (i : Item) (rest : List Char) : scanUnits (i.text ++ rest) =
    (scanUnits rest).map fun r => (i.unit :: r.1, r.2) := by
  cases i with
  | plain c h =>
    have hMark : ¬(c = '\\' ∨ c.toNat < 0x20) := not_or.mpr ⟨h.2.2, Nat.not_lt.mpr h.1⟩
    rw [Item.text, List.singleton_append, scanUnits, if_neg hMark]
    · rfl
    · exact h.2.1
    · exact fun _ _ _ _ _ hSame => absurd hSame h.2.2
    · exact fun _ _ hSame => absurd hSame h.2.2
  | escape c unit h =>
    simp only [Item.text, List.cons_append, List.nil_append]
    rw [scanUnits, h]
    · rfl
    · exact fun _ _ _ _ _ hSame => absurd hSame (escapes_lookup h)
  | unicode a b c d unit h =>
    simp only [Item.text, List.cons_append, List.nil_append]
    rw [scanUnits, h]
    rfl

theorem scanUnits_literal (l : Literal) (rest : List Char) :
    scanUnits (l.text ++ '"' :: rest) = some (l.map Item.unit, rest) := by
  induction l with
  | nil => rfl
  | cons i l ih =>
    rw [Literal.text, List.flatMap_cons, List.append_assoc, scanUnits_item, ← Literal.text, ih]
    rfl

theorem scanString_literal (l : Literal) (rest : List Char) :
    scanString (l.text ++ '"' :: rest) = some (l.value, rest) := by
  rw [scanString, scanUnits_literal]
  rfl

/-- A literal stays inside its string. -/
theorem literal_inside (l : Literal) : l.text.foldl Quoting.next .inside = .inside := by
  induction l with
  | nil => rfl
  | cons i l ih =>
    have hItem : i.text.foldl Quoting.next .inside = .inside := by
      cases i with
      | plain c h => simp [Item.text, Quoting.next, h.2.1, h.2.2]
      | escape c unit h => rfl
      | unicode a b c d unit h => exact next_hexUnit h []
    rw [Literal.text, List.flatMap_cons, List.foldl_append, hItem]
    exact ih

/-- In a literal a backslash stands before the first quote, so that outside of strings it is
nothing with a string. -/
theorem literal_stringless (l : Literal) (hRest : Stringless rest) :
    Stringless (l.text ++ rest) := by
  induction l with
  | nil => exact hRest
  | cons i l ih =>
    have hEscape (c : Char) (text : List Char) : Stringless ('\\' :: c :: text) := by
      intro before after hText hBefore
      cases before with
      | nil => cases hText
      | cons b before =>
        obtain ⟨rfl, -⟩ := List.cons.inj hText
        exact absurd List.mem_cons_self hBefore
    rw [Literal.text, List.flatMap_cons, List.append_assoc]
    cases i with
    | plain c h =>
      intro before after hText hBefore
      cases before with
      | nil =>
        obtain ⟨rfl, -⟩ := List.cons.inj hText
        exact absurd rfl h.2.1
      | cons b before =>
        obtain ⟨-, hText⟩ := List.cons.inj hText
        exact ih before after hText fun hMem => hBefore (List.mem_cons_of_mem _ hMem)
    | escape c unit h => exact hEscape _ _
    | unicode a b c d unit h => exact hEscape _ _

theorem stringless_nil : Stringless [] := by
  intro before after hText
  cases before <;> cases hText

theorem stringless_quote (h : '"' ∉ tail) : Stringless ('"' :: tail) := by
  intro before after hText _
  cases before with
  | nil =>
    obtain ⟨-, rfl⟩ := List.cons.inj hText
    exact h
  | cons b before =>
    obtain ⟨-, rfl⟩ := List.cons.inj hText
    exact absurd (by simp) h

/-! ### Objects down to a last string -/

/-- White space in a line. -/
structure Blank where
  text : List Char
  blank : ∀ c ∈ text, c = ' ' ∨ c = '\t'

/-- A text that a string can hold as it is and that stays in its line. -/
structure Plain where
  text : List Char
  plain : ∀ c ∈ text, (0x20 ≤ c.toNat ∧ c ≠ '"' ∧ c ≠ '\\') ∧ Py.isLineBreak c = false

namespace Plain

def literal (p : Plain) : Literal := p.text.attach.map fun c => .plain c.1 (p.plain c.1 c.2).1

/-- The string that it is. -/
def value (p : Plain) : Str := p.literal.value

def quoted (p : Plain) : List Char := '"' :: p.text ++ ['"']

end Plain

/-- A key up to its value. -/
structure Key where
  before : Blank
  name : Plain
  afterName : Blank
  afterColon : Blank

namespace Key

/-- The key behind its opening quote. -/
def inner (k : Key) : List Char :=
  k.name.text ++ '"' :: k.afterName.text ++ ':' :: k.afterColon.text

def text (k : Key) : List Char := k.before.text ++ '"' :: k.inner

end Key

/-- A member with a string. -/
structure Member where
  key : Key
  value : Plain
  after : Blank

namespace Member

def text (m : Member) : List Char := m.key.text ++ m.value.quoted ++ m.after.text

def pair (m : Member) : Str × Value := (m.key.name.value, .string m.value.value)

end Member

/-- An object with its last member's value left out. -/
structure Layer where
  members : List Member
  key : Key
  after : Blank

namespace Layer

def opening (l : Layer) : List Char :=
  '{' :: l.members.flatMap (fun m => m.text ++ [',']) ++ l.key.text

def closing (l : Layer) : List Char := l.after.text ++ ['}']

/-- The object with a value in that place. -/
def object (l : Layer) (v : Value) : Value :=
  .object (l.members.map Member.pair ++ [(l.key.name.value, v)])

end Layer

/-- What stands before the last string. -/
def head (layers : List Layer) : List Char := layers.flatMap Layer.opening

/-- What stands behind the last string. -/
def foot (layers : List Layer) : List Char := layers.reverse.flatMap Layer.closing

/-- Objects within one another, the outermost first, and a string in the last of them. -/
def nest (layers : List Layer) (l : Literal) : List Char :=
  head layers ++ '"' :: l.text ++ '"' :: foot layers

def nested (layers : List Layer) (l : Literal) : Value :=
  layers.foldr Layer.object (.string l.value)

theorem nest_cons (layer : Layer) (layers : List Layer) (l : Literal) :
    nest (layer :: layers) l = layer.opening ++ nest layers l ++ layer.closing := by
  simp [nest, head, foot]

/-! ### How they are read -/

theorem Blank.skip (b : Blank) {c : Char} (hMark : isSpace c = false) (rest : List Char) :
    PyJson.skip (b.text ++ c :: rest) = c :: rest := by
  have hAll : ∀ c ∈ b.text, isSpace c = true := by
    intro c hMem
    obtain rfl | rfl := b.blank c hMem <;> decide
  rw [PyJson.skip, List.dropWhile_append_of_pos hAll, List.dropWhile_cons_of_neg]
  simp [hMark]

theorem Plain.literal_text (p : Plain) : p.literal.text = p.text := by
  rw [literal, Literal.text, List.flatMap_map]
  simp [Item.text]

theorem Plain.value_eq (p : Plain) : p.value = joinSurrogates (p.text.map Char.toNat) := by
  rw [value, Literal.value, literal, List.map_map]
  exact congrArg joinSurrogates (List.attach_map_val (f := Char.toNat))

theorem Plain.scan (p : Plain) (rest : List Char) :
    scanString (p.text ++ '"' :: rest) = some (p.value, rest) := by
  rw [← p.literal_text]
  exact scanString_literal _ _

theorem parseValue_string {fuel : Nat} (hFuel : 0 < fuel) (l : Literal) (rest : List Char) :
    parseValue fuel ('"' :: l.text ++ '"' :: rest) = some (.string l.value, rest) := by
  obtain ⟨fuel, rfl⟩ := Nat.exists_eq_add_one_of_ne_zero hFuel.ne'
  rw [List.cons_append, parseValue, if_pos rfl, scanString_literal]
  rfl

theorem Plain.parse (p : Plain) {fuel : Nat} (hFuel : 0 < fuel) (rest : List Char) :
    parseValue fuel (p.quoted ++ rest) = some (.string p.value, rest) := by
  have hText : p.quoted ++ rest = '"' :: p.literal.text ++ '"' :: rest := by
    rw [p.literal_text, quoted, List.append_assoc, List.singleton_append]
  rw [hText]
  exact parseValue_string hFuel _ _

theorem Key.inner_append (k : Key) (more : List Char) : k.inner ++ more =
    k.name.text ++ '"' :: (k.afterName.text ++ ':' :: (k.afterColon.text ++ more)) := by
  simp [inner]

theorem Key.skip (k : Key) (more : List Char) :
    PyJson.skip (k.text ++ more) = '"' :: (k.inner ++ more) := by
  rw [text, List.append_assoc, List.cons_append]
  exact k.before.skip (by decide) _

variable {fuel : Nat} {c : Char} {value more : List Char} {v : Value}

/-- A member whose value a brace follows. -/
theorem parseMembers_last (k : Key) (hMark : isSpace c = false)
    (hValue : parseValue fuel (c :: value) = some (v, more)) (hMore : skip more = '}' :: rest) :
    parseMembers (fuel + 1) (k.inner ++ c :: value) = some ([(k.name.value, v)], rest) := by
  rw [k.inner_append, parseMembers, k.name.scan]
  simp only [k.afterName.skip (show isSpace ':' = false by decide), k.afterColon.skip hMark, hValue,
    hMore]

/-- A member whose value a comma and a key follow. -/
theorem parseMembers_more (k : Key) (hMark : isSpace c = false) {behind inner : List Char}
    {members : List (Str × Value)} (hValue : parseValue fuel (c :: value) = some (v, more))
    (hMore : skip more = ',' :: behind) (hKey : skip behind = '"' :: inner)
    (hMembers : parseMembers fuel inner = some (members, rest)) :
    parseMembers (fuel + 1) (k.inner ++ c :: value) =
      some ((k.name.value, v) :: members, rest) := by
  rw [k.inner_append, parseMembers, k.name.scan]
  simp only [k.afterName.skip (show isSpace ':' = false by decide), k.afterColon.skip hMark, hValue,
    hMore, hKey, hMembers, Option.map_some]

/-- Members with strings, and a last one. -/
theorem parseMembers_layer (members : List Member) (key : Key) (after : Blank) {n : Nat}
    (hMark : isSpace c = false) (hPositive : 0 < n)
    (hValue : ∀ fuel, n ≤ fuel →
      parseValue fuel (c :: value) = some (v, after.text ++ '}' :: rest)) :
    ∃ inner, skip (members.flatMap (fun m => m.text ++ [',']) ++ key.text ++ c :: value) =
        '"' :: inner ∧ ∀ fuel, n + members.length + 1 ≤ fuel → parseMembers fuel inner =
          some (members.map Member.pair ++ [(key.name.value, v)], rest) := by
  induction members with
  | nil =>
    refine ⟨key.inner ++ c :: value, key.skip _, ?_⟩
    intro fuel hFuel
    obtain ⟨fuel, rfl⟩ : ∃ k, fuel = k + 1 := ⟨fuel - 1, by omega⟩
    have hLast := hValue fuel (by simp at hFuel; omega)
    exact parseMembers_last key hMark hLast (after.skip (by decide) _)
  | cons m members ih =>
    obtain ⟨inner, hKey, hMembers⟩ := ih
    let behind := members.flatMap (fun m => m.text ++ [',']) ++ key.text ++ c :: value
    refine ⟨m.key.inner ++ (m.value.quoted ++ (m.after.text ++ ',' :: behind)), ?_, ?_⟩
    · have hText : (m :: members).flatMap (fun m => m.text ++ [',']) ++ key.text ++ c :: value =
          m.key.text ++ (m.value.quoted ++ (m.after.text ++ ',' :: behind)) := by
        simp [Member.text, behind]
      rw [hText]
      exact m.key.skip _
    · intro fuel hFuel
      obtain ⟨fuel, rfl⟩ : ∃ k, fuel = k + 1 := ⟨fuel - 1, by omega⟩
      have hOthers := hMembers fuel (by simp at hFuel; omega)
      have hFirst := m.value.parse (show 0 < fuel by simp at hFuel; omega)
        (m.after.text ++ ',' :: behind)
      exact parseMembers_more m.key (by decide) hFirst (m.after.skip (by decide) _) hKey hOthers

/-- The depth that the reader needs for the objects. -/
def depth : List Layer → Nat
  | [] => 1
  | layer :: layers => depth layers + layer.members.length + 2

theorem depth_pos (layers : List Layer) : 0 < depth layers := by
  cases layers with
  | nil => exact Nat.one_pos
  | cons layer layers => exact Nat.succ_pos _

theorem nest_start (layers : List Layer) (l : Literal) :
    ∃ c value, nest layers l = c :: value ∧ isSpace c = false ∧ c ≠ '\ufeff' := by
  cases layers with
  | nil => exact ⟨'"', _, rfl, by decide⟩
  | cons layer layers =>
    rw [nest_cons]
    exact ⟨'{', _, rfl, by decide⟩

/-- The objects are read as they were written. -/
theorem parseValue_nest (layers : List Layer) (l : Literal) (rest : List Char)
    (hFuel : depth layers ≤ fuel) :
    parseValue fuel (nest layers l ++ rest) = some (nested layers l, rest) := by
  induction layers generalizing fuel rest with
  | nil =>
    have hText : nest [] l ++ rest = '"' :: l.text ++ '"' :: rest := by
      simp [nest, head, foot]
    rw [hText]
    exact parseValue_string hFuel l rest
  | cons layer layers ih =>
    rw [depth] at hFuel
    obtain ⟨fuel, rfl⟩ : ∃ k, fuel = k + 1 := ⟨fuel - 1, by omega⟩
    obtain ⟨c, value, hStart, hMark, -⟩ := nest_start layers l
    have hValue : ∀ fuel, depth layers ≤ fuel →
        parseValue fuel (c :: (value ++ (layer.after.text ++ '}' :: rest))) =
          some (nested layers l, layer.after.text ++ '}' :: rest) := by
      intro fuel hFuel
      rw [← List.cons_append, ← hStart]
      exact ih _ hFuel
    obtain ⟨inner, hKey, hMembers⟩ := parseMembers_layer layer.members layer.key layer.after hMark
      (depth_pos layers) hValue
    have hText : nest (layer :: layers) l ++ rest =
        '{' :: (layer.members.flatMap (fun m => m.text ++ [',']) ++ layer.key.text ++
          c :: (value ++ (layer.after.text ++ '}' :: rest))) := by
      rw [nest_cons, hStart]
      simp [Layer.opening, Layer.closing]
    rw [hText, parseValue, if_neg (by decide), if_pos rfl, hKey]
    simp only [hMembers fuel (by omega), Option.map_some]
    rfl

theorem loads_nest (layers : List Layer) (l : Literal) :
    loads (nest layers l) = some (nested layers l) := by
  obtain ⟨c, value, hStart, hMark, hOrder⟩ := nest_start layers l
  have hSkip : skip (nest layers l) = nest layers l := by
    rw [hStart, skip, List.dropWhile_cons_of_neg]
    simp [hMark]
  have hNoOrder : (nest layers l).head? ≠ some '\ufeff' := by
    rw [hStart]
    simpa using hOrder
  have hParse := parseValue_nest layers l [] (Nat.le_refl (depth layers))
  rw [List.append_nil] at hParse
  exact loads_eq_some.mpr ⟨hNoOrder, _, [], by rw [hSkip, hParse], rfl⟩

/-! ### Before and behind the last string -/

theorem Blank.outside (b : Blank) : b.text.foldl Quoting.next .outside = .outside := by
  have hBlank := b.blank
  generalize b.text = text at hBlank ⊢
  induction text with
  | nil => rfl
  | cons c text ih =>
    obtain ⟨hFirst, hRest⟩ := List.forall_mem_cons.mp hBlank
    have hNext : Quoting.outside.next c = .outside := by
      obtain rfl | rfl := hFirst <;> decide
    rw [List.foldl_cons, hNext]
    exact ih hRest

theorem Plain.inside (p : Plain) : p.text.foldl Quoting.next .inside = .inside := by
  rw [← p.literal_text]
  exact literal_inside _

theorem Plain.quoted_outside (p : Plain) : p.quoted.foldl Quoting.next .outside = .outside := by
  rw [quoted, List.foldl_append, List.foldl_cons]
  exact congrArg (fun q => [_].foldl Quoting.next q) p.inside

theorem Key.outside (k : Key) : k.text.foldl Quoting.next .outside = .outside := by
  have hText : k.text =
      k.before.text ++ (k.name.quoted ++ (k.afterName.text ++ ([':'] ++ k.afterColon.text))) := by
    simp [text, inner, Plain.quoted]
  have hColon : [':'].foldl Quoting.next .outside = .outside := by decide
  rw [hText, List.foldl_append, k.before.outside, List.foldl_append, k.name.quoted_outside,
    List.foldl_append, k.afterName.outside, List.foldl_append, hColon, k.afterColon.outside]

theorem Member.outside (m : Member) :
    (m.text ++ [',']).foldl Quoting.next .outside = .outside := by
  rw [text, List.foldl_append, List.foldl_append, List.foldl_append, m.key.outside,
    m.value.quoted_outside, m.after.outside]
  rfl

theorem outside_flatMap {α : Type} {f : α → List Char}
    (h : ∀ a, (f a).foldl Quoting.next .outside = .outside) (all : List α) :
    (all.flatMap f).foldl Quoting.next .outside = .outside := by
  induction all with
  | nil => rfl
  | cons a all ih => rw [List.flatMap_cons, List.foldl_append, h, ih]

theorem quoting_head (layers : List Layer) : quoting (head layers) = .outside := by
  apply outside_flatMap
  intro layer
  have hBrace : Quoting.outside.next '{' = .outside := by decide
  rw [Layer.opening, List.cons_append, List.foldl_cons, hBrace, List.foldl_append,
    outside_flatMap Member.outside, layer.key.outside]

theorem foot_marks (layers : List Layer) : ∀ c ∈ foot layers, c = ' ' ∨ c = '\t' ∨ c = '}' := by
  intro c hMem
  obtain ⟨layer, -, hClosing⟩ := List.mem_flatMap.mp hMem
  obtain hBlank | hBrace := List.mem_append.mp hClosing
  · obtain hBlank | hBlank := layer.after.blank c hBlank
    · exact .inl hBlank
    · exact .inr (.inl hBlank)
  · exact .inr (.inr (List.mem_singleton.mp hBrace))

/-- No line ends before the last string. -/
def InOneLine (text : List Char) : Prop := ∀ c ∈ text, Py.isLineBreak c = false

theorem InOneLine.append {text text' : List Char} (h : InOneLine text) (h' : InOneLine text') :
    InOneLine (text ++ text') := List.forall_mem_append.mpr ⟨h, h'⟩

theorem hexValue_inLine {c : Char} {n : Nat} (h : hexValue c = some n) :
    Py.isLineBreak c = false := by
  have hRange : 0x30 ≤ c.toNat ∧ c.toNat ≤ 0x66 := by
    rw [hexValue] at h
    split at h
    · next hDigit => exact ⟨hDigit.1, Nat.le_trans hDigit.2 (by decide)⟩
    · split at h
      · next hLetter => exact ⟨Nat.le_trans (by decide) hLetter.1, hLetter.2⟩
      · split at h
        · next hLetter =>
          exact ⟨Nat.le_trans (by decide) hLetter.1, Nat.le_trans hLetter.2 (by decide)⟩
        · cases h
  simp only [Py.isLineBreak, Bool.or_eq_false_iff, Bool.and_eq_false_iff, decide_eq_false_iff_not,
    beq_eq_false_iff_ne]
  omega

/-- Only a character that stands for itself can end a line, and no control character below a space
does. -/
theorem Item.breaks (i : Item) :
    (∃ c, i.text = [c] ∧ Py.isLineBreak c = true ∧ 0x20 ≤ c.toNat) ∨ InOneLine i.text := by
  cases i with
  | plain c h =>
    cases hBreak : Py.isLineBreak c with
    | true => exact .inl ⟨c, rfl, hBreak, h.1⟩
    | false =>
      refine .inr fun c' hMem => ?_
      rw [List.mem_singleton.mp hMem]
      exact hBreak
  | escape c unit h =>
    have hEscapes : ∀ e ∈ escapes, Py.isLineBreak e.1 = false := by decide
    obtain ⟨others, others', hSplit, -⟩ := List.lookup_eq_some_iff.mp h
    have hMem : (c, unit) ∈ escapes := by
      rw [hSplit]
      exact List.mem_append_right _ List.mem_cons_self
    refine .inr (List.forall_mem_cons.mpr ⟨by decide, List.forall_mem_singleton.mpr ?_⟩)
    exact hEscapes _ hMem
  | unicode a b c d unit h =>
    rw [hexUnit] at h
    split at h
    · next ha hb hc hd =>
      refine .inr (List.forall_mem_cons.mpr ⟨by decide, List.forall_mem_cons.mpr ⟨by decide, ?_⟩⟩)
      simp only [List.forall_mem_cons, hexValue_inLine ha, hexValue_inLine hb, hexValue_inLine hc,
        hexValue_inLine hd, true_and]
      exact fun _ hMem => absurd hMem List.not_mem_nil
    · cases h

theorem Blank.inOneLine (b : Blank) : InOneLine b.text := by
  intro c hMem
  obtain rfl | rfl := b.blank c hMem <;> decide

theorem Plain.inOneLine (p : Plain) : InOneLine p.quoted := by
  intro c hMem
  rw [quoted, List.cons_append, List.mem_cons, List.mem_append, List.mem_singleton] at hMem
  obtain rfl | hMem | rfl := hMem
  · decide
  · exact (p.plain c hMem).2
  · decide

theorem Key.inOneLine (k : Key) : InOneLine k.text := by
  have hText : k.text =
      k.before.text ++ (k.name.quoted ++ (k.afterName.text ++ ([':'] ++ k.afterColon.text))) := by
    simp [text, inner, Plain.quoted]
  have hColon : InOneLine [':'] := by
    intro c hMem
    rw [List.mem_singleton.mp hMem]
    decide
  rw [hText]
  exact k.before.inOneLine.append (k.name.inOneLine.append
    (k.afterName.inOneLine.append (hColon.append k.afterColon.inOneLine)))

theorem head_inOneLine (layers : List Layer) : InOneLine (head layers) := by
  intro c hMem
  obtain ⟨layer, -, hOpening⟩ := List.mem_flatMap.mp hMem
  rw [Layer.opening, List.cons_append, List.mem_cons, List.mem_append, List.mem_flatMap] at hOpening
  obtain rfl | ⟨m, -, hMember⟩ | hKey := hOpening
  · decide
  · have hComma : InOneLine [','] := by
      intro c hMem
      rw [List.mem_singleton.mp hMem]
      decide
    exact (((m.key.inOneLine.append m.value.inOneLine).append m.after.inOneLine).append hComma) c
      hMember
  · exact layer.key.inOneLine c hKey

end Esp32Fx.Lib.PyJson
