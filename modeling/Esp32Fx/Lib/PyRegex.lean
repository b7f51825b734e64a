import Mathlib.Data.List.Basic
import Mathlib.Data.List.TakeWhile
import Esp32Fx.Lib.PyText

/-! The functions `sub` and `findall` of Python's `re` under `re.MULTILINE`, by backtracking, and
what they do line by line.  A text is a number of lines with their line feeds and what stands behind
the last of these. -/

namespace Esp32Fx.Lib.Py

inductive Pattern
  /-- `^` -/
  | lineStart
  /-- `$` -/
  | lineEnd
  | literal (text : List Char)
  /-- `.*` -/
  | lineRest
  | seq (p q : Pattern)
  | alt (p q : Pattern)
  /-- A group in parentheses that is captured. -/
  | group (p : Pattern)

/-- A place in the text, and the groups that were captured on the way, the latest first. -/
structure Place where
  atLineStart : Bool
  rest : List Char
  groups : List (List Char)
  deriving DecidableEq, Repr

def Place.advance (c : Place) (length : Nat) : Place :=
  match (c.rest.take length).getLast? with
  | none => c
  | some b => ⟨b = '\n', c.rest.drop length, c.groups⟩

namespace Pattern

/-- `(?:p)?` -/
def optional (p : Pattern) : Pattern := .alt p (.literal [])

/-- The places behind what the pattern can take, in the order in which they are tried. -/
def run : Pattern → Place → List Place
  | lineStart, c => if c.atLineStart then [c] else []
  | lineEnd, c => if c.rest = [] ∨ c.rest.head? = some '\n' then [c] else []
  | literal text, c => if text <+: c.rest then [c.advance text.length] else []
  | lineRest, c =>
    (List.range ((c.rest.takeWhile (· != '\n')).length + 1)).reverse.map c.advance
  | seq p q, c => (run p c).flatMap (run q)
  | alt p q, c => run p c ++ run q c
  | group p, c => (run p c).map fun d =>
    { d with groups := c.rest.take (c.rest.length - d.rest.length) :: d.groups }

end Pattern

/-- What a scan finds: a character that stays, or a match with its groups. -/
inductive Piece
  | char (c : Char)
  | found (groups : List (List Char))
  deriving DecidableEq, Repr

/-- The scan of a text for the matches of a pattern that takes at least a character. -/
def pieces (p : Pattern) (atLineStart : Bool) : List Char → List Piece
  | [] => []
  | c :: rest =>
    match (p.run ⟨atLineStart, c :: rest, []⟩).head? with
    | some d =>
      if d.rest.length < (c :: rest).length then .found d.groups :: pieces p d.atLineStart d.rest
      else .char c :: pieces p (c = '\n') rest
    | none => .char c :: pieces p (c = '\n') rest
termination_by text => text.length
decreasing_by
  · assumption
  · exact Nat.lt_succ_self _
  · exact Nat.lt_succ_self _

/-- `re.sub`. -/
def sub (p : Pattern) (replacement text : List Char) : List Char :=
  (pieces p true text).flatMap fun
    | .char c => [c]
    | .found _ => replacement

/-- `re.findall` with a pattern of one group. -/
def findall (p : Pattern) (text : List Char) : List (List Char) :=
  (pieces p true text).filterMap fun
    | .char _ => none
    | .found groups => groups.head?

/-- The lines with their line feeds. -/
def unlines (lines : List (List Char)) : List Char := lines.flatMap (· ++ ['\n'])

@[simp] theorem unlines_nil : unlines [] = [] := rfl

@[simp] theorem unlines_cons (line : List Char) (lines : List (List Char)) :
    unlines (line :: lines) = line ++ '\n' :: unlines lines := by
  simp [unlines]

@[simp] theorem unlines_append (lines lines' : List (List Char)) :
    unlines (lines ++ lines') = unlines lines ++ unlines lines' := List.flatMap_append

/-- The lines of a text without their line feeds. -/
def lines : List Char → List (List Char)
  | [] => []
  | c :: rest =>
    if c = '\n' then [] :: lines rest
    else
      match lines rest with
      | [] => [[c]]
      | line :: more => (c :: line) :: more

example : lines "a\n\nb".toList = ["a", "", "b"].map String.toList := by decide

/-- A text without line feeds. -/
def IsLine (text : List Char) : Prop := '\n' ∉ text

instance : DecidablePred IsLine := fun text => inferInstanceAs (Decidable ('\n' ∉ text))

theorem lines_line {line : List Char} (h : IsLine line) (rest : List Char) :
    lines (line ++ '\n' :: rest) = line :: lines rest := by
  induction line with
  | nil => rfl
  | cons c line ih =>
    have hFirst : c ≠ '\n' := fun hBreak => h (by simp [hBreak])
    have hRest : IsLine line := fun hMem => h (List.mem_cons_of_mem _ hMem)
    rw [List.cons_append, lines, if_neg hFirst, ih hRest]

theorem lines_last {line : List Char} (h : IsLine line) :
    lines line = if line = [] then [] else [line] := by
  induction line with
  | nil => rfl
  | cons c line ih =>
    have hFirst : c ≠ '\n' := fun hBreak => h (by simp [hBreak])
    have hRest : IsLine line := fun hMem => h (List.mem_cons_of_mem _ hMem)
    rw [lines, if_neg hFirst, ih hRest, if_neg (List.cons_ne_nil _ _)]
    cases line with
    | nil => rfl
    | cons c' line => rfl

theorem lines_unlines {all : List (List Char)} {last : List Char}
    (hLines : ∀ line ∈ all, IsLine line) (hLast : IsLine last) :
    lines (unlines all ++ last) = all ++ if last = [] then [] else [last] := by
  induction all with
  | nil => exact lines_last hLast
  | cons line all ih =>
    rw [unlines_cons, List.append_assoc, List.cons_append, lines_line (hLines line (by simp)),
      ih fun l hl => hLines l (List.mem_cons_of_mem _ hl), List.cons_append]

/-- Every text is a number of lines and what stands behind them. -/
theorem exists_lines (text : List Char) : ∃ lines last, (∀ line ∈ lines, IsLine line) ∧
    IsLine last ∧ text = unlines lines ++ last := by
  induction text with
  | nil => exact ⟨[], [], by simp, List.not_mem_nil, rfl⟩
  | cons c rest ih =>
    obtain ⟨lines, last, hLines, hLast, rfl⟩ := ih
    by_cases hBreak : c = '\n'
    · subst hBreak
      refine ⟨[] :: lines, last, ?_, hLast, by simp⟩
      rintro line (_ | ⟨_, hLine⟩)
      · exact List.not_mem_nil
      · exact hLines line hLine
    · have hStarts {line : List Char} (h : IsLine line) : IsLine (c :: line) := by
        rintro (_ | ⟨_, hMem⟩)
        · exact hBreak rfl
        · exact h hMem
      cases lines with
      | nil => exact ⟨[], c :: last, hLines, hStarts hLast, by simp⟩
      | cons line lines =>
        refine ⟨(c :: line) :: lines, last, ?_, hLast, by simp⟩
        rintro line' (_ | ⟨_, hLine⟩)
        · exact hStarts (hLines line (by simp))
        · exact hLines line' (List.mem_cons_of_mem _ hLine)

/-! ### Patterns that stay in a line -/

namespace Place

/-- The place with more text behind. -/
def more (text : List Char) (c : Place) : Place := { c with rest := c.rest ++ text }

variable {c : Place} {length : Nat}

theorem advance_more (h : length ≤ c.rest.length) (text : List Char) :
    (c.more text).advance length = (c.advance length).more text := by
  simp only [advance, more, List.take_append_of_le_length h, List.drop_append_of_le_length h]
  cases (c.rest.take length).getLast? with
  | none => rfl
  | some b => rfl

theorem advance_rest (c : Place) (length : Nat) : (c.advance length).rest <:+ c.rest := by
  rw [advance]
  split
  · exact List.suffix_refl _
  · exact List.drop_suffix _ _

end Place

theorem IsLine.suffix {text text' : List Char} (h : IsLine text) (hSuffix : text' <:+ text) :
    IsLine text' := fun hMem => h (hSuffix.subset hMem)

theorem IsLine.takeWhile {line : List Char} (h : IsLine line) (rest : List Char) :
    (line ++ '\n' :: rest).takeWhile (· != '\n') = line := by
  have hAll : ∀ c ∈ line, (c != '\n') = true := by
    intro c hMem
    rw [bne_iff_ne]
    rintro rfl
    exact h hMem
  rw [List.takeWhile_append_of_pos hAll]
  simp

theorem IsLine.takeWhile_self {line : List Char} (h : IsLine line) :
    line.takeWhile (· != '\n') = line := by
  rw [List.takeWhile_eq_self_iff]
  intro c hMem
  rw [bne_iff_ne]
  rintro rfl
  exact h hMem

/-- A word without line feeds that starts a text ends before the first line feed. -/
theorem IsLine.start_iff {word line : List Char} (h : IsLine word) (rest : List Char) :
    word <+: line ++ '\n' :: rest ↔ word <+: line := by
  constructor
  · intro hStart
    by_cases hLength : word.length ≤ line.length
    · exact List.prefix_of_prefix_length_le hStart (List.prefix_append _ _) hLength
    · have hFeed : line ++ ['\n'] <+: word := by
        apply List.prefix_of_prefix_length_le _ hStart
        · simp only [List.length_append, List.length_singleton]
          omega
        · exact ⟨rest, by simp⟩
      exact absurd (hFeed.subset (by simp)) h
  · intro hStart
    exact hStart.trans (List.prefix_append _ _)

namespace Pattern

/-- No literal of the pattern has a line feed. -/
def InLine : Pattern → Prop
  | literal text => IsLine text
  | seq p q | alt p q => InLine p ∧ InLine q
  | group p => InLine p
  | _ => True

theorem run_rest {p : Pattern} {c d : Place} (h : d ∈ run p c) : d.rest <:+ c.rest := by
  induction p generalizing c d with
  | lineStart | lineEnd =>
    rw [run] at h
    split at h
    · obtain rfl := List.mem_singleton.mp h
      exact List.suffix_refl _
    · cases h
  | literal text =>
    rw [run] at h
    split at h
    · rw [List.mem_singleton.mp h]
      exact c.advance_rest _
    · cases h
  | lineRest =>
    obtain ⟨length, -, rfl⟩ := List.mem_map.mp h
    exact c.advance_rest _
  | seq p q ihp ihq =>
    obtain ⟨e, hFirst, hSecond⟩ := List.mem_flatMap.mp h
    exact (ihq hSecond).trans (ihp hFirst)
  | alt p q ihp ihq =>
    cases List.mem_append.mp h with
    | inl h => exact ihp h
    | inr h => exact ihq h
  | group p ih =>
    obtain ⟨e, hInner, rfl⟩ := List.mem_map.mp h
    have hRest : e.rest <:+ c.rest := ih hInner
    exact hRest

/-- Such a pattern takes of a line what it takes of the line alone. -/
theorem run_line {p : Pattern} (hp : p.InLine) {c : Place} (hLine : IsLine c.rest)
    (rest : List Char) :
    run p (c.more ('\n' :: rest)) = (run p c).map (·.more ('\n' :: rest)) := by
  induction p generalizing c with
  | lineStart =>
    by_cases hStart : c.atLineStart = true
    · simp [run, Place.more, hStart]
    · simp [run, Place.more, hStart]
  | lineEnd =>
    have hEnd : (c.rest = [] ∨ c.rest.head? = some '\n') ↔ c.rest = [] := by
      constructor
      · rintro (h | h)
        · exact h
        · exact absurd (List.mem_of_mem_head? h) hLine
      · exact Or.inl
    have hMore : ((c.more ('\n' :: rest)).rest = [] ∨
        (c.more ('\n' :: rest)).rest.head? = some '\n') ↔ c.rest = [] := by
      obtain ⟨b, _ | ⟨x, text⟩, groups⟩ := c
      · simp [Place.more]
      · have hFirst : x ≠ '\n' := fun h => hLine (by simp [h])
        simp [Place.more, hFirst]
    simp only [run, hEnd, hMore]
    split <;> rfl
  | literal text =>
    have hMore : text <+: (c.more ('\n' :: rest)).rest ↔ text <+: c.rest := IsLine.start_iff hp rest
    by_cases hStart : text <+: c.rest
    · simp only [run, hMore, hStart, if_true, List.map_singleton,
        Place.advance_more hStart.length_le]
    · simp only [run, hMore, hStart, if_false, List.map_nil]
  | lineRest =>
    simp only [run, List.map_map]
    rw [show (c.more ('\n' :: rest)).rest = c.rest ++ '\n' :: rest from rfl, hLine.takeWhile,
      hLine.takeWhile_self]
    apply List.map_congr_left
    intro length hLength
    apply Place.advance_more
    rw [List.mem_reverse, List.mem_range] at hLength
    omega
  | seq p q ihp ihq =>
    simp only [run, ihp hp.1 hLine, List.flatMap_map, List.map_flatMap]
    apply List.flatMap_congr
    intro d hMem
    exact ihq hp.2 (hLine.suffix (run_rest hMem))
  | alt p q ihp ihq =>
    simp only [run, ihp hp.1 hLine, ihq hp.2 hLine, List.map_append]
  | group p ih =>
    simp only [run, ih hp hLine, List.map_map]
    apply List.map_congr_left
    intro d hMem
    have hLengths : (c.rest ++ '\n' :: rest).length - (d.rest ++ '\n' :: rest).length =
        c.rest.length - d.rest.length := by
      simp only [List.length_append]
      omega
    simp only [Function.comp_apply, Place.more, hLengths,
      List.take_append_of_le_length (Nat.sub_le _ _)]

end Pattern

/-! ### Scans line by line -/

variable {p : Pattern}

theorem pieces_found {b : Bool} {text : List Char} {d : Place}
    (h : (p.run ⟨b, text, []⟩).head? = some d) (hShorter : d.rest.length < text.length) :
    pieces p b text = .found d.groups :: pieces p d.atLineStart d.rest := by
  cases text with
  | nil => exact absurd hShorter (Nat.not_lt_zero _)
  | cons c rest =>
    rw [pieces, h]
    simp only [if_pos hShorter]

theorem pieces_char {b : Bool} {c : Char} {rest : List Char}
    (h : (p.run ⟨b, c :: rest, []⟩).head? = none) :
    pieces p b (c :: rest) = .char c :: pieces p (c = '\n') rest := by
  rw [pieces, h]

/-- A pattern that stays in a line finds in a line what it finds in the line alone. -/
theorem pieces_line (hp : p.InLine) (b : Bool) {line : List Char} (hLine : IsLine line)
    (rest : List Char) : pieces p b (line ++ '\n' :: rest) =
      pieces p b line ++ .char '\n' :: pieces p true rest := by
  fun_induction pieces p b line with
  | case1 b =>
    have hRun := Pattern.run_line hp (c := ⟨b, [], []⟩) List.not_mem_nil rest
    rw [Place.more, List.nil_append] at hRun
    rw [List.nil_append, pieces, hRun, List.head?_map]
    cases hHead : (p.run ⟨b, [], []⟩).head? with
    | none => rfl
    | some d =>
      have hRest : d.rest = [] := List.suffix_nil.mp (Pattern.run_rest (List.mem_of_mem_head? hHead))
      simp [Place.more, hRest]
  | case2 b c text d hHead hShorter ih =>
    have hRest : IsLine d.rest := hLine.suffix (Pattern.run_rest (List.mem_of_mem_head? hHead))
    have hRun := Pattern.run_line hp (c := ⟨b, c :: text, []⟩) hLine rest
    rw [Place.more, List.cons_append] at hRun
    rw [List.cons_append, pieces, hRun, List.head?_map, hHead]
    have hMore : (d.more ('\n' :: rest)).rest.length < (c :: (text ++ '\n' :: rest)).length := by
      simp only [Place.more, List.length_append, List.length_cons] at hShorter ⊢
      omega
    simp only [Option.map_some, if_pos hMore]
    rw [Place.more, ih hRest, List.cons_append]
  | case3 b c text d hHead hLonger ih =>
    have hRun := Pattern.run_line hp (c := ⟨b, c :: text, []⟩) hLine rest
    rw [Place.more, List.cons_append] at hRun
    rw [List.cons_append, pieces, hRun, List.head?_map, hHead]
    have hMore : ¬(d.more ('\n' :: rest)).rest.length < (c :: (text ++ '\n' :: rest)).length := by
      simp only [Place.more, List.length_append, List.length_cons] at hLonger ⊢
      omega
    simp only [Option.map_some, if_neg hMore]
    rw [ih (hLine.suffix (List.suffix_cons _ _)), List.cons_append]
  | case4 b c text hHead ih =>
    have hRun := Pattern.run_line hp (c := ⟨b, c :: text, []⟩) hLine rest
    rw [Place.more, List.cons_append] at hRun
    rw [List.cons_append, pieces, hRun, List.head?_map, hHead]
    simp only [Option.map_none]
    rw [ih (hLine.suffix (List.suffix_cons _ _)), List.cons_append]

theorem char_mem_pieces {b : Bool} {text : List Char} {c : Char} (h : .char c ∈ pieces p b text) :
    c ∈ text := by
  fun_induction pieces p b text with
  | case1 => cases h
  | case2 b c' rest d hHead hShorter ih =>
    cases h with
    | tail _ h => exact (Pattern.run_rest (List.mem_of_mem_head? hHead)).subset (ih h)
  | case3 b c' rest d hHead hLonger ih =>
    cases h with
    | head => exact List.mem_cons_self
    | tail _ h => exact List.mem_cons_of_mem _ (ih h)
  | case4 b c' rest hHead ih =>
    cases h with
    | head => exact List.mem_cons_self
    | tail _ h => exact List.mem_cons_of_mem _ (ih h)

theorem mem_of_sub {text : List Char} {c : Char} (h : c ∈ sub p [] text) : c ∈ text := by
  obtain ⟨piece, hPiece, hMem⟩ := List.mem_flatMap.mp h
  cases piece with
  | char c' =>
    rw [List.mem_singleton.mp hMem]
    exact char_mem_pieces hPiece
  | found groups => cases hMem

theorem findall_line (hp : p.InLine) {line : List Char} (hLine : IsLine line)
    (rest : List Char) : findall p (line ++ '\n' :: rest) = findall p line ++ findall p rest := by
  rw [findall, pieces_line hp true hLine, List.filterMap_append]
  rfl

/-- Behind lines, a pattern that stays in a line finds what it finds from there. -/
theorem findall_unlines (hp : p.InLine) {lines : List (List Char)}
    (hLines : ∀ line ∈ lines, IsLine line) (rest : List Char) :
    findall p (unlines lines ++ rest) = lines.flatMap (findall p) ++ findall p rest := by
  induction lines with
  | nil => rfl
  | cons line lines ih =>
    rw [unlines_cons, List.append_assoc, List.cons_append,
      findall_line hp (hLines line List.mem_cons_self),
      ih fun l hl => hLines l (List.mem_cons_of_mem _ hl), List.flatMap_cons, List.append_assoc]

theorem findall_append (hp : p.InLine) {before : List Char} (h : EndsLine before)
    (after : List Char) : findall p (before ++ after) = findall p before ++ findall p after := by
  have hNone : findall p [] = [] := by rw [findall, pieces, List.filterMap_nil]
  obtain rfl | hLast := h
  · rw [hNone]
    rfl
  · obtain ⟨front, rfl⟩ := List.getLast?_eq_some_iff.mp hLast
    obtain ⟨lines, last, hLines, hLine, rfl⟩ := exists_lines front
    rw [List.append_assoc, List.append_assoc, List.singleton_append,
      findall_unlines hp hLines, findall_line hp hLine, List.append_assoc,
      findall_unlines hp hLines, findall_line hp hLine, hNone, List.append_nil, List.append_assoc]

/-! ### Patterns that take whole lines -/

/-- The pattern takes a line that it can start at, with its line feed, and nothing else. -/
structure TakesLines (p : Pattern) (takes : List Char → Bool) : Prop where
  starts : ∀ line rest, IsLine line →
    ((p.run ⟨true, line ++ '\n' :: rest, []⟩).head?.map fun d => (d.atLineStart, d.rest)) =
      if takes line then some (true, rest) else none
  ends : ∀ line, IsLine line → ((p.run ⟨true, line, []⟩).head?.map fun d => d.rest) =
    if takes line then some [] else none
  inside : ∀ rest, p.run ⟨false, rest, []⟩ = []

/-- A pattern that finds nothing inside a line finds nothing up to the line feed. -/
theorem pieces_inside (hp : ∀ rest, p.run ⟨false, rest, []⟩ = []) {line : List Char}
    (hLine : IsLine line) (rest : List Char) :
    pieces p false (line ++ '\n' :: rest) =
      line.map .char ++ .char '\n' :: pieces p true rest := by
  induction line with
  | nil =>
    rw [List.nil_append, pieces, hp]
    rfl
  | cons c line ih =>
    have hFirst : c ≠ '\n' := fun h => hLine (by simp [h])
    rw [List.cons_append, pieces, hp]
    simp only [List.head?_nil, hFirst, decide_false, ih (hLine.suffix (List.suffix_cons _ _)),
      List.map_cons, List.cons_append]

theorem pieces_inside_end (hp : ∀ rest, p.run ⟨false, rest, []⟩ = []) {line : List Char}
    (hLine : IsLine line) : pieces p false line = line.map .char := by
  induction line with
  | nil => rw [pieces, List.map_nil]
  | cons c line ih =>
    have hFirst : c ≠ '\n' := fun h => hLine (by simp [h])
    rw [pieces, hp]
    simp only [List.head?_nil, hFirst, decide_false, ih (hLine.suffix (List.suffix_cons _ _)),
      List.map_cons]

theorem findall_none (hp : ∀ rest, p.run ⟨false, rest, []⟩ = []) {line : List Char}
    (hLine : IsLine line) (hStart : p.run ⟨true, line, []⟩ = []) : findall p line = [] := by
  cases line with
  | nil => rw [findall, pieces, List.filterMap_nil]
  | cons c line =>
    have hFirst : c ≠ '\n' := fun h => hLine (by simp [h])
    rw [findall, pieces, hStart]
    simp only [List.head?_nil, hFirst, decide_false,
      pieces_inside_end hp (hLine.suffix (List.suffix_cons _ _)), List.filterMap_cons]
    rw [List.filterMap_map, List.filterMap_eq_nil_iff]
    exact fun _ _ => rfl

/-- The characters that stay. -/
theorem flatMap_chars (line : List Char) : (line.map Piece.char).flatMap (fun
    | .char c => [c]
    | .found _ => []) = line := by
  rw [List.flatMap_map, List.flatMap_singleton']

variable {takes : List Char → Bool}

theorem sub_line (hp : TakesLines p takes) {line : List Char} (hLine : IsLine line)
    (rest : List Char) : sub p [] (line ++ '\n' :: rest) =
      (if takes line then [] else line ++ ['\n']) ++ sub p [] rest := by
  have hHead := hp.starts line rest hLine
  by_cases hTakes : takes line = true
  · rw [if_pos hTakes] at hHead
    obtain ⟨⟨b, rest', groups⟩, hFound, hPlace⟩ := Option.map_eq_some_iff.mp hHead
    obtain ⟨rfl, rfl⟩ := Prod.mk.inj hPlace
    have hShorter : rest'.length < (line ++ '\n' :: rest').length := by
      simp only [List.length_append, List.length_cons]
      omega
    rw [if_pos hTakes, sub, pieces_found hFound hShorter]
    rfl
  · rw [if_neg hTakes, Option.map_eq_none_iff] at hHead
    rw [if_neg hTakes]
    cases line with
    | nil =>
      rw [List.nil_append, sub, pieces_char hHead]
      rfl
    | cons c line =>
      have hFirst : c ≠ '\n' := fun h => hLine (by simp [h])
      rw [List.cons_append] at hHead ⊢
      rw [sub, pieces_char hHead]
      simp only [hFirst, decide_false, List.flatMap_cons, List.flatMap_append, flatMap_chars,
        pieces_inside hp.inside (hLine.suffix (List.suffix_cons _ _))]
      simp [sub]

theorem sub_last (hp : TakesLines p takes) {line : List Char} (hLine : IsLine line) :
    sub p [] line = if takes line then [] else line := by
  have hHead := hp.ends line hLine
  cases line with
  | nil => simp [sub, pieces]
  | cons c line =>
    have hFirst : c ≠ '\n' := fun h => hLine (by simp [h])
    by_cases hTakes : takes (c :: line) = true
    · rw [if_pos hTakes] at hHead ⊢
      obtain ⟨d, hFound, hRest⟩ := Option.map_eq_some_iff.mp hHead
      rw [sub, pieces_found hFound (by simp [hRest]), hRest, pieces]
      rfl
    · rw [if_neg hTakes] at hHead ⊢
      rw [sub, pieces_char (Option.map_eq_none_iff.mp hHead)]
      simp only [hFirst, decide_false, List.flatMap_cons, flatMap_chars,
        pieces_inside_end hp.inside (hLine.suffix (List.suffix_cons _ _))]
      rfl

/-- Such a pattern is taken out line by line. -/
theorem sub_unlines (hp : TakesLines p takes) {lines : List (List Char)} {last : List Char}
    (hLines : ∀ line ∈ lines, IsLine line) (hLast : IsLine last) :
    sub p [] (unlines lines ++ last) =
      unlines (lines.filter (!takes ·)) ++ if takes last then [] else last := by
  induction lines with
  | nil => exact sub_last hp hLast
  | cons line lines ih =>
    rw [unlines_cons, List.append_assoc, List.cons_append, sub_line hp (hLines line (by simp)),
      ih fun l hl => hLines l (List.mem_cons_of_mem _ hl)]
    by_cases hTakes : takes line = true
    · simp [hTakes]
    · simp [hTakes]

namespace Pattern

/-! ### Whether a pattern can start -/

variable {p q : Pattern} {c : Place} {word : List Char}

theorem literal_ne_nil : run (.literal word) c ≠ [] ↔ word <+: c.rest := by
  rw [run]
  split <;> simp [*]

theorem seq_literal_ne_nil : run (.seq (.literal word) q) c ≠ [] ↔
    word <+: c.rest ∧ run q (c.advance word.length) ≠ [] := by
  rw [run, run]
  split <;> simp [*]

theorem alt_ne_nil : run (.alt p q) c ≠ [] ↔ run p c ≠ [] ∨ run q c ≠ [] := by
  rw [run, ne_eq, List.append_eq_nil_iff, not_and_or]

theorem seq_optional_ne_nil : run (.seq (optional p) q) c ≠ [] ↔
    run (.seq p q) c ≠ [] ∨ run q c ≠ [] := by
  have hNothing : run (.literal []) c = [c] := by
    rw [run, if_pos List.nil_prefix]
    rfl
  have hBoth : run (optional p) c = run p c ++ [c] := by rw [optional, run, hNothing]
  rw [run, hBoth, List.flatMap_append, List.flatMap_singleton, ne_eq, List.append_eq_nil_iff,
    not_and_or, run]

/-! ### To the end of the line -/

/-- `.*\n?` -/
def lineTail : Pattern := .seq .lineRest (.optional (.literal ['\n']))

theorem advance_rest_eq (c : Place) (length : Nat) :
    (c.advance length).rest = c.rest.drop length := by
  rw [Place.advance]
  cases hLast : (c.rest.take length).getLast? with
  | none =>
    obtain hZero | hNil := List.take_eq_nil_iff.mp (List.getLast?_eq_none_iff.mp hLast)
    · simp [hZero]
    · simp [hNil]
  | some b => rfl

theorem head?_seq_lineRest (q : Pattern) (c : Place) :
    ∃ others, run (.seq .lineRest q) c =
      run q (c.advance (c.rest.takeWhile (· != '\n')).length) ++ others := by
  rw [run, run, List.range_succ, List.reverse_append, List.map_append, List.flatMap_append]
  exact ⟨_, congrArg (· ++ _) (List.flatMap_singleton ..)⟩

theorem advance_feed {c : Place} {rest : List Char} (hRest : c.rest = '\n' :: rest) :
    c.advance 1 = ⟨true, rest, c.groups⟩ := by
  simp [Place.advance, hRest]

theorem head?_lineTail {c : Place} {line : List Char} (hLine : IsLine line) {rest : List Char}
    (hRest : c.rest = line ++ '\n' :: rest) :
    ((run lineTail c).head?.map fun d => (d.atLineStart, d.rest)) = some (true, rest) := by
  obtain ⟨others, hRun⟩ := head?_seq_lineRest (.optional (.literal ['\n'])) c
  have hBehind : (c.advance line.length).rest = '\n' :: rest := by
    rw [advance_rest_eq, hRest, List.drop_left]
  have hFeed : ['\n'] <+: (c.advance line.length).rest := by
    rw [hBehind]
    exact ⟨rest, rfl⟩
  rw [lineTail, hRun, hRest, hLine.takeWhile, optional, run, run, if_pos hFeed,
    show ['\n'].length = 1 from rfl, advance_feed hBehind]
  rfl

theorem head?_lineTail_end {c : Place} (hLine : IsLine c.rest) :
    ((run lineTail c).head?.map fun d => d.rest) = some [] := by
  obtain ⟨others, hRun⟩ := head?_seq_lineRest (.optional (.literal ['\n'])) c
  have hBehind : (c.advance c.rest.length).rest = [] := by
    rw [advance_rest_eq, List.drop_length]
  have hFeed : ¬['\n'] <+: (c.advance c.rest.length).rest := by
    rw [hBehind]
    simp
  rw [lineTail, hRun, hLine.takeWhile_self, optional, run, run, if_neg hFeed, run,
    if_pos (List.nil_prefix)]
  exact congrArg some hBehind

end Pattern

/-- A pattern that stays in a line and goes on to its end takes the lines that it can start at. -/
theorem takesLines_lineTail {p : Pattern} (hp : p.InLine)
    (hInside : ∀ rest, p.run ⟨false, rest, []⟩ = []) :
    TakesLines (.seq p .lineTail) fun line => !(p.run ⟨true, line, []⟩).isEmpty where
  starts line rest hLine := by
    have hRun := Pattern.run_line hp (c := ⟨true, line, []⟩) hLine rest
    rw [Place.more] at hRun
    rw [Pattern.run, hRun]
    cases hHere : p.run ⟨true, line, []⟩ with
    | nil => rfl
    | cons d others =>
      have hMem : d ∈ p.run ⟨true, line, []⟩ := by
        rw [hHere]
        exact List.mem_cons_self
      have hRest : IsLine d.rest := hLine.suffix (Pattern.run_rest hMem)
      obtain ⟨e, hTail, hPlace⟩ := Option.map_eq_some_iff.mp
        (Pattern.head?_lineTail (c := d.more ('\n' :: rest)) hRest rfl)
      rw [List.map_cons, List.flatMap_cons, List.head?_append, hTail]
      exact congrArg some hPlace
  ends line hLine := by
    rw [Pattern.run]
    cases hHere : p.run ⟨true, line, []⟩ with
    | nil => rfl
    | cons d others =>
      have hMem : d ∈ p.run ⟨true, line, []⟩ := by
        rw [hHere]
        exact List.mem_cons_self
      have hRest : IsLine d.rest := hLine.suffix (Pattern.run_rest hMem)
      obtain ⟨e, hTail, hPlace⟩ := Option.map_eq_some_iff.mp (Pattern.head?_lineTail_end hRest)
      rw [List.flatMap_cons, List.head?_append, hTail]
      exact congrArg some hPlace
  inside rest := by rw [Pattern.run, hInside, List.flatMap_nil]

end Esp32Fx.Lib.Py
