import Esp32Fx.Einkctl.SanitizeFacts

/-! Where the tabs of a text without escape sequences lead.  The spaces are counted from the
beginning of the output and not of its line, so a later line has its tab stops in the right places
only when it starts at a multiple of four characters. -/

namespace Esp32Fx.Einkctl

/-- How many characters have been written to the line. -/
def column (output : List UInt8) : Nat := (output.reverse.takeWhile (· ≠ 0x0a)).length

/-- The spaces for a tab behind `before`: they come first, and what is behind them starts at a tab
stop. -/
structure TabStop (before after : List UInt8) : Prop where
  first : sanitizeText (before ++ [0x09]) <+: sanitizeText (before ++ 0x09 :: after)
  spaces : ∃ n, 1 ≤ n ∧ n ≤ 4 ∧
    sanitizeText (before ++ [0x09]) = sanitizeText before ++ List.replicate n 0x20
  stop : column (sanitizeText (before ++ [0x09])) % 4 = 0

abbrev IsLineEnd (byte : UInt8) : Prop := byte = 0x0a ∨ byte = 0x0d

/-- How many characters a text without tabs has, a line end being one of them. -/
def cells : List UInt8 → Nat
  | [] => 0
  | byte :: rest =>
    if byte = 0x0d ∧ rest.head? = some 0x0a then cells rest
    else if 0x80 ≤ byte then cells (rest.dropWhile isUtf8Continuation) + 1
    else if IsLineEnd byte ∨ (0x20 ≤ byte ∧ byte ≤ 0x7e) then cells rest + 1
    else cells rest
termination_by text => text.length
decreasing_by
  all_goals simp only [List.length_cons]
  all_goals first
    | omega
    | exact Nat.lt_succ_of_le (List.length_dropWhile_le ..)

/-- From one tab, or the beginning, to the next tab: the lines that end on the way have a multiple
of four characters. -/
def TabsAligned (text : List UInt8) : Prop :=
  ∀ before head lineEnd tail after,
    text = before ++ (head ++ lineEnd :: tail) ++ 0x09 :: after →
    (before = [] ∨ before.getLast? = some 0x09) → 0x09 ∉ head → IsLineEnd lineEnd →
    (∀ byte ∈ tail, byte ≠ 0x09 ∧ ¬IsLineEnd byte) → cells (head ++ [lineEnd]) % 4 = 0

/-! ### Columns -/

theorem column_append {line : List UInt8} (h : 0x0a ∉ line) (output : List UInt8) :
    column (output ++ line) = column output + line.length := by
  have hLine : ∀ byte ∈ line.reverse, decide (byte ≠ 0x0a) = true := by
    intro byte hByte
    rw [decide_eq_true_eq]
    rintro rfl
    exact h (List.mem_reverse.mp hByte)
  rw [column, List.reverse_append, List.takeWhile_append_of_pos hLine, List.length_append,
    List.length_reverse, Nat.add_comm]
  rfl

theorem column_newline (output : List UInt8) : column (output ++ [0x0a]) = 0 := by
  rw [column, List.reverse_append]
  exact congrArg List.length (List.takeWhile_cons_of_neg (by decide))

/-! ### Texts in parts -/

/-- A place where no character is cut in two and no line end. -/
structure Seam (text rest : List UInt8) : Prop where
  character : ∀ last first, text.getLast? = some last → rest.head? = some first →
    last < 0x80 ∨ isUtf8Continuation first = false
  line : text.getLast? = some 0x0d → rest.head? ≠ some 0x0a

theorem Seam.suffix {text text' rest : List UInt8} (h : Seam text rest) (hSuffix : text' <:+ text) :
    Seam text' rest := by
  obtain ⟨dropped, rfl⟩ := hSuffix
  have hLast : ∀ last, text'.getLast? = some last → (dropped ++ text').getLast? = some last := by
    intro last hLast
    rw [List.getLast?_append, hLast]
    rfl
  exact ⟨fun last first h1 h2 => h.character last first (hLast last h1) h2,
    fun h1 => h.line (hLast _ h1)⟩

theorem isUtf8Continuation_high {byte : UInt8} (h : isUtf8Continuation byte = true) :
    ¬byte < 0x80 := by
  intro hAscii
  rw [isUtf8Continuation_lead (.inl hAscii)] at h
  cases h

/-- The bytes that a character takes are those of its own part. -/
theorem Seam.dropWhile {byte : UInt8} {text rest : List UInt8} (h : Seam (byte :: text) rest)
    (hHigh : 0x80 ≤ byte) :
    (text ++ rest).dropWhile isUtf8Continuation =
      text.dropWhile isUtf8Continuation ++ rest := by
  rw [List.dropWhile_append]
  split
  · next hAll =>
    have hContinues : ∀ byte ∈ text, isUtf8Continuation byte = true :=
      List.dropWhile_eq_nil_iff.mp (List.isEmpty_iff.mp hAll)
    have hLast : ∃ last, (byte :: text).getLast? = some last ∧ ¬last < 0x80 := by
      refine ⟨(byte :: text).getLast (List.cons_ne_nil _ _), List.getLast?_eq_some_getLast _, ?_⟩
      rcases List.mem_cons.mp (List.getLast_mem (List.cons_ne_nil byte text)) with hFirst | hLast
      · rw [hFirst]
        exact UInt8.not_lt.mpr hHigh
      · exact isUtf8Continuation_high (hContinues _ hLast)
    obtain ⟨last, hLast, hLastHigh⟩ := hLast
    rw [List.isEmpty_iff.mp hAll, List.nil_append]
    cases rest with
    | nil => rfl
    | cons first rest =>
      have hFirst := (h.character last first hLast rfl).resolve_left hLastHigh
      exact List.dropWhile_cons_of_neg (by rw [hFirst]; decide)
  · rfl

/-- The bytes that are dropped. -/
theorem sanitizeFrom_dropped {byte : UInt8} (hEscape : byte ≠ 0x1b) (hTab : byte ≠ 0x09)
    (hHigh : ¬0x80 ≤ byte) (hKept : ¬(IsLineEnd byte ∨ IsPrintable byte)) (destination : Nat)
    (rest : List UInt8) :
    sanitizeFrom .none destination (byte :: rest) = sanitizeFrom .none destination rest := by
  refine sanitizeFrom_control _ _ hEscape (fun h => hKept (.inl (.inr h))) hTab ?_ hHigh
  rintro (h | h)
  · exact hKept (.inl (.inl h))
  · exact hKept (.inr h)

theorem sanitizeFrom_append {text rest : List UInt8} (hSeam : Seam text rest)
    (hEscape : 0x1b ∉ text) (destination : Nat) :
    sanitizeFrom .none destination (text ++ rest) = sanitizeFrom .none destination text ++
      sanitizeFrom .none (destination + (sanitizeFrom .none destination text).length) rest := by
  fun_induction cells text generalizing destination with
  | case1 =>
    rw [sanitizeFrom.eq_1 .none]
    rfl
  | case2 byte text hFolded ih =>
    obtain ⟨rfl, hNewline⟩ := hFolded
    have hNext : (text ++ rest).head? = some 0x0a := by
      rw [List.head?_append, hNewline]
      rfl
    rw [List.cons_append, sanitizeFrom_folded _ _ hNext, sanitizeFrom_folded _ _ hNewline]
    exact ih (hSeam.suffix (List.suffix_cons ..)) (fun h => hEscape (List.mem_cons_of_mem _ h)) _
  | case3 byte text _ hHigh ih =>
    have hShorter : text.dropWhile isUtf8Continuation <:+ byte :: text :=
      (List.dropWhile_suffix _).trans (List.suffix_cons ..)
    rw [List.cons_append, sanitizeFrom_high _ _ hHigh, sanitizeFrom_high _ _ hHigh,
      hSeam.dropWhile hHigh, ih (hSeam.suffix hShorter) (fun h => hEscape (hShorter.mem h)),
      List.length_cons, Nat.add_right_comm, Nat.add_assoc]
    rfl
  | case4 byte text hFolded _ hCell ih =>
    have hSeam' : Seam text rest := hSeam.suffix (List.suffix_cons ..)
    have hEscape' : 0x1b ∉ text := fun h => hEscape (List.mem_cons_of_mem _ h)
    rcases hCell with (rfl | rfl) | hPrintable
    · rw [List.cons_append, sanitizeFrom_kept _ _ (.inl rfl), sanitizeFrom_kept _ _ (.inl rfl),
        ih hSeam' hEscape', List.length_cons, Nat.add_right_comm, Nat.add_assoc]
      rfl
    · have hText : text.head? ≠ some 0x0a := fun h => hFolded ⟨rfl, h⟩
      have hNext : (text ++ rest).head? ≠ some 0x0a := by
        cases text with
        | nil => exact hSeam.line rfl
        | cons => exact hText
      rw [List.cons_append, sanitizeFrom_return _ _ hNext, sanitizeFrom_return _ _ hText,
        ih hSeam' hEscape', List.length_cons, Nat.add_right_comm, Nat.add_assoc]
      rfl
    · rw [List.cons_append, sanitizeFrom_kept _ _ (.inr hPrintable),
        sanitizeFrom_kept _ _ (.inr hPrintable), ih hSeam' hEscape', List.length_cons,
        Nat.add_right_comm, Nat.add_assoc]
      rfl
  | case5 byte text _ hHigh hCell ih =>
    have hSeam' : Seam text rest := hSeam.suffix (List.suffix_cons ..)
    have hEscape' : 0x1b ∉ text := fun h => hEscape (List.mem_cons_of_mem _ h)
    have hByte : byte ≠ 0x1b := fun h => hEscape (h ▸ List.mem_cons_self)
    by_cases hTab : byte = 0x09
    · subst hTab
      rw [List.cons_append, sanitizeFrom_tab, sanitizeFrom_tab, ih hSeam' hEscape',
        List.length_append, List.length_replicate, List.append_assoc, Nat.add_assoc]
    · rw [List.cons_append, sanitizeFrom_dropped hByte hTab hHigh hCell,
        sanitizeFrom_dropped hByte hTab hHigh hCell, ih hSeam' hEscape']

theorem sanitizeFrom_cells {text : List UInt8} (hEscape : 0x1b ∉ text) (hTab : 0x09 ∉ text)
    (destination : Nat) : (sanitizeFrom .none destination text).length = cells text := by
  fun_induction cells text generalizing destination with
  | case1 => rw [sanitizeFrom, List.length_nil]
  | case2 byte text hFolded ih =>
    obtain ⟨rfl, hNewline⟩ := hFolded
    rw [List.mem_cons, not_or] at hEscape hTab
    rw [sanitizeFrom_folded _ _ hNewline, ih hEscape.2 hTab.2]
  | case3 byte text _ hHigh ih =>
    have hShorter : text.dropWhile isUtf8Continuation <:+ byte :: text :=
      (List.dropWhile_suffix _).trans (List.suffix_cons ..)
    rw [sanitizeFrom_high _ _ hHigh, List.length_cons,
      ih (fun h => hEscape (hShorter.mem h)) (fun h => hTab (hShorter.mem h))]
  | case4 byte text hFolded _ hCell ih =>
    rw [List.mem_cons, not_or] at hEscape hTab
    rcases hCell with (rfl | rfl) | hPrintable
    · rw [sanitizeFrom_kept _ _ (.inl rfl), List.length_cons, ih hEscape.2 hTab.2]
    · rw [sanitizeFrom_return _ _ fun h => hFolded ⟨rfl, h⟩, List.length_cons,
        ih hEscape.2 hTab.2]
    · rw [sanitizeFrom_kept _ _ (.inr hPrintable), List.length_cons, ih hEscape.2 hTab.2]
  | case5 byte text _ hHigh hCell ih =>
    rw [List.mem_cons, not_or] at hEscape hTab
    rw [sanitizeFrom_dropped (Ne.symm hEscape.1) (Ne.symm hTab.1) hHigh hCell,
      ih hEscape.2 hTab.2]

/-- Without line ends there are none in the output. -/
theorem sanitizeFrom_line {text : List UInt8} (hEscape : 0x1b ∉ text)
    (hLine : ∀ byte ∈ text, ¬IsLineEnd byte) (destination : Nat) :
    0x0a ∉ sanitizeFrom .none destination text := by
  fun_induction cells text generalizing destination with
  | case1 =>
    rw [sanitizeFrom]
    exact List.not_mem_nil
  | case2 byte text hFolded ih => exact absurd (.inr hFolded.1) (hLine byte List.mem_cons_self)
  | case3 byte text _ hHigh ih =>
    have hShorter : text.dropWhile isUtf8Continuation <:+ byte :: text :=
      (List.dropWhile_suffix _).trans (List.suffix_cons ..)
    rw [sanitizeFrom_high _ _ hHigh]
    apply List.not_mem_cons_of_ne_of_not_mem (by decide)
    exact ih (fun h => hEscape (hShorter.mem h)) (fun byte h => hLine byte (hShorter.mem h)) _
  | case4 byte text _ _ hCell ih =>
    obtain ⟨hByte, hText⟩ := List.forall_mem_cons.mp hLine
    rw [sanitizeFrom_kept _ _ (.inr (hCell.resolve_left hByte))]
    apply List.not_mem_cons_of_ne_of_not_mem fun h => hByte (.inl h.symm)
    exact ih (fun h => hEscape (List.mem_cons_of_mem _ h)) hText _
  | case5 byte text _ hHigh hCell ih =>
    obtain ⟨-, hText⟩ := List.forall_mem_cons.mp hLine
    have hByte : byte ≠ 0x1b := fun h => hEscape (h ▸ List.mem_cons_self)
    have hEscape' : 0x1b ∉ text := fun h => hEscape (List.mem_cons_of_mem _ h)
    by_cases hTab : byte = 0x09
    · rw [hTab, sanitizeFrom_tab, List.mem_append, not_or]
      exact ⟨fun h => absurd (List.eq_of_mem_replicate h) (by decide), ih hEscape' hText _⟩
    · rw [sanitizeFrom_dropped hByte hTab hHigh hCell]
      exact ih hEscape' hText _

/-! ### Tabs -/

/-- An ASCII byte that is no newline starts a part. -/
theorem Seam.ascii {first : UInt8} (h : first < 0x80) (hNewline : first ≠ 0x0a)
    (text rest : List UInt8) : Seam text (first :: rest) := by
  refine ⟨fun _ _ _ hFirst => .inr ?_, fun _ hNext => ?_⟩
  · obtain rfl := Option.some.inj hFirst
    exact isUtf8Continuation_lead (.inl h)
  · exact hNewline (Option.some.inj hNext)

theorem sanitizeText_tab {before : List UInt8} (hEscape : 0x1b ∉ before) :
    sanitizeText (before ++ [0x09]) = sanitizeText before ++
      List.replicate (4 - (sanitizeText before).length % 4) 0x20 := by
  rw [sanitizeText, sanitizeFrom_append (Seam.ascii (by decide) (by decide) _ _) hEscape,
    sanitizeFrom_tab, sanitizeFrom.eq_1, List.append_nil, Nat.zero_add]
  rfl

/-- The output behind a tab is a multiple of four characters from the beginning of the text. -/
theorem sanitizeText_tab_length {before : List UInt8} (hEscape : 0x1b ∉ before) :
    (sanitizeText (before ++ [0x09])).length % 4 = 0 := by
  rw [sanitizeText_tab hEscape, List.length_append, List.length_replicate]
  omega

/-- A tab stop is right where the line starts a multiple of four characters into the output. -/
theorem tabStop_iff {before : List UInt8} (hEscape : 0x1b ∉ before) (after : List UInt8) :
    TabStop before after ↔
      column (sanitizeText before) % 4 = (sanitizeText before).length % 4 := by
  have hColumn : column (sanitizeText (before ++ [0x09])) = column (sanitizeText before) +
      (4 - (sanitizeText before).length % 4) := by
    rw [sanitizeText_tab hEscape, column_append, List.length_replicate]
    exact fun h => absurd (List.eq_of_mem_replicate h) (by decide)
  constructor
  · intro h
    have hStop := h.stop
    omega
  · intro h
    have hSeam : Seam (before ++ [0x09]) after := by
      refine ⟨fun last _ hLast _ => .inl ?_, fun hLast => ?_⟩
      · rw [List.getLast?_concat] at hLast
        obtain rfl := Option.some.inj hLast
        decide
      · rw [List.getLast?_concat] at hLast
        exact absurd (Option.some.inj hLast) (by decide)
    have hEscape' : 0x1b ∉ before ++ [0x09] := by
      rw [List.mem_append, not_or]
      exact ⟨hEscape, by decide⟩
    refine ⟨?_, ⟨4 - (sanitizeText before).length % 4, by omega, by omega, ?_⟩, by omega⟩
    · have hText : before ++ 0x09 :: after = before ++ [0x09] ++ after := List.append_cons ..
      rw [hText, sanitizeText, sanitizeText, sanitizeFrom_append hSeam hEscape']
      exact List.prefix_append ..
    · exact sanitizeText_tab hEscape

/-! ### Lines -/

/-- A line that starts behind a line end. -/
theorem sanitizeFrom_lineEnd {head : List UInt8} {lineEnd : UInt8} (h : IsLineEnd lineEnd)
    (hEscape : 0x1b ∉ head) (destination : Nat) :
    ∃ output, sanitizeFrom .none destination (head ++ [lineEnd]) = output ++ [0x0a] := by
  have hReturn (destination : Nat) : sanitizeFrom .none destination [0x0d] = [0x0a] := by
    rw [sanitizeFrom_return _ _ (by decide), sanitizeFrom]
  have hNewline (destination : Nat) : sanitizeFrom .none destination [0x0a] = [0x0a] := by
    rw [sanitizeFrom_kept _ _ (.inl rfl), sanitizeFrom]
  rcases h with rfl | rfl
  · by_cases hFolded : head.getLast? = some 0x0d
    · obtain ⟨head, rfl⟩ := List.getLast?_eq_some_iff.mp hFolded
      have hEscape' : 0x1b ∉ head := fun h => hEscape (List.mem_append_left _ h)
      rw [List.append_assoc, List.singleton_append,
        sanitizeFrom_append (Seam.ascii (by decide) (by decide) _ _) hEscape',
        sanitizeFrom_folded _ _ rfl, hNewline]
      exact ⟨_, rfl⟩
    · have hSeam : Seam head [0x0a] := by
        refine ⟨fun _ first _ hFirst => .inr ?_, fun hLast => absurd hLast hFolded⟩
        obtain rfl := Option.some.inj hFirst
        decide
      rw [sanitizeFrom_append hSeam hEscape, hNewline]
      exact ⟨_, rfl⟩
  · rw [sanitizeFrom_append (Seam.ascii (by decide) (by decide) _ _) hEscape, hReturn]
    exact ⟨_, rfl⟩

/-- What is before a stretch without tabs. -/
abbrev IsTabStart (before : List UInt8) : Prop := before = [] ∨ before.getLast? = some 0x09

theorem IsTabStart.seam {before : List UInt8} (h : IsTabStart before) (rest : List UInt8) :
    Seam before rest := by
  rcases h with rfl | hTab
  · exact ⟨fun _ _ h => absurd h (by simp), fun h => absurd h (by simp)⟩
  · refine ⟨fun last _ hLast _ => .inl ?_, fun hLast => ?_⟩
    · obtain rfl := Option.some.inj (hTab.symm.trans hLast)
      decide
    · exact absurd (Option.some.inj (hTab.symm.trans hLast)) (by decide)

theorem IsTabStart.length {before : List UInt8} (h : IsTabStart before) (hEscape : 0x1b ∉ before) :
    (sanitizeText before).length % 4 = 0 := by
  rcases h with rfl | hTab
  · rw [sanitizeText, sanitizeFrom.eq_1]
    rfl
  · obtain ⟨before, rfl⟩ := List.getLast?_eq_some_iff.mp hTab
    exact sanitizeText_tab_length fun h => hEscape (List.mem_append_left _ h)

section Stretch

variable {before head tail : List UInt8} {lineEnd : UInt8}

/-- With a line end on the way, its line starts at the characters counted up to it. -/
theorem stretch_line (hStart : IsTabStart before) (hLineEnd : IsLineEnd lineEnd)
    (hTab : 0x09 ∉ head) (hTail : ∀ byte ∈ tail, byte ≠ 0x09 ∧ ¬IsLineEnd byte)
    (hEscape : 0x1b ∉ before ++ (head ++ lineEnd :: tail)) :
    column (sanitizeText (before ++ (head ++ lineEnd :: tail))) % 4 =
        (sanitizeText (before ++ (head ++ lineEnd :: tail))).length % 4 ↔
      cells (head ++ [lineEnd]) % 4 = 0 := by
  simp only [List.mem_append, List.mem_cons, not_or] at hEscape
  obtain ⟨hBefore, hHead, hByte, hEnd⟩ := hEscape
  have hAscii : lineEnd < 0x80 := by rcases hLineEnd with rfl | rfl <;> decide
  have hLine : 0x1b ∉ head ++ [lineEnd] ∧ 0x09 ∉ head ++ [lineEnd] := by
    constructor <;> rw [List.mem_append, List.mem_singleton, not_or]
    · exact ⟨hHead, hByte⟩
    · refine ⟨hTab, ?_⟩
      rcases hLineEnd with rfl | rfl <;> decide
  have hSeam : Seam (head ++ [lineEnd]) tail := by
    refine ⟨fun last _ hLast _ => .inl ?_, fun _ hFirst => ?_⟩
    · rw [List.getLast?_concat] at hLast
      exact Option.some.inj hLast ▸ hAscii
    · exact (hTail 0x0a (List.mem_of_mem_head? hFirst)).2 (.inl rfl)
  have hOutput := sanitizeFrom_append (hStart.seam ((head ++ [lineEnd]) ++ tail)) hBefore 0
  rw [sanitizeFrom_append hSeam hLine.1] at hOutput
  have hCells := sanitizeFrom_cells hLine.1 hLine.2
    (0 + (sanitizeFrom .none 0 before).length)
  obtain ⟨output, hNewline⟩ := sanitizeFrom_lineEnd hLineEnd hHead
    (0 + (sanitizeFrom .none 0 before).length)
  have hClean := sanitizeFrom_line hEnd (fun byte h => (hTail byte h).2)
    (0 + (sanitizeFrom .none 0 before).length +
      (sanitizeFrom .none (0 + (sanitizeFrom .none 0 before).length) (head ++ [lineEnd])).length)
  generalize sanitizeFrom .none _ tail = last at hOutput hClean
  have hLength := hStart.length hBefore
  have hText : before ++ (head ++ lineEnd :: tail) = before ++ ((head ++ [lineEnd]) ++ tail) := by
    rw [List.append_assoc, List.singleton_append]
  rw [hText, sanitizeText, hOutput]
  have hColumn : column (sanitizeFrom .none 0 before ++
      (sanitizeFrom .none (0 + (sanitizeFrom .none 0 before).length) (head ++ [lineEnd]) ++ last)) =
        last.length := by
    rw [← List.append_assoc, column_append hClean, hNewline, ← List.append_assoc, column_newline,
      Nat.zero_add]
  rw [hColumn, List.length_append, List.length_append, hCells]
  rw [sanitizeText] at hLength
  omega

/-- Without one the line is that of the tab before. -/
theorem stretch_noLine (hStart : IsTabStart before) {piece : List UInt8}
    (hPiece : ∀ byte ∈ piece, byte ≠ 0x09 ∧ ¬IsLineEnd byte) (hEscape : 0x1b ∉ before ++ piece)
    (hColumn : column (sanitizeText before) % 4 = 0) :
    column (sanitizeText (before ++ piece)) % 4 = (sanitizeText (before ++ piece)).length % 4 := by
  rw [List.mem_append, not_or] at hEscape
  have hOutput := sanitizeFrom_append (hStart.seam piece) hEscape.1 0
  have hClean := sanitizeFrom_line hEscape.2 (fun byte h => (hPiece byte h).2)
    (0 + (sanitizeFrom .none 0 before).length)
  have hLength := hStart.length hEscape.1
  rw [sanitizeText] at hColumn hLength ⊢
  rw [hOutput, column_append hClean, List.length_append]
  omega

end Stretch

/-- A list is cut behind the last element of a kind. -/
theorem exists_last {α : Type} (p : α → Prop) (l : List α) :
    (∀ x ∈ l, ¬p x) ∨ ∃ before x after, l = before ++ x :: after ∧ p x ∧ ∀ y ∈ after, ¬p y := by
  induction l with
  | nil => exact .inl (List.forall_mem_nil _)
  | cons x l ih =>
    rcases ih with hNone | ⟨before, y, after, rfl, hy, hAfter⟩
    · by_cases hx : p x
      · exact .inr ⟨[], x, l, rfl, hx, hNone⟩
      · exact .inl (List.forall_mem_cons.mpr ⟨hx, hNone⟩)
    · exact .inr ⟨x :: before, y, after, rfl, hy, hAfter⟩

/-- Every text ends with a stretch without tabs. -/
theorem exists_tabStart (text : List UInt8) :
    ∃ before piece, text = before ++ piece ∧ IsTabStart before ∧ 0x09 ∉ piece := by
  rcases exists_last (· = 0x09) text with hNone | ⟨before, tab, piece, rfl, rfl, hPiece⟩
  · exact ⟨[], text, rfl, .inl rfl, fun h => hNone _ h rfl⟩
  · exact ⟨before ++ [0x09], piece, List.append_cons .., .inr List.getLast?_concat,
      fun h => hPiece _ h rfl⟩

theorem tabsAligned_stops {text : List UInt8} (hEscape : 0x1b ∉ text) (h : TabsAligned text)
    {before after : List UInt8} (hText : text = before ++ 0x09 :: after) :
    TabStop before after := by
  induction hLength : before.length using Nat.strong_induction_on generalizing before after with
  | h length ih =>
    have hBefore : 0x1b ∉ before := fun hMem => hEscape (hText ▸ List.mem_append_left _ hMem)
    rw [tabStop_iff hBefore]
    obtain ⟨start, piece, rfl, hStart, hTab⟩ := exists_tabStart before
    rcases exists_last IsLineEnd piece with hNone | ⟨head, lineEnd, tail, rfl, hLineEnd, hTail⟩
    · have hPiece : ∀ byte ∈ piece, byte ≠ 0x09 ∧ ¬IsLineEnd byte :=
        fun byte hByte => ⟨fun h => hTab (h ▸ hByte), hNone byte hByte⟩
      apply stretch_noLine hStart hPiece hBefore
      rcases hStart with rfl | hLast
      · rw [sanitizeText, sanitizeFrom.eq_1]
        rfl
      · -- the tab before on the line
        obtain ⟨start, rfl⟩ := List.getLast?_eq_some_iff.mp hLast
        have hShorter : start.length < length := by
          rw [← hLength, List.length_append, List.length_append, List.length_singleton]
          omega
        have hPrior : TabStop start (piece ++ 0x09 :: after) := by
          apply ih start.length hShorter _ rfl
          rw [hText, List.append_assoc, List.append_assoc, List.singleton_append]
        exact hPrior.stop
    · rw [List.mem_append, List.mem_cons, not_or, not_or] at hTab
      have hPiece : ∀ byte ∈ tail, byte ≠ 0x09 ∧ ¬IsLineEnd byte :=
        fun byte hByte => ⟨fun h => hTab.2.2 (h ▸ hByte), hTail byte hByte⟩
      rw [stretch_line hStart hLineEnd hTab.1 hPiece hBefore]
      exact h start head lineEnd tail after hText hStart hTab.1 hLineEnd hPiece

/-- The tabs of a text lead to tab stops exactly when its lines with tabs start at multiples of four
characters. -/
theorem sanitizeText_tabs_iff {text : List UInt8} (hEscape : 0x1b ∉ text) :
    (∀ before after, text = before ++ 0x09 :: after → TabStop before after) ↔
      TabsAligned text := by
  constructor
  · intro hStops before head lineEnd tail after hText hStart hTab hLineEnd hTail
    have hBefore : 0x1b ∉ before ++ (head ++ lineEnd :: tail) :=
      fun hMem => hEscape (hText ▸ List.mem_append_left _ hMem)
    rw [← stretch_line hStart hLineEnd hTab hTail hBefore]
    exact (tabStop_iff hBefore after).mp (hStops _ _ hText)
  · exact fun hAligned before after hText => tabsAligned_stops hEscape hAligned hText

/-- A tab at the start of the second line, behind `abc` and a newline. -/
def alignedText : List UInt8 := [0x61, 0x62, 0x63, 0x0a, 0x09, 0x62]

theorem alignedText_stops {before after : List UInt8} (h : alignedText = before ++ 0x09 :: after) :
    TabStop before after := by
  rcases before with _ | ⟨_, _ | ⟨_, _ | ⟨_, _ | ⟨_, _ | ⟨_, _ | ⟨_, before⟩⟩⟩⟩⟩⟩ <;>
    simp [alignedText] at h
  obtain ⟨rfl, rfl, rfl, rfl, rfl⟩ := h
  exact ⟨by decide +kernel, ⟨4, by decide, by decide, by decide +kernel⟩, by decide +kernel⟩

theorem sanitizeText_tabs_iff_aligned :
    (∀ before after, alignedText = before ++ 0x09 :: after → TabStop before after) ∧
      TabsAligned alignedText := by
  have hStops := fun before after (h : alignedText = before ++ 0x09 :: after) => alignedText_stops h
  exact ⟨hStops, (sanitizeText_tabs_iff (by decide)).mp hStops⟩

/-- A tab at the start of the second line, behind `a` and a newline, becomes two spaces. -/
theorem sanitizeText_tabs_secondLine :
    ¬∀ text : List UInt8, 0x1b ∉ text → ∀ before after, text = before ++ 0x09 :: after →
      TabStop before after := by
  intro h
  have hStop := (h [0x61, 0x0a, 0x09, 0x62] (by decide) [0x61, 0x0a] [0x62] rfl).stop
  revert hStop
  decide +kernel

end Esp32Fx.Einkctl
