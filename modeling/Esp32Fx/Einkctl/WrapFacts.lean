import Mathlib.Data.List.GetD
import Esp32Fx.Einkctl.RenderText

/-! What the lines of `wrap_text` have of the text: no character but spaces is lost, and words of up
to two thirds of a line stay whole. -/

namespace Esp32Fx.Einkctl

open Lib

/-- A text without its spaces. -/
def visible (text : List UInt8) : List UInt8 := text.filter (· ≠ 0x20)

/-- A longest stretch without spaces, between what is before and after it on its line. -/
structure IsWord (before word after : List UInt8) : Prop where
  nonempty : word ≠ []
  solid : ∀ byte ∈ word, byte ≠ 0x20
  left : ∀ byte, before.getLast? = some byte → byte = 0x20
  right : ∀ byte, after.head? = some byte → byte = 0x20

/-- The records for a line of the text.  A word is found by the characters before it. -/
structure Wraps (line : List UInt8) (records : List (List UInt8)) : Prop where
  fits : ∀ record ∈ records, record.length ≤ textColumns ∧ 0x0a ∉ record
  visible_eq : visible records.flatten = visible line
  whole : ∀ before word after, line = before ++ word ++ after → IsWord before word after →
    word.length ≤ 66 → ∃ earlier later pre post,
      records = earlier ++ (pre ++ word ++ post) :: later ∧
      visible (earlier.flatten ++ pre) = visible before

/-! ### Spaces -/

@[simp] theorem visible_append (text text' : List UInt8) :
    visible (text ++ text') = visible text ++ visible text' :=
  List.filter_append ..

theorem visible_dropWhile (text : List UInt8) :
    visible (text.dropWhile (· = 0x20)) = visible text := by
  induction text with
  | nil => rfl
  | cons byte text ih =>
    by_cases hSpace : byte = 0x20
    · rw [List.dropWhile_cons_of_pos (by simpa using hSpace), ih, visible, visible,
        List.filter_cons_of_neg (by simpa using hSpace)]
    · rw [List.dropWhile_cons_of_neg (by simpa using hSpace)]

/-- Spaces are dropped up to a word at most. -/
theorem dropWhile_before_word {before word after : List UInt8} (h : IsWord before word after) :
    (before ++ word ++ after).dropWhile (· = 0x20) =
      before.dropWhile (· = 0x20) ++ word ++ after := by
  obtain ⟨first, rest, rfl⟩ := List.exists_cons_of_ne_nil h.nonempty
  have hFirst : ¬first = 0x20 := h.solid first List.mem_cons_self
  induction before with
  | nil => exact List.dropWhile_cons_of_neg (by simpa using hFirst)
  | cons byte before ih =>
    by_cases hSpace : byte = 0x20
    · have hLeft : ∀ byte, before.getLast? = some byte → byte = 0x20 := by
        intro last hLast
        exact h.left last (by rw [List.getLast?_cons, hLast]; rfl)
      rw [List.cons_append, List.cons_append, List.dropWhile_cons_of_pos (by simpa using hSpace),
        List.dropWhile_cons_of_pos (by simpa using hSpace)]
      exact ih ⟨h.nonempty, h.solid, hLeft, h.right⟩
    · rw [List.cons_append, List.cons_append, List.dropWhile_cons_of_neg (by simpa using hSpace),
        List.dropWhile_cons_of_neg (by simpa using hSpace)]
      rfl

/-! ### Where a line is split -/

theorem lastSpace_spec (line : List UInt8) (place : Nat) :
    lastSpace line place ≤ place ∧
      (lastSpace line place = 0 ∨ line.getD (lastSpace line place) 0 = 0x20) ∧
      ∀ i, lastSpace line place < i → i ≤ place → line.getD i 0 ≠ 0x20 := by
  induction place with
  | zero => exact ⟨Nat.le_refl _, .inl rfl, fun i h h' => absurd h' (by rw [lastSpace] at h; omega)⟩
  | succ place ih =>
    rw [lastSpace]
    split
    · next hPlace =>
      refine ⟨Nat.le_succ_of_le ih.1, ih.2.1, fun i hLow hHigh => ?_⟩
      rcases Nat.lt_or_eq_of_le hHigh with hBelow | rfl
      · exact ih.2.2 i hLow (Nat.le_of_lt_succ hBelow)
      · exact hPlace
    · next hPlace =>
      rw [ne_eq, Decidable.not_not] at hPlace
      exact ⟨Nat.le_refl _, .inr hPlace, fun i hLow hHigh => absurd hHigh (by omega)⟩

/-- A record ends where its line does, before a space, or after a full row with no space in its
last two thirds. -/
structure Split (line : List UInt8) (split : Nat) : Prop where
  pos : 0 < split
  le : split ≤ textColumns
  length : split ≤ line.length
  place : split = line.length ∨ line.getD split 0 = 0x20 ∨
    split = textColumns ∧ ∀ i, 32 ≤ i → i ≤ textColumns → line.getD i 0 ≠ 0x20

/-- The trimmed length is overridden by the split, so that both are the same. -/
theorem lineSplit_spec {line : List UInt8} (h : line ≠ []) :
    ∃ split, lineSplit line = (split, split) ∧ Split line split := by
  have hLength : 0 < line.length := List.length_pos_iff.mpr h
  have hBoth : ∀ take split : Nat, split ≠ 0 →
      (if split ≠ take ∧ split ≠ 0 then split else take) = split := by
    intro take split hSplit
    split
    · rfl
    · next hEq => exact (Decidable.not_not.mp fun hNe => hEq ⟨hNe, hSplit⟩).symm
  obtain ⟨hLe, hPlace, hBehind⟩ := lastSpace_spec line textColumns
  rw [lineSplit]
  by_cases hLong : line.length > textColumns
  · simp only [if_pos hLong]
    by_cases hShort : lastSpace line textColumns < textColumns / 3
    · rw [if_pos hShort, hBoth _ _ (by decide)]
      refine ⟨textColumns, rfl, by decide, Nat.le_refl _, Nat.le_of_lt hLong, .inr (.inr ⟨rfl, ?_⟩)⟩
      intro i hLow hHigh
      exact hBehind i (by simp only [textColumns] at hShort ⊢; omega) hHigh
    · have hPos : lastSpace line textColumns ≠ 0 := by
        intro h0
        rw [h0] at hShort
        exact hShort (by decide)
      rw [if_neg hShort, hBoth _ _ hPos]
      exact ⟨_, rfl, Nat.pos_of_ne_zero hPos, hLe, Nat.le_trans hLe (Nat.le_of_lt hLong),
        .inr (.inl (hPlace.resolve_left hPos))⟩
  · simp only [if_neg hLong, Nat.lt_irrefl, if_false]
    rw [hBoth _ _ (by omega)]
    exact ⟨_, rfl, hLength, Nat.le_of_not_lt hLong, Nat.le_refl _, .inl rfl⟩

theorem lineRest_eq {line : List UInt8} {split : Nat} (h : lineSplit line = (split, split)) :
    lineRest line = (line.drop split).dropWhile (· = 0x20) := by
  rw [lineRest, lineAdvance, h]
  simp

/-- A split does not go through a word that is short enough. -/
theorem Split.outside {before word after : List UInt8} {split : Nat}
    (h : Split (before ++ word ++ after) split) (hWord : IsWord before word after)
    (hShort : word.length ≤ 66) :
    split ≤ before.length ∨ before.length + word.length ≤ split := by
  by_contra hInside
  rw [not_or, Nat.not_le, Nat.not_le] at hInside
  obtain ⟨hLow, hHigh⟩ := hInside
  have hAt : ∀ i, before.length ≤ i → i < before.length + word.length →
      (before ++ word ++ after).getD i 0 ≠ 0x20 := by
    intro i hFrom hTo
    rw [List.append_assoc, List.getD_append_right _ _ _ _ hFrom, List.getD_append _ _ _ _ (by omega)]
    rw [List.getD_eq_getElem _ _ (by omega)]
    exact hWord.solid _ (List.getElem_mem _)
  have hLength := h.length
  simp only [List.length_append] at hLength
  rcases h.place with hEnd | hSpace | ⟨hFull, hNone⟩
  · simp only [List.length_append] at hEnd
    omega
  · exact hAt split (by omega) hHigh hSpace
  · -- the space before the word is in the first third, so that the word is too long
    simp only [textColumns] at hFull hNone
    have hBefore : before.length ≤ 32 := by
      by_contra hFar
      have hLast : (before ++ word ++ after).getD (before.length - 1) 0 = 0x20 := by
        rw [List.append_assoc, List.getD_append _ _ _ _ (by omega), List.getD_eq_getElem _ _ (by omega)]
        apply hWord.left
        rw [List.getLast?_eq_getElem?, List.getElem?_eq_getElem (by omega)]
      exact hNone (before.length - 1) (by omega) (by omega) hLast
    omega

/-! ### Lines and texts -/

variable {allocates : Nat → Bool} {lines lines' : TextLines} {text line : List UInt8}

theorem wraps_nil : Wraps [] [] where
  fits := by nofun
  visible_eq := rfl
  whole before word after hLine hWord _ := by
    have hEmpty := List.append_eq_nil_iff.mp (List.append_eq_nil_iff.mp hLine.symm).1
    exact absurd hEmpty.2 hWord.nonempty

/-- A record, and those for what `wrap_text` leaves of the line. -/
theorem Wraps.cons {split : Nat} {records : List (List UInt8)} (hSplit : Split line split)
    (hNewline : 0x0a ∉ line) (h : Wraps ((line.drop split).dropWhile (· = 0x20)) records) :
    Wraps line (line.take split :: records) where
  fits := by
    refine List.forall_mem_cons.mpr ⟨⟨?_, fun hMem => hNewline (List.mem_of_mem_take hMem)⟩, h.fits⟩
    rw [List.length_take]
    exact Nat.le_trans (Nat.min_le_left _ _) hSplit.le
  visible_eq := by
    rw [List.flatten_cons, visible_append, h.visible_eq, visible_dropWhile, ← visible_append,
      List.take_append_drop]
  whole before word after hLine hWord hShort := by
    subst hLine
    rcases hSplit.outside hWord hShort with hBehind | hWithin
    · -- the word is behind the record, and behind the spaces that are passed over
      have hDrop : (before ++ word ++ after).drop split = before.drop split ++ word ++ after := by
        rw [List.append_assoc, List.drop_append_of_le_length hBehind, List.append_assoc]
      have hTake : (before ++ word ++ after).take split = before.take split := by
        rw [List.append_assoc, List.take_append_of_le_length hBehind]
      have hDropped : IsWord (before.drop split) word after := by
        refine ⟨hWord.nonempty, hWord.solid, fun byte hByte => hWord.left byte ?_, hWord.right⟩
        rw [List.getLast?_drop] at hByte
        split at hByte
        · cases hByte
        · exact hByte
      have hRest : IsWord ((before.drop split).dropWhile (· = 0x20)) word after := by
        refine ⟨hWord.nonempty, hWord.solid, fun byte hByte => hDropped.left byte ?_, hWord.right⟩
        obtain ⟨spaces, hSpaces⟩ : (before.drop split).dropWhile (· = 0x20) <:+ before.drop split :=
          List.dropWhile_suffix _
        rw [← hSpaces, List.getLast?_append, hByte]
        rfl
      rw [hDrop, dropWhile_before_word hDropped] at h
      obtain ⟨earlier, later, pre, post, rfl, hVisible⟩ :=
        h.whole _ word after rfl hRest hShort
      refine ⟨(before ++ word ++ after).take split :: earlier, later, pre, post, rfl, ?_⟩
      rw [List.flatten_cons, List.append_assoc, visible_append, hVisible, visible_dropWhile, hTake,
        ← visible_append, List.take_append_drop]
    · -- the word is in the record
      refine ⟨[], records, before, after.take (split - before.length - word.length), ?_, rfl⟩
      rw [List.nil_append, List.append_assoc, List.append_assoc, List.take_append,
        List.take_of_length_le (by omega), List.take_append, List.take_of_length_le (by omega)]

theorem wrapLine_wraps (hNewline : 0x0a ∉ line)
    (h : wrapLine allocates line lines = some lines') :
    ∃ records, lines'.records = lines.records ++ records ∧ Wraps line records ∧
      (line ≠ [] → records ≠ []) := by
  fun_induction wrapLine allocates line lines with
  | case1 lines =>
    cases h
    exact ⟨[], (List.append_nil _).symm, wraps_nil, fun hNonempty => absurd rfl hNonempty⟩
  | case2 => cases h
  | case3 line lines hNonempty pushed hPushed ih =>
    obtain ⟨split, hEq, hSplit⟩ := lineSplit_spec hNonempty
    have hRest : 0x0a ∉ lineRest line := fun hMem =>
      hNewline (List.mem_of_mem_drop ((List.dropWhile_sublist _).mem hMem))
    obtain ⟨records, hRecords, hWraps, -⟩ := ih hRest h
    rw [lineRest_eq hEq] at hWraps
    refine ⟨line.take split :: records, ?_, hWraps.cons hSplit hNewline, fun _ => by simp⟩
    rw [hRecords, linesPush_records hPushed, hEq, Nat.min_eq_left hSplit.le, List.append_assoc]
    rfl

/-- The records for a line of the text, at least one. -/
def WrapsLine (line : List UInt8) (records : List (List UInt8)) : Prop :=
  records ≠ [] ∧ Wraps line records

theorem wrapsLine_empty : WrapsLine [] [[]] where
  left := by simp
  right :=
    { wraps_nil with
      fits := by simp
      whole := fun before word after hLine hWord _ => by
        have hEmpty := List.append_eq_nil_iff.mp (List.append_eq_nil_iff.mp hLine.symm).1
        exact absurd hEmpty.2 hWord.nonempty }

/-- The line behind the last newline, when it is empty. -/
def lastLine (text : List UInt8) : List (List UInt8) :=
  if text.length = 0 ∨ text.getLast? = some 0x0a then [[]] else []

theorem splitOn_line {segments : List (List UInt8)} {rest : List UInt8} (hNonempty : text ≠ [])
    (hText : text = line ++ rest) (hNewline : 0x0a ∉ line)
    (hRest : ∀ byte, rest.head? = some byte → byte = 0x0a)
    (h : rest.tail.splitOn 0x0a = segments ++ lastLine rest.tail) :
    text.splitOn 0x0a = line :: segments ++ lastLine text := by
  subst hText
  cases rest with
  | nil =>
    rw [List.append_nil] at hNonempty ⊢
    obtain rfl : segments = [] := by
      have hLength := congrArg List.length h
      simp [List.splitOn_nil, lastLine] at hLength
      exact hLength
    have hLast : ¬(line.length = 0 ∨ line.getLast? = some 0x0a) := by
      rintro (hEmpty | hLast)
      · exact hNonempty (List.length_eq_zero_iff.mp hEmpty)
      · exact hNewline (List.mem_of_getLast? hLast)
    rw [List.splitOn_eq_singleton hNewline, lastLine, if_neg hLast]
    rfl
  | cons byte rest =>
    obtain rfl := hRest byte rfl
    have hLast : lastLine (line ++ 0x0a :: rest) = lastLine rest := by
      unfold lastLine
      cases rest with
      | nil => simp
      | cons first rest => simp [List.getLast?_append, List.getLast?_cons]
    rw [List.splitOn_append_cons_self_of_not_mem hNewline, hLast]
    exact congrArg (line :: ·) h

theorem wrapLines_wraps (h : wrapLines allocates text lines = some lines') :
    ∃ segments groups, text.splitOn 0x0a = segments ++ lastLine text ∧
      lines'.records = lines.records ++ groups.flatten ∧
      List.Forall₂ WrapsLine segments groups := by
  fun_induction wrapLines allocates text lines with
  | case1 lines =>
    cases h
    exact ⟨[], [], rfl, (List.append_nil _).symm, .nil⟩
  | case2 => cases h
  | case3 text lines hNonempty line pushed wrapped hWrapped ih =>
    obtain ⟨segments, groups, hSegments, hRecords, hGroups⟩ := ih h
    have hText : text = line ++ text.dropWhile (· ≠ 0x0a) := List.takeWhile_append_dropWhile.symm
    have hNewline : 0x0a ∉ line := fun hMem => by simpa using List.mem_takeWhile_imp hMem
    have hFirst : ∃ records, wrapped.records = lines.records ++ records ∧ WrapsLine line records := by
      dsimp only [pushed] at hWrapped
      split at hWrapped
      · next hEmpty =>
        refine ⟨[[]], ?_, hEmpty ▸ wrapsLine_empty⟩
        rw [linesPush_records hWrapped, List.take_nil]
      · next hLine =>
        obtain ⟨records, hRecords, hWraps, hSome⟩ := wrapLine_wraps hNewline hWrapped
        exact ⟨records, hRecords, hSome hLine, hWraps⟩
    obtain ⟨records, hWrappedRecords, hWraps⟩ := hFirst
    refine ⟨line :: segments, records :: groups, ?_, ?_, .cons hWraps hGroups⟩
    · have hDrop : text.drop line.length = text.dropWhile (· ≠ 0x0a) := by
        conv_lhs => rw [hText]
        exact List.drop_left
      rw [hDrop] at hSegments
      refine splitOn_line hNonempty hText hNewline (fun byte hByte => ?_) hSegments
      have hStop := List.head?_dropWhile_not (fun byte : UInt8 => decide (byte ≠ 0x0a)) text
      rw [hByte] at hStop
      simpa using hStop
    · rw [hRecords, hWrappedRecords, List.flatten_cons, List.append_assoc]

theorem wrapText_wraps (h : wrapText allocates text lines = some lines') :
    ∃ groups, lines'.records = lines.records ++ groups.flatten ∧
      List.Forall₂ WrapsLine (text.splitOn 0x0a) groups := by
  unfold wrapText at h
  split at h
  · cases h
  · next wrapped hWrapped =>
    obtain ⟨segments, groups, hSegments, hRecords, hGroups⟩ := wrapLines_wraps hWrapped
    rw [lastLine] at hSegments
    split at h
    · next hLast =>
      rw [if_pos hLast] at hSegments
      refine ⟨groups ++ [[[]]], ?_, ?_⟩
      · rw [linesPush_records h, hRecords, List.take_nil, List.flatten_append, List.append_assoc]
        rfl
      · rw [hSegments]
        exact List.rel_append hGroups (.cons wrapsLine_empty .nil)
    · next hLast =>
      rw [if_neg hLast, List.append_nil] at hSegments
      cases h
      exact ⟨groups, hRecords, hSegments ▸ hGroups⟩

/-- With memory there is a result.  Its new lines are in groups, one for each line of the text, each
with all the characters of its line but spaces, in order and with the short words whole. -/
theorem wrapText_groups (allocates : Nat → Bool) (text : List UInt8) (lines : TextLines) :
    ((∀ size, allocates size = true) → ∃ lines', wrapText allocates text lines = some lines') ∧
    ∀ lines', wrapText allocates text lines = some lines' →
      ∃ groups, lines'.records = lines.records ++ groups.flatten ∧
        List.Forall₂ WrapsLine (text.splitOn 0x0a) groups := by
  refine ⟨fun hMemory => ?_, fun lines' h => wrapText_wraps h⟩
  obtain ⟨wrapped, hWrapped⟩ := wrapLines_isSome hMemory text lines
  rw [wrapText, hWrapped]
  dsimp only
  split
  · exact linesPush_isSome hMemory _ _ _
  · exact ⟨wrapped, rfl⟩

end Esp32Fx.Einkctl
