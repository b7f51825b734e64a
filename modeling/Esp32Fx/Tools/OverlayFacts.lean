import Esp32Fx.Tools.Overlay
import Mathlib.Data.List.DropRight

/-! What the overlay leaves in the tree, and when a second time changes nothing. -/

namespace Esp32Fx.Tools.Overlay

open Lib Lib.Py

/-! ### The lines of a setting -/

/-- A line that gives the key a value or leaves it out. -/
def IsSettingOf (key line : Text) : Prop :=
  ∃ start ∈ [[], "# ".toList], ∃ ending ∈ [['='], " is not set".toList],
    start ++ symbol key ++ ending <+: line

instance (key line : Text) : Decidable (IsSettingOf key line) :=
  inferInstanceAs (Decidable (∃ start ∈ [[], "# ".toList],
    ∃ ending ∈ [['='], " is not set".toList], start ++ symbol key ++ ending <+: line))

/-- What the pattern of a setting takes of a line before it goes on to the end. -/
def settingStart (symbol : Text) : Pattern :=
  .seq .lineStart <| .seq (.optional (.literal "# ".toList)) <| .seq (.literal symbol) <|
    .alt (.literal ['=']) (.literal " is not set".toList)

theorem settingPattern_run (symbol : Text) (c : Place) :
    (settingPattern symbol).run c = (Pattern.seq (settingStart symbol) .lineTail).run c := by
  simp only [settingPattern, settingStart, Pattern.lineTail, Pattern.run, List.flatMap_assoc]

theorem append_prefix_iff {first second text : Text} :
    first ++ second <+: text ↔ first <+: text ∧ second <+: text.drop first.length := by
  constructor
  · rintro ⟨rest, rfl⟩
    refine ⟨⟨second ++ rest, by simp⟩, ⟨rest, ?_⟩⟩
    rw [List.append_assoc, List.drop_left]
  · rintro ⟨⟨rest, rfl⟩, hSecond⟩
    rw [List.drop_left] at hSecond
    obtain ⟨rest, rfl⟩ := hSecond
    exact ⟨rest, by simp⟩

theorem settingBody_ne_nil {symbol : Text} {c : Place} :
    (Pattern.seq (.literal symbol)
      (.alt (.literal ['=']) (.literal " is not set".toList))).run c ≠ [] ↔
      ∃ ending ∈ [['='], " is not set".toList], symbol ++ ending <+: c.rest := by
  simp only [Pattern.seq_literal_ne_nil, Pattern.alt_ne_nil, Pattern.literal_ne_nil,
    Pattern.advance_rest_eq, append_prefix_iff, List.mem_cons, List.not_mem_nil, or_false,
    exists_eq_or_imp, exists_eq_left]
  exact and_or_left

theorem settingStart_ne_nil {key line : Text} :
    (settingStart (symbol key)).run ⟨true, line, []⟩ ≠ [] ↔ IsSettingOf key line := by
  have hStart (q : Pattern) (c : Place) (h : c.atLineStart = true) :
      (Pattern.seq .lineStart q).run c = q.run c := by
    simp [Pattern.run, h]
  rw [settingStart, hStart _ _ rfl, Pattern.seq_optional_ne_nil, Pattern.seq_literal_ne_nil,
    settingBody_ne_nil, settingBody_ne_nil, Pattern.advance_rest_eq, or_comm]
  constructor
  · rintro (⟨ending, hEnding, h⟩ | ⟨hComment, ending, hEnding, h⟩)
    · exact ⟨[], by simp, ending, hEnding, h⟩
    · refine ⟨"# ".toList, by simp, ending, hEnding, ?_⟩
      rw [List.append_assoc, append_prefix_iff]
      exact ⟨hComment, h⟩
  · rintro ⟨start, hStart, ending, hEnding, h⟩
    obtain rfl | rfl : start = [] ∨ start = "# ".toList := by simpa using hStart
    · exact .inl ⟨ending, hEnding, h⟩
    · rw [List.append_assoc, append_prefix_iff] at h
      exact .inr ⟨h.1, ending, hEnding, h.2⟩

/-- The pattern of a setting takes the lines of the setting. -/
theorem takesLines_setting {key : Text} (hKey : IsLine (symbol key)) :
    TakesLines (settingPattern (symbol key)) fun line => decide (IsSettingOf key line) := by
  have hStart : (settingStart (symbol key)).InLine := by
    refine ⟨trivial, ⟨?_, ?_⟩, hKey, ?_, ?_⟩ <;> simp [Pattern.InLine, IsLine]
  have hInside (rest : Text) : (settingStart (symbol key)).run ⟨false, rest, []⟩ = [] := by
    simp [settingStart, Pattern.run]
  have hTakes (line : Text) : (!((settingStart (symbol key)).run ⟨true, line, []⟩).isEmpty) =
      decide (IsSettingOf key line) := by
    rw [Bool.eq_iff_iff, decide_eq_true_iff, ← settingStart_ne_nil]
    simp
  have hLines := takesLines_lineTail hStart hInside
  simp only [hTakes] at hLines
  refine ⟨?_, ?_, ?_⟩
  · intro line rest hLine
    rw [settingPattern_run]
    exact hLines.starts line rest hLine
  · intro line hLine
    rw [settingPattern_run]
    exact hLines.ends line hLine
  · intro rest
    rw [settingPattern_run]
    exact hLines.inside rest

theorem isLine_setting : ∀ s ∈ settings, IsLine (symbol s.1) ∧ IsLine (settingLine s) := by
  decide

theorem isSettingOf_own : ∀ s ∈ settings, IsSettingOf s.1 (settingLine s) := by decide

/-- The lines of two settings are not taken for one another. -/
theorem settings_apart : settings.Pairwise fun s t =>
    ¬IsSettingOf t.1 (settingLine s) ∧ ¬IsSettingOf s.1 (settingLine t) := by decide

/-! ### The configuration line by line -/

/-- The lines without those of a setting, and the requested one behind them. -/
def resetLines (all : List Text) (s : Setting) : List Text :=
  all.filter (fun line => ¬IsSettingOf s.1 line) ++ [settingLine s]

variable {all : List Text} {last : Text} {s : Setting}

theorem applySetting_text (hSetting : s ∈ settings) (hLines : ∀ line ∈ all, IsLine line)
    (hLast : IsLine last) : applySetting (unlines all ++ last) s =
      unlines (all.filter fun line => ¬IsSettingOf s.1 line) ++
        ((if IsSettingOf s.1 last then [] else last) ++ (settingLine s ++ ['\n'])) := by
  rw [applySetting, sub_unlines (takesLines_setting (isLine_setting s hSetting).1) hLines hLast,
    List.append_assoc]
  simp only [decide_not, decide_eq_true_eq]

theorem applySetting_lines (hSetting : s ∈ settings) (hLines : ∀ line ∈ all, IsLine line)
    (hLast : IsLine last) (hDone : last = [] ∨ IsSettingOf s.1 last) :
    applySetting (unlines all ++ last) s = unlines (resetLines all s) := by
  have hNothing : (if IsSettingOf s.1 last then [] else last) = [] := by
    obtain rfl | hDone := hDone
    · exact ite_self _
    · exact if_pos hDone
  rw [applySetting_text hSetting hLines hLast, hNothing, resetLines, unlines_append]
  simp [unlines]

theorem resetLines_isLine (hSetting : s ∈ settings) (hLines : ∀ line ∈ all, IsLine line) :
    ∀ line ∈ resetLines all s, IsLine line := by
  intro line hMem
  obtain hMem | hMem := List.mem_append.mp hMem
  · exact hLines line (List.mem_of_mem_filter hMem)
  · rw [List.mem_singleton.mp hMem]
    exact (isLine_setting s hSetting).2

theorem foldl_applySetting {part : List Setting} (hSettings : ∀ s ∈ part, s ∈ settings)
    (hLines : ∀ line ∈ all, IsLine line) :
    part.foldl applySetting (unlines all) = unlines (part.foldl resetLines all) := by
  induction part generalizing all with
  | nil => rfl
  | cons s part ih =>
    have hSetting := hSettings s List.mem_cons_self
    have hStep := applySetting_lines hSetting hLines List.not_mem_nil (.inl rfl)
    rw [List.append_nil] at hStep
    rw [List.foldl_cons, List.foldl_cons, hStep]
    exact ih (fun t ht => hSettings t (List.mem_cons_of_mem _ ht))
      (resetLines_isLine hSetting hLines)

/-- Settings that are not taken for one another end up one behind the other. -/
theorem foldl_resetLines {part : List Setting} (hApart : part.Pairwise fun s t =>
      ¬IsSettingOf t.1 (settingLine s) ∧ ¬IsSettingOf s.1 (settingLine t)) (all : List Text) :
    part.foldl resetLines all =
      all.filter (fun line => ∀ s ∈ part, ¬IsSettingOf s.1 line) ++ part.map settingLine := by
  induction part generalizing all with
  | nil => simp
  | cons s part ih =>
    obtain ⟨hFirst, hOthers⟩ := List.pairwise_cons.mp hApart
    have hStays : [settingLine s].filter (fun line => ∀ t ∈ part, ¬IsSettingOf t.1 line) =
        [settingLine s] := by
      rw [List.filter_eq_self]
      intro line hLine
      rw [List.mem_singleton.mp hLine]
      exact decide_eq_true fun t ht => (hFirst t ht).1
    rw [List.foldl_cons, ih hOthers, resetLines, List.filter_append, hStays, List.filter_filter,
      List.append_assoc, List.map_cons, List.singleton_append]
    simp only [List.mem_cons, forall_eq_or_imp, Bool.decide_and, Bool.and_comm]

/-! ### What the configuration becomes -/

/-- The text that the loop over the settings leaves. -/
def configured (text : Text) : Text := settings.foldl applySetting text

/-- A line of none of the settings. -/
def IsUnrelated (line : Text) : Prop := ∀ s ∈ settings, ¬IsSettingOf s.1 line

instance : DecidablePred IsUnrelated := fun line =>
  inferInstanceAs (Decidable (∀ s ∈ settings, ¬IsSettingOf s.1 line))

/-- Every setting has the requested line and no other, and the unrelated lines are as before. -/
structure IsConfigured (before after : Text) : Prop where
  requested : ∀ s ∈ settings,
    (lines after).filter (fun line => IsSettingOf s.1 line) = [settingLine s]
  unrelated : (lines after).filter (fun line => IsUnrelated line) =
    (lines before).filter fun line => IsUnrelated line

/-- What stands behind the last line feed. -/
def lastLine (text : Text) : Text := text.rtakeWhile (· ≠ '\n')

/-- Nothing does, or a line of the first of the settings. -/
def LastLineDone (text : Text) : Prop :=
  lastLine text = [] ∨ IsSettingOf "BUILTIN_DTB_SOURCE".toList (lastLine text)

instance : DecidablePred LastLineDone := fun text => inferInstanceAs (Decidable
  (lastLine text = [] ∨ IsSettingOf "BUILTIN_DTB_SOURCE".toList (lastLine text)))

theorem lastLine_unlines (all : List Text) (hLast : IsLine last) :
    lastLine (unlines all ++ last) = last := by
  have hAll : ∀ c ∈ last.reverse, decide (c ≠ '\n') = true := by
    intro c hMem
    apply decide_eq_true
    rintro rfl
    exact hLast (List.mem_reverse.mp hMem)
  have hFeed : (unlines all).reverse.takeWhile (fun c => decide (c ≠ '\n')) = [] := by
    cases all using List.reverseRecOn with
    | nil => rfl
    | append_singleton all line => simp [unlines]
  rw [lastLine, List.rtakeWhile, List.reverse_append, List.takeWhile_append_of_pos hAll, hFeed,
    List.append_nil, List.reverse_reverse]

/-- The first of the settings. -/
def dtbSource : Setting :=
  ("BUILTIN_DTB_SOURCE".toList, some "\"esp32s3-reterminal-e1001\"".toList)

theorem settings_cons : settings = dtbSource :: settings.tail := by decide

theorem dtbSource_mem : dtbSource ∈ settings := by
  rw [settings_cons]
  exact List.mem_cons_self

theorem configured_done (hLines : ∀ line ∈ all, IsLine line) (hLast : IsLine last)
    (hDone : LastLineDone (unlines all ++ last)) : configured (unlines all ++ last) =
      unlines (all.filter (fun line => IsUnrelated line) ++ settings.map settingLine) := by
  rw [LastLineDone, lastLine_unlines all hLast] at hDone
  have hFirst := applySetting_lines dtbSource_mem hLines hLast hDone
  have hTail : ∀ s ∈ settings.tail, s ∈ settings := fun s hMem => List.mem_of_mem_tail hMem
  have hOthers := foldl_applySetting hTail (resetLines_isLine dtbSource_mem hLines)
  calc configured (unlines all ++ last)
      = settings.tail.foldl applySetting (applySetting (unlines all ++ last) dtbSource) := by
        rw [configured, settings_cons, List.foldl_cons, List.tail_cons]
    _ = unlines (settings.tail.foldl resetLines (resetLines all dtbSource)) := by
        rw [hFirst, hOthers]
    _ = unlines (settings.foldl resetLines all) := by
        rw [settings_cons, List.foldl_cons, List.tail_cons]
    _ = _ := by
        rw [foldl_resetLines settings_apart]
        rfl

/-- Where the last line goes on, the first of the settings gets no line. -/
theorem configured_open (hLines : ∀ line ∈ all, IsLine line) (hLast : IsLine last)
    (hOpen : ¬LastLineDone (unlines all ++ last)) :
    settingLine dtbSource ∉ lines (configured (unlines all ++ last)) := by
  rw [LastLineDone, lastLine_unlines all hLast, not_or] at hOpen
  obtain ⟨hSome, hOther⟩ := hOpen
  have hNotSetting : ¬IsSettingOf dtbSource.1 last := hOther
  have hOwn := isLine_setting dtbSource dtbSource_mem
  let others := all.filter fun line => ¬IsSettingOf dtbSource.1 line
  have hOthers : ∀ line ∈ others ++ [last ++ settingLine dtbSource], IsLine line := by
    intro line hMem
    obtain hMem | hMem := List.mem_append.mp hMem
    · exact hLines line (List.mem_of_mem_filter hMem)
    · rw [List.mem_singleton.mp hMem, IsLine, List.mem_append, not_or]
      exact ⟨hLast, hOwn.2⟩
  have hFirst : applySetting (unlines all ++ last) dtbSource =
      unlines (others ++ [last ++ settingLine dtbSource]) := by
    rw [applySetting_text dtbSource_mem hLines hLast, if_neg hNotSetting, unlines_append]
    simp [unlines, others]
  have hApart := List.pairwise_cons.mp (settings_cons ▸ settings_apart)
  have hConfigured : configured (unlines all ++ last) =
      unlines ((others ++ [last ++ settingLine dtbSource]).filter
        (fun line => ∀ s ∈ settings.tail, ¬IsSettingOf s.1 line) ++
          settings.tail.map settingLine) ++ [] := by
    rw [configured, settings_cons, List.foldl_cons, List.tail_cons, hFirst,
      foldl_applySetting (fun s h => List.mem_of_mem_tail h) hOthers,
      foldl_resetLines hApart.2, List.append_nil]
  have hAllLines : ∀ line ∈ (others ++ [last ++ settingLine dtbSource]).filter
      (fun line => ∀ s ∈ settings.tail, ¬IsSettingOf s.1 line) ++
        settings.tail.map settingLine, IsLine line := by
    intro line hMem
    obtain hMem | hMem := List.mem_append.mp hMem
    · exact hOthers line (List.mem_of_mem_filter hMem)
    · obtain ⟨s, hSetting, rfl⟩ := List.mem_map.mp hMem
      exact (isLine_setting s (List.mem_of_mem_tail hSetting)).2
  rw [hConfigured, lines_unlines hAllLines List.not_mem_nil, if_pos rfl, List.append_nil]
  intro hMem
  obtain hMem | hMem := List.mem_append.mp hMem
  · obtain hMem | hMem := List.mem_append.mp (List.mem_of_mem_filter hMem)
    · exact of_decide_eq_true (List.mem_filter.mp hMem).2 (isSettingOf_own dtbSource dtbSource_mem)
    · exact hSome (List.self_eq_append_left.mp (List.mem_singleton.mp hMem))
  · obtain ⟨s, hSetting, hLine⟩ := List.mem_map.mp hMem
    apply (hApart.1 s hSetting).2
    rw [hLine]
    exact isSettingOf_own dtbSource dtbSource_mem

theorem settingLines_filter : ∀ s ∈ settings,
    (settings.map settingLine).filter (fun line => IsSettingOf s.1 line) = [settingLine s] := by
  decide

theorem settingLines_unrelated :
    (settings.map settingLine).filter (fun line => IsUnrelated line) = [] := by decide

theorem filter_configured (all : List Text) :
    (all.filter (fun line => IsUnrelated line) ++ settings.map settingLine).filter
      (fun line => IsUnrelated line) = all.filter fun line => IsUnrelated line := by
  rw [List.filter_append, settingLines_unrelated, List.append_nil, List.filter_filter]
  simp only [Bool.and_self]

theorem configured_isLine (hLines : ∀ line ∈ all, IsLine line) :
    ∀ line ∈ all.filter (fun line => IsUnrelated line) ++ settings.map settingLine,
      IsLine line := by
  intro line hMem
  obtain hMem | hMem := List.mem_append.mp hMem
  · exact hLines line (List.mem_of_mem_filter hMem)
  · obtain ⟨s, hSetting, rfl⟩ := List.mem_map.mp hMem
    exact (isLine_setting s hSetting).2

/-- A configuration whose last line is done gets every setting once and keeps its other lines. -/
theorem isConfigured_of_done {text : Text} (hDone : LastLineDone text) :
    IsConfigured text (configured text) := by
  obtain ⟨all, last, hLines, hLast, rfl⟩ := exists_lines text
  have hAfter : lines (configured (unlines all ++ last)) =
      all.filter (fun line => IsUnrelated line) ++ settings.map settingLine := by
    have hEmpty : IsLine [] := List.not_mem_nil
    have h := lines_unlines (configured_isLine hLines) hEmpty
    rwa [List.append_nil, if_pos rfl, List.append_nil,
      ← configured_done hLines hLast hDone] at h
  refine ⟨fun s hSetting => ?_, ?_⟩
  · have hNone : (all.filter fun line => IsUnrelated line).filter
        (fun line => IsSettingOf s.1 line) = [] := by
      rw [List.filter_eq_nil_iff]
      intro line hMem hSets
      exact of_decide_eq_true (List.mem_filter.mp hMem).2 s hSetting (of_decide_eq_true hSets)
    rw [hAfter, List.filter_append, hNone, settingLines_filter s hSetting, List.nil_append]
  · rw [LastLineDone, lastLine_unlines all hLast] at hDone
    have hRest : (if last = [] then [] else [last]).filter (fun line => IsUnrelated line) = [] := by
      obtain rfl | hSets := hDone
      · rfl
      · split
        · rfl
        · rw [List.filter_eq_nil_iff]
          intro line hMem hUnrelated
          rw [List.mem_singleton.mp hMem] at hUnrelated
          exact of_decide_eq_true hUnrelated dtbSource dtbSource_mem hSets
    rw [hAfter, filter_configured, lines_unlines hLines hLast, List.filter_append, hRest,
      List.append_nil]

theorem configured_twice {text : Text} (hDone : LastLineDone text) :
    configured (configured text) = configured text := by
  obtain ⟨all, last, hLines, hLast, rfl⟩ := exists_lines text
  rw [configured_done hLines hLast hDone]
  have hEmpty : IsLine [] := List.not_mem_nil
  have hSecond := configured_done (configured_isLine hLines) hEmpty
    (.inl (lastLine_unlines _ hEmpty))
  rwa [List.append_nil, filter_configured] at hSecond

theorem done_of_isConfigured {text : Text} (h : IsConfigured text (configured text)) :
    LastLineDone text := by
  obtain ⟨all, last, hLines, hLast, rfl⟩ := exists_lines text
  by_contra hOpen
  apply configured_open hLines hLast hOpen
  have hMem : settingLine dtbSource ∈ (lines (configured (unlines all ++ last))).filter
      (fun line => IsSettingOf dtbSource.1 line) := by
    rw [h.requested dtbSource dtbSource_mem]
    exact List.mem_singleton_self _
  exact List.mem_of_mem_filter hMem

end Esp32Fx.Tools.Overlay
