import Mathlib.Data.Bool.AllAny
import Esp32Fx.Tools.Serial

/-! What the console makes of any transcript of the board, in any reads: a command ends with the
line of its marker and nothing before. -/

namespace Esp32Fx.Tools

open Lib Regex

variable {pattern : Regex} {received text marker before after shown tail : Bytes}
  {reads : List Bytes} {found : Cursor}

/-! ### Waiting for a pattern -/

theorem untilFrom_ok (h : untilFrom pattern received reads = .ok (text, found)) :
    ∃ seen, seen <+: received ++ reads.flatten ∧ search pattern (dropReturns seen) = some found ∧
      text = recode (dropReturns seen) := by
  induction reads generalizing received with
  | nil => cases h
  | cons data reads ih =>
    rw [untilFrom] at h
    split at h
    · cases h
    · split at h
      · next hFound =>
        cases h
        exact ⟨received ++ data, by simp, hFound, rfl⟩
      · obtain ⟨seen, hSeen, hFound⟩ := ih h
        exact ⟨seen, by simpa using hSeen, hFound⟩

/-- Within the limit a wait only fails by the deadline, and then there is no match. -/
theorem untilFrom_error {e : SerialError} (hLimit : (received ++ reads.flatten).length ≤ captureLimit)
    (h : untilFrom pattern received reads = .error e) : e = timedOut ∧
      (reads = [] ∨ search pattern (dropReturns (received ++ reads.flatten)) = none) := by
  induction reads generalizing received with
  | nil =>
    cases h
    exact ⟨rfl, .inl rfl⟩
  | cons data reads ih =>
    rw [List.flatten_cons, ← List.append_assoc] at hLimit ⊢
    rw [untilFrom, if_neg] at h
    · split at h
      · cases h
      · next hNone =>
        obtain ⟨hError, hRest⟩ := ih hLimit h
        refine ⟨hError, .inr ?_⟩
        rcases hRest with rfl | hRest
        · simpa using hNone
        · exact hRest
    · rw [List.length_append] at hLimit
      omega

/-! ### Lines with a marker -/

/-- Wherever the marker is shown, it is next to the text that is around it in what was sent. -/
def Echoed (before marker after shown : Bytes) : Prop :=
  ∀ pre post, shown = pre ++ marker ++ post → before <:+ pre ∨ after <+: post

/-- The start of a line, as `(?:^|\\n)` takes it. -/
def LineStart (pre lead : Bytes) : Prop := lead = [0x0a] ∨ lead = [] ∧ pre = []

theorem match_lineStart {groups : List (Nat × Bytes)} {pre lead : Bytes} :
    Match lineStart (decide (pre = [])) lead groups ↔ LineStart pre lead ∧ groups = [] := by
  constructor
  · intro h
    cases h with
    | left h =>
      generalize hStart : decide (pre = []) = atStart at h
      cases h
      exact ⟨.inr ⟨rfl, of_decide_eq_true hStart⟩, rfl⟩
    | right h =>
      cases h
      exact ⟨.inl rfl, rfl⟩
  · rintro ⟨rfl | ⟨rfl, rfl⟩, rfl⟩
    · exact .right (.literal _ _)
    · exact .left .start

theorem LineStart.not_suffix {pre lead : Bytes} (h : LineStart pre lead) {b : UInt8}
    (hb : before.getLast? = some b) (hNewline : b ≠ 0x0a) : ¬before <:+ pre ++ lead := by
  rintro ⟨start, hStart⟩
  have hLast : (pre ++ lead).getLast? = some b := by
    rw [← hStart, List.getLast?_append, hb]
    rfl
  rcases h with rfl | ⟨rfl, rfl⟩
  · rw [List.getLast?_concat] at hLast
    exact hNewline (Option.some.inj hLast).symm
  · cases hLast

/-- A word without a newline is on one side of it. -/
theorem newline_splits {pre word post : Bytes} (hWord : (0x0a : UInt8) ∉ word)
    (hNonempty : word ≠ []) (hText : shown ++ 0x0a :: tail = pre ++ word ++ post) :
    (∃ cut, shown = pre ++ word ++ cut ∧ post = cut ++ 0x0a :: tail) ∨
      ∃ gap, pre = shown ++ 0x0a :: gap ∧ tail = gap ++ word ++ post := by
  rcases List.append_eq_append_iff.mp hText with ⟨cut, hPre, hCut⟩ | ⟨cut, hShown, hPost⟩
  · rcases List.append_eq_append_iff.mp hPre with ⟨gap, rfl, rfl⟩ | ⟨gap, rfl, rfl⟩
    · cases cut with
      | nil => exact .inl ⟨[], by simp, hCut.symm⟩
      | cons c cut =>
        obtain ⟨rfl, -⟩ := List.cons.inj hCut
        exact absurd (by simp) hWord
    · cases gap with
      | nil =>
        obtain ⟨w, word, rfl⟩ := List.exists_cons_of_ne_nil hNonempty
        obtain ⟨rfl, -⟩ := List.cons.inj hCut
        exact absurd List.mem_cons_self hWord
      | cons g gap =>
        obtain ⟨rfl, hTail⟩ := List.cons.inj hCut
        exact .inr ⟨gap, rfl, hTail⟩
  · exact .inl ⟨cut, hShown, hPost⟩

/-- A line with the marker among what is shown before another line is an echo. -/
theorem echoed_line {pre lead post : Bytes} {b : UInt8} (hEchoed : Echoed before marker after shown)
    (hBefore : before.getLast? = some b) (hNewline : b ≠ 0x0a) (hMarker : (0x0a : UInt8) ∉ marker)
    (hNonempty : marker ≠ []) (hLead : LineStart pre lead) (hEarly : pre.length < shown.length)
    (hText : shown ++ 0x0a :: tail = pre ++ lead ++ (marker ++ post)) : after <+: post := by
  rw [← List.append_assoc] at hText
  rcases newline_splits hMarker hNonempty hText with ⟨cut, hShown, rfl⟩ | ⟨gap, hPre, -⟩
  · have hEcho := (hEchoed _ cut hShown).resolve_left (hLead.not_suffix hBefore hNewline)
    exact hEcho.trans (List.prefix_append _ _)
  · have hLength := congrArg List.length hPre
    rw [List.length_append, List.length_append, List.length_cons] at hLength
    rcases hLead with rfl | ⟨rfl, rfl⟩
    · rw [List.length_singleton] at hLength
      omega
    · simp at hLength

/-- Another line without the marker changes nothing. -/
theorem Echoed.line {line : Bytes} (h : Echoed before marker after shown)
    (hMarker : (0x0a : UInt8) ∉ marker) (hLine : ¬marker <:+: line) :
    Echoed before marker after (shown ++ 0x0a :: line) := by
  have hNonempty : marker ≠ [] := by
    rintro rfl
    exact hLine List.nil_infix
  intro pre post hText
  rcases newline_splits hMarker hNonempty hText with ⟨cut, hShown, rfl⟩ | ⟨gap, -, hLater⟩
  · exact (h pre cut hShown).imp_right fun hAfter => hAfter.trans (List.prefix_append _ _)
  · exact absurd ⟨gap, post, hLater.symm⟩ hLine

/-- A line from the other line on is that line, or starts behind its text. -/
theorem line_behind {pre lead line word rest : Bytes} (hLead : LineStart pre lead)
    (hLine : (0x0a : UInt8) ∉ line) (hWord : word.head? = some 0x5f)
    (hLate : shown.length ≤ pre.length)
    (hText : shown ++ 0x0a :: (line ++ rest) = pre ++ lead ++ word) :
    (pre = shown ∧ lead = [0x0a] ∧ word = line ++ rest) ∨
      ∃ gap, pre = shown ++ 0x0a :: (line ++ gap) ∧ rest = gap ++ lead ++ word := by
  rcases hLead with rfl | ⟨rfl, rfl⟩
  swap
  · obtain rfl := List.eq_nil_of_length_eq_zero (Nat.le_zero.mp hLate)
    obtain rfl : _ = word := hText
    cases hWord
  rw [List.append_assoc] at hText
  obtain ⟨gap, rfl⟩ := List.prefix_of_prefix_length_le
    (List.prefix_append shown _) ⟨_, hText.symm⟩ hLate
  rw [List.append_assoc] at hText
  have hGap := List.append_cancel_left hText
  cases gap with
  | nil => exact .inl ⟨List.append_nil _, rfl, (List.cons.inj hGap).2.symm⟩
  | cons c gap =>
    obtain ⟨rfl, hAfter⟩ := List.cons.inj hGap
    rcases List.append_eq_append_iff.mp hAfter with ⟨more, rfl, rfl⟩ | ⟨more, rfl, hMore⟩
    · exact .inr ⟨more, rfl, by simp⟩
    · cases more with
      | nil => exact .inr ⟨[], by simp, by simpa using hMore.symm⟩
      | cons c more =>
        obtain ⟨rfl, -⟩ := List.cons.inj hMore
        exact absurd (by simp) hLine

/-! ### `run` -/

/-- A number as the board prints it. -/
structure IsNumber (digits : Bytes) : Prop where
  nonempty : digits ≠ []
  digits : ∀ b ∈ digits, isDigit b = true

/-- `secrets.token_hex`. -/
def IsToken (token : Bytes) : Prop := token.length = 16 ∧ ∀ b ∈ token, isHexDigit b = true

/-- What the board shows of a command: everything before the line of the marker, the status in that
line, and what comes after. -/
structure Answer (token : Bytes) where
  shown : Bytes
  status : Bytes
  rest : Bytes
  echoed : Echoed runBefore (commandMarker token) runAfter shown
  number : IsNumber status

def Answer.complete {token : Bytes} (answer : Answer token) : Bytes :=
  answer.shown ++ 0x0a :: (commandMarker token ++ ascii "=" ++ answer.status ++ [0x0a])

theorem match_runPattern {pre : Bytes} {groups : List (Nat × Bytes)} :
    Match (runPattern marker) (decide (pre = [])) text groups ↔
      ∃ lead digits, LineStart pre lead ∧ IsNumber digits ∧
        text = lead ++ (marker ++ (ascii "=" ++ (digits ++ [0x0a]))) ∧ groups = [(1, digits)] := by
  simp only [runPattern, match_seq, match_literal, match_group, match_many, match_lineStart]
  constructor
  · rintro ⟨lead, _, _, _, ⟨hLead, rfl⟩, ⟨_, _, _, _, ⟨rfl, rfl⟩, ⟨digits, _, _, _,
      ⟨_, ⟨⟨hDigits, hLeast⟩, rfl⟩, rfl⟩, ⟨rfl, rfl⟩, rfl, rfl⟩, rfl, rfl⟩, rfl, rfl⟩
    refine ⟨lead, digits, hLead, ⟨?_, hDigits⟩, by simp, rfl⟩
    rintro rfl
    cases hLeast
  · rintro ⟨lead, digits, hLead, hDigits, rfl, rfl⟩
    refine ⟨lead, _, [], [(1, digits)], ⟨hLead, rfl⟩, ⟨_, _, [], [(1, digits)], ⟨rfl, rfl⟩, ⟨digits,
      _, [(1, digits)], [], ⟨[], ⟨⟨hDigits.digits, ?_⟩, rfl⟩, rfl⟩, ⟨rfl, rfl⟩, rfl, rfl⟩, rfl, rfl⟩,
      by simp, rfl⟩
    exact List.length_pos_iff.mpr hDigits.nonempty

theorem isHexDigit_le {b : UInt8} (h : isHexDigit b = true) : b ≤ 0x66 := by
  simp only [isHexDigit, isDigit, Bool.or_eq_true, Bool.and_eq_true, decide_eq_true_eq] at h
  rcases h with h | h
  · exact UInt8.le_trans h.2 (by decide)
  · exact h.2

/-- What the markers have in common. -/
structure IsMarker (marker : Bytes) : Prop where
  head : marker.head? = some 0x5f
  bytes : ∀ b ∈ marker, b ≠ 0x0a ∧ b ≠ 0x0d ∧ b < 0x80

theorem IsMarker.line (h : IsMarker marker) : (0x0a : UInt8) ∉ marker := fun hNewline =>
  (h.bytes _ hNewline).1 rfl

theorem IsMarker.nonempty (h : IsMarker marker) : marker ≠ [] := by
  rintro rfl
  cases h.head

theorem IsMarker.head_append (h : IsMarker marker) (rest : Bytes) :
    (marker ++ rest).head? = some 0x5f := by
  rw [List.head?_append, h.head]
  rfl

theorem IsMarker.append {token : Bytes} (h : IsMarker marker) (hToken : IsToken token) :
    IsMarker (marker ++ token) where
  head := h.head_append token
  bytes b hb := by
    rcases List.mem_append.mp hb with hb | hb
    · exact h.bytes b hb
    · have hDigit := hToken.2 b hb
      refine ⟨?_, ?_, UInt8.lt_of_le_of_lt (isHexDigit_le hDigit) (by decide)⟩
      · rintro rfl
        exact absurd hDigit (by decide)
      · rintro rfl
        exact absurd hDigit (by decide)

theorem commandMarker_isMarker {token : Bytes} (hToken : IsToken token) :
    IsMarker (commandMarker token) :=
  IsMarker.append ⟨by decide, List.all_iff_forall_prop.mp (by decide)⟩ hToken

theorem beginMarker_isMarker {token : Bytes} (hToken : IsToken token) :
    IsMarker (beginMarker token) :=
  IsMarker.append ⟨by decide, List.all_iff_forall_prop.mp (by decide)⟩ hToken

theorem endMarker_isMarker {token : Bytes} (hToken : IsToken token) :
    IsMarker (endMarker token) :=
  IsMarker.append ⟨by decide, List.all_iff_forall_prop.mp (by decide)⟩ hToken

/-- The bytes of a class before another byte. -/
theorem class_unique {inClass : UInt8 → Bool} {a a' rest rest' : Bytes} {b b' : UInt8}
    (ha : ∀ x ∈ a, inClass x = true) (ha' : ∀ x ∈ a', inClass x = true) (hb : ¬inClass b = true)
    (hb' : ¬inClass b' = true) (hText : a ++ b :: rest = a' ++ b' :: rest') :
    a = a' ∧ b :: rest = b' :: rest' := by
  have hSpan := congrArg (List.takeWhile inClass) hText
  rw [List.takeWhile_append_of_pos ha, List.takeWhile_append_of_pos ha',
    List.takeWhile_cons_of_neg hb, List.takeWhile_cons_of_neg hb', List.append_nil,
    List.append_nil] at hSpan
  subst hSpan
  exact ⟨rfl, List.append_cancel_left hText⟩

/-- A line with a number behind the marker is no echo: that has a percent sign where the line has a
digit. -/
theorem number_late {pre lead digits rest : Bytes} {separator : UInt8}
    (hEchoed : Echoed before marker after shown) (hBefore : before.getLast? = some 0x6e)
    (hAfter : after[1]? = some 0x25) (hMarker : IsMarker marker) (hLead : LineStart pre lead)
    (hDigits : IsNumber digits)
    (hText : shown ++ 0x0a :: tail = pre ++ lead ++ (marker ++ separator :: (digits ++ rest))) :
    shown.length ≤ pre.length := by
  apply Nat.le_of_not_lt
  intro hEarly
  obtain ⟨d, digits, rfl⟩ := List.exists_cons_of_ne_nil hDigits.nonempty
  obtain ⟨tail, hTail⟩ := echoed_line hEchoed hBefore (by decide) hMarker.line hMarker.nonempty
    hLead hEarly hText
  obtain ⟨hBound, -⟩ := List.getElem?_eq_some_iff.mp hAfter
  have hSecond := congrArg (fun text : Bytes => text[1]?) hTail
  rw [List.getElem?_append_left hBound, hAfter] at hSecond
  obtain rfl : 0x25 = d := Option.some.inj hSecond
  exact absurd (hDigits.digits _ List.mem_cons_self) (by decide)

section Answer

variable {token seen : Bytes} {answer : Answer token}

theorem Answer.complete_eq (answer : Answer token) (rest : Bytes) :
    answer.complete ++ rest = answer.shown ++
      0x0a :: (commandMarker token ++ ascii "=" ++ answer.status ++ 0x0a :: rest) := by
  simp [complete]

theorem Answer.line (answer : Answer token) (hToken : IsToken token) :
    (0x0a : UInt8) ∉ commandMarker token ++ ascii "=" ++ answer.status := by
  simp only [List.mem_append, not_or]
  refine ⟨⟨(commandMarker_isMarker hToken).line, by decide⟩, fun h => ?_⟩
  exact absurd (answer.number.digits _ h) (by decide)

theorem Answer.matches (answer : Answer token) (rest : Bytes) :
    MatchesAt (runPattern (commandMarker token)) answer.shown
      (0x0a :: (commandMarker token ++ ascii "=" ++ answer.status ++ 0x0a :: rest)) :=
  ⟨_, rest, _, match_runPattern.mpr ⟨[0x0a], answer.status, .inl rfl, answer.number, rfl, rfl⟩,
    by simp⟩

/-- No line before the status ends the command. -/
theorem answer_late {pre lead digits rest : Bytes} (hToken : IsToken token)
    (hLead : LineStart pre lead) (hDigits : IsNumber digits)
    (hText : answer.complete ++ answer.rest =
      pre ++ lead ++ (commandMarker token ++ (ascii "=" ++ (digits ++ 0x0a :: rest)))) :
    answer.shown.length ≤ pre.length := by
  rw [Answer.complete, List.append_assoc, List.cons_append] at hText
  exact number_late answer.echoed rfl rfl (commandMarker_isMarker hToken) hLead hDigits hText

theorem answer_missed (h : search (runPattern (commandMarker token)) seen = none) :
    ¬answer.complete <+: seen := by
  rintro ⟨rest, rfl⟩
  have hNone := search_finds (runPattern (commandMarker token)) (answer.complete ++ rest)
  rw [h] at hNone
  exact hNone answer.shown _ (answer.complete_eq rest) (answer.matches rest)

theorem answer_found (hToken : IsToken token) (hSeen : seen <+: answer.complete ++ answer.rest)
    (h : search (runPattern (commandMarker token)) seen = some found) :
    answer.complete <+: seen ∧ found.group 1 = answer.status := by
  have hFinds := search_finds (runPattern (commandMarker token)) seen
  rw [h] at hFinds
  obtain ⟨pre, rest, rfl, hHead, hFirst⟩ := hFinds
  obtain ⟨text, after, groups, hMatch, hRest, rfl⟩ := run_sound (List.mem_of_head? hHead)
  obtain ⟨lead, digits, hLead, hDigits, rfl, rfl⟩ :=
    match_runPattern.mp (show Match _ (decide (pre = [])) text groups from hMatch)
  obtain rfl : rest = _ := hRest
  obtain ⟨more, hMore⟩ := hSeen
  have hText : answer.complete ++ answer.rest = pre ++ lead ++ (commandMarker token ++
      (ascii "=" ++ (digits ++ 0x0a :: (after ++ more)))) := by
    rw [← hMore]
    simp
  have hLate := answer_late hToken hLead hDigits hText
  rcases line_behind hLead (answer.line hToken) ((commandMarker_isMarker hToken).head_append _)
    hLate
    ((answer.complete_eq _).symm.trans hText) with ⟨rfl, rfl, hWord⟩ | ⟨gap, rfl, -⟩
  · rw [List.append_assoc, List.append_assoc] at hWord
    obtain ⟨rfl, hRest⟩ := class_unique hDigits.digits answer.number.digits (by decide) (by decide)
      (List.append_cancel_left (List.append_cancel_left hWord))
    exact ⟨⟨after, by simp [Answer.complete]⟩, rfl⟩
  · -- the line of the status would have been found before
    have hPrefix : answer.complete <+: answer.shown ++
        0x0a :: (commandMarker token ++ ascii "=" ++ answer.status ++ gap) ++
          (lead ++ (commandMarker token ++ (ascii "=" ++ (digits ++ [0x0a]))) ++ after) := by
      refine List.prefix_of_prefix_length_le (List.prefix_append _ answer.rest) ⟨more, hMore⟩ ?_
      simp only [Answer.complete, List.length_append, List.length_cons, List.length_nil]
      omega
    obtain ⟨tail, hTail⟩ := hPrefix
    have hShort := hFirst answer.shown _ (hTail.symm.trans (answer.complete_eq tail))
      (answer.matches tail)
    simp only [List.length_append, List.length_cons] at hShort
    omega

end Answer

theorem dropReturns_mono {a b : Bytes} (h : a <+: b) : dropReturns a <+: dropReturns b :=
  h.filter _

/-- The reads hold a part of what the board sends, within the capture limit, with carriage returns
anywhere. -/
structure Received (complete rest : Bytes) (reads : List Bytes) : Prop where
  cut : dropReturns reads.flatten <+: complete ++ rest
  limit : reads.flatten.length ≤ captureLimit

/-- A command ends with the status that the board prints for it, and not before. -/
theorem consoleRun_answer {token : Bytes} (hToken : IsToken token) (answer : Answer token)
    (hReads : Received answer.complete answer.rest reads) :
    (answer.complete <+: dropReturns reads.flatten →
      ∃ text, consoleRun token reads = .ok (intOf answer.status, text)) ∧
    (¬answer.complete <+: dropReturns reads.flatten →
      consoleRun token reads = .error timedOut) := by
  unfold consoleRun
  cases hUntil : consoleUntil (runPattern (commandMarker token)) reads with
  | ok result =>
    obtain ⟨text, found⟩ := result
    obtain ⟨seen, hSeen, hFound, -⟩ := untilFrom_ok hUntil
    have hPrefix := dropReturns_mono hSeen
    obtain ⟨hComplete, hStatus⟩ := answer_found hToken (hPrefix.trans hReads.cut) hFound
    refine ⟨fun _ => ⟨text, ?_⟩, fun hMissing => absurd (hComplete.trans hPrefix) hMissing⟩
    rw [← hStatus]
  | error e =>
    obtain ⟨rfl, hNone⟩ := untilFrom_error hReads.limit hUntil
    refine ⟨fun hComplete => ?_, fun _ => rfl⟩
    rcases hNone with rfl | hNone
    · have hEmpty := hComplete.length_le
      simp [Answer.complete, dropReturns] at hEmpty
    · exact absurd hComplete (answer_missed hNone)

/-! ### Echoes -/

/-- A text with the marker at one place only is an echo. -/
theorem echoed_once {front back : Bytes} (hMarker : marker ≠ [])
    (hFront : ¬marker <:+: front ++ before ++ marker.dropLast)
    (hBack : ¬marker <:+: marker.tail ++ after ++ back) :
    Echoed before marker after (front ++ before ++ marker ++ after ++ back) := by
  intro pre post hText
  rw [List.append_assoc, List.append_assoc (front ++ before)] at hText
  rcases Nat.lt_trichotomy pre.length (front ++ before).length with hLess | hSame | hMore
  · have hWhole : pre ++ marker <+: pre ++ marker ++ post := List.prefix_append _ _
    have hEarly : pre ++ marker <+: front ++ before ++ marker.dropLast := by
      apply List.prefix_of_prefix_length_le hWhole
      · rw [← hText]
        exact (List.prefix_append_right_inj _).mpr
          ((List.dropLast_prefix marker).trans (List.prefix_append _ _))
      · rw [List.length_append, List.length_append, List.length_dropLast]
        have hPositive := List.length_pos_iff.mpr hMarker
        omega
    exact absurd ((List.suffix_append pre marker).isInfix.trans hEarly.isInfix) hFront
  · rw [List.append_assoc pre] at hText
    obtain ⟨rfl, -⟩ := List.append_inj hText hSame.symm
    exact .inl (List.suffix_append _ _)
  · rw [List.append_assoc pre] at hText
    obtain ⟨gap, rfl⟩ := List.prefix_of_prefix_length_le (List.prefix_append (front ++ before) _)
      ⟨_, hText.symm⟩ (Nat.le_of_lt hMore)
    obtain ⟨m, marker, rfl⟩ := List.exists_cons_of_ne_nil hMarker
    rw [List.append_assoc (front ++ before)] at hText
    cases gap with
    | nil => simp at hMore
    | cons g gap =>
      obtain ⟨-, hLate⟩ := List.cons.inj (List.append_cancel_left hText)
      refine absurd ⟨gap, post, ?_⟩ hBack
      calc gap ++ (m :: marker) ++ post
        _ = gap ++ (m :: marker ++ post) := List.append_assoc ..
        _ = marker ++ (after ++ back) := hLate.symm
        _ = marker ++ after ++ back := (List.append_assoc ..).symm

end Esp32Fx.Tools
