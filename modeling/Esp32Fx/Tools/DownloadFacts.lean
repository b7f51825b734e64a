import Esp32Fx.Runner.FlashModule
import Esp32Fx.Tools.SerialFacts

/-! What a download makes of any transcript of the board, in any reads: the file of a whole frame, or
data that agrees with the header it came with. -/

namespace Esp32Fx.Tools

open Lib Regex Runner

variable {beginning ending text shown size size' digest digest' lead lead' rest rest' : Bytes}
  {found : Cursor}

/-! ### Headers -/

structure IsHexDigest (digest : Bytes) : Prop where
  digits : ∀ b ∈ digest, isHexDigit b = true
  length : digest.length = 64

/-- The line before a file. -/
def headerLine (beginning size digest : Bytes) : Bytes :=
  beginning ++ (ascii " " ++ (size ++ (ascii " " ++ digest)))

theorem match_headerPattern {pre : Bytes} {groups : List (Nat × Bytes)} :
    Match (headerPattern beginning) (decide (pre = [])) text groups ↔
      ∃ lead size digest, LineStart pre lead ∧ IsNumber size ∧ IsHexDigest digest ∧
        text = lead ++ (headerLine beginning size digest ++ [0x0a]) ∧
        groups = [(2, digest), (1, size)] := by
  simp only [headerPattern, match_seq, match_literal, match_group, match_many, match_exactly,
    match_lineStart]
  constructor
  · rintro ⟨lead, _, _, _, ⟨hLead, rfl⟩, ⟨_, _, _, _, ⟨rfl, rfl⟩, ⟨size, _, _, _,
      ⟨_, ⟨⟨hSize, hLeast⟩, rfl⟩, rfl⟩, ⟨_, _, _, _, ⟨rfl, rfl⟩, ⟨digest, _, _, _,
      ⟨_, ⟨⟨hDigest, hCount⟩, rfl⟩, rfl⟩, ⟨rfl, rfl⟩, rfl, rfl⟩, rfl, rfl⟩, rfl, rfl⟩, rfl, rfl⟩,
      rfl, rfl⟩
    refine ⟨lead, size, digest, hLead, ⟨?_, hSize⟩, ⟨hDigest, hCount⟩, by simp [headerLine], rfl⟩
    rintro rfl
    cases hLeast
  · rintro ⟨lead, size, digest, hLead, hSize, hDigest, rfl, rfl⟩
    refine ⟨lead, _, [], [(2, digest), (1, size)], ⟨hLead, rfl⟩, ⟨_, _, [], [(2, digest), (1, size)],
      ⟨rfl, rfl⟩, ⟨size, _, [(1, size)], [(2, digest)], ⟨[], ⟨⟨hSize.digits, ?_⟩, rfl⟩, rfl⟩,
      ⟨_, _, [], [(2, digest)], ⟨rfl, rfl⟩, ⟨digest, _, [(2, digest)], [],
      ⟨[], ⟨⟨hDigest.digits, hDigest.length⟩, rfl⟩, rfl⟩, ⟨rfl, rfl⟩, rfl, rfl⟩, rfl, rfl⟩, rfl, rfl⟩,
      rfl, rfl⟩, by simp [headerLine], rfl⟩
    exact List.length_pos_iff.mpr hSize.nonempty

theorem IsMarker.head_header (h : IsMarker beginning) (size digest rest : Bytes) :
    (headerLine beginning size digest ++ rest).head? = some 0x5f := by
  rw [headerLine, List.append_assoc]
  exact h.head_append _

/-- A text has at most one header at its start. -/
theorem header_unique {pre pre' : Bytes} (hBegin : IsMarker beginning) (hLead : LineStart pre lead)
    (hLead' : LineStart pre' lead') (hSize : IsNumber size) (hSize' : IsNumber size')
    (hDigest : IsHexDigest digest) (hDigest' : IsHexDigest digest')
    (hText : lead ++ (headerLine beginning size digest ++ 0x0a :: rest) =
      lead' ++ (headerLine beginning size' digest' ++ 0x0a :: rest')) :
    lead = lead' ∧ size = size' ∧ digest = digest' ∧ rest = rest' := by
  have hSame : lead = lead' := by
    have hFirst := congrArg List.head? hText
    rcases hLead with rfl | ⟨rfl, -⟩ <;> rcases hLead' with rfl | ⟨rfl, -⟩
    · rfl
    · cases hFirst.trans (hBegin.head_header ..)
    · cases (hBegin.head_header ..).symm.trans hFirst
    · rfl
  subst hSame
  have hRest := List.append_cancel_left hText
  simp only [headerLine, List.append_assoc] at hRest
  obtain ⟨rfl, hDigests⟩ := class_unique hSize.digits hSize'.digits (by decide) (by decide)
    (List.append_cancel_left (List.append_cancel_left hRest))
  obtain ⟨rfl, hEnd⟩ := class_unique hDigest.digits hDigest'.digits (by decide) (by decide)
    (List.cons.inj hDigests).2
  exact ⟨rfl, rfl, rfl, (List.cons.inj hEnd).2⟩

/-! ### Frames -/

/-- A header after `pre` with an ending somewhere behind it. -/
structure FrameAt (beginning ending text pre lead size digest body after : Bytes) : Prop where
  start : LineStart pre lead
  number : IsNumber size
  hex : IsHexDigest digest
  text_eq : text = pre ++ (lead ++ (headerLine beginning size digest ++
    0x0a :: (body ++ (ending ++ 0x0a :: after))))

/-- The frame that a search finds: the first header that has an ending behind it, and the text up to
the first ending. -/
structure FirstFrame (beginning ending text pre lead size digest body after : Bytes) : Prop
    extends FrameAt beginning ending text pre lead size digest body after where
  shortest : ∀ body' after', body ++ (ending ++ 0x0a :: after) =
    body' ++ (ending ++ 0x0a :: after') → body.length ≤ body'.length
  first : ∀ {pre' lead size digest body after},
    FrameAt beginning ending text pre' lead size digest body after → pre.length ≤ pre'.length

theorem FrameAt.matches {pre body after : Bytes}
    (h : FrameAt beginning ending text pre lead size digest body after) :
    ∃ rest, text = pre ++ rest ∧ MatchesAt (framePattern beginning ending) pre rest := by
  refine ⟨_, h.text_eq, lead ++ (headerLine beginning size digest ++ [0x0a]) ++
    (body ++ (ending ++ [0x0a])), after, [(3, body), (2, digest), (1, size)], ?_, ?_⟩
  · refine match_seq.mpr ⟨_, body ++ (ending ++ [0x0a]), _, [(3, body)],
      match_headerPattern.mpr ⟨lead, size, digest, h.start, h.number, h.hex, rfl, rfl⟩, ?_, rfl, rfl⟩
    refine match_seq.mpr ⟨body, _, [(3, body)], [], ?_, match_literal.mpr ⟨rfl, rfl⟩, rfl, rfl⟩
    exact match_group.mpr ⟨[], match_many.mpr ⟨⟨fun _ _ => rfl, Nat.zero_le _⟩, rfl⟩, rfl⟩
  · simp

theorem frame_groups {body : Bytes} (h : found.groups = [(3, body), (2, digest), (1, size)]) :
    found.group 1 = size ∧ found.group 2 = digest ∧ found.group 3 = body := by
  unfold Cursor.group
  rw [h]
  exact ⟨rfl, rfl, rfl⟩

theorem framePattern_missed {pre body after : Bytes}
    (h : FrameAt beginning ending text pre lead size digest body after) :
    search (framePattern beginning ending) text ≠ none := by
  intro hNone
  have hFinds := search_finds (framePattern beginning ending) text
  rw [hNone] at hFinds
  obtain ⟨rest, hText, hMatches⟩ := h.matches
  exact hFinds pre rest hText hMatches

theorem framePattern_found (hBegin : IsMarker beginning)
    (h : search (framePattern beginning ending) text = some found) :
    ∃ pre lead size digest body after,
      FirstFrame beginning ending text pre lead size digest body after ∧
      found.groups = [(3, body), (2, digest), (1, size)] := by
  have hFinds := search_finds (framePattern beginning ending) text
  rw [h] at hFinds
  obtain ⟨pre, rest, rfl, hHead, hFirst⟩ := hFinds
  obtain ⟨mid, hMid, -⟩ := List.mem_flatMap.mp (List.mem_of_head? hHead)
  obtain ⟨header, tail, groups, hMatch, hRest, rfl⟩ := run_sound hMid
  obtain ⟨lead, size, digest, hLead, hSize, hDigest, rfl, rfl⟩ :=
    match_headerPattern.mp (show Match _ (decide (pre = [])) header groups from hMatch)
  -- the header can be taken in one way only
  obtain ⟨body, hBody, hGroups, hShortest⟩ := head_lazy (head_seq (fun x hx => by
    obtain ⟨header', tail', groups', hMatch', hRest', rfl⟩ := run_sound hx
    obtain ⟨lead', size', digest', hLead', hSize', hDigest', rfl, rfl⟩ :=
      match_headerPattern.mp (show Match _ (decide (pre = [])) header' groups' from hMatch')
    obtain ⟨rfl, rfl, rfl, rfl⟩ := header_unique hBegin hLead hLead' hSize hSize' hDigest hDigest'
      (by simpa using hRest.symm.trans hRest')
    rfl) hHead)
  replace hBody : tail = body ++ (ending ++ 0x0a :: found.rest) := by
    simpa [behind] using hBody
  refine ⟨pre, lead, size, digest, body, found.rest, ⟨⟨hLead, hSize, hDigest, ?_⟩, ?_, ?_⟩, hGroups⟩
  · rw [show rest = _ from hRest, hBody]
    simp
  · intro body' after' hOther
    apply hShortest body' after'
    simpa [behind, hBody] using hOther
  · intro pre' _ _ _ _ _ hFrame
    obtain ⟨rest', hText, hMatches⟩ := hFrame.matches
    exact hFirst pre' rest' hText hMatches

/-! ### Decoding -/

/-- What decoding makes of a text grows with it, up to an ASCII byte. -/
theorem recode_longer {pre pre' tail : Bytes} {b : UInt8} (hb : b < 0x80)
    (hText : pre ++ rest = pre' ++ b :: tail) (hShorter : pre'.length < pre.length) :
    (recode pre').length < (recode pre).length := by
  rcases List.append_eq_append_iff.mp hText with ⟨cut, rfl, hCut⟩ | ⟨cut, rfl, hCut⟩
  · rw [List.length_append] at hShorter
    omega
  · cases cut with
    | nil => simp at hShorter
    | cons c cut =>
      obtain ⟨rfl, -⟩ := List.cons.inj hCut
      rw [recode_append hb, List.length_append, List.length_cons]
      omega

theorem IsMarker.ascii (h : IsMarker beginning) : IsAscii beginning := fun b hb =>
  (h.bytes b hb).2.2

theorem isDigit_ascii {b : UInt8} (h : isDigit b = true) : b < 0x80 := by
  simp only [isDigit, Bool.and_eq_true, decide_eq_true_eq] at h
  exact UInt8.lt_of_le_of_lt h.2 (by decide)

theorem headerLine_ascii (hBegin : IsMarker beginning) (hSize : IsNumber size)
    (hDigest : IsHexDigest digest) : IsAscii (headerLine beginning size digest) := by
  have hSpace : IsAscii (ascii " ") := by simp [ascii]
  simp only [headerLine, isAscii_append]
  refine ⟨hBegin.ascii, hSpace, fun b hb => isDigit_ascii (hSize.digits b hb), hSpace, fun b hb => ?_⟩
  exact UInt8.lt_of_le_of_lt (isHexDigit_le (hDigest.digits b hb)) (by decide)

theorem LineStart.ascii {pre : Bytes} (h : LineStart pre lead) : IsAscii lead := by
  rcases h with rfl | ⟨rfl, -⟩
  · simp
  · simp

section Recode

variable {pre body after : Bytes}

theorem ending_word (body ending after : Bytes) :
    body ++ (ending ++ 0x0a :: after) = body ++ (ending ++ [0x0a] ++ after) := by
  simp

/-- A frame is two ASCII words, with any text around them. -/
theorem frame_words (pre lead header body ending after : Bytes) :
    pre ++ (lead ++ (header ++ 0x0a :: (body ++ (ending ++ 0x0a :: after)))) =
      pre ++ (lead ++ (header ++ [0x0a]) ++ (body ++ (ending ++ [0x0a] ++ after))) := by
  simp

theorem FrameAt.header_ascii (hBegin : IsMarker beginning)
    (h : FrameAt beginning ending text pre lead size digest body after) :
    IsAscii (lead ++ (headerLine beginning size digest ++ [0x0a])) := by
  simp [h.start.ascii, headerLine_ascii hBegin h.number h.hex]

theorem IsMarker.line_ascii (hEnd : IsMarker ending) : IsAscii (ending ++ [0x0a]) := by
  simp [hEnd.ascii]

/-- The first byte of a frame starts the line or the marker. -/
theorem FrameAt.first_byte (hBegin : IsMarker beginning)
    (h : FrameAt beginning ending text pre lead size digest body after) :
    ∃ b tail, b < 0x80 ∧ text = pre ++ b :: tail := by
  rcases h.start with rfl | ⟨rfl, -⟩
  · exact ⟨0x0a, _, by decide, h.text_eq⟩
  · obtain ⟨tail, hTail⟩ := List.head?_eq_some_iff.mp (hBegin.head_header size digest
      (0x0a :: (body ++ (ending ++ 0x0a :: after))))
    exact ⟨0x5f, tail, by decide, by rw [h.text_eq, List.nil_append, hTail]⟩

theorem FrameAt.recoded (hBegin : IsMarker beginning) (hEnd : IsMarker ending)
    (h : FrameAt beginning ending text pre lead size digest body after) :
    FrameAt beginning ending (recode text) (recode pre) lead size digest (recode body)
      (recode after) where
  start := h.start.imp_right fun ⟨hLead, hPre⟩ => ⟨hLead, by rw [hPre, recode_nil]⟩
  number := h.number
  hex := h.hex
  text_eq := by
    rw [h.text_eq, frame_words, recode_word (h.header_ascii hBegin) (by simp),
      recode_word hEnd.line_ascii (by simp), frame_words]

theorem FrameAt.decoded (hBegin : IsMarker beginning) (hEnd : IsMarker ending)
    (h : FrameAt beginning ending (recode text) pre lead size digest body after) :
    ∃ pre' body' after', FrameAt beginning ending text pre' lead size digest body' after' ∧
      recode pre' = pre ∧ recode body' = body ∧ recode after' = after := by
  obtain ⟨pre', tail, hText, rfl, hTail⟩ :=
    recode_word_split (h.header_ascii hBegin) (by simp) (h.text_eq.trans (frame_words ..))
  obtain ⟨body', after', rfl, rfl, rfl⟩ := recode_word_split hEnd.line_ascii (by simp) hTail
  refine ⟨pre', body', after', ⟨?_, h.number, h.hex, hText.trans (frame_words ..).symm⟩,
    rfl, rfl, rfl⟩
  exact h.start.imp_right fun ⟨hLead, hPre⟩ => ⟨hLead, recode_eq_nil hPre⟩

/-- The first frame after decoding comes from the first frame. -/
theorem FirstFrame.decoded (hBegin : IsMarker beginning) (hEnd : IsMarker ending)
    (h : FirstFrame beginning ending (recode text) pre lead size digest body after) :
    ∃ pre' body' after', FirstFrame beginning ending text pre' lead size digest body' after' ∧
      recode body' = body := by
  obtain ⟨pre', body', after', hFrame, rfl, rfl, rfl⟩ := h.toFrameAt.decoded hBegin hEnd
  refine ⟨pre', body', after', ⟨hFrame, ?_, ?_⟩, rfl⟩
  · intro other rest hText
    apply Nat.le_of_not_lt
    intro hShorter
    obtain ⟨tail, hTail⟩ := List.head?_eq_some_iff.mp (hEnd.head_append (0x0a :: rest))
    have hLonger := recode_longer (b := 0x5f) (by decide) (hTail ▸ hText) hShorter
    have hRecoded := congrArg recode hText
    rw [ending_word, ending_word, recode_word hEnd.line_ascii (by simp),
      recode_word hEnd.line_ascii (by simp), ← ending_word, ← ending_word] at hRecoded
    have hLeast := h.shortest _ _ hRecoded
    omega
  · intro other _ _ _ _ _ hOther
    apply Nat.le_of_not_lt
    intro hShorter
    obtain ⟨b, tail, hb, hText⟩ := hOther.first_byte hBegin
    have hLonger := recode_longer hb (hFrame.text_eq.symm.trans hText) hShorter
    have hLeast := h.first (hOther.recoded hBegin hEnd)
    omega

end Recode

/-! ### What the board prints -/

/-- The header of a file, and everything that the board shows before it. -/
structure Header (token : Bytes) where
  shown : Bytes
  size : Bytes
  digest : Bytes
  echoed : Echoed beginBefore (beginMarker token) beginAfter shown
  number : IsNumber size
  hex : IsHexDigest digest

namespace Header

variable {token seen more tail pre body after : Bytes} (header : Header token)

def line : Bytes := headerLine (beginMarker token) header.size header.digest

def printed : Bytes := header.shown ++ 0x0a :: (header.line ++ [0x0a])

theorem line_newline (hToken : IsToken token) : (0x0a : UInt8) ∉ header.line := by
  simp only [line, headerLine, List.mem_append, not_or]
  refine ⟨(beginMarker_isMarker hToken).line, by decide, fun h => ?_, by decide, fun h => ?_⟩
  · exact absurd (header.number.digits _ h) (by decide)
  · exact absurd (header.hex.digits _ h) (by decide)

/-- No header is before it. -/
theorem late (hToken : IsToken token) (hStart : LineStart pre lead) (hNumber : IsNumber size)
    (hText : header.shown ++ 0x0a :: tail =
      pre ++ lead ++ (headerLine (beginMarker token) size digest ++ rest)) :
    header.shown.length ≤ pre.length := by
  rw [headerLine, List.append_assoc (beginMarker token), List.append_assoc (ascii " "),
    List.append_assoc size] at hText
  exact number_late header.echoed rfl rfl (beginMarker_isMarker hToken) hStart hNumber hText

/-- The first frame of a text with the whole header is the frame of that header. -/
theorem first_frame (hToken : IsToken token) (hText : seen ++ more = header.printed ++ tail)
    (h : FirstFrame (beginMarker token) ending seen pre lead size digest body after) :
    size = header.size ∧ digest = header.digest ∧
      body ++ (ending ++ 0x0a :: after) ++ more = tail := by
  have hMarker := beginMarker_isMarker hToken
  have hWhole : header.shown ++ 0x0a :: (header.line ++ 0x0a :: tail) = pre ++ lead ++
      (headerLine (beginMarker token) size digest ++
        0x0a :: (body ++ (ending ++ 0x0a :: after) ++ more)) := by
    have hSeen := hText.symm
    rw [h.text_eq] at hSeen
    simpa [printed] using hSeen
  have hLate := header.late hToken h.start h.number hWhole
  rcases line_behind h.start (header.line_newline hToken) (hMarker.head_header ..) hLate hWhole with
    ⟨-, -, hWord⟩ | ⟨gap, rfl, hGap⟩
  · have hStart : LineStart [] [] := .inr ⟨rfl, rfl⟩
    obtain ⟨-, rfl, rfl, hTail⟩ := header_unique hMarker hStart hStart h.number header.number h.hex
      header.hex hWord
    exact ⟨rfl, rfl, hTail⟩
  · -- the same ending is behind the header of the board
    obtain ⟨inner, hInner⟩ : ∃ inner, gap ++ (lead ++ (headerLine (beginMarker token) size digest ++
        0x0a :: body)) = 0x0a :: inner := by
      cases gap with
      | nil =>
        rcases h.start with rfl | ⟨rfl, -⟩
        · exact ⟨_, rfl⟩
        · have hHead := congrArg List.head? hGap
          cases hHead.trans (hMarker.head_header ..)
      | cons g gap =>
        obtain ⟨rfl, -⟩ := List.cons.inj hGap
        exact ⟨_, rfl⟩
    have hEarlier : FrameAt (beginMarker token) ending seen header.shown [0x0a] header.size
        header.digest inner after := by
      refine ⟨.inl rfl, header.number, header.hex, ?_⟩
      calc
        seen = header.shown ++ 0x0a :: (header.line ++ (gap ++ (lead ++
            (headerLine (beginMarker token) size digest ++ 0x0a :: body)) ++
            (ending ++ 0x0a :: after))) := by
          rw [h.text_eq]
          simp
        _ = header.shown ++ ([0x0a] ++ (header.line ++ 0x0a :: (inner ++
            (ending ++ 0x0a :: after)))) := by rw [hInner]; rfl
    have hFirst := h.first hEarlier
    rw [List.length_append, List.length_cons] at hFirst
    omega

end Header

/-! ### The ending -/

section Ending

variable {seen : Bytes}

theorem match_endPattern {pre : Bytes} {groups : List (Nat × Bytes)} :
    Match (endPattern ending) (decide (pre = [])) text groups ↔
      ∃ lead, LineStart pre lead ∧ text = lead ++ (ending ++ [0x0a]) ∧ groups = [] := by
  simp only [endPattern, match_seq, match_literal, match_lineStart]
  constructor
  · rintro ⟨lead, _, _, _, ⟨hLead, rfl⟩, ⟨rfl, rfl⟩, rfl, rfl⟩
    exact ⟨lead, hLead, rfl, rfl⟩
  · rintro ⟨lead, hLead, rfl, rfl⟩
    exact ⟨lead, _, [], [], ⟨hLead, rfl⟩, ⟨rfl, rfl⟩, rfl, rfl⟩

theorem endPattern_missed (h : search (endPattern ending) seen = none) :
    ¬shown ++ 0x0a :: (ending ++ [0x0a]) <+: seen := by
  rintro ⟨rest, rfl⟩
  have hNone := search_finds (endPattern ending) (shown ++ 0x0a :: (ending ++ [0x0a]) ++ rest)
  rw [h] at hNone
  refine hNone shown (0x0a :: (ending ++ [0x0a]) ++ rest) (by simp) ⟨_, rest, [], ?_, rfl⟩
  exact match_endPattern.mpr ⟨[0x0a], .inl rfl, rfl, rfl⟩

/-- No ending is found before the line of the ending. -/
theorem endPattern_found (hEnd : IsMarker ending) (hEchoed : Echoed endBefore ending endAfter shown)
    (hSeen : seen <+: shown ++ 0x0a :: (ending ++ [0x0a]) ++ rest)
    (h : search (endPattern ending) seen = some found) :
    shown ++ 0x0a :: (ending ++ [0x0a]) <+: seen := by
  have hFinds := search_finds (endPattern ending) seen
  rw [h] at hFinds
  obtain ⟨pre, _, rfl, hHead, -⟩ := hFinds
  obtain ⟨_, after, groups, hMatch, rfl, -⟩ := run_sound (List.mem_of_head? hHead)
  obtain ⟨lead, hLead, rfl, -⟩ :=
    match_endPattern.mp (show Match _ (decide (pre = [])) _ groups from hMatch)
  refine List.prefix_of_prefix_length_le (List.prefix_append _ rest) hSeen ?_
  obtain ⟨more, hMore⟩ := hSeen
  have hText : shown ++ 0x0a :: (ending ++ 0x0a :: rest) =
      pre ++ lead ++ (ending ++ 0x0a :: (after ++ more)) := by
    simpa using hMore.symm
  have hLate : shown.length ≤ pre.length := by
    apply Nat.le_of_not_lt
    intro hEarly
    obtain ⟨tail, hTail⟩ := echoed_line (b := 0x27) hEchoed (by decide) (by decide) hEnd.line
      hEnd.nonempty hLead hEarly hText
    cases hTail
  rcases hLead with rfl | ⟨rfl, rfl⟩
  · simp only [List.length_append, List.length_cons, List.length_nil]
    omega
  · obtain rfl := List.eq_nil_of_length_eq_zero (Nat.le_zero.mp hLate)
    have hHead := congrArg List.head? hText
    cases hHead.trans (hEnd.head_append _)

end Ending

/-- The lines of a frame and its ending, as what is shown before the line of the ending. -/
theorem Echoed.lines {marker before after : Bytes} {lines : List Bytes}
    (h : Echoed before marker after shown) (hMarker : (0x0a : UInt8) ∉ marker)
    (hLines : ∀ line ∈ lines, ¬marker <:+: line) :
    ∃ shown', Echoed before marker after shown' ∧ ∀ tail,
      shown ++ 0x0a :: (lines.flatMap (· ++ [0x0a]) ++ tail) = shown' ++ 0x0a :: tail := by
  induction lines generalizing shown with
  | nil => exact ⟨shown, h, fun _ => rfl⟩
  | cons line lines ih =>
    obtain ⟨hLine, hLines⟩ := List.forall_mem_cons.mp hLines
    obtain ⟨shown', hShown, hText⟩ := ih (h.line hMarker hLine) hLines
    refine ⟨shown', hShown, fun tail => ?_⟩
    rw [← hText]
    simp

/-- A file as the board prints it, with whatever comes after it. -/
structure Frame (sha256 : Bytes → Bytes) (content token token' : Bytes) extends Header token where
  lines : List Bytes
  rest : Bytes
  echoedEnd : Echoed endBefore (endMarker token') endAfter shown
  size_eq : intOf size = content.length
  digest_eq : digest = encode (hexdigest (sha256 content))
  lines_eq : lines.flatten = Base64.encode content

namespace Frame

variable {sha256 : Bytes → Bytes} {content token token' seen : Bytes}
  (frame : Frame sha256 content token token')

def payload : Bytes := frame.lines.flatMap (· ++ [0x0a])

def complete : Bytes := frame.printed ++ (frame.payload ++ (endMarker token' ++ [0x0a]))

theorem line_character {line : Bytes} (hLine : line ∈ frame.lines) :
    ∀ b ∈ line, Base64.isCharacter b = true := by
  intro b hb
  apply Base64.encode_characters content
  rw [← frame.lines_eq]
  exact List.mem_flatten_of_mem hLine hb

theorem payload_byte {b : UInt8} (hb : b ∈ frame.payload) :
    b = 0x0a ∨ Base64.isCharacter b = true := by
  obtain ⟨line, hLine, hb⟩ := List.mem_flatMap.mp hb
  rcases List.mem_append.mp hb with hb | hb
  · exact .inr (frame.line_character hLine b hb)
  · exact .inl (List.mem_singleton.mp hb)

/-- Neither the header nor the payload has the marker of the ending. -/
theorem line_ending (hToken : IsToken token) :
    ∀ line ∈ frame.line :: frame.lines, ¬endMarker token' <:+: line := by
  refine List.forall_mem_cons.mpr ⟨?_, ?_⟩
  · intro hInfix
    have hMem : (0x45 : UInt8) ∈ frame.line := hInfix.subset (List.mem_append_left _ (by decide))
    simp only [Header.line, headerLine, beginMarker, List.mem_append] at hMem
    rcases hMem with (hMem | hMem) | hMem | hMem | hMem | hMem
    · exact absurd hMem (by decide)
    · exact absurd (hToken.2 _ hMem) (by decide)
    · exact absurd hMem (by decide)
    · exact absurd (frame.number.digits _ hMem) (by decide)
    · exact absurd hMem (by decide)
    · exact absurd (frame.hex.digits _ hMem) (by decide)
  · intro line hLine hInfix
    have hMem : (0x5f : UInt8) ∈ line := hInfix.subset (List.mem_append_left _ (by decide))
    exact absurd (frame.line_character hLine _ hMem) (by decide)

theorem complete_lines (hToken : IsToken token) (hToken' : IsToken token') :
    ∃ shown, Echoed endBefore (endMarker token') endAfter shown ∧
      frame.complete = shown ++ 0x0a :: (endMarker token' ++ [0x0a]) := by
  obtain ⟨shown, hShown, hText⟩ := frame.echoedEnd.lines (endMarker_isMarker hToken').line
    (frame.line_ending hToken)
  refine ⟨shown, hShown, ?_⟩
  rw [← hText]
  simp [complete, Header.printed, payload]

theorem payload_ascii : IsAscii frame.payload := by
  intro b hb
  rcases frame.payload_byte hb with rfl | hb
  · decide
  · exact Base64.isCharacter_ascii hb

/-- The lines are joined to what `base64` gives. -/
theorem payload_joined :
    frame.payload.filter (fun b => b ≠ 0x0a && b ≠ 0x0d) = Base64.encode content := by
  rw [← frame.lines_eq, payload, List.filter_flatMap, ← List.flatMap_id]
  apply List.flatMap_congr
  intro line hLine
  have hLineBytes : line.filter (fun b => b ≠ 0x0a && b ≠ 0x0d) = line := by
    apply List.filter_eq_self.mpr
    intro b hb
    have hCharacter := frame.line_character hLine b hb
    simp only [Bool.and_eq_true, decide_eq_true_eq]
    constructor <;> rintro rfl <;> exact absurd hCharacter (by decide)
  rw [List.filter_append, hLineBytes]
  exact List.append_nil line

/-- The first frame in what was received is this one. -/
theorem first_payload {more pre body after : Bytes} (hToken : IsToken token)
    (hToken' : IsToken token') (hSeen : seen = frame.complete ++ more)
    (h : FirstFrame (beginMarker token) (endMarker token') seen pre lead size digest body after) :
    size = frame.size ∧ digest = frame.digest ∧ body = frame.payload := by
  have hWhole : seen ++ [] =
      frame.printed ++ (frame.payload ++ (endMarker token' ++ 0x0a :: more)) := by
    simp [hSeen, complete]
  obtain ⟨hSize, hDigest, hBody⟩ := frame.first_frame hToken hWhole h
  rw [List.append_nil] at hBody
  refine ⟨hSize, hDigest, ?_⟩
  have hPayload : ∀ b ∈ frame.payload, (b ≠ 0x5f : Bool) = true := by
    intro b hb
    rw [decide_eq_true_eq]
    rintro rfl
    rcases frame.payload_byte hb with hb | hb
    · cases hb
    · exact absurd hb (by decide)
  have hPrefix : body <+: frame.payload := List.prefix_of_prefix_length_le
    (List.prefix_append body _) ⟨_, hBody.symm⟩ (h.shortest _ _ hBody)
  obtain ⟨tail, hTail⟩ := List.head?_eq_some_iff.mp (endMarker_isMarker hToken').head
  rw [hTail] at hBody
  exact (class_unique (fun b hb => hPayload b (hPrefix.subset hb)) hPayload (by decide) (by decide)
    hBody).1

end Frame

theorem dropReturns_recode (bytes : Bytes) :
    dropReturns (recode (dropReturns bytes)) = recode (dropReturns bytes) := by
  apply List.filter_eq_self.mpr
  intro b hb
  rw [decide_eq_true_eq]
  rintro rfl
  obtain ⟨pre', rest', hText⟩ := List.append_of_mem hb
  obtain ⟨pre, rest, hSplit, -⟩ := recode_split (by decide) hText
  have hMem : (0x0d : UInt8) ∈ dropReturns bytes := hSplit ▸ by simp
  simp [dropReturns] at hMem

/-! ### `download` -/

section Download

variable {sha256 : Bytes → Bytes} {content data token token' : Bytes}

/-- Data that is returned agrees with the header of the first frame. -/
theorem readFrame_agrees (hBegin : IsMarker beginning)
    (h : readFrame sha256 beginning ending text = .ok data) :
    ∃ pre lead size digest body after,
      FirstFrame beginning ending text pre lead size digest body after ∧
      intOf size = data.length ∧ digest = encode (hexdigest (sha256 data)) := by
  unfold readFrame at h
  split at h
  · cases h
  · next found hSearch =>
    obtain ⟨pre, lead, size, digest, body, after, hFrame, hGroups⟩ :=
      framePattern_found hBegin hSearch
    split at h
    · cases h
    · next decoded hDecode =>
      split at h
      · cases h
      · next hLength =>
        split at h
        · cases h
        · next hDigest =>
          cases h
          obtain ⟨rfl, rfl, -⟩ := frame_groups hGroups
          exact ⟨pre, lead, _, _, body, after, hFrame, (not_not.mp hLength).symm,
            (not_not.mp hDigest).symm⟩

theorem Frame.readFrame_complete (frame : Frame sha256 content token token')
    (hToken : IsToken token) (hToken' : IsToken token') (more : Bytes) :
    readFrame sha256 (beginMarker token) (endMarker token') (recode (frame.complete ++ more)) =
      .ok content := by
  have hBegin := beginMarker_isMarker hToken
  have hEnd := endMarker_isMarker hToken'
  have hFrame : FrameAt (beginMarker token) (endMarker token') (frame.complete ++ more) frame.shown
      [0x0a] frame.size frame.digest frame.payload more :=
    ⟨.inl rfl, frame.number, frame.hex, by simp [complete, Header.printed, Header.line]⟩
  unfold readFrame
  split
  · next hNone => exact absurd hNone (framePattern_missed (hFrame.recoded hBegin hEnd))
  · next found hSearch =>
    obtain ⟨pre, lead, size, digest, body, after, hFirst, hGroups⟩ :=
      framePattern_found hBegin hSearch
    obtain ⟨pre', body', after', hFirst', rfl⟩ := hFirst.decoded hBegin hEnd
    obtain ⟨rfl, rfl, rfl⟩ := frame.first_payload hToken hToken' rfl hFirst'
    have hBody : recode frame.payload = frame.payload := by
      simpa using recode_start frame.payload_ascii []
    obtain ⟨hSize, hDigest, hPayload⟩ := frame_groups hGroups
    rw [hPayload, hBody, frame.payload_joined, Base64.decode_encode, hSize, hDigest]
    simp only
    rw [if_neg (not_not.mpr frame.size_eq.symm), if_neg (not_not.mpr frame.digest_eq.symm)]

/-- What is received up to the ending, decoded, is the frame and more. -/
theorem Frame.until_complete (frame : Frame sha256 content token token') (hToken : IsToken token)
    (hToken' : IsToken token') {reads : List Bytes}
    (hReads : Received frame.complete frame.rest reads)
    (hComplete : frame.complete <+: dropReturns reads.flatten) :
    ∃ more found, consoleUntil (endPattern (endMarker token')) reads =
      .ok (recode (frame.complete ++ more), found) ∧
      dropReturns (recode (frame.complete ++ more)) = recode (frame.complete ++ more) := by
  obtain ⟨shown, hShown, hLines⟩ := frame.complete_lines hToken hToken'
  cases hUntil : consoleUntil (endPattern (endMarker token')) reads with
  | ok result =>
    obtain ⟨wire, found⟩ := result
    obtain ⟨seen, hSeen, hFound, rfl⟩ := untilFrom_ok hUntil
    have hPrefix := (dropReturns_mono hSeen).trans hReads.cut
    rw [hLines] at hPrefix
    obtain ⟨more, hMore⟩ := endPattern_found (endMarker_isMarker hToken') hShown hPrefix hFound
    refine ⟨more, found, ?_, ?_⟩
    · rw [hLines, hMore]
    · rw [hLines, hMore, dropReturns_recode]
  | error e =>
    obtain ⟨-, rfl | hNone⟩ := untilFrom_error hReads.limit hUntil
    · have hEmpty := hComplete.length_le
      simp [Frame.complete, Header.printed, dropReturns] at hEmpty
    · rw [hLines] at hComplete
      exact absurd hComplete (endPattern_missed hNone)

/-- A header line in a text. -/
structure Announced (beginning text size digest : Bytes) : Prop where
  number : IsNumber size
  hex : IsHexDigest digest
  line : ∃ pre lead rest, LineStart pre lead ∧
    text = pre ++ lead ++ (headerLine beginning size digest ++ 0x0a :: rest)

/-- The data has the size and the SHA-256 of a header. -/
def Agrees (sha256 : Bytes → Bytes) (data size digest : Bytes) : Prop :=
  data.length = intOf size ∧ encode (hexdigest (sha256 data)) = digest

/-- The status of the check before a download, for a regular file. -/
def checkStatus (content : Bytes) (maximum : Int) : Nat := if content.length ≤ maximum then 0 else 1

variable {source : List Char} {maximum : Int} {token'' : Bytes} {checked framed : List Bytes}

theorem download_ok
    (h : download sha256 source maximum token token' token'' checked framed = .ok data) :
    ∃ seen, seen <+: dropReturns framed.flatten ∧
      readFrame sha256 (beginMarker token') (endMarker token'') (recode seen) = .ok data := by
  unfold download at h
  split at h
  · cases h
  · split at h
    · cases h
    · split at h
      · cases h
      · split at h
        · cases h
        · split at h
          · cases h
          · next wire found hUntil =>
            obtain ⟨seen, hSeen, -, rfl⟩ := untilFrom_ok hUntil
            rw [dropReturns_recode] at h
            exact ⟨dropReturns seen, dropReturns_mono hSeen, h⟩

theorem download_agrees (hToken' : IsToken token') (hToken'' : IsToken token'')
    (h : download sha256 source maximum token token' token'' checked framed = .ok data) :
    (∃ size digest, Announced (beginMarker token') (dropReturns framed.flatten) size digest ∧
      Agrees sha256 data size digest) ∧
    ∀ (header : Header token') (tail : Bytes), dropReturns framed.flatten = header.printed ++ tail →
      Agrees sha256 data header.size header.digest := by
  have hBegin := beginMarker_isMarker hToken'
  obtain ⟨seen, ⟨more, hMore⟩, hRead⟩ := download_ok h
  obtain ⟨pre, lead, size, digest, body, after, hFirst, hSize, hDigest⟩ :=
    readFrame_agrees hBegin hRead
  obtain ⟨pre', body', after', hFirst', -⟩ := hFirst.decoded hBegin (endMarker_isMarker hToken'')
  constructor
  · refine ⟨size, digest, ⟨hFirst'.number, hFirst'.hex, pre', lead,
      body' ++ (endMarker token'' ++ 0x0a :: after') ++ more, hFirst'.start, ?_⟩, hSize.symm,
      hDigest.symm⟩
    rw [← hMore, hFirst'.text_eq]
    simp
  · intro header tail hTail
    obtain ⟨rfl, rfl, -⟩ := header.first_frame hToken' (hMore.trans hTail) hFirst'
    exact ⟨hSize.symm, hDigest.symm⟩

theorem download_complete {root : List Char} (hToken : IsToken token) (hToken' : IsToken token')
    (hToken'' : IsToken token'') (hSource : downloadRoot source = .ok root) (hLeast : 1 ≤ maximum)
    (hMost : maximum ≤ 1024 * 1024) (hContent : content.length ≤ maximum) (check : Answer token)
    (hStatus : intOf check.status = checkStatus content maximum)
    (hChecked : Received check.complete check.rest checked)
    (hCheck : check.complete <+: dropReturns checked.flatten)
    (frame : Frame sha256 content token' token'')
    (hFramed : Received frame.complete frame.rest framed)
    (hFrame : frame.complete <+: dropReturns framed.flatten) :
    download sha256 source maximum token token' token'' checked framed = .ok content := by
  obtain ⟨text, hRun⟩ := (consoleRun_answer hToken check hChecked).1 hCheck
  obtain ⟨more, found, hUntil, hClean⟩ := frame.until_complete hToken' hToken'' hFramed hFrame
  rw [hStatus, checkStatus, if_pos hContent] at hRun
  unfold download
  rw [hSource]
  simp only
  rw [if_neg (by omega), hRun]
  simp only
  rw [if_neg (not_not.mpr rfl), hUntil]
  simp only
  rw [hClean, frame.readFrame_complete hToken' hToken'']

end Download

/-- A command ends with its status line and nothing before, a whole frame gives its file, and other
bytes in a frame never give data that differs from the header. -/
theorem console_framing (sha256 : Bytes → Bytes) :
    (∀ (token : Bytes) (answer : Answer token) (reads : List Bytes), IsToken token →
      Received answer.complete answer.rest reads →
      (answer.complete <+: dropReturns reads.flatten →
        ∃ text, consoleRun token reads = .ok (intOf answer.status, text)) ∧
      (¬answer.complete <+: dropReturns reads.flatten →
        consoleRun token reads = .error timedOut)) ∧
    (∀ (source root : List Char) (maximum : Int) (content token token' token'' : Bytes)
      (check : Answer token) (frame : Frame sha256 content token' token'')
      (checked framed : List Bytes), IsToken token → IsToken token' → IsToken token'' →
      downloadRoot source = .ok root → 1 ≤ maximum → maximum ≤ 1024 * 1024 →
      content.length ≤ maximum → intOf check.status = checkStatus content maximum →
      Received check.complete check.rest checked →
      check.complete <+: dropReturns checked.flatten →
      Received frame.complete frame.rest framed →
      frame.complete <+: dropReturns framed.flatten →
      download sha256 source maximum token token' token'' checked framed = .ok content) ∧
    ∀ (source : List Char) (maximum : Int) (token token' token'' : Bytes)
      (checked framed : List Bytes) (data : Bytes), IsToken token' → IsToken token'' →
      download sha256 source maximum token token' token'' checked framed = .ok data →
      (∃ size digest, Announced (beginMarker token') (dropReturns framed.flatten) size digest ∧
        Agrees sha256 data size digest) ∧
      ∀ (header : Header token') (tail : Bytes),
        dropReturns framed.flatten = header.printed ++ tail →
        Agrees sha256 data header.size header.digest := by
  refine ⟨fun token answer reads hToken hReads => consoleRun_answer hToken answer hReads, ?_, ?_⟩
  · intro source root maximum content token token' token'' check frame checked framed hToken hToken'
      hToken'' hSource hLeast hMost hContent hStatus hChecked hCheck hFramed hFrame
    exact download_complete hToken hToken' hToken'' hSource hLeast hMost hContent check hStatus
      hChecked hCheck frame hFramed hFrame
  · intro source maximum token token' token'' checked framed data hToken' hToken'' h
    exact download_agrees hToken' hToken'' h

/-! ### An example -/

def sampleHexToken : Bytes := ascii "0123456789abcdef"

def sampleSource : List Char := "/tmp/fx-run/a.wasm".toList

/-- The echo of the check, and its status. -/
def sampleCheck : Answer sampleHexToken where
  shown := runText (ascii "test ! -L /tmp/fx-run/a.wasm && test -f /tmp/fx-run/a.wasm") sampleHexToken
  status := ascii "0"
  rest := []
  echoed := echoed_once (by decide) (by decide +kernel) (by decide +kernel)
  number := ⟨by decide +kernel, by decide +kernel⟩

/-- What `download` sends for the file. -/
def sampleText : Bytes := downloadText (ascii "/tmp/fx-run/a.wasm") sampleHexToken sampleHexToken

theorem sampleText_begin : Echoed beginBefore (beginMarker sampleHexToken) beginAfter sampleText := by
  have hText : sampleText = sampleText.take 96 ++ beginBefore ++ beginMarker sampleHexToken ++
      beginAfter ++ sampleText.drop 163 := by decide +kernel
  rw [hText]
  exact echoed_once (by decide) (by decide +kernel) (by decide +kernel)

theorem sampleText_end : Echoed endBefore (endMarker sampleHexToken) endAfter sampleText := by
  have hText : sampleText = sampleText.take 196 ++ endBefore ++ endMarker sampleHexToken ++
      endAfter ++ sampleText.drop 241 := by decide +kernel
  rw [hText]
  exact echoed_once (by decide) (by decide +kernel) (by decide +kernel)

def sampleHeader : Header sampleHexToken where
  shown := sampleText
  size := ascii "8"
  digest := encode (hexdigest emptyWasmDigest)
  echoed := sampleText_begin
  number := ⟨by decide +kernel, by decide +kernel⟩
  hex := ⟨by decide +kernel, by decide +kernel⟩

/-- The echo of the download, and `emptyWasm`. -/
def sampleFrame : Frame (fun _ => emptyWasmDigest) emptyWasm sampleHexToken sampleHexToken where
  toHeader := sampleHeader
  lines := [ascii "AGFzbQEAAAA="]
  rest := []
  echoedEnd := sampleText_end
  size_eq := by decide
  digest_eq := rfl
  lines_eq := by decide

/-- Any reads of the sample, with its carriage returns. -/
theorem console_framing_sample :
    download (fun _ => emptyWasmDigest) sampleSource 16 sampleHexToken sampleHexToken sampleHexToken
      [sampleCheck.shown, ascii "\r\n__FX_CMD_0123456789abc", ascii "def=0\r\n"]
      [sampleText, ascii "\r\n__FX_DOWNLOAD_0123456789abcdef 8 ", sampleHeader.digest,
        ascii "\r\nAGFzbQEA\rAAA=\r\n__FX_DOWNLOAD_END_", ascii "0123456789abcdef\r\n"] =
      .ok emptyWasm := by
  have hToken : IsToken sampleHexToken := ⟨by decide +kernel, by decide +kernel⟩
  have hRoot : downloadRoot sampleSource = .ok "/tmp/fx-run".toList := by decide
  exact (console_framing fun _ => emptyWasmDigest).2.1 sampleSource _ 16 emptyWasm sampleHexToken
    sampleHexToken sampleHexToken sampleCheck sampleFrame _ _ hToken hToken hToken hRoot (by decide)
    (by decide) (by decide) (by decide) ⟨by decide +kernel, by decide +kernel⟩ (by decide +kernel)
    ⟨by decide +kernel, by decide +kernel⟩ (by decide +kernel)

end Esp32Fx.Tools
