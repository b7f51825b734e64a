import Esp32Fx.Eink.Search
import Esp32Fx.Eink.Transcript
import Esp32Fx.Protocol.Responses

/-! What the user gets to see of the agent's answer.  The answer is collected with its length, and
shown as a string of C, which a NUL ends. -/

namespace Esp32Fx.Protocol

open Lib Lib.Json Eink

/-! ### Lines -/

/-- A line of the runtime whose strings fit the decoder. -/
structure ReplyLine extends Line where
  single : (0x0a : UInt8) ∉ toLine.body
  short : toLine.text.length ≤ maxProtocolLineBytes
  literals : FitsDecoder value.literals

/-- The text of a chunk, as it is written. -/
def chunkLiteral (line : ReplyLine) : Option Literal :=
  if (placeString line.places (ascii "sessionUpdate")).any
      (strEq · (ascii "agent_message_chunk")) then
    match (firstPlace (ascii "text") line.places).map Place.value with
    | some (.string l) => some l
    | _ => none
  else none

/-- The text of the chunks on some lines. -/
def answerText (lines : List ReplyLine) : List UInt8 :=
  (lines.filterMap chunkLiteral).flatMap literalBytes

/-- The lines up to a response to the prompt that is no error. -/
structure Answer (bits : Nat) where
  before : List ReplyLine
  response : ReplyLine
  passes : ∀ line ∈ before, placeInteger bits line.places (ascii "id") ≠ .invalid ∧
    placeInteger bits line.places (ascii "id") ≠ .found 3
  answers : placeInteger bits response.places (ascii "id") = .found 3
  good : firstPlace (ascii "error") response.places = none

namespace Answer

variable {bits : Nat}

def lines (answer : Answer bits) : List ReplyLine := answer.before ++ [answer.response]

def stream (answer : Answer bits) : List UInt8 := answer.lines.flatMap fun line => line.text

end Answer

/-- What is shown has the answer in it, on the terminal and in the file for the renderer. -/
structure ShowsAnswer (text : List UInt8) (shown : Shown) : Prop where
  printed : text <:+: shown.printed
  transcript : text <:+: shown.transcript

/-! ### Reading -/

theorem flatText_eq (line : ReplyLine) :
    flatText line.places = (chunkLiteral line).map literalBytes := by
  rw [flatText, chunkLiteral]
  split
  · rw [placeString]
    rcases (firstPlace (ascii "text") line.places).map Place.value with _ | v
    · rfl
    · cases v <;> rfl
  · rfl

theorem answerText_cons (line : ReplyLine) (lines : List ReplyLine) :
    answerText (line :: lines) = (flatText line.places).getD [] ++ answerText lines := by
  rw [flatText_eq, answerText, answerText]
  cases hChunk : chunkLiteral line with
  | none => rw [List.filterMap_cons_none hChunk, Option.map_none, Option.getD_none, List.nil_append]
  | some l =>
    rw [List.filterMap_cons_some hChunk, List.flatMap_cons, Option.map_some, Option.getD_some]

section Loop

variable {bits : Nat} {n : Int} {buffer : TextBuffer}

/-- A buffer with text in it has its bytes somewhere. -/
def IsBacked (buffer : TextBuffer) : Prop := buffer.data ≠ [] → buffer.allocated = true

theorem bufferAppend_allocated {text : List UInt8} {after : TextBuffer}
    (h : bufferAppend buffer text = some after) : after.allocated = true := by
  unfold bufferAppend at h
  split at h
  · cases h
  · cases h
    simp only [TextBuffer.allocated, decide_eq_true_eq]
    split
    · apply Nat.ne_of_gt
      apply growCapacity_pos
      split <;> omega
    · omega

theorem readChunk_backed {raw : List UInt8} {after : TextBuffer} (hBacked : IsBacked buffer)
    (h : readChunk raw (some buffer) = some (some after)) : IsBacked after := by
  unfold readChunk at h
  split at h
  · cases h
  · cases h
    exact hBacked
  · dsimp only at h
    split at h
    · split at h
      · cases h
      · cases h
        exact hBacked
      · obtain ⟨grown, hGrown, hSame⟩ := Option.map_eq_some_iff.mp h
        cases hSame
        exact fun _ => bufferAppend_allocated hGrown
    · cases h
      exact hBacked

/-- One round on a line. -/
theorem readLoop_line (l : ReplyLine) (rest line : List UInt8) (rounds : Nat)
    (hBacked : IsBacked buffer)
    (hFits : buffer.data.length + ((flatText l.places).getD []).length ≤ maxResponseBytes) :
    ∃ after, after.data = buffer.data ++ (flatText l.places).getD [] ∧ IsBacked after ∧
      readLoop bits n (rounds + 1) (l.text ++ rest) line (some buffer) =
        match placeInteger bits l.places (ascii "id") with
        | .invalid => ⟨false, rest, line, some after⟩
        | .absent => readLoop bits n rounds rest line (some after)
        | .found id =>
          if id = n then
            if (firstPlace (ascii "error") l.places).isSome then ⟨false, rest, line, some after⟩
            else ⟨true, rest, l.text, some after⟩
          else readLoop bits n rounds rest line (some after) := by
  have hRoom : ∀ b, some buffer = some b →
      b.data.length + ((flatText l.places).getD []).length ≤ maxResponseBytes := by
    rintro b ⟨⟩
    exact hFits
  obtain ⟨after, hChunk, hAfter⟩ := readChunk_text (fitsLookup_line l.literals)
    (fun _ _ => fitsLookup_line l.literals) hRoom
  cases after with
  | none => cases hAfter
  | some after =>
    refine ⟨after, Option.some.inj hAfter, readChunk_backed hBacked hChunk, ?_⟩
    have hShort : ¬l.text.length > maxProtocolLineBytes := Nat.not_lt.mpr l.short
    have hId := jsonIntegerValue_text bits (ascii "id") (by decide) (fitsReads_line l.literals)
    have hError := findJsonKey_text (ascii "error") (by decide) (fitsReads_line l.literals)
    rw [readLoop, getline_text l.single]
    cases hPlace : placeInteger bits l.places (ascii "id") with
    | absent => simp only [hShort, if_false, hChunk, hId, hPlace]
    | invalid => simp only [hShort, if_false, hChunk, hId, hPlace]
    | found id =>
      simp only [hShort, if_false, hChunk, hId, hPlace, hError, Option.isSome_map]

/-- The loop collects the chunks up to the response, and that of the response if it has one. -/
theorem readLoop_answer (before : List ReplyLine) (r : ReplyLine) (rest line : List UInt8)
    {rounds : Nat}
    (hPasses : ∀ l ∈ before, placeInteger bits l.places (ascii "id") ≠ .invalid ∧
      placeInteger bits l.places (ascii "id") ≠ .found n)
    (hAnswers : placeInteger bits r.places (ascii "id") = .found n)
    (hGood : firstPlace (ascii "error") r.places = none) (hRounds : before.length < rounds)
    (hBacked : IsBacked buffer)
    (hFits : buffer.data.length + (answerText (before ++ [r])).length ≤ maxResponseBytes) :
    ∃ after, after.data = buffer.data ++ answerText (before ++ [r]) ∧ IsBacked after ∧
      readLoop bits n rounds ((before ++ [r]).flatMap (fun l => l.text) ++ rest) line
        (some buffer) = ⟨true, rest, r.text, some after⟩ := by
  induction before generalizing rounds buffer with
  | nil =>
    obtain ⟨rounds, rfl⟩ : ∃ k, rounds = k + 1 := ⟨rounds - 1, by simp at hRounds; omega⟩
    have hText : answerText [r] = (flatText r.places).getD [] := by
      rw [answerText_cons]
      exact List.append_nil _
    rw [List.nil_append, hText] at hFits
    obtain ⟨after, hAfter, hKept, hRound⟩ := readLoop_line r rest line rounds hBacked hFits
    refine ⟨after, by rw [List.nil_append, hText, hAfter], hKept, ?_⟩
    rw [List.nil_append, List.flatMap_singleton, hRound, hAnswers, hGood]
    simp
  | cons l before ih =>
    obtain ⟨rounds, rfl⟩ : ∃ k, rounds = k + 1 := ⟨rounds - 1, by simp at hRounds; omega⟩
    obtain ⟨⟨hValid, hOther⟩, hLater⟩ := List.forall_mem_cons.mp hPasses
    rw [List.cons_append, answerText_cons, List.length_append] at hFits
    have hFirst : buffer.data.length + ((flatText l.places).getD []).length ≤ maxResponseBytes := by
      omega
    obtain ⟨next, hNext, hKept, hRound⟩ := readLoop_line l
      ((before ++ [r]).flatMap (fun l => l.text) ++ rest) line rounds hBacked hFirst
    have hRest : next.data.length + (answerText (before ++ [r])).length ≤ maxResponseBytes := by
      rw [hNext, List.length_append]
      omega
    obtain ⟨after, hAfter, hGrown, hRun⟩ := ih hLater (by simp at hRounds; omega) hKept hRest
    refine ⟨after, ?_, hGrown, ?_⟩
    · rw [hAfter, hNext, List.cons_append, answerText_cons, List.append_assoc]
    · rw [List.cons_append, List.flatMap_cons, List.append_assoc, hRound]
      cases hId : placeInteger bits l.places (ascii "id") with
      | invalid => exact absurd hId hValid
      | absent => exact hRun
      | found id =>
        dsimp only
        have hNot : ¬id = n := by
          rintro rfl
          exact hOther hId
        rw [if_neg hNot]
        exact hRun

end Loop

theorem length_le_text (lines : List ReplyLine) :
    lines.length ≤ (lines.flatMap fun line => line.text).length := by
  induction lines with
  | nil => exact Nat.le_refl _
  | cons line lines ih =>
    have hText : 0 < line.text.length := by simp [Line.text]
    rw [List.flatMap_cons, List.length_append, List.length_cons]
    omega

/-! ### Showing -/

section Show

variable {bits : Nat}

/-- The answer is shown up to its first NUL. -/
theorem showAnswer_eq (answer : Answer bits) (rest line prompt : List UInt8)
    (hTotal : (answerText answer.lines).length ≤ maxResponseBytes) :
    showAnswer bits (answer.stream ++ rest) line prompt true =
      if answerText answer.lines = [] then none
      else some ⟨cString (answerText answer.lines) ++ ascii "\n",
        ascii "You:\n" ++ cString prompt ++ ascii "\n\nfx:\n" ++
          cString (answerText answer.lines) ++ ascii "\n"⟩ := by
  have hRounds : answer.before.length < (answer.stream ++ rest).length + 1 := by
    have hLines := length_le_text answer.lines
    rw [Answer.lines, List.length_append] at hLines
    rw [Answer.stream, List.length_append, Answer.lines]
    omega
  have hFits : TextBuffer.empty.data.length +
      (answerText (answer.before ++ [answer.response])).length ≤ maxResponseBytes :=
    (Nat.zero_add _).symm ▸ hTotal
  have hEmpty : IsBacked .empty := fun h => absurd rfl h
  obtain ⟨after, hAfter, hBacked, hRun⟩ := readLoop_answer answer.before answer.response rest line
    answer.passes answer.answers answer.good hRounds hEmpty hFits
  have hData : after.data = answerText answer.lines := hAfter
  have hRead : readUntilId bits (answer.stream ++ rest) 3 line (some .empty) =
      ⟨true, rest, answer.response.text, some after⟩ := hRun
  rw [IsBacked, hData] at hBacked
  rw [showAnswer, hRead]
  simp only [not_true_eq_false, if_false, writeTranscript, hData]
  by_cases hText : answerText answer.lines = []
  · rw [if_pos (.inr (by rw [hText]; rfl)), if_pos hText]
  · have hShown : ¬(¬after.allocated = true ∨ (answerText answer.lines).length = 0) := by
      rw [not_or, not_not]
      exact ⟨hBacked hText, fun h => hText (List.length_eq_zero_iff.mp h)⟩
    rw [if_neg hShown, if_neg hText, if_pos (hBacked hText)]

/-- Only `\u0000` is decoded to a NUL. -/
theorem literalBytes_nulFree_iff (l : Literal) : (0 : UInt8) ∉ literalBytes l ↔ NoNul l := by
  refine ⟨fun h d₁ d₂ d₃ d₄ hMem hUnit => h ?_, literalBytes_nulFree⟩
  refine List.mem_flatMap.mpr ⟨_, hMem, ?_⟩
  rw [itemBytes, hUnit]
  decide

theorem answerText_nulFree_iff (lines : List ReplyLine) :
    (0 : UInt8) ∉ answerText lines ↔ ∀ l ∈ lines.filterMap chunkLiteral, NoNul l := by
  rw [answerText]
  constructor
  · intro h l hl
    rw [← literalBytes_nulFree_iff]
    exact fun hMem => h (List.mem_flatMap.mpr ⟨l, hl, hMem⟩)
  · intro h hMem
    obtain ⟨l, hl, hByte⟩ := List.mem_flatMap.mp hMem
    exact (literalBytes_nulFree_iff l).mpr (h l hl) hByte

theorem cString_nulFree (text : List UInt8) : (0 : UInt8) ∉ cString text := by
  intro hMem
  have hByte := List.mem_takeWhile_imp hMem
  exact absurd hByte (by decide)

/-- The answer is shown, and shown whole, exactly when no chunk has an escaped NUL. -/
theorem showAnswer_whole_iff (answer : Answer bits) (rest line prompt : List UInt8)
    (hTotal : (answerText answer.lines).length ≤ maxResponseBytes) :
    ((answerText answer.lines ≠ [] →
        ∃ shown, showAnswer bits (answer.stream ++ rest) line prompt true = some shown) ∧
      ∀ shown, showAnswer bits (answer.stream ++ rest) line prompt true = some shown →
        ShowsAnswer (answerText answer.lines) shown) ↔
    ∀ l ∈ answer.lines.filterMap chunkLiteral, NoNul l := by
  rw [← answerText_nulFree_iff, showAnswer_eq answer rest line prompt hTotal]
  generalize answerText answer.lines = text
  constructor
  · rintro ⟨-, hShows⟩ hNul
    have hText : text ≠ [] := List.ne_nil_of_mem hNul
    rw [if_neg hText] at hShows
    have hPrinted := (hShows _ rfl).printed.mem hNul
    rw [List.mem_append] at hPrinted
    rcases hPrinted with hMem | hMem
    · exact cString_nulFree text hMem
    · exact absurd hMem (by decide)
  · intro hNul
    refine ⟨fun hText => ⟨_, if_neg hText⟩, fun shown hShown => ?_⟩
    split at hShown
    · cases hShown
    · cases hShown
      rw [cString_of_nulFree hNul]
      refine ⟨(List.prefix_append ..).isInfix, ?_⟩
      exact ⟨_, _, rfl⟩

end Show

/-! ### Answers -/

/-- The response, behind a line. -/
def answerBehind (line : ReplyLine)
    (hPasses : placeInteger 32 line.places (ascii "id") ≠ .invalid ∧
      placeInteger 32 line.places (ascii "id") ≠ .found 3) : Answer 32 where
  before := [line]
  response := ⟨promptResponse.toLine, promptResponse.single, promptResponse.short,
    by decide⟩
  passes := List.forall_mem_singleton.mpr hPasses
  answers := by decide
  good := by decide

def okAnswer : Answer 32 :=
  answerBehind ⟨chunkUpdate.toLine, chunkUpdate.single, chunkUpdate.short, by decide⟩
    (by decide)

theorem showAnswer_whole_iff_ok :
    ((answerText okAnswer.lines ≠ [] →
        ∃ shown, showAnswer 32 (okAnswer.stream ++ []) [] (ascii "hi") true = some shown) ∧
      ∀ shown, showAnswer 32 (okAnswer.stream ++ []) [] (ascii "hi") true = some shown →
        ShowsAnswer (answerText okAnswer.lines) shown) ↔
    ∀ l ∈ okAnswer.lines.filterMap chunkLiteral, NoNul l :=
  showAnswer_whole_iff okAnswer [] [] (ascii "hi") (by decide)

/-- A chunk with the text `a\u0000b`. -/
def nulUpdate : Line where
  before := .none
  value := .object <|
    .cons (ascii "method") (.string (encode (ascii "session/update"))) <|
      .single (ascii "params") <| .object <| .single (ascii "update") <| .object <|
        .cons (ascii "sessionUpdate") (.string (encode (ascii "agent_message_chunk"))) <|
        .single (ascii "content") <| .object <|
          .cons (ascii "type") (.string (encode (ascii "text"))) <|
          .single (ascii "text") <| .string (encode [0x61, 0, 0x62])
  after := .none

def nulAnswer : Answer 32 :=
  answerBehind ⟨nulUpdate, by decide +kernel, by decide +kernel, by decide +kernel⟩
    (by decide)

/-- Of that answer only the `a` is shown. -/
theorem showAnswer_cut :
    ¬∀ (bits : Nat) (answer : Answer bits) (rest line prompt : List UInt8),
      (answerText answer.lines).length ≤ maxResponseBytes →
      ((answerText answer.lines ≠ [] →
          ∃ shown, showAnswer bits (answer.stream ++ rest) line prompt true = some shown) ∧
        ∀ shown, showAnswer bits (answer.stream ++ rest) line prompt true = some shown →
          ShowsAnswer (answerText answer.lines) shown) := by
  intro h
  have hText : answerText nulAnswer.lines = [0x61, 0, 0x62] := by decide
  have hShown := (h 32 nulAnswer [] [] [] (by decide)).2
  rw [showAnswer_eq nulAnswer [] [] [] (by decide), hText] at hShown
  have hPrinted := (hShown _ rfl).printed
  revert hPrinted
  decide

end Esp32Fx.Protocol
