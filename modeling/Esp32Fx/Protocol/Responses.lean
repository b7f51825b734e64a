import Esp32Fx.Eink.Client
import Esp32Fx.Eink.Lookup

/-! `read_until_id` against the protocol.  The protocol finds the parts of a message where they
belong: the id, the method and the error among the message's own members, and the text of a chunk in
the update that the message carries.  The loop finds them by the first member of that name at any
depth.  A line on which the two agree is `Legible`, and on legible lines the loop does what the
protocol asks for. -/

namespace Esp32Fx.Protocol

open Lib Lib.Json Eink

/-! ### Messages -/

/-- A notification or a request has a method; a response has an id and either a result or an
error. -/
def WellFormed (v : Value) : Prop :=
  (∃ ms, v = .object ms) ∧
    ((v.field? (ascii "method")).isSome ∨
      ((v.field? (ascii "id")).isSome ∧
        ((v.field? (ascii "result")).isSome ↔ (v.field? (ascii "error")).isNone)))

/-- A message that the runtime writes on a line of its own. -/
structure Message extends Line where
  wellFormed : WellFormed value
  single : (0x0a : UInt8) ∉ toLine.body
  short : toLine.text.length ≤ maxProtocolLineBytes

/-- The response to request `n`. -/
def isResponse (n : Int) (m : Message) : Bool :=
  (m.value.field? (ascii "method")).isNone &&
    (m.value.field? (ascii "id")).bind Value.integer? == some n

/-- The text of an update with a chunk of the agent's message. -/
def chunkText (m : Message) : Option (List UInt8) := do
  let method ← (← m.value.field? (ascii "method")).string?
  let update ← (← m.value.field? (ascii "params")).field? (ascii "update")
  let kind ← (← update.field? (ascii "sessionUpdate")).string?
  if method = ascii "session/update" ∧ kind = ascii "agent_message_chunk" then
    (← (← update.field? (ascii "content")).field? (ascii "text")).string?
  else none

/-- The text of the chunks of some messages. -/
def chunkTexts (ms : List Message) : List UInt8 := ms.flatMap fun m => (chunkText m).getD []

/-- The bytes of some messages. -/
def stream (ms : List Message) : List UInt8 := ms.flatMap fun m => m.text

/-- `read_until_id` reads up to the response `r` to request `n`, with the messages `before` ahead of
it and `rest` behind it in the stream. -/
structure ReadsResponse (bits : Nat) (n : Int) (before : List Message) (r : Message)
    (rest line : List UInt8) (response : Option TextBuffer) : Prop where
  output : (readUntilId bits (stream before ++ (r.text ++ rest)) n line response).output = rest
  ok : (readUntilId bits (stream before ++ (r.text ++ rest)) n line response).ok = true ↔
    (r.value.field? (ascii "result")).isSome
  response :
    (readUntilId bits (stream before ++ (r.text ++ rest)) n line response).response.map
      TextBuffer.data = response.map fun buffer => buffer.data ++ chunkTexts before

/-! ### What the loop finds -/

/-- The text of a chunk, by the first members at any depth. -/
def flatText (places : List Place) : Option (List UInt8) :=
  if (placeString places (ascii "sessionUpdate")).any (strEq · (ascii "agent_message_chunk")) then
    placeString places (ascii "text")
  else none

/-- What the loop reads of a line fits the decoder. -/
structure FitsRound (n : Int) (collects : Bool) (m : Message) : Prop where
  kind : FitsLookup (ascii "sessionUpdate") m.toLine
  text : collects = true → (placeString m.places (ascii "sessionUpdate")).any
    (strEq · (ascii "agent_message_chunk")) = true → FitsLookup (ascii "text") m.toLine
  id : FitsReads (ascii "id") m.value.tokens
  error : isResponse n m = true → FitsReads (ascii "error") m.value.tokens

/-- What the loop finds on a line is what the protocol has there, for request `n` and a caller that
collects text or does not. -/
structure Legible (bits : Nat) (n : Int) (collects : Bool) (m : Message) : Prop where
  reads : FitsRound n collects m
  /-- The first `id` at any depth, if there is one, is a number in range. -/
  id_valid : placeInteger bits m.places (ascii "id") ≠ .invalid
  /-- It is `n` on the response to request `n` only. -/
  id_own : placeInteger bits m.places (ascii "id") = .found n ↔ isResponse n m = true
  /-- The first `sessionUpdate` and the first `text` are those of the update. -/
  chunk : collects = true → (flatText m.places).getD [] = (chunkText m).getD []
  /-- The response has an `error` at some depth only if it is an error. -/
  error_own : isResponse n m = true → (firstPlace (ascii "error") m.places).isSome =
    (m.value.field? (ascii "error")).isSome

variable {bits : Nat} {n : Int} {m r : Message} {before : List Message}
  {rest line : List UInt8} {response : Option TextBuffer}

theorem getline_text {l : Line} (hSingle : (0x0a : UInt8) ∉ l.body) (rest : List UInt8) :
    getline (l.text ++ rest) = some (l.text, rest) := by
  have hBody : ∀ b ∈ l.body, (decide (b ≠ 0x0a)) = true := by
    intro b hb
    exact decide_eq_true fun h => hSingle (h ▸ hb)
  have hDrop : (l.text ++ rest).dropWhile (· ≠ 0x0a) = 0x0a :: rest := by
    rw [Line.text, List.append_assoc, List.dropWhile_append_of_pos hBody]
    rfl
  have hTake : (l.text ++ rest).takeWhile (· ≠ 0x0a) = l.body := by
    rw [Line.text, List.append_assoc, List.takeWhile_append_of_pos hBody]
    simp
  have hNonempty : (l.text ++ rest).isEmpty = false := by simp [Line.text]
  simp only [getline, hDrop, hTake, hNonempty, Bool.false_eq_true, if_false]
  rfl

/-- A round looks at a line's chunk. -/
theorem readChunk_text {l : Line} (hKindFits : FitsLookup (ascii "sessionUpdate") l)
    (hTextFits : response.isSome = true → (placeString l.places (ascii "sessionUpdate")).any
      (strEq · (ascii "agent_message_chunk")) = true → FitsLookup (ascii "text") l)
    (hRoom : ∀ buffer, response = some buffer →
      buffer.data.length + ((flatText l.places).getD []).length ≤ maxResponseBytes) :
    ∃ after, readChunk l.text response = some after ∧
      after.map TextBuffer.data =
        response.map fun buffer => buffer.data ++ (flatText l.places).getD [] := by
  have hUpdate := jsonStringValue_text (ascii "sessionUpdate") (by decide) hKindFits
  rw [readChunk]
  rcases hKind : placeString l.places (ascii "sessionUpdate") with _ | kind
  · rw [hKind] at hUpdate
    have hFlat : flatText l.places = none := by simp [flatText, hKind]
    exact ⟨response, by rw [hUpdate], by simp [hFlat]⟩
  rw [hKind] at hUpdate
  obtain ⟨update, hFound, hData, hAllocated⟩ := hUpdate
  rcases response with _ | buffer
  · exact ⟨none, by rw [hFound], rfl⟩
  simp only [hFound, hData]
  have hIsChunk : (update.allocated && strEq kind (ascii "agent_message_chunk")) =
      strEq kind (ascii "agent_message_chunk") := by
    rcases kind with _ | ⟨b, kind⟩
    · rw [show strEq [] (ascii "agent_message_chunk") = false by decide, Bool.and_false]
    · rw [hAllocated.mpr (List.cons_ne_nil _ _), Bool.true_and]
  rw [hIsChunk]
  by_cases hChunk : strEq kind (ascii "agent_message_chunk") = true
  · have hFlat : flatText l.places = placeString l.places (ascii "text") := by
      simp [flatText, hKind, hChunk]
    have hText := jsonStringValue_text (ascii "text") (by decide)
      (hTextFits rfl (by rw [hKind]; exact hChunk))
    rw [hFlat] at hRoom ⊢
    rw [if_pos hChunk]
    rcases hPlace : placeString l.places (ascii "text") with _ | text
    · rw [hPlace] at hText
      exact ⟨some buffer, by rw [hText], by simp⟩
    · rw [hPlace] at hText hRoom
      obtain ⟨value, hValue, hValueData, -⟩ := hText
      obtain ⟨after, hAppend, hAfter, -⟩ := bufferAppend_fits (hRoom buffer rfl)
      refine ⟨some after, ?_, by simp [hAfter]⟩
      rw [hValue]
      simp only [hValueData, Option.getD_some] at hAppend ⊢
      rw [hAppend, Option.map_some]
  · have hFlat : flatText l.places = none := by simp [flatText, hKind, hChunk]
    rw [if_neg hChunk]
    exact ⟨some buffer, rfl, by simp [hFlat]⟩

/-- The response buffer has room for the chunks of some messages. -/
def Fits (response : Option TextBuffer) (ms : List Message) : Prop :=
  ∀ buffer, response = some buffer →
    buffer.data.length + (chunkTexts ms).length ≤ maxResponseBytes

/-- One round on a legible line. -/
theorem readLoop_legible (rest line : List UInt8) {collects : Bool} (h : Legible bits n collects m)
    (hCollects : response.isSome = collects) (hFits : Fits response [m]) (rounds : Nat) :
    ∃ after, after.map TextBuffer.data =
        (response.map fun buffer => buffer.data ++ chunkTexts [m]) ∧
      readLoop bits n (rounds + 1) (m.text ++ rest) line response =
        if isResponse n m then
          if (m.value.field? (ascii "error")).isSome then ⟨false, rest, line, after⟩
          else ⟨true, rest, m.text, after⟩
        else readLoop bits n rounds rest line after := by
  have hTexts : chunkTexts [m] = (chunkText m).getD [] := by simp [chunkTexts]
  have hFlat : ∀ buffer, response = some buffer →
      (flatText m.places).getD [] = (chunkText m).getD [] := by
    rintro buffer rfl
    exact h.chunk hCollects.symm
  have hRoom : ∀ buffer, response = some buffer →
      buffer.data.length + ((flatText m.places).getD []).length ≤ maxResponseBytes := by
    intro buffer hBuffer
    rw [hFlat buffer hBuffer, ← hTexts]
    exact hFits buffer hBuffer
  obtain ⟨after, hChunk, hAfter⟩ := readChunk_text h.reads.kind
    (fun hSome => h.reads.text (hCollects ▸ hSome)) hRoom
  refine ⟨after, ?_, ?_⟩
  · rw [hAfter]
    rcases response with _ | buffer
    · rfl
    · rw [Option.map_some, Option.map_some, hFlat buffer rfl, hTexts]
  have hShort : ¬m.text.length > maxProtocolLineBytes := Nat.not_lt.mpr m.short
  have hId := jsonIntegerValue_text bits (ascii "id") (by decide) h.reads.id
  rw [readLoop, getline_text m.single]
  simp only [hShort, if_false, hChunk, hId]
  by_cases hResponse : isResponse n m = true
  · have hError := findJsonKey_text (ascii "error") (by decide) (h.reads.error hResponse)
    rw [h.id_own.mpr hResponse, hError]
    simp only [hResponse, if_true, Option.isSome_map, h.error_own hResponse]
  · simp only [hResponse]
    rcases hPlace : placeInteger bits m.places (ascii "id") with _ | _ | i
    · rfl
    · exact absurd hPlace h.id_valid
    · have hOther : i ≠ n := by
        rintro rfl
        exact hResponse (h.id_own.mp hPlace)
      simp only [hOther, if_false]
      rfl

/-- On legible lines the loop passes the messages before the response and stops behind it. -/
theorem readLoop_run (rest line : List UInt8) {collects : Bool} {rounds : Nat}
    (hBefore : ∀ m ∈ before, isResponse n m = false)
    (hResponse : isResponse n r = true) (hLegible : ∀ m ∈ before ++ [r], Legible bits n collects m)
    (hCollects : response.isSome = collects) (hFits : Fits response (before ++ [r]))
    (hRounds : before.length < rounds) :
    ∃ after, after.map TextBuffer.data =
        (response.map fun buffer => buffer.data ++ chunkTexts (before ++ [r])) ∧
      readLoop bits n rounds (stream before ++ (r.text ++ rest)) line response =
        if (r.value.field? (ascii "error")).isSome then ⟨false, rest, line, after⟩
        else ⟨true, rest, r.text, after⟩ := by
  induction before generalizing rounds response with
  | nil =>
    obtain ⟨rounds, rfl⟩ : ∃ k, rounds = k + 1 := ⟨rounds - 1, by simp at hRounds; omega⟩
    obtain ⟨after, hAfter, hRound⟩ := readLoop_legible rest line
      (hLegible r (by simp)) hCollects hFits rounds
    refine ⟨after, hAfter, ?_⟩
    rw [hResponse] at hRound
    simpa [stream] using hRound
  | cons m before ih =>
    obtain ⟨rounds, rfl⟩ : ∃ k, rounds = k + 1 := ⟨rounds - 1, by simp at hRounds; omega⟩
    have hTexts : chunkTexts (m :: before ++ [r]) = chunkTexts [m] ++ chunkTexts (before ++ [r]) := by
      simp [chunkTexts]
    have hFirst : Fits response [m] := by
      intro buffer hBuffer
      have := hFits buffer hBuffer
      rw [hTexts, List.length_append] at this
      omega
    obtain ⟨next, hNext, hRound⟩ := readLoop_legible (stream before ++ (r.text ++ rest))
      line (hLegible m (by simp)) hCollects hFirst rounds
    have hSome : next.isSome = collects := by
      rw [← hCollects, ← Option.isSome_map (f := TextBuffer.data), hNext, Option.isSome_map]
    have hLater : Fits next (before ++ [r]) := by
      rintro buffer rfl
      rcases response with _ | start
      · cases hNext
      · rw [Option.map_some, Option.map_some, Option.some.injEq] at hNext
        have := hFits start rfl
        rw [hTexts, List.length_append] at this
        rw [hNext, List.length_append]
        omega
    obtain ⟨after, hAfter, hRun⟩ := ih (fun m' hm => hBefore m' (List.mem_cons_of_mem _ hm))
      (fun m' hm => hLegible m' (List.mem_cons_of_mem _ hm)) hSome hLater
      (by simp at hRounds; omega)
    refine ⟨after, ?_, ?_⟩
    · have hMap : next.map (fun buffer => buffer.data ++ chunkTexts (before ++ [r])) =
          (next.map TextBuffer.data).map (· ++ chunkTexts (before ++ [r])) := by
        rw [Option.map_map]
        rfl
      rw [hAfter, hMap, hNext, Option.map_map, hTexts]
      simp only [Function.comp_def, List.append_assoc]
    · have hStream : stream (m :: before) = m.text ++ stream before := by simp [stream]
      rw [hStream, List.append_assoc, hRound, hBefore m List.mem_cons_self, if_neg (by simp), hRun]

theorem length_stream (ms : List Message) : ms.length ≤ (stream ms).length := by
  induction ms with
  | nil => exact Nat.le_refl _
  | cons m ms ih =>
    have hText : 0 < m.text.length := by simp [Line.text]
    simp only [stream, List.flatMap_cons, List.length_append, List.length_cons] at ih ⊢
    omega

/-- A response carries no chunk. -/
theorem chunkText_response (h : isResponse n m = true) : chunkText m = none := by
  have hMethod : m.value.field? (ascii "method") = none := by
    simp only [isResponse, Bool.and_eq_true, Option.isNone_iff_eq_none] at h
    exact h.1
  rw [chunkText, hMethod]
  rfl

/-- A response has a result or else an error. -/
theorem response_result (h : isResponse n m = true) :
    (m.value.field? (ascii "result")).isSome ↔ m.value.field? (ascii "error") = none := by
  simp only [isResponse, Bool.and_eq_true, Option.isNone_iff_eq_none] at h
  rcases m.wellFormed.2 with hMethod | ⟨-, hResult⟩
  · rw [h.1] at hMethod
    cases hMethod
  · rw [hResult, Option.isNone_iff_eq_none]

/-- When every line up to the response is legible, `read_until_id` reads up to the response and
collects the text of the chunks. -/
theorem readUntilId_legible (hBefore : ∀ m ∈ before, isResponse n m = false)
    (hResponse : isResponse n r = true)
    (hLegible : ∀ m ∈ before ++ [r], Legible bits n response.isSome m)
    (hFits : Fits response before) :
    ReadsResponse bits n before r rest line response := by
  have hTexts : chunkTexts (before ++ [r]) = chunkTexts before := by
    simp [chunkTexts, chunkText_response hResponse]
  have hRounds : before.length < (stream before ++ (r.text ++ rest)).length + 1 := by
    have := length_stream before
    rw [List.length_append]
    omega
  obtain ⟨after, hAfter, hRun⟩ := readLoop_run rest line hBefore hResponse
    hLegible rfl (by rwa [Fits, hTexts]) hRounds
  rw [hTexts] at hAfter
  have hResult := response_result hResponse
  rw [← readUntilId] at hRun
  rcases hError : r.value.field? (ascii "error") with _ | e
  · rw [hError] at hRun hResult
    rw [if_neg (by simp)] at hRun
    exact ⟨by rw [hRun], by rw [hRun]; simpa using hResult, by rw [hRun]; exact hAfter⟩
  · rw [hError] at hRun hResult
    rw [Option.isSome_some, if_pos rfl] at hRun
    exact ⟨by rw [hRun], by rw [hRun]; simpa using hResult, by rw [hRun]; exact hAfter⟩

/-! ### Messages of a session -/

section Session

/-- A message without white space whose members are those of `ms`. -/
def compact (ms : Members) (wellFormed : WellFormed (.object ms))
    (text : (0x0a : UInt8) ∉ (Line.mk .none (.object ms) .none).body ∧
      (Line.mk .none (.object ms) .none).text.length ≤ maxProtocolLineBytes) : Message :=
  ⟨⟨.none, .object ms, .none⟩, wellFormed, text.1, text.2⟩

/-- A request of the agent's with the id 3. -/
def permissionRequest : Message :=
  compact
    (.cons (ascii "jsonrpc") (.string (encode (ascii "2.0"))) <|
      .cons (ascii "id") (.number (.ofDigit 3)) <|
      .single (ascii "method") (.string (encode (ascii "session/request_permission"))))
    ⟨⟨_, rfl⟩, .inl (by decide)⟩ (by decide)

/-- The response to request 3. -/
def promptResponse : Message :=
  compact
    (.cons (ascii "jsonrpc") (.string (encode (ascii "2.0"))) <|
      .cons (ascii "id") (.number (.ofDigit 3)) <|
      .single (ascii "result") (.emptyObject .none))
    ⟨⟨_, rfl⟩, .inr (by decide)⟩ (by decide)

/-- An update with the chunk "ok" of the agent's message. -/
def chunkUpdate : Message :=
  compact
    (.cons (ascii "method") (.string (encode (ascii "session/update"))) <|
      .single (ascii "params") <| .object <| .single (ascii "update") <| .object <|
        .cons (ascii "sessionUpdate") (.string (encode (ascii "agent_message_chunk"))) <|
        .single (ascii "content") <| .object <|
          .single (ascii "text") (.string (encode (ascii "ok"))))
    ⟨⟨_, rfl⟩, .inl (by decide)⟩ (by decide)

end Session

theorem readUntilId_legible_chunk :
    ReadsResponse 32 3 [chunkUpdate] promptResponse [] [] (some .empty) := by
  refine readUntilId_legible (by decide) (by decide) ?_ ?_
  · intro m hm
    simp only [List.singleton_append, List.mem_cons, List.not_mem_nil, or_false] at hm
    have hReads : ∀ m : Message, FitsDecoder m.value.literals → FitsRound 3 true m := fun m h =>
      ⟨fitsLookup_line h, fun _ _ => fitsLookup_line h, fitsReads_line h, fun _ => fitsReads_line h⟩
    rcases hm with rfl | rfl
    · exact ⟨hReads _ (by decide), by decide, by decide, by decide, by decide⟩
    · exact ⟨hReads _ (by decide), by decide, by decide, by decide, by decide⟩
  · rintro buffer ⟨⟩
    decide

/-- The loop takes the agent's request for the response. -/
theorem readUntilId_request :
    isResponse 3 permissionRequest = false ∧ isResponse 3 promptResponse = true ∧
      chunkTexts [permissionRequest] = [] ∧
      ¬ReadsResponse 32 3 [permissionRequest] promptResponse [] [] (some .empty) := by
  refine ⟨by decide, by decide, by decide, fun h => ?_⟩
  exact absurd h.output (by decide)

end Esp32Fx.Protocol
