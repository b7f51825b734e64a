import Esp32Fx.Eink.Client
import Esp32Fx.Eink.Lookup

/-! The line that `send_prompt` writes: whatever the session id and the prompt are, it is one object
with the members of the protocol, and the client's own reader finds both texts in it. -/

namespace Esp32Fx.Protocol

open Lib Lib.Json Eink

/-- The request that carries a prompt. -/
def promptMembers (sessionId prompt : List UInt8) : Members :=
  .cons (ascii "jsonrpc") (.string (encode (ascii "2.0"))) <|
  .cons (ascii "id") (.number (.ofDigit 3)) <|
  .cons (ascii "method") (.string (encode (ascii "session/prompt"))) <|
  .single (ascii "params") <| .object <|
    .cons (ascii "sessionId") (.string (encode sessionId)) <|
    .single (ascii "prompt") <| .array <| .last .none
      (.object <|
        .cons (ascii "type") (.string (encode (ascii "text"))) <|
        .single (ascii "text") (.string (encode prompt)))
      .none

/-- The request on its line. -/
def promptLine (sessionId prompt : List UInt8) : Line :=
  ⟨.none, .object (promptMembers sessionId prompt), .none⟩

/-- The names of the members at any depth, in document order. -/
def promptKeys : List (List UInt8) :=
  [ascii "jsonrpc", ascii "id", ascii "method", ascii "params", ascii "sessionId", ascii "prompt",
    ascii "type", ascii "text"]

variable {sessionId prompt : List UInt8}

theorem sendPrompt_pieces (hId : (0 : UInt8) ∉ sessionId) (hPrompt : (0 : UInt8) ∉ prompt) :
    sendPrompt sessionId prompt =
      ascii ("\x7b\"jsonrpc\":\"2.0\",\"id\":3,\"method\":\"session/prompt\"," ++
        "\"params\":\x7b\"sessionId\":") ++ (encode sessionId).text ++
      ascii ",\"prompt\":[\x7b\"type\":\"text\",\"text\":" ++ (encode prompt).text ++
      ascii "\x7d]\x7d\x7d" ++ [0x0a] := by
  have hEnd : ascii "\x7d]\x7d\x7d\n" = ascii "\x7d]\x7d\x7d" ++ [0x0a] := by decide
  rw [sendPrompt, writeJsonString_eq hId, writeJsonString_eq hPrompt, hEnd]
  simp only [List.append_assoc]

theorem promptLine_text (hId : (0 : UInt8) ∉ sessionId) (hPrompt : (0 : UInt8) ∉ prompt) :
    (promptLine sessionId prompt).text = sendPrompt sessionId prompt := by
  have hHead : ascii ("\x7b\"jsonrpc\":\"2.0\",\"id\":3,\"method\":\"session/prompt\"," ++
      "\"params\":\x7b\"sessionId\":") =
      0x7b :: ((encode (ascii "jsonrpc")).text ++ 0x3a :: ((encode (ascii "2.0")).text ++
        0x2c :: ((encode (ascii "id")).text ++ 0x3a :: 0x33 ::
        0x2c :: ((encode (ascii "method")).text ++ 0x3a :: ((encode (ascii "session/prompt")).text ++
        0x2c :: ((encode (ascii "params")).text ++ 0x3a :: 0x7b ::
          ((encode (ascii "sessionId")).text ++ [0x3a]))))))) := by decide
  have hMiddle : ascii ",\"prompt\":[\x7b\"type\":\"text\",\"text\":" =
      0x2c :: ((encode (ascii "prompt")).text ++ 0x3a :: 0x5b :: 0x7b ::
        ((encode (ascii "type")).text ++ 0x3a :: ((encode (ascii "text")).text ++
        0x2c :: ((encode (ascii "text")).text ++ [0x3a])))) := by decide
  have hEnd : ascii "\x7d]\x7d\x7d" = [0x7d, 0x5d, 0x7d, 0x7d] := by decide
  have hNumber : (Number.ofDigit 3).text = [0x33] := by decide
  rw [sendPrompt_pieces hId hPrompt, hHead, hMiddle, hEnd]
  simp only [Line.text, Line.body, promptLine, promptMembers, Members.cons, Members.single,
    Value.text, Members.text, Elements.text, Space.bytes_none, hNumber, List.nil_append,
    List.append_nil, List.append_assoc, List.cons_append]

theorem promptLine_fits (hId : sessionId.length ≤ maxResponseBytes)
    (hPrompt : prompt.length ≤ maxPromptBytes) :
    FitsDecoder (promptLine sessionId prompt).value.literals := by
  have hPrompt' : prompt.length ≤ maxResponseBytes := Nat.le_trans hPrompt (by decide)
  intro l hl
  simp only [promptLine, promptMembers, Members.cons, Members.single, Value.literals,
    Members.literals, Elements.literals, List.mem_cons, List.mem_append, List.not_mem_nil,
    or_false, false_or] at hl
  rcases hl with rfl | rfl | rfl | rfl | rfl | rfl | rfl | rfl | rfl | rfl | rfl | rfl | rfl
  all_goals rw [literalBytes_encode]
  all_goals first
    | assumption
    | decide

theorem promptLine_keys : (promptLine sessionId prompt).places.map (literalBytes ·.key) =
    promptKeys := by
  simp only [Line.places, promptLine, promptMembers, Members.cons, Members.single, Value.places,
    Members.places, Elements.places, List.nil_append, List.map_cons,
    List.map_nil, literalBytes_encode, promptKeys]

/-- The first string among the members named `key`. -/
theorem promptLine_strings (sessionId prompt : List UInt8) :
    placeString (promptLine sessionId prompt).places (ascii "sessionId") = some sessionId ∧
    placeString (promptLine sessionId prompt).places (ascii "text") = some prompt := by
  simp only [placeString, Line.places, promptLine, promptMembers, Members.cons, Members.single,
    Value.places, Members.places, Elements.places, List.nil_append]
  constructor
  · repeat rw [firstPlace_cons, matchesKey, literalBytes_encode, if_neg (by decide)]
    rw [firstPlace_cons, matchesKey, literalBytes_encode, if_pos (by decide), Option.map_some]
    simp only [literalBytes_encode]
  · repeat rw [firstPlace_cons, matchesKey, literalBytes_encode, if_neg (by decide)]
    rw [firstPlace_cons, matchesKey, literalBytes_encode, if_pos (by decide), Option.map_some]
    simp only [literalBytes_encode]

theorem promptLine_single (hId : (0 : UInt8) ∉ sessionId) (hPrompt : (0 : UInt8) ∉ prompt) :
    ∀ b ∈ (promptLine sessionId prompt).body, 0x20 ≤ b := by
  have hText := (promptLine_text hId hPrompt).trans (sendPrompt_pieces hId hPrompt)
  rw [Line.text, List.append_cancel_right_eq] at hText
  rw [hText]
  intro b hb
  simp only [List.mem_append] at hb
  rcases hb with (((hb | hb) | hb) | hb) | hb
  · exact ascii_ge (by decide) b hb
  · exact literal_text_ge _ b hb
  · exact ascii_ge (by decide) b hb
  · exact literal_text_ge _ b hb
  · exact ascii_ge (by decide) b hb

/-- What `send_prompt` writes is one object on one line, whose members are those of the request
whatever the texts are, and `json_string_value` reads both texts back. -/
theorem sendPrompt_request (hId : (0 : UInt8) ∉ sessionId) (hPrompt : (0 : UInt8) ∉ prompt)
    (hIdLength : sessionId.length ≤ maxResponseBytes) (hPromptLength : prompt.length ≤ maxPromptBytes) :
    (∃ ms : Members, sendPrompt sessionId prompt = (Value.object ms).text ++ [0x0a] ∧
      (0x0a : UInt8) ∉ (Value.object ms).text ∧
      ((Value.object ms).places [0x0a]).map (literalBytes ·.key) = promptKeys) ∧
    (∃ value, jsonStringValue (sendPrompt sessionId prompt) (ascii "sessionId") = .found value ∧
      value.data = sessionId) ∧
    (∃ value, jsonStringValue (sendPrompt sessionId prompt) (ascii "text") = .found value ∧
      value.data = prompt) := by
  have hText := promptLine_text hId hPrompt
  have hFits := promptLine_fits hIdLength hPromptLength
  have hStrings := promptLine_strings sessionId prompt
  refine ⟨⟨promptMembers sessionId prompt, ?_, ?_, promptLine_keys⟩, ?_, ?_⟩
  · rw [← hText]
    simp only [Line.text, Line.body, promptLine, Space.bytes_none, List.nil_append, List.append_nil]
  · intro hNewline
    have hControl := promptLine_single hId hPrompt 0x0a (by
      simpa only [Line.body, promptLine, Space.bytes_none, List.nil_append, List.append_nil]
        using hNewline)
    exact absurd hControl (by decide)
  · have hRead := jsonStringValue_text (ascii "sessionId") (by decide) (fitsLookup_line hFits)
    rw [hStrings.1, hText] at hRead
    obtain ⟨value, hFound, hData, -⟩ := hRead
    exact ⟨value, hFound, hData⟩
  · have hRead := jsonStringValue_text (ascii "text") (by decide) (fitsLookup_line hFits)
    rw [hStrings.2, hText] at hRead
    obtain ⟨value, hFound, hData, -⟩ := hRead
    exact ⟨value, hFound, hData⟩

/-- A prompt that looks like a member. -/
theorem sendPrompt_request_quoted :
    (∃ value, jsonStringValue (sendPrompt (ascii "s") (ascii "\",\"text\":\"x")) (ascii "text") =
      .found value ∧ value.data = ascii "\",\"text\":\"x") :=
  (sendPrompt_request (by decide) (by decide) (by decide) (by decide)).2.2

end Esp32Fx.Protocol
