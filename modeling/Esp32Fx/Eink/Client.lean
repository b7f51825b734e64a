import Esp32Fx.Eink.Json

/-! The client's end of the protocol in `runtime/fx_eink.c`: the prompt that it sends, and the loop
that reads the runtime's lines until a response.  A stream is the list of the bytes that are still
to be read from it. -/

namespace Esp32Fx.Eink

open Lib

/-- `MAX_PROMPT_BYTES`. -/
def maxPromptBytes : Nat := 4096

/-- The bytes that `send_prompt` writes. -/
def sendPrompt (sessionId prompt : List UInt8) : List UInt8 :=
  ascii ("\x7b\"jsonrpc\":\"2.0\",\"id\":3,\"method\":\"session/prompt\"," ++
    "\"params\":\x7b\"sessionId\":") ++
  writeJsonString sessionId ++
  ascii ",\"prompt\":[\x7b\"type\":\"text\",\"text\":" ++
  writeJsonString prompt ++
  ascii "\x7d]\x7d\x7d\n"

/-- `getline`: the bytes up to and including a newline, or up to the end of the stream; none at the
end. -/
def getline (stream : List UInt8) : Option (List UInt8 × List UInt8) :=
  let rest := stream.dropWhile (· ≠ 0x0a)
  if stream.isEmpty then none
  else some (stream.takeWhile (· ≠ 0x0a) ++ rest.take 1, rest.drop 1)

/-- What `read_until_id` leaves: whether it returned 0, the stream, and the two buffers of its
caller. -/
structure ReadResult where
  ok : Bool
  output : List UInt8
  line : List UInt8
  response : Option TextBuffer
  deriving DecidableEq, Repr

/-- The part of a round that looks for a chunk of the agent's message: the response buffer after
it, or none for -1. -/
def readChunk (raw : List UInt8) (response : Option TextBuffer) : Option (Option TextBuffer) :=
  match jsonStringValue raw (ascii "sessionUpdate") with
  | .invalid => none
  | .absent => some response
  | .found update =>
    match response with
    | none => some none
    | some buffer =>
      if update.allocated && strEq update.data (ascii "agent_message_chunk") then
        match jsonStringValue raw (ascii "text") with
        | .invalid => none
        | .absent => some (some buffer)
        | .found text => (bufferAppend buffer text.data).map some
      else some (some buffer)

/-- The loop of `read_until_id`.  Each round reads at least one byte of the stream. -/
def readLoop (bits : Nat) (wantedId : Int) :
    Nat → List UInt8 → List UInt8 → Option TextBuffer → ReadResult
  | 0, output, line, response => ⟨false, output, line, response⟩
  | rounds + 1, output, line, response =>
    match getline output with
    | none => ⟨false, output, line, response⟩
    | some (raw, output) =>
      if raw.length > maxProtocolLineBytes then ⟨false, output, line, response⟩
      else
        match readChunk raw response with
        | none => ⟨false, output, line, response⟩
        | some response =>
          match jsonIntegerValue bits raw (ascii "id") with
          | .invalid => ⟨false, output, line, response⟩
          | .absent => readLoop bits wantedId rounds output line response
          | .found id =>
            if id = wantedId then
              if (findJsonKey raw (ascii "error")).isSome then ⟨false, output, line, response⟩
              else ⟨true, output, raw, response⟩
            else readLoop bits wantedId rounds output line response

/-- `read_until_id`, for a `long` of `bits` bits; `response` is none for a null pointer. -/
def readUntilId (bits : Nat) (output : List UInt8) (wantedId : Int) (line : List UInt8)
    (response : Option TextBuffer) : ReadResult :=
  readLoop bits wantedId (output.length + 1) output line response

end Esp32Fx.Eink
