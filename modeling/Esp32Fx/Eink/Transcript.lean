import Esp32Fx.Eink.Client

/-! What `runtime/fx_eink.c` does with the agent's answer: the end of `main`, which prints it, and
`write_transcript`, whose file the renderer gets.  Files are taken to be written in full. -/

namespace Esp32Fx.Eink

open Lib

/-- The file that `write_transcript` leaves. -/
def writeTranscript (prompt : List UInt8) (response : TextBuffer) : List UInt8 :=
  ascii "You:\n" ++ cString prompt ++ ascii "\n\nfx:\n" ++
    (if response.allocated then cString response.data else ascii "(no text response)") ++
    ascii "\n"

/-- What the user gets to see. -/
structure Shown where
  printed : List UInt8
  transcript : List UInt8
  deriving DecidableEq, Repr

/-- The end of `main`, once the prompt is sent; `finished` tells whether `finish_fx` succeeds. -/
def showAnswer (bits : Nat) (output line prompt : List UInt8) (finished : Bool) : Option Shown :=
  let read := readUntilId bits output 3 line (some .empty)
  if ¬read.ok then none
  else if ¬finished then none
  else
    match read.response with
    | none => none
    | some response =>
      if ¬response.allocated ∨ response.data.length = 0 then none
      else some ⟨cString response.data ++ ascii "\n", writeTranscript prompt response⟩

end Esp32Fx.Eink
