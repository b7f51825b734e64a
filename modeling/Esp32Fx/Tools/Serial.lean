import Mathlib.Data.List.Infix
import Esp32Fx.Lib.Base64
import Esp32Fx.Lib.CString
import Esp32Fx.Lib.Regex
import Esp32Fx.Lib.Utf8
import Esp32Fx.Tools.Host

/-! The console of `tools/board_io.py`: waiting for a pattern in what the board sends, running a
command and downloading a file.  The reads that come before the deadline are a list; a text is the
list of its UTF-8 bytes. -/

namespace Esp32Fx.Tools

open Lib Regex

/-- An exception of the console, with its message. -/
inductive SerialError
  | runtime (message : String)
  | timeout (message : String)
  | value (message : String)
  deriving DecidableEq, Repr

def downloadRoots : List (List Char) :=
  ["/tmp/fx-run/", "/tmp/fx-coding/", "/home/root/fx-coding/", "/media/sd/fx-coding/"].map
    String.toList

def downloadRoot (source : List Char) : Except SerialError (List Char) :=
  if "//".toList <:+: source ∨ "/./".toList <:+: source ∨ "/../".toList <:+: source then
    .error (.value "download source is not canonical")
  else
    match downloadRoots.find? fun root => root <+: source && source.length > root.length with
    | some root => .ok root.dropLast
    | none => .error (.value "download source is outside an admitted evidence root")

/-! ### Patterns -/

def isDigit (b : UInt8) : Bool := 0x30 ≤ b && b ≤ 0x39

def isHexDigit (b : UInt8) : Bool := isDigit b || (0x61 ≤ b && b ≤ 0x66)

/-- `(?:^|\n)`. -/
def lineStart : Regex := .alt .start (.literal [0x0a])

/-- `int` of digits. -/
def intOf (digits : Bytes) : Nat := digits.foldl (fun value b => value * 10 + (b.toNat - 0x30)) 0

/-- The line that ends a command, by its marker. -/
def runPattern (marker : Bytes) : Regex :=
  .seq lineStart (.seq (.literal (marker ++ ascii "=")) (.seq (.group 1 (.many isDigit 1 false))
    (.literal [0x0a])))

def endPattern (ending : Bytes) : Regex := .seq lineStart (.literal (ending ++ [0x0a]))

/-- The line before a file: its size and its SHA-256. -/
def headerPattern (beginning : Bytes) : Regex :=
  .seq lineStart (.seq (.literal (beginning ++ ascii " ")) (.seq (.group 1 (.many isDigit 1 false))
    (.seq (.literal (ascii " ")) (.seq (.group 2 (.exactly isHexDigit 64)) (.literal [0x0a])))))

/-- A file from the line before it to its ending; any byte is taken between them. -/
def framePattern (beginning ending : Bytes) : Regex :=
  .seq (headerPattern beginning) (.seq (.group 3 (.many (fun _ => true) 0 true))
    (.literal (ending ++ [0x0a])))

/-! ### `Console` -/

def captureLimit : Nat := 2 * 1024 * 1024

def timedOut : SerialError :=
  .timeout "serial completion timeout; inspect board state before retrying"

/-- `bytes.replace(b"\r", b"")`. -/
def dropReturns (bytes : Bytes) : Bytes := bytes.filter (· ≠ 0x0d)

/-- `until`, after some bytes were received. -/
def untilFrom (pattern : Regex) (received : Bytes) :
    List Bytes → Except SerialError (Bytes × Cursor)
  | [] => .error timedOut
  | data :: reads =>
    if (received ++ data).length > captureLimit then
      .error (.runtime "serial output exceeds capture limit")
    else
      match search pattern (dropReturns (received ++ data)) with
      | some found => .ok (recode (dropReturns (received ++ data)), found)
      | none => untilFrom pattern (received ++ data) reads

/-- `until`: the text that was received and the match in it. -/
def consoleUntil (pattern : Regex) (reads : List Bytes) : Except SerialError (Bytes × Cursor) :=
  untilFrom pattern [] reads

def commandMarker (token : Bytes) : Bytes := ascii "__FX_CMD_" ++ token

/-- What stands before and after the marker in the text that `run` sends. -/
def runBefore : Bytes := ascii "printf '\\n"

def runAfter : Bytes := ascii "=%s\\n' \"$?\""

/-- The text that `run` sends. -/
def runText (command token : Bytes) : Bytes :=
  command ++ [0x0a] ++ runBefore ++ commandMarker token ++ runAfter ++ [0x0a]

/-- `run`, once the text was sent. -/
def consoleRun (token : Bytes) (reads : List Bytes) : Except SerialError (Nat × Bytes) :=
  match consoleUntil (runPattern (commandMarker token)) reads with
  | .error e => .error e
  | .ok (text, found) => .ok (intOf (found.group 1), text)

def beginMarker (token : Bytes) : Bytes := ascii "__FX_DOWNLOAD_" ++ token

def endMarker (token : Bytes) : Bytes := ascii "__FX_DOWNLOAD_END_" ++ token

def beginBefore : Bytes := ascii "printf '\\n"

def beginAfter : Bytes := ascii " %s %s\\n' \"$size\" \"$digest\""

def endBefore : Bytes := ascii "printf '"

def endAfter : Bytes := ascii "\\n'"

/-- The text that `download` sends after the check, for a source quoted for the shell. -/
def downloadText (quoted token token' : Bytes) : Bytes :=
  ascii "size=$(wc -c < " ++ quoted ++ ascii ") && digest=$(sha256sum " ++ quoted ++
    ascii " | cut -d' ' -f1) && " ++ beginBefore ++ beginMarker token ++ beginAfter ++
    ascii " && base64 " ++ quoted ++ ascii " && " ++ endBefore ++ endMarker token' ++ endAfter ++
    [0x0a]

/-- The file in a frame. -/
def readFrame (sha256 : Bytes → Bytes) (beginning ending cleaned : Bytes) :
    Except SerialError Bytes :=
  match search (framePattern beginning ending) cleaned with
  | none => .error (.runtime "download framing failed")
  | some found =>
    -- the lines are joined
    match Base64.decode ((found.group 3).filter fun b => b ≠ 0x0a && b ≠ 0x0d) with
    | none => .error (.runtime "download base64 validation failed")
    | some data =>
      if data.length ≠ intOf (found.group 1) then
        .error (.runtime "download size validation failed")
      else if encode (hexdigest (sha256 data)) ≠ found.group 2 then
        .error (.runtime "download digest validation failed")
      else .ok data

/-- `download`, with its random tokens and what it reads after each text that it sends. -/
def download (sha256 : Bytes → Bytes) (source : List Char) (maximum : Int)
    (token token' token'' : Bytes) (checked framed : List Bytes) : Except SerialError Bytes :=
  match downloadRoot source with
  | .error e => .error e
  | .ok _ =>
    if maximum < 1 ∨ maximum > 1024 * 1024 then
      .error (.value "download maximum must be 1..1048576 bytes")
    else
      match consoleRun token checked with
      | .error e => .error e
      | .ok (code, _) =>
        if code ≠ 0 then .error (.runtime "download source is absent, nonregular, or too large")
        else
          match consoleUntil (endPattern (endMarker token'')) framed with
          | .error e => .error e
          | .ok (wire, _) =>
            readFrame sha256 (beginMarker token') (endMarker token'') (dropReturns wire)

end Esp32Fx.Tools
