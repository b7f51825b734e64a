import Esp32Fx.Lib.PyJson
import Esp32Fx.Lib.PyRegex
import Esp32Fx.Lib.PyText

/-! `audit_tool_trace` of `tools/tool_trace.py`, which checks from the diagnostics of a coding turn
that it read the project, edited it, and tested before and after.  The numbers that can be keys of a
`dict` are a parameter: what `int` or `float` makes of a literal, up to `==`. -/

namespace Esp32Fx.Tools.ToolTrace

open Lib Lib.Py Lib.PyJson

def readProject : List Char := "read_project".toList

def replaceBattery : List Char := "replace_battery".toList

def runTests : List Char := "run_tests".toList

/-- `^fx-tools: (read_project|replace_battery|run_tests) begin$` -/
def callPattern : Pattern :=
  .seq .lineStart <| .seq (.literal "fx-tools: ".toList) <|
    .seq (.group (.alt (.literal readProject) (.alt (.literal replaceBattery)
      (.literal runTests)))) <|
    .seq (.literal " begin".toList) .lineEnd

/-- The start of the lines that hold messages. -/
def acpPrefix : List Char := "fx-eink: ACP <= ".toList

/-- `("SPEC.md", "battery.sh", "test.sh")`. -/
def projectFiles : List Str := [str "SPEC.md", str "battery.sh", str "test.sh"]

/-- `get` of a `dict`; none where the value has no such method. -/
def get (v : Value) (key : Str) (default : Value) : Option Value :=
  match v with
  | .object members => some ((members.reverse.lookup key).getD default)
  | _ => none

/-- `v == s`. -/
def isStr (v : Value) (s : Str) : Bool :=
  match v with
  | .string t => t == s
  | _ => false

variable {Number : Type} [DecidableEq Number] (number : List Char → Number)

/-- A key of a `dict`: a truth value is a number as well. -/
inductive DictKey (Number : Type)
  | null
  | number (n : Number)
  | string (s : Str)
  deriving DecidableEq

/-- A value as a key; none where it cannot be hashed. -/
def dictKey : Value → Option (DictKey Number)
  | .null => some .null
  | .bool b => some (.number (number (if b then ['1'] else ['0'])))
  | .number literal => some (.number (number literal))
  | .string s => some (.string s)
  | .array _ => none
  | .object _ => none

/-- `read_calls`, the latest first, and `successful_reads`. -/
structure Reads (Number : Type) where
  readCalls : List (DictKey Number × Str)
  successfulReads : List Str

/-- What the loop does with a message; none where it raises. -/
def record (s : Reads Number) (message : Value) : Option (Reads Number) := do
  let params ← get message (str "params") (.object [])
  let update ← get params (str "update") (.object [])
  let sessionUpdate ← get update (str "sessionUpdate") .null
  let name ← get update (str "name") .null
  let status ← get update (str "status") .null
  let toolCallId ← get update (str "toolCallId") .null
  if isStr sessionUpdate (str "tool_call") && isStr name (str "read_project") then
    let arguments ← get update (str "rawInput") (.object [])
    match get arguments (str "path") .null with
    | some (.string path) =>
      if projectFiles.contains path then
        let key ← dictKey number toolCallId
        return { s with readCalls := (key, path) :: s.readCalls }
      else return s
    | _ => return s
  else if isStr sessionUpdate (str "tool_call_update") && isStr status (str "completed") then
    let key ← dictKey number toolCallId
    match s.readCalls.lookup key with
    | some path =>
      if path ≠ [] then return { s with successfulReads := s.successfulReads.insert path }
      else return s
    | none => return s
  else return s

/-- A turn of the loop over the lines. -/
def readLine (s : Reads Number) (line : List Char) : Reads Number :=
  if acpPrefix <+: line then
    match loads (line.drop acpPrefix.length) with
    | some message => (record number s message).getD s
    | none => s
  else s

/-- The dictionary that comes back. -/
structure Audit where
  toolCallCounts : List (List Char × Nat)
  allProjectFilesRead : Bool
  agentTestedBeforeAndAfterEdit : Bool
  deriving DecidableEq, Repr

/-- `edits`. -/
def editIndices (calls : List (List Char)) : List Nat :=
  (List.range calls.length).filter fun index => calls[index]? = some replaceBattery

def testedBeforeAfter (calls : List (List Char)) : Bool :=
  match (editIndices calls).head?, (editIndices calls).getLast? with
  | some first, some last =>
    (calls.take first).contains runTests && (calls.drop (last + 1)).contains runTests
  | _, _ => false

def auditToolTrace (diagnostics : List Char) : Audit :=
  let calls := findall callPattern diagnostics
  let reads := (splitLines diagnostics).foldl (readLine number) ⟨[], []⟩
  { toolCallCounts := [readProject, replaceBattery, runTests].map fun name =>
      (name, calls.count name)
    allProjectFilesRead := projectFiles.all reads.successfulReads.contains &&
      reads.successfulReads.all projectFiles.contains
    agentTestedBeforeAndAfterEdit := testedBeforeAfter calls }

end Esp32Fx.Tools.ToolTrace
