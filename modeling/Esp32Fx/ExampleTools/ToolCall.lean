import Esp32Fx.ExampleTools.Args
import Esp32Fx.Lib.Staging
import Esp32Fx.Lib.Transition

/-! `fx_example_tool_call` (`src/runtime/fx_example_tools.c`) as a transition system.  A phase is the
system call that the function makes next, with the local variables that it still needs; a step is
the system call with what it returns and the code up to the next one.  The process may stop between
any two steps. -/

namespace Esp32Fx.ExampleTools

open Esp32Fx.Lib

def TEST_LIMIT : Nat := 8192

inductive Tool
  | readProject | replaceBattery | runTests
  deriving DecidableEq, Repr

def toolOf (name : List UInt8) : Option Tool :=
  if name = ascii "read_project" then some .readProject
  else if name = ascii "replace_battery" then some .replaceBattery
  else if name = ascii "run_tests" then some .runTests
  else none

/-- The fields that the arguments of a tool must have, and no others. -/
def Tool.fields : Tool → Nat
  | readProject => 1
  | replaceBattery => 3
  | runTests => 0

/-- What `fstat` and `read` show of an entry of the project directory. -/
structure File where
  bytes : List UInt8
  regular : Bool
  links : Nat
  deriving DecidableEq, Repr

abbrev Project := Directory (List UInt8) File

/-- One invocation, with the value of `FX_EXAMPLE_JAIL` and the process that makes it. -/
structure Call where
  jail : Option (List UInt8)
  name : List UInt8
  arguments : List UInt8
  cap : Nat
  pid : Nat
  deriving DecidableEq, Repr

/-- The result, the status byte, and the bytes written to the output. -/
structure Answer where
  result : Int
  status : UInt8
  out : List UInt8
  deriving DecidableEq, Repr

def reply (cap : Nat) (failed : Bool) (text : List UInt8) : Answer where
  result := if text.length > cap then -3 else text.length
  status := if failed then 1 else 0
  out := if text.length > cap then [] else text

def decimal (n : Nat) : List UInt8 := ascii (toString n)

/-- The name that `snprintf` puts into `temporary`. -/
def temporary (pid : Nat) : List UInt8 :=
  (ascii ".battery-" ++ decimal pid ++ ascii ".tmp").take 63

/-- The paths that a tool is denied. -/
def denied (tool : Tool) (path : List UInt8) : Bool :=
  !strEq path (ascii "battery.sh") &&
    (tool == .replaceBattery || (!strEq path (ascii "SPEC.md") && !strEq path (ascii "test.sh")))

/-- What `checked_file` asks of an open file. -/
def checkedFile (file : File) : Bool :=
  file.regular && file.links == 1 && file.bytes.length ≤ FILE_LIMIT

inductive Phase
  | idle
  | calloc
  | runTests
  | openJail (tool : Tool) (args : Args)
  | openProject (tool : Tool) (args : Args)
  | openFile (tool : Tool) (args : Args)
  | statFile (tool : Tool) (args : Args) (file : File)
  | read (file : File) (used : Nat)
  | create (content : List UInt8)
  | write (content : List UInt8) (used : Nat)
  | chmod (content : List UInt8) (failed : Bool)
  | sync (content : List UInt8) (failed : Bool)
  | close (content : List UInt8) (failed : Bool)
  | rename (content : List UInt8)
  | unlink
  | done
  | returned
  deriving DecidableEq, Repr

structure State where
  project : Project
  call : Call
  answer : Answer
  phase : Phase
  /-- The calls so far, the last one included. -/
  calls : List Call
  /-- The project when the last call began. -/
  entry : Project

namespace State

def answered (s : State) (answer : Answer) : State := { s with answer, phase := .returned }

/-- Where a read ends: at the capacity, or at the largest file. -/
def bound (s : State) : Nat := min s.call.cap FILE_LIMIT

/-- The name of the file that a `replace_battery` call writes. -/
def aside (s : State) : List UInt8 := temporary s.call.pid

/-- From the call to `calloc`. -/
def begin (s : State) (call : Call) : State :=
  let s := { s with
    call, calls := s.calls ++ [call], entry := s.project, answer := { s.answer with status := 1 } }
  match call.jail with
  | none => s.answered (reply call.cap true (ascii "example tools disabled\n"))
  | some jail =>
    if peek jail ≠ 0x2f then s.answered (reply call.cap true (ascii "example tools disabled\n"))
    else { s with phase := .calloc }

def invalid (s : State) : State :=
  s.answered (reply s.call.cap true (ascii "invalid tool or arguments\n"))

/-- From the checks of a call to the first system call of its tool. -/
def dispatch (s : State) (tool : Tool) (args : Args) : State :=
  match tool with
  | .runTests => { s with phase := .runTests }
  | _ =>
    let s := { s with answer := reply s.call.cap true (ascii "file denied or unavailable\n") }
    if denied tool args.path then { s with phase := .done }
    else { s with phase := .openJail tool args }

def checkArguments (s : State) : State :=
  match toolOf s.call.name with
  | none => s.invalid
  | some tool =>
    match parseArgs s.call.arguments with
    | none => s.invalid
    | some args => if args.fields ≠ tool.fields then s.invalid else s.dispatch tool args

end State

/-- What a system call returns: -1, -1 with `EINTR`, or success with the count that `read` and
`write` give. -/
inductive Reply
  | fails
  | interrupted
  | returns (count : Nat)
  deriving DecidableEq, Repr

def Reply.ok : Reply → Bool
  | returns _ => true
  | _ => false

namespace State

/-- The bytes that are left to a `read`, which asks for one more than the bound at the bound. -/
def readable (s : State) (file : File) (used : Nat) : Nat :=
  min (file.bytes.length - used) (if used = s.bound then 1 else s.bound - used)

/-- The counts that `read` and `write` can give: only at the end of a file a `read` gives nothing. -/
def possible (s : State) : Reply → Bool
  | .returns count =>
    match s.phase with
    | .read file used => count ≤ s.readable file used && (count ≠ 0 || file.bytes.length ≤ used)
    | .write content used => count ≤ content.length - used
    | _ => true
  | _ => true

def afterStat (s : State) (tool : Tool) (args : Args) (file : File) : State :=
  match tool with
  | .replaceBattery =>
    if strlen args.content = 0 then { s with phase := .done }
    else { s with phase := .create (cString args.content) }
  | _ => { s with phase := .read file 0 }

def readEnd (s : State) (used : Nat) : State :=
  { s with answer := { s.answer with status := 0, result := used }, phase := .done }

def afterRead (s : State) (file : File) (used : Nat) : Reply → State
  | .interrupted => s
  | .fails =>
    if used = s.bound then
      { s with answer := { s.answer with result := -3 }, phase := .done }
    else { s with phase := .done }
  | .returns count =>
    if count = 0 then s.readEnd used
    else if used = s.bound then
      { s with answer := { s.answer with result := -3 }, phase := .done }
    else
      let out := file.bytes.take (used + count) ++ s.answer.out.drop (used + count)
      { s with answer := { s.answer with out }, phase := .read file (used + count) }

/-- `openat` with `O_CREAT | O_EXCL`. -/
def afterCreate (s : State) (content : List UInt8) (r : Reply) : State :=
  if r.ok ∧ s.project s.aside = none then
    { s with project := s.project.put s.aside ⟨[], true, 1⟩, phase := .write content 0 }
  else { s with phase := .done }

/-- The project after bytes have gone to the end of a file. -/
def append (s : State) (name bytes : List UInt8) : Project :=
  match s.project name with
  | none => s.project
  | some file => s.project.put name { file with bytes := file.bytes ++ bytes }

def afterWrite (s : State) (content : List UInt8) (used : Nat) : Reply → State
  | .interrupted => s
  | .fails => { s with phase := .chmod content true }
  | .returns count =>
    if count = 0 then { s with phase := .chmod content true }
    else
      { s with
        project := s.append s.aside ((content.drop used).take count)
        phase :=
          if used + count < content.length then .write content (used + count)
          else .chmod content false }

def afterClose (s : State) (content : List UInt8) (failed : Bool) (r : Reply) : State :=
  if failed || !r.ok then { s with phase := .unlink } else { s with phase := .rename content }

def afterRename (s : State) (r : Reply) : State :=
  if r.ok then
    { s with
      project := s.project.rename s.aside (ascii "battery.sh")
      answer := reply s.call.cap false (ascii "wrote battery.sh\n")
      phase := .done }
  else { s with phase := .unlink }

/-- The system call of the phase, and the code behind it. -/
def advance (s : State) (r : Reply) : State :=
  match s.phase with
  | .idle | .runTests | .returned => s
  | .calloc => if r.ok then s.checkArguments else s.answered { s.answer with result := -1 }
  | .openJail tool args => { s with phase := if r.ok then .openProject tool args else .done }
  | .openProject tool args => { s with phase := if r.ok then .openFile tool args else .done }
  | .openFile tool args =>
    match s.project (cString args.path) with
    | none => { s with phase := .done }
    | some file => { s with phase := if r.ok then .statFile tool args file else .done }
  | .statFile tool args file =>
    if r.ok ∧ checkedFile file then s.afterStat tool args file else { s with phase := .done }
  | .read file used => s.afterRead file used r
  | .create content => s.afterCreate content r
  | .write content used => s.afterWrite content used r
  | .chmod content failed =>
    { s with phase := if r.ok then .sync content failed else .close content true }
  | .sync content failed => { s with phase := .close content (failed || !r.ok) }
  | .close content failed => s.afterClose content failed r
  | .rename _ => s.afterRename r
  | .unlink =>
    { s with project := if r.ok then s.project.unlink s.aside else s.project, phase := .done }
  | .done => { s with phase := .returned }

end State

/-- How the helper of `run_tests` ends: it could not be started, it was killed or broke off, or it
exited with a code after some output. -/
inductive TestRun
  | unavailable
  | failed
  | exited (output : List UInt8) (code : Nat)
  deriving DecidableEq, Repr

/-- `run_tests`; the helper writes nowhere in the project. -/
def runTests (cap : Nat) (answer : Answer) (run : TestRun) : Answer :=
  let limit := min cap TEST_LIMIT
  if limit < 128 then { answer with result := -1 }
  else
    match run with
    | .unavailable => { answer with result := -1 }
    | .failed => reply cap true (ascii "test runner exceeded output/time limit or failed\n")
    | .exited output code =>
      if output.length > limit - 80 then
        reply cap true (ascii "test runner exceeded output/time limit or failed\n")
      else
        let line := ascii "exit_code=" ++ decimal code ++ ascii "\n"
        if line.length ≥ cap - output.length then { answer with result := -3 }
        else ⟨(output ++ line).length, if code = 0 then 0 else 1, output ++ line⟩

inductive Event
  | call (c : Call)
  | reply (r : Reply)
  | tests (run : TestRun)
  | stop
  deriving DecidableEq, Repr

namespace State

/-- A call begins when none is running.  A process that stops leaves the project as it is. -/
def Step (s : State) : Event → State → Prop
  | .call c, t => (s.phase = .idle ∨ s.phase = .returned) ∧ t = s.begin c
  | .reply r, t => s.possible r ∧ t = s.advance r
  | .tests run, t => s.phase = .runTests ∧ t = s.answered (runTests s.call.cap s.answer run)
  | .stop, t => t = { s with phase := .idle }

end State

/-- The calls of the tools on a project, by one process after the other. -/
def toolCalls (project : Project) : System State Event where
  Start s := s.project = project ∧ s.entry = project ∧ s.calls = [] ∧ s.phase = .idle
  Step := State.Step

end Esp32Fx.ExampleTools
