import Esp32Fx.ExampleTools.ToolCall

/-! `run_tests` (`src/runtime/fx_example_tools.c`) as a transition system, in the build of the board,
which lends its contiguity guards to the helper (`src/runtime/fx_wamr_native.c`).  A phase is the
call that the function makes next; an event is what the call returns, or something that the child
and its descendants do in between. -/

namespace Esp32Fx.ExampleTools.RunTests

open Esp32Fx.Lib

/-! ### The guards -/

/-- Whether `shell_guard` and `test_guard` hold a mapping. -/
structure Guards where
  shell : Bool
  test : Bool
  deriving DecidableEq, Repr

/-- `acquire_guard`: whether it returns 0, which is whether the guard holds a mapping then. -/
def acquireGuard (held maps : Bool) : Bool := held || maps

/-- `release_guard`: whether it returns 0, and whether the guard still holds its mapping. -/
def releaseGuard (held unmaps : Bool) : Bool × Bool := (held && unmaps, held && !unmaps)

/-- `fx_wamr_lend_test_contiguity_guard`: whether it returns 0, and the guards. -/
def lendGuards (unmapsShell unmapsTest mapsShell : Bool) (guards : Guards) : Bool × Guards :=
  let (released, shell) := releaseGuard guards.shell unmapsShell
  if !released then (false, { guards with shell })
  else
    let (released, test) := releaseGuard guards.test unmapsTest
    if !released then (false, ⟨acquireGuard shell mapsShell, test⟩) else (true, ⟨shell, test⟩)

/-- `fx_wamr_rearm_test_contiguity_guard`: whether it returns 0, and the guards. -/
def rearmGuards (mapsShell mapsTest unmapsShell : Bool) (guards : Guards) : Bool × Guards :=
  let shell := acquireGuard guards.shell mapsShell
  if !shell then (false, { guards with shell })
  else
    let test := acquireGuard guards.test mapsTest
    if !test then (false, ⟨(releaseGuard shell unmapsShell).2, test⟩) else (true, ⟨shell, test⟩)

/-! ### The states -/

/-- The child, with the status that `waitpid` gives. -/
inductive Child
  | none
  | running
  | exited (status : Nat)
  | reaped (status : Nat)
  deriving DecidableEq, Repr

inductive Phase
  | deadline
  | pipe
  | closeOnExec
  | lend
  | spawn
  /-- The guards are taken back when there is no child. -/
  | takeBack
  | nonblock
  | readClock
  | poll
  | read
  | waitChild
  | waitClock
  /-- The wait for a child that has been killed. -/
  | waitKilled
  | rearm
  | returned
  deriving DecidableEq, Repr

structure State where
  /-- What has been written to the pipe, and how much of it has been read. -/
  produced : List UInt8
  consumed : Nat
  /-- Nobody can write to the pipe any more. -/
  closed : Bool
  child : Child
  guards : Guards
  /-- The successful calls that lend the guards, and the calls that take them back. -/
  lends : Nat
  rearms : Nat
  deadline : Int
  failed : Bool
  /-- The end of the pipe has been read. -/
  ended : Bool
  childStatus : Nat
  /-- The output that has been kept: `out` up to `length`. -/
  kept : List UInt8
  /-- How far `out` has been written to. -/
  extent : Nat
  answer : Answer
  phase : Phase
  deriving DecidableEq, Repr

inductive ReadReply
  | interrupted
  | again
  | fails
  | returns (bytes : List UInt8)
  deriving DecidableEq, Repr

/-- The replies of `waitpid`; only a call with `WNOHANG` finds a child running. -/
inductive WaitReply
  | interrupted
  | running
  | reaped
  deriving DecidableEq, Repr

inductive Event
  | writes (bytes : List UInt8)
  | closes
  | exits (status : Nat)
  | clock (now : Int)
  | setup (ok : Bool)
  | lend (unmapsShell unmapsTest mapsShell : Bool)
  | spawn (ok : Bool)
  | poll (ready : Int) (interrupted : Bool)
  | read (r : ReadReply)
  | wait (r : WaitReply)
  | rearm (mapsShell mapsTest unmapsShell : Bool)
  deriving DecidableEq, Repr

def failureText : List UInt8 := ascii "test runner exceeded output/time limit or failed\n"

/-- `code` of a wait status. -/
def exitCode (status : Nat) : Nat :=
  if status % 128 = 0 then status / 256 % 256 else 128 + status % 128

def exitLine (code : Nat) : List UInt8 := ascii "exit_code=" ++ decimal code ++ ascii "\n"

namespace State

/-- What can happen in a state: a reply to the call that is made, or something that the child and
its descendants can do. -/
def possible (s : State) : Event → Bool
  | .writes _ => s.child ≠ .none && !s.closed
  | .closes => s.child ≠ .none
  | .exits _ => s.child = .running
  | .clock _ => s.phase = .deadline || s.phase = .readClock || s.phase = .waitClock
  | .setup _ => s.phase = .pipe || s.phase = .closeOnExec || s.phase = .nonblock
  | .lend _ _ _ => s.phase = .lend
  | .spawn _ => s.phase = .spawn
  | .poll _ _ => s.phase = .poll
  | .read r =>
    s.phase = .read && match r with
      | .returns bytes =>
        bytes.length ≤ 512 && bytes.isPrefixOf (s.produced.drop s.consumed) &&
          (bytes ≠ [] || (s.closed && s.consumed = s.produced.length))
      | _ => true
  | .wait r =>
    match r with
    | .interrupted => s.phase = .waitChild || s.phase = .waitKilled
    | .running => s.phase = .waitChild && s.child = .running
    | .reaped =>
      (s.phase = .waitChild || s.phase = .waitKilled) && match s.child with
        | .exited _ => true
        | _ => false
  | .rearm _ _ _ => s.phase = .takeBack || s.phase = .rearm

/-- `return -1`. -/
def unavailable (s : State) : State :=
  { s with answer := { s.answer with result := -1 }, phase := .returned }

/-- The first loop is left with `failed`. -/
def fail (s : State) : State := { s with failed := true, phase := .waitKilled }

/-- `waitpid` returns the child. -/
def reap (s : State) : State :=
  match s.child with
  | .exited status => { s with child := .reaped status, childStatus := status, phase := .rearm }
  | _ => s

def afterClock (cap : Nat) (now : Int) (s : State) : State :=
  match s.phase with
  | .deadline =>
    if min cap TEST_LIMIT < 128 then s.unavailable
    else { s with deadline := now + 10000, phase := .pipe }
  | .readClock => if now ≥ s.deadline then s.fail else { s with phase := .poll }
  | .waitClock => if now ≥ s.deadline then s.fail else { s with phase := .waitChild }
  | _ => s

def afterSetup (ok : Bool) (s : State) : State :=
  match s.phase with
  | .pipe => if ok then { s with phase := .closeOnExec } else s.unavailable
  | .closeOnExec => if ok then { s with phase := .lend } else s.unavailable
  | .nonblock => if ok then { s with phase := .readClock } else s.fail
  | _ => s

def afterPoll (ready : Int) (interrupted : Bool) (s : State) : State :=
  if ready < 0 ∧ interrupted = false then s.fail
  else if ready ≤ 0 then { s with phase := .readClock }
  else { s with phase := .read }

def afterRead (cap : Nat) (s : State) : ReadReply → State
  | .interrupted | .again => { s with phase := .readClock }
  | .fails => s.fail
  | .returns bytes =>
    if bytes = [] then { s with ended := true, phase := .waitChild }
    else
      let s := { s with consumed := s.consumed + bytes.length }
      if bytes.length > min cap TEST_LIMIT - 80 - s.kept.length then s.fail
      else
        { s with
          kept := s.kept ++ bytes
          extent := max s.extent (s.kept.length + bytes.length)
          phase := .readClock }

def afterWait (s : State) : WaitReply → State
  | .reaped => s.reap
  | _ => if s.phase = .waitChild then { s with phase := .waitClock } else s

/-- From the end of the child to the return, with whether the guards could be taken back. -/
def finish (cap : Nat) (rearmed : Bool) (s : State) : State :=
  if s.failed ∨ rearmed = false then
    { s with
      answer := reply cap true failureText
      extent := max s.extent (reply cap true failureText).out.length
      phase := .returned }
  else
    let code := exitCode s.childStatus
    let n := (exitLine code).length
    -- snprintf writes a NUL as well, and never past the size that it is given
    let s := { s with
      extent := max s.extent (s.kept.length + min (n + 1) (cap - s.kept.length)), phase := .returned }
    if n ≥ cap - s.kept.length then { s with answer := { s.answer with result := -3 } }
    else
      { s with
        answer := ⟨(s.kept.length + n : Nat), if code = 0 then 0 else 1, s.kept ++ exitLine code⟩ }

def advance (cap : Nat) (s : State) : Event → State
  | .writes bytes => { s with produced := s.produced ++ bytes }
  | .closes => { s with closed := true }
  | .exits status => { s with child := .exited status }
  | .clock now => s.afterClock cap now
  | .setup ok => s.afterSetup ok
  | .lend unmapsShell unmapsTest mapsShell =>
    let (lent, guards) := lendGuards unmapsShell unmapsTest mapsShell s.guards
    if lent then { s with guards, lends := s.lends + 1, phase := .spawn }
    else { s with guards }.unavailable
  | .spawn ok =>
    if ok then { s with child := .running, phase := .nonblock } else { s with phase := .takeBack }
  | .poll ready interrupted => s.afterPoll ready interrupted
  | .read r => s.afterRead cap r
  | .wait r => s.afterWait r
  | .rearm mapsShell mapsTest unmapsShell =>
    let (rearmed, guards) := rearmGuards mapsShell mapsTest unmapsShell s.guards
    let s := { s with guards, rearms := s.rearms + 1 }
    if s.phase = .takeBack then s.unavailable else s.finish cap rearmed

/-- `run_tests` is entered. -/
def start (guards : Guards) (answer : Answer) : State where
  produced := []
  consumed := 0
  closed := false
  child := .none
  guards := guards
  lends := 0
  rearms := 0
  deadline := 0
  failed := false
  ended := false
  childStatus := 0
  kept := []
  extent := 0
  answer := answer
  phase := .deadline

end State

/-- The runs with an output of `cap` bytes, from some answer on. -/
def testRuns (cap : Nat) (entry : Answer) : System State Event :=
  .moves (fun s => ∃ guards, s = .start guards entry) State.possible (State.advance cap)

end Esp32Fx.ExampleTools.RunTests
