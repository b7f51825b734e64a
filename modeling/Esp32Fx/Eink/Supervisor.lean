import Esp32Fx.Eink.Transcript
import Esp32Fx.Lib.Loop
import Esp32Fx.Lib.Memory
import Mathlib.Data.Nat.Digits.Defs

/-! The supervisor of `runtime/fx_eink.c`, from `start_fx` to `main`, as a program over what it asks
of the system.  It holds memory for the guest, starts the runtime on it, speaks the protocol with
it, and shows the answer once the runtime is gone.  Diagnostics are left out.  `malloc` and `realloc`
do not fail here.  A request that cannot be sent is answered by an error; the program does not ignore
`SIGPIPE`, so a runtime that has closed its input may end it there instead, and nothing is said of
such a run.  What is printed is handed to `stdout`, whose errors the program ignores.

The world is what the calls work on.  A process that has been lent memory may write there as long as
it runs, and a `wait` that fails leaves it as it is. -/

namespace Esp32Fx.Eink.Supervisor

open Lib Program

/-! ### Calls -/

/-- What the guest borrows, by the variable that tells it where. -/
inductive Guard
  /-- `FX_WAMR_LINEAR_MEMORY_ADDRESS`. -/
  | launch
  /-- `FX_WAMR_NATIVE_STREAM_ADDRESS`. -/
  | stream
  deriving DecidableEq, Repr

/-- What `readiness_marker_state` gets from `open` and `read`. -/
inductive Marker
  | missing
  | refused
  | contents (bytes : List UInt8)
  deriving DecidableEq, Repr

/-- How a process ends. -/
inductive Exit
  | exited (code : Nat)
  | signalled (signal : Nat)
  deriving DecidableEq, Repr

inductive Waited
  | ended (exit : Exit)
  /-- `EINTR`. -/
  | interrupted
  | failed
  deriving DecidableEq, Repr

/-- What a child of `vfork` executes, and what it has for its input and output. -/
structure Command where
  argv : List (List UInt8)
  stdio : Option (Nat × Nat)
  deriving DecidableEq, Repr

inductive Call
  /-- `fx_verify_reserved_psram`. -/
  | verifyReserved
  | map (bytes : Nat)
  | unmap (region : Region)
  /-- `wipe_reserved_psram`. -/
  | wipe (region : Region)
  | setenv (guard : Guard) (value : List UInt8)
  | unsetenv (guard : Guard)
  | readMarker (path : List UInt8)
  | sleep
  | pipe
  | spawn (command : Command)
  | close (fd : Nat)
  | fdopen (fd : Nat)
  | fclose (fd : Nat)
  /-- The writes of a request and `fflush`. -/
  | send (fd : Nat) (request : List UInt8)
  /-- `getline`. -/
  | receive (fd : Nat)
  /-- `kill` with `SIGTERM`. -/
  | kill (pid : Nat)
  | wait (pid : Nat)
  | print (text : List UInt8)
  | mkstemp
  /-- The calls of `write_transcript`. -/
  | writeFile (path contents : List UInt8)
  | unlink (path : List UInt8)
  /-- A call that does not return. -/
  | hang
  deriving DecidableEq

def Call.Answer : Call → Type
  | .verifyReserved | .unmap _ | .setenv _ _ | .fdopen _ | .send _ _ | .writeFile _ _
  | .unlink _ => Bool
  | .map _ | .spawn _ => Option Nat
  | .readMarker _ => Marker
  | .pipe => Option (Nat × Nat)
  | .receive _ => Option (List UInt8)
  | .wait _ => Waited
  | .mkstemp => Option (List UInt8 × Nat)
  | .wipe _ | .unsetenv _ | .sleep | .close _ | .fclose _ | .kill _ | .print _ => Unit
  | .hang => Empty

abbrev System := Program Call Call.Answer

def verifyReserved : System Bool := Program.perform Call.verifyReserved

def map (bytes : Nat) : System (Option Nat) := Program.perform (Call.map bytes)

def unmap (region : Region) : System Bool := Program.perform (Call.unmap region)

def wipe (region : Region) : System Unit := Program.perform (Call.wipe region)

def setenv (guard : Guard) (value : List UInt8) : System Bool :=
  Program.perform (Call.setenv guard value)

def unsetenv (guard : Guard) : System Unit := Program.perform (Call.unsetenv guard)

def readMarker (path : List UInt8) : System Marker := Program.perform (Call.readMarker path)

def sleep : System Unit := Program.perform Call.sleep

def pipe : System (Option (Nat × Nat)) := Program.perform Call.pipe

def spawn (command : Command) : System (Option Nat) := Program.perform (Call.spawn command)

def close (fd : Nat) : System Unit := Program.perform (Call.close fd)

def fdopen (fd : Nat) : System Bool := Program.perform (Call.fdopen fd)

def fclose (fd : Nat) : System Unit := Program.perform (Call.fclose fd)

def send (fd : Nat) (request : List UInt8) : System Bool := Program.perform (Call.send fd request)

def receive (fd : Nat) : System (Option (List UInt8)) := Program.perform (Call.receive fd)

def kill (pid : Nat) : System Unit := Program.perform (Call.kill pid)

def wait (pid : Nat) : System Waited := Program.perform (Call.wait pid)

def print (text : List UInt8) : System Unit := Program.perform (Call.print text)

def mkstemp : System (Option (List UInt8 × Nat)) := Program.perform Call.mkstemp

def writeFile (path contents : List UInt8) : System Bool :=
  Program.perform (Call.writeFile path contents)

def unlink (path : List UInt8) : System Bool := Program.perform (Call.unlink path)

def hang {α : Type} : System α := .call .hang Empty.elim

/-! ### The guards -/

/-- Where the memory of a guard is, by the macros of the build. -/
inductive Placement
  | absent
  | mapped (bytes : Nat)
  /-- Memory that is set aside at boot. -/
  | reserved (region : Region)
  deriving DecidableEq, Repr

def Placement.isReserved : Placement → Bool
  | .reserved _ => true
  | _ => false

/-- The guards of a build, as its checks allow them, the width of a `long`, and
`DEFAULT_MODULE`. -/
structure Build where
  placement : Guard → Placement
  together : (placement .launch).isReserved = (placement .stream).isReserved
  apart : ∀ r s, placement .launch = .reserved r → placement .stream = .reserved s → r.Disjoint s
  bits : Nat
  defaultModule : List UInt8

/-- An address as `%lx` prints it behind `0x`. -/
def addressText (address : Nat) : List UInt8 :=
  ascii "0x" ++ if address = 0 then [0x30] else ((Nat.digits 16 address).map hexLower).reverse

/-- A guard is wiped or mapped, and published: its memory, and whether to go on. -/
def holdGuard (guard : Guard) : Placement → System (Option Region × Bool)
  | .absent => return (none, true)
  | .mapped bytes => do
    match ← map bytes with
    | none => return (none, false)
    | some address => return (some ⟨address, bytes⟩, ← setenv guard (addressText address))
  | .reserved region => do
    wipe region
    return (some region, ← setenv guard (addressText region.start))

/-- The launch guard is checked before it is touched. -/
def holdLaunch (placement : Placement) : System (Option Region × Bool) := do
  if placement.isReserved then
    if ← verifyReserved then holdGuard .launch placement
    else return (none, false)
  else holdGuard .launch placement

/-- The memory of a guard is given back: what is still held, and whether to go on. -/
def releaseGuard (guard : Guard) (placement : Placement) :
    Option Region → System (Option Region × Bool)
  | none => return (none, true)
  | some region => do
    wipe region
    if placement.isReserved then
      unsetenv guard
      return (none, true)
    else if ← unmap region then
      unsetenv guard
      return (none, true)
    else return (some region, false)

/-! ### The runtime -/

/-- `struct fx_process` of a process that runs. -/
structure Process where
  pid : Nat
  input : Option Nat
  output : Option Nat
  deriving DecidableEq, Repr

/-- What is done with a descriptor that may have a stream on it. -/
def closeEither (isStream : Bool) (fd : Nat) : System Unit := if isStream then fclose fd else close fd

/-- The streams of `start_fx`. -/
def openStreams (pid toWrite fromRead : Nat) : System (Option Process) := do
  let input ← fdopen toWrite
  let output ← fdopen fromRead
  if input && output then return some ⟨pid, some toWrite, some fromRead⟩
  else
    closeEither input toWrite
    closeEither output fromRead
    kill pid
    let _ ← wait pid
    return none

def startFx (runner module : List UInt8) : System (Option Process) := do
  match ← pipe with
  | none => return none
  | some (toRead, toWrite) =>
    match ← pipe with
    | none =>
      close toRead
      close toWrite
      return none
    | some (fromRead, fromWrite) =>
      match ← spawn ⟨[runner, module], some (toRead, fromWrite)⟩ with
      | none =>
        close toRead
        close toWrite
        close fromRead
        close fromWrite
        return none
      | some pid =>
        close toRead
        close fromWrite
        openStreams pid toWrite fromRead

def waitRound (pid : Nat) (_ : Unit) : System (Unit ⊕ Option Exit) := do
  match ← wait pid with
  | .interrupted => return .inl ()
  | .failed => return .inr none
  | .ended exit => return .inr (some exit)

/-- `waitpid` until it is not interrupted. -/
def waitFor (rounds : Nat) (pid : Nat) : System (Option Exit) := loop (waitRound pid) hang rounds ()

/-- `fclose` of a stream that may be null. -/
def closeStream : Option Nat → System Unit
  | none => return ()
  | some fd => fclose fd

def closeStreams (process : Process) : System Unit := do
  closeStream process.input
  closeStream process.output

/-- `finish_fx`: the process when it may still run, and whether it ended well. -/
def finishFx (rounds : Nat) (process : Process) : System (Option Process × Bool) := do
  closeStreams process
  match ← waitFor rounds process.pid with
  | none => return (some ⟨process.pid, none, none⟩, false)
  | some exit => return (none, decide (exit = .exited 0))

/-! ### The conversation -/

/-- What the supervisor reads of its environment. -/
structure Env where
  /-- `FX_WAMR_RUNNER`. -/
  runner : Option (List UInt8)
  /-- `FX_WASM_MODULE`. -/
  module : Option (List UInt8)
  /-- `EINKCTL`. -/
  einkctl : Option (List UInt8)
  /-- `FX_EXAMPLE_JAIL`. -/
  jail : Option (List UInt8)
  deriving DecidableEq, Repr

/-- The request with the tools of the example. -/
def initializeTools : List UInt8 :=
  ascii "\x7b\"jsonrpc\":\"2.0\",\"id\":1,\"method\":\"initialize\",\"params\":\x7b" ++
  ascii "\"protocolVersion\":1,\"clientCapabilities\":\x7b\"libfx\":\x7b" ++
  ascii "\"instructions\":\"Repair this tiny shell project using the tools. Read SPEC.md first. " ++
  ascii "Only battery.sh is writable. Always run tests before and after editing.\"," ++
  ascii "\"tools\":[" ++
  ascii "\x7b\"name\":\"read_project\"," ++
  ascii "\"description\":\"Read battery.sh, SPEC.md or test.sh in the project.\"," ++
  ascii "\"inputSchema\":\x7b\"type\":\"object\"," ++
  ascii "\"properties\":\x7b\"path\":\x7b\"type\":\"string\"\x7d\x7d," ++
  ascii "\"required\":[\"path\"],\"additionalProperties\":false\x7d\x7d," ++
  ascii "\x7b\"name\":\"replace_battery\"," ++
  ascii "\"description\":\"Replace battery.sh with ASCII POSIX shell source, maximum 4096 bytes.\"," ++
  ascii "\"inputSchema\":\x7b\"type\":\"object\"," ++
  ascii "\"properties\":\x7b\"path\":\x7b\"type\":\"string\"\x7d," ++
  ascii "\"content\":\x7b\"type\":\"string\"\x7d\x7d," ++
  ascii "\"required\":[\"path\",\"content\"],\"additionalProperties\":false\x7d\x7d," ++
  ascii "\x7b\"name\":\"run_tests\"," ++
  ascii "\"description\":\"Run the fixed project tests. Returns output and exit_code. No arguments.\"," ++
  ascii "\"inputSchema\":\x7b\"type\":\"object\",\"properties\":\x7b\x7d," ++
  ascii "\"additionalProperties\":false\x7d\x7d" ++
  ascii "]\x7d\x7d\x7d\x7d\n"

/-- What `send_initialize` sends. -/
def sendInitialize (env : Env) : List UInt8 :=
  if (env.jail.getD []).isEmpty then
    ascii "\x7b\"jsonrpc\":\"2.0\",\"id\":1,\"method\":\"initialize\"," ++
    ascii "\"params\":\x7b\"protocolVersion\":1,\"clientCapabilities\":\x7b\x7d\x7d\x7d\n"
  else initializeTools

/-- What `send_new_session` sends. -/
def sendNewSession : List UInt8 := ascii "\x7b\"jsonrpc\":\"2.0\",\"id\":2,\"method\":\"libfx/new\"\x7d\n"

/-- What `read_until_id` makes of a line: the response buffer goes on to the next line, or this is
the last one. -/
def judge (bits : Nat) (wantedId : Int) (raw : List UInt8) (response : Option TextBuffer) :
    Option TextBuffer ⊕ Option (List UInt8 × Option TextBuffer) :=
  if raw.length > maxProtocolLineBytes then .inr none
  else
    match readChunk raw response with
    | none => .inr none
    | some response =>
      match jsonIntegerValue bits raw (ascii "id") with
      | .invalid => .inr none
      | .absent => .inl response
      | .found id =>
        if id = wantedId then
          if (findJsonKey raw (ascii "error")).isSome then .inr none
          else .inr (some (raw, response))
        else .inl response

def readRound (bits : Nat) (output : Nat) (wantedId : Int) (response : Option TextBuffer) :
    System (Option TextBuffer ⊕ Option (List UInt8 × Option TextBuffer)) := do
  match ← receive output with
  | none => return .inr none
  | some raw => return judge bits wantedId raw response

/-- `read_until_id` on the stream: the line and the response buffer when it returns 0. -/
def readUntil (rounds bits : Nat) (output : Nat) (wantedId : Int) (response : Option TextBuffer) :
    System (Option (List UInt8 × Option TextBuffer)) :=
  loop (readRound bits output wantedId) hang rounds response

/-- A request and its response. -/
def ask (rounds bits input output : Nat) (request : List UInt8) (id : Int)
    (response : Option TextBuffer) : System (Option (List UInt8 × Option TextBuffer)) := do
  if ← send input request then readUntil rounds bits output id response
  else return none

/-- From `send_initialize` to the last `read_until_id`: the response. -/
def converse (rounds bits : Nat) (env : Env) (input output : Nat) (prompt : List UInt8) :
    System (Option TextBuffer) := do
  match ← ask rounds bits input output (sendInitialize env) 1 none with
  | none => return none
  | some _ =>
    match ← ask rounds bits input output sendNewSession 2 none with
    | none => return none
    | some (line, _) =>
      match jsonStringValue line (ascii "sessionId") with
      | .invalid | .absent => return none
      | .found sessionId =>
        if !sessionId.allocated then return none
        else
          match ← ask rounds bits input output (sendPrompt sessionId.data prompt) 3 (some .empty) with
          | some (_, some response) => return some response
          | _ => return none

/-! ### Arguments -/

/-- What `getopt_long` finds before the words of the prompt. -/
inductive Opt
  | render (path : List UInt8)
  | runner (path : List UInt8)
  | wasm (path : List UInt8)
  | einkctl (path : List UInt8)
  | title (text : List UInt8)
  | waitReady (path : List UInt8)
  | help
  | invalid
  deriving DecidableEq, Repr

structure Settings where
  runner : List UInt8
  module : List UInt8
  einkctl : List UInt8
  renderPath : Option (List UInt8)
  title : List UInt8
  readyPath : Option (List UInt8)
  deriving DecidableEq, Repr

def defaultRunner : List UInt8 := ascii "/usr/bin/fx-wamr"

def defaultEinkctl : List UInt8 := ascii "/usr/bin/einkctl"

/-- The value of a variable that is not empty. -/
def orDefault (value : Option (List UInt8)) (default : List UInt8) : List UInt8 :=
  if (value.getD []).isEmpty then default else value.getD []

def Settings.initial (build : Build) (env : Env) : Settings where
  runner := orDefault env.runner defaultRunner
  module := orDefault env.module build.defaultModule
  einkctl := orDefault env.einkctl defaultEinkctl
  renderPath := none
  title := ascii "fx | ESP32-S3 Linux"
  readyPath := none

/-- The loop over the options: the settings, or whether the usage was asked for. -/
def readOptions (s : Settings) : List Opt → Settings ⊕ Bool
  | [] => .inl s
  | .render path :: options => readOptions { s with renderPath := some path } options
  | .runner path :: options => readOptions { s with runner := path } options
  | .wasm path :: options => readOptions { s with module := path } options
  | .einkctl path :: options => readOptions { s with einkctl := path } options
  | .title text :: options => readOptions { s with title := text } options
  | .waitReady path :: options => readOptions { s with readyPath := some path } options
  | .help :: _ => .inr true
  | .invalid :: _ => .inr false

/-- What `usage` prints. -/
def usage (build : Build) : List UInt8 :=
  ascii "Usage: fx-eink [OPTIONS] PROMPT...\n\nOptions:\n" ++
  ascii "  --render FILE   render a PBM instead of refreshing the panel\n" ++
  ascii "  --runner FILE   fx WAMR runner (default: " ++ defaultRunner ++ ascii ")\n" ++
  ascii "  --wasm FILE     fx-core Wasm module (default: " ++ build.defaultModule ++ ascii ")\n" ++
  ascii "  --einkctl FILE  display renderer (default: " ++ defaultEinkctl ++ ascii ")\n" ++
  ascii "  --title TEXT    e-paper header text\n" ++
  ascii "  --wait-ready FILE\n" ++
  ascii "                  reserve guest memory, then wait up to 180s for FILE\n" ++
  ascii "  -h, --help      show this help\n"

/-- The first loop of `join_prompt`, behind `length` bytes, with a separator of 0 or 1 bytes. -/
def joinLength (length separator : Nat) : List (List UInt8) → Option Nat
  | [] => some length
  | part :: parts =>
    if separator > maxPromptBytes - length ∨ part.length > maxPromptBytes - length - separator then
      none
    else joinLength (length + (separator + part.length)) 1 parts

/-- The second loop of `join_prompt`. -/
def joinParts : List (List UInt8) → List UInt8
  | [] => []
  | part :: parts => part ++ parts.flatMap (0x20 :: ·)

def joinPrompt (words : List (List UInt8)) : Option (List UInt8) :=
  match joinLength 0 0 words with
  | none => none
  | some length => if length = 0 ∨ length > maxPromptBytes then none else some (joinParts words)

/-! ### Readiness -/

/-- What `readiness_marker_state` returns: 0, 1 or -1. -/
inductive Readiness
  | waiting
  | ready
  | rejected
  deriving DecidableEq, Repr

def readinessMarkerState : Marker → Readiness
  | .missing => .waiting
  | .refused => .rejected
  | .contents bytes => if bytes = ascii "ready\n" then .ready else .rejected

/-- The loop over the marker, with `waits` seconds to go. -/
def pollReady (path : List UInt8) : Nat → System Readiness
  | 0 => do
    let marker ← readMarker path
    return readinessMarkerState marker
  | waits + 1 => do
    let marker ← readMarker path
    match readinessMarkerState marker with
    | .waiting =>
      sleep
      pollReady path waits
    | state => return state

/-- Whether the runtime may be started. -/
def awaitReady : Option (List UInt8) → System Bool
  | none => return true
  | some path => do
    if ¬ascii "/tmp/" <+: path ∨ path.length > 255 then return false
    else
      let state ← pollReady path 180
      return decide (state = .ready)

/-! ### The answer -/

/-- The arguments of the renderer. -/
def rendererArgv (settings : Settings) (transcript : List UInt8) : List (List UInt8) :=
  match settings.renderPath with
  | some path =>
    [settings.einkctl, ascii "render", ascii "--output", path, ascii "--title", settings.title,
      transcript]
  | none => [settings.einkctl, ascii "display", ascii "--title", settings.title, transcript]

def runRenderer (rounds : Nat) (settings : Settings) (transcript : List UInt8) : System Bool := do
  match ← spawn ⟨rendererArgv settings transcript, none⟩ with
  | none => return false
  | some pid =>
    let exit ← waitFor rounds pid
    return decide (exit = some (.exited 0))

/-- From the transcript on. -/
def renderAnswer (rounds : Nat) (settings : Settings) (transcript prompt : List UInt8)
    (response : TextBuffer) : System Bool := do
  if ← writeFile transcript (writeTranscript prompt response) then
    runRenderer rounds settings transcript
  else return false

/-- The end of `main` before its cleanup: the transcript when it was created. -/
def present (rounds : Nat) (settings : Settings) (prompt : List UInt8) (response : TextBuffer) :
    System (Option (List UInt8) × Bool) := do
  if !response.allocated || response.data.isEmpty then return (none, false)
  else
    print (cString response.data ++ ascii "\n")
    match ← mkstemp with
    | none => return (none, false)
    | some (transcript, fd) =>
      close fd
      return (some transcript, ← renderAnswer rounds settings transcript prompt response)

/-! ### `main` -/

/-- What the cleanup finds. -/
structure Held where
  guards : Guard → Option Region
  process : Option Process
  transcript : Option (List UInt8)

/-- The memory of both guards. -/
def both (launch stream : Option Region) : Guard → Option Region
  | .launch => launch
  | .stream => stream

/-- How the supervisor is called. -/
structure Invocation where
  env : Env
  options : List Opt
  words : List (List UInt8)

variable (rounds : Nat) (build : Build)

/-- Once the runtime has ended well. -/
def deliver (settings : Settings) (prompt : List UInt8) (response : TextBuffer)
    (launch stream : Option Region) : System (Held × Bool) := do
  let (launch, ok) ← releaseGuard .launch (build.placement .launch) launch
  if !ok then return (⟨both launch stream, none, none⟩, false)
  else
    let (stream, ok) ← releaseGuard .stream (build.placement .stream) stream
    if !ok then return (⟨both launch stream, none, none⟩, false)
    else
      let (transcript, ok) ← present rounds settings prompt response
      return (⟨both launch stream, none, transcript⟩, ok)

/-- The runtime's life. -/
def session (env : Env) (settings : Settings) (prompt : List UInt8) (launch stream : Option Region) :
    System (Held × Bool) := do
  match ← startFx settings.runner settings.module with
  | some ⟨pid, some input, some output⟩ =>
    match ← converse rounds build.bits env input output prompt with
    | none => return (⟨both launch stream, some ⟨pid, some input, some output⟩, none⟩, false)
    | some response =>
      match ← finishFx rounds ⟨pid, some input, some output⟩ with
      | (process, false) => return (⟨both launch stream, process, none⟩, false)
      | (_, true) => deliver rounds build settings prompt response launch stream
  | _ => return (⟨both launch stream, none, none⟩, false)

/-- From the options on, with the guards held. -/
def serve (inv : Invocation) (launch stream : Option Region) : System (Held × Bool) :=
  match readOptions (.initial build inv.env) inv.options with
  | .inr help => do
    if help then print (usage build)
    return (⟨both launch stream, none, none⟩, help)
  | .inl settings =>
    match joinPrompt inv.words with
    | none => return (⟨both launch stream, none, none⟩, false)
    | some prompt => do
      if ← awaitReady settings.readyPath then
        session rounds build inv.env settings prompt launch stream
      else return (⟨both launch stream, none, none⟩, false)

/-- `main` up to its cleanup. -/
def attempt (inv : Invocation) : System (Held × Bool) := do
  let (launch, ok) ← holdLaunch (build.placement .launch)
  if !ok then return (⟨both launch none, none, none⟩, false)
  else
    let (stream, ok) ← holdGuard .stream (build.placement .stream)
    if !ok then return (⟨both launch stream, none, none⟩, false)
    else serve rounds build inv launch stream

/-- A process that may still run is stopped. -/
def stopProcess : Option Process → System Unit
  | none => return ()
  | some process => do
    closeStreams process
    kill process.pid
    let _ ← wait process.pid
    return ()

/-- A guard that is still held is given back. -/
def dropGuard (placement : Placement) : Option Region → System Unit
  | none => return ()
  | some region => do
    wipe region
    if placement.isReserved then return ()
    else
      let _ ← unmap region
      return ()

/-- `unlink` of a transcript that was created. -/
def removeTranscript : Option (List UInt8) → System Unit
  | none => return ()
  | some transcript => do
    let _ ← unlink transcript
    return ()

def cleanup (held : Held) : System Unit := do
  stopProcess held.process
  dropGuard (build.placement .launch) (held.guards .launch)
  dropGuard (build.placement .stream) (held.guards .stream)
  removeTranscript held.transcript

/-- `main`: whether it returns `EXIT_SUCCESS`. -/
def supervise (inv : Invocation) : System Bool := do
  let (held, result) ← attempt rounds build inv
  cleanup build held
  return result

/-! ### The world -/

inductive Handle
  | descriptor
  /-- A descriptor with a stream on it. -/
  | stream
  deriving DecidableEq, Repr

/-- What has passed between the supervisor and the runtime; a request is torn when its sending
failed. -/
inductive Event
  | sent (request : List UInt8)
  | torn (request : List UInt8)
  | received (line : List UInt8)
  deriving DecidableEq, Repr

/-- A process: its arguments, the variables of the guards that it got, and what was in the file that
its last argument names. -/
structure Child where
  argv : List (List UInt8)
  lent : Guard → Option (List UInt8)
  input : Option (List UInt8)

/-- The process may use the memory at an address. -/
def Child.Borrows (child : Child) (address : Nat) : Prop :=
  ∃ guard, child.lent guard = some (addressText address)

structure World where
  env : Guard → Option (List UInt8)
  /-- The sizes of the mappings. -/
  maps : Nat → Option Nat
  handles : Nat → Option Handle
  children : Nat → Option Child
  files : List UInt8 → Option (List UInt8)
  /-- Where a process may have written since the memory was last wiped. -/
  dirty : Nat → Prop
  exchanged : List Event
  /-- The runtime's output has ended. -/
  ended : Bool
  printed : List UInt8
  marker : Option Marker
  sleeps : Nat
  /-- The processes that have been waited for. -/
  reaped : List (Child × Exit)
  /-- The calls that were to give something back and have failed. -/
  failures : List Call

/-- A process that has been lent the memory at an address runs. -/
def World.Lent (s : World) (address : Nat) : Prop :=
  ∃ pid child, s.children pid = some child ∧ child.Borrows address

/-- What the calls can answer. -/
def host : Environment Call Call.Answer World := fun s c x t =>
  match c, x with
  | .verifyReserved, _ => t = s
  | .map _, none => t = s
  | .map bytes, some address =>
    s.maps address = none ∧
    (∀ start size, s.maps start = some size → Region.Disjoint ⟨start, size⟩ ⟨address, bytes⟩) ∧
    t = { s with
      maps := Function.update s.maps address (some bytes)
      dirty := Function.update s.dirty address False }
  | .unmap region, true => t = { s with maps := Function.update s.maps region.start none }
  | .unmap region, false => t = { s with failures := s.failures ++ [.unmap region] }
  | .wipe region, _ =>
    t = { s with dirty := Function.update s.dirty region.start (s.Lent region.start) }
  | .setenv guard value, true => t = { s with env := Function.update s.env guard (some value) }
  | .setenv _ _, false => t = s
  | .unsetenv guard, _ => t = { s with env := Function.update s.env guard none }
  | .readMarker _, marker => t = { s with marker := some marker }
  | .sleep, _ => t = { s with sleeps := s.sleeps + 1 }
  | .pipe, none => t = s
  | .pipe, some (read, write) =>
    s.handles read = none ∧ s.handles write = none ∧ read ≠ write ∧ t = { s with
      handles := Function.update (Function.update s.handles read (some .descriptor)) write
        (some .descriptor) }
  | .spawn _, none => t = s
  | .spawn command, some pid =>
    let child := ⟨command.argv, s.env, s.files (command.argv.getLastD [])⟩
    s.children pid = none ∧ t = { s with
      children := Function.update s.children pid (some child)
      dirty := fun address => s.dirty address ∨ child.Borrows address }
  | .close fd, _ | .fclose fd, _ => t = { s with handles := Function.update s.handles fd none }
  | .fdopen _, false => t = s
  | .fdopen fd, true => t = { s with handles := Function.update s.handles fd (some .stream) }
  | .send _ request, true => t = { s with exchanged := s.exchanged ++ [.sent request] }
  | .send _ request, false => t = { s with exchanged := s.exchanged ++ [.torn request] }
  | .receive _, none => t = s
  | .receive _, some line =>
    s.ended = false ∧ line ≠ [] ∧ 0x0a ∉ line.dropLast ∧ t = { s with
      exchanged := s.exchanged ++ [.received line]
      ended := decide (line.getLast? ≠ some 0x0a) }
  | .kill _, _ => t = s
  | .wait pid, .ended exit =>
    ∃ child, s.children pid = some child ∧ t = { s with
      children := Function.update s.children pid none
      reaped := s.reaped ++ [(child, exit)] }
  | .wait pid, _ => t = { s with failures := s.failures ++ [.wait pid] }
  | .print text, _ => t = { s with printed := s.printed ++ text }
  | .mkstemp, none => t = s
  | .mkstemp, some (path, fd) =>
    s.files path = none ∧ s.handles fd = none ∧ t = { s with
      files := Function.update s.files path (some [])
      handles := Function.update s.handles fd (some .descriptor) }
  | .writeFile path contents, true =>
    t = { s with files := Function.update s.files path (some contents) }
  | .writeFile path _, false =>
    ∃ contents, t = { s with files := Function.update s.files path (some contents) }
  | .unlink path, true => t = { s with files := Function.update s.files path none }
  | .unlink path, false => t = { s with failures := s.failures ++ [.unlink path] }
  | .hang, x => x.elim

end Esp32Fx.Eink.Supervisor
