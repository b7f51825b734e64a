import Esp32Fx.Lib.Holdings
import Esp32Fx.Lib.Loop
import Esp32Fx.Lib.Splice
import Esp32Fx.Runner.FlashModule

/-! The module that the runner gives to the runtime: `load_module_bytes` and `unload_module_bytes` of
`runtime/fx_wamr_runner.c`, and where `main` uses them.  Messages are left out.

The world has the files, which do not change while they are read, the open descriptors with their
positions, the blocks of `malloc`, the mappings of files, the image that the runtime has been given
and what it has said of it. -/

namespace Esp32Fx.Runner.ModuleFile

open Lib Program

/-! ### Calls -/

inductive ReadReply
  /-- `EINTR`. -/
  | interrupted
  | failed
  | returns (bytes : List UInt8)
  deriving DecidableEq, Repr

/-- What a `read` fills: the `header` of `load_module_bytes`, or a block. -/
inductive Target
  | header
  | block (address : Nat)
  deriving DecidableEq, Repr

inductive Call
  | openFile (path : List UInt8)
  /-- `fstat`, for `st_size`. -/
  | fstat (fd : Nat)
  | read (fd : Nat) (target : Target) (offset size : Nat)
  /-- `lseek` to the start. -/
  | rewind (fd : Nat)
  | close (fd : Nat)
  | map (fd size : Nat)
  | unmap (address size : Nat)
  /-- `wasm_runtime_is_xip_file`. -/
  | isXipFile (address size : Nat)
  | malloc (size : Nat)
  | free (address : Nat)
  /-- From `init_native_lib` to `wasm_runtime_full_init`. -/
  | startRuntime
  /-- `wasm_runtime_load_ex`, which may work in a block that it is given. -/
  | load (module : ModuleBytes)
  /-- `wasm_runtime_is_underlying_binary_freeable`. -/
  | isFreeable
  /-- From the instance to the end of the runtime, which gives up the image. -/
  | run
  /-- A call that does not return. -/
  | hang
  deriving DecidableEq

def Call.Answer : Call → Type
  | .openFile _ | .fstat _ | .map _ _ | .malloc _ => Option Nat
  | .read _ _ _ _ => ReadReply
  | .rewind _ | .unmap _ _ | .isXipFile _ _ | .startRuntime | .load _ | .isFreeable => Bool
  | .close _ | .free _ | .run => Unit
  | .hang => Empty

abbrev Loader := Program Call Call.Answer

def openFile (path : List UInt8) : Loader (Option Nat) := Program.perform (Call.openFile path)

def fstat (fd : Nat) : Loader (Option Nat) := Program.perform (Call.fstat fd)

def read (fd : Nat) (target : Target) (offset size : Nat) : Loader ReadReply :=
  Program.perform (Call.read fd target offset size)

def rewind (fd : Nat) : Loader Bool := Program.perform (Call.rewind fd)

def close (fd : Nat) : Loader Unit := Program.perform (Call.close fd)

def map (fd size : Nat) : Loader (Option Nat) := Program.perform (Call.map fd size)

def unmap (address size : Nat) : Loader Bool := Program.perform (Call.unmap address size)

def isXipFile (address size : Nat) : Loader Bool := Program.perform (Call.isXipFile address size)

def malloc (size : Nat) : Loader (Option Nat) := Program.perform (Call.malloc size)

def free (address : Nat) : Loader Unit := Program.perform (Call.free address)

def startRuntime : Loader Bool := Program.perform Call.startRuntime

def load (module : ModuleBytes) : Loader Bool := Program.perform (Call.load module)

def isFreeable : Loader Bool := Program.perform Call.isFreeable

def run : Loader Unit := Program.perform Call.run

def hang {α : Type} : Loader α := .call .hang Empty.elim

/-! ### The loader -/

def isAotHeader (header : List UInt8) : Bool := header == [0x00, 0x61, 0x6f, 0x74]

/-- A round of `read_all`, with what has been read. -/
def readRound (fd : Nat) (target : Target) (size : Nat) (got : List UInt8) :
    Loader (List UInt8 ⊕ Option (List UInt8)) :=
  if size ≤ got.length then return .inr (some got)
  else do
    match ← read fd target got.length (size - got.length) with
    | .interrupted => return .inl got
    | .failed => return .inr none
    | .returns bytes => if bytes.isEmpty then return .inr none else return .inl (got ++ bytes)

/-- `read_all`: the bytes when it returns 0. -/
def readAll (rounds fd : Nat) (target : Target) (size : Nat) : Loader (Option (List UInt8)) :=
  loop (readRound fd target size) hang rounds []

/-- The flash when the build has `FX_WAMR_FLASH_MODULE_ADDRESS`, whether it is without
`FX_WAMR_NO_AOT`, and whether `FX_WAMR_READONLY_MODULE` is set. -/
structure Build where
  flash : Option Memory
  aot : Bool
  readonly : Bool

def failed (fd : Nat) : Loader (Bool × ModuleBytes) := do
  close fd
  return (false, .zero)

/-- From the read-only mapping on. -/
def loadRaw (rounds : Nat) (build : Build) (fd size : Nat) : Loader (Bool × ModuleBytes) := do
  if build.readonly then
    match ← map fd size with
    | none => failed fd
    | some address =>
      close fd
      return (true, ⟨address, UInt32.ofNat size, true, false, true, true⟩)
  else
    match ← malloc size with
    | none => failed fd
    | some address =>
      match ← readAll rounds fd (.block address) size with
      | none =>
        free address
        failed fd
      | some _ =>
        close fd
        return (true, ⟨address, UInt32.ofNat size, false, true, false, false⟩)

/-- Behind the header. -/
def loadOpened (rounds : Nat) (build : Build) (fd size : Nat) (header : List UInt8) :
    Loader (Bool × ModuleBytes) := do
  if isAotHeader header && build.aot then
    match ← map fd size with
    | none => loadRaw rounds build fd size
    | some address =>
      if ← isXipFile address size then
        close fd
        return (true, ⟨address, UInt32.ofNat size, true, false, true, false⟩)
      else
        let _ ← unmap address size
        loadRaw rounds build fd size
  else loadRaw rounds build fd size

/-- From `open` on. -/
def loadFile (rounds : Nat) (build : Build) (path : List UInt8) : Loader (Bool × ModuleBytes) := do
  match ← openFile path with
  | none => return (false, .zero)
  | some fd =>
    match ← fstat fd with
    | none => failed fd
    | some size =>
      if size = 0 ∨ size ≥ 2 ^ 32 then failed fd
      else
        match ← readAll rounds fd .header 4 with
        | none => failed fd
        | some header =>
          if ← rewind fd then loadOpened rounds build fd size header else failed fd

/-- `load_builtin_flash_module`, where the build has it. -/
def loadFlash (build : Build) (path : List UInt8) : Int × ModuleBytes :=
  match build.flash with
  | none => (1, .zero)
  | some memory => loadBuiltinFlashModule memory path .zero

/-- `load_module_bytes`: whether it returns 0, and the module. -/
def loadModuleBytes (rounds : Nat) (build : Build) (path : List UInt8) :
    Loader (Bool × ModuleBytes) :=
  if (loadFlash build path).1 ≤ 0 then
    return ((loadFlash build path).1 == 0, (loadFlash build path).2)
  else loadFile rounds build path

/-- `unload_module_bytes`. -/
def unloadModuleBytes (module : ModuleBytes) : Loader ModuleBytes := do
  if module.mapped then
    let _ ← unmap module.data module.size.toNat
    return .zero
  else if module.owned then
    free module.data
    return .zero
  else return .zero

/-- What `main` does with the module once the runtime has loaded it: a source image that the runtime
has cloned is released. -/
def releaseImage (module : ModuleBytes) : Loader ModuleBytes := do
  if module.raw || module.xip then return module
  else if ← isFreeable then unloadModuleBytes module
  else return module

/-- `main` as far as it has to do with the module, and whether the runtime has loaded it. -/
def runModule (rounds : Nat) (build : Build) (path : List UInt8) : Loader Bool := do
  let (ok, module) ← loadModuleBytes rounds build path
  if !ok then
    let _ ← unloadModuleBytes module
    return false
  else if ← startRuntime then
    if ← load module then
      let module ← releaseImage module
      run
      let _ ← unloadModuleBytes module
      return true
    else
      let _ ← unloadModuleBytes module
      return false
  else
    let _ ← unloadModuleBytes module
    return false

/-! ### The world -/

structure World where
  files : List UInt8 → Option (List UInt8)
  /-- The contents of an open file, and the position in it. -/
  handles : Nat → Option (List UInt8 × Nat)
  blocks : Nat → Option (List UInt8)
  maps : Nat → Option (List UInt8)
  /-- The image that the runtime has loaded, until its end. -/
  loaded : Option ModuleBytes
  /-- What the runtime has said to `wasm_runtime_is_underlying_binary_freeable`. -/
  freeable : Option Bool
  /-- The calls of `munmap` that have failed. -/
  failures : List Call

/-- The blocks once bytes have been read to `target`. -/
def stored (blocks : Nat → Option (List UInt8)) (target : Target) (offset : Nat)
    (bytes : List UInt8) : Nat → Option (List UInt8) :=
  match target with
  | .header => blocks
  | .block address =>
    Function.update blocks address ((blocks address).map fun block => splice block offset bytes)

/-- The runtime may have worked in the block that it was given, and only there. -/
def Worked (module : ModuleBytes) (blocks blocks' : Nat → Option (List UInt8)) : Prop :=
  if module.owned then ∃ block, blocks' = Function.update blocks module.data (some block)
  else blocks' = blocks

/-- What the calls can answer. -/
def host : Environment Call Call.Answer World := fun s c x t =>
  match c, x with
  | .openFile _, none => t = s
  | .openFile path, some fd => ∃ contents, s.files path = some contents ∧ s.handles fd = none ∧
    t = { s with handles := Function.update s.handles fd (some (contents, 0)) }
  | .fstat _, none => t = s
  | .fstat fd, some size => t = s ∧ ∃ contents position,
    s.handles fd = some (contents, position) ∧ size = contents.length
  | .read _ _ _ _, .interrupted | .read _ _ _ _, .failed => t = s
  | .read fd target offset size, .returns bytes => ∃ contents position,
    s.handles fd = some (contents, position) ∧ bytes.length ≤ size ∧
    bytes <+: contents.drop position ∧ (bytes = [] → size = 0 ∨ contents.length ≤ position) ∧
    t = { s with
      handles := Function.update s.handles fd (some (contents, position + bytes.length))
      blocks := stored s.blocks target offset bytes }
  | .rewind _, false => t = s
  | .rewind fd, true => ∃ contents position, s.handles fd = some (contents, position) ∧
    t = { s with handles := Function.update s.handles fd (some (contents, 0)) }
  | .close fd, _ => t = { s with handles := Function.update s.handles fd none }
  | .map _ _, none => t = s
  | .map fd size, some address => ∃ contents position, s.handles fd = some (contents, position) ∧
    s.maps address = none ∧
    t = { s with maps := Function.update s.maps address (some (contents.take size)) }
  | .unmap address _, true => t = { s with maps := Function.update s.maps address none }
  | .unmap address size, false => t = { s with failures := s.failures ++ [.unmap address size] }
  | .isXipFile _ _, _ | .startRuntime, _ => t = s
  | .malloc _, none => t = s
  | .malloc size, some address => s.blocks address = none ∧ ∃ block : List UInt8,
    block.length = size ∧ t = { s with blocks := Function.update s.blocks address (some block) }
  | .free address, _ => t = { s with blocks := Function.update s.blocks address none }
  | .load module, true => ∃ blocks, Worked module s.blocks blocks ∧
    t = { s with blocks := blocks, loaded := some module }
  | .load module, false => ∃ blocks, Worked module s.blocks blocks ∧ t = { s with blocks := blocks }
  | .isFreeable, answer => t = { s with freeable := some answer }
  | .run, _ => t = { s with loaded := none }
  | .hang, x => x.elim

/-! ### Proper calls -/

/-- `munmap` has refused to take the mapping. -/
def Refused (s : World) (address : Nat) : Prop := ∃ size, Call.unmap address size ∈ s.failures

/-- From `w` on: the image of the runtime, and the descriptors, the blocks and the mappings that the
runner has, with those of `lost` that could not be unmapped. -/
structure Amid (w : World) (image : Option ModuleBytes) (fds blocks maps lost : List Nat)
    (s : World) : Prop where
  files : s.files = w.files
  loaded : s.loaded = image
  handles : Holds fds w.handles s.handles
  blocks : Holds blocks w.blocks s.blocks
  maps : Holds (maps ++ lost) w.maps s.maps
  lost : ∀ address ∈ lost, Refused s address

/-- The contents of a file as a module in a mapping, executable in place or raw. -/
structure Mapped (w : World) (build : Build) (contents : List UInt8) (module : ModuleBytes)
    (s : World) : Prop where
  flags : module.mapped = true ∧ module.owned = false ∧ module.xip = true
  aot : module.raw = false → build.aot = true ∧ isAotHeader (contents.take 4) = true
  raw : module.raw = true → build.readonly = true
  here : s.maps module.data = some contents
  fresh : w.maps module.data = none

/-- The contents of a file as a module in a block. -/
structure Owned (w : World) (contents : List UInt8) (module : ModuleBytes) (s : World) : Prop where
  flags : module.mapped = false ∧ module.owned = true ∧ module.xip = false ∧ module.raw = false
  here : s.blocks module.data = some contents
  fresh : w.blocks module.data = none

/-- What the runtime is given: the module in the flash, or the whole of the file. -/
inductive Given (w : World) (build : Build) (path : List UInt8) (module : ModuleBytes) (s : World) :
    Prop
  | flash (hFlash : loadFlash build path = (0, module))
  | file (contents : List UInt8) (hFile : w.files path = some contents)
    (hPos : contents ≠ []) (hSize : module.size.toNat = contents.length)
    (hHeld : Mapped w build contents module s ∨ Owned w contents module s)

/-- The runtime has cloned an image: it has said so, and neither executes nor interprets the
image in place. -/
structure Cloned (image : ModuleBytes) (s : World) : Prop where
  answer : s.freeable = some true
  raw : image.raw = false
  xip : image.xip = false

/-- An image is there: the whole of the file in a mapping, or the block. -/
structure Kept (w : World) (path : List UInt8) (image : ModuleBytes) (s : World) : Prop where
  mapped : image.mapped = true → w.maps image.data = none ∧
    ∃ contents, w.files path = some contents ∧ s.maps image.data = some contents
  owned : image.mapped = false → image.owned = true →
    w.blocks image.data = none ∧ s.blocks image.data ≠ none

/-- What is at an address may go: the runtime does not have it as its image, or has cloned it. -/
def Released (s : World) (address : Nat) : Prop :=
  ∀ image, s.loaded = some image → image.data = address → Cloned image s

/-- A descriptor that the runner has opened. -/
def Opened (w s : World) (fd : Nat) : Prop := s.handles fd ≠ none ∧ w.handles fd = none

/-- A mapping that the runner has made, with its size. -/
def MapsFile (w s : World) (address size : Nat) : Prop :=
  (∃ contents, s.maps address = some contents ∧ contents.length = size) ∧ w.maps address = none

/-- How the calls treat what the runner has. -/
def Proper (w : World) (build : Build) (path : List UInt8) : Call → World → Prop
  | .fstat fd, s | .rewind fd, s | .close fd, s | .map fd _, s => Opened w s fd
  | .read fd .header offset size, s => Opened w s fd ∧ offset + size ≤ 4
  | .read fd (.block address) offset size, s => Opened w s fd ∧ w.blocks address = none ∧
    ∃ block, s.blocks address = some block ∧ offset + size ≤ block.length
  | .isXipFile address size, s => MapsFile w s address size
  | .unmap address size, s => MapsFile w s address size ∧ Released s address
  | .free address, s => s.blocks address ≠ none ∧ w.blocks address = none ∧ Released s address
  | .load module, s => Given w build path module s ∧ s.handles = w.handles
  | .run, s => (∃ image, s.loaded = some image ∧ (Kept w path image s ∨ Cloned image s)) ∧
    s.handles = w.handles
  | _, _ => True

abbrev LoaderKeeps {α : Type} (w : World) (build : Build) (path : List UInt8)
    (Q : α → World → Prop) (p : Loader α) (s : World) : Prop :=
  p.Keeps host (wholeCalls host) (fun _ => True) (Proper w build path) Q s

end Esp32Fx.Runner.ModuleFile
