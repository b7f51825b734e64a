import Mathlib.Data.List.DropRight
import Esp32Fx.Einkctl.Framebuffer
import Esp32Fx.Lib.CString
import Esp32Fx.Lib.Loop

/-! The panel driver of `einkctl.c`, as programs over the system calls that it makes.  A function
that retries or repeats takes the number of rounds that its loops may go.

The bench is what the calls work on: the open files of the process, the GPIO lines that are exported,
the level of the line that tells data from commands, and the log of what the panel can see. -/

namespace Esp32Fx.Einkctl

open Lib Program

/-! ### Calls -/

inductive Errno
  | interrupted
  | busy
  | other
  deriving DecidableEq, Repr

/-- The files that the panel is driven through. -/
inductive DeviceFile
  /-- `/sys/class/gpio`. -/
  | directory
  /-- `/sys/class/gpio/<entry>/label`. -/
  | label (entry : List UInt8)
  /-- `/sys/class/gpio/<entry>/base`. -/
  | base (entry : List UInt8)
  /-- `/sys/class/gpio/export`. -/
  | exportLine
  /-- `/sys/class/gpio/unexport`. -/
  | unexportLine
  /-- `/sys/class/gpio/gpio<number>/direction`. -/
  | direction (number : Nat)
  /-- `/sys/class/gpio/gpio<number>/value`. -/
  | value (number : Nat)
  /-- The SPI device. -/
  | spi (path : List UInt8)
  deriving DecidableEq

/-- The settings of the SPI device. -/
inductive Setting
  | mode (mode : Nat)
  | bitsPerWord (bits : Nat)
  | maxSpeedHz (speedHz : Nat)
  deriving DecidableEq, Repr

inductive Call
  | openFile (file : DeviceFile)
  | closeFile (fd : Nat)
  | seekStart (fd : Nat)
  | writeBytes (fd : Nat) (bytes : List UInt8)
  | readBytes (fd count : Nat)
  | writable (file : DeviceFile)
  | configure (fd : Nat) (setting : Setting)
  | sleep (milliseconds : Nat)
  /-- `opendir`; a stream is its descriptor. -/
  | openDirectory
  | nextEntry (fd : Nat)
  | closeDirectory (fd : Nat)
  /-- A loop that goes on. -/
  | spin

def Call.Answer : Call → Type
  | .openFile _ => Except Errno Nat
  | .closeFile _ => Option Errno
  | .seekStart _ => Bool
  | .writeBytes _ _ => Except Errno Nat
  | .readBytes _ _ => Except Errno (List UInt8)
  | .writable _ => Bool
  | .configure _ _ => Bool
  | .sleep _ => Unit
  | .openDirectory => Option Nat
  | .nextEntry _ => Option (List UInt8)
  | .closeDirectory _ => Unit
  | .spin => Empty

abbrev Driver := Program Call Call.Answer

def openFile (file : DeviceFile) : Driver (Except Errno Nat) := Program.perform (Call.openFile file)

def closeFile (fd : Nat) : Driver (Option Errno) := Program.perform (Call.closeFile fd)

def seekStart (fd : Nat) : Driver Bool := Program.perform (Call.seekStart fd)

def writeBytes (fd : Nat) (bytes : List UInt8) : Driver (Except Errno Nat) :=
  Program.perform (Call.writeBytes fd bytes)

def readBytes (fd count : Nat) : Driver (Except Errno (List UInt8)) :=
  Program.perform (Call.readBytes fd count)

def writable (file : DeviceFile) : Driver Bool := Program.perform (Call.writable file)

def configure (fd : Nat) (setting : Setting) : Driver Bool :=
  Program.perform (Call.configure fd setting)

/-- `sleep_ms`: the sleep is taken up again when it is interrupted. -/
def sleepMs (milliseconds : Nat) : Driver Unit := Program.perform (Call.sleep milliseconds)

def openDirectory : Driver (Option Nat) := Program.perform Call.openDirectory

def nextEntry (fd : Nat) : Driver (Option (List UInt8)) := Program.perform (Call.nextEntry fd)

def closeDirectory (fd : Nat) : Driver Unit := Program.perform (Call.closeDirectory fd)

def spin {α : Type} : Driver α := .call .spin Empty.elim

/-! ### Files -/

/-- `write_all`: none when all has been written, else `errno`. -/
def writeAll (rounds fd : Nat) (bytes : List UInt8) : Driver (Option Errno) :=
  loop (fun bytes =>
    if bytes = [] then pure (.inr none)
    else do
      match ← writeBytes fd bytes with
      | .error .interrupted => pure (.inl bytes)
      | .error errno => pure (.inr (some errno))
      | .ok 0 => pure (.inr (some .other))
      | .ok (count + 1) => pure (.inl (bytes.drop (count + 1)))) spin rounds bytes

/-- The text of a file without the line ends behind it. -/
def chomp (text : List UInt8) : List UInt8 :=
  text.rdropWhile fun byte => byte = 0x0a ∨ byte = 0x0d

def readSmallFile (file : DeviceFile) (capacity : Nat) : Driver (Option (List UInt8)) := do
  match ← openFile file with
  | .error _ => return none
  | .ok fd =>
    let amount ← readBytes fd (capacity - 1)
    let _ ← closeFile fd
    match amount with
    | .error _ => return none
    | .ok text => return some (chomp text)

/-- What `find_gpio_base` takes a text for. -/
def parseBase (text : List UInt8) : Option Nat :=
  let parsed := strtoulDecimal 32 (cString text)
  if parsed.erange ∨ peek parsed.rest ≠ 0 then none else some parsed.value.toNat

def gpioLabel : List UInt8 := ascii "esp32s3-gpio"

/-- `strncmp(name, "gpiochip", 8) == 0`, and the paths of the entry fit their buffer. -/
def isChip (name : List UInt8) : Bool :=
  (ascii "gpiochip").isPrefixOf name && (ascii "/sys/class/gpio/").length + name.length + 6 < 256

/-- One entry of the directory: the base of the controller, if the entry is the controller. -/
def chipBase (name : List UInt8) : Driver (Option Nat) := do
  if !isChip name then return none
  match ← readSmallFile (.label name) 96 with
  | none => return none
  | some label =>
    if !strEq label gpioLabel then return none
    match ← readSmallFile (.base name) 32 with
    | none => return none
    | some base => return parseBase base

def findGpioBase (rounds : Nat) : Driver (Option Nat) := do
  match ← openDirectory with
  | none => return none
  | some directory =>
    let result ← loop (fun (_ : Unit) => do
      match ← nextEntry directory with
      | none => pure (.inr none)
      | some name =>
        match ← chipBase name with
        | none => pure (.inl ())
        | some base => pure (.inr (some base))) spin rounds ()
    closeDirectory directory
    return result

/-- `sysfs_write_text`: none on success, else `errno`. -/
def sysfsWriteText (rounds : Nat) (file : DeviceFile) (text : List UInt8) :
    Driver (Option Errno) := do
  match ← openFile file with
  | .error errno => return some errno
  | .ok fd =>
    match ← writeAll rounds fd text with
    | some errno =>
      let _ ← closeFile fd
      return some errno
    | none => closeFile fd

/-! ### Lines -/

structure Line where
  number : Nat
  valueFd : Option Nat
  exportedHere : Bool
  deriving DecidableEq, Repr

def pinDc : Nat := 11
def pinReset : Nat := 12
def pinBusy : Nat := 13

def lineNumber (base offset : Nat) : Nat := (base + offset) % 2 ^ 32

/-- The text of a line's number. -/
def numberText (number : Nat) : List UInt8 := ascii (toString number)

def directionText (output initial : Bool) : List UInt8 :=
  if output then (if initial then ascii "high" else ascii "low") else ascii "in"

/-- The wait for a line to appear, by at most 100 tries. -/
def waitWritable (rounds : Nat) (file : DeviceFile) : Driver Bool :=
  loop (fun attempt =>
    if attempt = 100 then pure (.inr false)
    else do
      if ← writable file then pure (.inr true)
      else
        sleepMs 10
        pure (.inl (attempt + 1))) spin rounds 0

/-- From the wait for a line on. -/
def configureLine (rounds : Nat) (line : Line) (output initial : Bool) : Driver (Bool × Line) := do
  if !(← waitWritable rounds (.direction line.number)) then return (false, line)
  match ← sysfsWriteText rounds (.direction line.number) (directionText output initial) with
  | some _ => return (false, line)
  | none =>
    match ← openFile (.value line.number) with
    | .error _ => return (false, line)
    | .ok fd => return (true, { line with valueFd := some fd })

/-- `gpio_open_line`: whether it succeeds, and `*line`. -/
def gpioOpenLine (rounds base offset : Nat) (output initial : Bool) : Driver (Bool × Line) := do
  let line : Line := ⟨lineNumber base offset, none, false⟩
  match ← sysfsWriteText rounds .exportLine (numberText line.number) with
  | none => configureLine rounds { line with exportedHere := true } output initial
  | some .busy => configureLine rounds line output initial
  | some _ => return (false, line)

def levelText (value : Bool) : List UInt8 := if value then ascii "1" else ascii "0"

def gpioSet (rounds : Nat) (line : Line) (value : Bool) : Driver Bool :=
  match line.valueFd with
  | none => pure false
  | some fd => do
    if !(← seekStart fd) then return false
    return (← writeAll rounds fd (levelText value)) = none

/-- `gpio_get`: the level, if it can be read. -/
def gpioGet (rounds : Nat) (line : Line) : Driver (Option Bool) :=
  match line.valueFd with
  | none => pure none
  | some fd => do
    if !(← seekStart fd) then return none
    loop (fun (_ : Unit) => do
      match ← readBytes fd 1 with
      | .error .interrupted => pure (.inl ())
      | .error _ => pure (.inr none)
      | .ok [] => pure (.inr none)
      | .ok (byte :: _) => pure (.inr (some (byte = 0x31)))) spin rounds ()

/-- `close` of a descriptor that may be -1. -/
def closeOpen : Option Nat → Driver Unit
  | none => pure ()
  | some fd => do
    let _ ← closeFile fd

def gpioCloseLine (rounds : Nat) (line : Line) : Driver Unit := do
  closeOpen line.valueFd
  if line.exportedHere then
    let _ ← sysfsWriteText rounds .unexportLine (numberText line.number)

/-! ### The panel -/

structure Panel where
  spiFd : Option Nat
  dc : Line
  reset : Line
  busy : Line
  speedHz : Nat
  deriving DecidableEq, Repr

/-- `panel_spi_write`. -/
def panelSpiWrite (rounds : Nat) (panel : Panel) (bytes : List UInt8) : Driver Bool :=
  match panel.spiFd with
  | none => pure (decide (bytes = []))
  | some fd =>
    loop (fun bytes =>
      if bytes = [] then pure (.inr true)
      else do
        match ← writeAll rounds fd (bytes.take 4096) with
        | some _ => pure (.inr false)
        | none => pure (.inl (bytes.drop 4096))) spin rounds bytes

def panelCommand (rounds : Nat) (panel : Panel) (command : UInt8) (data : List UInt8) :
    Driver Bool := do
  if !(← gpioSet rounds panel.dc false) then return false
  if !(← panelSpiWrite rounds panel [command]) then return false
  if data = [] then return true
  if !(← gpioSet rounds panel.dc true) then return false
  panelSpiWrite rounds panel data

def panelWaitIdle (rounds : Nat) (panel : Panel) (timeoutMs : Nat) : Driver Bool :=
  loop (fun elapsed =>
    if elapsed ≤ timeoutMs then do
      match ← gpioGet rounds panel.busy with
      | none => pure (.inr false)
      | some true => pure (.inr true)
      | some false =>
        sleepMs 50
        pure (.inl (elapsed + 50))
    else pure (.inr false)) spin rounds 0

def panelReset (rounds : Nat) (panel : Panel) : Driver Bool := do
  if !(← gpioSet rounds panel.reset true) then return false
  sleepMs 10
  if !(← gpioSet rounds panel.reset false) then return false
  sleepMs 10
  if !(← gpioSet rounds panel.reset true) then return false
  sleepMs 10
  return true

/-- The commands of `panel_initialize`, with their data. -/
def panelSettings : List (UInt8 × List UInt8) :=
  [(0x00, [0x1f]), (0x01, [0x07, 0x07, 0x3f, 0x3f, 0x09]), (0x06, [0x17, 0x17, 0x28, 0x17]),
    (0x61, [0x03, 0x20, 0x01, 0xe0]), (0x15, [0x00]), (0x50, [0x29, 0x07]), (0x60, [0x22]),
    (0xe3, [0x22]), (0x00, [0x1f])]

def panelInitialize (rounds : Nat) (panel : Panel) : Driver Bool :=
  allOf (panelReset rounds panel ::
    panelSettings.map fun setting => panelCommand rounds panel setting.1 setting.2)

/-- The loop of `panel_fill`, with what remains to be sent. -/
def fillChunks (rounds : Nat) (panel : Panel) (value : UInt8) : Driver Bool :=
  loop (fun remaining =>
    if remaining = 0 then pure (.inr true)
    else do
      let amount := if remaining > 256 then 256 else remaining
      if ← panelSpiWrite rounds panel (List.replicate amount value) then
        pure (.inl (remaining - amount))
      else pure (.inr false)) spin rounds framebufferBytes

def panelFill (rounds : Nat) (panel : Panel) (command value : UInt8) : Driver Bool := do
  if !(← panelCommand rounds panel command []) then return false
  if !(← gpioSet rounds panel.dc true) then return false
  fillChunks rounds panel value

/-- The new image: the framebuffer, or white for `clear`. -/
def panelImage (rounds : Nat) (panel : Panel) : Option Framebuffer → Driver Bool
  | some framebuffer => do
    if !(← panelCommand rounds panel 0x13 []) then return false
    if !(← gpioSet rounds panel.dc true) then return false
    panelSpiWrite rounds panel framebuffer.toList
  | none => panelFill rounds panel 0x13 0xff

def panelDisplay (rounds : Nat) (panel : Panel) (framebuffer : Option Framebuffer) :
    Driver Bool := do
  let shown ← allOf
    [panelInitialize rounds panel,
      panelCommand rounds panel 0x04 [], panelWaitIdle rounds panel 15000,
      panelFill rounds panel 0x10 0x00, panelImage rounds panel framebuffer,
      panelCommand rounds panel 0xe0 [0x02], panelCommand rounds panel 0xe5 [0x5a],
      panelCommand rounds panel 0x12 [], panelWaitIdle rounds panel 60000,
      panelCommand rounds panel 0x02 [], panelWaitIdle rounds panel 15000]
  if shown then return true
  let _ ← panelCommand rounds panel 0x02 []
  return false

/-- The three lines, up to the first that fails. -/
def openLines (rounds base : Nat) (panel : Panel) : Driver (Bool × Panel) := do
  let (ok, dc) ← gpioOpenLine rounds base pinDc true false
  let panel := { panel with dc }
  if !ok then return (false, panel)
  let (ok, reset) ← gpioOpenLine rounds base pinReset true true
  let panel := { panel with reset }
  if !ok then return (false, panel)
  let (ok, busy) ← gpioOpenLine rounds base pinBusy false false
  return (ok, { panel with busy })

/-- `panel_open`: whether it succeeds, and `*panel`. -/
def panelOpen (rounds : Nat) (device : List UInt8) (speedHz : Nat) : Driver (Bool × Panel) := do
  let line : Line := ⟨0, none, false⟩
  let panel : Panel := ⟨none, line, line, line, speedHz⟩
  match ← findGpioBase rounds with
  | none => return (false, panel)
  | some base =>
    let (ok, panel) ← openLines rounds base panel
    if !ok then return (false, panel)
    match ← openFile (.spi device) with
    | .error _ => return (false, panel)
    | .ok fd =>
      let ok ← allOf [configure fd (.mode 0), configure fd (.bitsPerWord 8),
        configure fd (.maxSpeedHz speedHz)]
      return (ok, { panel with spiFd := some fd })

def panelClose (rounds : Nat) (panel : Panel) : Driver Unit := do
  closeOpen panel.spiFd
  gpioCloseLine rounds panel.busy
  gpioCloseLine rounds panel.reset
  gpioCloseLine rounds panel.dc

/-- `main` from the open of the panel to its end: `display` of a framebuffer, or `clear`. -/
def refreshPanel (rounds : Nat) (device : List UInt8) (speedHz : Nat)
    (framebuffer : Option Framebuffer) : Driver Bool := do
  let (ok, panel) ← panelOpen rounds device speedHz
  if !ok then
    panelClose rounds panel
    return false
  let shown ← panelDisplay rounds panel framebuffer
  panelClose rounds panel
  return shown

/-! ### The bench -/

/-- What the panel can see of the driver, and what the driver sees of it. -/
inductive Signal
  /-- The level of the reset line. -/
  | reset (high : Bool)
  /-- A byte on the wire, with the level of the data line. -/
  | byte (data : Bool) (byte : UInt8)
  | pause (milliseconds : Nat)
  /-- The busy line is read. -/
  | busy (idle : Bool)
  deriving DecidableEq, Repr

/-- The panel's controller in the directory, and the number of its first line. -/
structure Wiring where
  entry : List UInt8
  base : Nat

structure Bench where
  files : Nat → Option DeviceFile
  /-- The lines that are exported. -/
  exported : Nat → Bool
  /-- The level of the line that tells data from commands. -/
  data : Bool
  log : List Signal
  /-- A `close` or an `unexport` has failed. -/
  faulty : Bool

namespace Bench

variable (wiring : Wiring) (w : Bench)

def add (signals : List Signal) : Bench := { w with log := w.log ++ signals }

/-- A line is given a level. -/
def drive (number : Nat) (level : Bool) : Bench :=
  if number = lineNumber wiring.base pinDc then { w with data := level }
  else if number = lineNumber wiring.base pinReset then w.add [.reset level]
  else w

/-- A file takes all the bytes that are written to it. -/
def take (file : DeviceFile) (bytes : List UInt8) : Bench :=
  match file with
  | .value number => w.drive wiring number (bytes = ascii "1")
  | .direction number =>
    if bytes = ascii "in" then w else w.drive wiring number (bytes = ascii "high")
  | .exportLine =>
    { w with exported := fun number => w.exported number || numberText number = bytes }
  | .unexportLine =>
    { w with exported := fun number => w.exported number && numberText number ≠ bytes }
  | _ => w

/-- Bytes go out on the wire. -/
def send (bytes : List UInt8) : Bench := w.add (bytes.map (.byte w.data))

def opened (fd : Nat) (file : DeviceFile) : Bench :=
  { w with files := Function.update w.files fd (some file) }

def closed (fd : Nat) : Bench := { w with files := Function.update w.files fd none }

/-- What a `write` can do.  A write that is interrupted has no effect, and one that fails may have
had some; the device takes any part of the bytes, the other files take all of them. -/
def Writes (fd : Nat) (bytes : List UInt8) (r : Except Errno Nat) (t : Bench) : Prop :=
  match w.files fd, r with
  | _, .error .interrupted => t = w
  | some (.spi _), .error _ => ∃ k, t = w.send (bytes.take k)
  | some (.spi _), .ok count => count ≤ bytes.length ∧ t = w.send (bytes.take count)
  | some .exportLine, .error _ => t = w
  | some .exportLine, .ok count =>
    count = bytes.length ∧ t = w.take wiring .exportLine bytes ∧
      ∀ number, numberText number = bytes → w.exported number = false
  | some .unexportLine, .error _ => t = { w with faulty := true }
  | some file, .error _ => t = w ∨ t = w.take wiring file bytes
  | some file, .ok count => count = bytes.length ∧ t = w.take wiring file bytes
  | none, .error _ => t = w
  | none, .ok _ => False

/-- What a `read` can do.  The entry of the panel's controller is the one with its label. -/
def Reads (fd count : Nat) (r : Except Errno (List UInt8)) (t : Bench) : Prop :=
  match w.files fd, r with
  | some (.label entry), .ok text =>
    t = w ∧ text.length ≤ count ∧ (strEq (chomp text) gpioLabel = true → entry = wiring.entry)
  | some (.base entry), .ok text =>
    t = w ∧ text.length ≤ count ∧
      (entry = wiring.entry → parseBase (chomp text) = some wiring.base)
  | some (.value _), .ok [] => t = w
  | some (.value number), .ok (byte :: rest) =>
    rest.length < count ∧
      t = if number = lineNumber wiring.base pinBusy then w.add [.busy (byte = 0x31)] else w
  | _, .ok text => t = w ∧ text.length ≤ count
  | _, .error _ => t = w

end Bench

/-- What the calls can answer. -/
def bench (wiring : Wiring) : Environment Call Call.Answer Bench := fun w c x t =>
  match c, x with
  | .openFile file, .ok fd => w.files fd = none ∧ t = w.opened fd file
  | .openFile .unexportLine, .error _ => t = { w with faulty := true }
  | .openFile _, .error _ => t = w
  | .closeFile fd, none => t = w.closed fd
  | .closeFile fd, some _ => t = { w.closed fd with faulty := true }
  | .writeBytes fd bytes, r => w.Writes wiring fd bytes r t
  | .readBytes fd count, r => w.Reads wiring fd count r t
  | .sleep milliseconds, _ => t = w.add [.pause milliseconds]
  | .seekStart _, _ | .writable _, _ | .configure _ _, _ => t = w
  | .openDirectory, none | .nextEntry _, _ => t = w
  | .openDirectory, some fd => w.files fd = none ∧ t = w.opened fd .directory
  | .closeDirectory fd, _ => t = w.closed fd
  | .spin, x => x.elim

end Esp32Fx.Einkctl
