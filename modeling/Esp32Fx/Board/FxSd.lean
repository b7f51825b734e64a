import Esp32Fx.Lib.FileTree
import Esp32Fx.Lib.Interrupted
import Esp32Fx.Lib.Transition

/-! `fx-sd` of `board/rootfs/fx-sd`, which mounts the microSD card and has `/home` on it, as programs
over its tests and commands.  A command that fails ends the script under `set -e` like the loss of
power does, and either leaves behind what the half-done command did.  How the file system of the card
compares names, and what `cp` does, are parameters. -/

namespace Esp32Fx.Board

open Lib Program FileTree

abbrev Name := List Char

/-- What the script works on: the entries of `/home/root` of the internal flash, if it is a directory,
the card from its root on, the two mounts, and `/etc/fx-sd-home`. -/
structure Storage where
  internal : Option (List (Entry Name))
  card : FileTree Name
  sdMounted : Bool
  homeBound : Bool
  marker : Bool

/-- `home`. -/
def home : List Name := ["home".toList]

/-- `home/root`. -/
def homeRoot : List Name := ["home".toList, "root".toList]

/-- `home/.fx-sd-home-initialized`. -/
def homeInitialized : List Name := ["home".toList, ".fx-sd-home-initialized".toList]

/-- `esp32-fx SD home v1` on a line. -/
def homeVersion : List UInt8 := "esp32-fx SD home v1\n".toList.map fun c => UInt8.ofNat c.toNat

inductive SdTest
  | sdIsMounted
  | homeIsSd
  /-- `card_device` finds a device. -/
  | cardDevice
  /-- `test -e "$home/.fx-sd-home-initialized"` -/
  | homeInitialized
  /-- `test -d /home/root` -/
  | homeRootIsDirectory
  /-- `test -e "$marker"` -/
  | marker

inductive SdCommand
  | makeMountpoint
  | mountCard
  | unmountCard
  /-- `mkdir -p "$home/root"` -/
  | makeHome
  /-- `cp -a /home/root/. "$home/root/"` -/
  | copyHome
  | writeHomeInitialized
  | bindHome
  | unmountHome
  | writeMarker
  | removeMarker

inductive SdCall
  | test (t : SdTest)
  | run (c : SdCommand)
  | exit

def SdCall.Answer : SdCall → Type
  | .test _ => Bool
  | .run _ => Unit
  | .exit => Empty

abbrev SdProgram := Program SdCall SdCall.Answer Unit

variable (fold : Name → Name)

/-- A path as the card's file system compares it. -/
def onCard (path : List Name) : List Name := path.map fold

/-- Where the copy of a path of `/home/root` is. -/
def copied (path : List Name) : List Name := onCard fold (homeRoot ++ path)

/-- What a test can find. -/
def finds (s : Storage) : SdTest → Bool → Prop
  | .sdIsMounted, b => b = s.sdMounted
  | .homeIsSd, b => b = s.homeBound
  | .cardDevice, _ => True
  | .homeInitialized, b => b = (s.card (onCard fold homeInitialized)).isSome
  | .homeRootIsDirectory, b =>
    b = if s.homeBound then s.card (onCard fold homeRoot) = some .directory else s.internal.isSome
  | .marker, b => b = s.marker

/-- What `/home/root` is when `cp -a /home/root/. "$home/root/"` runs. -/
inductive Source
  | internal (entries : List (Entry Name))
  /-- `/home` is the card's own tree already. -/
  | itself

/-- `cp`: what it can leave of the card's tree wherever it ends or is broken off, and what it leaves
when it succeeds. -/
structure Copy where
  leaves : FileTree Name → Source → FileTree Name → Prop
  succeeds : FileTree Name → Source → FileTree Name → Prop

/-- What is relied on of `cp`: it merges the entries into what is there, and it leaves files alone
that are the ones it would copy. -/
structure Copy.Sound (cp : Copy) : Prop where
  whole : ∀ {tree source tree'}, cp.succeeds tree source tree' → cp.leaves tree source tree'
  merges : Merges (copied fold) fun tree entries tree' => cp.leaves tree (.internal entries) tree'
  itself : ∀ {tree tree'}, cp.leaves tree .itself tree' → tree' = tree

/-- What `cp` copies from. -/
def Storage.source (s : Storage) : Option Source :=
  if s.homeBound then some .itself else s.internal.map .internal

/-- The card once `mkdir -p "$home/root"` has been there. -/
def withHome (card : FileTree Name) : Option (FileTree Name) :=
  (card.makeDirectory (onCard fold home)).bind (·.makeDirectory (onCard fold homeRoot))

variable (cp : Copy)

/-- What a command that succeeds does. -/
def succeeds (s : Storage) : SdCommand → Storage → Prop
  | .makeMountpoint, t => t = s
  | .mountCard, t => t = { s with sdMounted := true }
  | .unmountCard, t => t = { s with sdMounted := false }
  | .makeHome, t => ∃ card, withHome fold s.card = some card ∧ t = { s with card := card }
  | .copyHome, t => ∃ source card, s.source = some source ∧ cp.succeeds s.card source card ∧
      t = { s with card := card }
  | .writeHomeInitialized, t =>
    t = { s with card := s.card.put (onCard fold homeInitialized) (.file homeVersion) }
  | .bindHome, t => t = { s with homeBound := true }
  | .unmountHome, t => t = { s with homeBound := false }
  | .writeMarker, t => t = { s with marker := true }
  | .removeMarker, t => t = { s with marker := false }

/-- What a command leaves that fails or is broken off. -/
inductive BreaksOff : Storage → SdCommand → Storage → Prop
  | nothing (s : Storage) (c : SdCommand) : BreaksOff s c s
  | outerHome (s : Storage) (outer : FileTree Name)
    (hMake : s.card.makeDirectory (onCard fold home) = some outer) :
    BreaksOff s .makeHome { s with card := outer }
  | partOfHome (s : Storage) (source : Source) (card : FileTree Name)
    (hSource : s.source = some source) (hLeaves : cp.leaves s.card source card) :
    BreaksOff s .copyHome { s with card := card }
  | tornVersion (s : Storage) (n : Nat) : BreaksOff s .writeHomeInitialized
      { s with card := s.card.put (onCard fold homeInitialized) (.file (homeVersion.take n)) }

/-- The calls. -/
def shell : Environment SdCall SdCall.Answer Storage
  | s, .test t, (b : Bool), u => finds fold s t b ∧ u = s
  | s, .run c, _, u => succeeds fold cp s c u
  | s, .exit, _, u => u = s

def shellBreaks : Breaks SdCall Storage
  | s, .run c, t => BreaksOff fold cp s c t
  | s, _, t => t = s

/-! ### The script -/

def ifTest (t : SdTest) (yes no : SdProgram) : SdProgram :=
  .call (.test t) fun b : Bool => if b then yes else no

def run (c : SdCommand) : SdProgram := .call (.run c) fun _ => .ret ()

/-- The end of the script. -/
def exit : SdProgram := .call .exit Empty.elim

/-- `wait_for_card`, with the tries that are left. -/
def waitForCard : Nat → SdProgram
  | 0 => exit
  | tries + 1 => ifTest .cardDevice (pure ()) (waitForCard tries)

def mountSd : SdProgram :=
  ifTest .sdIsMounted (pure ()) do
    waitForCard 10
    ifTest .cardDevice (pure ()) exit
    run .makeMountpoint
    run .mountCard
    ifTest .sdIsMounted (pure ()) exit

/-- The seeding of `mount_home`. -/
def seedHome : SdProgram :=
  ifTest .homeInitialized (pure ()) do
    ifTest .homeRootIsDirectory (run .copyHome) (pure ())
    run .writeHomeInitialized

def mountHome : SdProgram := do
  mountSd
  run .makeHome
  seedHome
  ifTest .homeIsSd (pure ()) (run .bindHome)
  ifTest .homeIsSd (pure ()) exit

/-- The commands of the script that are no report. -/
inductive Command
  | mount
  | unmount
  | home
  | enableHome
  | disableHome
  | init

def Command.program : Command → SdProgram
  | .mount => mountSd
  | .unmount => do
    ifTest .homeIsSd exit (pure ())
    ifTest .sdIsMounted (run .unmountCard) (pure ())
  | .home => mountHome
  | .enableHome => do
    mountHome
    run .writeMarker
  | .disableHome => do
    run .removeMarker
    ifTest .homeIsSd (run .unmountHome) (pure ())
  | .init => do
    ifTest .marker (pure ()) exit
    mountHome

/-! ### Sequences of commands -/

inductive Event
  | invoke (c : Command)
  | reboot

/-- Invocations, each to its end or broken off, and reboots, which undo the mounts. -/
def fxSd : System Storage Event where
  Start s := s.sdMounted = false ∧ s.homeBound = false
  Step s
    | .invoke c, t => c.program.Leaves (shell fold cp) (shellBreaks fold cp) s t
    | .reboot, t => t = { s with sdMounted := false, homeBound := false }

/-- The command comes to `mount_home`. -/
def mountsHome (s : Storage) : Command → Bool
  | .home | .enableHome => true
  | .init => s.marker
  | _ => false

/-- `cp` keeps what the card has wherever an entry of the internal tree goes that is no directory. -/
def CopySpares (s : Storage) : Prop :=
  ∀ entries card card', s.internal = some entries → withHome fold s.card = some card →
    cp.leaves card (.internal entries) card' →
    ∀ e ∈ entries, e.node ≠ .directory → ∀ node, s.card (copied fold e.path) = some node →
      card' (copied fold e.path) = some node

/-- If the invocation seeds the card, then `cp` keeps what the card has. -/
def SeedsOnly (s : Storage) : Event → Prop
  | .invoke c => mountsHome s c = true → s.homeBound = false →
      s.card (onCard fold homeInitialized) = none → CopySpares fold cp s
  | .reboot => True

end Esp32Fx.Board
