import Esp32Fx.Lib.Interrupted
import Esp32Fx.Lib.PyText
import Esp32Fx.Lib.Staging
import Esp32Fx.Lib.Transition

/-! What the host's scripts of `tools/` work on: the private directory, one board on a serial port,
and the calls that the scripts make on both.  A call that fails raises an exception, which ends the
run like the death of the process does; a write that is broken off leaves any content. -/

namespace Esp32Fx.Tools

open Lib Lib.Py Program

/-! ### Texts -/

/-- The bytes of a text file. -/
def encode (text : List Char) : List UInt8 := text.flatMap String.utf8EncodeChar

def hexDigit (n : Nat) : Char := if n < 10 then Char.ofNat (0x30 + n) else Char.ofNat (0x57 + n)

/-- `hexdigest`. -/
def hexdigest (digest : List UInt8) : List Char :=
  digest.flatMap fun b => [hexDigit (b.toNat / 16), hexDigit (b.toNat % 16)]

/-- `\uXXXX`. -/
def unicodeEscape (n : Nat) : List Char :=
  ['\\', 'u', hexDigit (n / 4096 % 16), hexDigit (n / 256 % 16), hexDigit (n / 16 % 16),
    hexDigit (n % 16)]

/-- A character in a string of `json.dumps`. -/
def jsonChar (c : Char) : List Char :=
  if c = '"' then ['\\', '"']
  else if c = '\\' then ['\\', '\\']
  else if c.toNat = 0x08 then ['\\', 'b']
  else if c.toNat = 0x0c then ['\\', 'f']
  else if c = '\n' then ['\\', 'n']
  else if c = '\r' then ['\\', 'r']
  else if c = '\t' then ['\\', 't']
  else if 0x20 ≤ c.toNat ∧ c.toNat ≤ 0x7e then [c]
  else if c.toNat < 0x10000 then unicodeEscape c.toNat
  else
    unicodeEscape (0xd800 + (c.toNat - 0x10000) / 0x400) ++
      unicodeEscape (0xdc00 + (c.toNat - 0x10000) % 0x400)

def jsonString (text : List Char) : List Char := '"' :: text.flatMap jsonChar ++ ['"']

abbrev Password := List Char

/-- `json.dumps({"serial": serial, "root_password": password}, indent=2) + "\n"`. -/
def accessRecord (serial : List Char) (password : Password) : List Char :=
  "\x7b\n  \"serial\": ".toList ++ jsonString serial ++ ",\n  \"root_password\": ".toList ++
    jsonString password ++ "\n\x7d\n".toList

/-! ### The private directory and the board -/

/-- The files of `private/`, for one device identity. -/
inductive PrivateFile
  /-- `backup-<identity>.bin`. -/
  | backup
  /-- `backup-<identity>.sha256`. -/
  | digest
  /-- `example-board-access.json`. -/
  | access
  /-- `example-board-access.pending.json`. -/
  | pending
  /-- `example-board-access.pre-reflash-<digits>.json`. -/
  | preReflash (digits : List Char)
  /-- `access-before-install-<time>.json`. -/
  | beforeInstall (time : Nat)
  /-- The notes that `connect` and `configure` keep of the network. -/
  | networkNote (name : List Char)
  deriving DecidableEq

abbrev Private := Directory PrivateFile (List UInt8)

/-- The private directory, the flash of the board and the root password in force there, the password
that `passwd` was told and may still set, and the times that the host's clock has shown, latest
first. -/
structure World where
  files : Private
  flash : List UInt8
  password : Password
  typed : Option Password
  times : List Nat

/-- The size of the flash of the board, and of its backup. -/
def boardFlashBytes : Nat := 32 * 1024 * 1024

/-- The size of the image that is installed. -/
def imageBytes : Nat := 16 * 1024 * 1024

/-- The root password of the image. -/
def defaultPassword : Password := "changeme123".toList

/-- What the two searches of `install` find in the output of `esptool flash-id`. -/
structure Probe where
  flash32MB : Bool
  identity : Bool
  deriving DecidableEq, Repr

/-- The calls of the scripts. -/
inductive HostCall
  | raise (message : String)
  | validateImage
  | mkdirPrivate
  | flashId
  | exists (file : PrivateFile)
  | size (file : PrivateFile)
  | readBytes (file : PrivateFile)
  | readText (file : PrivateFile)
  | writeText (file : PrivateFile) (text : List Char)
  | chmod (file : PrivateFile)
  | replace (old new : PrivateFile)
  | unlink (file : PrivateFile)
  | readFlash (file : PrivateFile)
  | verifyFlash (file : PrivateFile)
  | writeImage
  | verifyImage
  | login
  | envFileExists
  | timeNs
  | readCredentials
  | secureConsole
  | tokenUrlsafe
  | startPasswd
  | typePassword (password : Password)
  | retypePassword (password : Password)
  | passwdStatus
  | connect
  | checkNetwork

def HostCall.Answer : HostCall → Type
  | .raise _ => Empty
  | .flashId => Probe
  | .exists _ => Bool
  | .size _ => Nat
  | .readBytes _ => List UInt8
  | .readText _ => List Char
  | .envFileExists => Bool
  | .timeNs => Nat
  | .tokenUrlsafe => Password
  | .passwdStatus => Nat
  | _ => Unit

abbrev HostProgram := Program HostCall HostCall.Answer

/-- What a call does when it returns.  `verify-flash` returns when its file equals the start of the
flash, and `flash-id` detects 32 MB on a flash of that size only. -/
def does (s : World) : (call : HostCall) → call.Answer → World → Prop
  | .flashId, (probe : Probe), t => (probe.flash32MB → s.flash.length = boardFlashBytes) ∧ t = s
  | .exists file, (found : Bool), t => found = (s.files file).isSome ∧ t = s
  | .size file, (size : Nat), t => (∃ bytes, s.files file = some bytes ∧ size = bytes.length) ∧ t = s
  | .readBytes file, (bytes : List UInt8), t => s.files file = some bytes ∧ t = s
  | .readText file, (text : List Char), t => s.files file = some (encode text) ∧ t = s
  | .writeText file text, _, t => t = { s with files := s.files.put file (encode text) }
  | .replace old new, _, t =>
    (s.files old).isSome ∧ t = { s with files := s.files.rename old new }
  | .unlink file, _, t => (s.files file).isSome ∧ t = { s with files := s.files.unlink file }
  | .readFlash file, _, t => ∃ bytes, t = { s with files := s.files.put file bytes }
  | .verifyFlash file, _, t =>
    (∃ bytes, s.files file = some bytes ∧ bytes = s.flash.take bytes.length) ∧ t = s
  | .writeImage, _, t => ∃ image : List UInt8, image.length = imageBytes ∧
      t = { s with
        flash := image ++ s.flash.drop imageBytes, password := defaultPassword, typed := none }
  | .timeNs, (now : Nat), t => t = { s with times := now :: s.times }
  | .retypePassword password, _, t => t = { s with typed := some password }
  | .connect, _, t | .checkNetwork, _, t =>
    ∃ files, t = { s with files := files } ∧ ∀ file, (∀ name, file ≠ .networkNote name) →
      files file = s.files file
  | _, _, t => t = s

/-- What a call leaves when it is broken off. -/
inductive BreaksOff : World → HostCall → World → Prop
  | nothing (s : World) (call : HostCall) : BreaksOff s call s
  | tornText (s : World) (file : PrivateFile) (text : List Char) (torn : List UInt8) :
    BreaksOff s (.writeText file text) { s with files := s.files.put file torn }
  | tornBackup (s : World) (file : PrivateFile) (torn : List UInt8) :
    BreaksOff s (.readFlash file) { s with files := s.files.put file torn }
  | tornFlash (s : World) (flash : List UInt8) (password : Password) (typed : Option Password)
    (hPassword : password = s.password ∨ password = defaultPassword)
    (hTyped : typed = s.typed ∨ typed = none) :
    BreaksOff s .writeImage { s with flash := flash, password := password, typed := typed }
  | tornNote (s : World) (call : HostCall) (files : Private)
    (hCall : call = .connect ∨ call = .checkNetwork)
    (hFiles : ∀ file, (∀ name, file ≠ .networkNote name) → files file = s.files file) :
    BreaksOff s call { s with files := files }

/-- What `passwd` on the board may do by itself: set the password that it was told. -/
inductive BoardActs : World → World → Prop
  | waits (s : World) : BoardActs s s
  | sets (s : World) (password : Password) (hTyped : s.typed = some password) :
    BoardActs s { s with password := password }

/-- The calls, with the board at work. -/
def host : Environment HostCall HostCall.Answer World :=
  fun s call answer t => ∃ u, BoardActs s u ∧ does u call answer t

/-- The calls that are broken off, with the board at work. -/
def hostBreaks : Breaks HostCall World := fun s call t => ∃ u, BoardActs s u ∧ BreaksOff u call t

/-! ### Calls -/

/-- An exception. -/
def raise {α : Type} (message : String) : HostProgram α := .call (.raise message) Empty.elim

/-- `if failed: raise`. -/
def raiseIf (failed : Prop) [Decidable failed] (message : String) : HostProgram Unit :=
  if failed then raise message else pure ()

/-- A call without an answer that the script uses. -/
def act (call : HostCall) : HostProgram Unit := .call call fun _ => .ret ()

def flashId : HostProgram Probe := .call .flashId .ret

def fileExists (file : PrivateFile) : HostProgram Bool := .call (.exists file) .ret

def fileSize (file : PrivateFile) : HostProgram Nat := .call (.size file) .ret

def readBytes (file : PrivateFile) : HostProgram (List UInt8) := .call (.readBytes file) .ret

def readText (file : PrivateFile) : HostProgram (List Char) := .call (.readText file) .ret

def envFileExists : HostProgram Bool := .call .envFileExists .ret

def timeNs : HostProgram Nat := .call .timeNs .ret

def tokenUrlsafe : HostProgram Password := .call .tokenUrlsafe .ret

def passwdStatus : HostProgram Nat := .call .passwdStatus .ret

/-! ### The scripts -/

/-- An archive of the name that is there has to be the same record. -/
def checkArchive (archive : PrivateFile) (old : List UInt8) : HostProgram Unit := do
  if ← fileExists archive then
    let kept ← readBytes archive
    raiseIf (kept ≠ old) "private access archive collision"
  else pure ()

/-- The old access record of `network.configure` goes into its archive. -/
def archiveAccess (sha256 : List UInt8 → List UInt8) : HostProgram Unit := do
  if ← fileExists .access then
    let old ← readBytes .access
    let archive := PrivateFile.preReflash ((hexdigest (sha256 old)).take 12)
    checkArchive archive old
    if ← fileExists archive then act (.unlink .access) else act (.replace .access archive)
  else pure ()

/-- The change of the root password in `network.configure`. -/
def changePassword (sha256 : List UInt8 → List UInt8) (serial : List Char) : HostProgram Unit := do
  let newPassword ← tokenUrlsafe
  let unfinished ← fileExists .pending
  raiseIf (unfinished = true) "pending access record exists; inspect it before retrying"
  act (.writeText .pending (accessRecord serial newPassword))
  act (.chmod .pending)
  act .startPasswd
  act (.typePassword newPassword)
  act (.retypePassword newPassword)
  let status ← passwdStatus
  raiseIf (status ≠ 0) "root password change failed; inspect private pending access record"
  archiveAccess sha256
  act (.replace .pending .access)

/-- `network.configure`. -/
def configure (sha256 : List UInt8 → List UInt8) (serial : List Char) (freshImage : Bool) :
    HostProgram Unit := do
  act .readCredentials
  act .mkdirPrivate
  act .secureConsole
  let known ← fileExists .access
  (if known = false ∨ freshImage = true then changePassword sha256 serial else pure ())
  act .connect
  act .checkNetwork

/-- The checks of `cli.install` on a backup that is there. -/
def checkBackup (sha256 : List UInt8 → List UInt8) : HostProgram Unit := do
  let recorded ← fileExists .digest
  raiseIf (recorded = false) "Existing backup is incomplete; inspect private recovery files"
  let size ← fileSize .backup
  raiseIf (size ≠ boardFlashBytes) "Existing backup is incomplete; inspect private recovery files"
  let bytes ← readBytes .backup
  let digest ← readText .digest
  raiseIf (hexdigest (sha256 bytes) ≠ strip digest) "Recovery backup checksum mismatch"

/-- The backup that `cli.install` makes. -/
def makeBackup (sha256 : List UInt8 → List UInt8) : HostProgram Unit := do
  act (.readFlash .backup)
  let size ← fileSize .backup
  raiseIf (size ≠ boardFlashBytes) "Incomplete device backup"
  act (.verifyFlash .backup)
  let bytes ← readBytes .backup
  act (.writeText .digest (hexdigest (sha256 bytes) ++ ['\n']))

/-- What `cli.install` does about the access record of the board when it does not configure it. -/
def retireAccess : HostProgram Unit := do
  if ← fileExists .access then
    let now ← timeNs
    act (.replace .access (.beforeInstall now))
  else pure ()

/-- What `cli.install` does once the image is written. -/
def finishInstall (sha256 : List UInt8 → List UInt8) (serial : List Char) : HostProgram Unit := do
  act .verifyImage
  act .login
  let configured ← envFileExists
  if configured = true then configure sha256 serial true else retireAccess

/-- `cli.install`. -/
def install (sha256 : List UInt8 → List UInt8) (serial : List Char) : HostProgram Unit := do
  act .validateImage
  act .mkdirPrivate
  let probe ← flashId
  raiseIf (probe.flash32MB = false) "This image requires an ESP32-S3 with 32 MiB flash"
  raiseIf (probe.identity = false) "esptool did not return a device identity"
  let saved ← fileExists .backup
  (if saved = true then checkBackup sha256 else makeBackup sha256)
  act .writeImage
  finishInstall sha256 serial

/-! ### Runs -/

/-- A run of a script, on a serial port. -/
inductive HostRun
  | install (serial : List Char)
  | configure (serial : List Char) (freshImage : Bool)

def HostRun.program (sha256 : List UInt8 → List UInt8) : HostRun → HostProgram Unit
  | .install serial => Tools.install sha256 serial
  | .configure serial freshImage => Tools.configure sha256 serial freshImage

/-- Runs of the scripts one after the other, each to its end or to where it is broken off. -/
def hostSystem (sha256 : List UInt8 → List UInt8) (Start : World → Prop) :
    System World HostRun where
  Start := Start
  Step s run t := (run.program sha256).Leaves host hostBreaks s t

end Esp32Fx.Tools
