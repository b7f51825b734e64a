import Esp32Fx.Tools.Host

/-! `tools/deploy.py` and `execute --module` of `tools/cli.py`, for one name and one storage: the
steps of the command that `load` sends to the board, each of which may fail, and the module that
`execute` starts. -/

namespace Esp32Fx.Tools

open Lib Lib.Py Program

/-- `read_module`, on the contents of a regular file. -/
def readModule (data : List UInt8) : Option (List UInt8) :=
  if data.length > 16 * 1024 * 1024 then none
  else if data.length < 8 ∨ data.take 4 ≠ [0x00, 0x61, 0x73, 0x6d] then none
  else some data

inductive Storage
  | ram
  | sd
  deriving DecidableEq, Repr

/-- A character of the class `[0-9a-f]`. -/
def isHex (c : Char) : Bool := ('0' ≤ c && c ≤ '9') || ('a' ≤ c && c ≤ 'f')

/-- `NAME_PATTERN`. -/
def matchesName (name : List Char) : Bool :=
  let isStart (c : Char) := ('a' ≤ c && c ≤ 'z') || ('0' ≤ c && c ≤ '9')
  match name with
  | [] => false
  | c :: rest => isStart c && rest.length ≤ 47 && rest.all fun c => isStart c || c == '_' || c == '-'

/-- The directory of a name. -/
def deploymentDirectory (storage : Storage) (name : List Char) : List Char :=
  (match storage with
    | .ram => "/tmp/microwasm/apps/".toList
    | .sd => "/media/sd/microwasm/apps/".toList) ++ name

/-- `deployment_path`. -/
def deploymentPath (storage : Storage) (name digest : List Char) : Option (List Char) :=
  if matchesName name = false then none
  else if digest.length ≠ 64 ∨ digest.all isHex = false then none
  else some (deploymentDirectory storage name ++ '/' :: digest ++ ".wasm".toList)

/-- The files in the directory of the name. -/
inductive BoardFile
  /-- `<digest>.wasm`. -/
  | module (digest : List Char)
  /-- `<digest>.wasm.incoming-<nonce>`. -/
  | incoming (digest nonce : List Char)
  | currentSha256
  | currentPath
  deriving DecidableEq

/-- The directory, and the modules that were transferred in full. -/
structure Board where
  files : Directory BoardFile (List UInt8)
  transferred : List (List UInt8)

/-- The steps of `load` on the board. -/
inductive BoardCall
  | mount
  | boardIpv4
  | prepareLaunch
  | mkdir
  | curl (file : BoardFile) (data : List UInt8)
  | testSize (file : BoardFile) (size : Nat)
  | testHash (file : BoardFile) (digest : List Char)
  | mv (old new : BoardFile)
  | printf (text : List Char) (file : BoardFile)
  | served

/-- The steps answer whether they succeeded. -/
abbrev BoardProgram := Program BoardCall fun _ => Bool

/-- What a step does.  A transfer stores any bytes; a redirection that fails has left the file as it
was, or truncated it and written the start of its line. -/
def boardDoes (sha256 : List UInt8 → List UInt8) :
    Environment BoardCall (fun _ => Bool) Board := fun s call ok t =>
  match call with
  | .curl file data =>
    t = s ∧ ok = false ∨ ∃ bytes, t =
      { files := s.files.put file bytes
        transferred := if bytes = data then data :: s.transferred else s.transferred }
  | .testSize file size =>
    t = s ∧ (ok = true → ∃ bytes, s.files file = some bytes ∧ bytes.length = size)
  | .testHash file digest =>
    t = s ∧ (ok = true → ∃ bytes, s.files file = some bytes ∧ hexdigest (sha256 bytes) = digest)
  | .mv old new =>
    t = s ∧ ok = false ∨
      (s.files old).isSome ∧ ok = true ∧ t = { s with files := s.files.rename old new }
  | .printf text file =>
    t = s ∧ ok = false ∨ ∃ content, content <+: encode (text ++ ['\n']) ∧
      (ok = true → content = encode (text ++ ['\n'])) ∧
      t = { s with files := s.files.put file content }
  | _ => t = s

/-- No step is broken off otherwise than by failing. -/
def unbroken : Breaks BoardCall Board := fun _ _ _ => False

/-- Steps joined by `&&`. -/
def allOf : List BoardCall → BoardProgram Bool
  | [] => .ret true
  | step :: steps => .call step fun ok => if ok then allOf steps else .ret false

/-- The steps of `load` up to the module's own file. -/
def storeModule (storage : Storage) (data : List UInt8) (digest nonce : List Char) :
    BoardProgram Bool :=
  let incoming := BoardFile.incoming digest nonce
  allOf <| (if storage = .sd then [.mount] else []) ++
    [.boardIpv4, .prepareLaunch, .mkdir, .curl incoming data, .testSize incoming data.length,
      .testHash incoming digest, .mv incoming (.module digest)]

/-- The steps of `load` that make the module the current one, and the check that it was served. -/
def activateModule (digest destination : List Char) : BoardProgram Bool :=
  allOf [.printf digest .currentSha256, .printf destination .currentPath, .served]

/-- `load` on the board: whether it reports success. -/
def loadModule (storage : Storage) (data : List UInt8) (digest destination nonce : List Char) :
    BoardProgram Bool := do
  if ← storeModule storage data digest nonce then activateModule digest destination
  else pure false

/-- `$(...)`: NUL bytes and the newlines at the end are dropped. -/
def substituted (output : List UInt8) : List UInt8 :=
  (output.filter (· ≠ 0)).rdropWhile (· = 0x0a)

/-- The digest that `execute --module` takes from `current.sha256`. -/
def currentDigest (files : Directory BoardFile (List UInt8)) : Option (List Char) :=
  match files .currentSha256 with
  | none => none
  | some content =>
    let digest := (substituted content).map fun b => Char.ofNat b.toNat
    if digest.length ≠ 64 ∨ digest.all isHex = false then none else some digest

/-- The module that `execute --module` starts. -/
def executeModule (sha256 : List UInt8 → List UInt8) (files : Directory BoardFile (List UInt8)) :
    Option (List UInt8) :=
  match currentDigest files with
  | none => none
  | some digest =>
    match files (.module digest) with
    | none => none
    | some bytes => if hexdigest (sha256 bytes) = digest then some bytes else none

/-! ### Runs -/

/-- A load attempt, by how it ended: with success, with a failure before it touched
`current.sha256`, or with one after that. -/
inductive LoadEvent
  | succeeded (data : List UInt8)
  | failedStoring (data : List UInt8)
  | failedActivating (data : List UInt8)
  deriving DecidableEq

/-- A load attempt, to its end or to any step on the way. -/
inductive LoadStep (sha256 : List UInt8 → List UInt8) (storage : Storage) (name : List Char) :
    Board → LoadEvent → Board → Prop
  | succeeded {s t : Board} {data : List UInt8} {destination nonce : List Char}
    (hModule : readModule data = some data)
    (hPath : deploymentPath storage name (hexdigest (sha256 data)) = some destination)
    (hRun : (loadModule storage data (hexdigest (sha256 data)) destination nonce).Runs
      (boardDoes sha256) s true t) :
    LoadStep sha256 storage name s (.succeeded data) t
  | failedStoring {s t : Board} {data : List UInt8} {destination nonce : List Char}
    (hModule : readModule data = some data)
    (hPath : deploymentPath storage name (hexdigest (sha256 data)) = some destination)
    (hLeaves : (storeModule storage data (hexdigest (sha256 data)) nonce).Leaves
      (boardDoes sha256) unbroken s t) :
    LoadStep sha256 storage name s (.failedStoring data) t
  | failedActivating {s t u : Board} {data : List UInt8} {destination nonce : List Char}
    (hModule : readModule data = some data)
    (hPath : deploymentPath storage name (hexdigest (sha256 data)) = some destination)
    (hRun : (storeModule storage data (hexdigest (sha256 data)) nonce).Runs
      (boardDoes sha256) s true u)
    (hLeaves : (activateModule (hexdigest (sha256 data)) destination).Leaves
      (boardDoes sha256) unbroken u t) :
    LoadStep sha256 storage name s (.failedActivating data) t

/-- Load attempts for one name and storage, one after the other, from an empty directory. -/
def deploySystem (sha256 : List UInt8 → List UInt8) (storage : Storage) (name : List Char) :
    System Board LoadEvent where
  Start s := s = ⟨fun _ => none, []⟩
  Step := LoadStep sha256 storage name

end Esp32Fx.Tools
