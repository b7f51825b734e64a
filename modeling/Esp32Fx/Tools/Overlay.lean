import Esp32Fx.Lib.PyRegex
import Esp32Fx.Lib.PyReplace
import Esp32Fx.Lib.Staging
import Mathlib.Data.List.Infix

/-! `apply` of `tools/overlay.py`, which lays the configuration of the board over the Linux build
recipe.  The patches of `board/kernel` that it copies are a parameter. -/

namespace Esp32Fx.Tools.Overlay

open Lib Lib.Py

abbrev Text := List Char

/-- What is in the tree by the path from its root: the directories, and the files with their texts.
Reading a file that is no UTF-8 raises as reading one that is missing does. -/
structure Tree where
  isDirectory : Text → Bool
  files : Directory Text Text

inductive Raised
  | notFound (path : Text)
  | isADirectory (path : Text)
  /-- `RuntimeError`. -/
  | runtimeError (message : Text)

/-! ### Files -/

/-- The line ends of a text that is read: CR LF and CR become a line feed, which is written as it is. -/
def universalNewlines : Text → Text
  | [] => []
  | '\r' :: '\n' :: rest => '\n' :: universalNewlines rest
  | c :: rest => (if c = '\r' then '\n' else c) :: universalNewlines rest

def readText (tree : Tree) (path : Text) : Except Raised Text :=
  match tree.files path with
  | some text => .ok (universalNewlines text)
  | none => .error (.notFound path)

def writeText (tree : Tree) (path text : Text) : Tree :=
  { tree with files := tree.files.put path text }

def board : Text := "new-files/board/espressif/esp32s3".toList

def config : Text := board ++ "/devkit_c1_16m_linux.config".toList

def patchDirectory : Text := board ++ "/patches/linux".toList

/-- `shutil.copyfile` of one of the patches, by its name and its text. -/
def copyfile (tree : Tree) (patch : Text × Text) : Except Raised Tree :=
  let path := patchDirectory ++ '/' :: patch.1
  if tree.isDirectory patchDirectory = false then .error (.notFound path)
  else if tree.isDirectory path then .error (.isADirectory path)
  else .ok (writeText tree path patch.2)

/-! ### The kernel configuration -/

/-- A key of the settings and its value. -/
abbrev Setting := Text × Option Text

def settings : List Setting :=
  [("BUILTIN_DTB_SOURCE", some "\"esp32s3-reterminal-e1001\""), ("SPI_SPIDEV", some "y"),
    ("SLUB_TINY", some "y"), ("MMC", some "y"), ("MMC_SPI", some "y"), ("BASE_SMALL", some "y"),
    ("LOG_BUF_SHIFT", some "15"), ("PERF_EVENTS", none), ("INET_TABLE_PERTURB_ORDER", some "8"),
    ("INET_DIAG", none), ("PACKET_DIAG", none), ("UNIX_DIAG", none), ("IPV6", none),
    ("NETFILTER", none)].map fun s => (s.1.toList, s.2.map String.toList)

def symbol (key : Text) : Text := "CONFIG_".toList ++ key

/-- `^(?:# )?` and the symbol and `(?:=| is not set).*\n?`. -/
def settingPattern (symbol : Text) : Pattern :=
  .seq .lineStart <| .seq (.optional (.literal "# ".toList)) <| .seq (.literal symbol) <|
    .seq (.alt (.literal ['=']) (.literal " is not set".toList)) <|
    .seq .lineRest (.optional (.literal ['\n']))

/-- The line of a setting, without its line feed. -/
def settingLine (setting : Setting) : Text :=
  match setting.2 with
  | some value => symbol setting.1 ++ '=' :: value
  | none => "# ".toList ++ symbol setting.1 ++ " is not set".toList

/-- A turn of the loop over the settings. -/
def applySetting (text : Text) (setting : Setting) : Text :=
  sub (settingPattern (symbol setting.1)) [] text ++ (settingLine setting ++ ['\n'])

/-! ### The recipes -/

/-- A turn of the loop over the replacements. -/
def replaceUnless (value : Text) (replacement : Text × Text) : Text :=
  if replacement.2 <:+: value then value else replace replacement.1 replacement.2 value

/-- What `edit` does with the text of a recipe. -/
def editText (relative : Text) (replacements : List (Text × Text)) (required : List Text)
    (value : Text) : Except Raised Text :=
  let value := replacements.foldl replaceUnless value
  if required.all fun marker => decide (marker <:+: value) then .ok value
  else .error (.runtimeError ("Unexpected upstream build recipe: ".toList ++ relative))

def edit (tree : Tree) (relative : Text) (replacements : List (Text × Text))
    (required : List Text) : Except Raised Tree := do
  let value ← readText tree relative
  let value ← editText relative replacements required value
  return writeText tree relative value

def options : Text := "detect_leaks=0:abort_on_error=1:halt_on_error=1:handle_segv=0".toList

/-- The arguments of a call of `edit`. -/
structure Recipe where
  relative : Text
  replacements : List (Text × Text)
  required : List Text

def containerBuild : Recipe where
  relative := "build/container-build.sh".toList
  replacements :=
    [("--output \"$work/artifacts/rootfs.cramfs\"".toList,
      "--output \"$work/artifacts/rootfs.cramfs\" --replace".toList)]
  required := ["--output \"$work/artifacts/rootfs.cramfs\" --replace".toList]

def testHost : Recipe where
  relative := "experiments/mmu-poc/test-host.sh".toList
  replacements :=
    [("ASAN_OPTIONS=detect_leaks=0 ".toList, "ASAN_OPTIONS='".toList ++ options ++ "' ".toList),
      ("-g -O1 ".toList, "-g -O1 -no-pie ".toList)]
  required := ["handle_segv=0".toList, "-no-pie".toList]

def testReclaim : Recipe where
  relative := "experiments/mmu-poc/fork/test-reclaim.py".toList
  replacements :=
    [("'ASAN_OPTIONS': 'detect_leaks=0'".toList,
        "'ASAN_OPTIONS': '".toList ++ options ++ "'".toList),
      ("halt_on_error=1')".toList, "halt_on_error=1:handle_segv=0')".toList),
      ("'-fsanitize=address,undefined', '-g'".toList,
        "'-fsanitize=address,undefined', '-no-pie', '-g'".toList)]
  required := ["handle_segv=0".toList, "'-no-pie'".toList]

def testBashPidCache : Recipe where
  relative := "experiments/mmu-poc/programs/test-bash-pid-cache.py".toList
  replacements :=
    [("\"-fsanitize=address,undefined\", \"-o\"".toList,
        "\"-fsanitize=address,undefined\", \"-no-pie\", \"-o\"".toList),
      ("\"ASAN_OPTIONS\": \"detect_leaks=0\"".toList,
        "\"ASAN_OPTIONS\": \"".toList ++ options ++ "\"".toList)]
  required := ["handle_segv=0".toList, "\"-no-pie\"".toList]

/-- The four calls of `edit`. -/
def recipes : List Recipe := [containerBuild, testHost, testReclaim, testBashPidCache]

/-- The overlay, with the patches in the order of their names. -/
def apply (patches : List (Text × Text)) (tree : Tree) : Except Raised Tree := do
  let text ← readText tree config
  let tree ← patches.foldlM copyfile tree
  let tree := writeText tree config (settings.foldl applySetting text)
  recipes.foldlM (fun tree r => edit tree r.relative r.replacements r.required) tree

end Esp32Fx.Tools.Overlay
