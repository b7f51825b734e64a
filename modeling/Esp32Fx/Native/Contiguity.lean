import Esp32Fx.ExampleTools.RunTests
import Esp32Fx.Lib.Loop
import Mathlib.Logic.Function.Basic

/-! The contiguity guards of `runtime/fx_wamr_native.c` over the life of the runner: `main` prepares
them, `run_tests` lends them to its helper and takes them back, as often as the guest asks for it,
and `main` releases them.  The diagnostics are left out.

The world has the mappings that the guards have made, and for each time that the guest has run those
that were there then. -/

namespace Esp32Fx.Native.Contiguity

open Lib Program

/-! ### The guards -/

/-- `purpose`: `shell_guard` or `test_guard`. -/
inductive Purpose
  | shell
  | test
  deriving DecidableEq, Repr

/-- `FX_WAMR_SHELL_CONTIGUITY_GUARD_BYTES` and `FX_WAMR_TEST_CONTIGUITY_GUARD_BYTES`, where they are
defined. -/
abbrev Build := Purpose → Option Nat

/-- `struct contiguity_guard`. -/
structure ContiguityGuard where
  mapping : Option Nat
  length : Nat
  deriving DecidableEq, Repr

/-- A guard that `memset` has cleared. -/
def ContiguityGuard.zero : ContiguityGuard := ⟨none, 0⟩

abbrev Guards := Purpose → ContiguityGuard

inductive Call
  | map (length : Nat)
  | unmap (mapping length : Nat)
  /-- The helper of `run_tests`, from `vfork` to its end. -/
  | helper
  /-- All up to the next time that `run_tests` comes to its helper, or the end of the guest. -/
  | guest
  /-- A call that does not return. -/
  | hang
  deriving DecidableEq

def Call.Answer : Call → Type
  | .map _ => Option Nat
  | .unmap _ _ | .guest => Bool
  | .helper => Unit
  | .hang => Empty

abbrev Mapper := Program Call Call.Answer

def map (length : Nat) : Mapper (Option Nat) := Program.perform (Call.map length)

def unmap (mapping length : Nat) : Mapper Bool := Program.perform (Call.unmap mapping length)

def helper : Mapper Unit := Program.perform Call.helper

def guest : Mapper Bool := Program.perform Call.guest

def hang {α : Type} : Mapper α := .call .hang Empty.elim

/-- `acquire_guard`: whether it returns 0, and the guard. -/
def acquireGuard (guard : ContiguityGuard) (length : Nat) : Mapper (Bool × ContiguityGuard) :=
  match guard.mapping with
  | some _ => return (guard.length == length, guard)
  | none => do
    match ← map length with
    | none => return (false, guard)
    | some mapping => return (true, ⟨some mapping, length⟩)

/-- `release_guard`: whether it returns 0, and the guard. -/
def releaseGuard (guard : ContiguityGuard) : Mapper (Bool × ContiguityGuard) :=
  match guard.mapping with
  | none => return (false, guard)
  | some mapping => do
    if ← unmap mapping guard.length then return (true, { guard with mapping := none })
    else return (false, guard)

/-- `acquire_guard` of one of the guards, if the build has it. -/
def acquireFor (build : Build) (purpose : Purpose) (guards : Guards) : Mapper (Bool × Guards) :=
  match build purpose with
  | none => return (true, guards)
  | some length => do
    let (ok, guard) ← acquireGuard (guards purpose) length
    return (ok, Function.update guards purpose guard)

/-- `release_guard` of one of the guards. -/
def releaseFor (purpose : Purpose) (guards : Guards) : Mapper (Bool × Guards) := do
  let (ok, guard) ← releaseGuard (guards purpose)
  return (ok, Function.update guards purpose guard)

/-- Both guards are acquired, or the first is released again. -/
def acquireBoth (build : Build) (guards : Guards) : Mapper (Bool × Guards) := do
  let (ok, guards) ← acquireFor build .shell guards
  if !ok then return (false, guards)
  else
    let (ok, guards) ← acquireFor build .test guards
    if ok then return (true, guards)
    else if (build .shell).isSome then
      let (_, guards) ← releaseFor .shell guards
      return (false, guards)
    else return (false, guards)

/-- `fx_wamr_prepare_low_memory_guards`. -/
def prepareLowMemoryGuards (build : Build) (guards : Guards) : Mapper (Bool × Guards) :=
  acquireBoth build guards

/-- `fx_wamr_rearm_test_contiguity_guard`. -/
def rearmTestContiguityGuard (build : Build) (guards : Guards) : Mapper (Bool × Guards) :=
  acquireBoth build guards

/-- `fx_wamr_lend_test_contiguity_guard`. -/
def lendTestContiguityGuard (build : Build) (guards : Guards) : Mapper (Bool × Guards) := do
  let (ok, guards) ← releaseFor .shell guards
  if !ok then return (false, guards)
  else
    let (ok, guards) ← releaseFor .test guards
    if ok then return (true, guards)
    else
      let (_, guards) ← acquireFor build .shell guards
      return (false, guards)

/-- A guard of `fx_wamr_release_low_memory_guards`. -/
def dropGuard (build : Build) (purpose : Purpose) (guards : Guards) : Mapper Guards :=
  match build purpose, (guards purpose).mapping with
  | none, _ => return guards
  | some _, none => return Function.update guards purpose .zero
  | some _, some _ => do
    let _ ← releaseGuard (guards purpose)
    return Function.update guards purpose .zero

/-- `fx_wamr_release_low_memory_guards`. -/
def releaseLowMemoryGuards (build : Build) (guards : Guards) : Mapper Guards := do
  let guards ← dropGuard build .test guards
  dropGuard build .shell guards

/-- What `run_tests` does about the guards. -/
def runTests (build : Build) (guards : Guards) : Mapper Guards :=
  if (build .shell).isSome && (build .test).isSome then do
    let (lent, guards) ← lendTestContiguityGuard build guards
    if !lent then return guards
    else
      helper
      let (_, guards) ← rearmTestContiguityGuard build guards
      return guards
  else do
    helper
    return guards

def guestRound (build : Build) (guards : Guards) : Mapper (Guards ⊕ Guards) := do
  if ← guest then return .inl (← runTests build guards)
  else return .inr guards

/-- The guards from the start of the runner to its end: whether they could be prepared. -/
def lifetime (rounds : Nat) (build : Build) : Mapper Bool := do
  let (ok, guards) ← prepareLowMemoryGuards build fun _ => .zero
  if !ok then return false
  else
    let guards ← loop (guestRound build) hang rounds guards
    let _ ← releaseLowMemoryGuards build guards
    return true

/-! ### The world -/

structure World where
  /-- The lengths of the mappings that the guards have made. -/
  own : Nat → Option Nat
  /-- Those that were there at each time that the guest has run. -/
  seen : List (Nat → Option Nat)
  /-- The calls of `munmap` that have failed. -/
  failures : List Call

/-- What the calls can answer. -/
def host : Environment Call Call.Answer World := fun s c x t =>
  match c, x with
  | .map _, none => t = s
  | .map length, some mapping =>
    s.own mapping = none ∧ t = { s with own := Function.update s.own mapping (some length) }
  | .unmap mapping _, true => t = { s with own := Function.update s.own mapping none }
  | .unmap mapping length, false => t = { s with failures := s.failures ++ [.unmap mapping length] }
  | .helper, _ => t = s
  | .guest, _ => t = { s with seen := s.seen ++ [s.own] }
  | .hang, x => x.elim

/-! ### What the guards have -/

/-- The mappings are those of the guards, each of the length that the build gives it, beside those
of `lost`. -/
structure Backed (build : Build) (lost : Nat → Prop) (guards : Guards) (own : Nat → Option Nat) :
    Prop where
  held : ∀ purpose mapping, (guards purpose).mapping = some mapping →
    own mapping = some (guards purpose).length ∧ build purpose = some (guards purpose).length
  apart : ∀ purpose purpose' mapping, (guards purpose).mapping = some mapping →
    (guards purpose').mapping = some mapping → purpose = purpose'
  only : ∀ mapping, own mapping ≠ none →
    (∃ purpose, (guards purpose).mapping = some mapping) ∨ lost mapping

/-- Every guard of the build has its mapping. -/
def Full (build : Build) (guards : Guards) : Prop :=
  ∀ purpose, build purpose ≠ none → (guards purpose).mapping ≠ none

/-- Nothing is lost. -/
abbrev Sound (build : Build) (guards : Guards) (own : Nat → Option Nat) : Prop :=
  Backed build (fun _ => False) guards own

/-- The mappings are those of guards that all have theirs. -/
def Whole (build : Build) (own : Nat → Option Nat) : Prop :=
  ∃ guards, Sound build guards own ∧ Full build guards

/-- `munmap` has refused to take the mapping. -/
def Refused (s : World) (mapping : Nat) : Prop := ∃ length, Call.unmap mapping length ∈ s.failures

/-- How the calls treat the mappings. -/
def Proper (build : Build) : Call → World → Prop
  | .map length, s => ∃ guards purpose, Sound build guards s.own ∧
    (guards purpose).mapping = none ∧ build purpose = some length
  | .unmap mapping length, s => s.own mapping = some length
  | .helper, s => (∀ purpose, build purpose ≠ none) →
    s.own = (fun _ => none) ∧ ∀ own ∈ s.seen, Whole build own
  | .guest, s => ∃ guards, Sound build guards s.own
  | .hang, _ => True

abbrev MapperKeeps {α : Type} (build : Build) (Q : α → World → Prop) (p : Mapper α) (s : World) :
    Prop :=
  p.Keeps host (wholeCalls host) (fun _ => True) (Proper build) Q s

end Esp32Fx.Native.Contiguity
