import Mathlib.Logic.Function.Basic

/-! Replacement of one entry of a directory by a file that is written aside and then renamed: how
far a replacement has come, what the operations on the directory do to it, and what any number of
replacements, finished or broken off, leave as it was. -/

namespace Esp32Fx.Lib

variable {Name File : Type*}

abbrev Directory (Name File : Type*) := Name → Option File

namespace Directory

variable [DecidableEq Name]

/-- The directory with another file under a name. -/
def put (d : Directory Name File) (name : Name) (file : File) : Directory Name File :=
  Function.update d name (some file)

theorem put_self (d : Directory Name File) (name : Name) (file : File) :
    d.put name file name = some file := Function.update_self ..

theorem put_of_ne {name other : Name} (h : other ≠ name) (d : Directory Name File) (file : File) :
    d.put name file other = d other := Function.update_of_ne h _ _

def unlink (d : Directory Name File) (name : Name) : Directory Name File :=
  Function.update d name none

/-- The file under the old name comes in the place of the one under the new name. -/
def rename (d : Directory Name File) (old new : Name) : Directory Name File :=
  Function.update (Function.update d new (d old)) old none

theorem unlink_self (d : Directory Name File) (name : Name) : d.unlink name name = none :=
  Function.update_self ..

theorem unlink_of_ne {name other : Name} (h : other ≠ name) (d : Directory Name File) :
    d.unlink name other = d other := Function.update_of_ne h _ _

theorem rename_old (d : Directory Name File) (old new : Name) : d.rename old new old = none :=
  Function.update_self ..

theorem rename_new {old new : Name} (h : new ≠ old) (d : Directory Name File) :
    d.rename old new new = d old := by
  rw [rename, Function.update_of_ne h, Function.update_self]

theorem rename_of_ne {old new name : Name} (hOld : name ≠ old) (hNew : name ≠ new)
    (d : Directory Name File) : d.rename old new name = d name := by
  rw [rename, Function.update_of_ne hOld, Function.update_of_ne hNew]

end Directory

/-- How far the replacement of an entry has come. -/
inductive Stage (File : Type*)
  | untouched
  | aside (file : File)
  | replaced (file : File)
  deriving DecidableEq, Repr

namespace Stage

variable [DecidableEq Name] {entry : Directory Name File} {target aside name : Name}
  {stage : Stage File} {file : File}

/-- The directory at a stage of the replacement of `target` by way of `aside`. -/
def directory (entry : Directory Name File) (target aside : Name) : Stage File → Directory Name File
  | untouched => entry
  | .aside file => entry.put aside file
  | replaced file => entry.put target file

/-- A file is only put aside under a free name. -/
def Free (entry : Directory Name File) (aside : Name) (stage : Stage File) : Prop :=
  stage = untouched ∨ entry aside = none

theorem put_aside (other : File) :
    (directory entry target aside (.aside file)).put aside other =
      directory entry target aside (.aside other) :=
  Function.update_idem ..

theorem aside_self : directory entry target aside (.aside file) aside = some file :=
  Function.update_self ..

theorem unlink_aside (hFree : entry aside = none) :
    (directory entry target aside (.aside file)).unlink aside =
      directory entry target aside untouched := by
  show Function.update (Function.update entry aside (some file)) aside none = entry
  rw [Function.update_idem, ← hFree, Function.update_eq_self]

theorem rename_aside (hFree : entry aside = none) (hNe : aside ≠ target) :
    (directory entry target aside (.aside file)).rename aside target =
      directory entry target aside (replaced file) := by
  funext name
  simp only [directory, Directory.rename, Directory.put, Function.update_apply]
  split
  · next hAside => rw [if_neg (hAside ▸ hNe), hAside, hFree]
  · rfl

/-- Only the two names of a replacement are touched, and `aside` only if it was free. -/
theorem directory_elsewhere (hStage : stage.Free entry aside) (hTarget : name ≠ target)
    (hAside : name ≠ aside ∨ ∃ file, entry name = some file) :
    directory entry target aside stage name = entry name := by
  obtain rfl | hFree := hStage
  · rfl
  have hNe : name ≠ aside := by
    rintro rfl
    obtain hNe | ⟨file, hFile⟩ := hAside
    · exact hNe rfl
    · rw [hFree] at hFile
      cases hFile
  cases stage with
  | untouched => rfl
  | aside file => exact Function.update_of_ne hNe _ _
  | replaced file => exact Function.update_of_ne hTarget _ _

theorem target_replaced : directory entry target aside (replaced file) target = some file :=
  Function.update_self ..

theorem target_unreplaced (hNe : aside ≠ target) (hStage : ∀ file, stage ≠ replaced file) :
    directory entry target aside stage target = entry target := by
  cases stage with
  | untouched => rfl
  | aside file => exact Function.update_of_ne hNe.symm _ _
  | replaced file => exact absurd rfl (hStage file)

end Stage

/-- What replacements of `target` by files of `Good`, by way of names of `Aside`, keep of a
directory. -/
structure Replaced (start : Directory Name File) (target : Name) (Aside : Name → Prop)
    (Good : File → Prop) (d : Directory Name File) : Prop where
  elsewhere : ∀ name, name ≠ target → (∃ file, start name = some file) ∨ ¬Aside name →
    d name = start name
  target : d target = start target ∨ ∃ file, Good file ∧ d target = some file

namespace Replaced

variable {start d : Directory Name File} {target : Name} {Aside Aside' : Name → Prop}
  {Good Good' : File → Prop}

theorem refl (start : Directory Name File) (target : Name) (Aside : Name → Prop)
    (Good : File → Prop) : Replaced start target Aside Good start :=
  ⟨fun _ _ _ => rfl, .inl rfl⟩

theorem mono (h : Replaced start target Aside Good d) (hAside : ∀ name, Aside name → Aside' name)
    (hGood : ∀ file, Good file → Good' file) : Replaced start target Aside' Good' d where
  elsewhere name hTarget hName :=
    h.elsewhere name hTarget (hName.imp_right fun hNot hIs => hNot (hAside name hIs))
  target := h.target.imp_right fun ⟨file, hFile, hEq⟩ => ⟨file, hGood file hFile, hEq⟩

/-- One more replacement, at any stage. -/
theorem stage [DecidableEq Name] {aside : Name} {stage : Stage File}
    (h : Replaced start target Aside Good d) (hNe : aside ≠ target) (hAside : Aside aside)
    (hStage : stage.Free d aside) (hGood : ∀ file, stage = .replaced file → Good file) :
    Replaced start target Aside Good (stage.directory d target aside) where
  elsewhere name hTarget hName := by
    have hKept := h.elsewhere name hTarget hName
    rw [← hKept]
    apply Stage.directory_elsewhere hStage hTarget
    obtain ⟨file, hFile⟩ | hNot := hName
    · exact .inr ⟨file, hKept.trans hFile⟩
    · exact .inl fun hEq => hNot (hEq ▸ hAside)
  target := by
    by_cases hReplaced : ∃ file, stage = .replaced file
    · obtain ⟨file, rfl⟩ := hReplaced
      exact .inr ⟨file, hGood file rfl, Stage.target_replaced⟩
    · rw [Stage.target_unreplaced hNe fun file hEq => hReplaced ⟨file, hEq⟩]
      exact h.target

end Replaced

end Esp32Fx.Lib
