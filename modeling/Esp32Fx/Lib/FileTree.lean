import Mathlib.Logic.Function.Basic

/-! Trees of files on a file system, and what `mkdir` and a recursive copy leave of the tree that is
there.  A copy is a relation: what it can leave of a tree, wherever it ends or is broken off. -/

namespace Esp32Fx.Lib

inductive Node
  | directory
  | file (bytes : List UInt8)
  /-- A link or a special file. -/
  | other
  deriving DecidableEq, Repr

/-- A tree by the names on the way from its root. -/
abbrev FileTree (Name : Type) := List Name → Option Node

namespace FileTree

variable {Name : Type} {tree tree' tree'' base : FileTree Name} {p : List Name}

/-- Whatever is in the first tree is in the second, and the same. -/
def Kept (tree tree' : FileTree Name) : Prop :=
  ∀ path node, tree path = some node → tree' path = some node

theorem Kept.refl (tree : FileTree Name) : Kept tree tree := fun _ _ h => h

theorem Kept.trans (h : Kept tree tree') (h' : Kept tree' tree'') : Kept tree tree'' :=
  fun path node hNode => h' path node (h path node hNode)

theorem Kept.none_of_none (h : Kept tree tree') (hNone : tree' p = none) :
    tree p = none := by
  cases hNode : tree p with
  | none => rfl
  | some node =>
    rw [h p node hNode] at hNone
    cases hNone

variable [DecidableEq Name]

def put (tree : FileTree Name) (path : List Name) (node : Node) : FileTree Name :=
  Function.update tree path (some node)

theorem put_self (tree : FileTree Name) (path : List Name) (node : Node) :
    tree.put path node path = some node := Function.update_self ..

theorem put_of_ne {path' : List Name} (h : path' ≠ path) (tree : FileTree Name) (node : Node) :
    tree.put path node path' = tree path' := Function.update_of_ne h ..

/-- A node keeps a tree that has nothing else in its place. -/
theorem Kept.put (h : Kept base tree) {node : Node}
    (hPlace : ∀ node', base p = some node' → node = node') : Kept base (tree.put p node) := by
  intro p' node' hNode
  by_cases hSame : p' = p
  · subst hSame
    rw [put_self, hPlace node' hNode]
  · rw [put_of_ne hSame]
    exact h p' node' hNode

/-! ### Directories -/

/-- `mkdir -p` of a directory in a directory that is there. -/
def makeDirectory (tree : FileTree Name) (path : List Name) : Option (FileTree Name) :=
  match tree path with
  | none => some (tree.put path .directory)
  | some .directory => some tree
  | some _ => none

theorem makeDirectory_kept (h : tree.makeDirectory p = some tree') : Kept tree tree' := by
  rw [makeDirectory] at h
  split at h
  · next hNone =>
    obtain rfl := Option.some.inj h
    apply (Kept.refl tree).put
    intro node hNode
    rw [hNone] at hNode
    cases hNode
  · obtain rfl := Option.some.inj h
    exact .refl tree
  · cases h

/-! ### Copies -/

/-- What stands in a directory of the tree that is copied. -/
structure Entry (Name : Type) where
  parent : List Name
  name : Name
  node : Node

def Entry.path (e : Entry Name) : List Name := e.parent ++ [e.name]

/-- A copy of entries that merges: what is nowhere near an entry stays as it is, and what is there
stays where the entries are directories. -/
structure Merges (place : List Name → List Name)
    (leaves : FileTree Name → List (Entry Name) → FileTree Name → Prop) : Prop where
  elsewhere : ∀ {tree entries tree' p}, leaves tree entries tree' →
    (∀ e ∈ entries, place e.path ≠ p) → tree' p = tree p
  directories : ∀ {tree entries tree' p node}, leaves tree entries tree' → tree p = some node →
    (∀ e ∈ entries, place e.path = p → e.node = .directory) → tree' p = some node

variable {place : List Name → List Name}
  {leaves : FileTree Name → List (Entry Name) → FileTree Name → Prop} {entries : List (Entry Name)}

/-- A copy keeps what is in a tree, if it does wherever something else than a directory goes. -/
theorem Merges.kept (h : Merges place leaves) (hLeaves : leaves tree entries tree')
    (hBase : Kept base tree)
    (hSpares : ∀ e ∈ entries, e.node ≠ .directory → ∀ node, base (place e.path) = some node →
      tree' (place e.path) = some node) : Kept base tree' := by
  intro path node hNode
  by_cases hHit : ∃ e ∈ entries, place e.path = path ∧ e.node ≠ .directory
  · obtain ⟨e, hMem, rfl, hFile⟩ := hHit
    exact hSpares e hMem hFile node hNode
  · apply h.directories hLeaves (hBase path node hNode)
    intro e hMem hPlace
    by_contra hFile
    exact hHit ⟨e, hMem, hPlace, hFile⟩

/-- A copy of files into a directory that is there: each is emptied and written in its turn. -/
inductive FilesCopied (place : List Name → List Name) :
    FileTree Name → List (Entry Name) → FileTree Name → Prop
  | stopped (tree : FileTree Name) (entries : List (Entry Name)) :
    FilesCopied place tree entries tree
  | torn {tree : FileTree Name} {e : Entry Name} {entries : List (Entry Name)} {bytes : List UInt8}
    (n : Nat) (hFile : e.node = .file bytes) :
    FilesCopied place tree (e :: entries) (tree.put (place e.path) (.file (bytes.take n)))
  | next {tree tree' : FileTree Name} {e : Entry Name} {entries : List (Entry Name)}
    {bytes : List UInt8} (hFile : e.node = .file bytes)
    (h : FilesCopied place (tree.put (place e.path) e.node) entries tree') :
    FilesCopied place tree (e :: entries) tree'

/-- All of the files. -/
def copyFiles (place : List Name → List Name) (tree : FileTree Name)
    (entries : List (Entry Name)) : FileTree Name :=
  entries.foldl (fun tree e => tree.put (place e.path) e.node) tree

theorem filesCopied_copyFiles (hFiles : ∀ e ∈ entries, ∃ bytes, e.node = .file bytes) :
    FilesCopied place tree entries (copyFiles place tree entries) := by
  induction entries generalizing tree with
  | nil => exact .stopped tree []
  | cons e entries ih =>
    obtain ⟨⟨bytes, hFile⟩, hRest⟩ := List.forall_mem_cons.mp hFiles
    exact .next hFile (ih hRest)

theorem FilesCopied.elsewhere (h : FilesCopied place tree entries tree')
    (hPlace : ∀ e ∈ entries, place e.path ≠ p) : tree' p = tree p := by
  induction h with
  | stopped => rfl
  | torn n hFile => exact put_of_ne (hPlace _ List.mem_cons_self).symm _ _
  | next hFile _ ih =>
    obtain ⟨hFirst, hRest⟩ := List.forall_mem_cons.mp hPlace
    rw [ih hRest, put_of_ne hFirst.symm]

theorem filesCopied_merges (place : List Name → List Name) : Merges place (FilesCopied place) := by
  refine ⟨fun h hPlace => h.elsewhere hPlace, ?_⟩
  intro tree entries tree' p node h hNode hDirectories
  induction h with
  | stopped => exact hNode
  | @torn tree e entries bytes n hFile =>
    have hOther : place e.path ≠ p := by
      intro hPlace
      rw [hDirectories e List.mem_cons_self hPlace] at hFile
      cases hFile
    rw [put_of_ne hOther.symm, hNode]
  | @next tree tree' e entries bytes hFile _ ih =>
    obtain ⟨hFirst, hRest⟩ := List.forall_mem_cons.mp hDirectories
    have hOther : place e.path ≠ p := by
      intro hPlace
      rw [hFirst hPlace] at hFile
      cases hFile
    exact ih (by rw [put_of_ne hOther.symm, hNode]) hRest

end FileTree

end Esp32Fx.Lib
