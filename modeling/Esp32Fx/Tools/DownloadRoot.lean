import Esp32Fx.Tools.Serial

/-! Which paths `download_root` of `tools/board_io.py` admits.  The slashes of its tests are there
on both sides of every component but the last, which is not looked at. -/

namespace Esp32Fx.Tools

/-- A component that a path keeps when it is normalised, and that leads down. -/
structure IsName (component : List Char) : Prop where
  nonempty : component ≠ []
  current : component ≠ ".".toList
  parent : component ≠ "..".toList

/-- A canonical absolute path. -/
def IsCanonical (path : List Char) : Prop :=
  ∃ rest, path = '/' :: rest ∧ ∀ component ∈ rest.splitOn '/', IsName component

/-- The directory that a component leads to. -/
def enter (directory : List (List Char)) (component : List Char) : List (List Char) :=
  if component = [] ∨ component = ".".toList then directory
  else if component = "..".toList then directory.dropLast
  else directory ++ [component]

/-- The components of an absolute path after normalisation, without a look at the file system. -/
def normalized (path : List Char) : List (List Char) := (path.splitOn '/').foldl enter []

/-- The path normalises to one strictly below that of the directory. -/
def StrictlyBelow (path directory : List Char) : Prop :=
  ∃ component components, normalized path = normalized directory ++ component :: components

/-- The component behind the last slash. -/
def lastComponent (path : List Char) : List Char := (path.splitOn '/').getLastD []

/-! ### Components -/

/-- A text without a slash is one component, and another goes on behind its first slash. -/
theorem components_cases (text : List Char) :
    text.splitOn '/' = [text] ∨ ∃ first rest, text = first ++ '/' :: rest ∧
      text.splitOn '/' = first :: rest.splitOn '/' := by
  by_cases hSlash : '/' ∈ text
  · obtain ⟨first, rest, rfl, hFirst⟩ := List.eq_append_cons_of_mem hSlash
    refine .inr ⟨first, rest, rfl, ?_⟩
    rw [List.splitOn_append_cons_self, List.splitOn_eq_singleton hFirst]
    rfl
  · exact .inl (List.splitOn_eq_singleton hSlash)

/-- A component that is not the last has a slash on both sides. -/
theorem component_slashes {text component : List Char}
    (h : component ∈ (text.splitOn '/').dropLast) :
    '/' :: (component ++ ['/']) <:+: '/' :: text := by
  induction hLength : text.length using Nat.strong_induction_on generalizing text with
  | h length ih =>
    rcases components_cases text with hWhole | ⟨first, rest, rfl, hParts⟩
    · rw [hWhole] at h
      exact absurd h List.not_mem_nil
    · rw [hParts, List.dropLast_cons_of_ne_nil (List.splitOn_ne_nil _ _)] at h
      rcases List.mem_cons.mp h with rfl | hRest
      · refine ⟨[], rest, ?_⟩
        rw [List.nil_append, List.cons_append, List.append_assoc, List.singleton_append]
      · have hShorter : rest.length < length := by
          rw [← hLength, List.length_append, List.length_cons]
          omega
        apply (ih rest.length hShorter hRest rfl).trans
        exact ⟨'/' :: first, [], by rw [List.append_nil, List.cons_append]⟩

theorem foldl_enter {components : List (List Char)} (h : ∀ component ∈ components, IsName component)
    (directory : List (List Char)) :
    components.foldl enter directory = directory ++ components := by
  induction components generalizing directory with
  | nil => exact (List.append_nil _).symm
  | cons component components ih =>
    obtain ⟨hName, hNames⟩ := List.forall_mem_cons.mp h
    have hEnter : enter directory component = directory ++ [component] := by
      rw [enter, if_neg (not_or.mpr ⟨hName.nonempty, hName.current⟩), if_neg hName.parent]
    rw [List.foldl_cons, hEnter, ih hNames, List.append_assoc]
    rfl

/-- A path goes on below a directory with names only. -/
theorem normalized_below (directory : List Char) {rest : List Char}
    (h : ∀ component ∈ rest.splitOn '/', IsName component) :
    StrictlyBelow (directory ++ '/' :: rest) directory := by
  obtain ⟨component, components, hParts⟩ :=
    List.exists_cons_of_ne_nil (List.splitOn_ne_nil '/' rest)
  refine ⟨component, components, ?_⟩
  rw [normalized, List.splitOn_append_cons_self, List.foldl_append, ← normalized, foldl_enter h,
    hParts]

/-- Nothing that is no name stands between two slashes. -/
structure IsClean (source : List Char) : Prop where
  doubled : ¬"//".toList <:+: source
  current : ¬"/./".toList <:+: source
  parent : ¬"/../".toList <:+: source

section Names

variable {directory rest : List Char}

theorem lastComponent_append (directory rest : List Char) :
    lastComponent (directory ++ '/' :: rest) =
      (rest.splitOn '/').getLast (List.splitOn_ne_nil _ _) := by
  rw [lastComponent, List.splitOn_append_cons_self, List.getLastD_eq_getLast?,
    List.getLast?_append, List.getLast?_eq_some_getLast (List.splitOn_ne_nil _ _)]
  rfl

/-- Behind a slash of a clean path there are names only, when the last component is one. -/
theorem IsClean.names (h : IsClean (directory ++ '/' :: rest))
    (hLast : IsName (lastComponent (directory ++ '/' :: rest))) :
    ∀ component ∈ rest.splitOn '/', IsName component := by
  intro component hComponent
  rw [← List.dropLast_append_getLast (List.splitOn_ne_nil '/' rest), List.mem_append,
    List.mem_singleton, ← lastComponent_append directory] at hComponent
  rcases hComponent with hInterior | rfl
  · have hInside : '/' :: (component ++ ['/']) <:+: directory ++ '/' :: rest :=
      (component_slashes hInterior).trans (List.suffix_append _ _).isInfix
    refine ⟨?_, ?_, ?_⟩
    · rintro rfl
      exact h.doubled hInside
    · rintro rfl
      exact h.current hInside
    · rintro rfl
      exact h.parent hInside
  · exact hLast

end Names

/-! ### Roots -/

/-- An admitted path goes on behind a root. -/
structure Admitted (source root : List Char) : Prop where
  clean : IsClean source
  absolute : ∃ rest, source = '/' :: rest
  below : ∃ rest, source = root ++ '/' :: rest

/-- A root is absolute and has a slash at its end. -/
theorem downloadRoots_slashes :
    ∀ root ∈ downloadRoots, root.head? = some '/' ∧ root = root.dropLast ++ ['/'] := by
  decide

theorem downloadRoot_admitted {source root : List Char} (h : downloadRoot source = .ok root) :
    Admitted source root := by
  unfold downloadRoot at h
  split at h
  · cases h
  · next hClean =>
    rw [not_or, not_or] at hClean
    split at h
    · next found hFound =>
      cases h
      obtain ⟨hHead, hSlash⟩ := downloadRoots_slashes found (List.mem_of_find?_eq_some hFound)
      obtain ⟨tail, hTail⟩ := List.head?_eq_some_iff.mp hHead
      have hTests := List.find?_some hFound
      rw [Bool.and_eq_true, decide_eq_true_eq] at hTests
      obtain ⟨rest, rfl⟩ := hTests.1
      refine ⟨⟨hClean.1, hClean.2.1, hClean.2.2⟩, ⟨tail ++ rest, ?_⟩, ⟨rest, ?_⟩⟩
      · rw [hTail, List.cons_append]
      · rw [List.append_cons, ← hSlash]
    · cases h

/-- An admitted path is canonical and leads below its root exactly when its last component is a
name. -/
theorem downloadRoot_canonical_iff {source root : List Char} (h : downloadRoot source = .ok root) :
    (IsCanonical source ∧ StrictlyBelow source root) ↔
      lastComponent source ≠ [] ∧ lastComponent source ≠ ['.'] ∧
        lastComponent source ≠ ['.', '.'] := by
  obtain ⟨hClean, ⟨tail, hTail⟩, ⟨rest, hRest⟩⟩ := downloadRoot_admitted h
  constructor
  · rintro ⟨⟨parts, hSource, hNames⟩, -⟩
    have hLast : lastComponent source ∈ parts.splitOn '/' := by
      have hSource' : source = [] ++ '/' :: parts := hSource
      rw [hSource', lastComponent_append]
      exact List.getLast_mem _
    exact ⟨(hNames _ hLast).nonempty, (hNames _ hLast).current, (hNames _ hLast).parent⟩
  · rintro ⟨hNonempty, hCurrent, hParent⟩
    have hName : IsName (lastComponent source) := ⟨hNonempty, hCurrent, hParent⟩
    have hTail' : source = [] ++ '/' :: tail := hTail
    constructor
    · rw [hTail'] at hClean hName
      exact ⟨tail, hTail, hClean.names hName⟩
    · rw [hRest] at hClean hName ⊢
      exact normalized_below root (hClean.names hName)

/-- A file in a working directory. -/
theorem downloadRoot_canonical_iff_file :
    (IsCanonical "/tmp/fx-run/log".toList ∧
        StrictlyBelow "/tmp/fx-run/log".toList "/tmp/fx-run".toList) ↔
      lastComponent "/tmp/fx-run/log".toList ≠ [] ∧
        lastComponent "/tmp/fx-run/log".toList ≠ ['.'] ∧
        lastComponent "/tmp/fx-run/log".toList ≠ ['.', '.'] :=
  downloadRoot_canonical_iff (by decide)

/-- The parent of a working directory is admitted. -/
theorem downloadRoot_parent :
    ¬∀ source root, downloadRoot source = .ok root →
      IsCanonical source ∧ StrictlyBelow source root := by
  intro h
  obtain ⟨⟨rest, hSource, hNames⟩, -⟩ :=
    h "/tmp/fx-run/..".toList "/tmp/fx-run".toList (by decide)
  have hRest : "tmp/fx-run/..".toList = rest := (List.cons.inj hSource).2
  exact (hNames "..".toList (by rw [← hRest]; decide)).parent rfl

end Esp32Fx.Tools
