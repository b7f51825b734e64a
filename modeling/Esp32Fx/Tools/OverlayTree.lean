import Esp32Fx.Tools.OverlayFacts

/-! The overlay on a whole tree.  What it leaves in the recipes has nothing more to replace: a later
replacement of a recipe keeps the words that the earlier ones put in and makes none that they would
replace. -/

namespace Esp32Fx.Tools.Overlay

open Lib Lib.Py

/-! ### Recipes -/

/-- There is nothing more to replace. -/
def Settled (value : Text) (replacement : Text × Text) : Prop :=
  replacement.2 <:+: value ∨ ¬replacement.1 <:+: value

/-- The first replacement inserts something in the middle of its word, and the second one's words
have not the characters around it next to each other. -/
def Spares (replacement other : Text × Text) : Prop :=
  ∃ x c b m d y, replacement = (x ++ [c] ++ d :: y, x ++ [c] ++ (b :: m ++ d :: y)) ∧
    ¬[c, d] <:+: other.2 ∧ ¬[c, b] <:+: other.1 ∧ ¬other.1.take 2 <:+: b :: m ++ [d]

variable {value : Text} {replacement other : Text × Text}

theorem replaceUnless_of_settled (h : Settled value replacement) :
    replaceUnless value replacement = value := by
  rw [replaceUnless]
  split
  · rfl
  · next hAbsent => exact replace_of_not_mem (h.resolve_left hAbsent)

theorem replaceUnless_settles (hNonempty : replacement.1 ≠ []) (value : Text) :
    Settled (replaceUnless value replacement) replacement := by
  rw [replaceUnless]
  split
  · next hPresent => exact .inl hPresent
  · by_cases hBefore : replacement.1 <:+: value
    · exact .inl (mem_replace hNonempty hBefore)
    · rw [replace_of_not_mem hBefore]
      exact .inr hBefore

theorem replaceUnless_spares (hSpares : Spares replacement other) (h : Settled value other) :
    Settled (replaceUnless value replacement) other := by
  rw [replaceUnless]
  split
  · exact h
  · obtain ⟨x, c, b, m, d, y, rfl, hAfter, hBefore, hFirst⟩ := hSpares
    have hInserted := replace_inserted (m := b :: m) (c := c) (d := d) x y value
    obtain h | h := h
    · exact .inl (hInserted.keeps hAfter h)
    · exact .inr fun hMem => h (hInserted.makes_none hBefore hFirst hMem)

/-- Replacements that spare the earlier ones leave nothing more to replace. -/
theorem foldl_settles {replacements : List (Text × Text)}
    (hSpares : replacements.Pairwise fun other replacement => Spares replacement other)
    (hNonempty : ∀ r ∈ replacements, r.1 ≠ []) (value : Text) :
    ∀ r ∈ replacements, Settled (replacements.foldl replaceUnless value) r := by
  induction replacements using List.reverseRecOn with
  | nil => exact fun r h => nomatch h
  | append_singleton earlier last ih =>
    obtain ⟨hEarlier, -, hLast⟩ := List.pairwise_append.mp hSpares
    intro r hMem
    rw [List.foldl_append, List.foldl_cons, List.foldl_nil]
    obtain hMem | hMem := List.mem_append.mp hMem
    · apply replaceUnless_spares (hLast r hMem last (List.mem_singleton_self _))
      exact ih hEarlier (fun r h => hNonempty r (List.mem_append_left _ h)) r hMem
    · obtain rfl := List.mem_singleton.mp hMem
      exact replaceUnless_settles (hNonempty r (List.mem_append_right _ hMem)) _

theorem foldl_of_settled {replacements : List (Text × Text)}
    (h : ∀ r ∈ replacements, Settled value r) : replacements.foldl replaceUnless value = value := by
  induction replacements with
  | nil => rfl
  | cons r replacements ih =>
    rw [List.foldl_cons, replaceUnless_of_settled (h r List.mem_cons_self)]
    exact ih fun r' h' => h r' (List.mem_cons_of_mem _ h')

/-- What the replacements of a recipe make of its text. -/
def Recipe.edited (r : Recipe) (value : Text) : Text := r.replacements.foldl replaceUnless value

theorem testHost_spares :
    testHost.replacements.Pairwise fun other replacement => Spares replacement other := by
  apply List.pairwise_pair.mpr
  exact ⟨"-g -O".toList, '1', ' ', "-no-pie".toList, ' ', [], by decide +kernel⟩

theorem testReclaim_spares :
    testReclaim.replacements.Pairwise fun other replacement => Spares replacement other := by
  apply List.Pairwise.cons _ (List.pairwise_pair.mpr _)
  · rintro replacement (_ | ⟨_, _ | ⟨_, h⟩⟩)
    · exact ⟨"halt_on_error=".toList, '1', ':', "handle_segv=0".toList, '\'', [')'],
        by decide +kernel⟩
    · exact ⟨"'-fsanitize=address,undefined', ".toList, '\'', '-', "no-pie', '".toList, '-',
        "g'".toList, by decide +kernel⟩
    · cases h
  · exact ⟨"'-fsanitize=address,undefined', ".toList, '\'', '-', "no-pie', '".toList, '-',
      "g'".toList, by decide⟩

theorem testBashPidCache_spares :
    testBashPidCache.replacements.Pairwise fun other replacement => Spares replacement other := by
  apply List.pairwise_pair.mpr
  exact ⟨"\"ASAN_OPTIONS\": \"detect_leaks=".toList, '0', ':',
    "abort_on_error=1:halt_on_error=1:handle_segv=0".toList, '"', [], by decide⟩

theorem recipes_spare : ∀ r ∈ recipes,
    r.replacements.Pairwise fun other replacement => Spares replacement other := by
  rintro r (_ | ⟨_, _ | ⟨_, _ | ⟨_, _ | ⟨_, h⟩⟩⟩⟩)
  · exact List.pairwise_singleton ..
  · exact testHost_spares
  · exact testReclaim_spares
  · exact testBashPidCache_spares
  · cases h

theorem recipes_nonempty : ∀ r ∈ recipes, ∀ replacement ∈ r.replacements, replacement.1 ≠ [] := by
  decide

/-- The replacements of a recipe find nothing more to do in what they leave. -/
theorem edited_twice {r : Recipe} (hRecipe : r ∈ recipes) (value : Text) :
    r.edited (r.edited value) = r.edited value :=
  foldl_of_settled (foldl_settles (recipes_spare r hRecipe) (recipes_nonempty r hRecipe) value)

/-! ### Reading back -/

theorem universalNewlines_no_return (text : Text) : '\r' ∉ universalNewlines text := by
  fun_induction universalNewlines text with
  | case1 => exact List.not_mem_nil
  | case2 rest ih =>
    rw [List.mem_cons, not_or]
    exact ⟨by decide, ih⟩
  | case3 c rest hNotPair ih =>
    rw [List.mem_cons, not_or]
    refine ⟨?_, ih⟩
    split
    · decide
    · next h => exact fun hReturn => h hReturn.symm

/-- A text without carriage returns is read as it is. -/
theorem universalNewlines_of_no_return {text : Text} (h : '\r' ∉ text) :
    universalNewlines text = text := by
  induction text with
  | nil => rfl
  | cons c rest ih =>
    rw [List.mem_cons, not_or] at h
    have hFirst : c ≠ '\r' := fun hReturn => h.1 hReturn.symm
    rw [universalNewlines, if_neg hFirst, ih h.2]
    rintro rest rfl
    exact absurd rfl hFirst

theorem words_no_return :
    ∀ r ∈ recipes, ∀ replacement ∈ r.replacements, '\r' ∉ replacement.2 := by
  decide +kernel

theorem edited_no_return {r : Recipe} (hRecipe : r ∈ recipes) (h : '\r' ∉ value) :
    '\r' ∉ r.edited value := by
  have hStep (replacement : Text × Text) (hWord : '\r' ∉ replacement.2) (value : Text)
      (h : '\r' ∉ value) : '\r' ∉ replaceUnless value replacement := by
    rw [replaceUnless]
    split
    · exact h
    · exact fun hMem => (mem_of_replace hMem).elim h hWord
  rw [Recipe.edited]
  generalize hReplacements : r.replacements = replacements
  have hAll := hReplacements ▸ words_no_return r hRecipe
  clear hReplacements
  induction replacements generalizing value with
  | nil => exact h
  | cons replacement replacements ih =>
    rw [List.foldl_cons]
    apply ih (hStep replacement (hAll replacement List.mem_cons_self) value h)
    exact fun r' h' => hAll r' (List.mem_cons_of_mem _ h')

theorem configured_no_return {text : Text} (h : '\r' ∉ text) : '\r' ∉ configured text := by
  have hLines : ∀ s ∈ settings, '\r' ∉ settingLine s ++ ['\n'] := by decide
  rw [configured]
  generalize settings = all at hLines
  induction all generalizing text with
  | nil => exact h
  | cons s all ih =>
    rw [List.foldl_cons]
    apply ih _ fun t ht => hLines t (List.mem_cons_of_mem _ ht)
    intro hMem
    obtain hMem | hMem := List.mem_append.mp hMem
    · exact h (mem_of_sub hMem)
    · exact hLines s List.mem_cons_self hMem

/-! ### The tree -/

variable {tree after : Tree} {patches : List (Text × Text)}

theorem writeText_file (tree : Tree) (path text : Text) :
    (writeText tree path text).files path = some text := Directory.put_self _ _ _

theorem writeText_other {path other : Text} (h : other ≠ path) (tree : Tree) (text : Text) :
    (writeText tree path text).files other = tree.files other := Directory.put_of_ne h _ _

theorem readText_eq_ok {path text : Text} : readText tree path = .ok text ↔
    ∃ raw, tree.files path = some raw ∧ text = universalNewlines raw := by
  rw [readText]
  cases tree.files path with
  | none => simp
  | some raw => simp [eq_comm]

/-- The call of `edit` for a recipe. -/
def editRecipe (tree : Tree) (r : Recipe) : Except Raised Tree :=
  edit tree r.relative r.replacements r.required

def HasMarkers (r : Recipe) (value : Text) : Prop := ∀ marker ∈ r.required, marker <:+: value

theorem bind_eq_ok {α β : Type} {x : Except Raised α} {f : α → Except Raised β} {b : β} :
    x >>= f = .ok b ↔ ∃ a, x = .ok a ∧ f a = .ok b := by
  cases x with
  | error e => simp [bind, Except.bind]
  | ok a => simp [bind, Except.bind]

theorem editText_eq_ok {r : Recipe} {value edited : Text} :
    editText r.relative r.replacements r.required value = .ok edited ↔
      HasMarkers r (r.edited value) ∧ edited = r.edited value := by
  have hMarkers : (r.required.all fun marker => decide (marker <:+: r.edited value)) = true ↔
      HasMarkers r (r.edited value) := by
    simp [HasMarkers]
  rw [editText, ← Recipe.edited, ← hMarkers]
  by_cases hAll : (r.required.all fun marker => decide (marker <:+: r.edited value)) = true
  · simp only [hAll, if_true, Except.ok.injEq, true_and, eq_comm]
  · simp [hAll]

theorem editRecipe_eq_ok {r : Recipe} : editRecipe tree r = .ok after ↔
    ∃ raw, tree.files r.relative = some raw ∧ HasMarkers r (r.edited (universalNewlines raw)) ∧
      after = writeText tree r.relative (r.edited (universalNewlines raw)) := by
  simp only [editRecipe, edit, bind_eq_ok, readText_eq_ok, editText_eq_ok]
  constructor
  · rintro ⟨_, ⟨raw, hRaw, rfl⟩, _, ⟨hMarkers, rfl⟩, hAfter⟩
    exact ⟨raw, hRaw, hMarkers, (Except.ok.inj hAfter).symm⟩
  · rintro ⟨raw, hRaw, hMarkers, rfl⟩
    exact ⟨_, ⟨raw, hRaw, rfl⟩, _, ⟨hMarkers, rfl⟩, rfl⟩

/-- What the calls of `edit` leave: each recipe edited, and the other files as they were. -/
theorem foldlM_editRecipe {all : List Recipe} (hDistinct : (all.map (·.relative)).Nodup)
    (h : all.foldlM editRecipe tree = .ok after) :
    after.isDirectory = tree.isDirectory ∧
      (∀ path ∉ all.map (·.relative), after.files path = tree.files path) ∧
      ∀ r ∈ all, ∃ raw, HasMarkers r (r.edited (universalNewlines raw)) ∧
        after.files r.relative = some (r.edited (universalNewlines raw)) := by
  induction all generalizing tree with
  | nil =>
    obtain rfl := Except.ok.inj h
    exact ⟨rfl, fun _ _ => rfl, fun r h => nomatch h⟩
  | cons r all ih =>
    obtain ⟨hNew, hDistinct⟩ := List.nodup_cons.mp hDistinct
    rw [List.foldlM_cons, bind_eq_ok] at h
    obtain ⟨edited, hEdit, hRest⟩ := h
    obtain ⟨raw, hRaw, hMarkers, rfl⟩ := editRecipe_eq_ok.mp hEdit
    obtain ⟨hDirectory, hOthers, hEach⟩ := ih hDistinct hRest
    refine ⟨hDirectory, ?_, ?_⟩
    · intro path hPath
      rw [List.map_cons, List.mem_cons, not_or] at hPath
      rw [hOthers path hPath.2, writeText_other hPath.1]
    · rintro r' (_ | ⟨_, hMem⟩)
      · refine ⟨raw, hMarkers, ?_⟩
        rw [hOthers r.relative hNew, writeText_file]
      · exact hEach r' hMem

theorem foldlM_editRecipe_succeeds {all : List Recipe} (hDistinct : (all.map (·.relative)).Nodup)
    (h : ∀ r ∈ all, ∃ raw, tree.files r.relative = some raw ∧
      HasMarkers r (r.edited (universalNewlines raw))) :
    ∃ after, all.foldlM editRecipe tree = .ok after := by
  induction all generalizing tree with
  | nil => exact ⟨tree, rfl⟩
  | cons r all ih =>
    obtain ⟨hNew, hDistinct⟩ := List.nodup_cons.mp hDistinct
    obtain ⟨raw, hRaw, hMarkers⟩ := h r List.mem_cons_self
    have hEdit := editRecipe_eq_ok.mpr ⟨raw, hRaw, hMarkers, rfl⟩
    rw [List.foldlM_cons, hEdit]
    apply ih hDistinct
    intro r' hMem
    have hOther : r'.relative ≠ r.relative :=
      fun hSame => hNew (List.mem_map.mpr ⟨r', hMem, hSame⟩)
    rw [writeText_other hOther]
    exact h r' (List.mem_cons_of_mem _ hMem)

theorem writeText_self {path text : Text} (h : tree.files path = some text) :
    writeText tree path text = tree := by
  have hFiles : tree.files.put path text = tree.files := by
    rw [Directory.put, ← h, Function.update_eq_self]
  rw [writeText, hFiles]

/-- Where every recipe is edited already, the calls change nothing. -/
theorem foldlM_editRecipe_again {all : List Recipe} (hRecipes : ∀ r ∈ all, r ∈ recipes)
    (h : ∀ r ∈ all, ∃ raw, HasMarkers r (r.edited (universalNewlines raw)) ∧
      tree.files r.relative = some (r.edited (universalNewlines raw))) :
    all.foldlM editRecipe tree = .ok tree := by
  induction all with
  | nil => rfl
  | cons r all ih =>
    obtain ⟨raw, hMarkers, hFile⟩ := h r List.mem_cons_self
    have hRecipe := hRecipes r List.mem_cons_self
    have hRead : universalNewlines (r.edited (universalNewlines raw)) =
        r.edited (universalNewlines raw) :=
      universalNewlines_of_no_return (edited_no_return hRecipe (universalNewlines_no_return raw))
    have hEdit : editRecipe tree r = .ok tree := by
      apply editRecipe_eq_ok.mpr
      refine ⟨_, hFile, ?_, ?_⟩
      · rwa [hRead, edited_twice hRecipe]
      · rw [hRead, edited_twice hRecipe, writeText_self hFile]
    rw [List.foldlM_cons, hEdit]
    exact ih (fun r h => hRecipes r (List.mem_cons_of_mem _ h))
      fun r' h' => h r' (List.mem_cons_of_mem _ h')

/-! ### The patches -/

def patchPath (name : Text) : Text := patchDirectory ++ '/' :: name

/-- The files with the patches over them. -/
def patched (patches : List (Text × Text)) (files : Directory Text Text) : Directory Text Text :=
  patches.foldl (fun files patch => files.put (patchPath patch.1) patch.2) files

def CanCopy (tree : Tree) (patches : List (Text × Text)) : Prop :=
  ∀ patch ∈ patches,
    tree.isDirectory patchDirectory = true ∧ tree.isDirectory (patchPath patch.1) = false

theorem copyfile_eq_ok {patch : Text × Text} : copyfile tree patch = .ok after ↔
    (tree.isDirectory patchDirectory = true ∧ tree.isDirectory (patchPath patch.1) = false) ∧
      after = writeText tree (patchPath patch.1) patch.2 := by
  rw [copyfile, ← patchPath]
  cases tree.isDirectory patchDirectory with
  | false => simp
  | true =>
    cases tree.isDirectory (patchPath patch.1) with
    | false => simp [eq_comm]
    | true => simp

theorem foldlM_copyfile : patches.foldlM copyfile tree = .ok after ↔
    CanCopy tree patches ∧ after = { tree with files := patched patches tree.files } := by
  induction patches generalizing tree with
  | nil =>
    constructor
    · intro h
      obtain rfl := Except.ok.inj h
      exact ⟨fun patch h => absurd h List.not_mem_nil, rfl⟩
    · rintro ⟨-, h⟩
      rw [h]
      rfl
  | cons patch patches ih =>
    rw [List.foldlM_cons, bind_eq_ok]
    constructor
    · rintro ⟨copied, hCopy, hRest⟩
      obtain ⟨hFirst, rfl⟩ := copyfile_eq_ok.mp hCopy
      obtain ⟨hOthers, rfl⟩ := ih.mp hRest
      exact ⟨List.forall_mem_cons.mpr ⟨hFirst, hOthers⟩, rfl⟩
    · rintro ⟨hCan, rfl⟩
      obtain ⟨hFirst, hOthers⟩ := List.forall_mem_cons.mp hCan
      exact ⟨_, copyfile_eq_ok.mpr ⟨hFirst, rfl⟩, ih.mpr ⟨hOthers, rfl⟩⟩

/-- A file is a patch, whatever was there, or stays. -/
theorem patched_file (patches : List (Text × Text)) (path : Text) :
    ((∃ name, path = patchPath name) ∧ ∃ text, ∀ files, patched patches files path = some text) ∨
      ∀ files, patched patches files path = files path := by
  induction patches with
  | nil => exact .inr fun files => rfl
  | cons patch patches ih =>
    obtain ⟨hName, text, hText⟩ | hStays := ih
    · exact .inl ⟨hName, text, fun files => hText _⟩
    · by_cases hPath : path = patchPath patch.1
      · refine .inl ⟨⟨patch.1, hPath⟩, patch.2, fun files => ?_⟩
        rw [patched, List.foldl_cons, ← patched, hStays, hPath]
        exact Directory.put_self _ _ _
      · refine .inr fun files => ?_
        rw [patched, List.foldl_cons, ← patched, hStays]
        exact Directory.put_of_ne hPath _ _

theorem patchPath_ne (name : Text) : ∀ path ∈ config :: recipes.map (·.relative),
    patchPath name ≠ path := by
  have hStarts : ∀ path ∈ config :: recipes.map (·.relative), ¬patchDirectory <+: path := by
    decide
  rintro path hMem rfl
  exact hStarts _ hMem (List.prefix_append _ _)

theorem recipes_distinct : (config :: recipes.map (·.relative)).Nodup := by decide

/-! ### The overlay twice -/

/-- The text of the configuration as it is read: a CR LF or a CR of the file is a line feed in it, and
the overlay writes the line feed. -/
def configText (tree : Tree) : Text := (tree.files config).elim [] universalNewlines

/-- What a successful overlay has done. -/
theorem apply_eq_ok (h : apply patches tree = .ok after) :
    CanCopy after patches ∧ patched patches after.files = after.files ∧
      after.files config = some (configured (configText tree)) ∧
      ∀ r ∈ recipes, ∃ raw, HasMarkers r (r.edited (universalNewlines raw)) ∧
        after.files r.relative = some (r.edited (universalNewlines raw)) := by
  simp only [apply, bind_eq_ok, readText_eq_ok, foldlM_copyfile] at h
  obtain ⟨_, ⟨raw, hConfig, rfl⟩, _, ⟨hCan, rfl⟩, hEdits⟩ := h
  obtain ⟨hNew, hDistinct⟩ := List.nodup_cons.mp recipes_distinct
  obtain ⟨hDirectory, hOthers, hRecipes⟩ := foldlM_editRecipe hDistinct hEdits
  refine ⟨?_, ?_, ?_, hRecipes⟩
  · rw [CanCopy, hDirectory]
    exact hCan
  · funext path
    obtain ⟨⟨name, rfl⟩, text, hText⟩ | hStays := patched_file patches path
    · have hOther := patchPath_ne name
      have hOutside : patchPath name ∉ recipes.map (·.relative) :=
        fun hMem => hOther _ (List.mem_cons_of_mem _ hMem) rfl
      rw [hText, hOthers _ hOutside, writeText_other (hOther config List.mem_cons_self)]
      exact (hText _).symm
    · exact hStays _
  · rw [hOthers config hNew, writeText_file, configText, hConfig]
    rfl

theorem configText_no_return (tree : Tree) : '\r' ∉ configText tree := by
  rw [configText]
  cases tree.files config with
  | none => exact List.not_mem_nil
  | some raw => exact universalNewlines_no_return raw

theorem configText_after (h : apply patches tree = .ok after) :
    configText after = configured (configText tree) := by
  obtain ⟨-, -, hConfig, -⟩ := apply_eq_ok h
  rw [configText, hConfig, Option.elim_some]
  exact universalNewlines_of_no_return (configured_no_return (configText_no_return tree))

/-- The second time changes nothing, and the configuration has every setting in a line of its own
and its other lines as they were, just if its last line is done to begin with. -/
theorem apply_twice_iff (h : apply patches tree = .ok after) :
    (apply patches after = .ok after ∧ IsConfigured (configText tree) (configText after)) ↔
      LastLineDone (configText tree) := by
  obtain ⟨hCan, hPatched, hConfig, hRecipes⟩ := apply_eq_ok h
  have hAfter := configText_after h
  rw [hAfter]
  constructor
  · rintro ⟨-, hConfigured⟩
    exact done_of_isConfigured hConfigured
  · intro hDone
    refine ⟨?_, isConfigured_of_done hDone⟩
    have hWrite : writeText after config (configured (configText after)) = after := by
      rw [hAfter, configured_twice hDone]
      exact writeText_self hConfig
    have hText : readText after config = .ok (configText after) := by
      rw [readText, configText, hConfig, Option.elim_some]
    have hCopy : patches.foldlM copyfile after = .ok after := by
      apply foldlM_copyfile.mpr
      exact ⟨hCan, by rw [hPatched]⟩
    apply bind_eq_ok.mpr
    refine ⟨configText after, hText, bind_eq_ok.mpr ⟨after, hCopy, ?_⟩⟩
    rw [← configured, hWrite]
    exact foldlM_editRecipe_again (fun r h => h) hRecipes

/-- The words of a recipe that the overlay replaces, one after the other. -/
def Recipe.upstream (r : Recipe) : Text := r.replacements.flatMap fun replacement => replacement.1

/-- A tree with a configuration and the recipes before the overlay. -/
def sampleTree (configuration : Text) : Tree where
  isDirectory := fun path => path = patchDirectory
  files := fun path =>
    if path = config then some configuration
    else (recipes.find? fun r => r.relative = path).map Recipe.upstream

/-- The overlay puts the markers in, which are not there before. -/
theorem upstream_markers : ∀ r ∈ recipes,
    HasMarkers r (r.edited (universalNewlines r.upstream)) ∧ ¬HasMarkers r r.upstream := by
  simp only [HasMarkers]
  decide +kernel

/-- Of recipes for distinct files, the one for a file is found. -/
theorem find?_relative {all : List Recipe} (hDistinct : (all.map (·.relative)).Nodup) {r : Recipe}
    (hMem : r ∈ all) : (all.find? fun r' => r'.relative = r.relative) = some r := by
  induction all with
  | nil => cases hMem
  | cons first all ih =>
    obtain ⟨hNew, hDistinct⟩ := List.nodup_cons.mp hDistinct
    obtain rfl | hMem := List.mem_cons.mp hMem
    · simp
    · have hOther : first.relative ≠ r.relative :=
        fun hSame => hNew (List.mem_map.mpr ⟨r, hMem, hSame.symm⟩)
      rw [List.find?_cons_of_neg (by simpa using hOther), ih hDistinct hMem]

theorem sampleTree_recipe (configuration : Text) {r : Recipe} (hMem : r ∈ recipes) :
    (sampleTree configuration).files r.relative = some r.upstream := by
  have hDistinct := List.nodup_cons.mp recipes_distinct
  have hOther : r.relative ≠ config := fun hSame => hDistinct.1 (List.mem_map.mpr ⟨r, hMem, hSame⟩)
  simp only [sampleTree, if_neg hOther, find?_relative hDistinct.2 hMem, Option.map_some]

theorem sampleTree_applied (configuration : Text) :
    ∃ after, apply [] (sampleTree configuration) = .ok after := by
  have hDistinct := List.nodup_cons.mp recipes_distinct
  obtain ⟨after, hEdits⟩ : ∃ after, recipes.foldlM editRecipe (writeText (sampleTree configuration)
      config (configured (universalNewlines configuration))) = .ok after := by
    apply foldlM_editRecipe_succeeds hDistinct.2
    intro r hMem
    have hOther : r.relative ≠ config :=
      fun hSame => hDistinct.1 (List.mem_map.mpr ⟨r, hMem, hSame⟩)
    refine ⟨r.upstream, ?_, (upstream_markers r hMem).1⟩
    rw [writeText_other hOther, sampleTree_recipe configuration hMem]
  have hFile : (sampleTree configuration).files config = some configuration := by
    simp only [sampleTree, if_true]
  have hRead := readText_eq_ok.mpr ⟨configuration, hFile, rfl⟩
  have hCopy : [].foldlM copyfile (sampleTree configuration) = .ok (sampleTree configuration) := rfl
  refine ⟨after, bind_eq_ok.mpr ⟨_, hRead, bind_eq_ok.mpr ⟨_, hCopy, ?_⟩⟩⟩
  exact hEdits

/-- The first time every recipe is edited, the second time none. -/
theorem apply_twice_sample : ∃ after, apply [] (sampleTree "CONFIG_SMP=y\n".toList) = .ok after ∧
    (∀ r ∈ recipes,
      after.files r.relative ≠ (sampleTree "CONFIG_SMP=y\n".toList).files r.relative) ∧
    apply [] after = .ok after := by
  obtain ⟨after, hAfter⟩ := sampleTree_applied "CONFIG_SMP=y\n".toList
  refine ⟨after, hAfter, fun r hMem hSame => ?_, ((apply_twice_iff hAfter).mpr (by decide)).1⟩
  obtain ⟨-, -, -, hRecipes⟩ := apply_eq_ok hAfter
  obtain ⟨raw, hMarkers, hFile⟩ := hRecipes r hMem
  rw [sampleTree_recipe _ hMem, hFile] at hSame
  exact (upstream_markers r hMem).2 (Option.some.inj hSame ▸ hMarkers)

/-- Without a line feed at the end, the first of the settings is glued to the last line. -/
theorem apply_glues : ¬∀ (patches : List (Text × Text)) (tree after : Tree),
    apply patches tree = .ok after →
      apply patches after = .ok after ∧ IsConfigured (configText tree) (configText after) := by
  intro h
  obtain ⟨after, hAfter⟩ := sampleTree_applied "CONFIG_SMP=y".toList
  obtain ⟨-, hConfigured⟩ := h [] _ after hAfter
  rw [configText_after hAfter] at hConfigured
  have hDone := done_of_isConfigured hConfigured
  exact absurd hDone (by decide)

end Esp32Fx.Tools.Overlay
