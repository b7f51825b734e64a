import Esp32Fx.Board.FxSd
import Esp32Fx.Lib.Loop

/-! What `fx-sd` leaves of the card.  Nothing is removed from it, and the only files that are written
where there may be some are those of the seeding. -/

namespace Esp32Fx.Board

open Lib Program FileTree

variable {fold : Name → Name} {cp : Copy} {I Q : Storage → Prop}
  {p q : SdProgram} {s t u : Storage}

/-- Every state of every run of a script has `I`, and a run that ends ends with `Q`. -/
abbrev SdKeeps (fold : Name → Name) (cp : Copy) (I Q : Storage → Prop) (p : SdProgram)
    (s : Storage) : Prop :=
  p.Keeps (shell fold cp) (shellBreaks fold cp) I (fun _ _ => True) (fun _ t => Q t) s

/-! ### Rules -/

theorem keeps_pure (hI : I s) (hQ : Q s) : SdKeeps fold cp I Q (pure ()) s := ⟨hI, hQ⟩

theorem keeps_exit (hI : I s) : SdKeeps fold cp I Q exit s := by
  refine ⟨hI, trivial, ?_, ?_⟩
  · rintro t rfl
    exact hI
  · exact fun x => x.elim

theorem keeps_test {x : SdTest} (hI : I s)
    (hYes : finds fold s x true → SdKeeps fold cp I Q p s)
    (hNo : finds fold s x false → SdKeeps fold cp I Q q s) :
    SdKeeps fold cp I Q (ifTest x p q) s := by
  refine ⟨hI, trivial, ?_, ?_⟩
  · rintro t rfl
    exact hI
  · rintro b t ⟨hFinds, rfl⟩
    cases b with
    | true => exact hYes hFinds
    | false => exact hNo hFinds

theorem keeps_run {c : SdCommand} (hI : I s) (hBreak : ∀ t, BreaksOff fold cp s c t → I t)
    (hDoes : ∀ t, succeeds fold cp s c t → I t ∧ Q t) :
    SdKeeps fold cp I Q (run c) s :=
  ⟨hI, trivial, hBreak, fun _ => hDoes⟩

theorem keeps_seq {R : Storage → Prop} (hFirst : SdKeeps fold cp I R p s)
    (hSecond : ∀ t, I t → R t → SdKeeps fold cp I Q q t) :
    SdKeeps fold cp I Q (p >>= fun _ => q) s := by
  apply keeps_bind
  apply keeps_mono hFirst
  intro _ t hI hR
  exact hSecond t hI hR

/-- The commands that may be half done. -/
def SdCommand.torn : SdCommand → Bool
  | .makeHome | .copyHome | .writeHomeInitialized => true
  | _ => false

theorem breaksOff_whole {c : SdCommand} (hWhole : c.torn = false)
    (h : BreaksOff fold cp s c t) : t = s := by
  cases h with
  | nothing => rfl
  | outerHome | partOfHome | tornVersion => cases hWhole

theorem keeps_whole {c : SdCommand} (hWhole : c.torn = false) (hI : I s)
    (hDoes : ∀ t, succeeds fold cp s c t → I t ∧ Q t) :
    SdKeeps fold cp I Q (run c) s := by
  apply keeps_run hI _ hDoes
  intro t hBreak
  rw [breaksOff_whole hWhole hBreak]
  exact hI

/-! ### The script -/

theorem waitForCard_keeps (hI : I s) (tries : Nat) :
    SdKeeps fold cp I (· = s) (waitForCard tries) s := by
  induction tries with
  | zero => exact keeps_exit hI
  | succ tries ih => exact keeps_test hI (fun _ => keeps_pure hI rfl) fun _ => ih

theorem mountSd_keeps (hMount : ∀ u, I u → I { u with sdMounted := true }) (hI : I s) :
    SdKeeps fold cp I (fun _ => True) mountSd s := by
  apply keeps_test hI
  · exact fun _ => keeps_pure hI trivial
  · intro _
    apply keeps_seq (waitForCard_keeps hI 10)
    rintro t hI' rfl
    apply keeps_seq (R := I) (keeps_test hI (fun _ => keeps_pure hI hI) fun _ => keeps_exit hI)
    intro t hI _
    apply keeps_seq (R := I)
    · apply keeps_whole rfl hI
      rintro t rfl
      exact ⟨hI, hI⟩
    · intro t hI _
      apply keeps_seq (R := I)
      · apply keeps_whole rfl hI
        rintro t rfl
        exact ⟨hMount _ hI, hMount _ hI⟩
      · intro t hI _
        exact keeps_test hI (fun _ => keeps_pure hI trivial) fun _ => keeps_exit hI

/-- What `mount_home` has left of a state when it comes to another. -/
structure Seeding (s t : Storage) : Prop where
  card : Kept s.card t.card
  internal : t.internal = s.internal
  bound : s.homeBound = true → t.homeBound = true

/-- More on the card. -/
theorem Seeding.more (h : Seeding s t) {card : FileTree Name} (hCard : Kept t.card card) :
    Seeding s { t with card := card } := ⟨h.card.trans hCard, h.internal, h.bound⟩

/-- Only the card may have been mounted. -/
def Untouched (s t : Storage) : Prop := ∃ mounted, t = { s with sdMounted := mounted }

theorem Untouched.seeding (h : Untouched s t) : Seeding s t := by
  obtain ⟨mounted, rfl⟩ := h
  exact ⟨.refl _, rfl, id⟩

/-- `mkdir -p "$home/root"` has been there. -/
def Made (fold : Name → Name) (s t : Storage) : Prop :=
  ∃ mounted card, withHome fold s.card = some card ∧
    t = { s with sdMounted := mounted, card := card }

theorem withHome_kept {card card' : FileTree Name} (h : withHome fold card = some card') :
    Kept card card' := by
  obtain ⟨outer, hOuter, hInner⟩ := Option.bind_eq_some_iff.mp h
  exact (makeDirectory_kept hOuter).trans (makeDirectory_kept hInner)

theorem Made.seeding (h : Made fold s t) : Seeding s t := by
  obtain ⟨mounted, card, hCard, rfl⟩ := h
  exact ⟨withHome_kept hCard, rfl, id⟩

theorem makeHome_keeps (h : Untouched s t) :
    SdKeeps fold cp (Seeding s) (Made fold s) (run .makeHome) t := by
  obtain ⟨mounted, rfl⟩ := h
  have hStart : Untouched s { s with sdMounted := mounted } := ⟨mounted, rfl⟩
  apply keeps_run hStart.seeding
  · intro u hBreak
    cases hBreak with
    | nothing => exact hStart.seeding
    | outerHome outer hMake => exact hStart.seeding.more (makeDirectory_kept hMake)
  · rintro u ⟨card, hCard, rfl⟩
    have hMade : Made fold s { s with sdMounted := mounted, card := card } :=
      ⟨mounted, card, hCard, rfl⟩
    exact ⟨hMade.seeding, hMade⟩

/-- The places of the entries are deeper than what tells that the card is seeded. -/
theorem copied_ne (fold : Name → Name) (e : Entry Name) :
    copied fold e.path ≠ onCard fold homeInitialized := by
  intro hSame
  have hLength := congrArg List.length hSame
  simp [onCard, copied, homeInitialized, homeRoot, Entry.path] at hLength

/-- What `cp` leaves of the card, if the invocation seeds only. -/
theorem Made.copied (hCp : cp.Sound fold) (h : Made fold s t)
    (hSpares : s.homeBound = false → CopySpares fold cp s)
    {source : Source} {card' : FileTree Name} (hSource : t.source = some source)
    (hLeaves : cp.leaves t.card source card') :
    Kept s.card card' ∧
      card' (onCard fold homeInitialized) = t.card (onCard fold homeInitialized) := by
  have hKept := h.seeding.card
  obtain ⟨mounted, card, hCard, rfl⟩ := h
  cases hBound : s.homeBound with
  | true =>
    obtain rfl : Source.itself = source := by simpa [Storage.source, hBound] using hSource
    rw [hCp.itself hLeaves]
    exact ⟨hKept, rfl⟩
  | false =>
    obtain ⟨entries, hInternal, rfl⟩ : ∃ entries, s.internal = some entries ∧
        Source.internal entries = source := by
      simpa [Storage.source, hBound] using hSource
    constructor
    · exact hCp.merges.kept hLeaves hKept fun e hMem hFile node hNode =>
        hSpares hBound entries card card' hInternal hCard hLeaves e hMem hFile node hNode
    · exact hCp.merges.elsewhere hLeaves fun e _ => copied_ne fold e

theorem copyHome_keeps (hCp : cp.Sound fold) (h : Made fold s t)
    (hSpares : s.homeBound = false → CopySpares fold cp s)
    (hNone : t.card (onCard fold homeInitialized) = none) :
    SdKeeps fold cp (Seeding s) (fun u => u.card (onCard fold homeInitialized) = none)
      (run .copyHome) t := by
  have hSeeding := h.seeding
  apply keeps_run hSeeding
  · intro u hBreak
    cases hBreak with
    | nothing => exact hSeeding
    | partOfHome source card hSource hLeaves =>
      exact ⟨(h.copied hCp hSpares hSource hLeaves).1, hSeeding.internal, hSeeding.bound⟩
  · rintro u ⟨source, card, hSource, hSucceeds, rfl⟩
    obtain ⟨hKept, hSame⟩ := h.copied hCp hSpares hSource (hCp.whole hSucceeds)
    exact ⟨⟨hKept, hSeeding.internal, hSeeding.bound⟩, hSame.trans hNone⟩

theorem writeHomeInitialized_keeps (h : Seeding s t)
    (hNone : t.card (onCard fold homeInitialized) = none) :
    SdKeeps fold cp (Seeding s) (fun _ => True) (run .writeHomeInitialized) t := by
  have hPut (bytes : List UInt8) :
      Kept t.card (t.card.put (onCard fold homeInitialized) (.file bytes)) := by
    apply (Kept.refl t.card).put
    intro node hNode
    rw [hNone] at hNode
    cases hNode
  apply keeps_run h
  · intro u hBreak
    cases hBreak with
    | nothing => exact h
    | tornVersion n => exact h.more (hPut _)
  · rintro u rfl
    exact ⟨h.more (hPut _), trivial⟩

/-- The seeding keeps the card, if it does where the card is not seeded yet. -/
theorem seedHome_keeps (hCp : cp.Sound fold) (h : Made fold s t)
    (hSpares : s.homeBound = false → s.card (onCard fold homeInitialized) = none →
      CopySpares fold cp s) :
    SdKeeps fold cp (Seeding s) (fun _ => True) seedHome t := by
  have hSeeding := h.seeding
  apply keeps_test hSeeding
  · exact fun _ => keeps_pure hSeeding trivial
  · intro hMissing
    have hNone : t.card (onCard fold homeInitialized) = none := by
      rw [← Option.isNone_iff_eq_none, ← Option.isSome_eq_false_iff]
      exact hMissing.symm
    have hSparesHere := fun hBound => hSpares hBound (hSeeding.card.none_of_none hNone)
    apply keeps_seq (R := fun u => u.card (onCard fold homeInitialized) = none)
    · apply keeps_test hSeeding
      · exact fun _ => copyHome_keeps hCp h hSparesHere hNone
      · exact fun _ => keeps_pure hSeeding hNone
    · intro u hSeeding hNone
      exact writeHomeInitialized_keeps hSeeding hNone

theorem mountHome_keeps (hCp : cp.Sound fold) (hSpares : s.homeBound = false →
      s.card (onCard fold homeInitialized) = none → CopySpares fold cp s) :
    SdKeeps fold cp (Seeding s) (fun _ => True) mountHome s := by
  have hMount (u : Storage) (h : Untouched s u) : Untouched s { u with sdMounted := true } := by
    obtain ⟨mounted, rfl⟩ := h
    exact ⟨true, rfl⟩
  apply keeps_seq (R := Untouched s)
  · have hMounts : SdKeeps fold cp (Untouched s) (fun _ => True) mountSd s :=
      mountSd_keeps hMount ⟨s.sdMounted, rfl⟩
    apply keeps_inv (keeps_mono (keeps_end hMounts) fun _ _ _ h => h.1)
    exact fun _ h => h.seeding
  intro t _ hUntouched
  apply keeps_seq (makeHome_keeps hUntouched)
  intro t _ hMade
  apply keeps_seq (seedHome_keeps hCp hMade hSpares)
  intro t h _
  apply keeps_seq (R := fun _ => True)
  · apply keeps_test h
    · exact fun _ => keeps_pure h trivial
    · intro _
      apply keeps_whole rfl h
      rintro t rfl
      exact ⟨⟨h.card, h.internal, fun _ => rfl⟩, trivial⟩
  · intro t h _
    exact keeps_test h (fun _ => keeps_pure h trivial) fun _ => keeps_exit h

theorem unmount_keeps : SdKeeps fold cp (fun u => u.card = s.card) (fun _ => True)
    (Command.program .unmount) s := by
  apply keeps_seq (R := fun _ => True)
  · exact keeps_test rfl (fun _ => keeps_exit rfl) fun _ => keeps_pure rfl trivial
  · intro t hCard _
    apply keeps_test hCard
    · intro _
      apply keeps_whole rfl hCard
      rintro u rfl
      exact ⟨hCard, trivial⟩
    · exact fun _ => keeps_pure hCard trivial

theorem disableHome_keeps : SdKeeps fold cp (fun u => u.card = s.card) (fun _ => True)
    (Command.program .disableHome) s := by
  apply keeps_seq (R := fun _ => True)
  · apply keeps_whole rfl
    · rfl
    · rintro t rfl
      exact ⟨rfl, trivial⟩
  · intro t hCard _
    apply keeps_test hCard
    · intro _
      apply keeps_whole rfl hCard
      rintro u rfl
      exact ⟨hCard, trivial⟩
    · exact fun _ => keeps_pure hCard trivial

theorem enableHome_keeps (hCp : cp.Sound fold) (h : SeedsOnly fold cp s (.invoke .enableHome)) :
    SdKeeps fold cp (Seeding s) (fun _ => True) (Command.program .enableHome) s := by
  apply keeps_seq (mountHome_keeps hCp (h rfl))
  intro t hSeeding _
  apply keeps_whole rfl hSeeding
  rintro u rfl
  exact ⟨⟨hSeeding.card, hSeeding.internal, hSeeding.bound⟩, trivial⟩

theorem init_keeps (hCp : cp.Sound fold) (h : SeedsOnly fold cp s (.invoke .init)) :
    SdKeeps fold cp (Seeding s) (fun _ => True) (Command.program .init) s := by
  apply keeps_seq (R := fun t => t = s ∧ s.marker = true)
  · have hStart : Untouched s s := ⟨s.sdMounted, rfl⟩
    apply keeps_test hStart.seeding
    · exact fun hMarker => keeps_pure hStart.seeding ⟨rfl, hMarker.symm⟩
    · exact fun _ => keeps_exit hStart.seeding
  · rintro t - ⟨rfl, hMarker⟩
    exact mountHome_keeps hCp (h hMarker)

/-- An invocation, however far it comes. -/
theorem invoke_kept {c : Command} (hCp : cp.Sound fold) (h : SeedsOnly fold cp s (.invoke c))
    (hLeaves : c.program.Leaves (shell fold cp) (shellBreaks fold cp) s t) :
    Kept s.card t.card := by
  have hSame (hCard : t.card = s.card) : Kept s.card t.card := by
    rw [hCard]
    exact .refl _
  cases c with
  | mount =>
    have hMount (u : Storage) (hCard : u.card = s.card) :
        ({ u with sdMounted := true } : Storage).card = s.card := hCard
    exact hSame (hLeaves.keeps (mountSd_keeps hMount rfl))
  | unmount => exact hSame (hLeaves.keeps unmount_keeps)
  | home => exact (hLeaves.keeps (mountHome_keeps hCp (h rfl))).card
  | enableHome => exact (hLeaves.keeps (enableHome_keeps hCp h)).card
  | disableHome => exact hSame (hLeaves.keeps disableHome_keeps)
  | init => exact (hLeaves.keeps (init_keeps hCp h)).card

/-! ### The first adoption of a card -/

/-- The state once `fx-sd home` has seeded the card. -/
def adopted (fold : Name → Name) (s : Storage) (card : FileTree Name) : Storage :=
  { s with
    card := card.put (onCard fold homeInitialized) (.file homeVersion)
    sdMounted := true
    homeBound := true }

/-- A card with a home tree that no `fx-sd` has seen is seeded. -/
theorem adopt_leaves {entries : List (Entry Name)} {card : FileTree Name}
    (hMounted : s.sdMounted = false) (hBound : s.homeBound = false)
    (hInternal : s.internal = some entries) (hHome : s.card (onCard fold home) = some .directory)
    (hRoot : s.card (onCard fold homeRoot) = some .directory)
    (hNew : s.card (onCard fold homeInitialized) = none)
    (hCopy : cp.succeeds s.card (.internal entries) card) :
    (Command.program .home).Leaves (shell fold cp) (shellBreaks fold cp) s
      (adopted fold s card) := by
  have hMake : withHome fold s.card = some s.card := by
    rw [withHome, makeDirectory, hHome, Option.bind_some, makeDirectory, hRoot]
  have hSource : ({ s with sdMounted := true } : Storage).source = some (.internal entries) := by
    simp [Storage.source, hBound, hInternal]
  refine .after false ⟨hMounted.symm, rfl⟩ <| .after true ⟨trivial, rfl⟩ ?_
  refine .after true ⟨trivial, rfl⟩ <| .after () rfl <| .after () rfl ?_
  refine .after true ⟨rfl, rfl⟩ <| .after () ⟨_, hMake, rfl⟩ ?_
  refine .after false ⟨by simp [finds, hNew], rfl⟩ ?_
  refine .after true ⟨by simp [finds, hBound, hInternal], rfl⟩ ?_
  refine .after () ⟨_, card, hSource, hCopy, rfl⟩ <| .after () rfl ?_
  refine .after false ⟨hBound.symm, rfl⟩ <| .after () rfl ?_
  exact .after true ⟨rfl, rfl⟩ (.here _ _)

/-- Names as `vfat` compares them, as far as ASCII goes. -/
def upperCase (name : Name) : Name := name.map Char.toUpper

/-- `cp` where `/home/root` has files only. -/
def fileCopy : Copy where
  leaves tree source tree' :=
    match source with
    | .internal entries => FilesCopied (copied upperCase) tree entries tree'
    | .itself => tree' = tree
  succeeds tree source tree' :=
    match source with
    | .internal entries => (∀ e ∈ entries, ∃ bytes, e.node = .file bytes) ∧
      tree' = copyFiles (copied upperCase) tree entries
    | .itself => False

theorem fileCopy_sound : fileCopy.Sound upperCase := by
  refine ⟨?_, filesCopied_merges _, fun hLeaves => hLeaves⟩
  intro tree source tree' hSucceeds
  cases source with
  | internal entries =>
    obtain ⟨hFiles, rfl⟩ := hSucceeds
    exact filesCopied_copyFiles hFiles
  | itself => exact hSucceeds.elim

/-- A file of one byte. -/
def letter (name : Name) : Entry Name := ⟨[], name, .file [0x41]⟩

/-- A board with a file `x` in `/home/root`, and a card with another content for a name. -/
def adoptable (name : Name) : Storage where
  internal := some [letter ['x']]
  card := FileTree.put (FileTree.put (FileTree.put (fun _ => none) (onCard upperCase home) .directory)
    (onCard upperCase homeRoot) .directory) (copied upperCase [name]) (.file [0x42])
  sdMounted := false
  homeBound := false
  marker := false

/-- The card once `cp` has been there. -/
def seeded (name : Name) : FileTree Name :=
  copyFiles (copied upperCase) (adoptable name).card [letter ['x']]

theorem seeded_succeeds (name : Name) :
    fileCopy.succeeds (adoptable name).card (.internal [letter ['x']]) (seeded name) :=
  ⟨fun e hMem => ⟨[0x41], by rw [List.mem_singleton.mp hMem, letter]⟩, rfl⟩

/-- The first `fx-sd home` with a card that has a `home/root/x` writes the board's own over it. -/
theorem fxSd_overwrites : ∃ t, (fxSd upperCase fileCopy).Start (adoptable ['x']) ∧
    (fxSd upperCase fileCopy).Run (adoptable ['x']) [.invoke .home] t ∧
    (adoptable ['x']).card (copied upperCase [['x']]) = some (.file [0x42]) ∧
    t.card (copied upperCase [['x']]) = some (.file [0x41]) := by
  have hLeaves : (Command.program .home).Leaves (shell upperCase fileCopy)
      (shellBreaks upperCase fileCopy) (adoptable ['x'])
      (adopted upperCase (adoptable ['x']) (seeded ['x'])) := by
    apply adopt_leaves rfl rfl rfl _ _ _ (seeded_succeeds _) <;> decide
  refine ⟨_, ⟨rfl, rfl⟩, .cons hLeaves (.nil _), ?_, ?_⟩ <;> decide

/-! ### Runs -/

/-- In every sequence of invocations and reboots whose seedings have `cp` copy files only to where the
card has nothing, or to where `cp` keeps what is there, whatever is on the card stays on it as it is. -/
theorem card_kept (hCp : cp.Sound fold) {es : List Event}
    (hRun : ((fxSd fold cp).within (SeedsOnly fold cp)).Run s es t) : Kept s.card t.card := by
  refine hRun.preserves (I := fun u => Kept s.card u.card) ?_ (.refl _)
  rintro u e v hKept ⟨hSeeds, hStep⟩
  cases e with
  | invoke c => exact hKept.trans (invoke_kept hCp hSeeds hStep)
  | reboot =>
    obtain rfl := hStep
    exact hKept

theorem card_kept_seeded : Kept (adoptable ['y']).card
    (adopted upperCase (adoptable ['y']) (seeded ['y'])).card := by
  have hLeaves : (Command.program .home).Leaves (shell upperCase fileCopy)
      (shellBreaks upperCase fileCopy) (adoptable ['y'])
      (adopted upperCase (adoptable ['y']) (seeded ['y'])) := by
    apply adopt_leaves rfl rfl rfl _ _ _ (seeded_succeeds _) <;> decide
  have hFree : (adoptable ['y']).card (copied upperCase [['x']]) = none := by decide
  have hSeeds : SeedsOnly upperCase fileCopy (adoptable ['y']) (.invoke .home) := by
    intro _ _ _ entries card card' hInternal _ _ e hMem _ node hNode
    obtain rfl := Option.some.inj hInternal
    obtain rfl := List.mem_singleton.mp hMem
    cases hFree.symm.trans hNode
  exact card_kept fileCopy_sound (.cons ⟨hSeeds, hLeaves⟩ (.nil _))

end Esp32Fx.Board
