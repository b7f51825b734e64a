import Esp32Fx.Native.Contiguity

/-! The runs of the contiguity guards: nothing is unmapped that they have not mapped, the helper of
`run_tests` finds both blocks free and is started only while none has ever been missing, and the
runner leaves nothing mapped.  What `run_tests` sees of them is the model of
`ExampleTools.RunTests`. -/

namespace Esp32Fx.Native.Contiguity

open Lib Program ExampleTools

variable {build : Build} {lost : Nat → Prop} {guards : Guards} {own : Nat → Option Nat}
  {purpose : Purpose} {mapping length : Nat} {s t : World}

/-! ### Mappings that come and go -/

theorem Sound.fresh (build : Build) : Sound build (fun _ => .zero) (fun _ => none) where
  held _ _ h := by cases h
  apart _ _ _ h := by cases h
  only _ h := absurd rfl h

/-- A guard that the build does not have has no mapping. -/
theorem Backed.absent (h : Backed build lost guards own) (hBuild : build purpose = none) :
    (guards purpose).mapping = none := by
  rw [Option.eq_none_iff_forall_ne_some]
  intro mapping hSome
  have hSame := (h.held purpose mapping hSome).2
  rw [hBuild] at hSame
  cases hSame

/-- The other guards, once one has no mapping. -/
theorem update_mapping {guard : ContiguityGuard} {other : Purpose} (hGuard : guard.mapping = none)
    (h : (Function.update guards purpose guard other).mapping = some mapping) :
    other ≠ purpose ∧ (guards other).mapping = some mapping := by
  by_cases hSame : other = purpose
  · subst hSame
    rw [Function.update_self, hGuard] at h
    cases h
  · rw [Function.update_of_ne hSame] at h
    exact ⟨hSame, h⟩

/-- A guard without a mapping gets one. -/
theorem Backed.take (h : Backed build lost guards own) (hFree : own mapping = none)
    (hBuild : build purpose = some length) (hNone : (guards purpose).mapping = none) :
    Backed build lost (Function.update guards purpose ⟨some mapping, length⟩)
      (Function.update own mapping (some length)) := by
  have hNew : ∀ other, (guards other).mapping ≠ some mapping := by
    intro other hOther
    have hOwn := (h.held other mapping hOther).1
    rw [hFree] at hOwn
    cases hOwn
  refine ⟨?_, ?_, ?_⟩
  · intro other m hOther
    by_cases hSame : other = purpose
    · subst hSame
      rw [Function.update_self] at hOther ⊢
      cases hOther
      exact ⟨Function.update_self .., hBuild⟩
    · rw [Function.update_of_ne hSame] at hOther ⊢
      have hNe : m ≠ mapping := by
        rintro rfl
        exact hNew other hOther
      rw [Function.update_of_ne hNe]
      exact h.held other m hOther
  · intro other other' m hOther hOther'
    by_cases hSame : other = purpose
    · subst hSame
      by_cases hSame' : other' = other
      · exact hSame'.symm
      · rw [Function.update_self] at hOther
        rw [Function.update_of_ne hSame'] at hOther'
        cases hOther
        exact absurd hOther' (hNew other')
    · rw [Function.update_of_ne hSame] at hOther
      by_cases hSame' : other' = purpose
      · subst hSame'
        rw [Function.update_self] at hOther'
        cases hOther'
        exact absurd hOther (hNew other)
      · rw [Function.update_of_ne hSame'] at hOther'
        exact h.apart other other' m hOther hOther'
  · intro m hOwn
    by_cases hNe : m = mapping
    · subst hNe
      exact .inl ⟨purpose, by rw [Function.update_self]⟩
    · rw [Function.update_of_ne hNe] at hOwn
      rcases h.only m hOwn with ⟨other, hOther⟩ | hLost
      · have hSame : other ≠ purpose := by
          rintro rfl
          rw [hNone] at hOther
          cases hOther
        exact .inl ⟨other, by rw [Function.update_of_ne hSame]; exact hOther⟩
      · exact .inr hLost

/-- A guard loses its mapping, which is unmapped or lost. -/
theorem Backed.give {lost' : Nat → Prop} {own' : Nat → Option Nat} {guard : ContiguityGuard}
    (h : Backed build lost guards own) (hHeld : (guards purpose).mapping = some mapping)
    (hGuard : guard.mapping = none) (hOther : ∀ m, m ≠ mapping → own' m = own m)
    (hHere : own' mapping ≠ none → lost' mapping) (hLost : ∀ m, lost m → lost' m) :
    Backed build lost' (Function.update guards purpose guard) own' := by
  refine ⟨?_, ?_, ?_⟩
  · intro other m hMapping
    obtain ⟨hSame, hBefore⟩ := update_mapping hGuard hMapping
    have hNe : m ≠ mapping := by
      rintro rfl
      exact hSame (h.apart other purpose m hBefore hHeld)
    rw [Function.update_of_ne hSame, hOther m hNe]
    exact h.held other m hBefore
  · intro other other' m hMapping hMapping'
    exact h.apart other other' m (update_mapping hGuard hMapping).2
      (update_mapping hGuard hMapping').2
  · intro m hOwn
    by_cases hNe : m = mapping
    · subst hNe
      exact .inr (hHere hOwn)
    · rw [hOther m hNe] at hOwn
      rcases h.only m hOwn with ⟨other, hMapping⟩ | hBefore
      · have hSame : other ≠ purpose := by
          rintro rfl
          rw [hHeld] at hMapping
          cases hMapping
          exact hNe rfl
        exact .inl ⟨other, by rw [Function.update_of_ne hSame]; exact hMapping⟩
      · exact .inr (hLost m hBefore)

/-! ### One guard -/

/-- What an acquisition comes to. -/
structure Acquired (build : Build) (purpose : Purpose) (guards : Guards) (s : World)
    (x : Bool × Guards) (t : World) : Prop where
  frame : t = { s with own := t.own }
  sound : Sound build x.2 t.own
  others : ∀ other, other ≠ purpose → x.2 other = guards other
  keeps : (guards purpose).mapping ≠ none → (x.2 purpose).mapping ≠ none
  result : build purpose ≠ none → (x.1 = true ↔ (x.2 purpose).mapping ≠ none)
  absent : build purpose = none → x.1 = true

theorem acquireFor_keeps (h : Sound build guards s.own) :
    MapperKeeps build (Acquired build purpose guards s) (acquireFor build purpose guards) s := by
  cases hBuild : build purpose with
  | none =>
    unfold acquireFor
    rw [hBuild]
    exact ⟨trivial, rfl, h, fun _ _ => rfl, id, fun hSome => absurd hBuild hSome, fun _ => rfl⟩
  | some length =>
    unfold acquireFor acquireGuard
    rw [hBuild]
    cases hMapping : (guards purpose).mapping with
    | some mapping =>
      have hLength : (guards purpose).length = length := by
        have hSame := (h.held purpose mapping hMapping).2
        rw [hBuild] at hSame
        exact (Option.some.inj hSame).symm
      refine ⟨trivial, rfl, ?_, ?_, ?_, ?_, ?_⟩
      · rw [Function.update_eq_self]
        exact h
      · exact fun other hOther => Function.update_of_ne hOther ..
      · intro hSome
        dsimp only
        rw [Function.update_self]
        exact hSome
      · intro _
        dsimp only
        rw [Function.update_self, hMapping, hLength]
        simp
      · intro hNone
        rw [hBuild] at hNone
        cases hNone
    | none =>
      refine keeps_perform_bind trivial ⟨guards, purpose, h, hMapping, hBuild⟩ ?_
      rintro (_ | mapping) t hCall
      · obtain rfl : t = s := hCall
        refine ⟨trivial, rfl, ?_, ?_, ?_, ?_, ?_⟩
        · rw [Function.update_eq_self]
          exact h
        · exact fun other hOther => Function.update_of_ne hOther ..
        · exact fun hSome => absurd hMapping hSome
        · intro _
          dsimp only
          rw [Function.update_self, hMapping]
          simp
        · intro hNone
          rw [hBuild] at hNone
          cases hNone
      · obtain ⟨hFree, rfl⟩ := hCall
        refine ⟨trivial, rfl, h.take hFree hBuild hMapping, ?_, ?_, ?_, fun _ => rfl⟩
        · exact fun other hOther => Function.update_of_ne hOther ..
        · exact fun hSome => absurd hMapping hSome
        · intro _
          dsimp only
          rw [Function.update_self]
          simp

/-- What a release comes to. -/
structure Released (build : Build) (lost : Nat → Prop) (purpose : Purpose) (guards : Guards)
    (s : World) (x : Bool × Guards) (t : World) : Prop where
  frame : t = { s with own := t.own, failures := t.failures }
  failures : s.failures ⊆ t.failures
  backed : Backed build lost x.2 t.own
  gone : x.1 = true → (guards purpose).mapping ≠ none ∧
    x.2 = Function.update guards purpose { guards purpose with mapping := none }
  stays : x.1 = false → x.2 = guards ∧
    ∀ mapping, (guards purpose).mapping = some mapping → Refused t mapping

theorem releaseFor_keeps (h : Backed build lost guards s.own) :
    MapperKeeps build (Released build lost purpose guards s) (releaseFor purpose guards) s := by
  unfold releaseFor releaseGuard
  cases hMapping : (guards purpose).mapping with
  | none =>
    refine ⟨trivial, rfl, fun _ => id, ?_, fun hTrue => Bool.noConfusion hTrue, fun _ => ⟨?_, ?_⟩⟩
    · rw [Function.update_eq_self]
      exact h
    · exact Function.update_eq_self ..
    · intro mapping hSome
      rw [hMapping] at hSome
      cases hSome
  | some mapping =>
    refine keeps_perform_bind trivial (h.held purpose mapping hMapping).1 ?_
    rintro (_ | _) t hCall
    · obtain rfl := hCall
      refine ⟨trivial, rfl, List.subset_append_left .., ?_, fun hTrue => Bool.noConfusion hTrue,
        fun _ => ⟨Function.update_eq_self .., ?_⟩⟩
      · rw [Function.update_eq_self]
        exact h
      · intro m hSome
        rw [hMapping] at hSome
        cases hSome
        exact ⟨_, List.mem_append_right _ (List.mem_singleton_self _)⟩
    · obtain rfl := hCall
      refine ⟨trivial, rfl, fun _ => id, ?_, fun _ => ⟨?_, rfl⟩, fun hFalse => Bool.noConfusion hFalse⟩
      · refine h.give hMapping rfl (fun m hNe => Function.update_of_ne hNe ..) ?_ fun _ => id
        intro hSome
        exact absurd (Function.update_self ..) hSome
      · rw [hMapping]
        exact Option.some_ne_none mapping

/-! ### Both guards -/

/-- What `run_tests` sees of the guards. -/
def view (guards : Guards) : RunTests.Guards :=
  ⟨(guards .shell).mapping.isSome, (guards .test).mapping.isSome⟩

variable {x : Bool × Guards}

theorem Acquired.view_eq (h : Acquired build purpose guards s x t) :
    RunTests.acquireGuard (guards purpose).mapping.isSome (x.2 purpose).mapping.isSome =
      (x.2 purpose).mapping.isSome := by
  have hKeeps := h.keeps
  unfold RunTests.acquireGuard
  cases hBefore : (guards purpose).mapping with
  | none => rfl
  | some mapping =>
    rw [hBefore] at hKeeps
    exact (Option.isSome_iff_ne_none.mpr (hKeeps (Option.some_ne_none mapping))).symm

theorem Acquired.fst_eq (h : Acquired build purpose guards s x t) (hBuild : build purpose ≠ none) :
    x.1 = (x.2 purpose).mapping.isSome := by
  rw [Bool.eq_iff_iff, h.result hBuild, Option.isSome_iff_ne_none]

theorem Released.others (h : Released build lost purpose guards s x t) {other : Purpose}
    (hOther : other ≠ purpose) : x.2 other = guards other := by
  cases hOk : x.1 with
  | true => rw [(h.gone hOk).2, Function.update_of_ne hOther]
  | false => rw [(h.stays hOk).1]

theorem Released.given (h : Released build lost purpose guards s x t) (hOk : x.1 = true) :
    (x.2 purpose).mapping = none := by
  rw [(h.gone hOk).2, Function.update_self]

theorem Released.view_eq (h : Released build lost purpose guards s x t) :
    RunTests.releaseGuard (guards purpose).mapping.isSome x.1 =
      (x.1, (x.2 purpose).mapping.isSome) := by
  unfold RunTests.releaseGuard
  cases hOk : x.1 with
  | true =>
    rw [h.given hOk, Option.isSome_iff_ne_none.mpr (h.gone hOk).1]
    rfl
  | false =>
    rw [(h.stays hOk).1]
    simp

/-- What the acquisition of both guards comes to. -/
structure Armed (build : Build) (guards : Guards) (s : World) (x : Bool × Guards) (t : World) :
    Prop where
  frame : t = { s with own := t.own, failures := t.failures }
  failures : s.failures ⊆ t.failures
  sound : Sound build x.2 t.own
  full : x.1 = true → Full build x.2
  left : x.1 = false → (∀ purpose, (guards purpose).mapping = none) →
    ∀ purpose mapping, (x.2 purpose).mapping = some mapping → Refused t mapping
  follows : (∀ purpose, build purpose ≠ none) → ∃ mapsShell mapsTest unmapsShell,
    RunTests.rearmGuards mapsShell mapsTest unmapsShell (view guards) = (x.1, view x.2)

theorem acquireBoth_keeps (h : Sound build guards s.own) :
    MapperKeeps build (Armed build guards s) (acquireBoth build guards) s := by
  apply keeps_bind
  refine keeps_mono (acquireFor_keeps h) ?_
  rintro ⟨ok, guards₁⟩ t₁ - hFirst
  have hView₁ := hFirst.view_eq
  have hFst₁ := hFirst.fst_eq
  obtain ⟨hFrame₁, hSound₁, hOthers₁, hKeeps₁, hResult₁, hAbsent₁⟩ := hFirst
  have hTest₁ : guards₁ .test = guards .test := hOthers₁ .test (by decide)
  cases ok with
  | false =>
    refine ⟨trivial, ?_, ?_, hSound₁, fun hTrue => Bool.noConfusion hTrue, ?_, ?_⟩
    · rw [hFrame₁]
    · rw [hFrame₁]
      exact fun _ => id
    · intro _ hNone purpose mapping hSome
      cases purpose with
      | shell =>
        have hBuild : build .shell ≠ none := fun hBuild => Bool.noConfusion (hAbsent₁ hBuild)
        have hTrue := (hResult₁ hBuild).mpr (by dsimp only; rw [hSome]; exact Option.some_ne_none _)
        exact Bool.noConfusion hTrue
      | test =>
        dsimp only at hSome
        rw [hTest₁, hNone .test] at hSome
        cases hSome
    · intro hBoth
      have hFst := hFst₁ (hBoth .shell)
      dsimp only at hView₁ hFst
      rw [← hFst] at hView₁
      refine ⟨false, false, false, ?_⟩
      simp only [RunTests.rearmGuards, view, hView₁, ← hFst, hTest₁]
      rfl
  | true =>
    apply keeps_bind
    refine keeps_mono (acquireFor_keeps hSound₁) ?_
    rintro ⟨ok, guards₂⟩ t₂ - hSecond
    have hView₂ := hSecond.view_eq
    have hFst₂ := hSecond.fst_eq
    obtain ⟨hFrame₂, hSound₂, hOthers₂, hKeeps₂, hResult₂, hAbsent₂⟩ := hSecond
    have hShell₂ : guards₂ .shell = guards₁ .shell := hOthers₂ .shell (by decide)
    cases ok with
    | true =>
      refine ⟨trivial, ?_, ?_, hSound₂, ?_, fun hFalse => Bool.noConfusion hFalse, ?_⟩
      · rw [hFrame₂, hFrame₁]
      · rw [hFrame₂, hFrame₁]
        exact fun _ => id
      · intro _ purpose hBuild
        cases purpose with
        | shell =>
          dsimp only
          rw [hShell₂]
          exact (hResult₁ hBuild).mp rfl
        | test => exact (hResult₂ hBuild).mp rfl
      · intro hBoth
        have hShell := hFst₁ (hBoth .shell)
        have hTest := hFst₂ (hBoth .test)
        dsimp only at hView₁ hShell hView₂ hTest
        rw [← hShell] at hView₁
        rw [hTest₁, ← hTest] at hView₂
        refine ⟨true, true, false, ?_⟩
        simp only [RunTests.rearmGuards, view, hView₁, ← hShell, hView₂, ← hTest, hShell₂]
        rfl
    | false =>
      have hTest₂ : (guards₂ .test).mapping = none := by
        have hBuild : build .test ≠ none := fun hBuild => Bool.noConfusion (hAbsent₂ hBuild)
        by_contra hSome
        exact Bool.noConfusion ((hResult₂ hBuild).mpr hSome)
      cases hBuild : build .shell with
      | none =>
        simp only [Option.isSome_none, Bool.false_eq_true, if_false]
        refine ⟨trivial, ?_, ?_, hSound₂, fun hTrue => Bool.noConfusion hTrue, ?_, ?_⟩
        · rw [hFrame₂, hFrame₁]
        · rw [hFrame₂, hFrame₁]
          exact fun _ => id
        · intro _ _ purpose mapping hSome
          cases purpose with
          | shell =>
            rw [hSound₂.absent hBuild] at hSome
            cases hSome
          | test =>
            rw [hTest₂] at hSome
            cases hSome
        · exact fun hBoth => absurd hBuild (hBoth .shell)
      | some length =>
        simp only [Option.isSome_some, if_true]
        apply keeps_bind
        refine keeps_mono (releaseFor_keeps hSound₂) ?_
        rintro ⟨released, guards₃⟩ t₃ - hThird
        have hView₃ := hThird.view_eq
        have hGiven₃ := hThird.given
        have hTest₃ : guards₃ .test = guards₂ .test := hThird.others (by decide)
        obtain ⟨hFrame₃, hFailures₃, hSound₃, -, hStays₃⟩ := hThird
        refine ⟨trivial, ?_, ?_, hSound₃, fun hTrue => Bool.noConfusion hTrue, ?_, ?_⟩
        · rw [hFrame₃, hFrame₂, hFrame₁]
        · have hSame : t₂.failures = s.failures := by rw [hFrame₂, hFrame₁]
          rw [← hSame]
          exact hFailures₃
        · intro _ _ purpose mapping hSome
          cases purpose with
          | shell =>
            cases released with
            | true =>
              rw [hGiven₃ rfl] at hSome
              cases hSome
            | false =>
              obtain ⟨hSame, hRefused⟩ := hStays₃ rfl
              dsimp only at hSame hSome
              rw [hSame] at hSome
              exact hRefused mapping hSome
          | test =>
            dsimp only at hSome
            rw [hTest₃, hTest₂] at hSome
            cases hSome
        · intro hBoth
          have hShell := hFst₁ (hBoth .shell)
          have hTest := hFst₂ (hBoth .test)
          dsimp only at hView₁ hShell hView₂ hTest hView₃
          rw [← hShell] at hView₁
          rw [hTest₁, ← hTest] at hView₂
          rw [hShell₂, ← hShell] at hView₃
          refine ⟨true, false, released, ?_⟩
          simp only [RunTests.rearmGuards, view, hView₁, hView₂, ← hTest, hView₃, hTest₃]
          rfl

/-- What a loan comes to. -/
structure Lent (build : Build) (guards : Guards) (s : World) (x : Bool × Guards) (t : World) :
    Prop where
  frame : t = { s with own := t.own, failures := t.failures }
  failures : s.failures ⊆ t.failures
  sound : Sound build x.2 t.own
  held : x.1 = true → Full build guards
  gone : x.1 = true → ∀ purpose, (x.2 purpose).mapping = none
  stays : x.1 = false → Full build x.2 → Full build guards
  follows : ∃ unmapsShell unmapsTest mapsShell,
    RunTests.lendGuards unmapsShell unmapsTest mapsShell (view guards) = (x.1, view x.2)

theorem lendTestContiguityGuard_keeps (h : Sound build guards s.own) :
    MapperKeeps build (Lent build guards s) (lendTestContiguityGuard build guards) s := by
  apply keeps_bind
  refine keeps_mono (releaseFor_keeps h) ?_
  rintro ⟨ok, guards₁⟩ t₁ - hFirst
  have hView₁ := hFirst.view_eq
  have hGiven₁ := hFirst.given
  have hTest₁ : guards₁ .test = guards .test := hFirst.others (by decide)
  obtain ⟨hFrame₁, hFailures₁, hSound₁, hGone₁, hStays₁⟩ := hFirst
  cases ok with
  | false =>
    obtain rfl : guards₁ = guards := (hStays₁ rfl).1
    refine ⟨trivial, hFrame₁, hFailures₁, hSound₁, fun hTrue => Bool.noConfusion hTrue,
      fun hTrue => Bool.noConfusion hTrue, fun _ => id, false, false, false, ?_⟩
    dsimp only at hView₁
    simp only [RunTests.lendGuards, view, hView₁]
    rfl
  | true =>
    apply keeps_bind
    refine keeps_mono (releaseFor_keeps hSound₁) ?_
    rintro ⟨ok, guards₂⟩ t₂ - hSecond
    have hView₂ := hSecond.view_eq
    have hGiven₂ := hSecond.given
    have hShell₂ : guards₂ .shell = guards₁ .shell := hSecond.others (by decide)
    obtain ⟨hFrame₂, hFailures₂, hSound₂, hGone₂, hStays₂⟩ := hSecond
    dsimp only at hView₁ hView₂ hGiven₁ hGiven₂
    rw [hTest₁] at hView₂
    cases ok with
    | true =>
      refine ⟨trivial, ?_, fun _ hBefore => hFailures₂ (hFailures₁ hBefore), hSound₂, ?_, ?_,
        fun hFalse => Bool.noConfusion hFalse, true, true, false, ?_⟩
      · rw [hFrame₂, hFrame₁]
      · intro _ purpose _
        cases purpose with
        | shell => exact (hGone₁ rfl).1
        | test =>
          rw [← hTest₁]
          exact (hGone₂ rfl).1
      · intro _ purpose
        cases purpose with
        | shell =>
          dsimp only
          rw [hShell₂]
          exact hGiven₁ rfl
        | test => exact hGiven₂ rfl
      · simp only [RunTests.lendGuards, view, hView₁, hView₂, hShell₂]
        rfl
    | false =>
      obtain rfl : guards₂ = guards₁ := (hStays₂ rfl).1
      apply keeps_bind
      refine keeps_mono (acquireFor_keeps hSound₂) ?_
      rintro ⟨acquired, guards₃⟩ t₃ - hThird
      have hView₃ := hThird.view_eq
      obtain ⟨hFrame₃, hSound₃, hOthers₃, -, -, -⟩ := hThird
      have hTest₃ : guards₃ .test = guards₂ .test := hOthers₃ .test (by decide)
      refine ⟨trivial, ?_, ?_, hSound₃, fun hTrue => Bool.noConfusion hTrue,
        fun hTrue => Bool.noConfusion hTrue, ?_, true, false, (guards₃ .shell).mapping.isSome, ?_⟩
      · rw [hFrame₃, hFrame₂, hFrame₁]
      · rw [hFrame₃]
        exact fun _ hBefore => hFailures₂ (hFailures₁ hBefore)
      · intro _ hFull purpose hBuild
        cases purpose with
        | shell => exact (hGone₁ rfl).1
        | test =>
          have hTest := hFull .test hBuild
          dsimp only at hTest
          rwa [hTest₃, hTest₁] at hTest
      · dsimp only at hView₃
        simp only [RunTests.lendGuards, view, hView₁, hView₂, hView₃, hTest₃, hTest₁]
        rfl

theorem dropGuard_keeps (h : Backed build lost guards s.own) :
    MapperKeeps build (fun guards' t => s.failures ⊆ t.failures ∧
        Backed build (fun mapping => lost mapping ∨ Refused t mapping) guards' t.own ∧
        (∀ other, other ≠ purpose → guards' other = guards other) ∧
        (guards' purpose).mapping = none)
      (dropGuard build purpose guards) s := by
  unfold dropGuard
  cases hBuild : build purpose with
  | none =>
    refine ⟨trivial, fun _ => id, ⟨h.held, h.apart, ?_⟩, fun _ _ => rfl, h.absent hBuild⟩
    exact fun mapping hOwn => (h.only mapping hOwn).imp id .inl
  | some length =>
    cases hMapping : (guards purpose).mapping with
    | none =>
      have hZero : ContiguityGuard.zero.mapping = none := rfl
      refine ⟨trivial, fun _ => id, ⟨?_, ?_, ?_⟩, ?_, ?_⟩
      · intro other m hSome
        obtain ⟨hSame, hBefore⟩ := update_mapping hZero hSome
        rw [Function.update_of_ne hSame]
        exact h.held other m hBefore
      · intro other other' m hSome hSome'
        exact h.apart other other' m (update_mapping hZero hSome).2 (update_mapping hZero hSome').2
      · intro m hOwn
        rcases h.only m hOwn with ⟨other, hSome⟩ | hLost
        · have hSame : other ≠ purpose := by
            rintro rfl
            rw [hMapping] at hSome
            cases hSome
          exact .inl ⟨other, by rw [Function.update_of_ne hSame]; exact hSome⟩
        · exact .inr (.inl hLost)
      · exact fun other hOther => Function.update_of_ne hOther ..
      · rw [Function.update_self]
        rfl
    | some mapping =>
      unfold releaseGuard
      rw [hMapping]
      refine keeps_perform_bind trivial (h.held purpose mapping hMapping).1 ?_
      rintro (_ | _) t hCall
      · obtain rfl := hCall
        refine ⟨trivial, List.subset_append_left .., ?_, ?_, ?_⟩
        · refine h.give hMapping rfl (fun _ _ => rfl) (fun _ => .inr ?_) fun _ => .inl
          exact ⟨_, List.mem_append_right _ (List.mem_singleton_self _)⟩
        · exact fun other hOther => Function.update_of_ne hOther ..
        · rw [Function.update_self]
          rfl
      · obtain rfl := hCall
        refine ⟨trivial, fun _ => id, ?_, ?_, ?_⟩
        · refine h.give hMapping rfl (fun m hNe => Function.update_of_ne hNe ..) ?_ fun _ => .inl
          intro hSome
          exact absurd (Function.update_self ..) hSome
        · exact fun other hOther => Function.update_of_ne hOther ..
        · rw [Function.update_self]
          rfl

/-! ### The life of the runner -/

/-- Between two calls of `run_tests`: nothing is lost, and as long as no guard is missing, none ever
has been. -/
structure Standing (build : Build) (guards : Guards) (s : World) : Prop where
  sound : Sound build guards s.own
  whole : Full build guards → ∀ own ∈ s.seen, Whole build own

/-- Where no guard has a mapping, there is none. -/
theorem Backed.nothing (h : Sound build guards own)
    (hNone : ∀ purpose, (guards purpose).mapping = none) : own = fun _ => none := by
  funext mapping
  by_contra hSome
  rcases h.only mapping hSome with ⟨purpose, hHeld⟩ | hLost
  · rw [hNone purpose] at hHeld
    cases hHeld
  · exact hLost

theorem runTests_keeps (h : Standing build guards s) :
    MapperKeeps build (Standing build) (runTests build guards) s := by
  unfold runTests
  split
  · apply keeps_bind
    refine keeps_mono (lendTestContiguityGuard_keeps h.sound) ?_
    rintro ⟨lent, guards₁⟩ t₁ - ⟨hFrame, -, hSound, hHeld, hGone, hStays, -⟩
    have hSeen : t₁.seen = s.seen := by rw [hFrame]
    cases lent with
    | false =>
      refine ⟨trivial, hSound, fun hFull => ?_⟩
      rw [hSeen]
      exact h.whole (hStays rfl hFull)
    | true =>
      have hWhole : ∀ own ∈ t₁.seen, Whole build own := by
        rw [hSeen]
        exact h.whole (hHeld rfl)
      refine keeps_perform_bind trivial (fun _ => ⟨hSound.nothing (hGone rfl), hWhole⟩) ?_
      rintro _ t₂ rfl
      apply keeps_bind
      refine keeps_mono (acquireBoth_keeps hSound) ?_
      rintro ⟨ok, guards₂⟩ t₃ - hArmed
      refine ⟨trivial, hArmed.sound, fun _ => ?_⟩
      rw [hArmed.frame]
      exact hWhole
  · next hNot =>
    have hSome : ¬∀ purpose, build purpose ≠ none := by
      intro hBuild
      apply hNot
      rw [Bool.and_eq_true, Option.isSome_iff_ne_none, Option.isSome_iff_ne_none]
      exact ⟨hBuild .shell, hBuild .test⟩
    refine keeps_perform_bind trivial (fun hBuild => absurd hBuild hSome) ?_
    rintro _ t rfl
    exact ⟨trivial, h⟩

theorem guestRound_keeps (h : Standing build guards s) :
    MapperKeeps build (Round (Standing build) (Standing build)) (guestRound build guards) s := by
  refine keeps_perform_bind trivial ⟨guards, h.sound⟩ ?_
  rintro more t hCall
  obtain rfl : t = { s with seen := s.seen ++ [s.own] } := hCall
  have hStanding : Standing build guards { s with seen := s.seen ++ [s.own] } := by
    refine ⟨h.sound, fun hFull own hOwn => ?_⟩
    rcases List.mem_append.mp hOwn with hBefore | hNow
    · exact h.whole hFull own hBefore
    · obtain rfl := List.mem_singleton.mp hNow
      exact ⟨guards, h.sound, hFull⟩
  cases more with
  | false => exact ⟨trivial, hStanding⟩
  | true =>
    apply keeps_bind
    refine keeps_mono (runTests_keeps hStanding) ?_
    intro guards' t' _ hAfter
    exact ⟨trivial, hAfter⟩

/-- The runner has started, and no guard has a mapping. -/
structure Fresh (w : World) : Prop where
  own : w.own = fun _ => none
  seen : w.seen = []

theorem lifetime_keeps (rounds : Nat) (build : Build) {w : World} (hFresh : Fresh w) :
    MapperKeeps build (fun _ t => ∀ mapping, t.own mapping ≠ none → Refused t mapping)
      (lifetime rounds build) w := by
  have hSound : Sound build (fun _ => .zero) w.own := by
    rw [hFresh.own]
    exact .fresh build
  apply keeps_bind
  refine keeps_mono (acquireBoth_keeps hSound) ?_
  rintro ⟨ok, guards₁⟩ t₁ - hArmed
  cases ok with
  | false =>
    refine ⟨trivial, fun mapping hOwn => ?_⟩
    rcases hArmed.sound.only mapping hOwn with ⟨purpose, hHeld⟩ | hLost
    · exact hArmed.left rfl (fun _ => rfl) purpose mapping hHeld
    · exact hLost.elim
  | true =>
    have hStanding : Standing build guards₁ t₁ := by
      refine ⟨hArmed.sound, fun _ own hOwn => ?_⟩
      rw [hArmed.frame] at hOwn
      dsimp only at hOwn
      rw [hFresh.seen] at hOwn
      cases hOwn
    apply keeps_bind
    refine keeps_mono (keeps_loop (J := Standing build) (Q := Standing build)
      (fun _ _ h => guestRound_keeps h) ?_ rounds hStanding) ?_
    · intro guards s _
      exact ⟨trivial, trivial, fun _ _ => trivial, fun x => x.elim⟩
    intro guards₂ t₂ _ hStanding₂
    apply keeps_bind
    apply keeps_bind
    refine keeps_mono (dropGuard_keeps hStanding₂.sound) ?_
    rintro guards₃ t₃ - ⟨-, hBacked₃, -, hTest₃⟩
    refine keeps_mono (dropGuard_keeps hBacked₃) ?_
    rintro guards₄ t₄ - ⟨hFailures₄, hBacked₄, hOthers₄, hShell₄⟩
    refine ⟨trivial, fun mapping hOwn => ?_⟩
    rcases hBacked₄.only mapping hOwn with ⟨purpose, hHeld⟩ | ((hNever | ⟨l, hBefore⟩) | hRefused)
    · cases purpose with
      | shell =>
        rw [hShell₄] at hHeld
        cases hHeld
      | test =>
        rw [hOthers₄ .test (by decide), hTest₃] at hHeld
        cases hHeld
    · exact hNever.elim
    · exact ⟨l, hFailures₄ hBefore⟩
    · exact hRefused

/-- In every run of the runner, every call treats the mappings of the guards as it has to, and what
is left of them at the end the system has refused to take. -/
theorem lifetime_lends (rounds : Nat) (build : Build) {w : World} (hFresh : Fresh w) :
    (∀ call s, Reaches host w (lifetime rounds build) call s → Proper build call s) ∧
    ∀ ok t, Runs host w (lifetime rounds build) ok t →
      ∀ mapping, t.own mapping ≠ none → Refused t mapping :=
  ⟨fun _ _ h => h.keeps (lifetime_keeps rounds build hFresh),
    fun _ _ h => (h.keeps (lifetime_keeps rounds build hFresh)).2⟩

/-! ### The guards of `run_tests` -/

/-- There is always room for one more mapping. -/
theorem Backed.room (h : Sound build guards own) : ∃ mapping, own mapping = none := by
  by_contra hNone
  have hHeld : ∀ mapping, ∃ purpose, (guards purpose).mapping = some mapping := by
    intro mapping
    have hSome : own mapping ≠ none := fun h => hNone ⟨mapping, h⟩
    exact (h.only mapping hSome).resolve_right id
  choose holder hHolder using hHeld
  have hSame : ∀ m m', holder m = holder m' → m = m' := by
    intro m m' hEq
    have hFirst := hHolder m
    rw [hEq, hHolder m'] at hFirst
    exact (Option.some.inj hFirst).symm
  have hTwo : ∀ a b c : Purpose, a = b ∨ b = c ∨ a = c := by
    intro a b c
    cases a <;> cases b <;> cases c <;> simp
  rcases hTwo (holder 0) (holder 1) (holder 2) with hEq | hEq | hEq
  · exact absurd (hSame 0 1 hEq) (by decide)
  · exact absurd (hSame 1 2 hEq) (by decide)
  · exact absurd (hSame 0 2 hEq) (by decide)

/-- An acquisition can go as `mmap` pleases. -/
theorem acquireFor_runs (h : Sound build guards s.own) (hBuild : build purpose ≠ none)
    (maps : Bool) : ∃ guards' t, Runs host s (acquireFor build purpose guards)
      (RunTests.acquireGuard (guards purpose).mapping.isSome maps, guards') t ∧
      (guards' purpose).mapping.isSome =
        RunTests.acquireGuard (guards purpose).mapping.isSome maps := by
  obtain ⟨length, hLength⟩ := Option.ne_none_iff_exists'.mp hBuild
  unfold acquireFor acquireGuard RunTests.acquireGuard
  rw [hLength]
  cases hMapping : (guards purpose).mapping with
  | some mapping =>
    have hSame := (h.held purpose mapping hMapping).2
    rw [hLength] at hSame
    obtain rfl := Option.some.inj hSame
    refine ⟨Function.update guards purpose (guards purpose), s, ?_, ?_⟩
    · simp only [BEq.rfl]
      exact .ret _ _
    · rw [Function.update_self, hMapping]
      rfl
  | none =>
    cases maps with
    | false =>
      have hCall : host s (.map length) none s := rfl
      refine ⟨Function.update guards purpose (guards purpose), s,
        runs_perform_bind hCall (.ret _ _), ?_⟩
      rw [Function.update_self, hMapping]
      rfl
    | true =>
      obtain ⟨mapping, hFree⟩ := h.room
      have hCall : host s (.map length) (some mapping)
        { s with own := Function.update s.own mapping (some length) } := ⟨hFree, rfl⟩
      refine ⟨Function.update guards purpose ⟨some mapping, length⟩, _,
        runs_perform_bind hCall (.ret _ _), ?_⟩
      rw [Function.update_self]
      rfl

/-- A release can go as `munmap` pleases. -/
theorem releaseFor_runs (guards : Guards) (purpose : Purpose) (s : World) (unmaps : Bool) :
    ∃ guards' t, Runs host s (releaseFor purpose guards)
      ((RunTests.releaseGuard (guards purpose).mapping.isSome unmaps).1, guards') t ∧
      (guards' purpose).mapping.isSome =
        (RunTests.releaseGuard (guards purpose).mapping.isSome unmaps).2 := by
  unfold releaseFor releaseGuard RunTests.releaseGuard
  cases hMapping : (guards purpose).mapping with
  | none =>
    refine ⟨Function.update guards purpose (guards purpose), s, .ret _ _, ?_⟩
    rw [Function.update_self, hMapping]
    rfl
  | some mapping =>
    cases unmaps with
    | false =>
      have hCall : host s (.unmap mapping (guards purpose).length) false { s with
        failures := s.failures ++ [.unmap mapping (guards purpose).length] } := rfl
      refine ⟨Function.update guards purpose (guards purpose), _,
        runs_perform_bind hCall (.ret _ _), ?_⟩
      rw [Function.update_self, hMapping]
      rfl
    | true =>
      have hCall : host s (.unmap mapping (guards purpose).length) true
        { s with own := Function.update s.own mapping none } := rfl
      refine ⟨Function.update guards purpose { guards purpose with mapping := none }, _,
        runs_perform_bind hCall (.ret _ _), ?_⟩
      rw [Function.update_self]
      rfl

/-- Every loan of `run_tests` is one of the mappings. -/
theorem lendTestContiguityGuard_can (h : Sound build guards s.own)
    (hBoth : ∀ purpose, build purpose ≠ none) (unmapsShell unmapsTest mapsShell : Bool) :
    ∃ ok guards' t, Runs host s (lendTestContiguityGuard build guards) (ok, guards') t ∧
      (ok, view guards') =
        RunTests.lendGuards unmapsShell unmapsTest mapsShell (view guards) := by
  obtain ⟨guards₁, t₁, hRun₁, hView₁⟩ := releaseFor_runs guards .shell s unmapsShell
  have hFirst := (hRun₁.keeps (releaseFor_keeps h)).2
  have hTest₁ : guards₁ .test = guards .test := hFirst.others (by decide)
  cases hOk₁ : (RunTests.releaseGuard (guards .shell).mapping.isSome unmapsShell).1 with
  | false =>
    rw [hOk₁] at hRun₁
    refine ⟨false, guards₁, t₁, hRun₁.bind (.ret _ _), ?_⟩
    simp only [RunTests.lendGuards, view, hOk₁, hView₁, hTest₁]
    rfl
  | true =>
    rw [hOk₁] at hRun₁
    obtain ⟨guards₂, t₂, hRun₂, hView₂⟩ := releaseFor_runs guards₁ .test t₁ unmapsTest
    have hSecond := (hRun₂.keeps (releaseFor_keeps hFirst.backed)).2
    have hShell₂ : guards₂ .shell = guards₁ .shell := hSecond.others (by decide)
    rw [hTest₁] at hRun₂ hView₂
    cases hOk₂ : (RunTests.releaseGuard (guards .test).mapping.isSome unmapsTest).1 with
    | true =>
      rw [hOk₂] at hRun₂
      refine ⟨true, guards₂, t₂, hRun₁.bind (hRun₂.bind (.ret _ _)), ?_⟩
      simp only [RunTests.lendGuards, view, hOk₁, hOk₂, hView₁, hView₂, hShell₂]
      rfl
    | false =>
      rw [hOk₂] at hRun₂
      obtain ⟨guards₃, t₃, hRun₃, hView₃⟩ :=
        acquireFor_runs hSecond.backed (hBoth .shell) mapsShell
      have hThird := (hRun₃.keeps (acquireFor_keeps hSecond.backed)).2
      have hTest₃ : guards₃ .test = guards₂ .test := hThird.others .test (by decide)
      refine ⟨false, guards₃, t₃, hRun₁.bind (hRun₂.bind (hRun₃.bind (.ret _ _))), ?_⟩
      dsimp only at hView₃
      rw [hShell₂, hView₁] at hView₃
      simp only [RunTests.lendGuards, view, hOk₁, hOk₂, hView₂, hView₃, hTest₃]
      rfl

/-- Every time that `run_tests` takes the guards back is one of the mappings. -/
theorem rearmTestContiguityGuard_can (h : Sound build guards s.own)
    (hBoth : ∀ purpose, build purpose ≠ none) (mapsShell mapsTest unmapsShell : Bool) :
    ∃ ok guards' t, Runs host s (rearmTestContiguityGuard build guards) (ok, guards') t ∧
      (ok, view guards') =
        RunTests.rearmGuards mapsShell mapsTest unmapsShell (view guards) := by
  obtain ⟨guards₁, t₁, hRun₁, hView₁⟩ := acquireFor_runs h (hBoth .shell) mapsShell
  have hFirst := (hRun₁.keeps (acquireFor_keeps h)).2
  have hTest₁ : guards₁ .test = guards .test := hFirst.others .test (by decide)
  cases hOk₁ : RunTests.acquireGuard (guards .shell).mapping.isSome mapsShell with
  | false =>
    rw [hOk₁] at hRun₁ hView₁
    refine ⟨false, guards₁, t₁, hRun₁.bind (.ret _ _), ?_⟩
    simp only [RunTests.rearmGuards, view, hOk₁, hView₁, hTest₁]
    rfl
  | true =>
    rw [hOk₁] at hRun₁ hView₁
    obtain ⟨guards₂, t₂, hRun₂, hView₂⟩ := acquireFor_runs hFirst.sound (hBoth .test) mapsTest
    have hSecond := (hRun₂.keeps (acquireFor_keeps hFirst.sound)).2
    have hShell₂ : guards₂ .shell = guards₁ .shell := hSecond.others .shell (by decide)
    dsimp only at hRun₂ hView₂
    rw [hTest₁] at hRun₂ hView₂
    cases hOk₂ : RunTests.acquireGuard (guards .test).mapping.isSome mapsTest with
    | true =>
      rw [hOk₂] at hRun₂ hView₂
      refine ⟨true, guards₂, t₂, hRun₁.bind (hRun₂.bind (.ret _ _)), ?_⟩
      simp only [RunTests.rearmGuards, view, hOk₁, hOk₂, hView₁, hView₂, hShell₂]
      rfl
    | false =>
      rw [hOk₂] at hRun₂ hView₂
      obtain ⟨guards₃, t₃, hRun₃, hView₃⟩ := releaseFor_runs guards₂ .shell t₂ unmapsShell
      have hThird := (hRun₃.keeps (releaseFor_keeps hSecond.sound)).2
      have hTest₃ : guards₃ .test = guards₂ .test := hThird.others (by decide)
      have hShell : (build .shell).isSome = true := Option.isSome_iff_ne_none.mpr (hBoth .shell)
      refine ⟨false, guards₃, t₃, hRun₁.bind (hRun₂.bind ?_), ?_⟩
      · simp only [hShell, if_true]
        exact hRun₃.bind (.ret _ _)
      · rw [hShell₂, hView₁] at hView₃
        simp only [RunTests.rearmGuards, view, hOk₁, hOk₂, hView₂, hView₃, hTest₃]
        rfl

/-- What `run_tests` sees of the guards when it lends them and takes them back is what its own model
has, and nothing of that model is missing: the same answers and the same guards. -/
theorem guards_follow (h : Sound build guards s.own) (hBoth : ∀ purpose, build purpose ≠ none)
    (ok : Bool) (seen : RunTests.Guards) :
    ((∃ guards' t, Runs host s (lendTestContiguityGuard build guards) (ok, guards') t ∧
        view guards' = seen) ↔
      ∃ unmapsShell unmapsTest mapsShell,
        RunTests.lendGuards unmapsShell unmapsTest mapsShell (view guards) = (ok, seen)) ∧
    ((∃ guards' t, Runs host s (rearmTestContiguityGuard build guards) (ok, guards') t ∧
        view guards' = seen) ↔
      ∃ mapsShell mapsTest unmapsShell,
        RunTests.rearmGuards mapsShell mapsTest unmapsShell (view guards) = (ok, seen)) := by
  refine ⟨⟨?_, ?_⟩, ?_, ?_⟩
  · rintro ⟨guards', t, hRun, rfl⟩
    exact (hRun.keeps (lendTestContiguityGuard_keeps h)).2.follows
  · rintro ⟨unmapsShell, unmapsTest, mapsShell, hLend⟩
    obtain ⟨ok', guards', t, hRun, hSame⟩ :=
      lendTestContiguityGuard_can h hBoth unmapsShell unmapsTest mapsShell
    rw [hLend] at hSame
    cases hSame
    exact ⟨guards', t, hRun, rfl⟩
  · rintro ⟨guards', t, hRun, rfl⟩
    exact (hRun.keeps (acquireBoth_keeps h)).2.follows hBoth
  · rintro ⟨mapsShell, mapsTest, unmapsShell, hRearm⟩
    obtain ⟨ok', guards', t, hRun, hSame⟩ :=
      rearmTestContiguityGuard_can h hBoth mapsShell mapsTest unmapsShell
    rw [hRearm] at hSame
    cases hSame
    exact ⟨guards', t, hRun, rfl⟩

section Board

/-- The guards of the board. -/
def boardBuild : Build
  | .shell => some 65536
  | .test => some 32768

theorem boardBuild_both (purpose : Purpose) : boardBuild purpose ≠ none := by
  cases purpose with
  | shell => exact Option.some_ne_none 65536
  | test => exact Option.some_ne_none 32768

def armed (guards : Guards) : Guards :=
  Function.update (Function.update guards .shell ⟨some 0x100, 65536⟩) .test ⟨some 0x200, 32768⟩

def World.armed (s : World) : World :=
  { s with own := Function.update (Function.update s.own 0x100 (some 65536)) 0x200 (some 32768) }

def World.lent (s : World) : World :=
  { s with own := Function.update (Function.update s.own 0x100 none) 0x200 none }

def emptyWorld : World := ⟨fun _ => none, [], []⟩

theorem emptyWorld_fresh : Fresh emptyWorld := ⟨rfl, rfl⟩

theorem acquireBoth_runs {s : World} {guards : Guards}
    (hNone : ∀ purpose, (guards purpose).mapping = none) (hFirst : s.own 0x100 = none)
    (hSecond : s.own 0x200 = none) :
    Runs host s (acquireBoth boardBuild guards) (true, armed guards) s.armed := by
  have hShell : Runs host s (acquireFor boardBuild .shell guards)
      (true, Function.update guards .shell ⟨some 0x100, 65536⟩)
      { s with own := Function.update s.own 0x100 (some 65536) } := by
    unfold acquireFor acquireGuard boardBuild
    rw [hNone .shell]
    have hCall : host s (.map 65536) (some 0x100)
      { s with own := Function.update s.own 0x100 (some 65536) } := ⟨hFirst, rfl⟩
    exact runs_perform_bind hCall (.ret _ _)
  have hTest : Runs host { s with own := Function.update s.own 0x100 (some 65536) }
      (acquireFor boardBuild .test (Function.update guards .shell ⟨some 0x100, 65536⟩))
      (true, armed guards) s.armed := by
    unfold acquireFor acquireGuard boardBuild
    rw [Function.update_of_ne (by decide), hNone .test]
    have hCall : host { s with own := Function.update s.own 0x100 (some 65536) } (.map 32768)
        (some 0x200) s.armed := by
      refine ⟨?_, rfl⟩
      dsimp only
      rw [Function.update_of_ne (by decide)]
      exact hSecond
    exact runs_perform_bind hCall (.ret _ _)
  exact hShell.bind (hTest.bind (.ret _ _))

/-- The guards once they are lent. -/
def lent (guards : Guards) : Guards :=
  Function.update (Function.update (armed guards) .shell ⟨none, 65536⟩) .test ⟨none, 32768⟩

theorem lendTestContiguityGuard_runs (s : World) (guards : Guards) :
    Runs host s (lendTestContiguityGuard boardBuild (armed guards)) (true, lent guards) s.lent := by
  have hFirst : host s (.unmap 0x100 65536) true
    { s with own := Function.update s.own 0x100 none } := rfl
  have hSecond : host { s with own := Function.update s.own 0x100 none } (.unmap 0x200 32768) true
    s.lent := rfl
  have hShell : Runs host s (releaseFor .shell (armed guards))
      (true, Function.update (armed guards) .shell ⟨none, 65536⟩)
      { s with own := Function.update s.own 0x100 none } :=
    runs_perform_bind hFirst (.ret _ _)
  have hTest : Runs host { s with own := Function.update s.own 0x100 none }
      (releaseFor .test (Function.update (armed guards) .shell ⟨none, 65536⟩)) (true, lent guards)
      s.lent := runs_perform_bind hSecond (.ret _ _)
  exact hShell.bind (hTest.bind (.ret _ _))

/-- The guest runs, and comes to the helper. -/
def World.guest (s : World) : World := { s with seen := s.seen ++ [s.own] }

theorem lent_none (guards : Guards) (purpose : Purpose) : (lent guards purpose).mapping = none := by
  cases purpose with
  | shell => rfl
  | test => rfl

theorem runTests_runs (s : World) (guards : Guards) :
    Runs host s (runTests boardBuild (armed guards)) (armed (lent guards)) s.lent.armed := by
  have hHelper : host s.lent .helper () s.lent := rfl
  have hRearm : Runs host s.lent (rearmTestContiguityGuard boardBuild (lent guards))
      (true, armed (lent guards)) s.lent.armed :=
    acquireBoth_runs (lent_none guards) rfl rfl
  exact (lendTestContiguityGuard_runs s guards).bind
    (runs_perform_bind hHelper (hRearm.bind (.ret _ _)))

theorem prepare_runs : Runs host emptyWorld (prepareLowMemoryGuards boardBuild fun _ => .zero)
    (true, armed fun _ => .zero) emptyWorld.armed := acquireBoth_runs (fun _ => rfl) rfl rfl

/-- The guest comes to the helper, which finds both blocks free, and at the end nothing is left. -/
theorem lifetime_lends_board :
    (∃ s, Reaches host emptyWorld (lifetime 2 boardBuild) .helper s ∧ s.own = (fun _ => none) ∧
      s.seen ≠ [] ∧ ∀ own ∈ s.seen, Whole boardBuild own) ∧
    ∃ t, Runs host emptyWorld (lifetime 2 boardBuild) true t ∧
      ∀ mapping, t.own mapping ≠ none → Refused t mapping := by
  obtain ⟨hCalls, hEnd⟩ := lifetime_lends 2 boardBuild emptyWorld_fresh
  have hGuest : ∀ (s : World) (x : Bool), host s .guest x s.guest := fun _ _ => rfl
  have hTurn : Runs host emptyWorld.armed (guestRound boardBuild (armed fun _ => .zero))
      (.inl (armed (lent fun _ => .zero))) emptyWorld.armed.guest.lent.armed :=
    runs_perform_bind (hGuest _ true) ((runTests_runs _ _).bind (.ret _ _))
  have hLast : Runs host emptyWorld.armed.guest.lent.armed
      (guestRound boardBuild (armed (lent fun _ => .zero))) (.inr (armed (lent fun _ => .zero)))
      emptyWorld.armed.guest.lent.armed.guest := runs_perform_bind (hGuest _ false) (.ret _ _)
  constructor
  · have hAsks : Runs host emptyWorld.armed guest true emptyWorld.armed.guest :=
      .call true (hGuest _ true) (.ret _ _)
    have hTest : Reaches host emptyWorld.armed.guest
        (runTests boardBuild (armed fun _ => .zero)) .helper emptyWorld.armed.guest.lent :=
      reaches_second (lendTestContiguityGuard_runs _ _) (.here ..)
    have hReaches : Reaches host emptyWorld.armed
        (guestRound boardBuild (armed fun _ => .zero)) .helper emptyWorld.armed.guest.lent :=
      reaches_second hAsks (reaches_first hTest)
    have hLife : Reaches host emptyWorld (lifetime 2 boardBuild) .helper
        emptyWorld.armed.guest.lent :=
      reaches_second prepare_runs (reaches_first (reaches_first hReaches))
    obtain ⟨hNone, hWhole⟩ := hCalls _ _ hLife boardBuild_both
    exact ⟨_, hLife, hNone, by simp [World.guest, World.lent], hWhole⟩
  · have hFirst : ∀ u, host u (.unmap 0x200 32768) true
      { u with own := Function.update u.own 0x200 none } := fun _ => rfl
    have hSecond : ∀ u, host u (.unmap 0x100 65536) true
      { u with own := Function.update u.own 0x100 none } := fun _ => rfl
    have hDropTest : ∀ u, Runs host u (dropGuard boardBuild .test (armed (lent fun _ => .zero)))
        (Function.update (armed (lent fun _ => .zero)) .test .zero)
        { u with own := Function.update u.own 0x200 none } := fun u =>
      runs_perform_bind (hFirst u) (.ret _ _)
    have hDropShell : ∀ u, Runs host u (dropGuard boardBuild .shell
        (Function.update (armed (lent fun _ => .zero)) .test .zero))
        (Function.update (Function.update (armed (lent fun _ => .zero)) .test .zero) .shell .zero)
        { u with own := Function.update u.own 0x100 none } := fun u =>
      runs_perform_bind (hSecond u) (.ret _ _)
    have hLife : ∃ t, Runs host emptyWorld (lifetime 2 boardBuild) true t :=
      ⟨_, prepare_runs.bind ((runs_loop_next hTurn (runs_loop_end hLast)).bind
        (((hDropTest _).bind (hDropShell _)).bind (.ret _ _)))⟩
    obtain ⟨t, hRun⟩ := hLife
    exact ⟨t, hRun, hEnd true t hRun⟩

/-- A loan that fails at the second block, with the first one taken back. -/
theorem guards_follow_board : ∃ guards t,
    Runs host emptyWorld.armed (lendTestContiguityGuard boardBuild (armed fun _ => .zero))
      (false, guards) t ∧ view guards = ⟨true, true⟩ := by
  have hSound : Sound boardBuild (armed fun _ => .zero) emptyWorld.armed.own :=
    (prepare_runs.keeps (acquireBoth_keeps (Sound.fresh boardBuild))).2.sound
  obtain ⟨hLend, -⟩ := guards_follow hSound boardBuild_both false ⟨true, true⟩
  exact hLend.mpr ⟨true, false, true, rfl⟩

end Board

end Esp32Fx.Native.Contiguity
