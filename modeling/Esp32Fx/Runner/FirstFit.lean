import Esp32Fx.Runner.Allocator

/-! `metadata_malloc` is a first fit.  The loop moves its offset only past offsets at which no free
interval starts, so that it ends at the lowest one or, with none left, outside the arena. -/

namespace Esp32Fx.Runner

open Lib

/-! ### Metadata blocks -/

variable {n k : Nat}

/-- An entry lies in the metadata arena, on a boundary of eight bytes. -/
structure MetadataBlock.Inside (b : MetadataBlock) : Prop where
  aligned : b.offset % 8 = 0
  room : b.offset + b.size ≤ metadataBytes

/-- The offsets that an entry takes. -/
def MetadataBlock.region (b : MetadataBlock) : Region := ⟨b.offset, b.size⟩

theorem sizeT_of_le (h : n ≤ metadataBytes + metadataBytes) : sizeT n = n := by
  have hBytes : metadataBytes = 0x20000 := rfl
  unfold sizeT
  omega

theorem metadataRoom_of_le (h : n ≤ metadataBytes) : metadataRoom n = metadataBytes - n := by
  have hBytes : metadataBytes = 0x20000 := rfl
  unfold metadataRoom sizeT
  omega

theorem alignEight_of_le (h : n ≤ metadataBytes) :
    alignEight n % 8 = 0 ∧ n ≤ alignEight n ∧ alignEight n ≤ metadataBytes := by
  have hBytes : metadataBytes = 0x20000 := rfl
  rw [alignEight, sizeT_of_le (by omega)]
  omega

/-- In the arena no sum wraps, and the test for an overlap is exact. -/
theorem MetadataBlock.Inside.overlaps_iff {b : MetadataBlock} (h : b.Inside)
    (hFits : n + k ≤ metadataBytes) :
    b.overlaps n k = true ↔ b.size ≠ 0 ∧ ¬Region.Disjoint ⟨n, k⟩ b.region := by
  have hRoom := h.room
  simp only [overlaps, Bool.and_eq_true, decide_eq_true_eq, Region.Disjoint, region,
    sizeT_of_le (by omega : b.offset + b.size ≤ metadataBytes + metadataBytes),
    sizeT_of_le (by omega : n + k ≤ metadataBytes + metadataBytes)]
  omega

theorem find?_overlaps_ne {blocks : Fin 2 → MetadataBlock} {slot i : Fin 2}
    (hEmpty : (blocks slot).size = 0)
    (h : (List.finRange 2).find? (fun i => (blocks i).overlaps n k) = some i) : i ≠ slot := by
  rintro rfl
  have hFound := List.find?_some h
  simp [MetadataBlock.overlaps, hEmpty] at hFound

/-! ### The loop -/

/-- The loop of `metadata_malloc` with no bound on its rounds: from an offset it comes to the offset
that it takes, or to none for NULL. -/
inductive Searches (blocks : Fin 2 → MetadataBlock) (size : Nat) : Nat → Option Nat → Prop
  | full (offset : Nat) (hRoom : size > metadataRoom offset) : Searches blocks size offset none
  | behind (offset : Nat) (i : Fin 2) (found : Option Nat) (hRoom : ¬size > metadataRoom offset)
    (hMet : (List.finRange 2).find? (fun i => (blocks i).overlaps offset size) = some i)
    (hRest : Searches blocks size
      (alignEight (sizeT ((blocks i).offset + (blocks i).size))) found) :
    Searches blocks size offset found
  | fits (offset : Nat) (hRoom : ¬size > metadataRoom offset)
    (hFree : (List.finRange 2).find? (fun i => (blocks i).overlaps offset size) = none) :
    Searches blocks size offset (some offset)

/-- The offsets with which a round of the loop begins. -/
inductive Tried (blocks : Fin 2 → MetadataBlock) (size : Nat) : Nat → Prop
  | start : Tried blocks size 0
  | behind (offset : Nat) (i : Fin 2) (hTried : Tried blocks size offset)
    (hRoom : ¬size > metadataRoom offset)
    (hMet : (List.finRange 2).find? (fun i => (blocks i).overlaps offset size) = some i) :
    Tried blocks size (alignEight (sizeT ((blocks i).offset + (blocks i).size)))

/-- An interval of the arena on a boundary of eight bytes that is apart from the live blocks. -/
structure FreeAt (blocks : Fin 2 → MetadataBlock) (size offset : Nat) : Prop where
  aligned : offset % 8 = 0
  room : offset + size ≤ metadataBytes
  apart : ∀ i, (blocks i).size ≠ 0 → Region.Disjoint ⟨offset, size⟩ (blocks i).region

section Search

variable {blocks : Fin 2 → MetadataBlock} {size offset : Nat}

theorem alignEight_least {n o : Nat} (hEnd : n ≤ metadataBytes) (hAligned : o % 8 = 0)
    (hLe : n ≤ o) : alignEight n ≤ o := by
  have hBytes : metadataBytes = 0x20000 := rfl
  rw [alignEight, sizeT_of_le (by omega)]
  omega

/-- The subtraction from the size of the arena is never one of a larger number. -/
theorem Tried.le (hInside : ∀ i, (blocks i).Inside) (h : Tried blocks size offset) :
    offset ≤ metadataBytes := by
  cases h with
  | start => exact Nat.zero_le _
  | behind before i hTried hRoom hMet =>
    have hEnd := (hInside i).room
    rw [sizeT_of_le (by omega)]
    exact (alignEight_of_le hEnd).2.2

/-- The loop passes no offset at which a free interval starts. -/
theorem Tried.least (hInside : ∀ i, (blocks i).Inside) (h : Tried blocks size offset) {o : Nat}
    (hFree : FreeAt blocks size o) : offset ≤ o := by
  induction h with
  | start => exact Nat.zero_le _
  | behind offset i hTried hRoom hMet ih =>
    have hEnd := (hInside i).room
    have hBefore := hTried.le hInside
    rw [metadataRoom_of_le hBefore] at hRoom
    have hOverlap := List.find?_some hMet
    rw [(hInside i).overlaps_iff (by omega)] at hOverlap
    obtain ⟨hUsed, hInTheWay⟩ := hOverlap
    have hApart := hFree.apart i hUsed
    have hBehind : (blocks i).offset + (blocks i).size ≤ o := by
      unfold Region.Disjoint MetadataBlock.region at hInTheWay hApart
      simp only at hInTheWay hApart
      omega
    rw [sizeT_of_le (by omega)]
    exact alignEight_least hEnd hFree.aligned hBehind

/-- What the loop takes is free, and with NULL nothing is. -/
theorem Searches.sound (hInside : ∀ i, (blocks i).Inside) {found : Option Nat}
    (h : Searches blocks size offset found) (hAligned : offset % 8 = 0)
    (hTried : Tried blocks size offset) :
    (found = none → ¬∃ o, FreeAt blocks size o) ∧
      ∀ p, found = some p → FreeAt blocks size p ∧ ∀ o, FreeAt blocks size o → p ≤ o := by
  induction h with
  | full offset hRoom =>
    refine ⟨?_, fun p hp => absurd hp.symm (Option.some_ne_none p)⟩
    rintro - ⟨o, hFree⟩
    have hLe := hTried.least hInside hFree
    have hFits := hFree.room
    rw [metadataRoom_of_le (hTried.le hInside)] at hRoom
    omega
  | behind offset i found hRoom hMet hRest ih =>
    have hEnd := (hInside i).room
    have hNext := (alignEight_of_le hEnd).1
    have hThere := hTried.behind offset i hRoom hMet
    rw [sizeT_of_le (by omega)] at ih hThere
    exact ih hNext hThere
  | fits offset hRoom hNone =>
    refine ⟨fun hp => absurd hp (Option.some_ne_none _), ?_⟩
    intro p hp
    cases hp
    rw [metadataRoom_of_le (hTried.le hInside)] at hRoom
    have hBound := hTried.le hInside
    refine ⟨⟨hAligned, by omega, fun i hUsed => ?_⟩, fun o hFree => hTried.least hInside hFree⟩
    have hFree := List.find?_eq_none.mp hNone i (List.mem_finRange i)
    rw [(hInside i).overlaps_iff (by omega)] at hFree
    exact not_not.mp fun hOverlap => hFree ⟨hUsed, hOverlap⟩

/-- With an empty entry the loop ends, and the rounds of `findOffset` are enough for it. -/
theorem searches_findOffset (hInside : ∀ i, (blocks i).Inside) (size : Nat) {slot : Fin 2}
    (hEmpty : (blocks slot).size = 0) : Searches blocks size 0 (findOffset blocks size 2 0) := by
  rw [findOffset]
  split
  · next hRoom => exact .full 0 hRoom
  next hRoom =>
  split
  · next i hMet =>
    refine .behind 0 i _ hRoom hMet ?_
    rw [findOffset]
    split
    · next hRoom' => exact .full _ hRoom'
    next hRoom' =>
    split
    · next j hMet' =>
      -- The one block that there is cannot be in the way behind its own end.
      exfalso
      have hEnd := (hInside i).room
      rw [sizeT_of_le (by omega)] at hRoom' hMet'
      obtain ⟨-, hBehind, hBound⟩ := alignEight_of_le hEnd
      have hOne : j = i := by
        have hNe := find?_overlaps_ne hEmpty hMet
        have hNe' := find?_overlaps_ne hEmpty hMet'
        omega
      subst hOne
      rw [metadataRoom_of_le hBound] at hRoom'
      have hOverlap := List.find?_some hMet'
      rw [(hInside j).overlaps_iff (by omega)] at hOverlap
      exact hOverlap.2 (.inr hBehind)
    · next hNone => exact .fits _ hRoom' hNone
  · next hNone => exact .fits 0 hRoom hNone

end Search

/-! ### `metadata_malloc` -/

variable {a : WamrAllocator} {size : Nat}

/-- How `metadata_malloc` ends on a size that the arena can have. -/
inductive FirstFit (a : WamrAllocator) (size : Nat) : Nat × WamrAllocator → Prop
  | inUse (hUsed : ∀ i, (a.metadataBlocks i).size ≠ 0) : FirstFit a size (0, a)
  | full (hNone : ¬∃ offset, FreeAt a.metadataBlocks size offset) : FirstFit a size (0, a)
  | fits (slot : Fin 2) (offset : Nat) (hEmpty : (a.metadataBlocks slot).size = 0)
    (hFree : FreeAt a.metadataBlocks size offset)
    (hLeast : ∀ o, FreeAt a.metadataBlocks size o → offset ≤ o) :
    FirstFit a size (a.metadata + offset, a.withBlock slot ⟨offset, size⟩)

theorem metadataMalloc_end (hInside : ∀ i, (a.metadataBlocks i).Inside) (hSize : 1 ≤ size)
    (hMax : size ≤ metadataBytes) : FirstFit a size (metadataMalloc a size) := by
  rw [metadataMalloc, if_neg (by omega)]
  split
  · next hNone =>
    refine .inUse fun i hEmpty => ?_
    have hUsed := List.find?_eq_none.mp hNone i (List.mem_finRange i)
    exact hUsed (decide_eq_true hEmpty)
  next slot hSlot =>
  have hEmpty : (a.metadataBlocks slot).size = 0 := by
    simpa using List.find?_some hSlot
  obtain ⟨hNull, hFits⟩ :=
    (searches_findOffset hInside size hEmpty).sound hInside rfl .start
  split
  · next hOffset => exact .full (hNull hOffset)
  · next offset hOffset =>
    obtain ⟨hFree, hLeast⟩ := hFits offset hOffset
    exact .fits slot offset hEmpty hFree hLeast

theorem metadataMalloc_size (h : ¬(1 ≤ size ∧ size ≤ metadataBytes)) :
    metadataMalloc a size = (0, a) := by
  rw [metadataMalloc, if_pos (by omega)]

end Esp32Fx.Runner
