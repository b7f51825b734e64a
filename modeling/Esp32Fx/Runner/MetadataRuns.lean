import Esp32Fx.Runner.AllocatorFacts

/-! Runs on the metadata arena.  Whatever the order of the calls, its blocks stay inside the arena on
boundaries of eight bytes, which is what the search of `metadata_malloc` needs. -/

namespace Esp32Fx.Runner

open Lib

/-! ### Runs on the metadata arena -/

/-- The calls that change `metadata_blocks`. -/
inductive MetadataCall
  | malloc (size : UInt32)
  | realloc (pointer : Nat) (size : UInt32)
  | free (pointer : Nat)

/-- `metadata_malloc` of any size, and `wamr_realloc` and `wamr_free` of a block of the arena. -/
inductive MetadataStep : WamrAllocator → MetadataCall → WamrAllocator → Prop
  | malloc (a : WamrAllocator) (size : UInt32) :
    MetadataStep a (.malloc size) (metadataMalloc a size.toNat).2
  | realloc (a a' : WamrAllocator) (m m' : Memory) (slot : Fin 2) (pointer p : Nat) (size : UInt32)
    (hSlot : metadataSlot a pointer = some slot)
    (hFinish : wamrRealloc .runtime pointer size.toNat a m = .returns p a' m') :
    MetadataStep a (.realloc pointer size) a'
  | free (a a' : WamrAllocator) (m m' : Memory) (slot : Fin 2) (pointer p : Nat)
    (hSlot : metadataSlot a pointer = some slot)
    (hFinish : wamrFree pointer a m = .returns p a' m') :
    MetadataStep a (.free pointer) a'

/-- The arena is mapped, and nothing is in it at first. -/
def metadataSystem : System WamrAllocator MetadataCall where
  Start a := 0 < a.metadata ∧ ∀ i, a.metadataBlocks i = ⟨0, 0⟩
  Step := MetadataStep

/-! ### The states that runs reach -/

/-- The arena is mapped, and its blocks are inside it. -/
structure MetadataOk (a : WamrAllocator) : Prop where
  pos : 0 < a.metadata
  inside : ∀ i, (a.metadataBlocks i).Inside

variable {a a' : WamrAllocator}

theorem MetadataOk.withBlock (h : MetadataOk a) {block : MetadataBlock} (hInside : block.Inside)
    (slot : Fin 2) : MetadataOk (a.withBlock slot block) where
  pos := h.pos
  inside i := by
    by_cases hi : i = slot
    · subst hi
      rwa [metadataBlocks_withBlock]
    · rw [metadataBlocks_withBlock_of_ne hi]
      exact h.inside i

theorem MetadataOk.malloc (h : MetadataOk a) (size : Nat) :
    MetadataOk (metadataMalloc a size).2 := by
  by_cases hSize : 1 ≤ size ∧ size ≤ metadataBytes
  · have hEnd := metadataMalloc_end h.inside hSize.1 hSize.2
    generalize metadataMalloc a size = outcome at hEnd
    cases hEnd with
    | inUse hUsed => exact h
    | full hNone => exact h
    | fits slot offset hEmpty hFree hLeast => exact h.withBlock ⟨hFree.aligned, hFree.room⟩ slot
  · rw [metadataMalloc_size hSize]
    exact h

theorem MetadataOk.realloc (h : MetadataOk a) {m m' : Memory} {slot : Fin 2} {pointer size p : Nat}
    (hSlot : metadataSlot a pointer = some slot)
    (hFinish : wamrRealloc .runtime pointer size a m = .returns p a' m') : MetadataOk a' := by
  have hInside := h.inside slot
  have hOffset : (a.metadataBlocks slot).offset ≤ metadataBytes :=
    Nat.le_trans (Nat.le_add_right _ _) hInside.room
  rw [wamrRealloc, if_pos (by decide), hSlot] at hFinish
  simp only at hFinish
  rw [metadataRoom_of_le hOffset] at hFinish
  split at hFinish
  · cases hFinish
    exact h
  next hRoom =>
  split at hFinish
  · cases hFinish
    exact h
  · cases hFinish
    have hNew : (⟨(a.metadataBlocks slot).offset, size⟩ : MetadataBlock).Inside := by
      refine ⟨hInside.aligned, ?_⟩
      simp only
      omega
    exact h.withBlock hNew slot

theorem MetadataOk.free (h : MetadataOk a) {m m' : Memory} {slot : Fin 2} {pointer p : Nat}
    (hSlot : metadataSlot a pointer = some slot)
    (hFinish : wamrFree pointer a m = .returns p a' m') : MetadataOk a' := by
  have hInside := h.inside slot
  have hEmpty : ({ a.metadataBlocks slot with size := 0 } : MetadataBlock).Inside :=
    ⟨hInside.aligned, Nat.le_trans (Nat.le_add_right _ _) hInside.room⟩
  rw [wamrFree, hSlot] at hFinish
  cases hFinish
  exact h.withBlock hEmpty slot

theorem metadataOk_reachable (h : metadataSystem.Reachable a) : MetadataOk a := by
  refine h.invariant ?_ ?_
  · rintro a ⟨hPos, hBlocks⟩
    refine ⟨hPos, fun i => ?_⟩
    rw [hBlocks i]
    exact ⟨rfl, Nat.zero_le _⟩
  · intro a e a' ha hStep
    cases hStep with
    | malloc size => exact ha.malloc _
    | realloc _ m m' slot pointer p size hSlot hFinish => exact ha.realloc hSlot hFinish
    | free _ m m' slot pointer p hSlot hFinish => exact ha.free hSlot hFinish

/-- From any reachable state the loop ends by itself after the rounds that `findOffset` allows, no
round subtracts an offset behind the arena, NULL means that no entry or no interval is free, and
otherwise the lowest free interval is taken. -/
theorem metadataMalloc_firstFit (h : metadataSystem.Reachable a) {size : Nat} (hSize : 1 ≤ size)
    (hMax : size ≤ metadataBytes) :
    ((∃ slot, (a.metadataBlocks slot).size = 0) →
      Searches a.metadataBlocks size 0 (findOffset a.metadataBlocks size 2 0)) ∧
    (∀ offset, Tried a.metadataBlocks size offset → offset ≤ metadataBytes) ∧
    (∀ slot, (a.metadataBlocks slot).offset ≤ metadataBytes) ∧
    ((metadataMalloc a size).1 = 0 ↔ (∀ i, (a.metadataBlocks i).size ≠ 0) ∨
      ¬∃ offset, FreeAt a.metadataBlocks size offset) ∧
    ((metadataMalloc a size).1 = 0 → (metadataMalloc a size).2 = a) ∧
    ((metadataMalloc a size).1 ≠ 0 → ∃ slot offset, (a.metadataBlocks slot).size = 0 ∧
      metadataMalloc a size = (a.metadata + offset, a.withBlock slot ⟨offset, size⟩) ∧
      FreeAt a.metadataBlocks size offset ∧
      ∀ o, FreeAt a.metadataBlocks size o → offset ≤ o) := by
  have hOk := metadataOk_reachable h
  refine ⟨?_, fun offset hTried => hTried.le hOk.inside, ?_, ?_⟩
  · rintro ⟨slot, hEmpty⟩
    exact searches_findOffset hOk.inside size hEmpty
  · intro slot
    exact Nat.le_trans (Nat.le_add_right _ _) (hOk.inside slot).room
  have hPos := hOk.pos
  have hEnd := metadataMalloc_end hOk.inside hSize hMax
  generalize metadataMalloc a size = outcome at hEnd
  cases hEnd with
  | inUse hUsed => exact ⟨⟨fun _ => .inl hUsed, fun _ => rfl⟩, fun _ => rfl, fun h => absurd rfl h⟩
  | full hNone => exact ⟨⟨fun _ => .inr hNone, fun _ => rfl⟩, fun _ => rfl, fun h => absurd rfl h⟩
  | fits slot offset hEmpty hFree hLeast =>
    have hSome : ¬a.metadata + offset = 0 := by omega
    refine ⟨⟨fun hNull => absurd hNull hSome, ?_⟩, fun hNull => absurd hNull hSome,
      fun _ => ⟨slot, offset, hEmpty, rfl, hFree, hLeast⟩⟩
    rintro (hUsed | hNone)
    · exact absurd hEmpty (hUsed slot)
    · exact absurd ⟨offset, hFree⟩ hNone

/-- The board's arena with a block behind its start: the block before it has been freed. -/
def boardReused : WamrAllocator := boardLoaded.allocator.withBlock ⟨0, Nat.zero_lt_two⟩ ⟨0, 0⟩

theorem metadataMalloc_firstFit_reused :
    metadataSystem.Reachable boardReused ∧
      ((metadataMalloc boardReused 67341).1 = 0 ↔
        (∀ i, (boardReused.metadataBlocks i).size ≠ 0) ∨
          ¬∃ offset, FreeAt boardReused.metadataBlocks 67341 offset) := by
  have hStart : metadataSystem.Reachable boardAllocator := .start ⟨by decide, fun _ => rfl⟩
  have hFirst : MetadataStep boardAllocator (.malloc 67340) boardInstance.allocator :=
    .malloc boardAllocator 67340
  have hSecond : MetadataStep boardInstance.allocator (.malloc 40000) boardLoaded.allocator :=
    .malloc boardInstance.allocator 40000
  have hFreed : MetadataStep boardLoaded.allocator (.free metadataAddress) boardReused :=
    .free _ _ boardStart.memory boardStart.memory 0 metadataAddress 0 rfl rfl
  have hReused := ((hStart.step hFirst).step hSecond).step hFreed
  exact ⟨hReused, (metadataMalloc_firstFit hReused (by decide) (by decide)).2.2.2.1⟩

end Esp32Fx.Runner
