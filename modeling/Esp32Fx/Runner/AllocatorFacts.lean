import Esp32Fx.Runner.FirstFit

/-! The runner's allocator keeps its blocks apart.  `Listed` says which blocks the allocator and the
C library have given out, and `Laid` what keeps those blocks apart.  Each call changes the listed
blocks as its result says, which carries the client's ledger along every run. -/

namespace Esp32Fx.Runner

open Lib

variable {a a' : WamrAllocator} {heap heap' : Heap} {m m' : Memory} {p q n k : Nat} {t u : Usage}

/-! ### Blocks that are given out -/

/-- A block that is given out, with its usage and its size. -/
inductive Listed (a : WamrAllocator) (heap : Heap) : Nat → Usage → Nat → Prop
  | slot (i : Fin 2) (hUsed : (a.metadataBlocks i).size ≠ 0) :
    Listed a heap (a.metadata + (a.metadataBlocks i).offset) .runtime (a.metadataBlocks i).size
  | linear (hUsed : a.inUse) : Listed a heap a.linearMemory .linearMemory a.used
  | heap (p n : Nat) (hLive : heap p = some n) : Listed a heap p .runtime n

/-- What keeps the blocks that are given out apart. -/
structure Laid (a : WamrAllocator) (heap : Heap) : Prop where
  inside : ∀ i, (a.metadataBlocks i).Inside
  slots : ∀ i j, i ≠ j → (a.metadataBlocks i).size ≠ 0 → (a.metadataBlocks j).size ≠ 0 →
    (a.metadataBlocks i).region.Disjoint (a.metadataBlocks j).region
  used_le : a.used ≤ a.capacity
  metadata_pos : 0 < a.metadata
  metadata_aligned : a.metadata % 8 = 0
  linear_pos : 0 < a.linearMemory
  capacity_pos : 0 < a.capacity
  arenas : Region.Disjoint ⟨a.metadata, metadataBytes⟩ ⟨a.linearMemory, a.capacity⟩
  heap_pos : ∀ p n, heap p = some n → p ≠ 0
  heap_arenas : ∀ p n, heap p = some n → ∀ r ∈ a.arenas, (footprint p n).Disjoint r
  heap_apart : ∀ p n q k, heap p = some n → heap q = some k → p ≠ q →
    (footprint p n).Disjoint (footprint q k)

theorem footprint_within (p n : Nat) : Region.Within ⟨p, n⟩ (footprint p n) := by
  unfold Region.Within footprint
  simp only
  omega

namespace Laid

theorem slot_within (h : Laid a heap) {i : Fin 2} (hUsed : (a.metadataBlocks i).size ≠ 0) :
    (footprint (a.metadata + (a.metadataBlocks i).offset) (a.metadataBlocks i).size).Within
      ⟨a.metadata, metadataBytes⟩ := by
  have hRoom := (h.inside i).room
  unfold Region.Within footprint
  simp only
  omega

theorem linear_within (h : Laid a heap) :
    (footprint a.linearMemory a.used).Within ⟨a.linearMemory, a.capacity⟩ := by
  have hUsed := h.used_le
  have hPos := h.capacity_pos
  unfold Region.Within footprint
  simp only
  omega

theorem heap_metadata (h : Laid a heap) (hp : heap p = some n) :
    (footprint p n).Disjoint ⟨a.metadata, metadataBytes⟩ :=
  h.heap_arenas p n hp _ (by simp [WamrAllocator.arenas])

theorem heap_linear (h : Laid a heap) (hp : heap p = some n) :
    (footprint p n).Disjoint ⟨a.linearMemory, a.capacity⟩ :=
  h.heap_arenas p n hp _ (by simp [WamrAllocator.arenas])

theorem pos (h : Laid a heap) (hp : Listed a heap p t n) : p ≠ 0 := by
  have hMetadata := h.metadata_pos
  have hLinear := h.linear_pos
  cases hp with
  | slot i hUsed => omega
  | linear hUsed => omega
  | heap p n hLive => exact h.heap_pos p n hLive

/-- Listed blocks at different addresses have no byte in common. -/
theorem apart (h : Laid a heap) (hp : Listed a heap p t n) (hq : Listed a heap q u k)
    (hne : p ≠ q) : (footprint p n).Disjoint (footprint q k) := by
  rcases hp with ⟨i, hi⟩ | hi | ⟨p, n, hi⟩
  · rcases hq with ⟨j, hj⟩ | hj | ⟨q, k, hj⟩
    · have hSlots := h.slots i j (by rintro rfl; exact hne rfl) hi hj
      unfold Region.Disjoint MetadataBlock.region footprint at *
      simp only at *
      omega
    · exact h.arenas.mono (h.slot_within hi) h.linear_within
    · exact ((h.heap_metadata hj).within (h.slot_within hi)).symm
  · rcases hq with ⟨j, hj⟩ | hj | ⟨q, k, hj⟩
    · exact (h.arenas.mono (h.slot_within hj) h.linear_within).symm
    · exact absurd rfl hne
    · exact ((h.heap_linear hj).within h.linear_within).symm
  · rcases hq with ⟨j, hj⟩ | hj | ⟨q, k, hj⟩
    · exact (h.heap_metadata hi).within (h.slot_within hj)
    · exact (h.heap_linear hi).within h.linear_within
    · exact h.heap_apart p n q k hi hj hne

end Laid

/-- A block of `n` bytes at `p` has no byte in common with a listed block. -/
def Clear (a : WamrAllocator) (heap : Heap) (p n : Nat) : Prop :=
  ∀ q u k, Listed a heap q u k → (footprint p n).Disjoint (footprint q k)

theorem ne_of_disjoint (h : (footprint p n).Disjoint (footprint q k)) : p ≠ q :=
  h.start_ne (by unfold footprint; simp only; omega) (by unfold footprint; simp only; omega)

/-! ### One entry of the metadata table changes -/

section Entry

variable {slot : Fin 2} {offset size : Nat}

@[simp] theorem metadataBlocks_withBlock (a : WamrAllocator) (slot : Fin 2)
    (block : MetadataBlock) : (a.withBlock slot block).metadataBlocks slot = block :=
  Function.update_self ..

theorem metadataBlocks_withBlock_of_ne {i : Fin 2} (hne : i ≠ slot) (block : MetadataBlock) :
    (a.withBlock slot block).metadataBlocks i = a.metadataBlocks i :=
  Function.update_of_ne hne _ _

/-- An entry may take any offsets in the arena that no other entry in use has. -/
theorem Laid.withBlock (h : Laid a heap) (hInside : (⟨offset, size⟩ : MetadataBlock).Inside)
    (hApart : ∀ i, i ≠ slot → (a.metadataBlocks i).size ≠ 0 → size ≠ 0 →
      Region.Disjoint ⟨offset, size⟩ (a.metadataBlocks i).region) :
    Laid (a.withBlock slot ⟨offset, size⟩) heap :=
  { h with
    inside i := by
      by_cases hi : i = slot
      · subst hi
        rwa [metadataBlocks_withBlock]
      · rw [metadataBlocks_withBlock_of_ne hi]
        exact h.inside i
    slots i j hij hUsed hUsed' := by
      by_cases hi : i = slot
      · subst hi
        rw [metadataBlocks_withBlock] at hUsed ⊢
        rw [metadataBlocks_withBlock_of_ne hij.symm] at hUsed' ⊢
        exact hApart j hij.symm hUsed' hUsed
      · rw [metadataBlocks_withBlock_of_ne hi] at hUsed ⊢
        by_cases hj : j = slot
        · subst hj
          rw [metadataBlocks_withBlock] at hUsed' ⊢
          exact (hApart i hi hUsed hUsed').symm
        · rw [metadataBlocks_withBlock_of_ne hj] at hUsed' ⊢
          exact h.slots i j hij hUsed hUsed' }

/-- The other blocks stay as they are. -/
theorem Listed.withBlock {block : MetadataBlock} (hq : Listed a heap q u k)
    (hOther : (a.metadataBlocks slot).size ≠ 0 → q ≠ a.metadata + (a.metadataBlocks slot).offset) :
    Listed (a.withBlock slot block) heap q u k := by
  cases hq with
  | slot i hUsed =>
    have hi : i ≠ slot := by
      rintro rfl
      exact hOther hUsed rfl
    have hSame := metadataBlocks_withBlock_of_ne (a := a) hi block
    have hListed : Listed (a.withBlock slot block) heap _ _ _ := .slot i (by rwa [hSame])
    rwa [hSame] at hListed
  | linear hUsed => exact .linear hUsed
  | heap _ _ hLive => exact .heap _ _ hLive

end Entry

/-! ### The linear memory changes -/

theorem Laid.withLinear (h : Laid a heap) (hFits : n ≤ a.capacity) (inUse : Bool) :
    Laid { a with used := n, inUse := inUse } heap :=
  { h with used_le := hFits }

theorem Listed.withLinear {inUse : Bool} (hq : Listed a heap q u k) (hOther : q ≠ a.linearMemory) :
    Listed { a with used := n, inUse := inUse } heap q u k := by
  cases hq with
  | slot i hUsed =>
    exact Listed.slot (a := { a with used := n, inUse := inUse }) i hUsed
  | linear hUsed => exact absurd rfl hOther
  | heap _ _ hLive => exact .heap _ _ hLive

/-! ### The blocks of the library change -/

theorem update_none_eq_some {heap : Heap} (h : Function.update heap p none q = some k) :
    q ≠ p ∧ heap q = some k := by
  have hne : q ≠ p := by
    rintro rfl
    simp at h
  exact ⟨hne, by rwa [Function.update_of_ne hne] at h⟩

theorem update_some_eq_some {heap : Heap} (h : Function.update heap p (some n) q = some k) :
    q = p ∧ k = n ∨ q ≠ p ∧ heap q = some k := by
  by_cases hqp : q = p
  · subst hqp
    rw [Function.update_self] at h
    exact .inl ⟨rfl, (Option.some.inj h).symm⟩
  · rw [Function.update_of_ne hqp] at h
    exact .inr ⟨hqp, h⟩

theorem Laid.libraryFrees (h : Laid a heap) (p : Nat) : Laid a (Function.update heap p none) :=
  { h with
    heap_pos q k hq := h.heap_pos q k (update_none_eq_some hq).2
    heap_arenas q k hq := h.heap_arenas q k (update_none_eq_some hq).2
    heap_apart q k q' k' hq hq' :=
      h.heap_apart q k q' k' (update_none_eq_some hq).2 (update_none_eq_some hq').2 }

theorem Laid.libraryPlaces (h : Laid a heap) (hPlaced : Placed a.arenas heap p n) :
    Laid a (Function.update heap p (some n)) :=
  { h with
    heap_pos q k hq := by
      rcases update_some_eq_some hq with ⟨rfl, rfl⟩ | ⟨-, hOld⟩
      · exact hPlaced.1
      · exact h.heap_pos q k hOld
    heap_arenas q k hq := by
      rcases update_some_eq_some hq with ⟨rfl, rfl⟩ | ⟨-, hOld⟩
      · exact hPlaced.2.1
      · exact h.heap_arenas q k hOld
    heap_apart q k q' k' hq hq' hne := by
      rcases update_some_eq_some hq with ⟨rfl, rfl⟩ | ⟨-, hOld⟩
      · rcases update_some_eq_some hq' with ⟨rfl, -⟩ | ⟨-, hOld'⟩
        · exact absurd rfl hne
        · exact hPlaced.2.2 q' k' hOld'
      · rcases update_some_eq_some hq' with ⟨rfl, rfl⟩ | ⟨-, hOld'⟩
        · exact (hPlaced.2.2 q k hOld).symm
        · exact h.heap_apart q k q' k' hOld hOld' hne }

theorem Listed.library {x : Option Nat} (hq : Listed a heap q u k) (hOther : q ≠ p) :
    Listed a (Function.update heap p x) q u k := by
  cases hq with
  | slot i hUsed => exact .slot i hUsed
  | linear hUsed => exact .linear hUsed
  | heap _ _ hLive => exact .heap _ _ (by rwa [Function.update_of_ne hOther])

theorem Laid.clear_of_placed (h : Laid a heap) (hPlaced : Placed a.arenas heap p n) :
    Clear a heap p n := by
  intro q u k hq
  have hArenas := hPlaced.2.1
  simp only [WamrAllocator.arenas, List.mem_cons, List.not_mem_nil, or_false, forall_eq_or_imp,
    forall_eq] at hArenas
  cases hq with
  | slot i hUsed => exact hArenas.1.within (h.slot_within hUsed)
  | linear hUsed => exact hArenas.2.within h.linear_within
  | heap _ _ hLive => exact hPlaced.2.2 _ _ hLive

/-! ### What a call does -/

/-- Whether `size` bytes at `offset` are free for the entry `slot`. -/
structure FreeFor (a : WamrAllocator) (slot : Fin 2) (offset size : Nat) : Prop where
  inside : (⟨offset, size⟩ : MetadataBlock).Inside
  apart : ∀ i, i ≠ slot → (a.metadataBlocks i).size ≠ 0 → size ≠ 0 →
    Region.Disjoint ⟨offset, size⟩ (a.metadataBlocks i).region

theorem metadataMalloc_cases (h : Laid a heap) (n : Nat) :
    metadataMalloc a n = (0, a) ∨
      ∃ slot offset, (a.metadataBlocks slot).size = 0 ∧ n ≠ 0 ∧ FreeFor a slot offset n ∧
        metadataMalloc a n = (a.metadata + offset, a.withBlock slot ⟨offset, n⟩) := by
  by_cases hSize : 1 ≤ n ∧ n ≤ metadataBytes
  · have hEnd := metadataMalloc_end h.inside hSize.1 hSize.2
    generalize metadataMalloc a n = outcome at hEnd
    cases hEnd with
    | inUse hUsed => exact .inl rfl
    | full hNone => exact .inl rfl
    | fits slot offset hEmpty hFree hLeast =>
      exact .inr ⟨slot, offset, hEmpty, Nat.ne_of_gt hSize.1,
        ⟨⟨hFree.aligned, hFree.room⟩, fun i _ hUsed _ => hFree.apart i hUsed⟩, rfl⟩
  · exact .inl (metadataMalloc_size hSize)

/-- The ends of `wamrMalloc`. -/
inductive MallocEnd (a : WamrAllocator) (m : Memory) (n : Nat) : Usage → Finish → Prop
  | refused (t : Usage) : MallocEnd a m n t (.returns 0 a m)
  | slot (slot : Fin 2) (offset : Nat) (hEmpty : (a.metadataBlocks slot).size = 0) (hSize : n ≠ 0)
    (hFree : FreeFor a slot offset n) :
    MallocEnd a m n .runtime (.returns (a.metadata + offset) (a.withBlock slot ⟨offset, n⟩) m)
  | linear (hUnused : a.inUse = false) (hFits : n ≤ a.capacity) :
    MallocEnd a m n .linearMemory (.returns a.linearMemory { a with used := n, inUse := true }
      (m.store a.linearMemory (List.replicate n 0)))
  | library : MallocEnd a m n .runtime (.malloc n)

theorem wamrMalloc_end (h : Laid a heap) (t : Usage) (n : Nat) (m : Memory) :
    MallocEnd a m n t (wamrMalloc t n a m) := by
  unfold wamrMalloc
  cases t with
  | runtime =>
    rw [if_pos (by decide)]
    split
    · rcases metadataMalloc_cases h n with hNone | ⟨slot, offset, hEmpty, hSize, hFree, hSome⟩
      · rw [hNone]
        exact .refused _
      · rw [hSome]
        exact .slot slot offset hEmpty hSize hFree
    · exact .library
  | linearMemory =>
    rw [if_neg (by decide)]
    split
    · exact .refused _
    · next hOpen =>
      simp only [not_or, Bool.not_eq_true, Nat.not_lt] at hOpen
      exact .linear hOpen.1 hOpen.2

theorem metadataSlot_eq_some {slot : Fin 2} (h : metadataSlot a p = some slot) :
    (a.metadataBlocks slot).size ≠ 0 ∧ p = a.metadata + (a.metadataBlocks slot).offset := by
  simpa [metadataSlot] using List.find?_some h

theorem metadataSlot_eq_none (h : metadataSlot a p = none) (i : Fin 2)
    (hUsed : (a.metadataBlocks i).size ≠ 0) : p ≠ a.metadata + (a.metadataBlocks i).offset := by
  have hNot := List.find?_eq_none.mp h i (List.mem_finRange i)
  simp only [decide_eq_true_eq, not_and] at hNot
  exact hNot hUsed

/-- The ends of `wamrRealloc` on a block of `k` bytes that is given out. -/
inductive ReallocEnd (a : WamrAllocator) (heap : Heap) (m : Memory) (p k n : Nat) :
    Usage → Finish → Prop
  | refused (t : Usage) (hSize : n ≠ 0) : ReallocEnd a heap m p k n t (.returns 0 a m)
  | slot (slot : Fin 2) (hUsed : (a.metadataBlocks slot).size ≠ 0)
    (hAt : p = a.metadata + (a.metadataBlocks slot).offset)
    (hFree : FreeFor a slot (a.metadataBlocks slot).offset n) :
    ReallocEnd a heap m p k n .runtime (.returns (if n ≠ 0 then p else 0)
      (a.withBlock slot ⟨(a.metadataBlocks slot).offset, n⟩) m)
  | linear (hAt : p = a.linearMemory) (hUsed : a.inUse) (hOld : k = a.used) (hFits : n ≤ a.capacity) :
    ReallocEnd a heap m p k n .linearMemory (.returns p { a with used := n }
      (if n > a.used then m.store (a.linearMemory + a.used) (List.replicate (n - a.used) 0) else m))
  | library (hSlot : metadataSlot a p = none) (hLive : heap p = some k) :
    ReallocEnd a heap m p k n .runtime (.realloc p n)

theorem wamrRealloc_end (h : Laid a heap) (hp : Listed a heap p t k) (n : Nat) (m : Memory) :
    ReallocEnd a heap m p k n t (wamrRealloc t p n a m) := by
  have hPos := h.pos hp
  unfold wamrRealloc
  cases t with
  | runtime =>
    rw [if_pos (by decide)]
    split
    · next slot hSlot =>
      obtain ⟨hUsed, hAt⟩ := metadataSlot_eq_some hSlot
      have hInside := h.inside slot
      have hOffset : (a.metadataBlocks slot).offset ≤ metadataBytes :=
        Nat.le_trans (Nat.le_add_right _ _) hInside.room
      dsimp only
      rw [metadataRoom_of_le hOffset]
      split
      · exact .refused _ (by omega)
      next hRoom =>
      have hFits : (a.metadataBlocks slot).offset + n ≤ metadataBytes := by omega
      split
      · next hAny =>
        obtain ⟨i, -, hi⟩ := List.any_eq_true.mp hAny
        simp only [decide_eq_true_eq] at hi
        obtain ⟨hi, hOverlap⟩ := hi
        rw [(h.inside i).overlaps_iff hFits] at hOverlap
        have hApart := h.slots i slot hi hOverlap.1 hUsed
        refine .refused _ fun hSize => hOverlap.2 ?_
        unfold Region.Disjoint MetadataBlock.region at *
        simp only at *
        omega
      · next hNone =>
        refine .slot slot hUsed hAt ⟨⟨hInside.aligned, hFits⟩, fun i hi hUsed' _ => ?_⟩
        have hNot : (a.metadataBlocks i).overlaps (a.metadataBlocks slot).offset n ≠ true := by
          intro hOverlap
          exact hNone (List.any_eq_true.mpr ⟨i, List.mem_finRange i, by simp [hi, hOverlap]⟩)
        rw [Ne, (h.inside i).overlaps_iff hFits] at hNot
        exact not_not.mp fun hMeet => hNot ⟨hUsed', hMeet⟩
    · next hSlot =>
      rw [if_neg hPos]
      split
      · exact .refused _ (by omega)
      · cases hp with
        | slot i hUsed => exact absurd rfl (metadataSlot_eq_none hSlot i hUsed)
        | heap _ _ hLive => exact .library hSlot hLive
  | linearMemory =>
    cases hp with
    | linear hUsed =>
      rw [if_neg (by decide)]
      split
      · next hTooLarge => exact .refused _ (by simp at hTooLarge; omega)
      · next hFits =>
        simp only [ne_eq, not_true_eq_false, false_or, Nat.not_lt] at hFits
        exact .linear rfl hUsed rfl hFits

/-- The ends of `wamrFree`. -/
inductive FreeEnd (a : WamrAllocator) (m : Memory) (p : Nat) : Finish → Prop
  | slot (slot : Fin 2) (hUsed : (a.metadataBlocks slot).size ≠ 0)
    (hAt : p = a.metadata + (a.metadataBlocks slot).offset) :
    FreeEnd a m p (.returns 0 (a.withBlock slot ⟨(a.metadataBlocks slot).offset, 0⟩) m)
  | linear (hAt : p = a.linearMemory) :
    FreeEnd a m p (.returns 0 { a with used := 0, inUse := false } m)
  | library : FreeEnd a m p (.free p)

theorem wamrFree_end (a : WamrAllocator) (m : Memory) (p : Nat) :
    FreeEnd a m p (wamrFree p a m) := by
  unfold wamrFree
  split
  · next slot hSlot =>
    obtain ⟨hUsed, hAt⟩ := metadataSlot_eq_some hSlot
    exact .slot slot hUsed hAt
  · split
    · next hAt => exact .linear hAt
    · exact .library

/-! ### What a call keeps away from -/

theorem Laid.withFree (h : Laid a heap) {slot : Fin 2} {offset : Nat}
    (hFree : FreeFor a slot offset n) : Laid (a.withBlock slot ⟨offset, n⟩) heap :=
  h.withBlock hFree.inside hFree.apart

theorem Laid.slot_disjoint (h : Laid a heap) {slot : Fin 2} {offset : Nat}
    (hFree : FreeFor a slot offset n) (hSize : n ≠ 0) (hq : Listed a heap q u k)
    (hOther : (a.metadataBlocks slot).size ≠ 0 → q ≠ a.metadata + (a.metadataBlocks slot).offset) :
    (footprint (a.metadata + offset) n).Disjoint (footprint q k) := by
  have hWithin : (footprint (a.metadata + offset) n).Within ⟨a.metadata, metadataBytes⟩ := by
    have hRoom := hFree.inside.room
    unfold Region.Within footprint
    simp only at *
    omega
  cases hq with
  | slot i hUsed =>
    have hi : i ≠ slot := by
      rintro rfl
      exact hOther hUsed rfl
    have hApart := hFree.apart i hi hUsed hSize
    unfold Region.Disjoint MetadataBlock.region footprint at *
    simp only at *
    omega
  | linear hUsed => exact h.arenas.mono hWithin h.linear_within
  | heap _ _ hLive => exact ((h.heap_metadata hLive).within hWithin).symm

theorem Laid.linear_disjoint (h : Laid a heap) (hq : Listed a heap q u k)
    (hOther : u ≠ .linearMemory) :
    Region.Disjoint ⟨a.linearMemory, a.capacity⟩ (footprint q k) := by
  cases hq with
  | slot i hUsed => exact h.arenas.symm.within (h.slot_within hUsed)
  | linear hUsed => exact absurd rfl hOther
  | heap _ _ hLive => exact (h.heap_linear hLive).symm

theorem Listed.linear_at (hq : Listed a heap q .linearMemory k) :
    q = a.linearMemory ∧ a.inUse := by
  cases hq with
  | linear hUsed => exact ⟨rfl, hUsed⟩

/-- A store into the linear memory reaches no other block. -/
theorem Laid.agreeOn_linear (h : Laid a heap) (hq : Listed a heap q u k)
    (hOther : u ≠ .linearMemory) (offset : Nat) {bytes : List UInt8}
    (hFits : offset + bytes.length ≤ a.capacity) :
    Memory.AgreeOn ⟨q, k⟩ m (m.store (a.linearMemory + offset) bytes) := by
  refine Memory.agreeOn_store m ((h.linear_disjoint hq hOther).symm.mono (footprint_within q k) ?_)
  unfold Region.Within
  simp only
  omega

theorem Laid.agreeOn_library (h : Laid a heap) (hUntouched : Untouched a.arenas heap p m m')
    (hq : Listed a heap q u k) (hOther : q ≠ p) : Memory.AgreeOn ⟨q, k⟩ m m' := by
  obtain ⟨hArenas, hHeap⟩ := hUntouched
  simp only [WamrAllocator.arenas, List.mem_cons, List.not_mem_nil, or_false, forall_eq_or_imp,
    forall_eq] at hArenas
  cases hq with
  | slot i hUsed =>
    exact hArenas.1.within ((footprint_within _ _).trans (h.slot_within hUsed))
  | linear hUsed => exact hArenas.2.within ((footprint_within _ _).trans h.linear_within)
  | heap _ _ hLive => exact hHeap _ _ hOther hLive

/-! ### The client's ledger -/

/-- The client's live blocks are listed, and hold what their owners wrote. -/
structure Consistent (s : AllocatorState) : Prop where
  laid : Laid s.allocator s.heap
  listed : ∀ p b, s.live p = some b → Listed s.allocator s.heap p b.tag b.bytes.length
  sound : s.live.Sound s.memory

/-- A step from `s` to `s'` that is about the live block at `subject` keeps the ledger, and every
other live block. -/
structure Keeps (s s' : AllocatorState) (subject : Option Nat) : Prop where
  consistent : Consistent s'
  others : ∀ q b, s.live q = some b → subject ≠ some q → s'.live q = some b

namespace Consistent

variable {s : AllocatorState}

theorem refl (h : Consistent s) (subject : Option Nat) : Keeps s s subject := ⟨h, fun _ _ hq _ => hq⟩

/-- A call gives out a block that was clear. -/
theorem allocated (h : Consistent s) (hLaid : Laid a heap) (hNew : Listed a heap p t n)
    (hClear : Clear s.allocator s.heap p n)
    (hKept : ∀ q u k, Listed s.allocator s.heap q u k → Listed a heap q u k)
    (hAgree : ∀ q u k, Listed s.allocator s.heap q u k → Memory.AgreeOn ⟨q, k⟩ s.memory m) :
    Keeps s ⟨a, m, heap, s.live.allocated m p n t⟩ none where
  consistent := {
    laid := hLaid
    listed q b hq := by
      rcases Ledger.allocated_eq_some hq with ⟨rfl, rfl⟩ | ⟨-, hLive⟩
      · rwa [Block.length_fresh]
      · exact hKept q _ _ (h.listed q b hLive)
    sound := h.sound.allocated (fun q b hq => hAgree q _ _ (h.listed q b hq)) fun q b hq =>
      (hClear q _ _ (h.listed q b hq)).mono (footprint_within _ _) (footprint_within _ _) }
  others := by
    apply Ledger.keeps_allocated
    cases hp : s.live p with
    | none => rfl
    | some b => exact absurd rfl (ne_of_disjoint (hClear p _ _ (h.listed p b hp)))

/-- A call takes the block at `p` back. -/
theorem freed (h : Consistent s) (hLaid : Laid a heap)
    (hKept : ∀ q u k, q ≠ p → Listed s.allocator s.heap q u k → Listed a heap q u k)
    (hAgree : ∀ q u k, q ≠ p → Listed s.allocator s.heap q u k →
      Memory.AgreeOn ⟨q, k⟩ s.memory m) :
    Keeps s ⟨a, m, heap, s.live.freed p⟩ (some p) where
  consistent := {
    laid := hLaid
    listed q b hq := by
      obtain ⟨hne, hLive⟩ := Ledger.freed_eq_some hq
      exact hKept q _ _ hne (h.listed q b hLive)
    sound := h.sound.freed fun q b hne hq => hAgree q _ _ hne (h.listed q b hq) }
  others := Ledger.keeps_freed s.live p

/-- A call turns the block at `p` into one of `n` bytes at `q`. -/
theorem reallocated (h : Consistent s) {b : Block Usage} (hp : s.live p = some b)
    (hLaid : Laid a heap) (hNew : Listed a heap q b.tag n)
    (hKept : ∀ q u k, q ≠ p → Listed s.allocator s.heap q u k → Listed a heap q u k)
    (hClear : ∀ q' u k, q' ≠ p → Listed s.allocator s.heap q' u k →
      (footprint q n).Disjoint (footprint q' k))
    (hAgree : ∀ q u k, q ≠ p → Listed s.allocator s.heap q u k →
      Memory.AgreeOn ⟨q, k⟩ s.memory m)
    (hBytes : m.load q (min n b.bytes.length) = s.memory.load p (min n b.bytes.length)) :
    Keeps s ⟨a, m, heap, s.live.reallocated b m p q n⟩ (some p) where
  consistent := {
    laid := hLaid
    listed q' b' hq' := by
      rcases Ledger.reallocated_eq_some hq' with ⟨rfl, rfl⟩ | ⟨-, hne, hLive⟩
      · rwa [Block.length_resized, Block.tag_resized]
      · exact hKept q' _ _ hne (h.listed q' b' hLive)
    sound := by
      refine h.sound.reallocated hp (fun q' b' hne hq' => hAgree q' _ _ hne (h.listed q' b' hq'))
        (fun q' b' hne hq' => ?_) hBytes
      have hApart := hClear q' _ _ hne (h.listed q' b' hq')
      exact hApart.mono (footprint_within _ _) (footprint_within _ _) }
  others := by
    apply Ledger.keeps_reallocated
    intro b' hb'
    by_contra hne
    exact ne_of_disjoint (hClear q _ _ hne (h.listed q b' hb')) rfl

/-- The owner of the block at `p` stores bytes in it. -/
theorem wrote (h : Consistent s) {b : Block Usage} (hp : s.live p = some b) {offset : Nat}
    {bytes : List UInt8} (hFits : offset + bytes.length ≤ b.bytes.length) :
    Keeps s { s with
      memory := s.memory.store (p + offset) bytes
      live := s.live.wrote b p offset bytes } (some p) where
  consistent := {
    laid := h.laid
    listed q b' hq := by
      rcases Ledger.wrote_eq_some hq with ⟨rfl, rfl⟩ | ⟨-, hLive⟩
      · rw [Block.length_written hFits]
        exact h.listed q b hp
      · exact h.listed q b' hLive
    sound := h.sound.wrote hp hFits }
  others := Ledger.keeps_wrote

end Consistent

/-! ### The calls, one by one -/

/-- The live block that a call is about. -/
def AllocatorCall.subject : AllocatorCall → Option Nat
  | .malloc _ _ _ => none
  | .realloc _ pointer _ _ => some pointer
  | .free pointer => some pointer
  | .write pointer _ _ => some pointer

theorem Listed.atSlot {slot : Fin 2} {offset : Nat} (hSize : n ≠ 0) :
    Listed (a.withBlock slot ⟨offset, n⟩) heap (a.metadata + offset) .runtime n := by
  have hBlock := metadataBlocks_withBlock a slot ⟨offset, n⟩
  have hListed : Listed (a.withBlock slot ⟨offset, n⟩) heap _ _ _ :=
    .slot slot (by rwa [hBlock])
  rwa [hBlock] at hListed

namespace Consistent

variable {s : AllocatorState}

theorem malloc (h : Consistent s) (t : Usage) (n : Nat)
    (hFinish : Finishes s.allocator.arenas s.heap s.allocator s.memory
      (wamrMalloc t n s.allocator s.memory) p a m heap) :
    Keeps s ⟨a, m, heap, if p = 0 then s.live else s.live.allocated m p n t⟩ none := by
  have hEnd := wamrMalloc_end h.laid t n s.memory
  generalize wamrMalloc t n s.allocator s.memory = finish at hFinish hEnd
  cases hEnd with
  | refused =>
    cases hFinish
    exact h.refl _
  | slot slot offset hEmpty hSize hFree =>
    cases hFinish
    have hPos := h.laid.metadata_pos
    rw [if_neg (by omega)]
    have hOther : ∀ q, (s.allocator.metadataBlocks slot).size ≠ 0 →
        q ≠ s.allocator.metadata + (s.allocator.metadataBlocks slot).offset :=
      fun q hUsed => absurd hEmpty hUsed
    exact h.allocated (h.laid.withFree hFree) (.atSlot hSize)
      (fun q u k hq => h.laid.slot_disjoint hFree hSize hq (hOther q))
      (fun q u k hq => hq.withBlock (hOther q)) (fun q u k _ => .refl _ _)
  | linear hUnused hFits =>
    cases hFinish
    have hPos := h.laid.linear_pos
    rw [if_neg (by omega)]
    have hOther : ∀ q u k, Listed s.allocator s.heap q u k → u ≠ .linearMemory := by
      rintro q u k hq rfl
      have hUsed := hq.linear_at.2
      rw [hUnused] at hUsed
      cases hUsed
    refine h.allocated (h.laid.withLinear hFits true) (.linear rfl) (fun q u k hq => ?_)
      (fun q u k hq => ?_) fun q u k hq => ?_
    · have hWithin := (h.laid.withLinear hFits true).linear_within
      exact (h.laid.linear_disjoint hq (hOther q u k hq)).symm.within hWithin |>.symm
    · have hApart := h.laid.linear_disjoint hq (hOther q u k hq)
      refine hq.withLinear fun hAt => ?_
      have hCapacity := h.laid.capacity_pos
      refine hApart.start_ne hCapacity ?_ hAt.symm
      unfold footprint
      simp only
      omega
    · exact h.laid.agreeOn_linear hq (hOther q u k hq) 0 (by simpa using hFits)
  | library =>
    cases hFinish with
    | mallocFails =>
      exact h.refl _
    | malloc _ p m' hPlaced hUntouched =>
      rw [if_neg hPlaced.1]
      have hClear := h.laid.clear_of_placed hPlaced
      have hOther : ∀ q u k, Listed s.allocator s.heap q u k → q ≠ p :=
        fun q u k hq => (ne_of_disjoint (hClear q u k hq)).symm
      exact h.allocated (h.laid.libraryPlaces hPlaced) (.heap p n (Function.update_self ..)) hClear
        (fun q u k hq => hq.library (hOther q u k hq))
        (fun q u k hq => h.laid.agreeOn_library hUntouched hq (hOther q u k hq))

theorem realloc (h : Consistent s) {b : Block Usage} (hp : s.live p = some b) (n : Nat)
    (hFinish : Finishes s.allocator.arenas s.heap s.allocator s.memory
      (wamrRealloc b.tag p n s.allocator s.memory) q a m heap) :
    Keeps s ⟨a, m, heap,
      if q ≠ 0 then s.live.reallocated b m p q n
      else if n = 0 then s.live.freed p else s.live⟩ (some p) := by
  have hListed := h.listed p b hp
  have hPos := h.laid.pos hListed
  have hEnd := wamrRealloc_end h.laid hListed n s.memory
  generalize wamrRealloc b.tag p n s.allocator s.memory = finish at hFinish hEnd
  generalize hTag : b.tag = t at hEnd
  cases hEnd with
  | refused _ hSize =>
    cases hFinish
    rw [if_neg (by simp), if_neg hSize]
    exact h.refl _
  | slot slot hUsed hAt hFree =>
    cases hFinish
    have hKept : ∀ q u k, q ≠ p → Listed s.allocator s.heap q u k →
        Listed (s.allocator.withBlock slot ⟨(s.allocator.metadataBlocks slot).offset, n⟩) s.heap
          q u k := fun q u k hne hq => hq.withBlock fun _ => hAt ▸ hne
    by_cases hSize : n = 0
    · rw [if_neg (not_not.mpr hSize), if_neg (by simp), if_pos hSize]
      exact h.freed (h.laid.withFree hFree) hKept fun q u k _ _ => .refl _ _
    · rw [if_pos hSize, if_pos hPos]
      refine h.reallocated hp (h.laid.withFree hFree) ?_ hKept (fun q u k hne hq => ?_)
        (fun q u k _ _ => .refl _ _) rfl
      · rw [hTag, hAt]
        exact .atSlot hSize
      · rw [hAt]
        exact h.laid.slot_disjoint hFree hSize hq fun _ => hAt ▸ hne
  | linear hAt hUsed hOld hFits =>
    cases hFinish
    rw [if_pos hPos]
    have hOther : ∀ q u k, q ≠ p → Listed s.allocator s.heap q u k → u ≠ .linearMemory := by
      rintro q u k hne hq rfl
      exact hne (hq.linear_at.1.trans hAt.symm)
    have hLaid := h.laid.withLinear hFits s.allocator.inUse
    refine h.reallocated hp hLaid ?_ (fun q u k hne hq => ?_) (fun q u k hne hq => ?_)
      (fun q u k hne hq => ?_) ?_
    · rw [hTag, hAt]
      exact .linear hUsed
    · exact hq.withLinear (hAt ▸ hne)
    · rw [hAt]
      exact ((h.laid.linear_disjoint hq (hOther q u k hne hq)).symm.within hLaid.linear_within).symm
    · split
      · refine h.laid.agreeOn_linear hq (hOther q u k hne hq) _ ?_
        rw [List.length_replicate]
        omega
      · exact .refl _ _
    · split
      · refine Memory.load_of_agreeOn (Memory.agreeOn_store _ (.inl ?_))
        simp only
        omega
      · rfl
  | library hSlot hLive =>
    cases hFinish with
    | reallocFails _ _ hSize =>
      rw [if_neg (by simp), if_neg hSize]
      exact h.refl _
    | reallocFrees _ m' hUntouched =>
      rw [if_neg (by simp), if_pos rfl]
      exact h.freed (h.laid.libraryFrees p) (fun q u k hne hq => hq.library hne)
        fun q u k hne hq => h.laid.agreeOn_library hUntouched hq hne
    | realloc _ _ q k' m' hOld hPlaced hUntouched hKept =>
      rw [if_pos hPlaced.1]
      have hLaid := h.laid.libraryFrees p
      have hClear := hLaid.clear_of_placed hPlaced
      refine h.reallocated hp (hLaid.libraryPlaces hPlaced) ?_ (fun q' u k hne hq => ?_)
        (fun q' u k hne hq => hClear q' u k (hq.library hne))
        (fun q' u k hne hq => h.laid.agreeOn_library hUntouched hq hne) ?_
      · rw [hTag]
        exact .heap _ _ (Function.update_self ..)
      · exact (hq.library hne).library (ne_of_disjoint (hClear q' u k (hq.library hne))).symm
      · rw [hLive] at hOld
        cases hOld
        exact hKept

theorem free (h : Consistent s) (p : Nat)
    (hFinish : Finishes s.allocator.arenas s.heap s.allocator s.memory
      (wamrFree p s.allocator s.memory) q a m heap) :
    Keeps s ⟨a, m, heap, s.live.freed p⟩ (some p) := by
  have hEnd := wamrFree_end s.allocator s.memory p
  generalize wamrFree p s.allocator s.memory = finish at hFinish hEnd
  cases hEnd with
  | slot slot hUsed hAt =>
    cases hFinish
    have hInside := h.laid.inside slot
    have hRoom := hInside.room
    refine h.freed (h.laid.withBlock ⟨hInside.aligned, ?_⟩ fun _ _ _ hSize => absurd rfl hSize)
      (fun q u k hne hq => hq.withBlock fun _ => hAt ▸ hne) fun q u k _ _ => .refl _ _
    simp only
    omega
  | linear hAt =>
    cases hFinish
    exact h.freed (h.laid.withLinear (Nat.zero_le _) false)
      (fun q u k hne hq => hq.withLinear (hAt ▸ hne)) fun q u k _ _ => .refl _ _
  | library =>
    cases hFinish with
    | free _ m' hUntouched =>
      exact h.freed (h.laid.libraryFrees p) (fun q u k hne hq => hq.library hne)
        fun q u k hne hq => h.laid.agreeOn_library hUntouched hq hne

theorem start (h : FreshAllocator s) : Consistent s where
  laid := {
    inside i := by
      rw [h.blocks i]
      exact ⟨rfl, Nat.zero_le _⟩
    slots i _ _ hi _ := by
      rw [h.blocks i] at hi
      exact absurd rfl hi
    used_le := by
      rw [h.used]
      exact Nat.zero_le _
    metadata_pos := h.metadata_pos
    metadata_aligned := h.metadata_aligned
    linear_pos := h.linear_pos
    capacity_pos := h.capacity_pos
    arenas := h.apart
    heap_pos p n hp := by simp [h.heap p] at hp
    heap_arenas p n hp := by simp [h.heap p] at hp
    heap_apart p n q k hp := by simp [h.heap p] at hp }
  listed p b hp := by simp [h.live p] at hp
  sound := by
    have hNone : s.live = fun _ => none := funext h.live
    rw [hNone]
    exact .empty _

theorem step {e : AllocatorCall} {s' : AllocatorState} (h : Consistent s)
    (hStep : AllocatorStep s e s') : Keeps s s' e.subject := by
  cases hStep with
  | malloc usage size p a m heap hFinish => exact h.malloc usage size.toNat hFinish
  | realloc p b size q a m heap hLive hFinish => exact h.realloc hLive size.toNat hFinish
  | free p b q a m heap hLive hFinish => exact h.free p hFinish
  | write p offset b bytes hLive hFits => exact h.wrote hLive hFits

theorem reachable (h : allocatorSystem.Reachable s) : Consistent s :=
  h.invariant (fun _ => start) fun _ _ _ h hStep => (h.step hStep).consistent

end Consistent

/-! ### What the client can rely on -/

/-- The call returned NULL for a size other than 0. -/
inductive AllocatorCall.Refused : AllocatorCall → Prop
  | malloc (usage : Usage) (size : UInt32) (hSize : size ≠ 0) : Refused (.malloc usage size 0)
  | realloc (usage : Usage) (pointer : Nat) (size : UInt32) (hSize : size ≠ 0) :
    Refused (.realloc usage pointer size 0)

/-- The call gives a block back. -/
inductive AllocatorCall.Releases : AllocatorCall → Nat → Prop
  | free (pointer : Nat) : Releases (.free pointer) pointer
  | realloc (usage : Usage) (pointer p : Nat) : Releases (.realloc usage pointer 0 p) pointer

section Calls

variable {s s' : AllocatorState} {e : AllocatorCall}

theorem toNat_ne_zero {size : UInt32} (h : size ≠ 0) : size.toNat ≠ 0 := by
  intro hZero
  exact h (UInt32.toNat.inj hZero)

/-- A refused call changes nothing. -/
theorem Consistent.refused (h : Consistent s) (hStep : AllocatorStep s e s')
    (hRefused : e.Refused) : s' = s := by
  cases hRefused with
  | malloc usage size hSize =>
    cases hStep with
    | malloc _ _ _ a m heap hFinish =>
    have hEnd := wamrMalloc_end h.laid usage size.toNat s.memory
    generalize wamrMalloc usage size.toNat s.allocator s.memory = finish at hFinish hEnd
    have hMetadata := h.laid.metadata_pos
    have hLinear := h.laid.linear_pos
    cases hEnd with
    | refused =>
      cases hFinish
      rfl
    | slot slot offset =>
      generalize hp : s.allocator.metadata + offset = p at hFinish
      cases hFinish
      omega
    | linear =>
      generalize hp : s.allocator.linearMemory = p at hFinish
      cases hFinish
      omega
    | library =>
      generalize hp : 0 = p at hFinish
      cases hFinish with
      | mallocFails => rfl
      | malloc _ _ _ hPlaced => exact absurd hp.symm hPlaced.1
  | realloc usage pointer size hSize =>
    cases hStep with
    | realloc _ b _ _ a m heap hLive hFinish =>
    have hListed := h.listed pointer b hLive
    have hPos := h.laid.pos hListed
    have hEnd := wamrRealloc_end h.laid hListed size.toNat s.memory
    generalize wamrRealloc b.tag pointer size.toNat s.allocator s.memory = finish at hFinish hEnd
    generalize b.tag = t at hEnd
    rw [if_neg (by simp), if_neg (toNat_ne_zero hSize)]
    have hNonzero := toNat_ne_zero hSize
    generalize size.toNat = n at *
    cases hEnd with
    | refused =>
      cases hFinish
      rfl
    | slot slot hUsed hAt hFree =>
      rw [if_pos hNonzero] at hFinish
      generalize pointer = p at hFinish hPos
      cases hFinish
      exact absurd rfl hPos
    | linear =>
      generalize pointer = p at hFinish hPos
      cases hFinish
      exact absurd rfl hPos
    | library =>
      generalize hp : 0 = p at hFinish
      cases hFinish with
      | reallocFails => rfl
      | reallocFrees => exact absurd rfl hNonzero
      | realloc _ _ _ _ _ _ hPlaced => exact absurd hp.symm hPlaced.1

theorem Laid.metadataSlot_at {a : WamrAllocator} {heap : Heap} (h : Laid a heap) {slot : Fin 2}
    (hUsed : (a.metadataBlocks slot).size ≠ 0) :
    metadataSlot a (a.metadata + (a.metadataBlocks slot).offset) = some slot := by
  cases hFound : metadataSlot a (a.metadata + (a.metadataBlocks slot).offset) with
  | none => exact absurd rfl (metadataSlot_eq_none hFound slot hUsed)
  | some i =>
    obtain ⟨hUsed', hAt⟩ := metadataSlot_eq_some hFound
    by_contra hne
    have hApart := h.slots i slot (fun hi => hne (by rw [hi])) hUsed' hUsed
    exact hApart.start_ne (Nat.pos_of_ne_zero hUsed') (Nat.pos_of_ne_zero hUsed)
      (by unfold MetadataBlock.region; simp only; omega)

/-- Giving a metadata block back empties its entry and does nothing else. -/
theorem Consistent.released (h : Consistent s) (hStep : AllocatorStep s e s') {slot : Fin 2}
    (hUsed : (s.allocator.metadataBlocks slot).size ≠ 0)
    (hReleases : e.Releases (s.allocator.metadata + (s.allocator.metadataBlocks slot).offset)) :
    s' = ⟨s.allocator.withBlock slot ⟨(s.allocator.metadataBlocks slot).offset, 0⟩, s.memory,
      s.heap, s.live.freed (s.allocator.metadata + (s.allocator.metadataBlocks slot).offset)⟩ := by
  have hSlot := h.laid.metadataSlot_at hUsed
  generalize hAt : s.allocator.metadata + (s.allocator.metadataBlocks slot).offset = pointer at *
  cases hReleases with
  | free =>
    cases hStep with
    | free _ b p a m heap hLive hFinish =>
    simp only [wamrFree, hSlot] at hFinish
    cases hFinish
    rfl
  | realloc usage _ p =>
    cases hStep with
    | realloc _ b _ _ a m heap hLive hFinish =>
    have hListed := h.listed pointer b hLive
    have hEnd := wamrRealloc_end h.laid hListed 0 s.memory
    rw [show (0 : UInt32).toNat = 0 from rfl] at *
    generalize wamrRealloc b.tag pointer 0 s.allocator s.memory = finish at hFinish hEnd
    generalize b.tag = t at hEnd
    cases hEnd with
    | refused _ hSize => exact absurd rfl hSize
    | slot slot' hUsed' hAt' hFree =>
      have hSame : slot' = slot := by
        rw [hAt', h.laid.metadataSlot_at hUsed'] at hSlot
        exact Option.some.inj hSlot
      subst hSame
      cases hFinish
      rfl
    | linear hAt' =>
      have hRoom := (h.laid.inside slot).room
      have hArenas := h.laid.arenas
      have hCapacity := h.laid.capacity_pos
      unfold Region.Disjoint at hArenas
      simp only at hArenas
      omega
    | library hNone =>
      rw [hSlot] at hNone
      cases hNone

end Calls

/-- In every run the allocator's metadata blocks are apart, aligned and inside their arena, live
blocks hold what their owners wrote, a refused call changes nothing, and giving a metadata block back
empties its entry alone. -/
theorem allocator_keeps_blocks {s : AllocatorState} (h : allocatorSystem.Reachable s) :
    (∀ i, (s.allocator.metadataBlocks i).size ≠ 0 →
      (s.allocator.metadata + (s.allocator.metadataBlocks i).offset) % 8 = 0 ∧
        (s.allocator.metadataBlocks i).offset + (s.allocator.metadataBlocks i).size ≤
          metadataBytes) ∧
    (∀ i j, i ≠ j → (s.allocator.metadataBlocks i).size ≠ 0 →
      (s.allocator.metadataBlocks j).size ≠ 0 →
      (s.allocator.metadataBlocks i).region.Disjoint (s.allocator.metadataBlocks j).region) ∧
    s.live.Sound s.memory ∧
    ∀ e s', AllocatorStep s e s' →
      (∀ p b, s.live p = some b → e.subject ≠ some p →
        s'.live p = some b ∧ s'.memory.load p b.bytes.length = b.bytes) ∧
      (∀ usage p size q b, e = .realloc usage p size q → q ≠ 0 → s.live p = some b →
        s'.memory.load q (min size.toNat b.bytes.length) = b.bytes.take size.toNat) ∧
      (e.Refused → s' = s) ∧
      (∀ slot, (s.allocator.metadataBlocks slot).size ≠ 0 →
        e.Releases (s.allocator.metadata + (s.allocator.metadataBlocks slot).offset) →
        s' = ⟨s.allocator.withBlock slot ⟨(s.allocator.metadataBlocks slot).offset, 0⟩, s.memory,
          s.heap,
          s.live.freed (s.allocator.metadata + (s.allocator.metadataBlocks slot).offset)⟩) := by
  have hConsistent := Consistent.reachable h
  have hLaid := hConsistent.laid
  refine ⟨fun i hUsed => ⟨?_, (hLaid.inside i).room⟩, fun i j => hLaid.slots i j, hConsistent.sound,
    fun e s' hStep => ⟨fun p b hp hOther => ?_, fun usage p size q b he hq hp => ?_,
      hConsistent.refused hStep, fun slot => hConsistent.released hStep⟩⟩
  · rw [Nat.add_mod, hLaid.metadata_aligned, (hLaid.inside i).aligned]
  · have hKeeps := hConsistent.step hStep
    have hSame := hKeeps.others p b hp hOther
    exact ⟨hSame, hKeeps.consistent.sound.held p b hSame⟩
  · subst he
    have hSound := (hConsistent.step hStep).consistent.sound
    cases hStep with
    | realloc _ b' _ _ a m heap hLive =>
    rw [hp] at hLive
    cases hLive
    rw [if_pos hq] at hSound
    exact hSound.held_resized (Ledger.reallocated_self ..)

/-- The board's allocator at its start. -/
def boardAllocator : WamrAllocator where
  linearMemory := 0x3df00000
  capacity := linearReserveBytes
  used := 0
  inUse := false
  metadata := metadataAddress
  metadataBlocks _ := ⟨0, 0⟩

def boardStart : AllocatorState := ⟨boardAllocator, fun _ => 0, fun _ => none, fun _ => none⟩

/-- The board's allocator with the large block of a module instance. -/
def boardInstance : AllocatorState where
  allocator := boardAllocator.withBlock 0 ⟨0, 67340⟩
  memory := boardStart.memory
  heap := boardStart.heap
  live := boardStart.live.allocated boardStart.memory metadataAddress 67340 .runtime

/-- The board's allocator with the large block of an execution environment as well. -/
def boardLoaded : AllocatorState where
  allocator := boardInstance.allocator.withBlock 1 ⟨67344, 40000⟩
  memory := boardStart.memory
  heap := boardStart.heap
  live := boardInstance.live.allocated boardStart.memory (metadataAddress + 67344) 40000 .runtime

theorem boardLoaded_reachable : allocatorSystem.Reachable boardLoaded := by
  have hStart : FreshAllocator boardStart :=
    ⟨rfl, rfl, fun _ => rfl, by decide, by decide, by decide, by decide, by decide, fun _ => rfl,
      fun _ => rfl⟩
  have hInstance : AllocatorStep boardStart (.malloc .runtime 67340 metadataAddress) boardInstance :=
    .malloc boardStart .runtime 67340 metadataAddress boardInstance.allocator boardStart.memory
      boardStart.heap (.returns _ _ _)
  have hLoaded : AllocatorStep boardInstance (.malloc .runtime 40000 (metadataAddress + 67344))
      boardLoaded :=
    .malloc boardInstance .runtime 40000 (metadataAddress + 67344) boardLoaded.allocator
      boardStart.memory boardStart.heap (.returns _ _ _)
  exact ((System.Reachable.start hStart).step hInstance).step hLoaded

theorem allocator_keeps_blocks_board :
    (boardLoaded.allocator.metadataBlocks 0).region.Disjoint
        (boardLoaded.allocator.metadataBlocks 1).region ∧
      boardLoaded.live.Sound boardLoaded.memory := by
  obtain ⟨-, hApart, hSound, -⟩ := allocator_keeps_blocks boardLoaded_reachable
  exact ⟨hApart 0 1 (by decide) (by decide) (by decide), hSound⟩

end Esp32Fx.Runner
