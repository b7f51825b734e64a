import Esp32Fx.Guest.CompactAllocator

/-! The guest's allocator keeps its slices apart, each in a block of its own behind the word that
holds the block's address, and gives every block back once. -/

namespace Esp32Fx.Guest

open Lib

/-! ### The C allocator's blocks -/

/-- The blocks are apart, and each number that was issued is that of one block or was freed once. -/
structure Tidy (heap : Nat → Option HeapBlock) (issued : Nat) (freed : List Nat) : Prop where
  notNull : ∀ base h, heap base = some h → base ≠ 0
  top : ∀ base h, heap base = some h → base + h.usable ≤ 0x100000000
  apart : ∀ base h base' h', heap base = some h → heap base' = some h' → base ≠ base' →
    (h.region base).Disjoint (h'.region base')
  number_lt : ∀ base h, heap base = some h → h.number < issued
  number_inj : ∀ base h base' h', heap base = some h → heap base' = some h' →
    h.number = h'.number → base = base'
  freed_lt : ∀ n ∈ freed, n < issued
  freed_nodup : freed.Nodup
  freed_gone : ∀ base h, heap base = some h → h.number ∉ freed
  accounted : ∀ n < issued, n ∈ freed ∨ ∃ base h, heap base = some h ∧ h.number = n

section Heap

variable {heap : Nat → Option HeapBlock} {base base' issued usable : Nat} {freed : List Nat}
  {h h' : HeapBlock}

theorem heap_erased (hSome : Function.update heap base none base' = some h) :
    base' ≠ base ∧ heap base' = some h := by
  have hne : base' ≠ base := by
    rintro rfl
    simp at hSome
  exact ⟨hne, by rwa [Function.update_of_ne hne] at hSome⟩

theorem heap_updated (hSome : Function.update heap base (some h) base' = some h') :
    base' = base ∧ h' = h ∨ base' ≠ base ∧ heap base' = some h' := by
  by_cases hne : base' = base
  · subst hne
    rw [Function.update_self] at hSome
    exact .inl ⟨rfl, (Option.some.inj hSome).symm⟩
  · rw [Function.update_of_ne hne] at hSome
    exact .inr ⟨hne, hSome⟩

namespace Tidy

theorem malloc (t : Tidy heap issued freed) (hPlaced : Placed heap base usable) :
    Tidy (Function.update heap base (some ⟨issued, usable⟩)) (issued + 1) freed where
  notNull q k hq := by
    rcases heap_updated hq with ⟨rfl, rfl⟩ | ⟨-, hOld⟩
    · exact hPlaced.notNull
    · exact t.notNull q k hOld
  top q k hq := by
    rcases heap_updated hq with ⟨rfl, rfl⟩ | ⟨-, hOld⟩
    · exact hPlaced.top
    · exact t.top q k hOld
  apart q k q' k' hq hq' hne := by
    rcases heap_updated hq with ⟨rfl, rfl⟩ | ⟨-, hOld⟩
    · rcases heap_updated hq' with ⟨rfl, rfl⟩ | ⟨-, hOld'⟩
      · exact absurd rfl hne
      · exact hPlaced.apart q' k' hOld'
    · rcases heap_updated hq' with ⟨rfl, rfl⟩ | ⟨-, hOld'⟩
      · exact (hPlaced.apart q k hOld).symm
      · exact t.apart q k q' k' hOld hOld' hne
  number_lt q k hq := by
    rcases heap_updated hq with ⟨rfl, rfl⟩ | ⟨-, hOld⟩
    · exact Nat.lt_succ_self _
    · exact Nat.lt_succ_of_lt (t.number_lt q k hOld)
  number_inj q k q' k' hq hq' hSame := by
    rcases heap_updated hq with ⟨rfl, rfl⟩ | ⟨-, hOld⟩
    · rcases heap_updated hq' with ⟨rfl, rfl⟩ | ⟨-, hOld'⟩
      · rfl
      · exact absurd (t.number_lt q' k' hOld') (Nat.not_lt.mpr (Nat.le_of_eq hSame))
    · rcases heap_updated hq' with ⟨rfl, rfl⟩ | ⟨-, hOld'⟩
      · exact absurd (t.number_lt q k hOld) (Nat.not_lt.mpr (Nat.le_of_eq hSame.symm))
      · exact t.number_inj q k q' k' hOld hOld' hSame
  freed_lt n hn := Nat.lt_succ_of_lt (t.freed_lt n hn)
  freed_nodup := t.freed_nodup
  freed_gone q k hq hFreed := by
    rcases heap_updated hq with ⟨rfl, rfl⟩ | ⟨-, hOld⟩
    · exact absurd (t.freed_lt _ hFreed) (Nat.lt_irrefl _)
    · exact t.freed_gone q k hOld hFreed
  accounted n hn := by
    by_cases hLast : n = issued
    · exact .inr ⟨base, _, Function.update_self .., hLast.symm⟩
    · rcases t.accounted n (by omega) with hFreed | ⟨q, k, hq, hk⟩
      · exact .inl hFreed
      · have hne : q ≠ base := by
          rintro rfl
          rw [hPlaced.fresh] at hq
          cases hq
        exact .inr ⟨q, k, by rwa [Function.update_of_ne hne], hk⟩

theorem free (t : Tidy heap issued freed) (hLive : heap base = some h) :
    Tidy (Function.update heap base none) issued (h.number :: freed) where
  notNull q k hq := t.notNull q k (heap_erased hq).2
  top q k hq := t.top q k (heap_erased hq).2
  apart q k q' k' hq hq' := t.apart q k q' k' (heap_erased hq).2 (heap_erased hq').2
  number_lt q k hq := t.number_lt q k (heap_erased hq).2
  number_inj q k q' k' hq hq' := t.number_inj q k q' k' (heap_erased hq).2 (heap_erased hq').2
  freed_lt n hn := by
    rcases List.mem_cons.mp hn with rfl | hn
    · exact t.number_lt base h hLive
    · exact t.freed_lt n hn
  freed_nodup := List.nodup_cons.mpr ⟨t.freed_gone base h hLive, t.freed_nodup⟩
  freed_gone q k hq hFreed := by
    obtain ⟨hne, hOld⟩ := heap_erased hq
    rcases List.mem_cons.mp hFreed with hSame | hFreed
    · exact hne (t.number_inj q k base h hOld hLive hSame)
    · exact t.freed_gone q k hOld hFreed
  accounted n hn := by
    rcases t.accounted n hn with hFreed | ⟨q, k, hq, hk⟩
    · exact .inl (List.mem_cons_of_mem _ hFreed)
    · by_cases hne : q = base
      · subst hne
        rw [hLive] at hq
        cases hq
        exact .inl (by rw [hk]; exact List.mem_cons_self)
      · exact .inr ⟨q, k, by rwa [Function.update_of_ne hne], hk⟩

theorem realloc (t : Tidy heap issued freed) (hLive : heap base = some h)
    (hPlaced : Placed (Function.update heap base none) base' usable) :
    Tidy (Function.update (Function.update heap base none) base' (some ⟨h.number, usable⟩))
      issued freed where
  notNull q k hq := by
    rcases heap_updated hq with ⟨rfl, rfl⟩ | ⟨-, hOld⟩
    · exact hPlaced.notNull
    · exact t.notNull q k (heap_erased hOld).2
  top q k hq := by
    rcases heap_updated hq with ⟨rfl, rfl⟩ | ⟨-, hOld⟩
    · exact hPlaced.top
    · exact t.top q k (heap_erased hOld).2
  apart q k q' k' hq hq' hne := by
    rcases heap_updated hq with ⟨rfl, rfl⟩ | ⟨-, hOld⟩
    · rcases heap_updated hq' with ⟨rfl, rfl⟩ | ⟨-, hOld'⟩
      · exact absurd rfl hne
      · exact hPlaced.apart q' k' hOld'
    · rcases heap_updated hq' with ⟨rfl, rfl⟩ | ⟨-, hOld'⟩
      · exact (hPlaced.apart q k hOld).symm
      · exact t.apart q k q' k' (heap_erased hOld).2 (heap_erased hOld').2 hne
  number_lt q k hq := by
    rcases heap_updated hq with ⟨rfl, rfl⟩ | ⟨-, hOld⟩
    · exact t.number_lt base h hLive
    · exact t.number_lt q k (heap_erased hOld).2
  number_inj q k q' k' hq hq' hSame := by
    rcases heap_updated hq with ⟨rfl, rfl⟩ | ⟨-, hOld⟩
    · rcases heap_updated hq' with ⟨rfl, rfl⟩ | ⟨-, hOld'⟩
      · rfl
      · obtain ⟨hne, hOld'⟩ := heap_erased hOld'
        exact absurd (t.number_inj q' k' base h hOld' hLive hSame.symm) hne
    · rcases heap_updated hq' with ⟨rfl, rfl⟩ | ⟨-, hOld'⟩
      · obtain ⟨hne, hOld⟩ := heap_erased hOld
        exact absurd (t.number_inj q k base h hOld hLive hSame) hne
      · exact t.number_inj q k q' k' (heap_erased hOld).2 (heap_erased hOld').2 hSame
  freed_lt := t.freed_lt
  freed_nodup := t.freed_nodup
  freed_gone q k hq hFreed := by
    rcases heap_updated hq with ⟨rfl, rfl⟩ | ⟨-, hOld⟩
    · exact t.freed_gone base h hLive hFreed
    · exact t.freed_gone q k (heap_erased hOld).2 hFreed
  accounted n hn := by
    rcases t.accounted n hn with hFreed | ⟨q, k, hq, hk⟩
    · exact .inl hFreed
    · by_cases hne : q = base
      · subst hne
        rw [hLive] at hq
        cases hq
        exact .inr ⟨base', _, Function.update_self .., hk⟩
      · have hOld : Function.update heap base none q = some k := by
          rwa [Function.update_of_ne hne]
        have hne' : q ≠ base' := by
          rintro rfl
          rw [hPlaced.fresh] at hOld
          cases hOld
        exact .inr ⟨q, k, by rwa [Function.update_of_ne hne'], hk⟩

end Tidy

end Heap

/-! ### Single calls -/

section Calls

variable {s : Machine} {a b n : Nat}

@[simp] theorem ensures_fxMalloc {Q : Option Nat → Machine → Prop} :
    (fxMalloc n).Ensures Does Q s ↔ ∀ x t, Does s (.malloc n) x t → Q x t := Iff.rfl

@[simp] theorem ensures_fxRealloc {Q : Option Nat → Machine → Prop} :
    (fxRealloc a n).Ensures Does Q s ↔ ∀ x t, Does s (.realloc a n) x t → Q x t := Iff.rfl

@[simp] theorem ensures_fxFree {Q : Unit → Machine → Prop} :
    (fxFree a).Ensures Does Q s ↔ ∀ x t, Does s (.free a) x t → Q x t := Iff.rfl

theorem ensures_fxUsableSize {Q : Nat → Machine → Prop} {h : HeapBlock} (hLive : s.heap a = some h) :
    (fxUsableSize a).Ensures Does Q s ↔ Q h.usable s := by
  constructor
  · intro hQ
    exact hQ _ _ (.usableSize s a h hLive)
  · intro hQ x t hDoes
    cases hDoes with
    | usableSize _ _ h' hLive' =>
      rw [hLive] at hLive'
      cases hLive'
      exact hQ
    | wildUsableSize _ _ _ _ hWild =>
      rw [hLive] at hWild
      cases hWild

@[simp] theorem ensures_loadUsize {Q : Nat → Machine → Prop} :
    (loadUsize a).Ensures Does Q s ↔ Q (s.memory.word a) s := by
  constructor
  · intro hQ
    exact hQ _ _ (.load s a)
  · intro hQ x t hDoes
    cases hDoes
    exact hQ

@[simp] theorem ensures_storeUsize {Q : Unit → Machine → Prop} :
    (storeUsize a n).Ensures Does Q s ↔
      Q () { s with memory := s.memory.store a (Memory.wordBytes n) } := by
  constructor
  · intro hQ
    exact hQ _ _ (.store s a n)
  · intro hQ x t hDoes
    cases hDoes
    exact hQ

@[simp] theorem ensures_copyForwards {Q : Unit → Machine → Prop} :
    (copyForwards a b n).Ensures Does Q s ↔
      Q () { s with memory := s.memory.copyForwards a b n } := by
  constructor
  · intro hQ
    exact hQ _ _ (.copyForwards s a b n)
  · intro hQ x t hDoes
    cases hDoes
    exact hQ

@[simp] theorem ensures_copyBackwards {Q : Unit → Machine → Prop} :
    (copyBackwards a b n).Ensures Does Q s ↔
      Q () { s with memory := s.memory.copyBackwards a b n } := by
  constructor
  · intro hQ
    exact hQ _ _ (.copyBackwards s a b n)
  · intro hQ x t hDoes
    cases hDoes
    exact hQ

end Calls

/-- No call is stuck. -/
theorem does_answers (s : Machine) (r : Request) : ∃ x t, Does s r x t := by
  cases r with
  | malloc size => exact ⟨_, _, .mallocFails s size s.memory fun _ _ _ => .refl _ _⟩
  | realloc base size => exact ⟨_, _, .reallocFails s base size s.memory fun _ _ _ => .refl _ _⟩
  | free base =>
    cases hBase : s.heap base with
    | none => exact ⟨(), s, .wildFree s s base hBase⟩
    | some h => exact ⟨_, _, .free s base h s.memory hBase fun _ _ _ => .refl _ _⟩
  | usableSize base =>
    cases hBase : s.heap base with
    | none => exact ⟨_, _, .wildUsableSize s s base 0 hBase⟩
    | some h => exact ⟨_, _, .usableSize s base h hBase⟩
  | load address => exact ⟨_, _, .load s address⟩
  | store address word => exact ⟨_, _, .store s address word⟩
  | copyForwards dest source count => exact ⟨_, _, .copyForwards s dest source count⟩
  | copyBackwards dest source count => exact ⟨_, _, .copyBackwards s dest source count⟩

/-- Every function comes to an end. -/
theorem compact_ends {α : Type} (f : Compact α) (s : Machine) : ∃ a t, f.Runs Does s a t :=
  f.exists_runs does_answers s

/-! ### Slices in their blocks -/

/-- The word before a slice. -/
def header (m : Memory) (p : Nat) : Nat := m.word (p - usizeBytes)

/-- The slice of `len` bytes at `p` lies in the block that its header names, behind the header. -/
structure Owns (s : Machine) (p len : Nat) (alignment : Alignment) (h : HeapBlock) : Prop where
  live : s.heap (header s.memory p) = some h
  behind : header s.memory p + usizeBytes ≤ p
  offset : p < header s.memory p + usizeBytes + CompactAllocator.unit alignment
  room : p + len ≤ header s.memory p + h.usable
  inside : p < header s.memory p + h.usable
  aligned : p % toByteUnits alignment = 0

/-- The client's live slices own a block each, all blocks are owned, and the slices hold what was
written to them. -/
structure CompactConsistent (s : CompactState) : Prop where
  tidy : Tidy s.machine.heap s.machine.issued s.machine.freed
  owns : ∀ p b, s.live p = some b → ∃ h, Owns s.machine p b.bytes.length b.tag h
  distinct : ∀ p b q c, s.live p = some b → s.live q = some c →
    header s.machine.memory p = header s.machine.memory q → p = q
  owned : ∀ base h, s.machine.heap base = some h →
    ∃ p b, s.live p = some b ∧ header s.machine.memory p = base
  sound : s.live.Sound s.machine.memory

section Slices

variable {s : Machine} {p q len n base : Nat} {alignment : Alignment} {h k : HeapBlock}

theorem Owns.slice_within (o : Owns s p len alignment h) :
    Region.Within ⟨p, len⟩ (h.region (header s.memory p)) := by
  have hBehind := o.behind
  have hRoom := o.room
  unfold Region.Within HeapBlock.region
  simp only
  omega

theorem Owns.header_within (o : Owns s p len alignment h) :
    Region.Within ⟨p - usizeBytes, usizeBytes⟩ (h.region (header s.memory p)) := by
  have hBehind := o.behind
  have hInside := o.inside
  unfold Region.Within HeapBlock.region
  simp only
  omega

/-- The header and the bytes of a slice, together. -/
theorem Owns.within (o : Owns s p len alignment h) :
    Region.Within ⟨p - usizeBytes, usizeBytes + len⟩ (h.region (header s.memory p)) := by
  have hBehind := o.behind
  have hRoom := o.room
  unfold Region.Within HeapBlock.region
  simp only
  omega

theorem header_of_agreeOn {m m' : Memory} (hAgree : Memory.AgreeOn ⟨p - usizeBytes, usizeBytes⟩ m m') :
    header m' p = header m p := Memory.word_of_agreeOn hAgree

theorem Owns.header_eq (o : Owns s p len alignment h) {m : Memory}
    (hAgree : Memory.AgreeOn (h.region (header s.memory p)) s.memory m) :
    header m p = header s.memory p := header_of_agreeOn (hAgree.within o.header_within)

/-- A slice stays in its block when the block stays. -/
theorem Owns.carry (o : Owns s p len alignment h) {t : Machine}
    (hLive : t.heap (header s.memory p) = some h)
    (hAgree : Memory.AgreeOn (h.region (header s.memory p)) s.memory t.memory) :
    Owns t p len alignment h := by
  have hHeader := o.header_eq hAgree
  constructor
  · rw [hHeader]
    exact hLive
  · rw [hHeader]
    exact o.behind
  · rw [hHeader]
    exact o.offset
  · rw [hHeader]
    exact o.room
  · rw [hHeader]
    exact o.inside
  · exact o.aligned

theorem unit_pos (alignment : Alignment) : 0 < CompactAllocator.unit alignment :=
  Nat.lt_of_lt_of_le (toByteUnits_pos alignment) (Nat.le_max_left _ _)

/-- Where a slice goes in a block that is large enough for it. -/
theorem slot_spec {usable : Nat} (alignment : Alignment) (hTop : base + usable ≤ 0x100000000)
    (hSize : len + (CompactAllocator.unit alignment + usizeBytes) ≤ usable) :
    base + usizeBytes ≤ CompactAllocator.slot base alignment ∧
      CompactAllocator.slot base alignment <
        base + usizeBytes + CompactAllocator.unit alignment ∧
      CompactAllocator.slot base alignment % toByteUnits alignment = 0 := by
  have hUnit := unit_pos alignment
  have hBytes : usizeBytes = 4 := rfl
  have hStart : usize (base + usizeBytes) = base + usizeBytes := usize_of_lt (by omega)
  obtain ⟨hAligned, hLow, hHigh⟩ : _ ∧ _ ∧ _ :=
    alignForward_of_lt hUnit (by omega : base + usizeBytes + (_ - 1) < _)
  rw [CompactAllocator.slot, hStart]
  refine ⟨hLow, by omega, ?_⟩
  exact Nat.mod_eq_zero_of_dvd
    (Nat.dvd_trans (toByteUnits_dvd_max alignment) (Nat.dvd_of_mod_eq_zero hAligned))

end Slices

/-! ### The client's ledger -/

/-- A step keeps the client's ledger, and every live slice but the one that it is about. -/
structure CompactKeeps (s s' : CompactState) (subject : Option Nat) : Prop where
  consistent : CompactConsistent s'
  others : s.live.Keeps s'.live subject

namespace CompactConsistent

variable {s : CompactState} {t : Machine} {p q n base : Nat} {alignment : Alignment}
  {b : Block Alignment} {h : HeapBlock}

/-- Slices in different blocks are apart. -/
theorem disjoint (c : CompactConsistent s) {b' : Block Alignment} (hp : s.live p = some b)
    (hq : s.live q = some b') (hne : p ≠ q) :
    Region.Disjoint ⟨p - usizeBytes, usizeBytes + b.bytes.length⟩
      ⟨q - usizeBytes, usizeBytes + b'.bytes.length⟩ := by
  obtain ⟨h, hOwns⟩ := c.owns p b hp
  obtain ⟨h', hOwns'⟩ := c.owns q b' hq
  have hApart := c.tidy.apart _ _ _ _ hOwns.live hOwns'.live fun hSame =>
    hne (c.distinct p b q b' hp hq hSame)
  exact hApart.mono hOwns.within hOwns'.within

/-- A slice whose block is among those that stay. -/
theorem carried (c : CompactConsistent s) {heap : Nat → Option HeapBlock} {b : Block Alignment}
    (hSub : ∀ base h, heap base = some h → s.machine.heap base = some h ∧ t.heap base = some h)
    (hKept : KeepsBlocks heap s.machine.memory t.memory) (hq : s.live q = some b)
    (hStays : heap (header s.machine.memory q) ≠ none) :
    header t.memory q = header s.machine.memory q ∧
      Memory.AgreeOn (b.region q) s.machine.memory t.memory ∧
      ∃ h, heap (header s.machine.memory q) = some h ∧ Owns t q b.bytes.length b.tag h := by
  obtain ⟨h, hOwns⟩ := c.owns q b hq
  obtain ⟨h', hStays⟩ := Option.ne_none_iff_exists'.mp hStays
  obtain ⟨hBefore, hAfter⟩ := hSub _ _ hStays
  have hSame : h' = h := Option.some.inj (hBefore.symm.trans hOwns.live)
  subst hSame
  have hAgree := hKept _ _ hStays
  exact ⟨hOwns.header_eq hAgree, hAgree.within hOwns.slice_within, h', hStays,
    hOwns.carry hAfter hAgree⟩

/-- The slice at `p` gets a new block at `base`, and the slices in the blocks of `heap` stay. -/
theorem placed (c : CompactConsistent s) {heap : Nat → Option HeapBlock} {live : Ledger Alignment}
    {b : Block Alignment} (hTidy : Tidy t.heap t.issued t.freed)
    (hSub : ∀ base h, heap base = some h → s.machine.heap base = some h)
    (hFresh : heap base = none) (hHeap : t.heap = Function.update heap base (some h))
    (hKept : KeepsBlocks heap s.machine.memory t.memory)
    (hHeader : header t.memory p = base) (hOwns : Owns t p b.bytes.length b.tag h)
    (hNew : live p = some b)
    (hOld : ∀ q b', live q = some b' → q = p ∧ b' = b ∨
      s.live q = some b' ∧ heap (header s.machine.memory q) ≠ none)
    (hAll : ∀ q b', s.live q = some b' → heap (header s.machine.memory q) ≠ none →
      live q = some b')
    (hSound : live.Sound t.memory) : CompactConsistent ⟨t, live⟩ := by
  have hSub' : ∀ base h, heap base = some h → s.machine.heap base = some h ∧
      t.heap base = some h := by
    intro base' h' hSome
    refine ⟨hSub base' h' hSome, ?_⟩
    have hne : base' ≠ base := by
      rintro rfl
      rw [hFresh] at hSome
      cases hSome
    rw [hHeap, Function.update_of_ne hne, hSome]
  have hStays := fun q b' hq hq' => c.carried (q := q) (b := b') hSub' hKept hq hq'
  constructor
  · exact hTidy
  · intro q b' hq
    rcases hOld q b' hq with ⟨rfl, rfl⟩ | ⟨hq, hBlock⟩
    · exact ⟨h, hOwns⟩
    · obtain ⟨-, -, h', -, hOwns'⟩ := hStays q b' hq hBlock
      exact ⟨h', hOwns'⟩
  · intro q b' q' b'' hq hq' hSame
    have hOther : ∀ q b', s.live q = some b' → heap (header s.machine.memory q) ≠ none →
        header t.memory q ≠ base := by
      intro q b' hq hBlock hBase
      rw [(hStays q b' hq hBlock).1] at hBase
      rw [hBase] at hBlock
      exact hBlock hFresh
    rcases hOld q b' hq with ⟨rfl, rfl⟩ | ⟨hq, hBlock⟩
    · rcases hOld q' b'' hq' with ⟨rfl, rfl⟩ | ⟨hq', hBlock'⟩
      · rfl
      · exact absurd (hSame.symm.trans hHeader) (hOther q' b'' hq' hBlock')
    · rcases hOld q' b'' hq' with ⟨rfl, rfl⟩ | ⟨hq', hBlock'⟩
      · exact absurd (hSame.trans hHeader) (hOther q b' hq hBlock)
      · dsimp only at hSame
        rw [(hStays q b' hq hBlock).1, (hStays q' b'' hq' hBlock').1] at hSame
        exact c.distinct q b' q' b'' hq hq' hSame
  · intro base' h' hSome
    dsimp only at hSome
    rw [hHeap] at hSome
    rcases heap_updated hSome with ⟨rfl, rfl⟩ | ⟨-, hSome⟩
    · exact ⟨p, b, hNew, hHeader⟩
    · obtain ⟨q, b', hq, hBase⟩ := c.owned base' h' (hSub base' h' hSome)
      have hBlock : heap (header s.machine.memory q) ≠ none := by simp [hBase, hSome]
      exact ⟨q, b', hAll q b' hq hBlock, (hStays q b' hq hBlock).1.trans hBase⟩
  · exact hSound

/-- A new slice in a new block. -/
theorem allocated (c : CompactConsistent s) (hTidy : Tidy t.heap t.issued t.freed)
    (hFresh : s.machine.heap base = none)
    (hHeap : t.heap = Function.update s.machine.heap base (some h))
    (hKept : KeepsBlocks s.machine.heap s.machine.memory t.memory)
    (hHeader : header t.memory p = base) (hOwns : Owns t p n alignment h) :
    CompactKeeps s ⟨t, s.live.allocated t.memory p n alignment⟩ none := by
  have hSub : ∀ base h, s.machine.heap base = some h →
      s.machine.heap base = some h ∧ t.heap base = some h := by
    intro base' h' hSome
    refine ⟨hSome, ?_⟩
    have hne : base' ≠ base := by
      rintro rfl
      rw [hFresh] at hSome
      cases hSome
    rw [hHeap, Function.update_of_ne hne, hSome]
  have hBlock : ∀ q b, s.live q = some b → s.machine.heap (header s.machine.memory q) ≠ none := by
    intro q b hq
    obtain ⟨h', hOwns'⟩ := c.owns q b hq
    simp [hOwns'.live]
  have hApart : ∀ q b, s.live q = some b → header t.memory q ≠ base := by
    intro q b hq hBase
    rw [(c.carried hSub hKept hq (hBlock q b hq)).1] at hBase
    exact hBlock q b hq (hBase ▸ hFresh)
  have hNone : s.live p = none := by
    cases hp : s.live p with
    | none => rfl
    | some b => exact absurd hHeader (hApart p b hp)
  refine ⟨?_, Ledger.keeps_allocated hNone⟩
  refine c.placed hTidy (fun base h hSome => hSome) hFresh hHeap hKept hHeader (h := h)
    (b := .fresh t.memory p n alignment) ?_ (Function.update_self ..) (fun q b' hq => ?_)
    (fun q b' hq _ => Ledger.keeps_allocated hNone q b' hq (by simp)) ?_
  · rwa [Block.length_fresh]
  · rcases Ledger.allocated_eq_some hq with ⟨rfl, rfl⟩ | ⟨-, hq⟩
    · exact .inl ⟨rfl, rfl⟩
    · exact .inr ⟨hq, hBlock q b' hq⟩
  · refine c.sound.allocated (fun q b hq => (c.carried hSub hKept hq (hBlock q b hq)).2.1)
      fun q b hq => ?_
    obtain ⟨-, -, h', -, hOwns'⟩ := c.carried hSub hKept hq (hBlock q b hq)
    have hBlocks := hTidy.apart _ _ _ _ hOwns.live hOwns'.live
      (fun hSame => hApart q b hq (hSame.symm.trans hHeader))
    exact hBlocks.mono hOwns.slice_within hOwns'.slice_within

theorem erased_ne_none (c : CompactConsistent s) (hp : s.live p = some b) {b' : Block Alignment}
    (hq : s.live q = some b') (hne : q ≠ p) :
    Function.update s.machine.heap (header s.machine.memory p) none (header s.machine.memory q) ≠
      none := by
  obtain ⟨h', hOwns⟩ := c.owns q b' hq
  rw [Function.update_of_ne fun hSame => hne (c.distinct q b' p b hq hp hSame), hOwns.live]
  simp

/-- The slice at `p` becomes one of `n` bytes at `q`, in a block that takes the place of its own. -/
theorem reallocated (c : CompactConsistent s) (hp : s.live p = some b)
    (hTidy : Tidy t.heap t.issued t.freed)
    (hFresh : Function.update s.machine.heap (header s.machine.memory p) none base = none)
    (hHeap : t.heap = Function.update
      (Function.update s.machine.heap (header s.machine.memory p) none) base (some h))
    (hKept : KeepsBlocks (Function.update s.machine.heap (header s.machine.memory p) none)
      s.machine.memory t.memory)
    (hHeader : header t.memory q = base) (hOwns : Owns t q n b.tag h)
    (hBytes : t.memory.load q (min n b.bytes.length) =
      s.machine.memory.load p (min n b.bytes.length)) :
    CompactKeeps s ⟨t, s.live.reallocated b t.memory p q n⟩ (some p) := by
  have hErased : ∀ base h,
      Function.update s.machine.heap (header s.machine.memory p) none base = some h →
      s.machine.heap base = some h := fun base h hSome => (heap_erased hSome).2
  have hSub : ∀ base h,
      Function.update s.machine.heap (header s.machine.memory p) none base = some h →
      s.machine.heap base = some h ∧ t.heap base = some h := by
    intro base' h' hSome
    refine ⟨hErased base' h' hSome, ?_⟩
    have hne : base' ≠ base := by
      rintro rfl
      rw [hFresh] at hSome
      cases hSome
    rw [hHeap, Function.update_of_ne hne, hSome]
  have hApart : ∀ q' b', s.live q' = some b' → q' ≠ p → header t.memory q' ≠ base := by
    intro q' b' hq' hne hBase
    have hBlock := c.erased_ne_none hp hq' hne
    rw [← (c.carried hSub hKept hq' hBlock).1, hBase] at hBlock
    exact hBlock hFresh
  have hTarget : ∀ b', s.live q = some b' → q = p := by
    intro b' hq
    by_contra hne
    exact hApart q b' hq hne hHeader
  refine ⟨?_, Ledger.keeps_reallocated hTarget⟩
  refine c.placed hTidy hErased hFresh hHeap hKept hHeader (h := h)
    (b := b.resized t.memory q n) ?_ (Function.update_self ..) (fun q' b' hq' => ?_)
    (fun q' b' hq' hBlock => ?_) ?_
  · rwa [Block.length_resized, Block.tag_resized]
  · rcases Ledger.reallocated_eq_some hq' with ⟨rfl, rfl⟩ | ⟨-, hne, hq'⟩
    · exact .inl ⟨rfl, rfl⟩
    · exact .inr ⟨hq', c.erased_ne_none hp hq' hne⟩
  · refine Ledger.keeps_reallocated hTarget q' b' hq' fun hSame => hBlock ?_
    rw [Option.some.inj hSame, Function.update_self]
  · refine c.sound.reallocated hp
      (fun q' b' hne hq' => (c.carried hSub hKept hq' (c.erased_ne_none hp hq' hne)).2.1)
      (fun q' b' hne hq' => ?_) hBytes
    obtain ⟨-, -, h', -, hOwns'⟩ := c.carried hSub hKept hq' (c.erased_ne_none hp hq' hne)
    have hBlocks := hTidy.apart _ _ _ _ hOwns.live hOwns'.live
      (fun hSame => hApart q' b' hq' hne (hSame.symm.trans hHeader))
    exact hBlocks.mono hOwns.slice_within hOwns'.slice_within

/-- The slice at `p` goes, and its block with it. -/
theorem freed (c : CompactConsistent s) (hp : s.live p = some b)
    (hTidy : Tidy t.heap t.issued t.freed)
    (hHeap : t.heap = Function.update s.machine.heap (header s.machine.memory p) none)
    (hKept : KeepsBlocks t.heap s.machine.memory t.memory) :
    CompactKeeps s ⟨t, s.live.freed p⟩ (some p) := by
  have hSub : ∀ base h, t.heap base = some h → s.machine.heap base = some h ∧ t.heap base = some h :=
    fun base h hSome => ⟨(heap_erased (hHeap ▸ hSome)).2, hSome⟩
  have hStays : ∀ q b', s.live.freed p q = some b' → s.live q = some b' ∧
      t.heap (header s.machine.memory q) ≠ none := by
    intro q b' hq
    obtain ⟨hne, hq⟩ := Ledger.freed_eq_some hq
    exact ⟨hq, hHeap ▸ c.erased_ne_none hp hq hne⟩
  refine ⟨⟨hTidy, fun q b' hq => ?_, fun q b' q' b'' hq hq' hSame => ?_, fun base h hSome => ?_, ?_⟩,
    Ledger.keeps_freed s.live p⟩
  · obtain ⟨hq, hBlock⟩ := hStays q b' hq
    obtain ⟨-, -, h', -, hOwns⟩ := c.carried hSub hKept hq hBlock
    exact ⟨h', hOwns⟩
  · obtain ⟨hq, hBlock⟩ := hStays q b' hq
    obtain ⟨hq', hBlock'⟩ := hStays q' b'' hq'
    dsimp only at hSame
    rw [(c.carried hSub hKept hq hBlock).1, (c.carried hSub hKept hq' hBlock').1] at hSame
    exact c.distinct q b' q' b'' hq hq' hSame
  · obtain ⟨hOld, hNew⟩ := hSub base h hSome
    obtain ⟨q, b', hq, hBase⟩ := c.owned base h hOld
    have hne : q ≠ p := by
      rintro rfl
      rw [hHeap, ← hBase, Function.update_self] at hNew
      cases hNew
    have hBlock : t.heap (header s.machine.memory q) ≠ none := hHeap ▸ c.erased_ne_none hp hq hne
    exact ⟨q, b', (Ledger.freed_of_ne hne).trans hq, (c.carried hSub hKept hq hBlock).1.trans hBase⟩
  · exact c.sound.freed fun q b' hne hq =>
      (c.carried hSub hKept hq (hHeap ▸ c.erased_ne_none hp hq hne)).2.1

/-- The C allocator refuses. -/
theorem refused (c : CompactConsistent s) {memory : Memory}
    (hKept : KeepsBlocks s.machine.heap s.machine.memory memory) (subject : Option Nat) :
    CompactKeeps s ⟨{ s.machine with memory }, s.live⟩ subject := by
  have hBlock : ∀ q b, s.live q = some b → s.machine.heap (header s.machine.memory q) ≠ none := by
    intro q b hq
    obtain ⟨h, hOwns⟩ := c.owns q b hq
    simp [hOwns.live]
  have hStays := fun q b (hq : s.live q = some b) =>
    c.carried (t := { s.machine with memory }) (fun _ _ hSome => ⟨hSome, hSome⟩) hKept hq
      (hBlock q b hq)
  refine ⟨⟨c.tidy, fun q b hq => ?_, fun q b q' b' hq hq' hSame => ?_, fun base h hSome => ?_, ?_⟩,
    .refl _ _⟩
  · obtain ⟨-, -, h, -, hOwns⟩ := hStays q b hq
    exact ⟨h, hOwns⟩
  · dsimp only at hSame
    rw [(hStays q b hq).1, (hStays q' b' hq').1] at hSame
    exact c.distinct q b q' b' hq hq' hSame
  · obtain ⟨q, b, hq, hBase⟩ := c.owned base h hSome
    exact ⟨q, b, hq, (hStays q b hq).1.trans hBase⟩
  · exact c.sound.agree fun q b hq => (hStays q b hq).2.1

/-! ### The calls, one by one -/

theorem usizeSub_header (c : CompactConsistent s) (hp : s.live p = some b) :
    usizeSub p usizeBytes = p - usizeBytes := by
  obtain ⟨h, hOwns⟩ := c.owns p b hp
  have hBehind := hOwns.behind
  have hInside := hOwns.inside
  have hTop := c.tidy.top _ _ hOwns.live
  exact usizeSub_of_le (by omega) (by omega)

/-- A header written before a slice. -/
theorem header_store {m : Memory} (hBase : base < 0x100000000) :
    header (m.store (p - usizeBytes) (Memory.wordBytes base)) p = base := Memory.word_store m _ hBase

theorem alloc_ensures (c : CompactConsistent s) (len : Nat) (alignment : Alignment) :
    (CompactAllocator.alloc len alignment).Ensures Does (fun result t =>
      CompactKeeps s ⟨t, s.live.grant t.memory result len alignment⟩ none) s.machine := by
  unfold CompactAllocator.alloc
  split
  · exact ⟨c, .refl _ _⟩
  next total hTotal =>
  obtain ⟨rfl, hTotal⟩ := mathAdd_eq_some hTotal
  simp only [Program.ensures_bind, ensures_fxMalloc]
  intro answer t hMalloc
  cases hMalloc with
  | mallocFails _ _ memory hKept => exact c.refused hKept none
  | malloc _ _ base usable memory hSize hPlaced hKept =>
    simp only [Program.ensures_bind, ensures_storeUsize, Program.ensures_pure]
    have hTop := hPlaced.top
    have hBytes : usizeBytes = 4 := rfl
    obtain ⟨hBehind, hOffset, hAligned⟩ := slot_spec alignment hTop hSize
    generalize CompactAllocator.slot base alignment = p at *
    rw [usizeSub_of_le (by omega) (by omega)]
    have hHeader : header (memory.store (p - usizeBytes) (Memory.wordBytes base)) p = base :=
      header_store (by omega)
    refine c.allocated (c.tidy.malloc hPlaced) hPlaced.fresh rfl (fun q h hq => ?_) hHeader
      ⟨?_, ?_, ?_, ?_, ?_, hAligned⟩
    · refine (hKept q h hq).trans (Memory.agreeOn_store _ ?_)
      refine (hPlaced.apart q h hq).symm.within ?_
      unfold Region.Within
      simp only [Memory.length_wordBytes]
      omega
    all_goals dsimp only; rw [hHeader]
    · exact Function.update_self ..
    · exact hBehind
    · exact hOffset
    · omega
    · omega

theorem resize_ensures (c : CompactConsistent s) (hp : s.live p = some b) (newLen : Nat) :
    (CompactAllocator.resize p newLen).Ensures Does (fun ok t =>
      CompactKeeps s ⟨t, if ok then s.live.reallocated b t.memory p p newLen else s.live⟩ (some p))
      s.machine := by
  obtain ⟨h, hOwns⟩ := c.owns p b hp
  have hBehind := hOwns.behind
  have hRoom := hOwns.room
  have hInside := hOwns.inside
  have hTop := c.tidy.top _ _ hOwns.live
  have hNotNull := c.tidy.notNull _ _ hOwns.live
  have hOffset : usizeSub p (header s.machine.memory p) = p - header s.machine.memory p :=
    usizeSub_of_le (by omega) (by omega)
  unfold CompactAllocator.resize
  simp only [Program.ensures_bind, ensures_loadUsize, c.usizeSub_header hp]
  rw [← header, ensures_fxUsableSize hOwns.live, Program.ensures_pure, hOffset,
    usizeSub_of_le (by omega) (by omega)]
  split
  · next hFits =>
    rw [decide_eq_true_eq] at hFits
    refine c.reallocated hp c.tidy (Function.update_self ..) ?_ (fun _ _ _ => .refl _ _) rfl
      (h := h) ⟨hOwns.live, hBehind, hOwns.offset, by omega, hInside, hOwns.aligned⟩ rfl
    rw [Function.update_idem, ← hOwns.live, Function.update_eq_self]
  · exact ⟨c, .refl _ _⟩

theorem free_ensures (c : CompactConsistent s) (hp : s.live p = some b) :
    (CompactAllocator.free p).Ensures Does
      (fun _ t => CompactKeeps s ⟨t, s.live.freed p⟩ (some p)) s.machine := by
  obtain ⟨h, hOwns⟩ := c.owns p b hp
  unfold CompactAllocator.free
  simp only [Program.ensures_bind, ensures_loadUsize, c.usizeSub_header hp, ensures_fxFree]
  rw [← header]
  intro _ t hFree
  cases hFree with
  | free _ _ h' memory hLive hKept => exact c.freed hp (c.tidy.free hLive) rfl hKept
  | wildFree _ _ _ hWild =>
    rw [hOwns.live] at hWild
    cases hWild

/-- What `remap` leaves when it has copied `count` bytes of the moved block to the new slice: it
writes the header, and the slice has the bytes of the old one. -/
theorem remapped (c : CompactConsistent s) (hp : s.live p = some b) {newLen usable : Nat}
    {memory copied : Memory} (hOwns : Owns s.machine p b.bytes.length b.tag h)
    (hSize : newLen + (CompactAllocator.unit b.tag + usizeBytes) ≤ usable)
    (hPlaced : Placed (Function.update s.machine.heap (header s.machine.memory p) none) base usable)
    (hKept : KeepsBlocks (Function.update s.machine.heap (header s.machine.memory p) none)
      s.machine.memory memory)
    (hMoved : memory.load (base + (p - header s.machine.memory p)) (min newLen b.bytes.length) =
      s.machine.memory.load p (min newLen b.bytes.length))
    (hQ : q = CompactAllocator.slot base b.tag)
    (hCopied : copied.load q (min newLen b.bytes.length) =
      memory.load (base + (p - header s.machine.memory p)) (min newLen b.bytes.length))
    (hOutside : ∀ r : Region, r.Disjoint ⟨q, min newLen b.bytes.length⟩ →
      Memory.AgreeOn r memory copied) :
    CompactKeeps s
      ⟨⟨copied.store (q - usizeBytes) (Memory.wordBytes base),
          Function.update (Function.update s.machine.heap (header s.machine.memory p) none) base
            (some ⟨h.number, usable⟩), s.machine.issued, s.machine.freed⟩,
        s.live.reallocated b (copied.store (q - usizeBytes) (Memory.wordBytes base)) p q newLen⟩
      (some p) := by
  have hTop := hPlaced.top
  have hBytes : usizeBytes = 4 := rfl
  obtain ⟨hBehind, hOffset, hAligned⟩ := slot_spec b.tag hTop hSize
  rw [← hQ] at hBehind hOffset hAligned
  have hNotNull := hPlaced.notNull
  have hHeader : header (copied.store (q - usizeBytes) (Memory.wordBytes base)) q = base :=
    header_store (by omega)
  refine c.reallocated hp (c.tidy.realloc hOwns.live hPlaced) hPlaced.fresh rfl
    (fun q' h' hq' => ?_) hHeader ⟨?_, ?_, ?_, ?_, ?_, hAligned⟩ ?_
  · have hApart := (hPlaced.apart q' h' hq').symm
    refine (hKept q' h' hq').trans ((hOutside _ (hApart.within ?_)).trans
      (Memory.agreeOn_store _ (hApart.within ?_)))
    · unfold Region.Within
      simp only
      omega
    · unfold Region.Within
      simp only [Memory.length_wordBytes]
      omega
  rotate_right
  · rw [← hMoved, ← hCopied]
    refine Memory.load_of_agreeOn (Memory.agreeOn_store _ (.inr ?_))
    simp only [Memory.length_wordBytes]
    omega
  all_goals dsimp only; rw [hHeader]
  · exact Function.update_self ..
  · exact hBehind
  · exact hOffset
  · omega
  · omega

theorem remap_ensures (c : CompactConsistent s) (hp : s.live p = some b) (newLen : Nat) :
    (CompactAllocator.remap p b.bytes.length b.tag newLen).Ensures Does (fun result t =>
      CompactKeeps s ⟨t, s.live.regrant b t.memory p result newLen⟩ (some p)) s.machine := by
  obtain ⟨h, hOwns⟩ := c.owns p b hp
  unfold CompactAllocator.remap
  split
  · exact ⟨c, .refl _ _⟩
  next total hTotal =>
  obtain ⟨rfl, hTotal⟩ := mathAdd_eq_some hTotal
  simp only [Program.ensures_bind, ensures_loadUsize, c.usizeSub_header hp, ensures_fxRealloc]
  rw [← header]
  intro answer t hRealloc
  cases hRealloc with
  | reallocFails _ _ _ memory hKept => exact c.refused hKept _
  | wildRealloc _ _ _ _ _ hWild =>
    rw [hOwns.live] at hWild
    cases hWild
  | realloc _ _ _ h' base usable memory hLive hSize hPlaced hKept hMoved =>
    rw [hOwns.live] at hLive
    cases hLive
    have hBehind := hOwns.behind
    have hOffset := hOwns.offset
    have hRoom := hOwns.room
    have hInside := hOwns.inside
    have hTop := c.tidy.top _ _ hOwns.live
    have hTop' := hPlaced.top
    have hUnit := unit_pos b.tag
    have hBytes : usizeBytes = 4 := rfl
    have hOld : usizeSub p (header s.machine.memory p) = p - header s.machine.memory p :=
      usizeSub_of_le (by omega) (by omega)
    have hData : usize (base + (p - header s.machine.memory p)) =
        base + (p - header s.machine.memory p) := usize_of_lt (by omega)
    -- The old bytes lie in the part of the block that realloc preserves.
    have hBytesMoved : memory.load (base + (p - header s.machine.memory p))
        (min newLen b.bytes.length) = s.machine.memory.load p (min newLen b.bytes.length) := by
      rw [Memory.load_eq_iff] at hMoved ⊢
      intro i hi
      have hByte := hMoved (p - header s.machine.memory p + i) (by omega)
      rw [← Nat.add_assoc, ← Nat.add_assoc, Nat.add_sub_cancel' (by omega)] at hByte
      exact hByte
    obtain ⟨hBehind', hOffset', -⟩ := slot_spec b.tag hTop' hSize
    obtain ⟨q, hQ⟩ : ∃ q, q = CompactAllocator.slot base b.tag := ⟨_, rfl⟩
    simp only [hOld, hData]
    rw [← hQ] at hBehind' hOffset' ⊢
    split
    · next hLow =>
      simp only [Program.ensures_bind, ensures_copyForwards, ensures_storeUsize,
        Program.ensures_pure, Nat.min_comm b.bytes.length]
      rw [usizeSub_of_le (by omega) (by omega)]
      exact c.remapped hp hOwns hSize hPlaced hKept hBytesMoved hQ
        (Memory.load_copyForwards memory _ hLow) fun r hr => Memory.agreeOn_copyForwards memory hr
    · next hHigh =>
      simp only [Program.ensures_bind, ensures_copyBackwards, ensures_storeUsize,
        Program.ensures_pure, Nat.min_comm b.bytes.length]
      rw [usizeSub_of_le (by omega) (by omega)]
      exact c.remapped hp hOwns hSize hPlaced hKept hBytesMoved hQ
        (Memory.load_copyBackwards memory _ (by omega)) fun r hr =>
          Memory.agreeOn_copyBackwards memory hr

/-- The owner of a live slice stores bytes in it. -/
theorem wrote (c : CompactConsistent s) (hp : s.live p = some b) {offset : Nat}
    {bytes : List UInt8} (hFits : offset + bytes.length ≤ b.bytes.length) :
    CompactKeeps s
      ⟨{ s.machine with memory := s.machine.memory.store (p + offset) bytes },
        s.live.wrote b p offset bytes⟩ (some p) := by
  have hHeader : ∀ q b', s.live q = some b' →
      header (s.machine.memory.store (p + offset) bytes) q = header s.machine.memory q := by
    intro q b' hq
    refine header_of_agreeOn (Memory.agreeOn_store _ ?_)
    obtain ⟨h, hOwns⟩ := c.owns p b hp
    have hBehind := hOwns.behind
    by_cases hne : q = p
    · subst hne
      refine .inl ?_
      simp only
      omega
    · refine (c.disjoint hq hp hne).mono ?_ ?_
      · unfold Region.Within
        simp only
        omega
      · unfold Region.Within
        simp only
        omega
  have hLive : ∀ q b', s.live.wrote b p offset bytes q = some b' →
      ∃ b'', s.live q = some b'' ∧ b''.bytes.length = b'.bytes.length ∧ b''.tag = b'.tag := by
    intro q b' hq
    rcases Ledger.wrote_eq_some hq with ⟨rfl, rfl⟩ | ⟨-, hq⟩
    · exact ⟨b, hp, (Block.length_written hFits).symm, rfl⟩
    · exact ⟨b', hq, rfl, rfl⟩
  refine ⟨⟨c.tidy, fun q b' hq => ?_, fun q b' q' b'' hq hq' hSame => ?_, fun base h hSome => ?_,
    c.sound.wrote hp hFits⟩, Ledger.keeps_wrote⟩
  · obtain ⟨b'', hOld, hLength, hTag⟩ := hLive q b' hq
    obtain ⟨h, hOwns⟩ := c.owns q b'' hOld
    rw [← hLength, ← hTag]
    refine ⟨h, ?_, ?_, ?_, ?_, ?_, hOwns.aligned⟩
    all_goals dsimp only; rw [hHeader q b'' hOld]
    · exact hOwns.live
    · exact hOwns.behind
    · exact hOwns.offset
    · exact hOwns.room
    · exact hOwns.inside
  · obtain ⟨d, hOld, -⟩ := hLive q b' hq
    obtain ⟨d', hOld', -⟩ := hLive q' b'' hq'
    dsimp only at hSame
    rw [hHeader q d hOld, hHeader q' d' hOld'] at hSame
    exact c.distinct q d q' d' hOld hOld' hSame
  · obtain ⟨q, b', hq, hBase⟩ := c.owned base h hSome
    have hOwner : ∃ b'', s.live.wrote b p offset bytes q = some b'' := by
      by_cases hne : q = p
      · subst hne
        exact ⟨_, Function.update_self ..⟩
      · exact ⟨b', Ledger.keeps_wrote q b' hq fun hSame => hne (Option.some.inj hSame).symm⟩
    obtain ⟨b'', hq'⟩ := hOwner
    exact ⟨q, b'', hq', (hHeader q b' hq).trans hBase⟩

theorem start (h : FreshCompact s) : CompactConsistent s := by
  obtain ⟨hHeap, hIssued, hFreed, hLive⟩ := h
  have hNone : s.live = fun _ => none := funext hLive
  constructor
  · rw [hFreed, hIssued]
    constructor <;> simp [hHeap]
  · simp [hLive]
  · simp [hLive]
  · simp [hHeap]
  · rw [hNone]
    exact .empty _

end CompactConsistent

/-- The live slice that a call is about. -/
def CompactCall.subject : CompactCall → Option Nat
  | .alloc _ _ _ => none
  | .resize address _ _ => some address
  | .remap address _ _ => some address
  | .free address => some address
  | .write address _ _ => some address

namespace CompactConsistent

variable {s s' : CompactState} {e : CompactCall}

theorem step (c : CompactConsistent s) (hStep : CompactStep s e s') :
    CompactKeeps s s' e.subject := by
  cases hStep with
  | alloc len alignment result t hRun => exact hRun.ensures (c.alloc_ensures len alignment)
  | resize address newLen b result t hLive hRun =>
    exact hRun.ensures (c.resize_ensures hLive newLen)
  | remap address newLen b result t hLive hRun => exact hRun.ensures (c.remap_ensures hLive newLen)
  | free address b t hLive hRun => exact hRun.ensures (c.free_ensures hLive)
  | write address offset b bytes hLive hFits => exact c.wrote hLive hFits

theorem reachable (h : compactSystem.Reachable s) : CompactConsistent s :=
  h.invariant (fun _ => start) fun _ _ _ c hStep => (c.step hStep).consistent

end CompactConsistent

/-- `free` gives back the block of its slice. -/
theorem free_freed {s : Machine} {p len : Nat} {alignment : Alignment} {h : HeapBlock}
    (hOwns : Owns s p len alignment h) (hHeader : usizeSub p usizeBytes = p - usizeBytes) :
    (CompactAllocator.free p).Ensures Does (fun _ t => t.freed = h.number :: s.freed) s := by
  unfold CompactAllocator.free
  simp only [Program.ensures_bind, ensures_loadUsize, hHeader, ensures_fxFree]
  rw [← header]
  intro _ t hFree
  cases hFree with
  | free _ _ h' memory hLive hKept =>
    rw [hOwns.live] at hLive
    cases hLive
    rfl
  | wildFree _ _ _ hWild =>
    rw [hOwns.live] at hWild
    cases hWild

/-- In every run each live slice is aligned and lies behind its header in a block of its own, holds
what its owner wrote, and no block is given back twice or while its slice is live. -/
theorem compact_keeps_slices {s : CompactState} (hReach : compactSystem.Reachable s) :
    (∀ p b, s.live p = some b → p % toByteUnits b.tag = 0 ∧
      ∃ h, s.machine.heap (header s.machine.memory p) = some h ∧
        header s.machine.memory p + usizeBytes ≤ p ∧
        p + b.bytes.length ≤ header s.machine.memory p + h.usable ∧
        h.number ∉ s.machine.freed) ∧
    (∀ p b q c, s.live p = some b → s.live q = some c → p ≠ q →
      Region.Disjoint ⟨p - usizeBytes, usizeBytes + b.bytes.length⟩
        ⟨q - usizeBytes, usizeBytes + c.bytes.length⟩) ∧
    s.live.Sound s.machine.memory ∧
    s.machine.freed.Nodup ∧
    (∀ n < s.machine.issued, n ∈ s.machine.freed ∨ ∃ p b h, s.live p = some b ∧
      s.machine.heap (header s.machine.memory p) = some h ∧ h.number = n) ∧
    ∀ e s', CompactStep s e s' →
      (∀ p b, s.live p = some b → e.subject ≠ some p →
        s'.live p = some b ∧ s'.machine.memory.load p b.bytes.length = b.bytes) ∧
      (∀ p newLen q b, (e = .remap p newLen (some q) ∨ e = .resize p newLen true ∧ q = p) →
        s.live p = some b →
        s'.machine.memory.load q (min newLen b.bytes.length) = b.bytes.take newLen) ∧
      (∀ p b h, e = .free p → s.live p = some b →
        s.machine.heap (header s.machine.memory p) = some h →
        s'.machine.freed = h.number :: s.machine.freed) := by
  have c := CompactConsistent.reachable hReach
  refine ⟨fun p b hp => ?_, fun p b q d hp hq => c.disjoint hp hq, c.sound, c.tidy.freed_nodup,
    fun n hn => ?_, fun e s' hStep => ⟨fun p b hp hOther => ?_, fun p newLen q b he hp => ?_,
      fun p b h he hp hBlock => ?_⟩⟩
  · obtain ⟨h, hOwns⟩ := c.owns p b hp
    exact ⟨hOwns.aligned, h, hOwns.live, hOwns.behind, hOwns.room,
      c.tidy.freed_gone _ _ hOwns.live⟩
  · rcases c.tidy.accounted n hn with hFreed | ⟨base, h, hBlock, hNumber⟩
    · exact .inl hFreed
    · obtain ⟨p, b, hp, rfl⟩ := c.owned base h hBlock
      exact .inr ⟨p, b, h, hp, hBlock, hNumber⟩
  · have hKeeps := c.step hStep
    have hSame := hKeeps.others p b hp hOther
    exact ⟨hSame, hKeeps.consistent.sound.held p b hSame⟩
  · have hSound := (c.step hStep).consistent.sound
    have hResized : s'.live q = some (b.resized s'.machine.memory q newLen) := by
      rcases he with rfl | ⟨rfl, rfl⟩
      · cases hStep with
        | remap _ _ b' _ t hLive =>
        rw [hp] at hLive
        cases hLive
        exact Function.update_self ..
      · cases hStep with
        | resize _ _ b' _ t hLive =>
        rw [hp] at hLive
        cases hLive
        exact Function.update_self ..
    exact hSound.held_resized hResized
  · subst he
    cases hStep with
    | free _ b' t hLive hRun =>
    obtain ⟨h', hOwns⟩ := c.owns p b hp
    have hSame : h' = h := Option.some.inj (hOwns.live.symm.trans hBlock)
    subst hSame
    exact hRun.ensures (free_freed hOwns (c.usizeSub_header hp))

/-- The C allocator may put a slice wherever it has room for the block. -/
theorem alloc_runs {m : Machine} {len base total : Nat} (usable : Nat) {address place : Nat}
    {alignment : Alignment}
    (hTotal : mathAdd len (CompactAllocator.unit alignment + usizeBytes) = some total)
    (hSize : total ≤ usable) (hPlaced : Placed m.heap base usable)
    (hSlot : CompactAllocator.slot base alignment = address)
    (hHeader : usizeSub address usizeBytes = place) :
    (CompactAllocator.alloc len alignment).Runs Does m (some address)
      ⟨m.memory.store place (Memory.wordBytes base), Function.update m.heap base
        (some ⟨m.issued, usable⟩), m.issued + 1, m.freed⟩ := by
  have hMalloc := Does.malloc m total base usable m.memory hSize hPlaced fun _ _ _ => .refl _ _
  subst hSlot hHeader
  unfold CompactAllocator.alloc
  rw [hTotal]
  exact .call (some base) hMalloc (.call () (.store _ _ base) (.ret _ _))

def emptyState : CompactState := ⟨⟨fun _ => 0, fun _ => none, 0, []⟩, fun _ => none⟩

/-- Eight bytes. -/
def pairAlignment : Alignment := ⟨3, by decide⟩

/-- The memory with the header of one slice. -/
def oneHeader : Memory := emptyState.machine.memory.store 1004 (Memory.wordBytes 1000)

/-- Ten bytes in a block at 1000. -/
def oneSlice : CompactState where
  machine := ⟨oneHeader, Function.update (fun _ => none) 1000 (some ⟨0, 32⟩), 1, []⟩
  live := emptyState.live.allocated oneHeader 1008 10 pairAlignment

/-- The ten bytes after a write to the first of them. -/
def markedBytes : Block Alignment := (Block.fresh oneHeader 1008 10 pairAlignment).written 0 [7]

def markedBlock : CompactState where
  machine := { oneSlice.machine with memory := oneHeader.store (1008 + 0) [7] }
  live := oneSlice.live.wrote (.fresh oneHeader 1008 10 pairAlignment) 1008 0 [7]

def twoHeaders : Memory := markedBlock.machine.memory.store 2000 (Memory.wordBytes 2000)

/-- Eight bytes more in a block at 2000. -/
def twoBlocks : CompactState where
  machine := ⟨twoHeaders, Function.update oneSlice.machine.heap 2000 (some ⟨1, 24⟩), 2, []⟩
  live := markedBlock.live.allocated twoHeaders 2004 8 usizeAlignment

/-- The memory when `fx_realloc` has moved the first block to 3004. -/
def reallocMemory : Memory := twoHeaders.store 3004 (twoHeaders.load 1000 32)

def moved : CompactState where
  machine := ⟨(reallocMemory.copyForwards 3008 3012 10).store 3004 (Memory.wordBytes 3004),
    Function.update (Function.update twoBlocks.machine.heap 1000 none) 3004 (some ⟨0, 64⟩), 2, []⟩
  live := twoBlocks.live.reallocated markedBytes
    ((reallocMemory.copyForwards 3008 3012 10).store 3004 (Memory.wordBytes 3004)) 1008 3008 40

theorem oneSlice_reachable : compactSystem.Reachable oneSlice := by
  have hStart : FreshCompact emptyState := ⟨fun _ => rfl, rfl, rfl, fun _ => rfl⟩
  have hPlaced : Placed emptyState.machine.heap 1000 32 :=
    ⟨by decide, rfl, by decide, fun q h hq => by cases hq⟩
  have hTotal : mathAdd 10 (CompactAllocator.unit pairAlignment + usizeBytes) = some 22 := by decide
  have hRun : (CompactAllocator.alloc 10 pairAlignment).Runs Does emptyState.machine (some 1008)
      oneSlice.machine := alloc_runs 32 hTotal (by decide) hPlaced (by decide) (by decide)
  exact (System.Reachable.start hStart).step (.alloc _ _ _ _ _ hRun)

theorem markedBytes_length : markedBytes.bytes.length = 10 := by
  have hFits : 0 + [(7 : UInt8)].length ≤
      (Block.fresh oneHeader 1008 10 pairAlignment).bytes.length := by
    rw [Block.length_fresh]
    decide
  exact (Block.length_written hFits).trans (Block.length_fresh ..)

theorem markedBlock_reachable : compactSystem.Reachable markedBlock := by
  have hLive : oneSlice.live 1008 = some (.fresh oneHeader 1008 10 pairAlignment) :=
    Ledger.allocated_self emptyState.live oneHeader 1008 10 pairAlignment
  exact oneSlice_reachable.step
    (.write oneSlice 1008 0 _ [7] hLive (by rw [Block.length_fresh]; decide))

/-- The only block. -/
theorem oneSlice_heap {q : Nat} {h : HeapBlock} (hq : oneSlice.machine.heap q = some h) :
    q = 1000 ∧ h = ⟨0, 32⟩ := by
  have hHeap : oneSlice.machine.heap = Function.update (fun _ => none) 1000 (some ⟨0, 32⟩) := rfl
  rw [hHeap] at hq
  by_cases hFirst : q = 1000
  · rw [hFirst, Function.update_self] at hq
    exact ⟨hFirst, (Option.some.inj hq).symm⟩
  · rw [Function.update_of_ne hFirst] at hq
    cases hq

theorem twoBlocks_reachable : compactSystem.Reachable twoBlocks := by
  have hPlaced : Placed markedBlock.machine.heap 2000 24 := by
    refine ⟨by decide, rfl, by decide, fun q h hq => ?_⟩
    obtain ⟨rfl, rfl⟩ := oneSlice_heap hq
    exact .inr (by decide)
  have hTotal : mathAdd 8 (CompactAllocator.unit usizeAlignment + usizeBytes) = some 16 := by decide
  have hRun : (CompactAllocator.alloc 8 usizeAlignment).Runs Does markedBlock.machine (some 2004)
      twoBlocks.machine := alloc_runs 24 hTotal (by decide) hPlaced (by decide) (by decide)
  exact markedBlock_reachable.step (.alloc _ _ _ _ _ hRun)

theorem twoBlocks_marked : twoBlocks.live 1008 = some markedBytes := by
  have hLive : twoBlocks.live = markedBlock.live.allocated twoHeaders 2004 8 usizeAlignment := rfl
  rw [hLive, Ledger.allocated_of_ne (by decide)]
  exact Ledger.wrote_self oneSlice.live _ 1008 0 [7]

/-- Besides the first block there is the second one. -/
theorem twoBlocks_others {q : Nat} {h : HeapBlock}
    (hq : Function.update twoBlocks.machine.heap 1000 none q = some h) : q = 2000 ∧ h = ⟨1, 24⟩ := by
  have hFirst : q ≠ 1000 := by
    rintro rfl
    rw [Function.update_self] at hq
    cases hq
  have hHeap : twoBlocks.machine.heap = Function.update oneSlice.machine.heap 2000 (some ⟨1, 24⟩) :=
    rfl
  rw [Function.update_of_ne hFirst, hHeap] at hq
  by_cases hSecond : q = 2000
  · rw [hSecond, Function.update_self] at hq
    exact ⟨hSecond, (Option.some.inj hq).symm⟩
  · rw [Function.update_of_ne hSecond] at hq
    exact absurd (oneSlice_heap hq).1 hFirst

/-- The block moves to an address of another remainder, so its ten bytes move within it. -/
theorem moved_step : CompactStep twoBlocks (.remap 1008 40 (some 3008)) moved := by
  have hTotal : mathAdd 40 (CompactAllocator.unit pairAlignment + usizeBytes) = some 52 := by decide
  have hPlaced : Placed (Function.update twoBlocks.machine.heap 1000 none) 3004 64 := by
    refine ⟨by decide, rfl, by decide, fun q h hq => ?_⟩
    obtain ⟨rfl, rfl⟩ := twoBlocks_others hq
    exact .inr (by decide)
  have hKept : KeepsBlocks (Function.update twoBlocks.machine.heap 1000 none) twoHeaders
      reallocMemory := by
    intro q h hq
    obtain ⟨rfl, rfl⟩ := twoBlocks_others hq
    refine Memory.agreeOn_store _ (.inl ?_)
    rw [Memory.length_load]
    decide
  have hMoved : reallocMemory.load 3004 32 = twoHeaders.load 1000 32 := by
    have hLoad := Memory.load_store twoHeaders 3004 (twoHeaders.load 1000 32)
    rwa [Memory.length_load] at hLoad
  have hWord : twoBlocks.machine.memory.word 1004 = 1000 := by decide
  have hHeader : Does twoBlocks.machine (.load 1004) (1000 : Nat) twoBlocks.machine := by
    have hLoad := Does.load twoBlocks.machine 1004
    rwa [hWord] at hLoad
  have hRealloc := Does.realloc twoBlocks.machine 1000 52 ⟨0, 32⟩ 3004 64 reallocMemory rfl
    (by decide) hPlaced hKept hMoved
  have hRun : (CompactAllocator.remap 1008 10 pairAlignment 40).Runs Does twoBlocks.machine
      (some 3008) moved.machine := by
    unfold CompactAllocator.remap
    rw [hTotal]
    refine .call (1000 : Nat) hHeader (.call (some 3004) hRealloc ?_)
    exact .call () (.copyForwards _ 3008 3012 10) (.call () (.store _ 3004 3004) (.ret _ _))
  exact .remap twoBlocks 1008 40 markedBytes (some 3008) moved.machine twoBlocks_marked
    (markedBytes_length.symm ▸ hRun)

theorem compact_keeps_slices_two :
    moved.live.Sound moved.machine.memory ∧ 3008 % toByteUnits pairAlignment = 0 ∧
      Region.Disjoint ⟨3004, 44⟩ ⟨2000, 12⟩ ∧
      moved.machine.memory.load 3008 10 = markedBytes.bytes := by
  obtain ⟨-, -, -, -, -, hSteps⟩ := compact_keeps_slices twoBlocks_reachable
  obtain ⟨-, hMoved, -⟩ := hSteps _ _ moved_step
  have hBytes := hMoved 1008 40 3008 markedBytes (.inl rfl) twoBlocks_marked
  rw [markedBytes_length, List.take_of_length_le (by rw [markedBytes_length]; decide)] at hBytes
  obtain ⟨hSlices, hApart, hSound, -⟩ := compact_keeps_slices (twoBlocks_reachable.step moved_step)
  have hLive : moved.live = twoBlocks.live.reallocated markedBytes moved.machine.memory 1008 3008 40 :=
    rfl
  have hFirst : moved.live 3008 = some (markedBytes.resized moved.machine.memory 3008 40) := by
    rw [hLive, Ledger.reallocated_self]
  have hSecond : moved.live 2004 = some (.fresh twoHeaders 2004 8 usizeAlignment) := by
    rw [hLive, Ledger.reallocated_of_ne (by decide) (by decide)]
    exact Ledger.allocated_self markedBlock.live twoHeaders 2004 8 usizeAlignment
  have hDisjoint := hApart 3008 _ 2004 _ hFirst hSecond (by decide)
  rw [Block.length_resized, Block.length_fresh] at hDisjoint
  exact ⟨hSound, (hSlices 3008 _ hFirst).1, hDisjoint, hBytes⟩

end Esp32Fx.Guest
