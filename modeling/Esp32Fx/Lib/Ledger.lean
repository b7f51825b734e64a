import Mathlib.Logic.Function.Basic
import Esp32Fx.Lib.Memory

/-! The ledger of an allocator's client: the live blocks by address, with the bytes that each must
hold.  A client changes its ledger on its own calls and writes: `allocated`, `reallocated`, `freed`
and `wrote`.  `Sound` says that the memory agrees with the ledger and that no two live blocks
overlap, and there is a rule for each change. -/

namespace Esp32Fx.Lib

/-- A live block as its owner knows it: the bytes that it must hold, and a tag. -/
structure Block (τ : Type*) where
  bytes : List UInt8
  tag : τ

/-- The live blocks, by address. -/
abbrev Ledger (τ : Type*) := Nat → Option (Block τ)

namespace Block

variable {τ : Type*}

/-- The addresses of a block that starts at `a`. -/
def region (b : Block τ) (a : Nat) : Region := ⟨a, b.bytes.length⟩

@[simp] theorem region_start (b : Block τ) (a : Nat) : (b.region a).start = a := rfl

@[simp] theorem region_size (b : Block τ) (a : Nat) : (b.region a).size = b.bytes.length := rfl

/-- A block of `n` bytes at `a` with the bytes that `m` happens to hold there. -/
def fresh (m : Memory) (a n : Nat) (tag : τ) : Block τ := ⟨m.load a n, tag⟩

@[simp] theorem length_fresh (m : Memory) (a n : Nat) (tag : τ) :
    (fresh m a n tag).bytes.length = n := by
  simp [fresh]

/-- A block resized to `n` bytes and now at `a`: its owner still expects the bytes that fit, and
takes the rest as `m` has them. -/
def resized (b : Block τ) (m : Memory) (a n : Nat) : Block τ :=
  ⟨b.bytes.take n ++ m.load (a + min n b.bytes.length) (n - b.bytes.length), b.tag⟩

@[simp] theorem length_resized (b : Block τ) (m : Memory) (a n : Nat) :
    (b.resized m a n).bytes.length = n := by
  simp only [resized, List.length_append, List.length_take, Memory.length_load]
  omega

@[simp] theorem tag_resized (b : Block τ) (m : Memory) (a n : Nat) : (b.resized m a n).tag = b.tag :=
  rfl

/-- The bytes that a resize preserves. -/
theorem take_resized (b : Block τ) (m : Memory) (a n : Nat) :
    (b.resized m a n).bytes.take (min n b.bytes.length) = b.bytes.take n := by
  rw [resized, List.take_left' (by simp)]

theorem load_resized {b : Block τ} {m : Memory} {a n : Nat}
    (h : m.load a (min n b.bytes.length) = b.bytes.take n) :
    m.load a n = (b.resized m a n).bytes := by
  rw [resized, ← h, ← Memory.load_add]
  congr 1
  omega

/-- A block after its owner stores `bs` in it, `offset` bytes from its start. -/
def written (b : Block τ) (offset : Nat) (bs : List UInt8) : Block τ :=
  ⟨b.bytes.take offset ++ bs ++ b.bytes.drop (offset + bs.length), b.tag⟩

theorem length_written {b : Block τ} {offset : Nat} {bs : List UInt8}
    (h : offset + bs.length ≤ b.bytes.length) :
    (b.written offset bs).bytes.length = b.bytes.length := by
  simp only [written, List.length_append, List.length_take, List.length_drop]
  omega

theorem load_written {b : Block τ} {m : Memory} {a offset : Nat} {bs : List UInt8}
    (hHeld : m.load a b.bytes.length = b.bytes) (h : offset + bs.length ≤ b.bytes.length) :
    (m.store (a + offset) bs).load a b.bytes.length = (b.written offset bs).bytes := by
  obtain ⟨rest, hRest⟩ : ∃ rest, b.bytes.length = offset + bs.length + rest :=
    ⟨b.bytes.length - (offset + bs.length), by omega⟩
  have hBefore : b.bytes.take offset = m.load a offset := by
    rw [← hHeld, Memory.take_load _ _ (by omega)]
  have hAfter : b.bytes.drop (offset + bs.length) = m.load (a + (offset + bs.length)) rest := by
    rw [← hHeld, hRest, Memory.load_add, List.drop_left' (by simp)]
  rw [written, hBefore, hAfter, hRest, Memory.load_add, Memory.load_add, Memory.load_store]
  rw [Memory.load_of_agreeOn (Memory.agreeOn_store m _),
    Memory.load_of_agreeOn (Memory.agreeOn_store m _)]
  · unfold Region.Disjoint; simp only; omega
  · unfold Region.Disjoint; simp only; omega

end Block

namespace Ledger

variable {τ : Type*} {live : Ledger τ} {m m' : Memory} {a : Nat} {b : Block τ}

/-- The memory holds the bytes of every live block, and no two live blocks overlap. -/
structure Sound (live : Ledger τ) (m : Memory) : Prop where
  held : ∀ a b, live a = some b → m.load a b.bytes.length = b.bytes
  apart : ∀ a b a' b', live a = some b → live a' = some b' → a ≠ a' →
    (b.region a).Disjoint (b'.region a')

theorem Sound.empty (m : Memory) : Sound (fun _ => none : Ledger τ) m where
  held _ _ h := by simp at h
  apart _ _ _ _ h := by simp at h

/-- A step that leaves the bytes of every live block alone. -/
theorem Sound.agree (h : Sound live m)
    (hAgree : ∀ a b, live a = some b → Memory.AgreeOn (b.region a) m m') : Sound live m' where
  held a b hb := (Memory.load_of_agreeOn (hAgree a b hb)).trans (h.held a b hb)
  apart := h.apart

/-- A new entry at `a`, or a new one in place of the entry that was there. -/
theorem Sound.update (h : Sound live m) (hHeld : m.load a b.bytes.length = b.bytes)
    (hApart : ∀ a' b', a' ≠ a → live a' = some b' → (b.region a).Disjoint (b'.region a')) :
    Sound (Function.update live a (some b)) m where
  held a' b' hb' := by
    by_cases ha : a' = a
    · subst ha
      rw [Function.update_self] at hb'
      cases hb'
      exact hHeld
    · rw [Function.update_of_ne ha] at hb'
      exact h.held a' b' hb'
  apart a₁ b₁ a₂ b₂ h₁ h₂ hne := by
    by_cases ha₁ : a₁ = a
    · subst ha₁
      rw [Function.update_self] at h₁
      rw [Function.update_of_ne hne.symm] at h₂
      cases h₁
      exact hApart a₂ b₂ hne.symm h₂
    · rw [Function.update_of_ne ha₁] at h₁
      by_cases ha₂ : a₂ = a
      · subst ha₂
        rw [Function.update_self] at h₂
        cases h₂
        exact (hApart a₁ b₁ hne h₁).symm
      · rw [Function.update_of_ne ha₂] at h₂
        exact h.apart a₁ b₁ a₂ b₂ h₁ h₂ hne

/-- The entry at `a` is dropped. -/
theorem Sound.erase (h : Sound live m) (a : Nat) : Sound (Function.update live a none) m where
  held a' b' hb' := by
    by_cases ha : a' = a
    · subst ha
      simp at hb'
    · rw [Function.update_of_ne ha] at hb'
      exact h.held a' b' hb'
  apart a₁ b₁ a₂ b₂ h₁ h₂ hne := by
    have hmem : ∀ x c, Function.update live a none x = some c → live x = some c := by
      intro x c hx
      by_cases hxa : x = a
      · subst hxa
        simp at hx
      · rwa [Function.update_of_ne hxa] at hx
    exact h.apart a₁ b₁ a₂ b₂ (hmem _ _ h₁) (hmem _ _ h₂) hne

/-! ### The client's calls -/

/-- A block of `n` bytes at `a`, as `m` has them. -/
def allocated (live : Ledger τ) (m : Memory) (a n : Nat) (tag : τ) : Ledger τ :=
  Function.update live a (some (.fresh m a n tag))

def freed (live : Ledger τ) (a : Nat) : Ledger τ := Function.update live a none

/-- The block `b` at `a` now has `n` bytes at `a'`. -/
def reallocated (live : Ledger τ) (b : Block τ) (m : Memory) (a a' n : Nat) : Ledger τ :=
  Function.update (live.freed a) a' (some (b.resized m a' n))

/-- The ledger after an allocation that returns `result`. -/
def grant (live : Ledger τ) (m : Memory) (result : Option Nat) (n : Nat) (tag : τ) : Ledger τ :=
  match result with
  | none => live
  | some a => live.allocated m a n tag

/-- The ledger after a reallocation of the block `b` at `a` that returns `result`. -/
def regrant (live : Ledger τ) (b : Block τ) (m : Memory) (a : Nat) (result : Option Nat) (n : Nat) :
    Ledger τ :=
  match result with
  | none => live
  | some a' => live.reallocated b m a a' n

/-- The owner of the block `b` at `a` stores `bs` in it. -/
def wrote (live : Ledger τ) (b : Block τ) (a offset : Nat) (bs : List UInt8) : Ledger τ :=
  Function.update live a (some (b.written offset bs))

theorem freed_of_ne {live : Ledger τ} {a a' : Nat} (h : a' ≠ a) : live.freed a a' = live a' :=
  Function.update_of_ne h _ _

@[simp] theorem freed_self (live : Ledger τ) (a : Nat) : live.freed a a = none :=
  Function.update_self ..

theorem freed_eq_some {a' : Nat} {b' : Block τ} (h : live.freed a a' = some b') :
    a' ≠ a ∧ live a' = some b' := by
  have hne : a' ≠ a := by
    rintro rfl
    simp at h
  exact ⟨hne, by rwa [freed_of_ne hne] at h⟩

@[simp] theorem allocated_self (live : Ledger τ) (m : Memory) (a n : Nat) (tag : τ) :
    live.allocated m a n tag a = some (.fresh m a n tag) := Function.update_self ..

@[simp] theorem reallocated_self (live : Ledger τ) (b : Block τ) (m : Memory) (a a' n : Nat) :
    live.reallocated b m a a' n a' = some (b.resized m a' n) := Function.update_self ..

theorem allocated_of_ne {live : Ledger τ} {m : Memory} {a a' n : Nat} {tag : τ} (h : a' ≠ a) :
    live.allocated m a n tag a' = live a' := Function.update_of_ne h _ _

theorem reallocated_of_ne {live : Ledger τ} {m : Memory} {a a' a₁ n : Nat} (h : a' ≠ a)
    (h₁ : a' ≠ a₁) : live.reallocated b m a a₁ n a' = live a' :=
  (Function.update_of_ne h₁ _ _).trans (freed_of_ne h)

theorem wrote_self (live : Ledger τ) (b : Block τ) (a offset : Nat) (bs : List UInt8) :
    live.wrote b a offset bs a = some (b.written offset bs) := Function.update_self ..

theorem allocated_eq_some {a a' n : Nat} {tag : τ} {b' : Block τ}
    (h : live.allocated m a n tag a' = some b') :
    a' = a ∧ b' = .fresh m a n tag ∨ a' ≠ a ∧ live a' = some b' := by
  by_cases hne : a' = a
  · subst hne
    rw [allocated_self] at h
    exact .inl ⟨rfl, (Option.some.inj h).symm⟩
  · rw [allocated_of_ne hne] at h
    exact .inr ⟨hne, h⟩

theorem reallocated_eq_some {a a' a₁ n : Nat} {b' : Block τ}
    (h : live.reallocated b m a a₁ n a' = some b') :
    a' = a₁ ∧ b' = b.resized m a₁ n ∨ a' ≠ a₁ ∧ a' ≠ a ∧ live a' = some b' := by
  by_cases hne : a' = a₁
  · subst hne
    rw [reallocated_self] at h
    exact .inl ⟨rfl, (Option.some.inj h).symm⟩
  · rw [Ledger.reallocated, Function.update_of_ne hne] at h
    exact .inr ⟨hne, freed_eq_some h⟩

theorem wrote_eq_some {a a' offset : Nat} {bs : List UInt8} {b' : Block τ}
    (h : live.wrote b a offset bs a' = some b') :
    a' = a ∧ b' = b.written offset bs ∨ a' ≠ a ∧ live a' = some b' := by
  by_cases hne : a' = a
  · subst hne
    rw [wrote_self] at h
    exact .inl ⟨rfl, (Option.some.inj h).symm⟩
  · rw [Ledger.wrote, Function.update_of_ne hne] at h
    exact .inr ⟨hne, h⟩

/-- Every live block stays live as it is, other than the one at `subject`. -/
def Keeps (live live' : Ledger τ) (subject : Option Nat) : Prop :=
  ∀ a b, live a = some b → subject ≠ some a → live' a = some b

theorem Keeps.refl (live : Ledger τ) (subject : Option Nat) : live.Keeps live subject :=
  fun _ _ hb _ => hb

theorem keeps_allocated {n : Nat} {tag : τ} (h : live a = none) :
    live.Keeps (live.allocated m a n tag) none := by
  intro a' b' hb' _
  have hne : a' ≠ a := by
    rintro rfl
    rw [h] at hb'
    cases hb'
  rw [allocated_of_ne hne, hb']

theorem keeps_freed (live : Ledger τ) (a : Nat) : live.Keeps (live.freed a) (some a) := by
  intro a' b' hb' hOther
  rw [freed_of_ne fun hSame => hOther (by rw [hSame]), hb']

theorem keeps_reallocated {a₁ n : Nat} (h : ∀ b', live a₁ = some b' → a₁ = a) :
    live.Keeps (live.reallocated b m a a₁ n) (some a) := by
  intro a' b' hb' hOther
  have hne : a' ≠ a := fun hSame => hOther (by rw [hSame])
  have hne₁ : a' ≠ a₁ := by
    rintro rfl
    exact hne (h b' hb')
  rw [reallocated_of_ne hne hne₁, hb']

theorem keeps_wrote {offset : Nat} {bs : List UInt8} :
    live.Keeps (live.wrote b a offset bs) (some a) := by
  intro a' b' hb' hOther
  rw [Ledger.wrote, Function.update_of_ne (fun hSame => hOther (by rw [hSame])), hb']

/-- A block that is apart from the live ones joins them. -/
theorem Sound.allocated (h : Sound live m)
    (hAgree : ∀ a b, live a = some b → Memory.AgreeOn (b.region a) m m') {n : Nat} {tag : τ}
    (hApart : ∀ a' b', live a' = some b' → Region.Disjoint ⟨a, n⟩ (b'.region a')) :
    Sound (live.allocated m' a n tag) m' := by
  refine (h.agree hAgree).update ?_ fun a' b' _ hb' => ?_
  · rw [Block.length_fresh, Block.fresh]
  · simpa only [Block.region, Block.length_fresh] using hApart a' b' hb'

/-- A live block goes. -/
theorem Sound.freed (h : Sound live m)
    (hAgree : ∀ a' b', a' ≠ a → live a' = some b' → Memory.AgreeOn (b'.region a') m m') :
    Sound (live.freed a) m' := by
  refine (h.erase a).agree fun a' b' hb' => ?_
  obtain ⟨hne, hLive⟩ := freed_eq_some hb'
  exact hAgree a' b' hne hLive

/-- A live block moves, or is resized where it is. -/
theorem Sound.reallocated (h : Sound live m) (hb : live a = some b)
    (hAgree : ∀ a' b', a' ≠ a → live a' = some b' → Memory.AgreeOn (b'.region a') m m')
    {a₁ n : Nat}
    (hApart : ∀ a' b', a' ≠ a → live a' = some b' → Region.Disjoint ⟨a₁, n⟩ (b'.region a'))
    (hKept : m'.load a₁ (min n b.bytes.length) = m.load a (min n b.bytes.length)) :
    Sound (live.reallocated b m' a a₁ n) m' := by
  refine (h.freed hAgree).update ?_ fun a' b' _ hb' => ?_
  · rw [Block.length_resized]
    refine Block.load_resized ?_
    have hTake : b.bytes.take (min n b.bytes.length) = b.bytes.take n := by
      rcases Nat.le_total n b.bytes.length with hle | hle
      · rw [Nat.min_eq_left hle]
      · rw [Nat.min_eq_right hle, List.take_length, List.take_of_length_le hle]
    rw [hKept, ← Memory.take_load m a (Nat.min_le_right n b.bytes.length), h.held a b hb, hTake]
  · obtain ⟨hne, hLive⟩ := freed_eq_some hb'
    simpa only [Block.region, Block.length_resized] using hApart a' b' hne hLive

/-- A resized block has the bytes that fit. -/
theorem Sound.held_resized (h : Sound live m) {n : Nat} (hb : live a = some (b.resized m' a n)) :
    m.load a (min n b.bytes.length) = b.bytes.take n := by
  have hHeld := h.held a _ hb
  rw [Block.length_resized] at hHeld
  rw [← Memory.take_load m a (Nat.min_le_left n b.bytes.length), hHeld, Block.take_resized]

/-- The owner of the block at `a` stores `bs` in it. -/
theorem Sound.wrote (h : Sound live m) (hb : live a = some b) {offset : Nat} {bs : List UInt8}
    (hFits : offset + bs.length ≤ b.bytes.length) :
    Sound (live.wrote b a offset bs) (m.store (a + offset) bs) := by
  have hReach : Region.Within ⟨a + offset, bs.length⟩ (b.region a) := by
    unfold Region.Within
    simp only [Block.region_start, Block.region_size]
    omega
  have hOthers : Sound (Function.update live a none) (m.store (a + offset) bs) := by
    refine (h.erase a).agree fun a' b' hb' => Memory.agreeOn_store m ?_
    have hne : a' ≠ a := by
      rintro rfl
      simp at hb'
    rw [Function.update_of_ne hne] at hb'
    exact (h.apart a' b' a b hb' hb hne).within hReach
  have hTwice : live.wrote b a offset bs =
      Function.update (Function.update live a none) a (some (b.written offset bs)) :=
    (Function.update_idem ..).symm
  rw [hTwice]
  refine hOthers.update ?_ fun a' b' hne hb' => ?_
  · rw [Block.length_written hFits]
    exact Block.load_written (h.held a b hb) hFits
  · rw [Function.update_of_ne hne] at hb'
    have hApart := h.apart a b a' b' hb hb' hne.symm
    simpa only [Block.region, Block.length_written hFits] using hApart

end Ledger

end Esp32Fx.Lib
