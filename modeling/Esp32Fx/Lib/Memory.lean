import Mathlib.Data.List.Basic
import Mathlib.Data.Nat.Basic

/-! A flat memory of bytes: ranges of addresses, loads and stores of whole ranges, the ranges that
a store leaves alone, and the two byte-by-byte copies between ranges that may overlap. -/

namespace Esp32Fx.Lib

/-- The addresses from `start` up to, and not including, `start + size`. -/
structure Region where
  start : Nat
  size : Nat
  deriving DecidableEq, Repr

namespace Region

/-- No address is in both regions. -/
def Disjoint (r s : Region) : Prop :=
  r.start + r.size ≤ s.start ∨ s.start + s.size ≤ r.start

/-- Every address of `r` is one of `s`. -/
def Within (r s : Region) : Prop :=
  s.start ≤ r.start ∧ r.start + r.size ≤ s.start + s.size

instance (r s : Region) : Decidable (r.Disjoint s) := by
  unfold Disjoint; infer_instance

instance (r s : Region) : Decidable (r.Within s) := by
  unfold Within; infer_instance

theorem Disjoint.symm {r s : Region} (h : r.Disjoint s) : s.Disjoint r := Or.symm h

theorem Disjoint.within {r s t : Region} (h : r.Disjoint s) (ht : t.Within s) : r.Disjoint t := by
  unfold Disjoint Within at *
  omega

theorem Disjoint.mono {r s r' s' : Region} (h : r.Disjoint s) (hr : r'.Within r)
    (hs : s'.Within s) : r'.Disjoint s' := (h.within hs).symm.within hr |>.symm

theorem Within.trans {r s t : Region} (h : r.Within s) (ht : s.Within t) : r.Within t := by
  unfold Within at *
  omega

/-- Nonempty disjoint regions start at different addresses. -/
theorem Disjoint.start_ne {r s : Region} (h : r.Disjoint s) (hr : 0 < r.size) (hs : 0 < s.size) :
    r.start ≠ s.start := by
  unfold Disjoint at h
  omega

end Region

/-- A memory of bytes, by address. -/
abbrev Memory := Nat → UInt8

namespace Memory

/-- The `n` bytes from `a` on. -/
def load (m : Memory) (a n : Nat) : List UInt8 := (List.range n).map fun i => m (a + i)

/-- `m` with the bytes `bs` stored from `a` on. -/
def store (m : Memory) (a : Nat) (bs : List UInt8) : Memory :=
  fun x => if a ≤ x then (bs[x - a]?).getD (m x) else m x

/-- `m'` has the bytes of `m` at every address of `r`. -/
def AgreeOn (r : Region) (m m' : Memory) : Prop :=
  ∀ x, r.start ≤ x → x < r.start + r.size → m' x = m x

theorem AgreeOn.refl (r : Region) (m : Memory) : AgreeOn r m m := fun _ _ _ => rfl

theorem AgreeOn.trans {r : Region} {m m' m'' : Memory} (h : AgreeOn r m m')
    (h' : AgreeOn r m' m'') : AgreeOn r m m'' :=
  fun x hx hx' => (h' x hx hx').trans (h x hx hx')

theorem AgreeOn.within {r s : Region} {m m' : Memory} (h : AgreeOn s m m') (hr : r.Within s) :
    AgreeOn r m m' := by
  intro x hx hx'
  unfold Region.Within at hr
  exact h x (by omega) (by omega)

/-! ### Loads and stores -/

@[simp] theorem length_load (m : Memory) (a n : Nat) : (m.load a n).length = n := by
  simp [load]

@[simp] theorem load_zero (m : Memory) (a : Nat) : m.load a 0 = [] := rfl

theorem getElem?_load (m : Memory) (a : Nat) {n i : Nat} (hi : i < n) :
    (m.load a n)[i]? = some (m (a + i)) := by
  simp [load, hi]

/-- Two loads are equal when the bytes they read are. -/
theorem load_congr {m m' : Memory} {a a' n : Nat} (h : ∀ i < n, m' (a' + i) = m (a + i)) :
    m'.load a' n = m.load a n := by
  simp only [load]
  exact List.map_congr_left fun i hi => h i (List.mem_range.mp hi)

theorem load_eq_iff {m m' : Memory} {a a' n : Nat} :
    m'.load a' n = m.load a n ↔ ∀ i < n, m' (a' + i) = m (a + i) := by
  refine ⟨fun h i hi => ?_, load_congr⟩
  have hget := congrArg (·[i]?) h
  simpa [getElem?_load _ _ hi] using hget

theorem load_of_agreeOn {m m' : Memory} {a n : Nat} (h : AgreeOn ⟨a, n⟩ m m') :
    m'.load a n = m.load a n :=
  load_congr fun i hi => h (a + i) (by simp) (by simp only; omega)

theorem load_add (m : Memory) (a n k : Nat) : m.load a (n + k) = m.load a n ++ m.load (a + n) k := by
  simp [load, List.range_add, Nat.add_assoc]

theorem take_load (m : Memory) (a : Nat) {n k : Nat} (h : k ≤ n) :
    (m.load a n).take k = m.load a k := by
  obtain ⟨d, rfl⟩ := Nat.exists_eq_add_of_le h
  rw [load_add, List.take_left' (by simp)]

theorem store_outside (m : Memory) {a x : Nat} {bs : List UInt8}
    (h : x < a ∨ a + bs.length ≤ x) : m.store a bs x = m x := by
  simp only [store]
  split
  · rw [List.getElem?_eq_none (by omega), Option.getD_none]
  · rfl

theorem store_inside (m : Memory) {a i : Nat} {bs : List UInt8} (h : i < bs.length) :
    m.store a bs (a + i) = bs[i] := by
  simp [store, List.getElem?_eq_getElem h]

/-- A store changes nothing in a region that it does not reach. -/
theorem agreeOn_store (m : Memory) {a : Nat} {bs : List UInt8} {r : Region}
    (h : r.Disjoint ⟨a, bs.length⟩) : AgreeOn r m (m.store a bs) := by
  intro x hx hx'
  unfold Region.Disjoint at h
  exact store_outside m (by simp only at h; omega)

/-- A range that was just stored holds what was stored. -/
theorem load_store (m : Memory) (a : Nat) (bs : List UInt8) :
    (m.store a bs).load a bs.length = bs := by
  apply List.ext_getElem (by simp)
  intro i h₁ h₂
  simp only [load, List.getElem_map, List.getElem_range]
  exact store_inside m h₂

@[simp] theorem store_nil (m : Memory) (a : Nat) : m.store a [] = m := by
  funext x
  exact store_outside m (by simp only [List.length_nil]; omega)

/-- A range that was filled with one byte. -/
theorem load_replicate (m : Memory) (a n : Nat) (b : UInt8) :
    (m.store a (List.replicate n b)).load a n = List.replicate n b := by
  have hLoad := m.load_store a (List.replicate n b)
  rwa [List.length_replicate] at hLoad

/-- A range of `used` bytes that is cut to `size` bytes, or filled up to them. -/
theorem load_filled (m : Memory) (a used size : Nat) (b : UInt8) :
    (m.store (a + used) (List.replicate (size - used) b)).load a size =
      (m.load a used).take size ++ List.replicate (size - used) b := by
  have hOld : ∀ n ≤ used,
      (m.store (a + used) (List.replicate (size - used) b)).load a n = m.load a n := by
    intro n hn
    refine load_of_agreeOn (agreeOn_store m ?_)
    unfold Region.Disjoint
    simp only
    omega
  by_cases hGrows : used ≤ size
  · obtain ⟨more, rfl⟩ := Nat.exists_eq_add_of_le hGrows
    rw [Nat.add_sub_cancel_left] at hOld ⊢
    rw [load_add, hOld used (Nat.le_refl _), load_replicate,
      List.take_of_length_le (by rw [length_load]; omega)]
  · rw [hOld size (by omega), take_load _ _ (by omega), Nat.sub_eq_zero_of_le (by omega),
      List.replicate_zero, List.append_nil]

/-! ### Words -/

/-- The little-endian word of four bytes at `a`. -/
def word (m : Memory) (a : Nat) : Nat :=
  (m a).toNat + (m (a + 1)).toNat * 0x100 + (m (a + 2)).toNat * 0x10000 +
    (m (a + 3)).toNat * 0x1000000

def wordBytes (w : Nat) : List UInt8 :=
  [UInt8.ofNat w, UInt8.ofNat (w / 0x100), UInt8.ofNat (w / 0x10000), UInt8.ofNat (w / 0x1000000)]

@[simp] theorem length_wordBytes (w : Nat) : (wordBytes w).length = 4 := rfl

theorem word_of_agreeOn {m m' : Memory} {a : Nat} (h : AgreeOn ⟨a, 4⟩ m m') :
    m'.word a = m.word a := by
  have hByte : ∀ i < 4, m' (a + i) = m (a + i) := fun i hi => h (a + i) (by simp) (by simp only; omega)
  rw [word, word, hByte 1 (by omega), hByte 2 (by omega), hByte 3 (by omega), h a (by simp) (by simp)]

/-- A word that was just stored. -/
theorem word_store (m : Memory) (a : Nat) {w : Nat} (h : w < 0x100000000) :
    (m.store a (wordBytes w)).word a = w := by
  have hByte := fun i (hi : i < (wordBytes w).length) => store_inside m (a := a) hi
  have h₀ := hByte 0 (by simp)
  have h₁ := hByte 1 (by simp)
  have h₂ := hByte 2 (by simp)
  have h₃ := hByte 3 (by simp)
  simp only [wordBytes, List.getElem_cons_zero, List.getElem_cons_succ, Nat.add_zero] at h₀ h₁ h₂ h₃
  rw [word, wordBytes, h₀, h₁, h₂, h₃]
  simp only [UInt8.toNat_ofNat']
  omega

/-! ### Byte-by-byte copies -/

/-- The first `n` rounds of a loop that copies byte `i` from `src` to `dst`, lowest byte first. -/
def copyForwards (m : Memory) (dst src : Nat) : Nat → Memory
  | 0 => m
  | n + 1 =>
    let before := copyForwards m dst src n
    before.store (dst + n) [before (src + n)]

/-- A loop that copies `n` bytes from `src` to `dst`, highest byte first. -/
def copyBackwards (m : Memory) (dst src : Nat) : Nat → Memory
  | 0 => m
  | n + 1 => copyBackwards (m.store (dst + n) [m (src + n)]) dst src n

theorem copyForwards_outside (m : Memory) {dst src n x : Nat} (h : x < dst ∨ dst + n ≤ x) :
    copyForwards m dst src n x = m x := by
  induction n with
  | zero => rfl
  | succ n ih =>
    rw [copyForwards, store_outside _ (by simp only [List.length_singleton]; omega)]
    exact ih (by omega)

theorem copyBackwards_outside (m : Memory) {dst src n x : Nat} (h : x < dst ∨ dst + n ≤ x) :
    copyBackwards m dst src n x = m x := by
  induction n generalizing m with
  | zero => rfl
  | succ n ih =>
    rw [copyBackwards, ih _ (by omega),
      store_outside _ (by simp only [List.length_singleton]; omega)]

theorem store_singleton (m : Memory) (a : Nat) (b : UInt8) : m.store a [b] a = b := by
  simp [store]

/-- Lowest byte first is right when the target does not start inside the source: round `n` reads a
byte that no earlier round has written. -/
theorem copyForwards_get (m : Memory) {dst src n : Nat} (h : dst ≤ src ∨ src + n ≤ dst) :
    ∀ i < n, copyForwards m dst src n (dst + i) = m (src + i) := by
  induction n with
  | zero => intro i hi; omega
  | succ n ih =>
    intro i hi
    rw [copyForwards]
    by_cases hin : i = n
    · subst hin
      rw [store_singleton, copyForwards_outside _ (by omega)]
    · rw [store_outside _ (by simp only [List.length_singleton]; omega)]
      exact ih (by omega) i (by omega)

/-- Highest byte first is right when the target does not start below the source. -/
theorem copyBackwards_get (m : Memory) {dst src n : Nat} (h : src ≤ dst) :
    ∀ i < n, copyBackwards m dst src n (dst + i) = m (src + i) := by
  induction n generalizing m with
  | zero => intro i hi; omega
  | succ n ih =>
    intro i hi
    rw [copyBackwards]
    by_cases hin : i = n
    · subst hin
      rw [copyBackwards_outside _ (by omega), store_singleton]
    · rw [ih _ i (by omega), store_outside _ (by simp only [List.length_singleton]; omega)]

theorem load_copyForwards (m : Memory) {dst src : Nat} (n : Nat) (h : dst ≤ src) :
    (m.copyForwards dst src n).load dst n = m.load src n :=
  load_congr (copyForwards_get m (.inl h))

theorem load_copyBackwards (m : Memory) {dst src : Nat} (n : Nat) (h : src ≤ dst) :
    (m.copyBackwards dst src n).load dst n = m.load src n :=
  load_congr (copyBackwards_get m h)

/-- A copy changes nothing in a region that its target does not reach. -/
theorem agreeOn_copyForwards (m : Memory) {dst src n : Nat} {r : Region}
    (h : r.Disjoint ⟨dst, n⟩) : AgreeOn r m (m.copyForwards dst src n) := by
  intro x hx hx'
  unfold Region.Disjoint at h
  exact copyForwards_outside m (by simp only at h; omega)

theorem agreeOn_copyBackwards (m : Memory) {dst src n : Nat} {r : Region}
    (h : r.Disjoint ⟨dst, n⟩) : AgreeOn r m (m.copyBackwards dst src n) := by
  intro x hx hx'
  unfold Region.Disjoint at h
  exact copyBackwards_outside m (by simp only at h; omega)

end Memory

end Esp32Fx.Lib
