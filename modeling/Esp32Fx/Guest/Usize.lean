import Mathlib.Algebra.Group.Nat.Defs
import Mathlib.Data.Nat.Basic

/-! The `usize` of the guest, of 32 bits, and the alignments of its allocators. -/

namespace Esp32Fx.Guest

/-- `@sizeOf(usize)`, which is its alignment as well. -/
def usizeBytes : Nat := 4

/-- A `usize`. -/
def usize (n : Nat) : Nat := n % 0x100000000

/-- A difference of `usize`s. -/
def usizeSub (a b : Nat) : Nat := usize (a + 0x100000000 - b)

/-- `std.math.add` on `usize`s: none on overflow. -/
def mathAdd (a b : Nat) : Option Nat := if a + b < 0x100000000 then some (a + b) else none

/-- `std.mem.Alignment`: the exponent of a power of two. -/
abbrev Alignment := Fin 32

/-- `toByteUnits`. -/
def toByteUnits (alignment : Alignment) : Nat := 2 ^ alignment.val

/-- `.of(usize)`. -/
def usizeAlignment : Alignment := 2

example : toByteUnits usizeAlignment = usizeBytes := by decide

/-- `std.mem.alignForward`. -/
def alignForward (address alignment : Nat) : Nat :=
  usize (address + (alignment - 1)) / alignment * alignment

theorem usize_of_lt {n : Nat} (h : n < 0x100000000) : usize n = n := Nat.mod_eq_of_lt h

theorem usizeSub_of_le {a b : Nat} (h : b ≤ a) (ha : a < 0x100000000) : usizeSub a b = a - b := by
  unfold usizeSub usize
  omega

theorem mathAdd_eq_some {a b n : Nat} (h : mathAdd a b = some n) :
    n = a + b ∧ a + b < 0x100000000 := by
  unfold mathAdd at h
  split at h
  · next hLt => exact ⟨(Option.some.inj h).symm, hLt⟩
  · cases h

theorem toByteUnits_pos (alignment : Alignment) : 0 < toByteUnits alignment :=
  Nat.pow_pos (by omega)

theorem toByteUnits_le (alignment : Alignment) : toByteUnits alignment ≤ 0x80000000 :=
  Nat.pow_le_pow_right (by omega) (Nat.le_of_lt_succ alignment.isLt)

/-- Where the sum fits, the result is the first aligned address from `address` on. -/
theorem alignForward_of_lt {address alignment : Nat} (hAlignment : 0 < alignment)
    (hFits : address + (alignment - 1) < 0x100000000) :
    alignForward address alignment % alignment = 0 ∧ address ≤ alignForward address alignment ∧
      alignForward address alignment ≤ address + (alignment - 1) := by
  rw [alignForward, usize_of_lt hFits]
  have hSplit := Nat.div_add_mod (address + (alignment - 1)) alignment
  have hRest := Nat.mod_lt (address + (alignment - 1)) hAlignment
  rw [Nat.mul_comm] at hSplit
  refine ⟨Nat.mul_mod_left _ _, ?_, ?_⟩
  · omega
  · omega

/-- Of two powers of two the lesser one divides the greater one. -/
theorem toByteUnits_dvd_max (alignment : Alignment) :
    toByteUnits alignment ∣ max (toByteUnits alignment) usizeBytes := by
  rcases Nat.lt_or_ge alignment.val 2 with hSmall | hLarge
  · have hDvd : toByteUnits alignment ∣ 2 ^ 2 := Nat.pow_dvd_pow 2 (Nat.le_of_lt hSmall)
    have hLe : toByteUnits alignment ≤ usizeBytes := Nat.le_of_dvd (by decide) hDvd
    rwa [Nat.max_eq_right hLe]
  · have hLe : 2 ^ 2 ≤ 2 ^ alignment.val := Nat.pow_le_pow_right (by decide) hLarge
    change usizeBytes ≤ toByteUnits alignment at hLe
    exact (Nat.max_eq_left hLe).symm ▸ Nat.dvd_refl _

end Esp32Fx.Guest
