import Mathlib.Algebra.Order.Group.Nat
import Mathlib.Data.List.Basic
import Mathlib.Tactic.Ring

/-! Numbers as little-endian bytes. -/

namespace Esp32Fx.Lib

/-- The low `width` bytes of a number, the lowest first. -/
def toLe : Nat → Nat → List UInt8
  | 0, _ => []
  | width + 1, n => UInt8.ofNat n :: toLe width (n / 256)

/-- The number with the given bytes, the lowest first. -/
def ofLe : List UInt8 → Nat
  | [] => 0
  | b :: bytes => b.toNat + 256 * ofLe bytes

@[simp] theorem length_toLe (width n : Nat) : (toLe width n).length = width := by
  induction width generalizing n with
  | zero => rfl
  | succ width ih => simp [toLe, ih]

theorem ofLe_lt (bytes : List UInt8) : ofLe bytes < 256 ^ bytes.length := by
  induction bytes with
  | nil => simp [ofLe]
  | cons b bytes ih =>
    have hByte := b.toNat_lt
    simp only [ofLe, List.length_cons, Nat.pow_succ]
    omega

theorem ofLe_toLe {width n : Nat} (h : n < 256 ^ width) : ofLe (toLe width n) = n := by
  induction width generalizing n with
  | zero =>
    simp only [Nat.pow_zero] at h
    simp only [toLe, ofLe]
    omega
  | succ width ih =>
    rw [Nat.pow_succ] at h
    have hRest : n / 256 < 256 ^ width := by omega
    simp only [toLe, ofLe, ih hRest, UInt8.toNat_ofNat']
    omega

theorem toLe_ofLe (bytes : List UInt8) : toLe bytes.length (ofLe bytes) = bytes := by
  induction bytes with
  | nil => rfl
  | cons b bytes ih =>
    have hByte := b.toNat_lt
    have hHigh : (b.toNat + 256 * ofLe bytes) / 256 = ofLe bytes := by omega
    have hLow : UInt8.ofNat (b.toNat + 256 * ofLe bytes) = b := by
      apply UInt8.toNat_inj.mp
      rw [UInt8.toNat_ofNat']
      omega
    simp only [List.length_cons, ofLe, toLe, hHigh, hLow, ih]

/-- Bytes are the little-endian form of their number. -/
theorem ofLe_eq_iff {bytes : List UInt8} {n : Nat} (h : n < 256 ^ bytes.length) :
    ofLe bytes = n ↔ bytes = toLe bytes.length n := by
  constructor
  · rintro rfl
    exact (toLe_ofLe bytes).symm
  · intro hBytes
    rw [hBytes]
    exact ofLe_toLe h

end Esp32Fx.Lib
