import Mathlib.Data.List.Basic

/-! Base64 with padding. -/

namespace Esp32Fx.Lib.Base64

/-- The character of a value below 64. -/
def digit (value : Nat) : UInt8 :=
  if value < 26 then UInt8.ofNat (0x41 + value)
  else if value < 52 then UInt8.ofNat (0x61 + (value - 26))
  else if value < 62 then UInt8.ofNat (0x30 + (value - 52))
  else if value = 62 then 0x2b
  else 0x2f

/-- The value of a character of the alphabet. -/
def value (b : UInt8) : Option Nat :=
  if 0x41 ≤ b ∧ b ≤ 0x5a then some (b.toNat - 0x41)
  else if 0x61 ≤ b ∧ b ≤ 0x7a then some (b.toNat - 0x61 + 26)
  else if 0x30 ≤ b ∧ b ≤ 0x39 then some (b.toNat - 0x30 + 52)
  else if b = 0x2b then some 62
  else if b = 0x2f then some 63
  else none

def pad : UInt8 := 0x3d

def encode : List UInt8 → List UInt8
  | [] => []
  | [a] => [digit (a.toNat / 4), digit (a.toNat % 4 * 16), pad, pad]
  | [a, b] =>
    [digit (a.toNat / 4), digit (a.toNat % 4 * 16 + b.toNat / 16), digit (b.toNat % 16 * 4), pad]
  | a :: b :: c :: rest =>
    digit (a.toNat / 4) :: digit (a.toNat % 4 * 16 + b.toNat / 16) ::
      digit (b.toNat % 16 * 4 + c.toNat / 64) :: digit (c.toNat % 64) :: encode rest

/-- `base64.b64decode(text, validate=True)`, or none for a `binascii.Error`. -/
def decode : List UInt8 → Option (List UInt8)
  | [] => some []
  | w :: x :: y :: z :: rest =>
    if z = pad then
      if rest ≠ [] then none
      else if y = pad then
        match value w, value x with
        | some w, some x => some [UInt8.ofNat (w * 4 + x / 16)]
        | _, _ => none
      else
        match value w, value x, value y with
        | some w, some x, some y =>
          some [UInt8.ofNat (w * 4 + x / 16), UInt8.ofNat (x % 16 * 16 + y / 4)]
        | _, _, _ => none
    else
      match value w, value x, value y, value z, decode rest with
      | some w, some x, some y, some z, some data =>
        some (UInt8.ofNat (w * 4 + x / 16) :: UInt8.ofNat (x % 16 * 16 + y / 4) ::
          UInt8.ofNat (y % 4 * 64 + z) :: data)
      | _, _, _, _, _ => none
  | _ => none

theorem value_digit {n : Nat} (h : n < 64) : value (digit n) = some n := by
  have hAll : ∀ n : Fin 64, value (digit n) = some n.val := by decide
  exact hAll ⟨n, h⟩

theorem digit_ne_pad {n : Nat} (h : n < 64) : digit n ≠ pad := by
  have hAll : ∀ n : Fin 64, digit n ≠ pad := by decide
  exact hAll ⟨n, h⟩

theorem ofNat_toNat {b : UInt8} {n : Nat} (h : n = b.toNat) : UInt8.ofNat n = b := by
  rw [h, UInt8.ofNat_toNat]

theorem decode_encode (data : List UInt8) : decode (encode data) = some data := by
  fun_induction encode data with
  | case1 => rfl
  | case2 a =>
    have ha := a.toNat_lt
    rw [decode, value_digit (by omega), value_digit (by omega)]
    simp only [ne_eq, not_true_eq_false, if_true, if_false]
    rw [ofNat_toNat (b := a) (by omega)]
  | case3 a b =>
    have ha := a.toNat_lt
    have hb := b.toNat_lt
    rw [decode, if_pos rfl, if_neg (not_not.mpr rfl), if_neg (digit_ne_pad (by omega)),
      value_digit (by omega), value_digit (by omega), value_digit (by omega)]
    simp only
    rw [ofNat_toNat (b := a) (by omega), ofNat_toNat (b := b) (by omega)]
  | case4 a b c rest ih =>
    have ha := a.toNat_lt
    have hb := b.toNat_lt
    have hc := c.toNat_lt
    rw [decode, if_neg (digit_ne_pad (by omega)), value_digit (by omega), value_digit (by omega),
      value_digit (by omega), value_digit (by omega), ih]
    simp only
    rw [ofNat_toNat (b := a) (by omega), ofNat_toNat (b := b) (by omega),
      ofNat_toNat (b := c) (by omega)]

/-- A character of the alphabet, or the padding. -/
def isCharacter (b : UInt8) : Bool := (value b).isSome || b == pad

theorem isCharacter_ascii {b : UInt8} (h : isCharacter b = true) : b < 0x80 := by
  have hAll : ∀ n : Fin 256, isCharacter (UInt8.ofFin n) = true → UInt8.ofFin n < 0x80 := by
    decide +kernel
  exact hAll b.toFin h

theorem isCharacter_digit {n : Nat} (h : n < 64) : isCharacter (digit n) = true := by
  rw [isCharacter, value_digit h]
  rfl

theorem encode_characters (data : List UInt8) : ∀ b ∈ encode data, isCharacter b = true := by
  have hPad : isCharacter pad = true := by decide
  fun_induction encode data with
  | case1 => nofun
  | case2 a =>
    have ha := a.toNat_lt
    simp [isCharacter_digit (show a.toNat / 4 < 64 by omega),
      isCharacter_digit (show a.toNat % 4 * 16 < 64 by omega), hPad]
  | case3 a b =>
    have ha := a.toNat_lt
    have hb := b.toNat_lt
    simp [isCharacter_digit (show a.toNat / 4 < 64 by omega),
      isCharacter_digit (show a.toNat % 4 * 16 + b.toNat / 16 < 64 by omega),
      isCharacter_digit (show b.toNat % 16 * 4 < 64 by omega), hPad]
  | case4 a b c rest ih =>
    have ha := a.toNat_lt
    have hb := b.toNat_lt
    have hc := c.toNat_lt
    simp only [List.forall_mem_cons]
    exact ⟨isCharacter_digit (by omega), isCharacter_digit (by omega), isCharacter_digit (by omega),
      isCharacter_digit (by omega), ih⟩

end Esp32Fx.Lib.Base64
