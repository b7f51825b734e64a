import Esp32Fx.Lib.Memory
import Mathlib.Algebra.Group.Nat.Defs

/-! Unsigned LEB128 numbers of 32 bits as concrete syntax, in every legal width, and what a reader of
such numbers does. -/

namespace Esp32Fx.Lib

namespace Leb128

/-- The number of groups of seven bits, the lowest first. -/
def value : List (Fin 128) → Nat
  | [] => 0
  | g :: gs => g + 128 * value gs

/-- The bytes of groups: all but the last have the high bit. -/
def bytes : List (Fin 128) → List UInt8
  | [] => []
  | [g] => [UInt8.ofNat g]
  | g :: h :: gs => UInt8.ofNat (128 + g) :: bytes (h :: gs)

theorem length_bytes (gs : List (Fin 128)) : (bytes gs).length = gs.length := by
  induction gs with
  | nil => rfl
  | cons g gs ih =>
    cases gs with
    | nil => rfl
    | cons h gs => rw [bytes, List.length_cons, List.length_cons, ih]

end Leb128

/-- A legal encoding of a number of 32 bits, with needless zero groups or without. -/
structure Leb32 where
  groups : List (Fin 128)
  nonempty : groups ≠ []
  width : groups.length ≤ 5
  bound : Leb128.value groups < 2 ^ 32

namespace Leb32

def value (e : Leb32) : Nat := Leb128.value e.groups

def bytes (e : Leb32) : List UInt8 := Leb128.bytes e.groups

theorem bytes_pos (e : Leb32) : 0 < e.bytes.length := by
  rw [bytes, Leb128.length_bytes]
  exact List.length_pos_of_ne_nil e.nonempty

/-- The bytes of numbers one after the other. -/
def text (es : List Leb32) : List UInt8 := es.flatMap bytes

@[simp] theorem text_nil : text [] = [] := rfl

@[simp] theorem text_cons (e : Leb32) (es : List Leb32) : text (e :: es) = e.bytes ++ text es := rfl

theorem length_le_text (es : List Leb32) : es.length ≤ (text es).length := by
  induction es with
  | nil => exact Nat.le_refl _
  | cons e es ih =>
    have := e.bytes_pos
    rw [text_cons, List.length_append, List.length_cons]
    omega

theorem text_take_succ {es : List Leb32} {i : Nat} {e : Leb32} (h : es[i]? = some e) :
    text (es.take (i + 1)) = text (es.take i) ++ e.bytes := by
  rw [List.take_add_one, h, text, List.flatMap_append]
  simp [text]

theorem length_text_take_le (es : List Leb32) (i : Nat) :
    (text (es.take i)).length ≤ (text es).length := by
  have hSplit : text es = text (es.take i) ++ text (es.drop i) := by
    rw [text, text, text, ← List.flatMap_append, List.take_append_drop]
  rw [hSplit, List.length_append]
  exact Nat.le_add_right _ _

end Leb32

/-- A memory that holds numbers holds each of them. -/
theorem Memory.load_text {m : Memory} {a i : Nat} {es : List Leb32} {e : Leb32}
    (h : m.load a (Leb32.text es).length = Leb32.text es) (hi : es[i]? = some e) :
    m.load (a + (Leb32.text (es.take i)).length) e.bytes.length = e.bytes := by
  induction es generalizing a i with
  | nil => simp at hi
  | cons e' es ih =>
    rw [Leb32.text_cons, List.length_append, Memory.load_add] at h
    obtain ⟨hHead, hTail⟩ := List.append_inj h (Memory.length_load ..)
    cases i with
    | zero =>
      cases hi
      exact hHead
    | succ i =>
      rw [List.take_succ_cons, Leb32.text_cons, List.length_append, ← Nat.add_assoc]
      exact ih hTail (by simpa using hi)

/-- A reader of a number from the bytes at `p`, of those before `pEnd`: the number and the address
after it. -/
abbrev LebReader := Memory → (p pEnd : Nat) → Option (Nat × Nat)

/-- The reader reads every legal encoding. -/
def LebReader.Decodes (read : LebReader) : Prop :=
  ∀ (m : Memory) (p pEnd : Nat) (e : Leb32), m.load p e.bytes.length = e.bytes →
    p + e.bytes.length ≤ pEnd → read m p pEnd = some (e.value, p + e.bytes.length)

/-! ### A reader -/

namespace Leb128

/-- Reads groups up to the one without the high bit, `most` at most. -/
def read (m : Memory) : (most p pEnd : Nat) → Option (Nat × Nat)
  | 0, _, _ => none
  | most + 1, p, pEnd =>
    if pEnd ≤ p then none
    else if (m p).toNat < 128 then some ((m p).toNat, p + 1)
    else
      match read m most (p + 1) pEnd with
      | none => none
      | some (high, p') => some ((m p).toNat - 128 + 128 * high, p')

theorem read_bytes {m : Memory} {most p pEnd : Nat} {gs : List (Fin 128)} (hNonempty : gs ≠ [])
    (hMost : gs.length ≤ most) (hLoad : m.load p (bytes gs).length = bytes gs)
    (hEnd : p + (bytes gs).length ≤ pEnd) :
    read m most p pEnd = some (value gs, p + (bytes gs).length) := by
  induction gs generalizing most p with
  | nil => exact absurd rfl hNonempty
  | cons g gs ih =>
    obtain ⟨most, rfl⟩ : ∃ k, most = k + 1 := ⟨most - 1, by simp at hMost; omega⟩
    cases gs with
    | nil =>
      have hByte : m p = UInt8.ofNat g := by simpa [bytes, Memory.load] using hLoad
      have hNat : (m p).toNat = g.val := by
        rw [hByte, UInt8.toNat_ofNat']
        exact Nat.mod_eq_of_lt (by omega)
      simp only [bytes, List.length_singleton] at hEnd ⊢
      rw [read, if_neg (by omega), hNat, if_pos g.isLt]
      simp [value]
    | cons h gs =>
      have hOne : m.load p 1 = [m p] := by simp [Memory.load]
      rw [bytes, List.length_cons, Nat.add_comm, Memory.load_add, hOne, List.singleton_append,
        List.cons.injEq] at hLoad
      obtain ⟨hByte, hRest⟩ := hLoad
      have hNat : (m p).toNat = 128 + g := by
        rw [hByte, UInt8.toNat_ofNat']
        exact Nat.mod_eq_of_lt (by omega)
      rw [bytes, List.length_cons] at hEnd
      have hRead := @ih most (p + 1) (by simp) (by simpa using hMost) hRest (by omega)
      rw [read, if_neg (by omega), hNat, if_neg (by omega), hRead]
      simp only [bytes, List.length_cons, value, Option.some.injEq, Prod.mk.injEq]
      omega

end Leb128

/-- The reader that takes five groups at most. -/
def LebReader.five : LebReader := fun m p pEnd => Leb128.read m 5 p pEnd

theorem LebReader.five_decodes : LebReader.five.Decodes := fun _ _ _ e hLoad hEnd =>
  Leb128.read_bytes e.nonempty e.width hLoad hEnd

end Esp32Fx.Lib
