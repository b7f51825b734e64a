import Mathlib.Data.List.Basic

/-! A range of a list of bytes replaced by other bytes, as assignment to a slice does. -/

namespace Esp32Fx.Lib

/-- `image[offset:offset + len(data)] = data`. -/
def splice (image : List UInt8) (offset : Nat) (data : List UInt8) : List UInt8 :=
  image.take offset ++ data ++ image.drop (offset + data.length)

/-- `image[offset:offset + size]`. -/
def slice (image : List UInt8) (offset size : Nat) : List UInt8 := (image.drop offset).take size

variable {image data : List UInt8} {offset : Nat}

theorem length_splice (h : offset + data.length ≤ image.length) :
    (splice image offset data).length = image.length := by
  simp only [splice, List.length_append, List.length_take, List.length_drop]
  omega

theorem slice_splice (h : offset ≤ image.length) :
    slice (splice image offset data) offset data.length = data := by
  rw [slice, splice, List.append_assoc, List.drop_left' (by simp; omega), List.take_left' rfl]

/-- Bytes outside the range stay. -/
theorem getElem?_splice {i : Nat} (h : offset + data.length ≤ image.length)
    (hi : i < offset ∨ offset + data.length ≤ i) : (splice image offset data)[i]? = image[i]? := by
  have hOffset : (image.take offset).length = offset := by
    rw [List.length_take]
    omega
  rw [splice, List.append_assoc]
  rcases hi with hi | hi
  · rw [List.getElem?_append_left (by omega), List.getElem?_take_of_lt hi]
  · rw [List.getElem?_append_right (by omega), List.getElem?_append_right (by omega),
      List.getElem?_drop, hOffset]
    congr 1
    omega

/-- Slices are equal when their bytes are. -/
theorem slice_congr {image' : List UInt8} {size : Nat}
    (h : ∀ i, offset ≤ i → i < offset + size → image'[i]? = image[i]?) :
    slice image' offset size = slice image offset size := by
  apply List.ext_getElem?
  intro i
  simp only [slice, List.getElem?_take, List.getElem?_drop]
  split
  · exact h _ (by omega) (by omega)
  · rfl

/-- A slice outside the range stays. -/
theorem slice_splice_of_disjoint {start size : Nat} (h : offset + data.length ≤ image.length)
    (hApart : start + size ≤ offset ∨ offset + data.length ≤ start) :
    slice (splice image offset data) start size = slice image start size := by
  apply slice_congr
  intro i hStart hEnd
  exact getElem?_splice h (by omega)

end Esp32Fx.Lib
