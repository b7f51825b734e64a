import Mathlib.Data.List.FinRange
import Esp32Fx.Lib.Picture

/-! The drawing functions of `einkctl.c` on the panel's framebuffer, one bit a pixel, where a clear
bit is black. -/

namespace Esp32Fx.Einkctl

open Lib

abbrev panelWidth : Nat := 800
abbrev panelHeight : Nat := 480
abbrev framebufferBytes : Nat := panelWidth * panelHeight / 8
abbrev fontWidth : Nat := 8
abbrev fontHeight : Nat := 16

abbrev Framebuffer := Vector UInt8 framebufferBytes

/-- `font8x16_ascii`: the rows of the glyphs of the printable characters. -/
abbrev GlyphTable := Vector (Vector UInt8 fontHeight) 95

/-- The bit of a column in its byte. -/
def mask (column : Nat) : UInt8 := 0x80 >>> UInt8.ofNat (column % 8)

def framebufferPixel (framebuffer : Framebuffer) (x y : Int) (black : Bool) : Framebuffer :=
  if h : x < 0 ∨ x ≥ panelWidth ∨ y < 0 ∨ y ≥ panelHeight then framebuffer
  else
    have hIndex : y.toNat * (panelWidth / 8) + x.toNat / 8 < framebufferBytes := by
      simp only [not_or, panelWidth, panelHeight, framebufferBytes] at h ⊢
      omega
    let index := y.toNat * (panelWidth / 8) + x.toNat / 8
    if black then framebuffer.set index (framebuffer[index] &&& ~~~mask x.toNat)
    else framebuffer.set index (framebuffer[index] ||| mask x.toNat)

def framebufferRect (framebuffer : Framebuffer) (x y : Int) (width height : Nat) (black : Bool) :
    Framebuffer :=
  (List.finRange height).foldl (fun framebuffer (row : Fin height) =>
    (List.finRange width).foldl (fun framebuffer (column : Fin width) =>
      framebufferPixel framebuffer (x + (column : Nat)) (y + (row : Nat)) black) framebuffer)
    framebuffer

/-- The rows of a character's glyph, those of `?` where it has none. -/
def glyphOf (font : GlyphTable) (character : UInt8) : Vector UInt8 fontHeight :=
  if h : character < 0x20 ∨ character > 0x7e then font[0x3f - 0x20]
  else
    have hIndex : character.toNat - 0x20 < 95 := by
      simp only [not_or, UInt8.not_lt, UInt8.le_iff_toNat_le, UInt8.toNat_ofNat] at h
      omega
    font[character.toNat - 0x20]

/-- Whether a glyph has a pixel set. -/
def glyphBit (glyph : Vector UInt8 fontHeight) (row : Fin fontHeight) (column : Fin fontWidth) :
    Bool :=
  glyph[row] &&& mask column ≠ 0

def framebufferGlyph (font : GlyphTable) (framebuffer : Framebuffer) (x y : Int)
    (character : UInt8) (black isOpaque : Bool) : Framebuffer :=
  let glyph := glyphOf font character
  (List.finRange fontHeight).foldl (fun framebuffer (row : Fin fontHeight) =>
    (List.finRange fontWidth).foldl (fun framebuffer (column : Fin fontWidth) =>
      if glyphBit glyph row column then
        framebufferPixel framebuffer (x + (column : Nat)) (y + (row : Nat)) black
      else if isOpaque then
        framebufferPixel framebuffer (x + (column : Nat)) (y + (row : Nat)) !black
      else framebuffer) framebuffer) framebuffer

/-- `framebuffer_text`, of the bytes that it draws. -/
def framebufferText (font : GlyphTable) (framebuffer : Framebuffer) (x y : Int) (black isOpaque : Bool) :
    List UInt8 → Framebuffer
  | [] => framebuffer
  | character :: text =>
    framebufferText font (framebufferGlyph font framebuffer x y character black isOpaque)
      (x + fontWidth) y black isOpaque text

/-! ### Pixels -/

/-- A place on the panel: a column and a row. -/
abbrev Pixel := Fin panelWidth × Fin panelHeight

/-- The byte of a pixel. -/
def byteIndex (p : Pixel) : Fin framebufferBytes :=
  ⟨p.2 * (panelWidth / 8) + p.1 / 8, by
    have hx := p.1.isLt
    have hy := p.2.isLt
    simp only [panelWidth, panelHeight, framebufferBytes] at hx hy ⊢
    omega⟩

def isBlack (framebuffer : Framebuffer) (p : Pixel) : Bool :=
  framebuffer[byteIndex p] &&& mask p.1 = 0

/-- A pixel that is given a colour, or none. -/
def pixelStamp (x y : Int) (colour : Option Bool) : Stamp Pixel Bool := fun p =>
  if (p.1 : Int) = x ∧ (p.2 : Int) = y then colour else none

theorem mask_mod (column : Nat) : mask column = mask (column % 8) := by
  rw [mask, mask, Nat.mod_mod]

theorem mask_ne_zero : ∀ i : Fin 8, mask i ≠ 0 := by decide

theorem mask_and_mask : ∀ i j : Fin 8, i ≠ j → mask i &&& mask j = 0 := by decide

theorem not_mask_and_mask : ∀ i j : Fin 8, i ≠ j → ~~~mask i &&& mask j = mask j := by decide

theorem not_mask_and_self : ∀ i : Fin 8, ~~~mask i &&& mask i = 0 := by decide

/-- The byte with the bit of a column cleared for black, set for white. -/
def withBit (byte : UInt8) (column : Nat) (black : Bool) : UInt8 :=
  if black then byte &&& ~~~mask column else byte ||| mask column

theorem withBit_bit (byte : UInt8) (i j : Fin 8) (black : Bool) :
    withBit byte i black &&& mask j = 0 ↔ if i = j then black = true else byte &&& mask j = 0 := by
  cases black with
  | true =>
    show byte &&& ~~~mask i &&& mask j = 0 ↔ _
    rw [UInt8.and_assoc]
    split
    · next h =>
      subst h
      rw [not_mask_and_self, UInt8.and_zero]
      exact iff_of_true rfl rfl
    · next h => rw [not_mask_and_mask i j h]
  | false =>
    show (byte ||| mask i) &&& mask j = 0 ↔ _
    have hSplit : (byte ||| mask i) &&& mask j = byte &&& mask j ||| mask i &&& mask j :=
      UInt8.toBitVec_inj.mp BitVec.and_or_distrib_right
    rw [hSplit]
    split
    · next h =>
      subst h
      rw [UInt8.and_self, UInt8.or_eq_zero_iff]
      exact iff_of_false (fun hZero => mask_ne_zero i hZero.2) nofun
    · next h => rw [mask_and_mask i j h, UInt8.or_zero]

theorem byteIndex_eq {p q : Pixel} (hByte : byteIndex p = byteIndex q)
    (hBit : (p.1 : Nat) % 8 = q.1 % 8) : p = q := by
  have hp := p.1.isLt
  have hq := q.1.isLt
  simp only [byteIndex, Fin.mk.injEq, panelWidth] at hByte hp hq
  apply Prod.ext
  · apply Fin.ext
    omega
  · apply Fin.ext
    omega

theorem isBlack_withBit (framebuffer : Framebuffer) (p q : Pixel) (black : Bool) :
    isBlack (framebuffer.set (byteIndex q) (withBit framebuffer[byteIndex q] q.1 black)) p =
      if p = q then black else isBlack framebuffer p := by
  have hBit :=
    withBit_bit framebuffer[byteIndex q] ⟨q.1 % 8, by omega⟩ ⟨p.1 % 8, by omega⟩ black
  simp only [withBit, ← mask_mod, Fin.mk.injEq] at hBit
  unfold isBlack withBit
  rw [Fin.getElem_fin, Vector.getElem_set]
  by_cases hByte : (byteIndex q : Nat) = byteIndex p
  · simp only [if_pos hByte, hBit]
    by_cases hColumn : (q.1 : Nat) % 8 = p.1 % 8
    · simp [hColumn, byteIndex_eq (Fin.ext hByte).symm hColumn.symm]
    · have hNe : p ≠ q := fun hEq => hColumn (by rw [hEq])
      simp only [if_neg hColumn, if_neg hNe, Fin.ext hByte, Fin.getElem_fin]
  · have hNe : p ≠ q := fun hEq => hByte (by rw [hEq])
    rw [if_neg hByte, if_neg hNe]
    rfl

theorem isBlack_white (p : Pixel) : isBlack (Vector.replicate framebufferBytes 0xff) p = false := by
  have hSet : ∀ i : Fin 8, 0xff &&& mask i ≠ 0 := by decide
  have hMask := hSet ⟨p.1 % 8, by omega⟩
  rw [← mask_mod] at hMask
  simpa [isBlack] using hMask

theorem framebufferPixel_draws (x y : Int) (black : Bool) :
    Draws isBlack (fun framebuffer => framebufferPixel framebuffer x y black)
      (pixelStamp x y (some black)) := by
  intro framebuffer p
  show isBlack (framebufferPixel framebuffer x y black) p = _
  have hx := p.1.isLt
  have hy := p.2.isLt
  unfold framebufferPixel
  split
  · have hAway : ¬((p.1 : Int) = x ∧ (p.2 : Int) = y) := by omega
    rw [pixelStamp, if_neg hAway]
    rfl
  next h =>
  simp only [not_or, Int.not_lt, ge_iff_le, Int.not_le] at h
  obtain ⟨hLeft, hRight, hTop, hBottom⟩ := h
  lift x to Nat using hLeft
  lift y to Nat using hTop
  let q : Pixel := (⟨x, by omega⟩, ⟨y, by omega⟩)
  have hSame : ((p.1 : Nat) : Int) = x ∧ ((p.2 : Nat) : Int) = y ↔ p = q := by
    rw [Prod.ext_iff, Fin.ext_iff, Fin.ext_iff]
    show _ ↔ (p.1 : Nat) = x ∧ (p.2 : Nat) = y
    omega
  have hWritten := isBlack_withBit framebuffer p q black
  have hStamp : (pixelStamp x y (some black) p).getD (isBlack framebuffer p) =
      if p = q then black else isBlack framebuffer p := by
    rw [pixelStamp]
    simp only [hSame]
    split <;> rfl
  rw [hStamp, ← hWritten]
  cases black <;> rfl

/-! ### Rectangles and glyphs -/

/-- Colours for the pixels of a rectangle. -/
def gridStamp {height width : Nat} (x y : Int) (colours : Fin height → Fin width → Option Bool) :
    Stamp Pixel Bool :=
  Stamp.stack (fun row : Fin height => Stamp.stack (fun column : Fin width =>
    pixelStamp (x + (column : Nat)) (y + (row : Nat)) (colours row column)) (List.finRange width))
      (List.finRange height)

section Grid

variable {height width : Nat} {x y : Int} {colours : Fin height → Fin width → Option Bool}
  {p : Pixel}

theorem pixelStamp_away {colour : Option Bool} (h : (p.1 : Int) ≠ x ∨ (p.2 : Int) ≠ y) :
    pixelStamp x y colour p = none :=
  if_neg fun hAt => h.elim (fun hx => hx hAt.1) fun hy => hy hAt.2

theorem gridStamp_at {row : Fin height} {column : Fin width} (hx : (p.1 : Int) = x + (column : Nat))
    (hy : (p.2 : Int) = y + (row : Nat)) : gridStamp x y colours p = colours row column := by
  rw [gridStamp, Stamp.stack_only (List.mem_finRange row), Stamp.stack_only (List.mem_finRange column)]
  · exact if_pos ⟨hx, hy⟩
  · intro other _ hOther
    have hNe : (other : Nat) ≠ column := fun hEq => hOther (Fin.ext hEq)
    exact pixelStamp_away (.inl (by omega))
  · intro other _ hOther
    have hNe : (other : Nat) ≠ row := fun hEq => hOther (Fin.ext hEq)
    exact Stamp.stack_none fun _ _ => pixelStamp_away (.inr (by omega))

theorem gridStamp_outside (h : (p.1 : Int) < x ∨ x + width ≤ p.1 ∨ (p.2 : Int) < y ∨ y + height ≤ p.2) :
    gridStamp x y colours p = none := by
  refine Stamp.stack_none fun row _ => Stamp.stack_none fun column _ => pixelStamp_away ?_
  have hRow := row.isLt
  have hColumn := column.isLt
  omega

end Grid

theorem framebufferRect_draws (x y : Int) (width height : Nat) (black : Bool) :
    Draws isBlack (fun framebuffer => framebufferRect framebuffer x y width height black)
      (gridStamp x y fun (_ : Fin height) (_ : Fin width) => some black) :=
  .foldl (fun _ => .foldl (fun _ => framebufferPixel_draws _ _ _) _) _

/-- The colours that a glyph gives to the pixels of its cell. -/
def glyphColours (font : GlyphTable) (character : UInt8) (black isOpaque : Bool)
    (row : Fin fontHeight) (column : Fin fontWidth) : Option Bool :=
  if glyphBit (glyphOf font character) row column then some black
  else if isOpaque then some !black
  else none

theorem framebufferGlyph_draws (font : GlyphTable) (x y : Int) (character : UInt8)
    (black isOpaque : Bool) :
    Draws isBlack
      (fun framebuffer => framebufferGlyph font framebuffer x y character black isOpaque)
      (gridStamp x y (glyphColours font character black isOpaque)) := by
  unfold framebufferGlyph
  refine .foldl (fun row => .foldl (fun column => ?_) _) _
  intro framebuffer p
  unfold glyphColours
  split
  · exact framebufferPixel_draws _ _ _ framebuffer p
  split
  · exact framebufferPixel_draws _ _ _ framebuffer p
  · rw [pixelStamp, ite_self]
    rfl

/-! ### Text -/

def textStamp (font : GlyphTable) (x y : Int) (black isOpaque : Bool) :
    List UInt8 → Stamp Pixel Bool
  | [] => .blank
  | character :: text => (textStamp font (x + fontWidth) y black isOpaque text).above
    (gridStamp x y (glyphColours font character black isOpaque))

theorem framebufferText_draws (font : GlyphTable) (x y : Int) (black isOpaque : Bool)
    (text : List UInt8) :
    Draws isBlack (fun framebuffer => framebufferText font framebuffer x y black isOpaque text)
      (textStamp font x y black isOpaque text) := by
  induction text generalizing x with
  | nil => exact .nothing
  | cons character text ih =>
    exact (ih (x + fontWidth)).after (framebufferGlyph_draws font x y character black isOpaque)

section Text

variable {font : GlyphTable} {x y : Int} {black isOpaque : Bool} {text : List UInt8} {p : Pixel}

theorem textStamp_outside (h : (p.1 : Int) < x ∨ x + 8 * text.length ≤ p.1 ∨
    (p.2 : Int) < y ∨ y + 16 ≤ p.2) : textStamp font x y black isOpaque text p = none := by
  have hWidth : fontWidth = 8 := rfl
  have hHeight : fontHeight = 16 := rfl
  induction text generalizing x with
  | nil => rfl
  | cons character text ih =>
    rw [List.length_cons] at h
    rw [textStamp, Stamp.above, ih (by omega), gridStamp_outside (by omega)]
    rfl

/-- A pixel of a glyph of the text. -/
theorem textStamp_at {i : Nat} {character : UInt8} (row : Fin fontHeight) (column : Fin fontWidth)
    (hCharacter : text[i]? = some character) (hx : (p.1 : Int) = x + 8 * i + (column : Nat))
    (hy : (p.2 : Int) = y + (row : Nat)) :
    textStamp font x y black isOpaque text p =
      glyphColours font character black isOpaque row column := by
  have hWidth : fontWidth = 8 := rfl
  induction text generalizing x i with
  | nil => cases hCharacter
  | cons first text ih =>
    have hColumn := column.isLt
    rw [textStamp, Stamp.above]
    cases i with
    | zero =>
      obtain rfl : first = character := Option.some.inj hCharacter
      rw [textStamp_outside (by omega), Option.none_or]
      exact gridStamp_at (by omega) hy
    | succ i =>
      rw [ih hCharacter (by omega), gridStamp_outside (by omega),
        Option.or_none]

end Text

end Esp32Fx.Einkctl
