import Esp32Fx.Einkctl.Framebuffer
import Esp32Fx.Einkctl.TextLines

/-! `render_text` of `einkctl.c`: the pages of a document, and the picture of a page. -/

namespace Esp32Fx.Einkctl

open Lib

abbrev bodyX : Int := 8
abbrev bodyY : Int := 32
abbrev bodyBottom : Int := 448
abbrev textRows : Nat := 26

/-- A difference of `size_t`, which wraps on the board below zero. -/
def sizeSub (a b : Nat) : Nat := if b ≤ a then a - b else 2 ^ 32 - (b - a)

/-- The lines of a document, or none when memory runs out. -/
def documentLines (allocates : Nat → Bool) (input : List UInt8) : Option TextLines :=
  if allocates (input.length * 4 + 1) then wrapText allocates (sanitizeText input) ⟨[], 0⟩
  else none

/-- The number of pages for a number of lines. -/
def pageTotal (count : Nat) : Nat :=
  let pages := (count + textRows - 1) / textRows
  if pages = 0 then 1 else pages

def footerText (page pages : Nat) : List UInt8 :=
  (ascii "fx on Linux / ESP32-S3                    page " ++ ascii (toString (page + 1)) ++
    ascii "/" ++ ascii (toString pages)).take 63

/-- How many lines a page has. -/
def visibleLines (lines : TextLines) (page : Nat) : Nat :=
  let firstLine := page * textRows
  let visible := sizeSub lines.count firstLine
  if visible > textRows then textRows else visible

/-- The lines of a page, each below the one before. -/
def drawBody (font : GlyphTable) (lines : TextLines) (page : Nat) (framebuffer : Framebuffer) :
    Framebuffer :=
  let firstLine := page * textRows
  (List.range (visibleLines lines page)).foldl (fun framebuffer row =>
    let line := lines.records.getD (firstLine + row) []
    framebufferText font framebuffer bodyX (bodyY + row * fontHeight) true false (cString line))
    framebuffer

def drawPage (font : GlyphTable) (lines : TextLines) (title : List UInt8) (page pages : Nat) :
    Framebuffer :=
  let framebuffer := Vector.replicate framebufferBytes 0xff
  let framebuffer := framebufferRect framebuffer 0 0 panelWidth 24 true
  let framebuffer := framebufferText font framebuffer 8 4 false true
    ((cString title).take (if strlen title > 96 then 96 else strlen title))
  let framebuffer := framebufferRect framebuffer 0 24 panelWidth 1 true
  let framebuffer := drawBody font lines page framebuffer
  let framebuffer := framebufferRect framebuffer 0 (bodyBottom + 7) panelWidth 1 true
  framebufferText font framebuffer 8 460 true false (footerText page pages)

/-- What a call leaves behind: its status, the framebuffer and `*page_count_out`. -/
structure Rendered where
  status : Int
  framebuffer : Framebuffer
  pageCount : Nat

def renderText (allocates : Nat → Bool) (font : GlyphTable) (framebuffer : Framebuffer)
    (input title : List UInt8) (page pageCount : Nat) : Rendered :=
  match documentLines allocates input with
  | none => ⟨-1, framebuffer, pageCount⟩
  | some lines =>
    let pages := pageTotal lines.count
    if page ≥ pages then ⟨-1, framebuffer, pageCount⟩
    else ⟨0, drawPage font lines title page pages, pages⟩

/-! ### Lines of text -/

/-- A character that is in the font. -/
abbrev IsPrintable (byte : UInt8) : Prop := 0x20 ≤ byte ∧ byte ≤ 0x7e

structure IsLine (line : List UInt8) : Prop where
  length : line.length ≤ textColumns
  printable : ∀ byte ∈ line, IsPrintable byte

theorem sanitizeFrom_printable (escape : Escape) (destination : Nat) (input : List UInt8) :
    ∀ byte ∈ sanitizeFrom escape destination input, byte = 0x0a ∨ IsPrintable byte := by
  have hSpace : IsPrintable 0x20 := by decide
  have hQuestion : IsPrintable 0x3f := by decide
  fun_induction sanitizeFrom escape destination input with
  | case1 => nofun
  | case9 _ _ _ _ ih => exact List.forall_mem_cons.mpr ⟨.inl rfl, ih⟩
  | case10 _ _ _ _ _ ih =>
    intro byte hByte
    rcases List.mem_append.mp hByte with hPad | hRest
    · rw [List.eq_of_mem_replicate hPad]
      exact .inr hSpace
    · exact ih byte hRest
  | case11 _ _ _ _ _ _ hKept ih => exact List.forall_mem_cons.mpr ⟨hKept, ih⟩
  | case12 _ _ _ _ _ _ _ _ ih => exact List.forall_mem_cons.mpr ⟨.inr hQuestion, ih⟩
  | _ => assumption

section Lines

variable {allocates : Nat → Bool} {lines lines' : TextLines} {text line : List UInt8}

theorem linesReserve_records {wanted : Nat} (h : linesReserve allocates lines wanted = some lines') :
    lines'.records = lines.records := by
  unfold linesReserve at h
  split at h
  · cases h
    rfl
  · generalize doubled _ wanted = capacity at h
    dsimp only at h
    split at h
    · cases h
      rfl
    · cases h

theorem linesPush_records {length : Nat} (h : linesPush allocates lines text length = some lines') :
    lines'.records = lines.records ++ [text.take (min length textColumns)] := by
  have hLength : (if length > textColumns then textColumns else length) =
      min length textColumns := by split <;> omega
  simp only [linesPush, hLength] at h
  split at h
  · cases h
  · next reserved hReserved =>
    cases h
    rw [linesReserve_records hReserved]

/-- Part of a line without a newline is a line. -/
theorem linesPush_lines {length : Nat} (hText : ∀ byte ∈ text, IsPrintable byte)
    (hLines : ∀ record ∈ lines.records, IsLine record)
    (h : linesPush allocates lines text length = some lines') :
    ∀ record ∈ lines'.records, IsLine record := by
  rw [linesPush_records h]
  apply List.forall_mem_append.mpr ⟨hLines, ?_⟩
  intro record hRecord
  obtain rfl := List.mem_singleton.mp hRecord
  refine ⟨?_, fun byte hByte => hText byte (List.mem_of_mem_take hByte)⟩
  rw [List.length_take]
  omega

theorem wrapLine_lines (hLine : ∀ byte ∈ line, IsPrintable byte)
    (hLines : ∀ record ∈ lines.records, IsLine record)
    (h : wrapLine allocates line lines = some lines') :
    ∀ record ∈ lines'.records, IsLine record := by
  fun_induction wrapLine allocates line lines with
  | case1 lines =>
    cases h
    exact hLines
  | case2 => cases h
  | case3 line lines _ pushed hPushed ih =>
    apply ih _ (linesPush_lines hLine hLines hPushed) h
    intro byte hByte
    exact hLine byte (List.mem_of_mem_drop ((List.dropWhile_sublist _).mem hByte))

theorem wrapLines_lines (hText : ∀ byte ∈ text, byte = 0x0a ∨ IsPrintable byte)
    (hLines : ∀ record ∈ lines.records, IsLine record)
    (h : wrapLines allocates text lines = some lines') :
    ∀ record ∈ lines'.records, IsLine record := by
  fun_induction wrapLines allocates text lines with
  | case1 lines =>
    cases h
    exact hLines
  | case2 => cases h
  | case3 text lines _ line pushed wrapped hWrapped ih =>
    have hLine : ∀ byte ∈ line, IsPrintable byte := by
      intro byte hByte
      have hNewline := List.mem_takeWhile_imp hByte
      exact (hText byte ((List.takeWhile_sublist _).mem hByte)).resolve_left (by simpa using hNewline)
    refine ih (fun byte hByte => hText byte (List.mem_of_mem_drop (List.mem_of_mem_tail hByte))) ?_ h
    dsimp only [pushed] at hWrapped
    split at hWrapped
    · exact linesPush_lines (List.forall_mem_nil _) hLines hWrapped
    · exact wrapLine_lines hLine hLines hWrapped

theorem wrapText_lines (hText : ∀ byte ∈ text, byte = 0x0a ∨ IsPrintable byte)
    (hLines : ∀ record ∈ lines.records, IsLine record)
    (h : wrapText allocates text lines = some lines') :
    ∀ record ∈ lines'.records, IsLine record := by
  unfold wrapText at h
  split at h
  · cases h
  · next wrapped hWrapped =>
    have hLines := wrapLines_lines hText hLines hWrapped
    split at h
    · exact linesPush_lines (List.forall_mem_nil _) hLines h
    · cases h
      exact hLines

theorem documentLines_lines {input : List UInt8} (h : documentLines allocates input = some lines) :
    ∀ record ∈ lines.records, IsLine record := by
  unfold documentLines at h
  split at h
  · exact wrapText_lines (sanitizeFrom_printable _ _ _) (List.forall_mem_nil _) h
  · cases h

/-! With memory for every allocation there is a result. -/

theorem linesPush_isSome (hMemory : ∀ size, allocates size = true) (lines : TextLines)
    (text : List UInt8) (length : Nat) :
    ∃ lines', linesPush allocates lines text length = some lines' := by
  have hReserve : ∀ wanted, ∃ reserved, linesReserve allocates lines wanted = some reserved := by
    intro wanted
    unfold linesReserve
    split
    · exact ⟨_, rfl⟩
    · exact ⟨_, if_pos (hMemory _)⟩
  obtain ⟨reserved, hReserved⟩ := hReserve (lines.count + 1)
  exact ⟨_, by rw [linesPush, hReserved]⟩

theorem wrapLine_isSome (hMemory : ∀ size, allocates size = true) (line : List UInt8)
    (lines : TextLines) : ∃ lines', wrapLine allocates line lines = some lines' := by
  fun_induction wrapLine allocates line lines with
  | case1 lines => exact ⟨lines, rfl⟩
  | case2 line lines _ hNone =>
    obtain ⟨lines', hSome⟩ := linesPush_isSome hMemory lines line (lineSplit line).1
    cases hNone.symm.trans hSome
  | case3 _ _ _ _ _ ih => exact ih

theorem wrapLines_isSome (hMemory : ∀ size, allocates size = true) (text : List UInt8)
    (lines : TextLines) : ∃ lines', wrapLines allocates text lines = some lines' := by
  fun_induction wrapLines allocates text lines with
  | case1 lines => exact ⟨lines, rfl⟩
  | case2 text lines _ line pushed hNone =>
    have hPushed : ∃ lines', pushed = some lines' := by
      dsimp only [pushed]
      split
      · exact linesPush_isSome hMemory _ _ _
      · exact wrapLine_isSome hMemory _ _
    obtain ⟨lines', hSome⟩ := hPushed
    cases hNone.symm.trans hSome
  | case3 _ _ _ _ _ _ _ ih => exact ih

theorem documentLines_isSome (hMemory : ∀ size, allocates size = true) (input : List UInt8) :
    ∃ lines, documentLines allocates input = some lines := by
  obtain ⟨lines, hLines⟩ := wrapLines_isSome hMemory (sanitizeText input) ⟨[], 0⟩
  rw [documentLines, if_pos (hMemory _), wrapText, hLines]
  dsimp only
  split
  · exact linesPush_isSome hMemory _ _ _
  · exact ⟨lines, rfl⟩

end Lines

/-! ### Pages -/

/-- The lines of a page. -/
def pageLines (lines : List (List UInt8)) (page : Nat) : List (List UInt8) :=
  (lines.drop (page * textRows)).take textRows

theorem pageLines_flatten (lines : List (List UInt8)) (pages : Nat) :
    (List.range pages).flatMap (pageLines lines) = lines.take (pages * textRows) := by
  induction pages with
  | zero => simp
  | succ pages ih =>
    rw [List.range_succ, List.flatMap_append, ih, List.flatMap_singleton, pageLines,
      Nat.succ_mul, List.take_add]

theorem pageTotal_enough (count : Nat) : count ≤ pageTotal count * textRows := by
  unfold pageTotal textRows
  dsimp only
  split <;> omega

/-- A page in range starts within the lines. -/
theorem firstLine_le {count page : Nat} (h : page < pageTotal count) : page * textRows ≤ count := by
  unfold pageTotal at h
  unfold textRows at h ⊢
  dsimp only at h
  split at h <;> omega

section Page

variable {font : GlyphTable} {lines : TextLines} {title : List UInt8} {page : Nat}

theorem visibleLines_eq (hPage : page * textRows ≤ lines.count) :
    visibleLines lines page = (pageLines lines.records page).length := by
  have hSub : sizeSub lines.count (page * textRows) = lines.count - page * textRows := if_pos hPage
  rw [pageLines, List.length_take, List.length_drop]
  unfold visibleLines
  dsimp only
  rw [hSub]
  unfold TextLines.count
  split <;> omega

/-! ### The picture of a page -/

/-- A pixel of the cell of a character. -/
def cellPixel (row : Fin textRows) (column : Fin textColumns) (y : Fin fontHeight)
    (x : Fin fontWidth) : Pixel :=
  (⟨8 + 8 * column + x, by
    have hColumn := column.isLt
    have hx := x.isLt
    unfold textColumns at hColumn
    unfold fontWidth at hx
    unfold panelWidth
    omega⟩, ⟨32 + 16 * row + y, by
    have hRow := row.isLt
    have hy := y.isLt
    unfold textRows at hRow
    unfold fontHeight at hy
    unfold panelHeight
    omega⟩)

/-- The character of a cell. -/
def cellCharacter (lines : List (List UInt8)) (row column : Nat) : Option UInt8 :=
  lines[row]?.bind fun text => text[column]?

/-- The stamp of a body line. -/
def lineStamp (font : GlyphTable) (lines : TextLines) (page row : Nat) : Stamp Pixel Bool :=
  textStamp font bodyX (bodyY + row * fontHeight) true false
    (cString (lines.records.getD (page * textRows + row) []))

theorem drawBody_draws : Draws isBlack (drawBody font lines page)
    (.stack (lineStamp font lines page) (List.range (visibleLines lines page))) :=
  .foldl (fun _ => framebufferText_draws _ _ _ _ _ _) _

/-- The lines of other rows do not come near a cell. -/
theorem lineStamp_other {row : Fin textRows} {other : Nat} (h : other ≠ row)
    (column : Fin textColumns) (y : Fin fontHeight) (x : Fin fontWidth) :
    lineStamp font lines page other (cellPixel row column y x) = none := by
  have hy := y.isLt
  unfold fontHeight at hy
  apply textStamp_outside
  simp only [cellPixel, bodyY, fontHeight]
  omega

theorem lineStamp_cell {line : List UInt8} {row : Fin textRows} (hLine : IsLine line)
    (hRecord : lines.records[page * textRows + row]? = some line) (column : Fin textColumns)
    (y : Fin fontHeight) (x : Fin fontWidth) :
    (lineStamp font lines page row (cellPixel row column y x)).getD false =
      ((line)[(column : Nat)]?.elim false fun character =>
        glyphBit (glyphOf font character) y x) := by
  have hString : cString line = line := by
    apply cString_of_nulFree
    intro hNul
    exact absurd (hLine.printable 0 hNul).1 (by decide)
  rw [lineStamp, List.getD_eq_getElem?_getD, hRecord, Option.getD_some, hString]
  cases hCharacter : (line)[(column : Nat)]? with
  | none =>
    have hEnd := List.getElem?_eq_none_iff.mp hCharacter
    rw [textStamp_outside]
    · rfl
    · simp only [cellPixel, bodyX]
      omega
  | some character =>
    rw [textStamp_at y x hCharacter, glyphColours]
    · show _ = glyphBit (glyphOf font character) y x
      cases glyphBit (glyphOf font character) y x <;> rfl
    · simp only [cellPixel, bodyX]
      omega
    · simp only [cellPixel, bodyY, fontHeight]
      omega

theorem pageLines_getElem? (lines : List (List UInt8)) (page : Nat) (row : Fin textRows) :
    (pageLines lines page)[(row : Nat)]? = lines[page * textRows + row]? := by
  rw [pageLines, List.getElem?_take_of_lt row.isLt, List.getElem?_drop]

theorem body_cell (hLines : ∀ record ∈ lines.records, IsLine record)
    (hPage : page * textRows ≤ lines.count) (row : Fin textRows) (column : Fin textColumns)
    (y : Fin fontHeight) (x : Fin fontWidth) :
    (Stamp.stack (lineStamp font lines page) (List.range (visibleLines lines page))
      (cellPixel row column y x)).getD false =
      ((cellCharacter (pageLines lines.records page) row column).elim false fun character =>
        glyphBit (glyphOf font character) y x) := by
  rw [visibleLines_eq hPage, cellCharacter]
  cases hLine : (pageLines lines.records page)[(row : Nat)]? with
  | none =>
    have hEnd := List.getElem?_eq_none_iff.mp hLine
    rw [Stamp.stack_none]
    · rfl
    · intro other hOther
      have hBefore := List.mem_range.mp hOther
      exact lineStamp_other (by omega) column y x
  | some line =>
    obtain ⟨hRow, -⟩ := List.getElem?_eq_some_iff.mp hLine
    rw [Stamp.stack_only (List.mem_range.mpr hRow)]
    · rw [pageLines_getElem?] at hLine
      exact lineStamp_cell (hLines line (List.mem_of_getElem? hLine)) hLine column y x
    · exact fun other _ hOther => lineStamp_other hOther column y x

/-- The header and the footer leave the cells alone. -/
theorem drawPage_cell (hLines : ∀ record ∈ lines.records, IsLine record)
    (hPage : page * textRows ≤ lines.count) (pages : Nat) (row : Fin textRows)
    (column : Fin textColumns) (y : Fin fontHeight) (x : Fin fontWidth) :
    isBlack (drawPage font lines title page pages) (cellPixel row column y x) =
      ((cellCharacter (pageLines lines.records page) row column).elim false fun character =>
        glyphBit (glyphOf font character) y x) := by
  have hTop : (32 : Int) ≤ ((cellPixel row column y x).2 : Nat) := by
    simp only [cellPixel]
    omega
  have hBottom : ((cellPixel row column y x).2 : Nat) < (448 : Int) := by
    have hRow := row.isLt
    have hy := y.isLt
    unfold textRows at hRow
    unfold fontHeight at hy
    simp only [cellPixel]
    omega
  generalize hPixel : cellPixel row column y x = p at hTop hBottom ⊢
  have hHeader (framebuffer : Framebuffer) :
      isBlack (framebufferRect framebuffer 0 0 panelWidth 24 true) p = isBlack framebuffer p :=
    (framebufferRect_draws _ _ _ _ _).unseen (gridStamp_outside (by omega)) framebuffer
  have hTitle (framebuffer : Framebuffer) (text : List UInt8) :
      isBlack (framebufferText font framebuffer 8 4 false true text) p = isBlack framebuffer p :=
    (framebufferText_draws _ _ _ _ _ _).unseen (textStamp_outside (by omega)) framebuffer
  have hRule (framebuffer : Framebuffer) :
      isBlack (framebufferRect framebuffer 0 24 panelWidth 1 true) p = isBlack framebuffer p :=
    (framebufferRect_draws _ _ _ _ _).unseen (gridStamp_outside (by omega)) framebuffer
  have hLowerRule (framebuffer : Framebuffer) :
      isBlack (framebufferRect framebuffer 0 (bodyBottom + 7) panelWidth 1 true) p =
        isBlack framebuffer p :=
    (framebufferRect_draws _ _ _ _ _).unseen (gridStamp_outside (by unfold bodyBottom; omega))
      framebuffer
  have hFooter (framebuffer : Framebuffer) (text : List UInt8) :
      isBlack (framebufferText font framebuffer 8 460 true false text) p = isBlack framebuffer p :=
    (framebufferText_draws _ _ _ _ _ _).unseen (textStamp_outside (by omega)) framebuffer
  unfold drawPage
  rw [hFooter, hLowerRule, drawBody_draws, hRule, hTitle, hHeader, isBlack_white, ← hPixel]
  exact body_cell hLines hPage row column y x

theorem renderText_page {allocates : Nat → Bool} {input : List UInt8}
    (hDocument : documentLines allocates input = some lines) (font : GlyphTable)
    (framebuffer : Framebuffer) (title : List UInt8) (pageCount : Nat)
    (hPage : page < pageTotal lines.count) :
    renderText allocates font framebuffer input title page pageCount =
      ⟨0, drawPage font lines title page (pageTotal lines.count), pageTotal lines.count⟩ := by
  simp only [renderText, hDocument]
  exact if_neg (by omega)

theorem renderText_outOfRange {allocates : Nat → Bool} {input : List UInt8}
    (hDocument : documentLines allocates input = some lines) (font : GlyphTable)
    (framebuffer : Framebuffer) (title : List UInt8) (pageCount : Nat)
    (hPage : pageTotal lines.count ≤ page) :
    renderText allocates font framebuffer input title page pageCount =
      ⟨-1, framebuffer, pageCount⟩ := by
  simp only [renderText, hDocument]
  exact if_pos hPage

end Page

/-- A document has its lines on its pages, one after the other.  The body of a page shows, cell by
cell, the glyphs of its lines and nothing else, and a page out of range leaves everything as it
was. -/
theorem renderText_pages (allocates : Nat → Bool) (font : GlyphTable) (framebuffer : Framebuffer)
    (input title : List UInt8) (page pageCount : Nat) :
    ((∀ size, allocates size = true) → ∃ lines, documentLines allocates input = some lines) ∧
    (documentLines allocates input = none →
      renderText allocates font framebuffer input title page pageCount =
        ⟨-1, framebuffer, pageCount⟩) ∧
    ∀ lines, documentLines allocates input = some lines →
      (∀ line ∈ lines.records, IsLine line) ∧
      (List.range (pageTotal lines.count)).flatMap (pageLines lines.records) = lines.records ∧
      (∀ p, (pageLines lines.records p).length ≤ 26) ∧
      (page < pageTotal lines.count → ∃ drawn,
        renderText allocates font framebuffer input title page pageCount =
          ⟨0, drawn, pageTotal lines.count⟩ ∧
        ∀ row column y x, isBlack drawn (cellPixel row column y x) =
          ((cellCharacter (pageLines lines.records page) row column).elim false fun character =>
            glyphBit (glyphOf font character) y x)) ∧
      (pageTotal lines.count ≤ page →
        renderText allocates font framebuffer input title page pageCount =
          ⟨-1, framebuffer, pageCount⟩) := by
  refine ⟨fun hMemory => documentLines_isSome hMemory input, fun hNone => ?_, fun lines hLines => ?_⟩
  · simp only [renderText, hNone]
  have hRecords := documentLines_lines hLines
  refine ⟨hRecords, ?_, fun p => ?_, fun hPage => ?_, fun hPage => ?_⟩
  · rw [pageLines_flatten]
    exact List.take_of_length_le (pageTotal_enough lines.count)
  · exact List.length_take_le _ _
  · refine ⟨_, renderText_page hLines font framebuffer title pageCount hPage, ?_⟩
    exact drawPage_cell hRecords (firstLine_le hPage) _
  · exact renderText_outOfRange hLines font framebuffer title pageCount hPage

end Esp32Fx.Einkctl
