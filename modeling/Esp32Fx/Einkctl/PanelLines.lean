import Esp32Fx.Einkctl.PanelFacts
import Esp32Fx.Lib.Holdings

/-! What the driver opens and exports, and that it closes and takes back just that, however its calls
fail. -/

namespace Esp32Fx.Einkctl

open Lib Program

variable {wiring : Wiring} {rounds : Nat} {I : Bench → Prop} {w s t u : Bench}

/-! ### Lines -/

/-- From `w` on, the lines with the numbers `mine` have been exported. -/
structure Exports (mine : List (List UInt8)) (w t : Bench) : Prop where
  nodup : mine.Nodup
  fresh : ∀ text ∈ mine, ∀ n, numberText n = text → w.exported n = false
  held : ∀ text ∈ mine, ∀ n, numberText n = text → t.exported n = true
  kept : ∀ n, w.exported n = true → t.exported n = true
  /-- Without a fault, no other line has been. -/
  exact : t.faulty = false → ∀ n, t.exported n = (w.exported n || decide (numberText n ∈ mine))

theorem Exports.nil (w : Bench) : Exports [] w w where
  nodup := .nil
  fresh := nofun
  held := nofun
  kept _ h := h
  exact _ n := by simp

/-- A step that exports no line and takes none back. -/
theorem Exports.same {mine : List (List UInt8)} (h : Exports mine w s)
    (hExported : t.exported = s.exported) (hFaulty : t.faulty = false → s.faulty = false) :
    Exports mine w t where
  nodup := h.nodup
  fresh := h.fresh
  held text hText n hn := by
    rw [hExported]
    exact h.held text hText n hn
  kept n hn := by
    rw [hExported]
    exact h.kept n hn
  exact hf n := by
    rw [hExported]
    exact h.exact (hFaulty hf) n

/-- The lines with a number are exported beside those that are. -/
def withLine (text : List UInt8) (exported : Nat → Bool) : Nat → Bool :=
  fun n => exported n || decide (numberText n = text)

/-- The lines with a number are taken back. -/
def withoutLine (text : List UInt8) (exported : Nat → Bool) : Nat → Bool :=
  fun n => exported n && decide (numberText n ≠ text)

/-- What an export leaves, with what it returns. -/
inductive ExportEffect (text : List UInt8) (s : Bench) : Option Errno → Bench → Prop
  | exported {v : Bench} (hNew : ∀ n, numberText n = text → s.exported n = false)
    (hExported : v.exported = withLine text s.exported) (hFaulty : v.faulty = s.faulty) :
    ExportEffect text s none v
  | refused {v : Bench} {errno : Errno} (hExported : v.exported = s.exported)
    (hFaulty : v.faulty = false → s.faulty = false) : ExportEffect text s (some errno) v
  /-- The file could not be closed. -/
  | stale {v : Bench} {errno : Errno} (hExported : v.exported = withLine text s.exported)
    (hFaulty : v.faulty = true) : ExportEffect text s (some errno) v

/-- The lines that an export with a result makes the driver's own. -/
def ownLine (text : List UInt8) : Option Errno → List (List UInt8)
  | none => [text]
  | some _ => []

theorem Exports.export {mine : List (List UInt8)} {number : Nat} {r : Option Errno}
    (h : Exports mine w s) (hEffect : ExportEffect (numberText number) s r t) :
    Exports (ownLine (numberText number) r ++ mine) w t := by
  have hKept : ∀ n, s.exported n = true → withLine (numberText number) s.exported n = true := by
    intro n hn
    rw [withLine, hn, Bool.true_or]
  cases hEffect with
  | refused hExported hFaulty => exact h.same hExported hFaulty
  | stale hExported hFaulty =>
    refine ⟨h.nodup, h.fresh, ?_, ?_, fun hf => by rw [hFaulty] at hf; cases hf⟩
    · intro text hText n hn
      rw [hExported]
      exact hKept n (h.held text hText n hn)
    · intro n hn
      rw [hExported]
      exact hKept n (h.kept n hn)
  | exported hNew hExported hFaulty =>
    have hOther : numberText number ∉ mine := by
      intro hMem
      have hTrue := h.held _ hMem number rfl
      rw [hNew number rfl] at hTrue
      cases hTrue
    refine ⟨List.nodup_cons.mpr ⟨hOther, h.nodup⟩, ?_, ?_, ?_, ?_⟩
    · intro text hText n hn
      rcases List.mem_cons.mp hText with rfl | hOld
      · cases hw : w.exported n with
        | false => rfl
        | true => rw [← hNew n hn, h.kept n hw]
      · exact h.fresh text hOld n hn
    · intro text hText n hn
      rw [hExported]
      rcases List.mem_cons.mp hText with rfl | hOld
      · rw [withLine, decide_eq_true hn, Bool.or_true]
      · exact hKept n (h.held text hOld n hn)
    · intro n hn
      rw [hExported]
      exact hKept n (h.kept n hn)
    · intro hf n
      rw [hExported, withLine, h.exact (hFaulty ▸ hf) n, ownLine, List.singleton_append]
      simp only [List.mem_cons, Bool.decide_or, Bool.or_assoc]
      rw [Bool.or_comm (decide (numberText n ∈ mine))]

/-- What an unexport leaves. -/
def UnexportEffect (text : List UInt8) (s t : Bench) : Prop :=
  t.exported = s.exported ∧ t.faulty = true ∨
    t.exported = withoutLine text s.exported ∧ (t.faulty = false → s.faulty = false)

theorem Exports.unexport {mine : List (List UInt8)} {text : List UInt8}
    (h : Exports (text :: mine) w s) (hEffect : UnexportEffect text s t) : Exports mine w t := by
  obtain ⟨hNew, hNodup⟩ := List.nodup_cons.mp h.nodup
  have hFresh : ∀ text' ∈ mine, ∀ n, numberText n = text' → w.exported n = false :=
    fun text' hText => h.fresh text' (List.mem_cons_of_mem _ hText)
  rcases hEffect with ⟨hExported, hFaulty⟩ | ⟨hExported, hFaulty⟩
  · refine ⟨hNodup, hFresh, ?_, ?_, fun hf => by rw [hFaulty] at hf; cases hf⟩
    · intro text' hText n hn
      rw [hExported]
      exact h.held text' (List.mem_cons_of_mem _ hText) n hn
    · intro n hn
      rw [hExported]
      exact h.kept n hn
  · have hOthers : ∀ n, numberText n ≠ text → t.exported n = s.exported n := by
      intro n hn
      rw [hExported, withoutLine, decide_eq_true hn, Bool.and_true]
    refine ⟨hNodup, hFresh, ?_, ?_, ?_⟩
    · intro text' hText n hn
      have hNe : numberText n ≠ text := by
        rintro rfl
        exact hNew (hn ▸ hText)
      rw [hOthers n hNe]
      exact h.held text' (List.mem_cons_of_mem _ hText) n hn
    · intro n hn
      have hNe : numberText n ≠ text := by
        intro hEq
        rw [h.fresh text List.mem_cons_self n hEq] at hn
        cases hn
      rw [hOthers n hNe]
      exact h.kept n hn
    · intro hf n
      have hExact := h.exact (hFaulty hf) n
      by_cases hText : numberText n = text
      · rw [hExported, withoutLine, decide_eq_false (not_not.mpr hText), Bool.and_false,
          h.fresh text List.mem_cons_self n hText, hText, decide_eq_false hNew, Bool.or_false]
      · rw [hOthers n hText, hExact]
        simp only [List.mem_cons, hText, false_or]

/-! ### What a run holds -/

/-- No byte goes out. -/
def Quiet (l : List Signal) : Prop := ∀ x ∈ l, ∀ data byte, x ≠ .byte data byte

def QuietFrom (w t : Bench) : Prop := ∃ l, t.log = w.log ++ l ∧ Quiet l

theorem QuietFrom.refl (w : Bench) : QuietFrom w w := ⟨[], (List.append_nil _).symm, nofun⟩

theorem QuietFrom.trans (h : QuietFrom w s) (h' : QuietFrom s t) : QuietFrom w t := by
  obtain ⟨l, hLog, hl⟩ := h
  obtain ⟨l', hLog', hl'⟩ := h'
  refine ⟨l ++ l', by rw [hLog', hLog, List.append_assoc], ?_⟩
  intro x hx
  rcases List.mem_append.mp hx with hFirst | hSecond
  · exact hl x hFirst
  · exact hl' x hSecond

theorem QuietFrom.same (h : t.log = s.log) : QuietFrom s t := ⟨[], by rw [h, List.append_nil], nofun⟩

theorem Bench.drive_files (s : Bench) (number : Nat) (level : Bool) :
    (s.drive wiring number level).files = s.files := by
  unfold Bench.drive
  split_ifs <;> rfl

theorem Bench.drive_exported (s : Bench) (number : Nat) (level : Bool) :
    (s.drive wiring number level).exported = s.exported := by
  unfold Bench.drive
  split_ifs <;> rfl

theorem Bench.drive_faulty (s : Bench) (number : Nat) (level : Bool) :
    (s.drive wiring number level).faulty = s.faulty := by
  unfold Bench.drive
  split_ifs <;> rfl

theorem QuietFrom.drive (s : Bench) (number : Nat) (level : Bool) :
    QuietFrom s (s.drive wiring number level) := by
  unfold Bench.drive
  split
  · exact .same rfl
  split
  · exact ⟨[.reset level], rfl, by simp [Quiet]⟩
  · exact .refl s

/-- What a run holds at a place: open files, and lines that it has exported. -/
structure Stands (fds : List Nat) (lines : List (List UInt8)) (w t : Bench) : Prop where
  files : Holds fds w.files t.files
  exports : Exports lines w t
  quiet : QuietFrom w t

theorem Stands.start (w : Bench) : Stands [] [] w w := ⟨.nil _, .nil w, .refl w⟩

theorem Stands.mono {fds : List Nat} {lines : List (List UInt8)} (h : Stands fds lines w s)
    (hFiles : t.files = s.files) (hExports : Exports lines w t) (hQuiet : QuietFrom s t) :
    Stands fds lines w t := ⟨hFiles ▸ h.files, hExports, h.quiet.trans hQuiet⟩

/-- A call that leaves the files, the lines and the wire alone. -/
theorem Stands.same {fds : List Nat} {lines : List (List UInt8)} (h : Stands fds lines w s)
    (hFiles : t.files = s.files) (hExported : t.exported = s.exported)
    (hFaulty : t.faulty = false → s.faulty = false) (hQuiet : QuietFrom s t) :
    Stands fds lines w t := h.mono hFiles (h.exports.same hExported hFaulty) hQuiet

theorem Stands.opened {fds : List Nat} {lines : List (List UInt8)} {fd : Nat}
    (h : Stands fds lines w s) (hFree : s.files fd = none) (file : DeviceFile) :
    Stands (fd :: fds) lines w (s.opened fd file) :=
  ⟨h.files.take hFree file, h.exports.same rfl fun hf => hf, h.quiet.trans (.same rfl)⟩

/-- A descriptor is closed; the call may still fail. -/
theorem Stands.closed {fds : List Nat} {lines : List (List UInt8)} {fd : Nat} {r : Option Errno}
    (h : Stands (fd :: fds) lines w s) (hClose : bench wiring s (.closeFile fd) r t) :
    Stands fds lines w t := by
  cases r with
  | none =>
    obtain rfl : t = s.closed fd := hClose
    exact ⟨h.files.give, h.exports.same rfl fun hf => hf, h.quiet.trans (.same rfl)⟩
  | some errno =>
    obtain rfl : t = { s.closed fd with faulty := true } := hClose
    exact ⟨h.files.give, h.exports.same rfl nofun, h.quiet.trans (.same rfl)⟩

/-! ### The files of the lines -/

theorem Bench.closed_opened {fd : Nat} (file : DeviceFile) (h : s.files fd = none) :
    ((s.opened fd file).closed fd).files = s.files := by
  show Function.update (Function.update s.files fd (some file)) fd none = s.files
  rw [Function.update_idem, ← h, Function.update_eq_self]

/-- `sysfs_write_text` on a file where a write has the effect `effect`, and shows that `N`. -/
theorem sysfsWriteText_keeps {file : DeviceFile} {text : List UInt8} (effect : Bench → Bench)
    {F : Bench → Bench → Prop} {N : Bench → Prop} {Q : Option Errno → Bench → Prop} (hText : text ≠ [])
    (hSpi : ∀ path, file ≠ .spi path) (hQuiet : ∀ v, QuietFrom v (effect v))
    (hFrame : ∀ v, (effect v).files = v.files)
    (hFails : ∀ v t, F v t → QuietFrom v t ∧ t.files = v.files)
    (hWrites : ∀ (v : Bench) fd, v.files fd = some file → ∀ r t, v.Writes wiring fd text r t →
      match r with
      | .error .interrupted => t = v
      | .error _ => F v t
      | .ok count => count = text.length ∧ t = effect v ∧ N v)
    (hRefused : ∀ errno t, bench wiring s (.openFile file) (.error errno) t →
      QuietFrom s t ∧ Q (some errno) t)
    (hDone : ∀ fd, s.files fd = none → N (s.opened fd file) →
      ∀ r t, bench wiring (effect (s.opened fd file)) (.closeFile fd) r t → Q r t)
    (hBroken : ∀ fd, s.files fd = none → ∀ v, F (s.opened fd file) v →
      ∀ r t, bench wiring v (.closeFile fd) r t → ∀ errno, Q (some errno) t) :
    DriverKeeps wiring (QuietFrom s) Q (sysfsWriteText rounds file text) s := by
  refine keeps_perform_bind (.refl s) trivial ?_
  rintro (errno | fd) t hOpen
  · exact hRefused errno t hOpen
  obtain ⟨hFree, rfl⟩ : s.files fd = none ∧ t = s.opened fd file := hOpen
  have hHere : (s.opened fd file).files fd = some file := Function.update_self ..
  have hOpened : QuietFrom s (s.opened fd file) := .same rfl
  have hClosed : ∀ v r t, QuietFrom s v → bench wiring v (.closeFile fd) r t → QuietFrom s t := by
    intro v r t hv hClose
    refine hv.trans ?_
    cases r with
    | none =>
      obtain rfl : t = v.closed fd := hClose
      exact .same rfl
    | some errno =>
      obtain rfl : t = { v.closed fd with faulty := true } := hClose
      exact .same rfl
  apply keeps_bind
  refine keeps_mono (writeAll_whole (I := QuietFrom s) (F := F (s.opened fd file))
    (N := N (s.opened fd file)) (u := effect (s.opened fd file)) (by rw [hHere]; nofun)
    (fun path hPath => hSpi path (Option.some.inj (hHere.symm.trans hPath))) hText hOpened
    (hOpened.trans (hQuiet _)) (fun v hv => hOpened.trans (hFails _ v hv).1) ?_) ?_
  · exact hWrites _ fd hHere
  · intro r v hI hWritten
    cases r with
    | none =>
      obtain ⟨rfl, hShown⟩ : v = effect (s.opened fd file) ∧ N (s.opened fd file) := hWritten
      have hStill : (effect (s.opened fd file)).files fd ≠ none := by
        rw [hFrame, hHere]
        nofun
      refine keeps_call hI hStill ?_
      intro r t hClose
      exact ⟨hClosed _ r t hI hClose, hDone fd hFree hShown r t hClose⟩
    | some errno =>
      have hBad : F (s.opened fd file) v := hWritten
      have hStill : v.files fd ≠ none := by
        rw [(hFails _ v hBad).2, hHere]
        nofun
      refine keeps_perform_bind hI hStill ?_
      intro r t hClose
      exact ⟨hClosed _ r t hI hClose, hBroken fd hFree v hBad r t hClose errno⟩

/-- `closeFile` leaves the table without the descriptor, and the rest but for a fault. -/
theorem closeFile_leaves {fd : Nat} {r : Option Errno} (h : bench wiring s (.closeFile fd) r t) :
    t.files = (s.closed fd).files ∧ t.exported = s.exported ∧ t.log = s.log ∧
      (r = none → t.faulty = s.faulty) ∧ ((∃ errno, r = some errno) → t.faulty = true) := by
  cases r with
  | none =>
    obtain rfl : t = s.closed fd := h
    exact ⟨rfl, rfl, rfl, fun _ => rfl, nofun⟩
  | some errno =>
    obtain rfl : t = { s.closed fd with faulty := true } := h
    exact ⟨rfl, rfl, rfl, nofun, fun _ => rfl⟩

theorem closeFile_faulty {fd : Nat} {r : Option Errno} (h : bench wiring s (.closeFile fd) r t)
    (hf : t.faulty = false) : s.faulty = false := by
  obtain ⟨_, _, _, hDone, hBad⟩ := closeFile_leaves h
  cases r with
  | none => rw [← hDone rfl, hf]
  | some errno =>
    rw [hBad ⟨errno, rfl⟩] at hf
    cases hf

theorem numberText_ne (number : Nat) : numberText number ≠ [] := by
  simp [numberText, ascii, Nat.toString_eq_repr, Nat.repr]

section Lines

variable {fds : List Nat} {lines : List (List UInt8)}

/-- A line is exported, or not. -/
theorem export_keeps (h : Stands fds lines w s) (number : Nat) :
    DriverKeeps wiring (QuietFrom w)
      (fun r t => t.files = s.files ∧ Stands fds (ownLine (numberText number) r ++ lines) w t)
      (sysfsWriteText rounds .exportLine (numberText number)) s := by
  refine keeps_inv (I := QuietFrom s) ?_ fun t ht => h.quiet.trans ht
  have hLeaves : ∀ {r t}, t.files = s.files → t.log = s.log →
      ExportEffect (numberText number) s r t →
      t.files = s.files ∧ Stands fds (ownLine (numberText number) r ++ lines) w t :=
    fun hFiles hLog hEffect =>
      ⟨hFiles, hFiles ▸ h.files, h.exports.export hEffect, h.quiet.trans (.same hLog)⟩
  refine sysfsWriteText_keeps (fun v => v.take wiring .exportLine (numberText number))
    (F := fun v t => t = v)
    (N := fun v => ∀ n, numberText n = numberText number → v.exported n = false)
    (numberText_ne number) nofun (fun v => .same rfl) (fun v => rfl) ?_ ?_ ?_ ?_ ?_
  · rintro v t rfl
    exact ⟨.refl _, rfl⟩
  · intro v fd hFile r t hWrites
    simp only [Bench.Writes, hFile] at hWrites
    rcases r with (_ | _ | _) | count
    · exact hWrites
    · exact hWrites
    · exact hWrites
    · exact hWrites
  · rintro errno t (rfl : t = s)
    exact ⟨.refl t, hLeaves rfl rfl (.refused rfl fun hf => hf)⟩
  · intro fd hFree hNew r t hClose
    obtain ⟨hFiles, hExported, hLog, hDone, hBad⟩ := closeFile_leaves hClose
    refine hLeaves (hFiles.trans (Bench.closed_opened _ hFree)) hLog ?_
    cases r with
    | none => exact .exported hNew hExported (hDone rfl)
    | some errno => exact .stale hExported (hBad ⟨errno, rfl⟩)
  · rintro fd hFree v rfl r t hClose errno
    obtain ⟨hFiles, hExported, hLog, _⟩ := closeFile_leaves hClose
    have hFaulty := closeFile_faulty hClose
    exact hLeaves (hFiles.trans (Bench.closed_opened _ hFree)) hLog (.refused hExported hFaulty)

/-- A line that was exported is taken back, or the run is faulty. -/
theorem unexport_keeps {number : Nat} (h : Stands fds (numberText number :: lines) w s) :
    DriverKeeps wiring (QuietFrom w) (fun _ t => t.files = s.files ∧ Stands fds lines w t)
      (sysfsWriteText rounds .unexportLine (numberText number)) s := by
  refine keeps_inv (I := QuietFrom s) ?_ fun t ht => h.quiet.trans ht
  have hLeaves : ∀ {t}, t.files = s.files → t.log = s.log →
      UnexportEffect (numberText number) s t → t.files = s.files ∧ Stands fds lines w t :=
    fun hFiles hLog hEffect =>
      ⟨hFiles, hFiles ▸ h.files, h.exports.unexport hEffect, h.quiet.trans (.same hLog)⟩
  refine sysfsWriteText_keeps (fun v => v.take wiring .unexportLine (numberText number))
    (F := fun v t => t = { v with faulty := true }) (N := fun _ => True)
    (numberText_ne number) nofun (fun v => .same rfl) (fun v => rfl) ?_ ?_ ?_ ?_ ?_
  · rintro v t rfl
    exact ⟨.same rfl, rfl⟩
  · intro v fd hFile r t hWrites
    simp only [Bench.Writes, hFile] at hWrites
    rcases r with (_ | _ | _) | count
    · exact hWrites
    · exact hWrites
    · exact hWrites
    · exact ⟨hWrites.1, hWrites.2, trivial⟩
  · rintro errno t (rfl : t = { s with faulty := true })
    exact ⟨.same rfl, hLeaves rfl rfl (.inl ⟨rfl, rfl⟩)⟩
  · intro fd hFree _ r t hClose
    obtain ⟨hFiles, hExported, hLog, _⟩ := closeFile_leaves hClose
    have hFaulty := closeFile_faulty hClose
    exact hLeaves (hFiles.trans (Bench.closed_opened _ hFree)) hLog (.inr ⟨hExported, hFaulty⟩)
  · rintro fd hFree v rfl r t hClose errno
    obtain ⟨hFiles, hExported, hLog, _⟩ := closeFile_leaves hClose
    refine hLeaves (hFiles.trans (Bench.closed_opened _ hFree)) hLog (.inl ⟨hExported, ?_⟩)
    cases hf : t.faulty with
    | true => rfl
    | false => exact absurd (closeFile_faulty hClose hf) (by simp)

theorem directionText_ne (output initial : Bool) : directionText output initial ≠ [] := by
  cases output <;> cases initial <;> decide

/-- The direction of a line is set, or not. -/
theorem direction_keeps (h : Stands fds lines w s) (number : Nat) (output initial : Bool) :
    DriverKeeps wiring (QuietFrom w) (fun _ t => t.files = s.files ∧ Stands fds lines w t)
      (sysfsWriteText rounds (.direction number) (directionText output initial)) s := by
  refine keeps_inv (I := QuietFrom s) ?_ fun t ht => h.quiet.trans ht
  let effect : Bench → Bench := fun v =>
    v.take wiring (.direction number) (directionText output initial)
  have hEffect : ∀ v : Bench, (effect v).files = v.files ∧ (effect v).exported = v.exported ∧
      (effect v).faulty = v.faulty ∧ QuietFrom v (effect v) := by
    intro v
    simp only [effect, Bench.take]
    split
    · exact ⟨rfl, rfl, rfl, .refl v⟩
    · exact ⟨Bench.drive_files .., Bench.drive_exported .., Bench.drive_faulty .., .drive ..⟩
  have hLeaves : ∀ {v t : Bench} {fd r}, s.files fd = none →
      (v = s.opened fd (.direction number) ∨ v = effect (s.opened fd (.direction number))) →
      bench wiring v (.closeFile fd) r t → t.files = s.files ∧ Stands fds lines w t := by
    intro v t fd r hFree hv hClose
    obtain ⟨hFiles, hExported, hLog, _⟩ := closeFile_leaves hClose
    have hFaulty := closeFile_faulty hClose
    obtain ⟨hF, hE, hN, hQ⟩ := hEffect (s.opened fd (.direction number))
    have hAll : v.files = (s.opened fd (.direction number)).files ∧ v.exported = s.exported ∧
        v.faulty = s.faulty ∧ QuietFrom s v := by
      rcases hv with rfl | rfl
      · exact ⟨rfl, rfl, rfl, .same rfl⟩
      · exact ⟨hF, hE, hN, .trans (.same rfl) hQ⟩
    have hSame : t.files = s.files := by
      rw [hFiles, ← Bench.closed_opened (.direction number) hFree]
      simp only [Bench.closed, hAll.1]
    exact ⟨hSame, h.same hSame (hExported.trans hAll.2.1) (fun hf => hAll.2.2.1 ▸ hFaulty hf)
      (hAll.2.2.2.trans (.same hLog))⟩
  have hSpi : ∀ path, DeviceFile.direction number ≠ .spi path := by
    rintro path ⟨⟩
  refine sysfsWriteText_keeps effect (F := fun v t => t = v ∨ t = effect v)
    (N := fun _ => True) (directionText_ne output initial) hSpi (fun v => (hEffect v).2.2.2)
    (fun v => (hEffect v).1) ?_ ?_ ?_ ?_ ?_
  · rintro v t (rfl | rfl)
    · exact ⟨.refl _, rfl⟩
    · exact ⟨(hEffect v).2.2.2, (hEffect v).1⟩
  · intro v fd hFile r t hWrites
    simp only [Bench.Writes, hFile] at hWrites
    rcases r with (_ | _ | _) | count
    · exact hWrites
    · exact hWrites
    · exact hWrites
    · exact ⟨hWrites.1, hWrites.2, trivial⟩
  · rintro errno t (rfl : t = s)
    exact ⟨.refl t, rfl, h⟩
  · exact fun fd hFree _ r t hClose => hLeaves hFree (.inr rfl) hClose
  · exact fun fd hFree v hv r t hClose _ => hLeaves hFree hv hClose

/-! ### The controller -/

/-- A small file is read, with what the read shows of the text. -/
theorem readSmallFile_keeps (h : Stands fds lines w s) (file : DeviceFile) (capacity : Nat)
    {N : List UInt8 → Prop} (hUnexport : file ≠ .unexportLine)
    (hReads : ∀ (v : Bench) fd, v.files fd = some file → ∀ r t,
      v.Reads wiring fd (capacity - 1) r t → t = v ∧ ∀ text, r = .ok text → N (chomp text)) :
    DriverKeeps wiring (QuietFrom w)
      (fun r t => t.files = s.files ∧ Stands fds lines w t ∧ ∀ text, r = some text → N text)
      (readSmallFile file capacity) s := by
  refine keeps_perform_bind h.quiet trivial ?_
  rintro (errno | fd) t hOpen
  · obtain rfl : t = s := by
      cases file with
      | unexportLine => exact absurd rfl hUnexport
      | _ => exact hOpen
    exact ⟨h.quiet, rfl, h, nofun⟩
  obtain ⟨hFree, rfl⟩ : s.files fd = none ∧ t = s.opened fd file := hOpen
  have hHere : (s.opened fd file).files fd = some file := Function.update_self ..
  have hOpen : (s.opened fd file).files fd ≠ none := by
    rw [hHere]
    nofun
  have hOpened := h.opened hFree file
  refine keeps_perform_bind hOpened.quiet hOpen ?_
  intro amount t hRead
  obtain ⟨rfl, hText⟩ := hReads _ fd hHere amount t hRead
  refine keeps_perform_bind hOpened.quiet hOpen ?_
  intro r t hClose
  have hClosed := hOpened.closed hClose
  have hSame := (closeFile_leaves hClose).1.trans (Bench.closed_opened _ hFree)
  cases amount with
  | error errno => exact ⟨hClosed.quiet, hSame, hClosed, nofun⟩
  | ok text =>
    refine ⟨hClosed.quiet, hSame, hClosed, ?_⟩
    rintro _ ⟨⟩
    exact hText text rfl

theorem chipBase_keeps (h : Stands fds lines w s) (name : List UInt8) :
    DriverKeeps wiring (QuietFrom w) (fun r t => t.files = s.files ∧ Stands fds lines w t ∧
      ∀ base, r = some base → base = wiring.base) (chipBase name) s := by
  have hNone : ∀ base, none = some base → base = wiring.base := by
    rintro base ⟨⟩
  unfold chipBase
  by_cases hChip : isChip name = true
  case neg =>
    rw [if_pos (by simpa using hChip)]
    exact ⟨h.quiet, rfl, h, hNone⟩
  rw [if_neg (by simpa using hChip)]
  apply keeps_bind
  refine keeps_mono (readSmallFile_keeps h (.label name) 96
    (N := fun label => strEq label gpioLabel = true → name = wiring.entry)
    (by rintro ⟨⟩) ?_) ?_
  · intro v fd hFile r t hRead
    simp only [Bench.Reads, hFile] at hRead
    cases r with
    | error errno =>
      refine ⟨hRead, ?_⟩
      rintro text ⟨⟩
    | ok text =>
      refine ⟨hRead.1, ?_⟩
      rintro _ ⟨⟩
      exact hRead.2.2
  rintro (_ | label) t hI ⟨hFiles, hStands, hLabel⟩
  · exact ⟨hI, hFiles, hStands, hNone⟩
  by_cases hName : strEq label gpioLabel = true
  case neg =>
    simp only [hName]
    exact ⟨hI, hFiles, hStands, hNone⟩
  simp only [hName, Bool.not_true, Bool.false_eq_true, if_false]
  apply keeps_bind
  refine keeps_mono (readSmallFile_keeps hStands (.base name) 32
    (N := fun base => parseBase base = some wiring.base) (by rintro ⟨⟩) ?_) ?_
  · intro v fd hFile r t hRead
    simp only [Bench.Reads, hFile] at hRead
    cases r with
    | error errno =>
      refine ⟨hRead, ?_⟩
      rintro text ⟨⟩
    | ok text =>
      refine ⟨hRead.1, ?_⟩
      rintro _ ⟨⟩
      exact hRead.2.2 (hLabel label rfl hName)
  rintro (_ | base) u hI ⟨hFiles', hStands', hBase⟩
  · exact ⟨hI, hFiles'.trans hFiles, hStands', hNone⟩
  · refine ⟨hI, hFiles'.trans hFiles, hStands', ?_⟩
    intro base' hParsed
    exact Option.some.inj (hParsed.symm.trans (hBase base rfl))

theorem findGpioBase_keeps (h : Stands fds lines w s) :
    DriverKeeps wiring (QuietFrom w) (fun r t => t.files = s.files ∧ Stands fds lines w t ∧
      ∀ base, r = some base → base = wiring.base) (findGpioBase rounds) s := by
  refine keeps_perform_bind h.quiet trivial ?_
  rintro (_ | directory) t hCall
  · obtain rfl : t = s := hCall
    exact ⟨h.quiet, rfl, h, nofun⟩
  · obtain ⟨hFree, rfl⟩ : s.files directory = none ∧ t = s.opened directory .directory := hCall
    have hOpened := h.opened hFree .directory
    have hHere : ∀ u : Bench, u.files = (s.opened directory .directory).files →
        u.files directory = some .directory := by
      intro u hFiles
      rw [hFiles]
      exact Function.update_self ..
    apply keeps_bind
    refine keeps_mono (keeps_loop
      (J := fun _ u => u.files = (s.opened directory .directory).files ∧
        Stands (directory :: fds) lines w u)
      (Q := fun r u => u.files = (s.opened directory .directory).files ∧
        Stands (directory :: fds) lines w u ∧ ∀ base, r = some base → base = wiring.base)
      ?_ (fun _ u hu => spin_keeps hu.2.quiet) rounds ⟨rfl, hOpened⟩) ?_
    · rintro _ u ⟨hFiles, hStands⟩
      refine keeps_perform_bind hStands.quiet (hHere _ hFiles) ?_
      rintro (_ | name) v (rfl : v = u)
      · exact ⟨hStands.quiet, hFiles, hStands, nofun⟩
      apply keeps_bind
      apply keeps_mono (chipBase_keeps hStands name)
      rintro (_ | base) x hI ⟨hFiles', hStands', hBase⟩
      · exact ⟨hI, hFiles'.trans hFiles, hStands'⟩
      · exact ⟨hI, hFiles'.trans hFiles, hStands', hBase⟩
    · rintro r u hI ⟨hFiles, hStands, hBase⟩
      refine keeps_perform_bind hI (hHere _ hFiles) ?_
      rintro _ v (rfl : v = u.closed directory)
      have hClosed : bench wiring u (.closeFile directory) none (u.closed directory) := rfl
      have hSame : (u.closed directory).files = s.files := by
        rw [← Bench.closed_opened .directory hFree]
        simp only [Bench.closed, hFiles]
      have hStands' := hStands.closed hClosed
      exact ⟨hStands'.quiet, hSame, hStands', hBase⟩

/-! ### The lines of the panel -/

/-- The descriptor of a line. -/
def Line.descriptors (line : Line) : List Nat := line.valueFd.toList

/-- The number of a line that the driver has exported. -/
def Line.exports (line : Line) : List (List UInt8) :=
  if line.exportedHere then [numberText line.number] else []

/-- The files that were open still are. -/
def Kept (s t : Bench) : Prop := ∀ fd file, s.files fd = some file → t.files fd = some file

theorem Kept.of_eq (h : t.files = s.files) : Kept s t := fun fd file hFile => by rw [h, hFile]

theorem waitWritable_keeps (h : Stands fds lines w s) (file : DeviceFile) :
    DriverKeeps wiring (QuietFrom w) (fun _ t => t.files = s.files ∧ Stands fds lines w t)
      (waitWritable rounds file) s := by
  refine keeps_loop (J := fun _ u => u.files = s.files ∧ Stands fds lines w u)
    ?_ (fun _ u hu => spin_keeps hu.2.quiet) rounds ⟨rfl, h⟩
  rintro attempt u ⟨hFiles, hStands⟩
  by_cases hLast : attempt = 100
  · simp only [if_pos hLast]
    exact ⟨hStands.quiet, hFiles, hStands⟩
  simp only [if_neg hLast]
  refine keeps_perform_bind hStands.quiet trivial ?_
  rintro found v (rfl : v = u)
  cases found with
  | true => exact ⟨hStands.quiet, hFiles, hStands⟩
  | false =>
    refine keeps_perform_bind hStands.quiet trivial ?_
    rintro _ x (rfl : x = _)
    have hPause : QuietFrom v (v.add [.pause 10]) := ⟨[.pause 10], rfl, by simp [Quiet]⟩
    have hNext : Stands fds lines w (v.add [.pause 10]) := hStands.same rfl rfl (fun hf => hf) hPause
    exact ⟨hNext.quiet, hFiles, hNext⟩

/-- What an attempt to open a line leaves. -/
structure LineOpened (fds : List Nat) (lines : List (List UInt8)) (w s : Bench) (number : Nat)
    (ok : Bool) (line : Line) (t : Bench) : Prop where
  numbered : line.number = number
  stands : Stands (line.descriptors ++ fds) (line.exports ++ lines) w t
  kept : Kept s t
  ready : ok = true → ∃ fd, line.valueFd = some fd ∧ t.files fd = some (.value number)

theorem configureLine_keeps {line : Line} (hClosed : line.valueFd = none)
    (h : Stands fds (line.exports ++ lines) w s) (output initial : Bool) :
    DriverKeeps wiring (QuietFrom w)
      (fun r t => LineOpened fds lines w s line.number r.1 r.2 t)
      (configureLine rounds line output initial) s := by
  have hSame : ∀ {t : Bench}, t.files = s.files → Stands fds (line.exports ++ lines) w t →
      LineOpened fds lines w s line.number false line t := by
    intro t hFiles hStands
    refine ⟨rfl, ?_, .of_eq hFiles, nofun⟩
    rwa [Line.descriptors, hClosed]
  unfold configureLine
  apply keeps_bind
  apply keeps_mono (waitWritable_keeps h _)
  rintro found t hI ⟨hFiles, hStands⟩
  cases found with
  | false => exact ⟨hI, hSame hFiles hStands⟩
  | true =>
    apply keeps_bind
    apply keeps_mono (direction_keeps hStands line.number output initial)
    rintro (_ | errno) u hI ⟨hFiles', hStands'⟩
    · refine keeps_perform_bind hI trivial ?_
      rintro (errno | fd) v hOpen
      · obtain rfl : v = u := hOpen
        exact ⟨hI, hSame (hFiles'.trans hFiles) hStands'⟩
      · obtain ⟨hFree, rfl⟩ : u.files fd = none ∧ v = u.opened fd (.value line.number) := hOpen
        have hOpened := hStands'.opened hFree (.value line.number)
        refine ⟨hOpened.quiet, rfl, hOpened, ?_, fun _ => ⟨fd, rfl, Function.update_self ..⟩⟩
        intro fd' file hFile
        rw [← hFiles, ← hFiles'] at hFile
        exact Holds.update_kept hFree hFile _
    · exact ⟨hI, hSame (hFiles'.trans hFiles) hStands'⟩

theorem gpioOpenLine_keeps (h : Stands fds lines w s) (base offset : Nat) (output initial : Bool) :
    DriverKeeps wiring (QuietFrom w)
      (fun r t => LineOpened fds lines w s (lineNumber base offset) r.1 r.2 t)
      (gpioOpenLine rounds base offset output initial) s := by
  apply keeps_bind
  apply keeps_mono (export_keeps h (lineNumber base offset))
  rintro r t hI ⟨hFiles, hStands⟩
  have hKept : ∀ {ok line u}, LineOpened fds lines w t (lineNumber base offset) ok line u →
      LineOpened fds lines w s (lineNumber base offset) ok line u :=
    fun hOpened => { hOpened with kept := fun fd file hFile => hOpened.kept fd file (hFiles ▸ hFile) }
  rcases r with _ | _ | _ | _
  · exact keeps_mono (configureLine_keeps rfl hStands output initial) fun _ _ _ => hKept
  · exact ⟨hI, rfl, hStands, .of_eq hFiles, nofun⟩
  · exact keeps_mono (configureLine_keeps rfl hStands output initial) fun _ _ _ => hKept
  · exact ⟨hI, rfl, hStands, .of_eq hFiles, nofun⟩

end Lines

/-! ### The panel -/

/-- The descriptors of a panel, the last one opened first. -/
def Panel.descriptors (panel : Panel) : List Nat :=
  panel.spiFd.toList ++ (panel.busy.descriptors ++ (panel.reset.descriptors ++
    panel.dc.descriptors))

/-- The lines that a panel has exported, the last one first. -/
def Panel.exports (panel : Panel) : List (List UInt8) :=
  panel.busy.exports ++ (panel.reset.exports ++ panel.dc.exports)

/-- What an attempt to open the panel leaves. -/
structure PanelOpened (wiring : Wiring) (w : Bench) (ok : Bool) (panel : Panel) (t : Bench) :
    Prop where
  stands : Stands panel.descriptors panel.exports w t
  ready : ok = true → Ready wiring panel t.files

theorem openLines_keeps {panel : Panel} (hSpi : panel.spiFd = none)
    (hReset : panel.reset = ⟨0, none, false⟩) (hBusy : panel.busy = ⟨0, none, false⟩)
    (h : Stands [] [] w s) :
    DriverKeeps wiring (QuietFrom w)
      (fun r t => r.2.spiFd = none ∧ Stands r.2.descriptors r.2.exports w t ∧ (r.1 = true →
        (∃ fd, r.2.dc.valueFd = some fd ∧
          t.files fd = some (.value (lineNumber wiring.base pinDc))) ∧
        (∃ fd, r.2.reset.valueFd = some fd ∧
          t.files fd = some (.value (lineNumber wiring.base pinReset))) ∧
        ∃ fd, r.2.busy.valueFd = some fd ∧
          t.files fd = some (.value (lineNumber wiring.base pinBusy))))
      (openLines rounds wiring.base panel) s := by
  unfold openLines
  apply keeps_bind
  apply keeps_mono (gpioOpenLine_keeps h wiring.base pinDc true false)
  rintro ⟨ok, dc⟩ t hI hDc
  have hStands : Stands dc.descriptors dc.exports w t := by simpa using hDc.stands
  cases ok with
  | false =>
    refine ⟨hI, hSpi, ?_, nofun⟩
    simpa [Panel.descriptors, Panel.exports, hSpi, hReset, hBusy, Line.descriptors, Line.exports]
      using hStands
  | true =>
    apply keeps_bind
    apply keeps_mono (gpioOpenLine_keeps hStands wiring.base pinReset true true)
    rintro ⟨ok, reset⟩ u hI hReset'
    cases ok with
    | false =>
      refine ⟨hI, hSpi, ?_, nofun⟩
      simpa [Panel.descriptors, Panel.exports, hSpi, hBusy, Line.descriptors, Line.exports]
        using hReset'.stands
    | true =>
      apply keeps_bind
      apply keeps_mono (gpioOpenLine_keeps hReset'.stands wiring.base pinBusy false false)
      rintro ⟨ok, busy⟩ v hI hBusy'
      refine ⟨hI, hSpi, ?_, ?_⟩
      · simpa [Panel.descriptors, Panel.exports, hSpi] using hBusy'.stands
      · rintro rfl
        obtain ⟨fd, hFd, hFile⟩ := hDc.ready rfl
        obtain ⟨fd', hFd', hFile'⟩ := hReset'.ready rfl
        exact ⟨⟨fd, hFd, hBusy'.kept _ _ (hReset'.kept _ _ hFile)⟩,
          ⟨fd', hFd', hBusy'.kept _ _ hFile'⟩, hBusy'.ready rfl⟩

theorem configure_only {fd : Nat} (h : s.files fd ≠ none) (hI : I s) (settings : List Setting) :
    DriverKeeps wiring I (fun _ t => t = s) (allOf (settings.map (configure fd))) s := by
  induction settings with
  | nil => exact ⟨hI, rfl⟩
  | cons setting settings ih =>
    refine keeps_perform_bind hI h ?_
    rintro ok t (rfl : t = s)
    cases ok with
    | false => exact ⟨hI, rfl⟩
    | true => exact ih

theorem panelOpen_keeps (h : Stands [] [] w s) (device : List UInt8) (speedHz : Nat) :
    DriverKeeps wiring (QuietFrom w) (fun r t => PanelOpened wiring w r.1 r.2 t)
      (panelOpen rounds device speedHz) s := by
  unfold panelOpen
  apply keeps_bind
  apply keeps_mono (findGpioBase_keeps h)
  rintro (_ | base) t hI ⟨_, hStands, hBase⟩
  · exact ⟨hI, hStands, nofun⟩
  obtain rfl := hBase base rfl
  apply keeps_bind
  apply keeps_mono (openLines_keeps rfl rfl rfl hStands)
  rintro ⟨ok, panel⟩ u hI ⟨hSpi, hStands', hReady⟩
  cases ok with
  | false => exact ⟨hI, hStands', nofun⟩
  | true =>
    refine keeps_perform_bind hI trivial ?_
    rintro (errno | fd) v hOpen
    · obtain rfl : v = u := hOpen
      exact ⟨hI, hStands', nofun⟩
    obtain ⟨hFree, rfl⟩ : u.files fd = none ∧ v = u.opened fd (.spi device) := hOpen
    have hHere : (u.opened fd (.spi device)).files fd = some (.spi device) := Function.update_self ..
    have hOpened : Stands (fd :: panel.descriptors) panel.exports w (u.opened fd (.spi device)) :=
      hStands'.opened hFree _
    apply keeps_bind
    refine keeps_mono (configure_only (by rw [hHere]; nofun) hOpened.quiet
      [.mode 0, .bitsPerWord 8, .maxSpeedHz speedHz]) ?_
    rintro ok x hI rfl
    refine ⟨hI, ?_, fun _ => ?_⟩
    · have hNone : panel.spiFd = none := hSpi
      rw [Panel.descriptors, hNone] at hOpened
      exact hOpened
    · obtain ⟨⟨dc, hDc, hDcFile⟩, ⟨reset, hReset, hResetFile⟩, ⟨busy, hBusy, hBusyFile⟩⟩ :=
        hReady rfl
      exact ⟨⟨fd, device, rfl, hHere⟩, ⟨dc, hDc, Holds.update_kept hFree hDcFile _⟩,
        ⟨reset, hReset, Holds.update_kept hFree hResetFile _⟩,
        ⟨busy, hBusy, Holds.update_kept hFree hBusyFile _⟩⟩

section Close

variable {fds : List Nat} {lines : List (List UInt8)}

theorem closeOpen_keeps {fd : Option Nat} (h : Stands (fd.toList ++ fds) lines w s) :
    DriverKeeps wiring (QuietFrom w) (fun _ t => Stands fds lines w t) (closeOpen fd) s := by
  cases fd with
  | none => exact ⟨h.quiet, h⟩
  | some fd =>
    refine keeps_perform_bind h.quiet (h.files.held fd List.mem_cons_self) ?_
    intro r t hClose
    have hClosed : Stands fds lines w t := Stands.closed h hClose
    exact ⟨hClosed.quiet, hClosed⟩

theorem gpioCloseLine_keeps {line : Line}
    (h : Stands (line.descriptors ++ fds) (line.exports ++ lines) w s) :
    DriverKeeps wiring (QuietFrom w) (fun _ t => Stands fds lines w t)
      (gpioCloseLine rounds line) s := by
  apply keeps_bind
  apply keeps_mono (closeOpen_keeps h)
  intro _ t hI hStands
  by_cases hExported : line.exportedHere = true
  · rw [Line.exports, if_pos hExported] at hStands
    rw [if_pos hExported]
    apply keeps_bind
    apply keeps_mono (unexport_keeps hStands)
    exact fun _ u hI hu => ⟨hI, hu.2⟩
  · rw [Line.exports, if_neg hExported] at hStands
    rw [if_neg hExported]
    exact ⟨hI, hStands⟩

theorem panelClose_keeps {panel : Panel} (h : Stands panel.descriptors panel.exports w s) :
    DriverKeeps wiring (QuietFrom w) (fun _ t => Stands [] [] w t) (panelClose rounds panel) s := by
  apply keeps_bind
  apply keeps_mono (closeOpen_keeps h)
  intro _ t _ hSpi
  apply keeps_bind
  apply keeps_mono (gpioCloseLine_keeps hSpi)
  intro _ u _ hBusy
  apply keeps_bind
  apply keeps_mono (gpioCloseLine_keeps hBusy)
  intro _ v _ hReset
  apply gpioCloseLine_keeps
  simpa using hReset

end Close

end Esp32Fx.Einkctl
