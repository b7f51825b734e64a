import Esp32Fx.Einkctl.PanelLines

/-! A refresh that succeeds: where every call succeeds and the panel is found idle, the process reports
success. -/

namespace Esp32Fx.Einkctl

open Lib Program

variable {wiring : Wiring} {rounds : Nat} {panel : Panel} {w s t u : Bench}

abbrev BenchRuns {α : Type} (wiring : Wiring) (s : Bench) (p : Driver α) (a : α) (t : Bench) : Prop :=
  Runs (bench wiring) s p a t

theorem writeAll_runs {fd : Nat} {bytes : List UInt8} (hEmpty : bytes ≠ []) (hRounds : 2 ≤ rounds)
    (h : s.Writes wiring fd bytes (.ok bytes.length) t) :
    BenchRuns wiring s (writeAll rounds fd bytes) none t := by
  obtain ⟨n, rfl⟩ := Nat.exists_eq_add_of_le' hRounds
  refine runs_loop_next (t := t) (c := []) ?_ (runs_loop_end (.ret t _))
  simp only [if_neg hEmpty]
  have hCall : bench wiring s (.writeBytes fd bytes) (.ok bytes.length : Except Errno Nat) t := h
  refine runs_perform_bind hCall ?_
  obtain ⟨count, hCount⟩ := Nat.exists_eq_succ_of_ne_zero (List.length_pos_iff.mpr hEmpty).ne'
  have hRest : bytes.drop (count + 1) = [] := List.drop_eq_nil_of_le (by omega)
  rw [hCount, ← hRest]
  exact .ret t _

theorem panelSpiWrite_runs (hReady : Ready wiring panel s.files) {bytes : List UInt8}
    (hRounds : bytes.length + 2 ≤ rounds) :
    BenchRuns wiring s (panelSpiWrite rounds panel bytes) true (s.send bytes) := by
  obtain ⟨fd, path, hFd, hFile⟩ := hReady.spi
  let J : List UInt8 → Bench → Prop := fun rest t =>
    t.send rest = s.send bytes ∧ t.files fd = some (.spi path)
  suffices h : ∃ ok t, BenchRuns wiring s (panelSpiWrite rounds panel bytes) ok t ∧
      ok = true ∧ t = s.send bytes by
    obtain ⟨_, _, hRun, rfl, rfl⟩ := h
    exact hRun
  rw [panelSpiWrite, hFd]
  refine runs_loop (J := J) List.length ?_ ⟨rfl, hFile⟩ (by omega)
  rintro rest t ⟨hSend, hOpen⟩
  by_cases hEmpty : rest = []
  · subst hEmpty
    refine ⟨.inr true, t, .ret t _, rfl, ?_⟩
    rw [← hSend, Bench.send_nil]
  · have hChunk : rest.take 4096 ≠ [] := by simpa using hEmpty
    have hLength : 0 < rest.length := List.length_pos_iff.mpr hEmpty
    refine ⟨.inl (rest.drop 4096), t.send (rest.take 4096), ?_, ⟨?_, ?_⟩, ?_⟩
    · simp only [if_neg hEmpty]
      refine Runs.bind (writeAll_runs hChunk (by omega) ?_) (.ret _ _)
      simp only [Bench.Writes, hOpen]
      exact ⟨Nat.le_refl _, by rw [List.take_length]⟩
    · rw [Bench.send_send, List.take_append_drop, hSend]
    · rw [Bench.send_files, hOpen]
    · rw [List.length_drop]
      omega

theorem gpioSet_runs {line : Line} {fd number : Nat} (hLine : line.valueFd = some fd)
    (hFile : s.files fd = some (.value number)) (hRounds : 2 ≤ rounds) (value : Bool) :
    BenchRuns wiring s (gpioSet rounds line value) true (s.drive wiring number value) := by
  rw [gpioSet, hLine]
  refine runs_perform_bind (x := true) rfl ?_
  refine Runs.bind (writeAll_runs (t := s.drive wiring number value) (levelText_ne value) hRounds ?_)
    (.ret _ _)
  simp only [Bench.Writes, hFile, Bench.take, levelText_eq]
  exact ⟨trivial, trivial⟩

/-- A part of the driver that can succeed on an open panel. -/
def Can (wiring : Wiring) (panel : Panel) (p : Driver Bool) : Prop :=
  ∀ s : Bench, Ready wiring panel s.files →
    ∃ t, BenchRuns wiring s p true t ∧ t.files = s.files ∧ t.exported = s.exported ∧
      t.faulty = s.faulty

theorem can_allOf (ps : List (Driver Bool)) (h : ∀ p ∈ ps, Can wiring panel p) :
    Can wiring panel (allOf ps) := by
  induction ps with
  | nil => exact fun s _ => ⟨s, .ret s true, rfl, rfl, rfl⟩
  | cons p ps ih =>
    intro s hReady
    obtain ⟨t, hRun, hFiles, hExported, hFaulty⟩ := h p List.mem_cons_self s hReady
    obtain ⟨u, hRest, hFiles', hExported', hFaulty'⟩ :=
      ih (fun q hq => h q (List.mem_cons_of_mem _ hq)) t (hFiles.symm ▸ hReady)
    exact ⟨u, hRun.bind hRest, hFiles'.trans hFiles, hExported'.trans hExported,
      hFaulty'.trans hFaulty⟩

/-- One part and then another. -/
theorem can_then {p q : Driver Bool} (hp : Can wiring panel p) (hq : Can wiring panel q) :
    Can wiring panel (p >>= fun ok => if (!ok) = true then pure false else q) := by
  intro s hReady
  obtain ⟨t, hRun, hFiles, hExported, hFaulty⟩ := hp s hReady
  obtain ⟨u, hRest, hFiles', hExported', hFaulty'⟩ := hq t (hFiles.symm ▸ hReady)
  exact ⟨u, hRun.bind hRest, hFiles'.trans hFiles, hExported'.trans hExported,
    hFaulty'.trans hFaulty⟩

theorem can_pure : Can wiring panel (pure true) := fun s _ => ⟨s, .ret s true, rfl, rfl, rfl⟩

theorem can_sleep {p : Driver Bool} (milliseconds : Nat) (hp : Can wiring panel p) :
    Can wiring panel (sleepMs milliseconds >>= fun _ => p) := by
  intro s hReady
  obtain ⟨t, hRun, hRest⟩ := hp (s.add [.pause milliseconds]) hReady
  exact ⟨t, runs_perform_bind (x := ()) rfl hRun, hRest⟩

theorem can_dc (hRounds : 2 ≤ rounds) (value : Bool) :
    Can wiring panel (gpioSet rounds panel.dc value) := by
  intro s hReady
  obtain ⟨fd, hLine, hFile⟩ := hReady.dc
  exact ⟨_, gpioSet_runs hLine hFile hRounds value, Bench.drive_files .., Bench.drive_exported ..,
    Bench.drive_faulty ..⟩

theorem can_reset (hRounds : 2 ≤ rounds) (value : Bool) :
    Can wiring panel (gpioSet rounds panel.reset value) := by
  intro s hReady
  obtain ⟨fd, hLine, hFile⟩ := hReady.reset
  exact ⟨_, gpioSet_runs hLine hFile hRounds value, Bench.drive_files .., Bench.drive_exported ..,
    Bench.drive_faulty ..⟩

theorem can_spi {bytes : List UInt8} (hRounds : bytes.length + 2 ≤ rounds) :
    Can wiring panel (panelSpiWrite rounds panel bytes) :=
  fun _ hReady => ⟨_, panelSpiWrite_runs hReady hRounds, rfl, rfl, rfl⟩

theorem can_command {data : List UInt8} (hRounds : data.length + 3 ≤ rounds) (command : UInt8) :
    Can wiring panel (panelCommand rounds panel command data) := by
  apply can_then (can_dc (by omega) false)
  apply can_then (can_spi (by simp only [List.length_singleton]; omega))
  by_cases hData : data = []
  · rw [if_pos hData]
    exact can_pure
  · rw [if_neg hData]
    exact can_then (can_dc (by omega) true) (can_spi (by omega))

theorem can_idle (hRounds : 1 ≤ rounds) (timeoutMs : Nat) :
    Can wiring panel (panelWaitIdle rounds panel timeoutMs) := by
  intro s hReady
  obtain ⟨fd, hLine, hFile⟩ := hReady.busy
  obtain ⟨n, rfl⟩ := Nat.exists_eq_add_of_le' hRounds
  refine ⟨s.add [.busy true], ?_, rfl, rfl, rfl⟩
  apply runs_loop_end
  simp only [Nat.zero_le, if_true]
  refine Runs.bind (a := some true) (t := s.add [.busy true]) ?_ (.ret _ _)
  rw [gpioGet, hLine]
  refine runs_perform_bind (x := true) rfl ?_
  have hRead : bench wiring s (.readBytes fd 1) (.ok [0x31] : Except Errno (List UInt8))
      (s.add [.busy true]) := by
    simp [bench, Bench.Reads, hFile]
  simp only [Bool.not_true, Bool.false_eq_true, if_false]
  apply runs_loop_end
  exact runs_perform_bind hRead (.ret _ _)

theorem can_chunks (hRounds : framebufferBytes + 1 ≤ rounds) (value : UInt8) :
    Can wiring panel (fillChunks rounds panel value) := by
  have hLoop : ∀ m remaining, remaining + 1 ≤ m → Can wiring panel (loop (fun remaining =>
      if remaining = 0 then pure (.inr true)
      else do
        let amount := if remaining > 256 then 256 else remaining
        if ← panelSpiWrite rounds panel (List.replicate amount value) then
          pure (.inl (remaining - amount))
        else pure (.inr false)) spin m remaining) := by
    intro m
    induction m with
    | zero => intro remaining h; omega
    | succ m ih =>
      intro remaining hm s hReady
      by_cases hEnd : remaining = 0
      · subst hEnd
        exact ⟨s, runs_loop_end (.ret s _), rfl, rfl, rfl⟩
      · generalize hAmount : (if remaining > 256 then 256 else remaining) = amount
        have hSmall : amount ≤ 256 ∧ 0 < amount := by
          rw [← hAmount]
          split <;> omega
        have hSent : BenchRuns wiring s (panelSpiWrite rounds panel (List.replicate amount value))
            true _ := panelSpiWrite_runs hReady (by
          rw [List.length_replicate]
          simp only [framebufferBytes, panelWidth, panelHeight] at hRounds
          omega)
        obtain ⟨t, hRun, hRest⟩ := ih (remaining - amount) (by omega)
          (s.send (List.replicate amount value)) hReady
        refine ⟨t, runs_loop_next (c := remaining - amount) ?_ hRun, hRest⟩
        simp only [if_neg hEnd, hAmount]
        exact Runs.bind hSent (.ret _ _)
  exact hLoop rounds framebufferBytes hRounds

theorem can_fill (hRounds : framebufferBytes + 1 ≤ rounds) (command value : UInt8) :
    Can wiring panel (panelFill rounds panel command value) := by
  have hFew : 3 ≤ rounds := by
    simp only [framebufferBytes, panelWidth, panelHeight] at hRounds
    omega
  exact can_then (can_command (by simpa using hFew) command)
    (can_then (can_dc (by omega) true) (can_chunks hRounds value))

theorem can_image (hRounds : framebufferBytes + 2 ≤ rounds) (framebuffer : Option Framebuffer) :
    Can wiring panel (panelImage rounds panel framebuffer) := by
  have hFew : 3 ≤ rounds := by
    simp only [framebufferBytes, panelWidth, panelHeight] at hRounds
    omega
  cases framebuffer with
  | none => exact can_fill (by omega) 0x13 0xff
  | some framebuffer =>
    exact can_then (can_command (by simpa using hFew) 0x13)
      (can_then (can_dc (by omega) true) (can_spi (by simpa using hRounds)))

theorem can_display (hRounds : framebufferBytes + 2 ≤ rounds) (framebuffer : Option Framebuffer) :
    Can wiring panel (panelDisplay rounds panel framebuffer) := by
  have hFew : 8 ≤ rounds := by
    simp only [framebufferBytes, panelWidth, panelHeight] at hRounds
    omega
  have hReset : Can wiring panel (panelReset rounds panel) :=
    can_then (can_reset (by omega) true) <| can_sleep 10 <|
      can_then (can_reset (by omega) false) <| can_sleep 10 <|
      can_then (can_reset (by omega) true) <| can_sleep 10 can_pure
  have hCommand : ∀ command data, data.length ≤ 5 →
      Can wiring panel (panelCommand rounds panel command data) :=
    fun command data hData => can_command (by omega) command
  have hInitialize : Can wiring panel (panelInitialize rounds panel) := by
    refine can_allOf _ fun p hp => ?_
    rcases List.mem_cons.mp hp with rfl | hp
    · exact hReset
    · obtain ⟨setting, hSetting, rfl⟩ := List.mem_map.mp hp
      have hShort : ∀ setting ∈ panelSettings, setting.2.length ≤ 5 := by decide
      exact hCommand _ _ (hShort setting hSetting)
  intro s hReady
  obtain ⟨t, hRun, hRest⟩ := can_allOf [panelInitialize rounds panel,
      panelCommand rounds panel 0x04 [], panelWaitIdle rounds panel 15000,
      panelFill rounds panel 0x10 0x00, panelImage rounds panel framebuffer,
      panelCommand rounds panel 0xe0 [0x02], panelCommand rounds panel 0xe5 [0x5a],
      panelCommand rounds panel 0x12 [], panelWaitIdle rounds panel 60000,
      panelCommand rounds panel 0x02 [], panelWaitIdle rounds panel 15000] (by
    simp only [List.forall_mem_cons]
    exact ⟨hInitialize, hCommand _ _ (by simp), can_idle (by omega) _, can_fill (by omega) _ _,
      can_image hRounds framebuffer, hCommand _ _ (by simp), hCommand _ _ (by simp),
      hCommand _ _ (by simp), can_idle (by omega) _, hCommand _ _ (by simp),
      can_idle (by omega) _, nofun⟩) s hReady
  exact ⟨t, hRun.bind (.ret t true), hRest⟩

/-! ### The open and the close -/

/-- The controller can be found: its entry is one of a controller, and its base can be read. -/
structure Wiring.Found (wiring : Wiring) (text : List UInt8) : Prop where
  chip : isChip wiring.entry = true
  length : text.length ≤ 31
  base : parseBase (chomp text) = some wiring.base

theorem opened_closed {k : Nat} (file : DeviceFile) (h : s.files k = none) :
    (s.opened k file).closed k = s := by
  have hFiles := Bench.closed_opened file h
  cases s
  simp only [Bench.closed, Bench.opened] at hFiles ⊢
  rw [hFiles]

theorem readSmallFile_runs {file : DeviceFile} {k capacity : Nat} (text : List UInt8)
    (hFree : s.files k = none) (hReads : (s.opened k file).Reads wiring k (capacity - 1) (.ok text)
      (s.opened k file)) :
    BenchRuns wiring s (readSmallFile file capacity) (some (chomp text)) s := by
  have hOpen : bench wiring s (.openFile file) (.ok k : Except Errno Nat) (s.opened k file) :=
    ⟨hFree, rfl⟩
  have hRead : bench wiring (s.opened k file) (.readBytes k (capacity - 1))
      (.ok text : Except Errno (List UInt8)) (s.opened k file) := hReads
  have hClose : bench wiring (s.opened k file) (.closeFile k) (none : Option Errno) s :=
    (opened_closed _ hFree).symm
  exact runs_perform_bind hOpen (runs_perform_bind hRead (runs_perform_bind hClose (.ret _ _)))

theorem chipBase_runs {text : List UInt8} (hFound : wiring.Found text) {k : Nat}
    (hFree : s.files k = none) : BenchRuns wiring s (chipBase wiring.entry) (some wiring.base) s := by
  have hHere : ∀ file, (s.opened k file).files k = some file := fun file => Function.update_self ..
  unfold chipBase
  rw [hFound.chip]
  have hLabel : chomp gpioLabel = gpioLabel := by decide
  refine Runs.bind (readSmallFile_runs gpioLabel hFree ?_) ?_
  · simp only [Bench.Reads, hHere]
    exact ⟨trivial, by decide, fun _ => trivial⟩
  have hSame : strEq (chomp gpioLabel) gpioLabel = true := by
    rw [hLabel]
    decide
  simp only [hSame, Bool.not_true, Bool.false_eq_true, if_false]
  refine Runs.bind (readSmallFile_runs text hFree ?_) ?_
  · simp only [Bench.Reads, hHere]
    exact ⟨trivial, hFound.length, fun _ => hFound.base⟩
  show BenchRuns wiring s (pure (parseBase (chomp text))) (some wiring.base) s
  rw [hFound.base]
  exact .ret s _

theorem findGpioBase_runs {text : List UInt8} (hFound : wiring.Found text) {directory k : Nat}
    (hFree : s.files directory = none) (hNext : s.files k = none) (hNe : k ≠ directory)
    (hRounds : 1 ≤ rounds) :
    BenchRuns wiring s (findGpioBase rounds) (some wiring.base) s := by
  obtain ⟨n, rfl⟩ := Nat.exists_eq_add_of_le' hRounds
  have hOpen : bench wiring s .openDirectory (some directory) (s.opened directory .directory) :=
    ⟨hFree, rfl⟩
  have hEntry : bench wiring (s.opened directory .directory) (.nextEntry directory)
      (some wiring.entry) (s.opened directory .directory) := rfl
  have hClose : bench wiring (s.opened directory .directory) (.closeDirectory directory) () s :=
    (opened_closed _ hFree).symm
  have hOther : (s.opened directory .directory).files k = none := by
    show Function.update s.files directory _ k = none
    rw [Function.update_of_ne hNe, hNext]
  refine runs_perform_bind hOpen (Runs.bind ?_ (runs_perform_bind hClose (.ret _ _)))
  exact runs_loop_end (runs_perform_bind hEntry ((chipBase_runs hFound hOther).bind (.ret _ _)))

theorem sysfsWriteText_runs {file : DeviceFile} {text : List UInt8} {k : Nat} (hText : text ≠ [])
    (hFree : s.files k = none) (hRounds : 2 ≤ rounds)
    (hWrites : (s.opened k file).Writes wiring k text (.ok text.length) t) :
    BenchRuns wiring s (sysfsWriteText rounds file text) none (t.closed k) := by
  have hOpen : bench wiring s (.openFile file) (.ok k : Except Errno Nat) (s.opened k file) :=
    ⟨hFree, rfl⟩
  have hClose : bench wiring t (.closeFile k) (none : Option Errno) (t.closed k) := rfl
  exact runs_perform_bind hOpen ((writeAll_runs hText hRounds hWrites).bind
    (runs_perform_bind hClose (.ret _ _)))

/-- A line that no process has exported is exported. -/
theorem export_runs (wiring : Wiring) {k number : Nat} (hFree : s.files k = none)
    (hRounds : 2 ≤ rounds) (hNew : ∀ n, numberText n = numberText number → s.exported n = false) :
    BenchRuns wiring s (sysfsWriteText rounds .exportLine (numberText number)) none
      { s with exported := withLine (numberText number) s.exported } := by
  have hHere : (s.opened k .exportLine).files k = some .exportLine := Function.update_self ..
  have hWrites : (s.opened k .exportLine).Writes wiring k (numberText number)
      (.ok (numberText number).length)
      ((s.opened k .exportLine).take wiring .exportLine (numberText number)) := by
    simp only [Bench.Writes, hHere]
    exact ⟨trivial, trivial, hNew⟩
  have hClosed : ((s.opened k .exportLine).take wiring .exportLine (numberText number)).closed k =
      { s with exported := withLine (numberText number) s.exported } :=
    opened_closed (s := { s with exported := withLine (numberText number) s.exported }) .exportLine
      hFree
  rw [← hClosed]
  exact sysfsWriteText_runs (numberText_ne number) hFree hRounds hWrites

theorem unexport_runs (wiring : Wiring) (number : Nat) {k : Nat} (hFree : s.files k = none)
    (hRounds : 2 ≤ rounds) :
    ∃ t, BenchRuns wiring s (sysfsWriteText rounds .unexportLine (numberText number)) none t ∧
      t.faulty = s.faulty := by
  have hHere : (s.opened k .unexportLine).files k = some .unexportLine := Function.update_self ..
  refine ⟨_, sysfsWriteText_runs (k := k)
    (t := (s.opened k .unexportLine).take wiring .unexportLine (numberText number))
    (numberText_ne number) hFree hRounds ?_, rfl⟩
  simp only [Bench.Writes, hHere]
  exact ⟨trivial, trivial⟩

/-- The direction of a line is set; the lines and the descriptors stay. -/
theorem direction_runs (wiring : Wiring) (number : Nat) {k : Nat} (hFree : s.files k = none)
    (hRounds : 2 ≤ rounds) (output initial : Bool) :
    ∃ t, BenchRuns wiring s (sysfsWriteText rounds (.direction number)
        (directionText output initial)) none t ∧
      t.files = s.files ∧ t.exported = s.exported ∧ t.faulty = s.faulty := by
  have hHere : (s.opened k (.direction number)).files k = some (.direction number) :=
    Function.update_self ..
  generalize hTaken : (s.opened k (.direction number)).take wiring (.direction number)
    (directionText output initial) = effect
  have hEffect : effect.files = (s.opened k (.direction number)).files ∧
      effect.exported = s.exported ∧ effect.faulty = s.faulty := by
    rw [← hTaken, Bench.take]
    split
    · exact ⟨rfl, rfl, rfl⟩
    · exact ⟨Bench.drive_files .., Bench.drive_exported .., Bench.drive_faulty ..⟩
  obtain ⟨hFiles, hExported, hFaulty⟩ := hEffect
  refine ⟨effect.closed k, sysfsWriteText_runs (directionText_ne output initial) hFree hRounds ?_, ?_,
    hExported, hFaulty⟩
  · simp only [Bench.Writes, hHere, hTaken]
    exact ⟨trivial, trivial⟩
  · rw [← Bench.closed_opened (.direction number) hFree]
    simp only [Bench.closed, hFiles]

/-- A line that no process has exported is exported and opened. -/
theorem gpioOpenLine_runs (wiring : Wiring) (rounds : Nat) {k : Nat} (hFree : s.files k = none)
    (hRounds : 2 ≤ rounds) {base offset : Nat}
    (hNew : ∀ n, numberText n = numberText (lineNumber base offset) → s.exported n = false)
    (output initial : Bool) :
    ∃ t : Bench, BenchRuns wiring s (gpioOpenLine rounds base offset output initial)
        (true, ⟨lineNumber base offset, some k, true⟩) t ∧
      t.files = Function.update s.files k (some (.value (lineNumber base offset))) ∧
      t.exported = withLine (numberText (lineNumber base offset)) s.exported ∧
      t.faulty = s.faulty := by
  obtain ⟨n, rfl⟩ := Nat.exists_eq_add_of_le' hRounds
  rw [gpioOpenLine]
  generalize lineNumber base offset = number at hNew ⊢
  have hExport := export_runs wiring hFree hRounds hNew
  generalize hHere : ({ s with exported := withLine (numberText number) s.exported } : Bench) = v
    at hExport
  have hFreeHere : v.files k = none := by rw [← hHere, hFree]
  obtain ⟨u, hDirection, hFiles, hExported, hFaulty⟩ :=
    direction_runs wiring number hFreeHere hRounds output initial
  have hValue : bench wiring u (.openFile (.value number)) (.ok k : Except Errno Nat)
      (u.opened k (.value number)) := ⟨by rw [hFiles, hFreeHere], rfl⟩
  have hWritable : bench wiring v (.writable (.direction number)) true v := rfl
  have hWait : BenchRuns wiring v (waitWritable (n + 2) (.direction number)) true v :=
    runs_loop_end (runs_perform_bind hWritable (.ret _ _))
  refine ⟨u.opened k (.value number), ?_, ?_, ?_, ?_⟩
  · refine hExport.bind ?_
    exact hWait.bind (hDirection.bind (runs_perform_bind hValue (.ret _ _)))
  · rw [Bench.opened, hFiles, ← hHere]
  · rw [Bench.opened, hExported, ← hHere]
  · rw [Bench.opened, hFaulty, ← hHere]

theorem closeOpen_runs (fd : Nat) : BenchRuns wiring s (closeOpen (some fd)) () (s.closed fd) := by
  have hClose : bench wiring s (.closeFile fd) (none : Option Errno) (s.closed fd) := rfl
  exact runs_perform_bind hClose (.ret _ _)

/-- A line is closed and taken back. -/
theorem gpioCloseLine_runs (wiring : Wiring) (s : Bench) (hRounds : 2 ≤ rounds)
    (number fd : Nat) :
    ∃ t, BenchRuns wiring s (gpioCloseLine rounds ⟨number, some fd, true⟩) () t ∧
      t.faulty = s.faulty := by
  have hFree : (s.closed fd).files fd = none := Function.update_self ..
  obtain ⟨t, hRun, hFaulty⟩ := unexport_runs wiring number hFree hRounds
  exact ⟨t, (closeOpen_runs fd).bind (hRun.bind (.ret _ _)), hFaulty⟩

/-- The characters of a number's text. -/
theorem numberText_chars (n : Nat) :
    (numberText n).map (fun byte => Char.ofNat byte.toNat) = (toString n).toList := by
  rw [numberText, ascii, List.map_map]
  conv_rhs => rw [← List.map_id (toString n).toList]
  refine List.map_congr_left fun c hc => ?_
  have hDigits : c ∈ Nat.toDigits 10 n := by simpa using hc
  have hDigit := Nat.isDigit_of_mem_toDigits (by decide) (by decide) hDigits
  have hSmall : c.toNat < 256 := by
    rw [Char.isDigit, Bool.and_eq_true, decide_eq_true_eq, decide_eq_true_eq] at hDigit
    exact Nat.lt_of_le_of_lt (UInt32.le_iff_toNat_le.mp hDigit.2) (by decide)
  simp [Nat.mod_eq_of_lt hSmall, Char.ofNat_toNat]

theorem numberText_injective : Function.Injective numberText := by
  intro n m h
  have hChars := congrArg (List.map fun byte => Char.ofNat byte.toNat) h
  rw [numberText_chars, numberText_chars, Nat.toString_eq_repr, Nat.toString_eq_repr,
    Nat.toList_repr, Nat.toList_repr] at hChars
  rw [← Nat.ofDigitChars_ten_toDigits (n := n), hChars, Nat.ofDigitChars_ten_toDigits]

theorem numberText_lineNumber_ne (base : Nat) {offset offset' : Nat} (h : offset < offset')
    (h' : offset' < 14) :
    numberText (lineNumber base offset) ≠ numberText (lineNumber base offset') := fun hText =>
  Bench.lineNumber_ne h h' (numberText_injective hText)

/-- The panel of a process that has no other descriptors. -/
def firstPanel (wiring : Wiring) (spiFd : Option Nat) (speedHz : Nat) : Panel where
  spiFd
  dc := ⟨lineNumber wiring.base pinDc, some 0, true⟩
  reset := ⟨lineNumber wiring.base pinReset, some 1, true⟩
  busy := ⟨lineNumber wiring.base pinBusy, some 2, true⟩
  speedHz

/-- The three lines are exported and opened, where nobody has exported any. -/
theorem openLines_runs (wiring : Wiring) (hFree : ∀ k < 4, w.files k = none)
    (hNew : ∀ n, w.exported n = false) (hRounds : 2 ≤ rounds) (line : Line) (speedHz : Nat) :
    ∃ t, BenchRuns wiring w (openLines rounds wiring.base ⟨none, line, line, line, speedHz⟩)
        (true, firstPanel wiring none speedHz) t ∧
      t.files = Function.update (Function.update (Function.update w.files
        0 (some (.value (lineNumber wiring.base pinDc))))
        1 (some (.value (lineNumber wiring.base pinReset))))
        2 (some (.value (lineNumber wiring.base pinBusy))) ∧
      t.faulty = w.faulty := by
  obtain ⟨s₁, hDc, hFiles₁, hExported₁, hFaulty₁⟩ := gpioOpenLine_runs wiring rounds (s := w)
    (hFree 0 (by omega)) hRounds (fun n (_ : numberText n =
      numberText (lineNumber wiring.base pinDc)) => hNew n) true false
  have hFree₁ : s₁.files 1 = none := by simpa [hFiles₁] using hFree 1 (by omega)
  have hNew₁ : ∀ n, numberText n = numberText (lineNumber wiring.base pinReset) →
      s₁.exported n = false := by
    intro n hText
    have hNe := numberText_lineNumber_ne wiring.base (show pinDc < pinReset by decide) (by decide)
    rw [hExported₁, withLine, hNew, hText, Bool.false_or, decide_eq_false hNe.symm]
  obtain ⟨s₂, hReset, hFiles₂, hExported₂, hFaulty₂⟩ :=
    gpioOpenLine_runs wiring rounds hFree₁ hRounds hNew₁ true true
  have hFree₂ : s₂.files 2 = none := by simpa [hFiles₂, hFiles₁] using hFree 2 (by omega)
  have hNew₂ : ∀ n, numberText n = numberText (lineNumber wiring.base pinBusy) →
      s₂.exported n = false := by
    intro n hText
    have hNe := numberText_lineNumber_ne wiring.base (show pinDc < pinBusy by decide) (by decide)
    have hNe' := numberText_lineNumber_ne wiring.base (show pinReset < pinBusy by decide) (by decide)
    rw [hExported₂, hExported₁, withLine, withLine, hNew, hText, decide_eq_false hNe.symm,
      decide_eq_false hNe'.symm]
    rfl
  obtain ⟨s₃, hBusy, hFiles₃, _, hFaulty₃⟩ :=
    gpioOpenLine_runs wiring rounds hFree₂ hRounds hNew₂ false false
  exact ⟨s₃, hDc.bind (hReset.bind (hBusy.bind (.ret _ _))), by rw [hFiles₃, hFiles₂, hFiles₁],
    by rw [hFaulty₃, hFaulty₂, hFaulty₁]⟩

/-- The close of the panel leaves no step of it undone. -/
theorem panelClose_runs (wiring : Wiring) (s : Bench) (hRounds : 2 ≤ rounds) (spiFd speedHz : Nat) :
    ∃ t, BenchRuns wiring s (panelClose rounds (firstPanel wiring (some spiFd) speedHz)) () t ∧
      t.faulty = s.faulty := by
  obtain ⟨u₁, hBusy, hFaulty₁⟩ :=
    gpioCloseLine_runs wiring (s.closed spiFd) hRounds (lineNumber wiring.base pinBusy) 2
  obtain ⟨u₂, hReset, hFaulty₂⟩ :=
    gpioCloseLine_runs wiring u₁ hRounds (lineNumber wiring.base pinReset) 1
  obtain ⟨u₃, hDc, hFaulty₃⟩ := gpioCloseLine_runs wiring u₂ hRounds (lineNumber wiring.base pinDc) 0
  refine ⟨u₃, (closeOpen_runs spiFd).bind (hBusy.bind (hReset.bind hDc)), ?_⟩
  rw [hFaulty₃, hFaulty₂, hFaulty₁]
  rfl

theorem settings_run (fd : Nat) (settings : List Setting) :
    BenchRuns wiring s (allOf (settings.map (configure fd))) true s := by
  induction settings with
  | nil => exact .ret _ true
  | cons setting settings ih =>
    have hSet : bench wiring s (.configure fd setting) true s := rfl
    exact runs_perform_bind hSet ih

/-- From lines that nobody has exported, a process whose calls all succeed, and that finds the panel
idle, reports success. -/
theorem refreshPanel_succeeds {text : List UInt8} (hFound : wiring.Found text)
    (hFree : ∀ k < 4, w.files k = none) (hNew : ∀ n, w.exported n = false)
    (hRounds : framebufferBytes + 2 ≤ rounds)
    (device : List UInt8) (speedHz : Nat) (framebuffer : Option Framebuffer) :
    ∃ t, Runs (bench wiring) w (refreshPanel rounds device speedHz framebuffer) true t ∧
      t.faulty = w.faulty := by
  have hFew : 2 ≤ rounds := by omega
  obtain ⟨s, hLines, hFiles, hFaulty⟩ :=
    openLines_runs wiring hFree hNew hFew ⟨0, none, false⟩ speedHz
  have hThird : s.files 3 = none := by simpa [hFiles] using hFree 3 (by omega)
  have hSpi : bench wiring s (.openFile (.spi device)) (.ok 3 : Except Errno Nat)
      (s.opened 3 (.spi device)) := ⟨hThird, rfl⟩
  have hBase : BenchRuns wiring w (findGpioBase rounds) (some wiring.base) w :=
    findGpioBase_runs hFound (hFree 0 (by omega)) (hFree 1 (by omega)) (by decide) (by omega)
  have hOpen : BenchRuns wiring w (panelOpen rounds device speedHz)
      (true, firstPanel wiring (some 3) speedHz) (s.opened 3 (.spi device)) := by
    refine Runs.bind hBase (Runs.bind hLines ?_)
    refine runs_perform_bind hSpi (Runs.bind (settings_run 3 [.mode 0, .bitsPerWord 8,
      .maxSpeedHz speedHz]) (.ret _ _))
  have hReady : Ready wiring (firstPanel wiring (some 3) speedHz)
      (s.opened 3 (.spi device)).files := by
    refine ⟨⟨3, device, rfl, ?_⟩, ⟨0, rfl, ?_⟩, ⟨1, rfl, ?_⟩, ⟨2, rfl, ?_⟩⟩ <;>
      simp [Bench.opened, hFiles, Function.update]
  obtain ⟨t, hDisplay, _, _, hShown⟩ :=
    can_display hRounds framebuffer (s.opened 3 (.spi device)) hReady
  obtain ⟨u, hClose, hClosed⟩ := panelClose_runs wiring t hFew 3 speedHz
  refine ⟨u, hOpen.bind (hDisplay.bind (hClose.bind (.ret _ true))), ?_⟩
  calc u.faulty = t.faulty := hClosed
    _ = s.faulty := hShown
    _ = w.faulty := hFaulty

/-- The controller of the board. -/
def boardWiring : Wiring := ⟨ascii "gpiochip512", 512⟩

theorem boardWiring_found : boardWiring.Found (ascii "512\n") :=
  ⟨by decide, by decide, by decide⟩

end Esp32Fx.Einkctl
