import Esp32Fx.Einkctl.Panel

/-! What `panel_display` puts on the wire: in every run the commands of the display sequence in their
order, each with its data, up to a place where the run fails or is broken off, and then at most the
command that powers the panel off. -/

namespace Esp32Fx.Einkctl

open Lib Program

variable {α : Type} {wiring : Wiring} {rounds : Nat} {panel : Panel} {s t : Bench}

/-- Calls are made on open files, and no more than 4096 bytes are given to the wire at once. -/
def Proper : Call → Bench → Prop
  | .closeFile fd, w | .seekStart fd, w | .readBytes fd _, w | .configure fd _, w => w.files fd ≠ none
  | .writeBytes fd bytes, w =>
    w.files fd ≠ none ∧ ∀ path, w.files fd = some (.spi path) → bytes.length ≤ 4096
  | .nextEntry fd, w | .closeDirectory fd, w => w.files fd = some .directory
  | _, _ => True

/-- Every state of every run of a driver has `I`, every call is proper, and a run that ends ends
with `Q`. -/
abbrev DriverKeeps (wiring : Wiring) (I : Bench → Prop) (Q : α → Bench → Prop) (p : Driver α)
    (s : Bench) : Prop :=
  p.Keeps (bench wiring) (wholeCalls (bench wiring)) I Proper Q s

variable {I : Bench → Prop} {Q : α → Bench → Prop}

theorem spin_keeps (hI : I s) : DriverKeeps wiring I Q spin s :=
  keeps_call hI trivial fun x => x.elim

/-! ### The bench -/

namespace Bench

@[simp] theorem add_files (w : Bench) (l : List Signal) : (w.add l).files = w.files := rfl

@[simp] theorem add_data (w : Bench) (l : List Signal) : (w.add l).data = w.data := rfl

@[simp] theorem add_log (w : Bench) (l : List Signal) : (w.add l).log = w.log ++ l := rfl

@[simp] theorem send_files (w : Bench) (bytes : List UInt8) : (w.send bytes).files = w.files := rfl

@[simp] theorem send_data (w : Bench) (bytes : List UInt8) : (w.send bytes).data = w.data := rfl

@[simp] theorem send_nil (w : Bench) : w.send [] = w := by
  simp [send, add]

theorem send_send (w : Bench) (bytes bytes' : List UInt8) :
    (w.send bytes).send bytes' = w.send (bytes ++ bytes') := by
  simp [send, add, List.append_assoc]

theorem drive_dc (w : Bench) (level : Bool) :
    w.drive wiring (lineNumber wiring.base pinDc) level = { w with data := level } := by
  rw [drive, if_pos rfl]

theorem lineNumber_ne {base offset offset' : Nat} (h : offset < offset') (h' : offset' < 14) :
    lineNumber base offset ≠ lineNumber base offset' := by
  unfold lineNumber
  omega

theorem drive_reset (w : Bench) (level : Bool) :
    w.drive wiring (lineNumber wiring.base pinReset) level = w.add [.reset level] := by
  have hNe : lineNumber wiring.base pinReset ≠ lineNumber wiring.base pinDc :=
    (lineNumber_ne (by decide) (by decide)).symm
  rw [drive, if_neg hNe, if_pos rfl]

end Bench

/-! ### Files -/

/-- Bytes that are written to the wire go out in order; a write that fails has sent a part. -/
theorem writeAll_spi {fd : Nat} {path bytes : List UInt8} (hFile : s.files fd = some (.spi path))
    (hLength : bytes.length ≤ 4096) :
    DriverKeeps wiring (fun t => ∃ k, t = s.send (bytes.take k))
      (fun r t => r = none → t = s.send bytes) (writeAll rounds fd bytes) s := by
  -- what has been sent and what remains are the bytes
  let J : List UInt8 → Bench → Prop := fun rest t =>
    ∃ sent, bytes = sent ++ rest ∧ t = s.send sent
  have hSent : ∀ {rest t}, J rest t → ∀ k, ∃ k', t.send (rest.take k) = s.send (bytes.take k') := by
    rintro rest t ⟨sent, rfl, rfl⟩ k
    refine ⟨sent.length + k, ?_⟩
    rw [Bench.send_send, List.take_length_add_append]
  have hHere : ∀ {rest t}, J rest t → ∃ k, t = s.send (bytes.take k) := by
    intro rest t hJ
    simpa using hSent hJ 0
  refine keeps_loop (J := J) ?_ (fun rest t hJ => spin_keeps (hHere hJ)) rounds
    ⟨[], rfl, (Bench.send_nil s).symm⟩
  intro rest t hJ
  obtain ⟨sent, hBytes, hSend⟩ := id hJ
  have hOpen : t.files fd = some (.spi path) := by rw [hSend, Bench.send_files, hFile]
  have hRest : rest.length ≤ 4096 := by
    rw [hBytes, List.length_append] at hLength
    omega
  by_cases hEmpty : rest = []
  · simp only [if_pos hEmpty]
    refine ⟨hHere hJ, fun _ => ?_⟩
    rw [hSend, hBytes, hEmpty, List.append_nil]
  simp only [if_neg hEmpty]
  refine keeps_perform_bind (hHere hJ) ⟨by rw [hOpen]; nofun, fun _ _ => hRest⟩ ?_
  intro r u hWrites
  simp only [bench, Bench.Writes, hOpen] at hWrites
  rcases r with (_ | _ | _) | (_ | count)
  · subst hWrites
    exact ⟨hHere hJ, hJ⟩
  · obtain ⟨k, rfl⟩ := hWrites
    exact ⟨hSent hJ k, nofun⟩
  · obtain ⟨k, rfl⟩ := hWrites
    exact ⟨hSent hJ k, nofun⟩
  · obtain ⟨_, rfl⟩ := hWrites
    exact ⟨hSent hJ 0, nofun⟩
  · obtain ⟨_, rfl⟩ := hWrites
    refine ⟨hSent hJ (count + 1), sent ++ rest.take (count + 1), ?_, ?_⟩
    · rw [List.append_assoc, List.take_append_drop, hBytes]
    · rw [hSend, Bench.send_send]

/-- Bytes that are written to another file take their effect at once, `u`, and show that `N`; a write
that fails leaves something with `F`. -/
theorem writeAll_whole {fd : Nat} {bytes : List UInt8} (hOpen : s.files fd ≠ none)
    (hWire : ∀ path, s.files fd ≠ some (.spi path)) (hEmpty : bytes ≠ []) {u : Bench}
    {F : Bench → Prop} {N : Prop} (hI : I s) (hDone : I u) (hFails : ∀ t, F t → I t)
    (hWrites : ∀ r t, s.Writes wiring fd bytes r t →
      match r with
      | .error .interrupted => t = s
      | .error _ => F t
      | .ok count => count = bytes.length ∧ t = u ∧ N) :
    DriverKeeps wiring I (fun r t => if r = none then t = u ∧ N else F t)
      (writeAll rounds fd bytes) s := by
  let J : List UInt8 → Bench → Prop := fun rest t => rest = bytes ∧ t = s ∨ rest = [] ∧ t = u ∧ N
  have hHere : ∀ {rest t}, J rest t → I t := by
    rintro rest t (⟨_, rfl⟩ | ⟨_, rfl, _⟩)
    · exact hI
    · exact hDone
  refine keeps_loop (J := J) ?_ (fun rest t hJ => spin_keeps (hHere hJ)) rounds (.inl ⟨rfl, rfl⟩)
  rintro rest t (⟨rfl, rfl⟩ | ⟨rfl, rfl, hShown⟩)
  · simp only [if_neg hEmpty]
    refine keeps_perform_bind hI ⟨hOpen, fun path hSpi => absurd hSpi (hWire path)⟩ ?_
    intro r v hCall
    have hEffect := hWrites r v hCall
    rcases r with (_ | _ | _) | (_ | count)
    · obtain rfl : v = t := hEffect
      exact ⟨hI, .inl ⟨rfl, rfl⟩⟩
    · exact ⟨hFails v hEffect, hEffect⟩
    · exact ⟨hFails v hEffect, hEffect⟩
    · exact absurd (List.length_eq_zero_iff.mp hEffect.1.symm) hEmpty
    · obtain ⟨hCount, rfl, hShown⟩ := hEffect
      refine ⟨hDone, .inr ⟨?_, rfl, hShown⟩⟩
      rw [hCount, List.drop_length]
  · exact ⟨hDone, rfl, hShown⟩

theorem levelText_eq (value : Bool) : decide (levelText value = ascii "1") = value := by
  cases value <;> decide

theorem levelText_ne (value : Bool) : levelText value ≠ [] := by
  cases value <;> decide

theorem gpioSet_keeps {line : Line} {fd number : Nat} (hLine : line.valueFd = some fd)
    (hFile : s.files fd = some (.value number)) (value : Bool) :
    DriverKeeps wiring (fun t => t = s ∨ t = s.drive wiring number value)
      (fun ok t => ok = true → t = s.drive wiring number value) (gpioSet rounds line value) s := by
  have hOpen : s.files fd ≠ none := by rw [hFile]; nofun
  rw [gpioSet, hLine]
  refine keeps_perform_bind (.inl rfl) hOpen ?_
  rintro found t (rfl : t = s)
  cases found with
  | false => exact ⟨.inl rfl, nofun⟩
  | true =>
    apply keeps_bind
    refine keeps_mono (writeAll_whole (u := t.drive wiring number value)
      (I := fun u => u = t ∨ u = t.drive wiring number value)
      (F := fun u => u = t ∨ u = t.drive wiring number value) (N := True) hOpen
      (fun path hSpi => by rw [hFile] at hSpi; cases hSpi) (levelText_ne value) (.inl rfl) (.inr rfl)
      (fun _ h => h) ?_) ?_
    · intro r u hWrites
      simp only [Bench.Writes, hFile, Bench.take, levelText_eq] at hWrites
      rcases r with (_ | _ | _) | count
      · exact hWrites
      · exact hWrites
      · exact hWrites
      · exact ⟨hWrites.1, hWrites.2, trivial⟩
    · intro r u hI hDone
      refine ⟨hI, fun hOk => ?_⟩
      rw [if_pos (by simpa using hOk)] at hDone
      exact hDone.1

/-! ### The wire -/

/-- The open panel, in the files of the process. -/
structure Ready (wiring : Wiring) (panel : Panel) (files : Nat → Option DeviceFile) : Prop where
  spi : ∃ fd path, panel.spiFd = some fd ∧ files fd = some (.spi path)
  dc : ∃ fd, panel.dc.valueFd = some fd ∧ files fd = some (.value (lineNumber wiring.base pinDc))
  reset : ∃ fd, panel.reset.valueFd = some fd ∧
    files fd = some (.value (lineNumber wiring.base pinReset))
  busy : ∃ fd, panel.busy.valueFd = some fd ∧
    files fd = some (.value (lineNumber wiring.base pinBusy))

theorem setDc_keeps (hReady : Ready wiring panel s.files) (value : Bool) :
    DriverKeeps wiring (fun t => t = s ∨ t = { s with data := value })
      (fun ok t => ok = true → t = { s with data := value }) (gpioSet rounds panel.dc value) s := by
  obtain ⟨fd, hLine, hFile⟩ := hReady.dc
  have hSet : DriverKeeps wiring _ _ (gpioSet rounds panel.dc value) s :=
    gpioSet_keeps hLine hFile value
  simp only [Bench.drive_dc] at hSet
  exact hSet

theorem panelSpiWrite_keeps (hReady : Ready wiring panel s.files) (bytes : List UInt8) :
    DriverKeeps wiring (fun t => ∃ k, t = s.send (bytes.take k))
      (fun ok t => ok = true → t = s.send bytes) (panelSpiWrite rounds panel bytes) s := by
  obtain ⟨fd, path, hFd, hFile⟩ := hReady.spi
  let J : List UInt8 → Bench → Prop := fun rest t =>
    ∃ sent, bytes = sent ++ rest ∧ t = s.send sent
  have hHere : ∀ {rest t}, J rest t → ∃ k, t = s.send (bytes.take k) := by
    rintro rest t ⟨sent, rfl, rfl⟩
    exact ⟨sent.length, by rw [List.take_left']; rfl⟩
  rw [panelSpiWrite, hFd]
  refine keeps_loop (J := J) ?_ (fun rest t hJ => spin_keeps (hHere hJ)) rounds
    ⟨[], rfl, (Bench.send_nil s).symm⟩
  intro rest t hJ
  obtain ⟨sent, hBytes, hSend⟩ := id hJ
  by_cases hEmpty : rest = []
  · simp only [if_pos hEmpty]
    refine ⟨hHere hJ, fun _ => ?_⟩
    rw [hSend, hBytes, hEmpty, List.append_nil]
  simp only [if_neg hEmpty]
  have hOpen : t.files fd = some (.spi path) := by rw [hSend, Bench.send_files, hFile]
  apply keeps_bind
  have hChunk : DriverKeeps wiring _ _ (writeAll rounds fd (rest.take 4096)) t :=
    writeAll_spi hOpen (List.length_take_le _ _)
  refine keeps_mono (keeps_inv hChunk ?_) ?_
  · rintro u ⟨k, rfl⟩
    refine ⟨sent.length + min k 4096, ?_⟩
    rw [hSend, Bench.send_send, hBytes, List.take_take, List.take_length_add_append]
  · intro r u hI hDone
    cases r with
    | some errno => exact ⟨hI, nofun⟩
    | none =>
      obtain rfl := hDone rfl
      refine ⟨hI, sent ++ rest.take 4096, ?_, ?_⟩
      · rw [List.append_assoc, List.take_append_drop, hBytes]
      · rw [hSend, Bench.send_send]

/-- The open files and the exported lines. -/
def Bench.holdings (w : Bench) : (Nat → Option DeviceFile) × (Nat → Bool) × Bool :=
  (w.files, w.exported, w.faulty)

/-- Files and lines stay, and the log grows by something with `R`. -/
abbrev Adds (R : List Signal → Prop) (s t : Bench) : Prop := Extends Bench.holdings Bench.log R s t

theorem adds_files {R : List Signal → Prop} (h : Adds R s t) : t.files = s.files :=
  congrArg Prod.fst h.frame

/-- A part of the driver tells an item. -/
abbrev DriverTells (wiring : Wiring) (panel : Panel) (p : Driver Bool) (item : Item Signal) : Prop :=
  Tells (bench wiring) (wholeCalls (bench wiring)) Proper Bench.holdings Bench.log
    (fun held => Ready wiring panel held.1) p item

/-- A command and its data on the wire. -/
def transfer (command : UInt8) (data : List UInt8) : List Signal :=
  .byte false command :: data.map (.byte true)

theorem nothing_adds {R : List Signal → Prop} (h : R []) (data : Bool) :
    ∀ t, t = s ∨ t = { s with data } → Adds R s t := by
  rintro t (rfl | rfl)
  · exact .refl h t
  · exact ⟨rfl, [], (List.append_nil _).symm, h⟩

theorem adds_data {R : List Signal → Prop} {data : Bool} (h : Adds R { s with data } t) :
    Adds R s t := ⟨h.frame, h.log⟩

theorem send_adds {R : List Signal → Prop} {bytes : List UInt8} (hR : R (bytes.map (.byte s.data))) :
    Adds R s (s.send bytes) := ⟨rfl, _, rfl, hR⟩

/-- A program that sends bytes with the data line as it is. -/
def Sends (wiring : Wiring) (panel : Panel) (bytes : List UInt8) (p : Driver Bool) : Prop :=
  ∀ s, Ready wiring panel s.files → DriverKeeps wiring (fun t => ∃ k, t = s.send (bytes.take k))
    (fun ok t => ok = true → t = s.send bytes) p s

/-- The data of a command: the line is raised, and the bytes go out. -/
theorem raise_keeps {command : UInt8} {data : List UInt8} {p : Driver Bool}
    (hReady : Ready wiring panel t.files) (hSent : Adds (· = transfer command []) s t)
    (hp : Sends wiring panel data p) :
    DriverKeeps wiring (Adds (· <+: transfer command data) s)
      (fun ok u => ok = true → Adds (· = transfer command data) s u)
      (gpioSet rounds panel.dc true >>= fun ok => if (!ok) = true then pure false else p) t := by
  have hCommand : transfer command [] <+: transfer command data := ⟨data.map (.byte true), rfl⟩
  apply keeps_bind
  refine keeps_mono (keeps_inv (setDc_keeps hReady true) ?_) ?_
  · intro u hu
    apply hSent.trans (nothing_adds (R := (· = [])) rfl true u hu)
    rintro _ _ rfl rfl
    exact hCommand
  · intro ok u hI hOk
    cases ok with
    | false => exact ⟨hI, nofun⟩
    | true =>
      obtain rfl := hOk rfl
      have hRaised : Adds (· = transfer command []) s { t with data := true } :=
        ⟨hSent.frame, hSent.log⟩
      refine keeps_mono (keeps_inv (hp _ hReady) ?_) ?_
      · rintro v ⟨k, rfl⟩
        apply hRaised.trans (send_adds (R := (· = (data.take k).map (.byte true))) rfl)
        rintro _ _ rfl rfl
        refine ⟨(data.drop k).map (.byte true), ?_⟩
        rw [List.append_assoc, ← List.map_append, List.take_append_drop]
        rfl
      · intro ok v _ hDone hOk
        obtain rfl := hDone hOk
        apply hRaised.trans (send_adds (R := (· = data.map (.byte true))) rfl)
        rintro _ _ rfl rfl
        rfl

/-- A command: the line is lowered, the command goes out, and its data if there are any. -/
theorem panelCommand_tells (rounds : Nat) (command : UInt8) (data : List UInt8) :
    DriverTells wiring panel (panelCommand rounds panel command data)
      (.exactly (transfer command data)) := by
  intro s hReady
  apply keeps_bind
  refine keeps_mono (keeps_inv (setDc_keeps hReady false) ?_) ?_
  · exact nothing_adds (Item.exactly _).nothing false
  intro ok t hI hOk
  cases ok with
  | false => exact ⟨hI, nofun⟩
  | true =>
    obtain rfl := hOk rfl
    apply keeps_bind
    have hWrite : DriverKeeps wiring _ _ (panelSpiWrite rounds panel [command])
        { s with data := false } := panelSpiWrite_keeps (s := { s with data := false }) hReady [command]
    refine keeps_mono (keeps_inv hWrite ?_) ?_
    · rintro t ⟨k, rfl⟩
      refine adds_data (send_adds ?_)
      have hTaken : (List.take k [command]).map (.byte false) <+: transfer command [] :=
        (List.take_prefix k [command]).map _
      exact hTaken.trans ⟨data.map (.byte true), rfl⟩
    · intro ok t hI hOk
      cases ok with
      | false => exact ⟨hI, nofun⟩
      | true =>
        obtain rfl := hOk rfl
        have hSent : Adds (· = transfer command []) s
            (Bench.send { s with data := false } [command]) := adds_data (send_adds rfl)
        by_cases hData : data = []
        · subst hData
          exact ⟨hI, fun _ => hSent⟩
        · simp only [if_neg hData]
          exact raise_keeps (t := Bench.send { s with data := false } [command]) hReady hSent
            fun u hu => panelSpiWrite_keeps hu data

/-- A command, and then its data by a program of their own. -/
theorem command_raise_tells (command : UInt8) {data : List UInt8} {p : Driver Bool}
    (hp : Sends wiring panel data p) :
    DriverTells wiring panel
      (panelCommand rounds panel command [] >>= fun ok => if (!ok) = true then pure false else
        gpioSet rounds panel.dc true >>= fun ok => if (!ok) = true then pure false else p)
      (.exactly (transfer command data)) := by
  intro s hReady
  have hCommand : transfer command [] <+: transfer command data := ⟨data.map (.byte true), rfl⟩
  apply keeps_bind
  refine keeps_mono (keeps_inv (panelCommand_tells rounds command [] s hReady) ?_) ?_
  · intro t ht
    exact ht.mono fun l hl => hl.trans hCommand
  intro ok t hI hOk
  cases ok with
  | false => exact ⟨hI, nofun⟩
  | true =>
    have hSent := hOk rfl
    exact raise_keeps ((adds_files hSent).symm ▸ hReady) hSent hp

theorem fillChunks_sends (value : UInt8) :
    Sends wiring panel (List.replicate framebufferBytes value)
      (fillChunks rounds panel value) := by
  intro s hReady
  let J : Nat → Bench → Prop := fun remaining t =>
    remaining ≤ framebufferBytes ∧ t = s.send (List.replicate (framebufferBytes - remaining) value)
  have hTake : ∀ n, n ≤ framebufferBytes →
      List.replicate n value = (List.replicate framebufferBytes value).take n := by
    intro n hn
    rw [List.take_replicate, Nat.min_eq_left hn]
  have hHere : ∀ {remaining t}, J remaining t →
      ∃ k, t = s.send ((List.replicate framebufferBytes value).take k) := by
    rintro remaining t ⟨_, rfl⟩
    exact ⟨framebufferBytes - remaining, by rw [hTake _ (Nat.sub_le _ _)]⟩
  refine keeps_loop (J := J) ?_ (fun remaining t hJ => spin_keeps (hHere hJ)) rounds
    ⟨Nat.le_refl _, by rw [Nat.sub_self]; exact (Bench.send_nil s).symm⟩
  intro remaining t hJ
  obtain ⟨hRemaining, hSent⟩ := id hJ
  by_cases hEnd : remaining = 0
  · simp only [if_pos hEnd]
    refine ⟨hHere hJ, fun _ => ?_⟩
    rw [hSent, hEnd, Nat.sub_zero]
  simp only [if_neg hEnd]
  generalize hAmount : (if remaining > 256 then 256 else remaining) = amount
  have hLess : amount ≤ remaining := by
    rw [← hAmount]
    split <;> omega
  have hTogether : ∀ k, k ≤ amount → (t.send (List.replicate k value)) =
      s.send (List.replicate (framebufferBytes - remaining + k) value) := by
    intro k _
    rw [hSent, Bench.send_send, ← List.replicate_add]
  apply keeps_bind
  have hFiles : t.files = s.files := by rw [hSent, Bench.send_files]
  refine keeps_mono (keeps_inv (panelSpiWrite_keeps (hFiles ▸ hReady)
    (List.replicate amount value)) ?_) ?_
  · rintro u ⟨k, rfl⟩
    refine ⟨framebufferBytes - remaining + min k amount, ?_⟩
    rw [List.take_replicate, hTogether _ (Nat.min_le_right k amount), hTake _ (by omega)]
  · intro ok u hI hOk
    cases ok with
    | false => exact ⟨hI, nofun⟩
    | true =>
      obtain rfl := hOk rfl
      refine ⟨hI, by omega, ?_⟩
      rw [hTogether amount (Nat.le_refl _)]
      congr 2
      omega

theorem panelFill_tells (rounds : Nat) (command value : UInt8) :
    DriverTells wiring panel (panelFill rounds panel command value)
      (.exactly (transfer command (List.replicate framebufferBytes value))) :=
  command_raise_tells command (fillChunks_sends value)

/-- The picture of a refresh. -/
def picture : Option Framebuffer → List UInt8
  | some framebuffer => framebuffer.toList
  | none => List.replicate framebufferBytes 0xff

theorem panelImage_tells (rounds : Nat) (framebuffer : Option Framebuffer) :
    DriverTells wiring panel (panelImage rounds panel framebuffer)
      (.exactly (transfer 0x13 (picture framebuffer))) := by
  cases framebuffer with
  | none => exact panelFill_tells rounds 0x13 0xff
  | some framebuffer =>
    exact command_raise_tells 0x13 fun u hu => panelSpiWrite_keeps hu framebuffer.toList

/-! ### Waits and the reset -/

theorem gpioGet_keeps (hReady : Ready wiring panel s.files) :
    DriverKeeps wiring (fun t => t = s ∨ ∃ idle, t = s.add [.busy idle])
      (fun r t => ∀ idle, r = some idle → t = s.add [.busy idle])
      (gpioGet rounds panel.busy) s := by
  obtain ⟨fd, hLine, hFile⟩ := hReady.busy
  have hOpen : s.files fd ≠ none := by rw [hFile]; nofun
  rw [gpioGet, hLine]
  refine keeps_perform_bind (.inl rfl) hOpen ?_
  rintro found t (rfl : t = s)
  cases found with
  | false => exact ⟨.inl rfl, nofun⟩
  | true =>
    refine keeps_loop (J := fun _ u => u = t) ?_ (fun _ u hu => spin_keeps (.inl hu)) rounds rfl
    rintro _ u rfl
    refine keeps_perform_bind (.inl rfl) hOpen ?_
    intro r v hReads
    simp only [bench, Bench.Reads, hFile] at hReads
    rcases r with (_ | _ | _) | (_ | ⟨byte, rest⟩)
    · obtain rfl := hReads
      exact ⟨.inl rfl, rfl⟩
    · obtain rfl := hReads
      exact ⟨.inl rfl, nofun⟩
    · obtain rfl := hReads
      exact ⟨.inl rfl, nofun⟩
    · obtain rfl := hReads
      exact ⟨.inl rfl, nofun⟩
    · obtain ⟨_, hFound⟩ := hReads
      rw [if_pos rfl] at hFound
      subst hFound
      refine ⟨.inr ⟨_, rfl⟩, ?_⟩
      rintro idle hIdle
      rw [← Option.some.inj hIdle]

/-- The panel is found busy a number of times. -/
def polls (k : Nat) : List Signal := (List.replicate k [.busy false, .pause 50]).flatten

theorem polls_succ (k : Nat) : polls (k + 1) = polls k ++ [.busy false, .pause 50] := by
  rw [polls, List.replicate_succ', List.flatten_append]
  rfl

theorem polls_le {k m : Nat} (h : k ≤ m) : polls k <+: polls m := by
  obtain ⟨n, rfl⟩ := Nat.exists_eq_add_of_le h
  refine ⟨polls n, ?_⟩
  rw [polls, polls, polls, List.replicate_add, List.flatten_append]

/-- A wait: the panel is found idle in time, or busy as often as there is time for. -/
def idleItem (timeoutMs : Nat) : Item Signal where
  whole l := ∃ k ≤ timeoutMs / 50, l = polls k ++ [.busy true]
  part l := l <+: polls (timeoutMs / 50 + 1) ∨ ∃ k ≤ timeoutMs / 50, l = polls k ++ [.busy true]
  nothing := .inl List.nil_prefix
  whole_part _ h := .inr h

theorem panelWaitIdle_tells (rounds timeoutMs : Nat) :
    DriverTells wiring panel (panelWaitIdle rounds panel timeoutMs) (idleItem timeoutMs) := by
  intro s hReady
  let J : Nat → Bench → Prop := fun elapsed t =>
    ∃ k, elapsed = 50 * k ∧ k ≤ timeoutMs / 50 + 1 ∧ t = s.add (polls k)
  have hBusy : ∀ {k} {l : List Signal}, k ≤ timeoutMs / 50 → l <+: [.busy false, .pause 50] →
      Adds (idleItem timeoutMs).part s (s.add (polls k ++ l)) := by
    intro k l hk hl
    have hNext : polls k ++ l <+: polls (k + 1) := by
      rw [polls_succ]
      exact (List.prefix_append_right_inj _).mpr hl
    exact ⟨rfl, _, rfl, .inl (hNext.trans (polls_le (by omega)))⟩
  have hHere : ∀ {elapsed t}, J elapsed t → Adds (idleItem timeoutMs).part s t := by
    rintro elapsed t ⟨k, _, hk, rfl⟩
    exact ⟨rfl, _, rfl, .inl (polls_le hk)⟩
  refine keeps_loop (J := J) ?_ (fun elapsed t hJ => spin_keeps (hHere hJ)) rounds
    ⟨0, rfl, Nat.zero_le _, by simp [Bench.add, polls]⟩
  intro elapsed t hJ
  obtain ⟨k, hElapsed, hk, hAdded⟩ := id hJ
  by_cases hTime : elapsed ≤ timeoutMs
  case neg =>
    simp only [if_neg hTime]
    exact ⟨hHere hJ, nofun⟩
  simp only [if_pos hTime]
  have hInTime : k ≤ timeoutMs / 50 := by omega
  have hFound : ∀ idle, Adds (idleItem timeoutMs).part s (t.add [.busy idle]) := by
    intro idle
    have hAll : t.add [.busy idle] = s.add (polls k ++ [.busy idle]) := by
      simp [hAdded, Bench.add, List.append_assoc]
    rw [hAll]
    cases idle with
    | false => exact hBusy hInTime ⟨[.pause 50], rfl⟩
    | true => exact ⟨rfl, _, rfl, .inr ⟨k, hInTime, rfl⟩⟩
  have hFiles : t.files = s.files := by rw [hAdded, Bench.add_files]
  apply keeps_bind
  refine keeps_mono (keeps_inv (gpioGet_keeps (hFiles ▸ hReady)) ?_) ?_
  · rintro u (rfl | ⟨idle, rfl⟩)
    · exact hHere hJ
    · exact hFound idle
  · intro r u hI hRead
    rcases r with _ | _ | _
    · exact ⟨hI, nofun⟩
    · obtain rfl := hRead false rfl
      refine keeps_perform_bind hI trivial ?_
      rintro _ v (rfl : v = _)
      have hAll : (t.add [.busy false]).add [.pause 50] = s.add (polls (k + 1)) := by
        simp [hAdded, Bench.add, polls_succ, List.append_assoc]
      rw [hAll]
      have hNext : J (elapsed + 50) (s.add (polls (k + 1))) :=
        ⟨k + 1, by omega, by omega, rfl⟩
      exact ⟨hHere hNext, hNext⟩
    · obtain rfl := hRead true rfl
      refine ⟨hI, fun _ => ⟨by rw [hAdded]; rfl, polls k ++ [.busy true], ?_, k, hInTime, rfl⟩⟩
      rw [Bench.add_log, hAdded, Bench.add_log, List.append_assoc]

/-- The reset line goes low for a while. -/
def resetPulse : List Signal :=
  [.reset true, .pause 10, .reset false, .pause 10, .reset true, .pause 10]

/-- One level of the reset line, and the pause behind it. -/
theorem resetLevel_keeps (l rest : List Signal) {level : Bool} {p : Driver Bool}
    (hReady : Ready wiring panel s.files)
    (hPulse : resetPulse = l ++ [.reset level, .pause 10] ++ rest)
    (hp : DriverKeeps wiring (Adds (· <+: resetPulse) s)
      (fun ok t => ok = true → Adds (· = resetPulse) s t) p
      (s.add (l ++ [.reset level, .pause 10]))) :
    DriverKeeps wiring (Adds (· <+: resetPulse) s)
      (fun ok t => ok = true → Adds (· = resetPulse) s t)
      (gpioSet rounds panel.reset level >>= fun ok => if (!ok) = true then pure false
        else sleepMs 10 >>= fun _ => p) (s.add l) := by
  have hSplit : resetPulse = l ++ ([.reset level] ++ (.pause 10 :: rest)) := by
    simp [hPulse, List.append_assoc]
  have hBefore : Adds (· <+: resetPulse) s (s.add l) := ⟨rfl, l, rfl, ⟨_, hSplit.symm⟩⟩
  have hAfter : Adds (· <+: resetPulse) s ((s.add l).add [.reset level]) := by
    refine ⟨rfl, l ++ [.reset level], (List.append_assoc ..).symm ▸ rfl, .pause 10 :: rest, ?_⟩
    rw [hSplit, List.append_assoc]
  obtain ⟨fd, hLine, hFile⟩ := hReady.reset
  have hSet : DriverKeeps wiring _ _ (gpioSet rounds panel.reset level) (s.add l) :=
    gpioSet_keeps (s := s.add l) hLine hFile level
  simp only [Bench.drive_reset] at hSet
  apply keeps_bind
  refine keeps_mono (keeps_inv hSet ?_) ?_
  · rintro t (rfl | rfl)
    · exact hBefore
    · exact hAfter
  · intro ok t hI hOk
    cases ok with
    | false => exact ⟨hI, nofun⟩
    | true =>
      obtain rfl := hOk rfl
      refine keeps_perform_bind hI trivial ?_
      rintro _ u (rfl : u = _)
      have hAll : ((s.add l).add [.reset level]).add [.pause 10] =
          s.add (l ++ [.reset level, .pause 10]) := by
        simp [Bench.add, List.append_assoc]
      rw [hAll]
      exact hp

theorem panelReset_tells :
    DriverTells wiring panel (panelReset rounds panel) (.exactly resetPulse) := by
  intro s hReady
  have hEnd : Adds (· = resetPulse) s (s.add resetPulse) := ⟨rfl, _, rfl, rfl⟩
  have hStart : s.add [] = s := by simp [Bench.add]
  suffices h : DriverKeeps wiring (Adds (· <+: resetPulse) s)
      (fun ok t => ok = true → Adds (· = resetPulse) s t) (panelReset rounds panel) (s.add []) by
    rwa [hStart] at h
  refine resetLevel_keeps [] [.reset false, .pause 10, .reset true, .pause 10] hReady rfl ?_
  refine resetLevel_keeps [.reset true, .pause 10] [.reset true, .pause 10] hReady rfl ?_
  refine resetLevel_keeps [.reset true, .pause 10, .reset false, .pause 10] [] hReady rfl ?_
  exact ⟨hEnd.mono (by rintro _ rfl; exact List.prefix_rfl), fun _ => hEnd⟩

/-! ### The display -/

/-- The items of `panel_initialize`. -/
def settingItems : List (Item Signal) :=
  .exactly resetPulse :: panelSettings.map fun setting => .exactly (transfer setting.1 setting.2)

theorem panelInitialize_tells (rounds : Nat) :
    DriverTells wiring panel (panelInitialize rounds panel) (.sequence settingItems) := by
  intro s hReady
  refine allOf_tells (.cons panelReset_tells ?_) hReady
  rw [List.forall₂_map_left_iff, List.forall₂_map_right_iff, List.forall₂_same]
  exact fun setting _ => panelCommand_tells rounds setting.1 setting.2

/-- The items of `panel_display` before the refresh. -/
def itemsBefore (framebuffer : Option Framebuffer) : List (Item Signal) :=
  [.sequence settingItems, .exactly (transfer 0x04 []), idleItem 15000,
    .exactly (transfer 0x10 (List.replicate framebufferBytes 0x00)),
    .exactly (transfer 0x13 (picture framebuffer)),
    .exactly (transfer 0xe0 [0x02]), .exactly (transfer 0xe5 [0x5a])]

/-- The refresh, and the items behind it. -/
def itemsBehind : List (Item Signal) :=
  [.exactly (transfer 0x12 []), idleItem 60000, .exactly (transfer 0x02 []), idleItem 15000]

def displayItems (framebuffer : Option Framebuffer) : List (Item Signal) :=
  itemsBefore framebuffer ++ itemsBehind

/-- A display that was begun: a part of the sequence, and then at most the power-off. -/
def Displayed (framebuffer : Option Framebuffer) (l : List Signal) : Prop :=
  ∃ l₁ l₂, l = l₁ ++ l₂ ∧ Item.Begun (displayItems framebuffer) l₁ ∧ l₂ <+: transfer 0x02 []

theorem displayed_begun {framebuffer : Option Framebuffer} {l : List Signal}
    (h : Item.Begun (displayItems framebuffer) l) : Displayed framebuffer l :=
  ⟨l, [], (List.append_nil l).symm, h, List.nil_prefix⟩

theorem panelDisplay_keeps (hReady : Ready wiring panel s.files)
    (framebuffer : Option Framebuffer) :
    DriverKeeps wiring (Adds (Displayed framebuffer) s)
      (fun ok t => ok = true → Adds (Item.Done (displayItems framebuffer)) s t)
      (panelDisplay rounds panel framebuffer) s := by
  have hStages : DriverKeeps wiring (Adds (Item.Begun (displayItems framebuffer)) s)
      (fun ok t => ok = true → Adds (Item.Done (displayItems framebuffer)) s t) _ s :=
    allOf_tells (.cons (panelInitialize_tells rounds) <|
      .cons (panelCommand_tells rounds 0x04 []) <|
      .cons (panelWaitIdle_tells rounds 15000) <|
      .cons (panelFill_tells rounds 0x10 0x00) <|
      .cons (panelImage_tells rounds framebuffer) <|
      .cons (panelCommand_tells rounds 0xe0 [0x02]) <|
      .cons (panelCommand_tells rounds 0xe5 [0x5a]) <|
      .cons (panelCommand_tells rounds 0x12 []) <|
      .cons (panelWaitIdle_tells rounds 60000) <|
      .cons (panelCommand_tells rounds 0x02 []) <|
      .cons (panelWaitIdle_tells rounds 15000) .nil) hReady
  apply keeps_bind
  refine keeps_mono (keeps_inv (keeps_end hStages) fun t ht => ht.mono fun l => displayed_begun) ?_
  rintro ok t hI ⟨hPart, hOk⟩
  cases ok with
  | true => exact ⟨hI, hOk⟩
  | false =>
    have hReady' : Ready wiring panel t.files := (adds_files hPart).symm ▸ hReady
    have hOff : ∀ u, Adds (· <+: transfer 0x02 []) t u → Adds (Displayed framebuffer) s u :=
      fun u hu => hPart.trans hu fun l l' hl hl' => ⟨l, l', rfl, hl, hl'⟩
    apply keeps_bind
    refine keeps_mono (keeps_inv (panelCommand_tells rounds 0x02 [] t hReady') hOff) ?_
    exact fun _ u hu _ => ⟨hu, nofun⟩

end Esp32Fx.Einkctl
