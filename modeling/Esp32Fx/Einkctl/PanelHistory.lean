import Esp32Fx.Einkctl.PanelRuns
import Esp32Fx.Lib.Transition

/-! What the panel is told over any history of `einkctl` processes, each of which may fail at any call
or be killed at any moment: every refresh shows the whole picture of the process that asks for it. -/

namespace Esp32Fx.Einkctl

open Lib Program

variable {wiring : Wiring} {rounds speedHz : Nat} {device : List UInt8}
  {framebuffer : Option Framebuffer} {w s t u : Bench} {l : List Signal}

/-! ### One process -/

/-- What the panel sees of a process: a display, between signals without a byte. -/
def Session (framebuffer : Option Framebuffer) (l : List Signal) : Prop :=
  ∃ l₀ l₁ l₂, l = l₀ ++ l₁ ++ l₂ ∧ Quiet l₀ ∧ Displayed framebuffer l₁ ∧ Quiet l₂

/-- The whole display sequence, between signals without a byte. -/
def WholeSession (framebuffer : Option Framebuffer) (l : List Signal) : Prop :=
  ∃ l₀ l₁ l₂, l = l₀ ++ l₁ ++ l₂ ∧ Quiet l₀ ∧ Item.Done (displayItems framebuffer) l₁ ∧ Quiet l₂

theorem displayed_nil (framebuffer : Option Framebuffer) : Displayed framebuffer [] :=
  displayed_begun (Item.begun_nil _)

/-- The log has grown by something with `R`. -/
def Logged (R : List Signal → Prop) (w t : Bench) : Prop := ∃ l, t.log = w.log ++ l ∧ R l

theorem logged_quiet (h : QuietFrom w t) : Logged (Session framebuffer) w t := by
  obtain ⟨l, hLog, hQuiet⟩ := h
  exact ⟨l, hLog, l, [], [], by simp, hQuiet, displayed_nil framebuffer, nofun⟩

/-- A display behind the open of the panel, and a close behind it. -/
theorem logged_display {R R' : List Signal → Prop} (hOpen : QuietFrom w s) (hDisplay : Adds R s t)
    (hClose : QuietFrom t u)
    (hR : ∀ l₀ l₁ l₂, Quiet l₀ → R l₁ → Quiet l₂ → R' (l₀ ++ l₁ ++ l₂)) : Logged R' w u := by
  obtain ⟨l₀, hLog₀, hl₀⟩ := hOpen
  obtain ⟨_, l₁, hLog₁, hl₁⟩ := hDisplay
  obtain ⟨l₂, hLog₂, hl₂⟩ := hClose
  refine ⟨l₀ ++ l₁ ++ l₂, ?_, hR l₀ l₁ l₂ hl₀ hl₁ hl₂⟩
  rw [hLog₂, hLog₁, hLog₀, List.append_assoc, List.append_assoc, List.append_assoc]

/-- How a process ends: its files are closed, its lines taken back, and with success it has told
the panel everything. -/
structure Ended (framebuffer : Option Framebuffer) (w : Bench) (ok : Bool) (t : Bench) : Prop where
  files : t.files = w.files
  exports : Exports [] w t
  told : ok = true → Logged (WholeSession framebuffer) w t

theorem refreshPanel_keeps (w : Bench) :
    DriverKeeps wiring (Logged (Session framebuffer) w) (Ended framebuffer w)
      (refreshPanel rounds device speedHz framebuffer) w := by
  unfold refreshPanel
  apply keeps_bind
  refine keeps_mono (keeps_inv (panelOpen_keeps (.start w) device speedHz)
    fun t => logged_quiet) ?_
  rintro ⟨ok, panel⟩ s _ hOpened
  have hQuiet := hOpened.stands.quiet
  cases ok with
  | false =>
    apply keeps_bind
    refine keeps_mono (keeps_inv (panelClose_keeps hOpened.stands) fun t => logged_quiet) ?_
    exact fun _ t hI hStands => ⟨hI, hStands.files.eq, hStands.exports, nofun⟩
  | true =>
    have hLogged : ∀ {t u}, Adds (Displayed framebuffer) s t → QuietFrom t u →
        Logged (Session framebuffer) w u := fun hDisplay hClose =>
      logged_display hQuiet hDisplay hClose fun l₀ l₁ l₂ h₀ h₁ h₂ => ⟨l₀, l₁, l₂, rfl, h₀, h₁, h₂⟩
    apply keeps_bind
    refine keeps_mono (keeps_inv (keeps_end (panelDisplay_keeps (hOpened.ready rfl) framebuffer))
      fun t ht => hLogged ht (.refl t)) ?_
    rintro shown t _ ⟨hDisplay, hDone⟩
    -- for the close, the process as it began stands beside the log as it is now
    have hStands : Stands panel.descriptors panel.exports { w with log := t.log } t := by
      refine ⟨(adds_files hDisplay).symm ▸ hOpened.stands.files, ?_, .same rfl⟩
      have hExported : t.exported = s.exported := congrArg (fun held => held.2.1) hDisplay.frame
      have hFaulty : t.faulty = s.faulty := congrArg (fun held => held.2.2) hDisplay.frame
      have hExports := hOpened.stands.exports.same hExported fun hf => hFaulty ▸ hf
      exact ⟨hExports.nodup, hExports.fresh, hExports.held, hExports.kept, hExports.exact⟩
    have hClose : ∀ {u}, QuietFrom { w with log := t.log } u → QuietFrom t u := fun h => h
    apply keeps_bind
    refine keeps_mono (keeps_inv (panelClose_keeps hStands)
      fun u hu => hLogged hDisplay (hClose hu)) ?_
    intro _ u hI hEnd
    obtain ⟨hNodup, hFresh, hHeld, hKept, hExact⟩ := hEnd.exports
    refine ⟨hI, hEnd.files.eq, ⟨hNodup, hFresh, hHeld, hKept, hExact⟩, fun hOk => ?_⟩
    exact logged_display hQuiet (hDone hOk) (hClose hEnd.quiet)
      fun l₀ l₁ l₂ h₀ h₁ h₂ => ⟨l₀, l₁, l₂, rfl, h₀, h₁, h₂⟩

/-! ### The controller -/

/-- The panel's controller: the command that data belong to, the data of the old and of the new
image, and the images that have been shown. -/
structure Controller where
  register : Option UInt8
  old : List UInt8
  new : List UInt8
  shown : List (List UInt8)
  deriving DecidableEq, Repr

namespace Controller

def receive (c : Controller) : Signal → Controller
  | .byte false command =>
    let c := { c with register := some command }
    if command = 0x10 then { c with old := [] }
    else if command = 0x13 then { c with new := [] }
    else if command = 0x12 then { c with shown := c.shown ++ [c.new] }
    else c
  | .byte true byte =>
    if c.register = some 0x10 then { c with old := c.old ++ [byte] }
    else if c.register = some 0x13 then { c with new := c.new ++ [byte] }
    else c
  | _ => c

def after (c : Controller) (l : List Signal) : Controller := l.foldl receive c

variable {c : Controller}

theorem after_append (l l' : List Signal) : c.after (l ++ l') = (c.after l).after l' :=
  List.foldl_append

theorem after_quiet (h : Quiet l) : c.after l = c := by
  induction l with
  | nil => rfl
  | cons x l ih =>
    have hHere : c.receive x = c := by
      cases x with
      | byte data byte => exact absurd rfl (h _ List.mem_cons_self data byte)
      | _ => rfl
    show (c.receive x).after l = c
    rw [hHere]
    exact ih fun y hy => h y (List.mem_cons_of_mem _ hy)

/-- The command that shows the new image. -/
def refresh : Signal := .byte false 0x12

theorem receive_shown {x : Signal} (h : x ≠ refresh) : (c.receive x).shown = c.shown := by
  cases x with
  | byte data byte =>
    cases data with
    | true =>
      simp only [receive]
      split_ifs <;> rfl
    | false =>
      have hCommand : byte ≠ 0x12 := fun hEq => h (by rw [hEq, refresh])
      simp only [receive]
      split_ifs <;> rfl
  | _ => rfl

theorem after_shown (h : ∀ x ∈ l, x ≠ refresh) : (c.after l).shown = c.shown := by
  induction l generalizing c with
  | nil => rfl
  | cons x l ih =>
    show ((c.receive x).after l).shown = c.shown
    rw [ih fun y hy => h y (List.mem_cons_of_mem _ hy), receive_shown (h x List.mem_cons_self)]

/-- The data of the new image. -/
theorem after_new (h : c.register = some 0x13) (data : List UInt8) :
    c.after (data.map (.byte true)) = { c with new := c.new ++ data } := by
  induction data generalizing c with
  | nil => simp [after]
  | cons byte data ih =>
    have hOther : some 0x13 ≠ some (0x10 : UInt8) := by decide
    have hHere : c.receive (.byte true byte) = { c with new := c.new ++ [byte] } := by
      rw [receive, h, if_neg hOther, if_pos rfl]
    show (c.receive (.byte true byte)).after (data.map (.byte true)) = _
    rw [hHere, ih (c := { c with new := c.new ++ [byte] }) h, List.append_assoc]
    rfl

end Controller

/-! ### What a process shows -/

theorem transfer_avoids {command : UInt8} (h : command ≠ 0x12) {data : List UInt8}
    (hPart : l <+: transfer command data) : ∀ x ∈ l, x ≠ Controller.refresh := by
  intro x hx
  rcases List.mem_cons.mp (hPart.subset hx) with rfl | hData
  · intro hEq
    exact h (Signal.byte.inj hEq).2
  · obtain ⟨byte, _, rfl⟩ := List.mem_map.mp hData
    nofun

theorem polls_avoids (k : Nat) : ∀ x ∈ polls k, x ≠ Controller.refresh := by
  intro x hx
  obtain ⟨poll, hPoll, hx⟩ := List.mem_flatten.mp hx
  rw [List.eq_of_mem_replicate hPoll] at hx
  rcases List.mem_pair.mp hx with rfl | rfl <;> nofun

theorem idle_avoids (timeoutMs : Nat) (h : (idleItem timeoutMs).part l) :
    ∀ x ∈ l, x ≠ Controller.refresh := by
  rcases h with hPrefix | ⟨k, _, rfl⟩
  · exact fun x hx => polls_avoids _ x (hPrefix.subset hx)
  · intro x hx
    rcases List.mem_append.mp hx with hPolls | hIdle
    · exact polls_avoids k x hPolls
    · rw [List.mem_singleton.mp hIdle]
      nofun

theorem settings_avoid (h : Item.Begun settingItems l) : ∀ x ∈ l, x ≠ Controller.refresh := by
  refine h.forall fun item hItem l hPart => ?_
  rcases List.mem_cons.mp hItem with rfl | hItem
  · have hPulse : ∀ x ∈ resetPulse, x ≠ Controller.refresh := by decide
    exact fun x hx => hPulse x (hPart.subset hx)
  · obtain ⟨setting, hSetting, rfl⟩ := List.mem_map.mp hItem
    have hCommands : ∀ setting ∈ panelSettings, setting.1 ≠ 0x12 := by decide
    exact transfer_avoids (hCommands setting hSetting) hPart

theorem before_avoids (h : Item.Begun (itemsBefore framebuffer) l) :
    ∀ x ∈ l, x ≠ Controller.refresh := by
  refine h.forall fun item hItem l hPart => ?_
  simp only [itemsBefore, List.mem_cons, List.not_mem_nil, or_false] at hItem
  rcases hItem with rfl | rfl | rfl | rfl | rfl | rfl | rfl
  · exact settings_avoid hPart
  · exact transfer_avoids (by decide) hPart
  · exact idle_avoids _ hPart
  · exact transfer_avoids (by decide) hPart
  · exact transfer_avoids (by decide) hPart
  · exact transfer_avoids (by decide) hPart
  · exact transfer_avoids (by decide) hPart

/-- The items behind the refresh. -/
theorem behind_avoids (h : Item.Begun itemsBehind.tail l) : ∀ x ∈ l, x ≠ Controller.refresh := by
  refine h.forall fun item hItem l hPart => ?_
  simp only [itemsBehind, List.tail_cons, List.mem_cons, List.not_mem_nil, or_false] at hItem
  rcases hItem with rfl | rfl | rfl
  · exact idle_avoids _ hPart
  · exact transfer_avoids (by decide) hPart
  · exact idle_avoids _ hPart

/-- Before the refresh, the panel has the whole picture. -/
theorem before_new (h : Item.Done (itemsBefore framebuffer) l) (c : Controller) :
    (c.after l).new = picture framebuffer := by
  have hSplit : itemsBefore framebuffer = (itemsBefore framebuffer).take 4 ++
      [.exactly (transfer 0x13 (picture framebuffer)), .exactly (transfer 0xe0 [0x02]),
        .exactly (transfer 0xe5 [0x5a])] := rfl
  rw [hSplit] at h
  obtain ⟨l₁, _, rfl, _, _, _, rfl, rfl, _, _, rfl, rfl, _, _, rfl, rfl, rfl⟩ := Item.done_append h
  rw [Controller.after_append, Controller.after_append]
  generalize c.after l₁ = c
  have hImage : c.after (transfer 0x13 (picture framebuffer)) =
      { c with register := some 0x13, new := picture framebuffer } :=
    Controller.after_new (c := { c with register := some 0x13, new := [] }) rfl _
  rw [hImage]
  rfl

/-- A display shows its picture, or nothing. -/
theorem displayed_shown (h : Displayed framebuffer l) (c : Controller) :
    (c.after l).shown = c.shown ∨ (c.after l).shown = c.shown ++ [picture framebuffer] := by
  obtain ⟨l₁, off, rfl, hBegun, hOff⟩ := h
  rw [Controller.after_append, Controller.after_shown (transfer_avoids (by decide) hOff)]
  rcases Item.begun_append hBegun with hBefore | ⟨before, behind, rfl, hBefore, hBehind⟩
  · exact .inl (Controller.after_shown (before_avoids hBefore))
  rw [Controller.after_append]
  have hShown := Controller.after_shown (c := c) (before_avoids hBefore.begun)
  have hNew := before_new hBefore c
  rcases hBehind with hPart | ⟨_, rest, rfl, rfl, hRest⟩
  · have hPart : behind <+: [Controller.refresh] := hPart
    rcases List.prefix_cons_iff.mp hPart with rfl | ⟨rest, rfl, hRest⟩
    · exact .inl hShown
    · obtain rfl := List.prefix_nil.mp hRest
      refine .inr ?_
      rw [← hShown, ← hNew]
      rfl
  · refine .inr ?_
    rw [Controller.after_append, Controller.after_shown (behind_avoids hRest), ← hShown, ← hNew]
    rfl

theorem done_shown (h : Item.Done (displayItems framebuffer) l) (c : Controller) :
    (c.after l).shown = c.shown ++ [picture framebuffer] := by
  obtain ⟨before, behind, rfl, hBefore, _, rest, rfl, rfl, hRest⟩ := Item.done_append h
  rw [Controller.after_append, Controller.after_append,
    Controller.after_shown (behind_avoids hRest.begun),
    ← Controller.after_shown (c := c) (before_avoids hBefore.begun), ← before_new hBefore c]
  rfl

/-! ### Histories -/

/-- A process that is started on the panel. -/
structure Job where
  device : List UInt8
  speedHz : Nat
  framebuffer : Option Framebuffer

/-- How a process goes: it ends with a result, or it is killed. -/
inductive Fate
  | ends (ok : Bool)
  | killed
  deriving DecidableEq, Repr

/-- The bench behind a process: its files are gone. -/
def Bench.left (w : Bench) : Bench := { w with files := fun _ => none }

/-- The history of the panel: one process after the other. -/
def panelHistory (wiring : Wiring) : System Bench (Job × Fate) where
  Start _ := True
  Step w e t := ∃ rounds u, t = u.left ∧
    match e.2 with
    | .ends ok =>
      Runs (bench wiring) w (refreshPanel rounds e.1.device e.1.speedHz e.1.framebuffer) ok u
    | .killed =>
      Leaves (bench wiring) (wholeCalls (bench wiring)) w
        (refreshPanel rounds e.1.device e.1.speedHz e.1.framebuffer) u

/-- What a process may have shown: its own picture, and certainly that when it reports success. -/
def Shows (e : Job × Fate) (pictures : List (List UInt8)) : Prop :=
  pictures = [picture e.1.framebuffer] ∨ pictures = [] ∧ e.2 ≠ .ends true

/-- One process adds what it shows. -/
theorem step_shows {e : Job × Fate} (h : (panelHistory wiring).Step w e t) (c : Controller) :
    ∃ pictures, Shows e pictures ∧ (c.after t.log).shown = (c.after w.log).shown ++ pictures := by
  obtain ⟨job, fate⟩ := e
  obtain ⟨rounds, u, rfl, hStep⟩ := h
  have hKeeps : DriverKeeps wiring _ _
      (refreshPanel rounds job.device job.speedHz job.framebuffer) w := refreshPanel_keeps w
  have hSession : Logged (Session job.framebuffer) w u := by
    cases fate with
    | ends ok => exact (Runs.keeps hStep hKeeps).1
    | killed => exact hStep.keeps hKeeps
  by_cases hOk : fate = .ends true
  · subst hOk
    obtain ⟨_, hLog, l₀, l₁, l₂, rfl, h₀, h₁, h₂⟩ := (Runs.keeps hStep hKeeps).2.told rfl
    refine ⟨_, .inl rfl, ?_⟩
    show (c.after u.log).shown = _
    rw [hLog, Controller.after_append, Controller.after_append, Controller.after_append,
      Controller.after_quiet h₀, Controller.after_quiet h₂, done_shown h₁]
  · obtain ⟨_, hLog, l₀, l₁, l₂, rfl, h₀, h₁, h₂⟩ := hSession
    have hAll : (c.after u.log).shown = ((c.after w.log).after l₁).shown := by
      rw [hLog, Controller.after_append, Controller.after_append, Controller.after_append,
        Controller.after_quiet h₀, Controller.after_quiet h₂]
    rcases displayed_shown h₁ (c.after w.log) with hNone | hOne
    · exact ⟨[], .inr ⟨rfl, hOk⟩, by rw [List.append_nil]; exact hAll.trans hNone⟩
    · exact ⟨_, .inl rfl, hAll.trans hOne⟩

/-- In every history of the panel, the refreshes are those of the processes in their order: each
process has shown its whole picture once, or nothing if it has not reported success. -/
theorem panelHistory_shows {es : List (Job × Fate)} (hRun : (panelHistory wiring).Run w es t)
    (c : Controller) :
    ∃ shows : List (List (List UInt8)), List.Forall₂ Shows es shows ∧
      (c.after t.log).shown = (c.after w.log).shown ++ shows.flatten := by
  induction hRun with
  | nil => exact ⟨[], .nil, (List.append_nil _).symm⟩
  | snoc _ hLast ih =>
    obtain ⟨shows, hShows, hShown⟩ := ih
    obtain ⟨pictures, hPictures, hNext⟩ := step_shows hLast c
    refine ⟨shows ++ [pictures], ?_, ?_⟩
    · exact List.rel_append hShows (.cons hPictures .nil)
    · rw [hNext, hShown, List.flatten_append, List.flatten_singleton, List.append_assoc]

/-- The board before its first refresh, with no line exported. -/
def boardBench : Bench := ⟨fun _ => none, fun _ => false, false, [], false⟩

/-- `einkctl clear`. -/
def clearJob : Job := ⟨ascii "/dev/spidev0.0", 2000000, none⟩

theorem panelHistory_shows_clear : ∃ t,
    (panelHistory boardWiring).Run boardBench [(clearJob, .ends true)] t ∧
      ((⟨none, [], [], []⟩ : Controller).after t.log).shown =
        [List.replicate framebufferBytes 0xff] := by
  obtain ⟨u, hRun, _⟩ := refreshPanel_succeeds (w := boardBench) boardWiring_found (fun _ _ => rfl)
    (fun _ => rfl) (Nat.le_refl _) clearJob.device clearJob.speedHz none
  have hHistory : (panelHistory boardWiring).Run boardBench [(clearJob, .ends true)] u.left :=
    .snoc (.nil _) ⟨_, u, rfl, hRun⟩
  obtain ⟨shows, hShows, hShown⟩ := panelHistory_shows hHistory ⟨none, [], [], []⟩
  refine ⟨u.left, hHistory, ?_⟩
  obtain ⟨pictures, _, hPictures, hNone, rfl⟩ := List.forall₂_cons_left_iff.mp hShows
  obtain rfl := List.forall₂_nil_left_iff.mp hNone
  rcases hPictures with rfl | ⟨_, hFailed⟩
  · exact hShown
  · exact absurd rfl hFailed

/-! ### What a process leaves -/

/-- However a process goes, the panel sees of it a display that was begun, the whole of it when the
process reports success; and every call is made on an open file, with at most 4096 bytes for the wire. -/
theorem refreshPanel_wire (w : Bench) :
    (∀ t, Leaves (bench wiring) (wholeCalls (bench wiring)) w
      (refreshPanel rounds device speedHz framebuffer) t → Logged (Session framebuffer) w t) ∧
    (∀ t, Runs (bench wiring) w (refreshPanel rounds device speedHz framebuffer) true t →
      Logged (WholeSession framebuffer) w t) ∧
    ∀ c t, Reaches (bench wiring) w (refreshPanel rounds device speedHz framebuffer) c t →
      Proper c t := by
  have hKeeps : DriverKeeps wiring _ _ (refreshPanel rounds device speedHz framebuffer) w :=
    refreshPanel_keeps w
  exact ⟨fun _ h => h.keeps hKeeps, fun _ h => (Runs.keeps h hKeeps).2.told rfl,
    fun _ _ h => h.keeps hKeeps⟩

/-- A process that ends has closed what it opened, takes back no line that was exported before, and
leaves no other exported unless a call of its clearing up has failed. -/
theorem refreshPanel_restores {ok : Bool}
    (h : Runs (bench wiring) w (refreshPanel rounds device speedHz framebuffer) ok t) :
    t.files = w.files ∧ (∀ number, w.exported number = true → t.exported number = true) ∧
      (t.faulty = false → t.exported = w.exported) := by
  have hEnded := (Runs.keeps h (refreshPanel_keeps w)).2
  refine ⟨hEnded.files, hEnded.exports.kept, fun hFaulty => funext fun number => ?_⟩
  rw [hEnded.exports.exact hFaulty number]
  simp

/-- A process that exports its lines, and takes them back. -/
theorem refreshPanel_restores_board : ∃ t, Runs (bench boardWiring) boardBench
    (refreshPanel (framebufferBytes + 2) clearJob.device clearJob.speedHz none) true t ∧
      t.files = boardBench.files ∧ t.exported = boardBench.exported := by
  obtain ⟨t, hRun, hFaulty⟩ := refreshPanel_succeeds (w := boardBench) boardWiring_found
    (fun _ _ => rfl) (fun _ => rfl) (Nat.le_refl (framebufferBytes + 2)) clearJob.device
    clearJob.speedHz none
  obtain ⟨hFiles, _, hExported⟩ := refreshPanel_restores hRun
  exact ⟨t, hRun, hFiles, hExported hFaulty⟩

end Esp32Fx.Einkctl
