import Esp32Fx.Eink.SupervisorFacts

/-! The supervisor's run: the runtime is started, asked and waited for, the answer is shown, and what
was taken is given back. -/

namespace Esp32Fx.Eink.Supervisor

open Lib Program

variable {build : Build} {inv : Invocation} {w s t : World} {fds l m : List (Nat × Handle)}
  {pid fd : Nat} {child : Child} {process : Process}

/-! ### Processes -/

/-- The processes that are left could not be waited for. -/
def Abandoned (s : World) : Prop := ∀ pid, s.children pid ≠ none → Call.wait pid ∈ s.failures

theorem Abandoned.quiet (h : Abandoned s) (a : Nat) : Quiet s a := by
  intro pid child hChild _
  exact h pid (by rw [hChild]; nofun)

theorem abandoned_idle (hIdle : s.children = fun _ => none) : Abandoned s := by
  intro pid hChild
  rw [hIdle] at hChild
  exact absurd rfl hChild

/-- Calls that have failed to give something back. -/
def World.refused (s : World) (calls : List Call) : World :=
  { s with failures := s.failures ++ calls }

/-- A process that has been waited for. -/
def World.reap (s : World) (pid : Nat) (child : Child) (exit : Exit) : World :=
  { s with children := Function.update s.children pid none, reaped := s.reaped ++ [(child, exit)] }

theorem World.refused_refused (s : World) (calls calls' : List Call) :
    (s.refused calls).refused calls' = s.refused (calls ++ calls') := by
  simp [World.refused]

/-- What a `wait` comes to. -/
inductive Awaited (s : World) (pid : Nat) (child : Child) : Option Exit → World → Prop
  | ended (exit : Exit) (calls : List Call) :
    Awaited s pid child (some exit) ((s.refused calls).reap pid child exit)
  | failed {calls : List Call} (hWait : Call.wait pid ∈ calls) :
    Awaited s pid child none (s.refused calls)

theorem host_wait {x : Waited} (hChild : s.children pid = some child)
    (h : host s (.wait pid) x t) :
    (∃ exit, x = .ended exit ∧ t = s.reap pid child exit) ∨
      (∀ exit, x ≠ .ended exit) ∧ t = s.refused [.wait pid] := by
  cases x with
  | ended exit =>
    obtain ⟨child', hChild', rfl⟩ := h
    rw [hChild] at hChild'
    cases hChild'
    exact .inl ⟨exit, rfl, rfl⟩
  | interrupted => exact .inr ⟨nofun, h⟩
  | failed => exact .inr ⟨nofun, h⟩

theorem proper_wait (hChild : s.children pid = some child) :
    Proper build inv w (.wait pid) s := by
  refine ⟨trivial, ?_, trivial⟩
  rw [Handles, hChild]
  simp

theorem waitFor_keeps (hChild : s.children pid = some child) (rounds : Nat) :
    SystemKeeps build inv w (Awaited s pid child) (waitFor rounds pid) s := by
  have hBody : ∀ (u : Unit) t, (∃ calls, t = s.refused calls) →
      SystemKeeps build inv w (Round (fun _ t => ∃ calls, t = s.refused calls)
        (Awaited s pid child)) (waitRound pid u) t := by
    rintro _ _ ⟨calls, rfl⟩
    have hHere : (s.refused calls).children pid = some child := hChild
    refine keeps_perform_bind trivial (proper_wait hHere) ?_
    intro x t hCall
    have hWaited := host_wait hHere hCall
    rcases x with exit | _ | _
    · obtain ⟨_, hExit, rfl⟩ | ⟨hNot, _⟩ := hWaited
      · cases hExit
        exact ⟨trivial, .ended exit calls⟩
      · exact absurd rfl (hNot exit)
    · obtain ⟨_, hExit, _⟩ | ⟨_, rfl⟩ := hWaited
      · cases hExit
      · exact ⟨trivial, calls ++ [.wait pid], World.refused_refused ..⟩
    · obtain ⟨_, hExit, _⟩ | ⟨_, rfl⟩ := hWaited
      · cases hExit
      · rw [World.refused_refused]
        exact ⟨trivial, .failed (by simp)⟩
  refine keeps_loop hBody ?_ rounds ⟨[], by simp [World.refused]⟩
  intro _ t _
  exact keeps_call trivial ⟨trivial, trivial, trivial⟩ fun x => x.elim

/-- A `wait` for the only process, whatever it answers. -/
theorem wait_keeps (hChildren : s.children = Function.update (fun _ => none) pid (some child)) :
    SystemKeeps build inv w (fun _ t => Abandoned t ∧ s.failures ⊆ t.failures ∧
        t = { s with children := t.children, reaped := t.reaped, failures := t.failures })
      (wait pid) s := by
  have hChild : s.children pid = some child := by rw [hChildren, Function.update_self]
  refine keeps_call trivial (proper_wait hChild) ?_
  intro x t hCall
  obtain ⟨exit, _, rfl⟩ | ⟨_, rfl⟩ := host_wait hChild hCall
  · refine ⟨trivial, abandoned_idle ?_, fun _ => id, rfl⟩
    simp [World.reap, hChildren]
  · refine ⟨trivial, ?_, List.subset_append_left .., rfl⟩
    intro pid' hChild'
    obtain rfl : pid' = pid := by
      by_contra hNe
      simp only [World.refused, hChildren, Function.update_of_ne hNe] at hChild'
      exact hChild' rfl
    simp [World.refused]

/-! ### The runtime -/

/-- The kind of a descriptor that may have a stream on it. -/
def handleKind (isStream : Bool) : Handle := if isStream then .stream else .descriptor

theorem fdopen_keeps (h : Has w (l ++ (fd, .descriptor) :: m) s) :
    SystemKeeps build inv w (fun ok t => ∃ handles, t = { s with handles := handles } ∧
        Has w (l ++ (fd, handleKind ok) :: m) t) (fdopen fd) s := by
  refine keeps_call trivial ⟨trivial, h.opened (by simp), trivial⟩ ?_
  rintro (_ | _) t hCall
  · obtain rfl : t = s := hCall
    exact ⟨trivial, t.handles, rfl, h⟩
  · obtain rfl : t = { s with handles := Function.update s.handles fd (some .stream) } := hCall
    exact ⟨trivial, _, rfl, h.stream rfl⟩

theorem closeEither_keeps (isStream : Bool) (h : Has w (l ++ (fd, handleKind isStream) :: m) s) :
    SystemKeeps build inv w (fun _ t => ∃ handles, t = { s with handles := handles } ∧
        Has w (l ++ m) t) (closeEither isStream fd) s := by
  cases isStream with
  | false =>
    refine keeps_call trivial ⟨trivial, h.opened (by simp [handleKind]), trivial⟩ ?_
    rintro _ t rfl
    exact ⟨trivial, _, rfl, h.close rfl⟩
  | true =>
    refine keeps_call trivial ⟨trivial, h.opened (by simp [handleKind]), trivial⟩ ?_
    rintro _ t rfl
    exact ⟨trivial, _, rfl, h.close rfl⟩

theorem close_keeps (h : Has w (l ++ (fd, .descriptor) :: m) s) :
    SystemKeeps build inv w (fun _ t => ∃ handles, t = { s with handles := handles } ∧
        Has w (l ++ m) t) (close fd) s :=
  closeEither_keeps false h

/-- What starting the runtime comes to: it runs, with streams to it, or nothing is left of it. -/
inductive Started (w : World) (argv : List (List UInt8)) (s : World) :
    Option Process → World → Prop
  | running {pid input output : Nat} {child : Child} {t : World}
    (hHas : Has w [(output, .stream), (input, .stream)] t) (hArgv : child.argv = argv)
    (hChildren : t.children = Function.update (fun _ => none) pid (some child))
    (hFrame : t = { s with handles := t.handles, children := t.children, dirty := t.dirty }) :
    Started w argv s (some ⟨pid, some input, some output⟩) t
  | failed {t : World} (hHandles : t.handles = w.handles) (hAbandoned : Abandoned t)
    (hFailures : s.failures ⊆ t.failures)
    (hFrame : t = { s with
      handles := t.handles, children := t.children, dirty := t.dirty, reaped := t.reaped
      failures := t.failures }) :
    Started w argv s none t

theorem openStreams_keeps {argv : List (List UInt8)} {toWrite fromRead : Nat}
    {handles : Nat → Option Handle} {dirty : Nat → Prop} (hArgv : child.argv = argv)
    (h : Has w [(fromRead, .descriptor), (toWrite, .descriptor)] { s with
      handles := handles
      children := Function.update (fun _ => none) pid (some child)
      dirty := dirty }) :
    SystemKeeps build inv w (Started w argv s) (openStreams pid toWrite fromRead) { s with
      handles := handles
      children := Function.update (fun _ => none) pid (some child)
      dirty := dirty } := by
  apply keeps_bind
  refine keeps_mono (fdopen_keeps (l := [(fromRead, .descriptor)]) (m := []) h) ?_
  rintro (input : Bool) _ _ ⟨handles₁, rfl, hInput⟩
  apply keeps_bind
  refine keeps_mono (fdopen_keeps (l := []) hInput) ?_
  rintro (output : Bool) _ _ ⟨handles₂, rfl, hOutput⟩
  by_cases hBoth : (input && output) = true
  · rw [if_pos hBoth]
    obtain ⟨rfl, rfl⟩ := Bool.and_eq_true_iff.mp hBoth
    exact ⟨trivial, .running hOutput hArgv rfl rfl⟩
  · rw [if_neg hBoth]
    apply keeps_bind
    refine keeps_mono (closeEither_keeps input (l := [(fromRead, handleKind output)]) (m := []) hOutput) ?_
    rintro _ _ _ ⟨handles₃, rfl, hClosed⟩
    apply keeps_bind
    refine keeps_mono (closeEither_keeps output (l := []) (m := []) hClosed) ?_
    rintro _ _ _ ⟨handles₄, rfl, hNone⟩
    refine keeps_perform_bind trivial ⟨trivial, ?_, trivial⟩ ?_
    · simp [Handles]
    rintro _ _ rfl
    apply keeps_bind
    refine keeps_mono (wait_keeps rfl) ?_
    rintro _ t _ ⟨hAbandoned, hFailures, hFrame⟩
    refine ⟨trivial, .failed ?_ hAbandoned hFailures ?_⟩
    · rw [hFrame]
      exact hNone.eq
    · rw [hFrame]

theorem startFx_keeps {runner module : List UInt8} (hHandles : s.handles = w.handles)
    (hIdle : s.children = fun _ => none)
    (hSpawn : ∀ handles stdio, Lends build w (.spawn ⟨[runner, module], some stdio⟩)
        { s with handles := handles } ∧
      Speaks build inv (.spawn ⟨[runner, module], some stdio⟩) { s with handles := handles }) :
    SystemKeeps build inv w (Started w [runner, module] s) (startFx runner module) s := by
  refine keeps_perform_bind trivial ⟨trivial, trivial, trivial⟩ ?_
  rintro (_ | ⟨toRead, toWrite⟩) t hCall
  · obtain rfl : t = s := hCall
    exact ⟨trivial, .failed hHandles (abandoned_idle hIdle) (fun _ => id) rfl⟩
  obtain ⟨hRead, hWrite, hNe, rfl⟩ := hCall
  have hTo : Has w [(toWrite, .descriptor), (toRead, .descriptor)] { s with
      handles := Function.update (Function.update s.handles toRead (some .descriptor)) toWrite
        (some .descriptor) } := (Has.nil hHandles).pipe hRead hWrite hNe rfl
  refine keeps_perform_bind trivial ⟨trivial, trivial, trivial⟩ ?_
  rintro (_ | ⟨fromRead, fromWrite⟩) t hCall
  · obtain rfl := hCall
    apply keeps_bind
    refine keeps_mono (close_keeps (l := [(toWrite, .descriptor)]) (m := []) hTo) ?_
    rintro _ _ _ ⟨handles, rfl, hClosed⟩
    apply keeps_bind
    refine keeps_mono (close_keeps (l := []) (m := []) hClosed) ?_
    rintro _ _ _ ⟨handles', rfl, hNone⟩
    exact ⟨trivial, .failed hNone.eq (abandoned_idle hIdle) (fun _ => id) rfl⟩
  obtain ⟨hRead', hWrite', hNe', rfl⟩ := hCall
  have hBoth : Has w [(fromWrite, .descriptor), (fromRead, .descriptor), (toWrite, .descriptor),
      (toRead, .descriptor)] { s with
        handles := Function.update (Function.update (Function.update
          (Function.update s.handles toRead (some .descriptor)) toWrite (some .descriptor))
          fromRead (some .descriptor)) fromWrite (some .descriptor) } :=
    hTo.pipe hRead' hWrite' hNe' rfl
  obtain ⟨hLends, hSpeaks⟩ := hSpawn (Function.update (Function.update (Function.update
    (Function.update s.handles toRead (some .descriptor)) toWrite (some .descriptor))
    fromRead (some .descriptor)) fromWrite (some .descriptor)) (toRead, fromWrite)
  have hStdio : Handles w (.spawn ⟨[runner, module], some (toRead, fromWrite)⟩) { s with
      handles := Function.update (Function.update (Function.update
        (Function.update s.handles toRead (some .descriptor)) toWrite (some .descriptor))
        fromRead (some .descriptor)) fromWrite (some .descriptor) } :=
    ⟨hBoth.opened (by simp), hBoth.opened (by simp)⟩
  refine keeps_perform_bind trivial ⟨hLends, hStdio, hSpeaks⟩ ?_
  rintro (_ | pid) t hCall
  · obtain rfl := hCall
    apply keeps_bind
    refine keeps_mono (close_keeps (l := [(fromWrite, .descriptor), (fromRead, .descriptor),
      (toWrite, .descriptor)]) (m := []) hBoth) ?_
    rintro _ _ _ ⟨handles₁, rfl, hFirst⟩
    apply keeps_bind
    refine keeps_mono (close_keeps (l := [(fromWrite, .descriptor), (fromRead, .descriptor)])
      (m := []) hFirst) ?_
    rintro _ _ _ ⟨handles₂, rfl, hSecond⟩
    apply keeps_bind
    refine keeps_mono (close_keeps (l := [(fromWrite, .descriptor)]) (m := []) hSecond) ?_
    rintro _ _ _ ⟨handles₃, rfl, hThird⟩
    apply keeps_bind
    refine keeps_mono (close_keeps (l := []) (m := []) hThird) ?_
    rintro _ _ _ ⟨handles₄, rfl, hNone⟩
    exact ⟨trivial, .failed hNone.eq (abandoned_idle hIdle) (fun _ => id) rfl⟩
  obtain ⟨-, rfl⟩ := hCall
  rw [hIdle]
  apply keeps_bind
  refine keeps_mono (close_keeps (l := [(fromWrite, .descriptor), (fromRead, .descriptor),
    (toWrite, .descriptor)]) (m := []) (hBoth.congr rfl)) ?_
  rintro _ _ _ ⟨handles₁, rfl, hFirst⟩
  apply keeps_bind
  refine keeps_mono (close_keeps (l := []) hFirst) ?_
  rintro _ _ _ ⟨handles₂, rfl, hSecond⟩
  exact openStreams_keeps rfl hSecond

/-- The streams of a process: both open, or both closed. -/
inductive Streams (w : World) (process : Process) (s : World) : Prop
  | both {input output : Nat} (hInput : process.input = some input)
    (hOutput : process.output = some output)
    (hHas : Has w [(output, .stream), (input, .stream)] s)
  | neither (hInput : process.input = none) (hOutput : process.output = none)
    (hHandles : s.handles = w.handles)

theorem closeStreams_keeps (h : Streams w process s) :
    SystemKeeps build inv w (fun _ t => t = { s with handles := w.handles })
      (closeStreams process) s := by
  unfold closeStreams
  cases h with
  | both hInput hOutput hHas =>
    rw [hInput, hOutput]
    apply keeps_bind
    refine keeps_mono (closeEither_keeps true (m := [])
      (l := [(_, .stream)]) hHas) ?_
    rintro _ _ _ ⟨handles, rfl, hClosed⟩
    refine keeps_mono (closeEither_keeps true (l := []) (m := []) hClosed) ?_
    rintro _ _ _ ⟨handles', rfl, hNone⟩
    have hSame : handles' = w.handles := hNone.eq
    rw [hSame]
  | neither hInput hOutput hHandles =>
    rw [hInput, hOutput]
    exact ⟨trivial, by rw [← hHandles]⟩

/-- What waiting for the runtime comes to. -/
inductive Ended (w : World) (child : Child) (pid : Nat) (s : World) :
    Option Process × Bool → World → Prop
  | well (calls : List Call) : Ended w child pid s (none, true)
      ((World.refused { s with handles := w.handles } calls).reap pid child (.exited 0))
  | badly (exit : Exit) (calls : List Call) : Ended w child pid s (none, false)
      ((World.refused { s with handles := w.handles } calls).reap pid child exit)
  | lost (calls : List Call) : Ended w child pid s (some ⟨pid, none, none⟩, false)
      (World.refused { s with handles := w.handles } calls)

theorem finishFx_keeps (h : Streams w process s)
    (hChild : s.children process.pid = some child) (rounds : Nat) :
    SystemKeeps build inv w (Ended w child process.pid s) (finishFx rounds process) s := by
  apply keeps_bind
  refine keeps_mono (closeStreams_keeps h) ?_
  rintro _ _ _ rfl
  apply keeps_bind
  have hHere : ({ s with handles := w.handles } : World).children process.pid = some child := hChild
  refine keeps_mono (waitFor_keeps hHere rounds) ?_
  rintro _ _ _ (⟨exit, calls⟩ | ⟨_⟩)
  · refine ⟨trivial, ?_⟩
    by_cases hExit : exit = .exited 0
    · subst hExit
      exact .well calls
    · rw [decide_eq_false hExit]
      exact .badly exit calls
  · exact ⟨trivial, .lost _⟩

/-! ### The conversation -/

section Conversation

variable {settings : Settings} {prompt : List UInt8} {input output : Nat}

/-- What a request comes to: the lines up to its response are those that `readUntilId` reads. -/
structure Replied (bits : Nat) (request : List UInt8) (n : Int) (response : Option TextBuffer)
    (s : World) (r : Option (List UInt8 × Option TextBuffer)) (t : World) : Prop where
  frame : t = { s with exchanged := t.exchanged, ended := t.ended }
  reply : ∀ last after, r = some (last, after) → ∃ lines,
    t.exchanged = s.exchanged ++ turn request lines ∧
      ∀ line, Reads bits lines n line response last after

theorem ask_keeps (hHas : Has w [(output, .stream), (input, .stream)] s)
    (hAsked : Asked build inv settings prompt) {n : Int} {last request : List UInt8}
    (hSays : Says build.bits inv.env prompt n s.exchanged last request) (rounds : Nat)
    (response : Option TextBuffer) :
    SystemKeeps build inv w (Replied build.bits request n response s)
      (ask rounds build.bits input output request n response) s := by
  refine keeps_perform_bind trivial ⟨trivial, hHas.opened (by simp), settings, prompt, hAsked, n,
    last, hSays⟩ ?_
  rintro (_ | _) t hCall
  · obtain rfl : t = { s with exchanged := s.exchanged ++ [.torn request] } := hCall
    exact ⟨trivial, rfl, nofun⟩
  · obtain rfl : t = { s with exchanged := s.exchanged ++ [.sent request] } := hCall
    refine keeps_mono (readUntil_keeps ?_ (fun _ => ⟨trivial, trivial, trivial⟩) rounds response) ?_
    · intro lines ended
      exact ⟨trivial, hHas.opened (by simp), trivial⟩
    rintro r _ _ ⟨lines, ended, rfl, hReads⟩
    refine ⟨rfl, ?_⟩
    rintro last' after rfl
    refine ⟨lines, ?_, hReads⟩
    simp [World.heard, turn]

/-- What the conversation comes to. -/
structure Conversed (build : Build) (inv : Invocation) (prompt : List UInt8) (s : World)
    (r : Option TextBuffer) (t : World) : Prop where
  frame : t = { s with exchanged := t.exchanged, ended := t.ended }
  whole : ∀ response, r = some response → ∃ lines last,
    Conversation build.bits inv.env prompt t.exchanged lines last response

theorem converse_keeps (hHas : Has w [(output, .stream), (input, .stream)] s)
    (hAsked : Asked build inv settings prompt) (hStart : s.exchanged = []) (rounds : Nat) :
    SystemKeeps build inv w (Conversed build inv prompt s)
      (converse rounds build.bits inv.env input output prompt) s := by
  have hFirst : Says build.bits inv.env prompt 1 s.exchanged [] (sendInitialize inv.env) := by
    rw [hStart]
    exact .first
  apply keeps_bind
  refine keeps_mono (ask_keeps hHas hAsked hFirst rounds none) ?_
  rintro (_ | ⟨line₁, after₁⟩) t₁ _ ⟨hFrame₁, hReply₁⟩
  · exact ⟨trivial, hFrame₁, nofun⟩
  obtain ⟨lines₁, hTurn₁, hReads₁⟩ := hReply₁ _ _ rfl
  obtain rfl : after₁ = none := by simpa using (hReads₁ []).isSome
  have hSecond : Says build.bits inv.env prompt 2 t₁.exchanged line₁ sendNewSession := by
    rw [hTurn₁, hStart]
    exact .second (hReads₁ [])
  have hHas₁ : Has w [(output, .stream), (input, .stream)] t₁ := hHas.congr (by rw [hFrame₁])
  apply keeps_bind
  refine keeps_mono (ask_keeps hHas₁ hAsked hSecond rounds none) ?_
  rintro (_ | ⟨line₂, after₂⟩) t₂ _ ⟨hFrame₂, hReply₂⟩
  · exact ⟨trivial, by rw [hFrame₂, hFrame₁], nofun⟩
  obtain ⟨lines₂, hTurn₂, hReads₂⟩ := hReply₂ _ _ rfl
  obtain rfl : after₂ = none := by simpa using (hReads₂ []).isSome
  have hFrame : t₂ = { s with exchanged := t₂.exchanged, ended := t₂.ended } := by
    rw [hFrame₂, hFrame₁]
  dsimp only
  cases hId : jsonStringValue line₂ (ascii "sessionId") with
  | invalid => exact ⟨trivial, hFrame, nofun⟩
  | absent => exact ⟨trivial, hFrame, nofun⟩
  | found sessionId =>
    dsimp only
    cases hAllocated : sessionId.allocated with
    | false => exact ⟨trivial, hFrame, nofun⟩
    | true =>
      have hThird : Says build.bits inv.env prompt 3 t₂.exchanged line₂
          (sendPrompt sessionId.data prompt) := by
        rw [hTurn₂, hTurn₁, hStart]
        exact .third (hReads₁ []) (hReads₂ line₁) hId hAllocated
      have hHas₂ : Has w [(output, .stream), (input, .stream)] t₂ :=
        hHas₁.congr (by rw [hFrame₂])
      apply keeps_bind
      refine keeps_mono (ask_keeps hHas₂ hAsked hThird rounds (some .empty)) ?_
      rintro (_ | ⟨line₃, after₃⟩) t₃ _ ⟨hFrame₃, hReply₃⟩
      · exact ⟨trivial, by rw [hFrame₃, hFrame], nofun⟩
      obtain ⟨lines₃, hTurn₃, hReads₃⟩ := hReply₃ _ _ rfl
      obtain ⟨response, rfl⟩ : ∃ response, after₃ = some response := by
        rw [← Option.isSome_iff_exists]
        exact (hReads₃ []).isSome
      refine ⟨trivial, by rw [hFrame₃, hFrame], ?_⟩
      rintro _ ⟨⟩
      exact ⟨lines₃, line₂, ⟨_, _, hThird, hTurn₃⟩, line₃, hReads₃ line₂⟩

end Conversation

/-! ### Readiness -/

theorem Published.congr {held : Guard → Option Region} (h : Published build w held s)
    (hEnv : t.env = s.env) (hMaps : t.maps = s.maps) (hDirty : t.dirty = s.dirty) :
    Published build w held t where
  all := h.all
  owns guard r hHeld := by
    obtain ⟨hPlace, hMapped⟩ := h.owns guard r hHeld
    exact ⟨hPlace, fun hOther => by rw [hMaps]; exact hMapped hOther⟩
  told := hEnv ▸ h.told
  clean := hDirty ▸ h.clean
  apart := h.apart

/-- The marker has been read and slept on. -/
def World.polled (s : World) (marker : Option Marker) (sleeps : Nat) : World :=
  { s with marker := marker, sleeps := sleeps }

theorem readinessMarkerState_waiting {marker : Marker}
    (h : readinessMarkerState marker = .waiting) : marker = .missing := by
  cases marker with
  | missing => rfl
  | refused => cases h
  | contents bytes =>
    simp only [readinessMarkerState] at h
    split at h
    · cases h
    · cases h

theorem readinessMarkerState_ready {marker : Marker}
    (h : readinessMarkerState marker = .ready) : marker = .contents (ascii "ready\n") := by
  cases marker with
  | missing => cases h
  | refused => cases h
  | contents bytes =>
    simp only [readinessMarkerState] at h
    split at h
    · next hBytes => rw [hBytes]
    · cases h

theorem pollReady_keeps {held : Guard → Option Region} (h : Published build w held s)
    (path : List UInt8) (waits : Nat) {marker : Option Marker} {sleeps : Nat}
    (hSleeps : sleeps + waits ≤ 180) :
    SystemKeeps build inv w (fun state t => ∃ marker sleeps, t = s.polled marker sleeps ∧
        (state = .ready → marker = some (.contents (ascii "ready\n"))))
      (pollReady path waits) (s.polled marker sleeps) := by
  have hRead : ∀ marker sleeps, Proper build inv w (.readMarker path) (s.polled marker sleeps) :=
    fun _ _ => ⟨⟨held, h.congr rfl rfl rfl⟩, trivial, trivial⟩
  induction waits generalizing marker sleeps with
  | zero =>
    refine keeps_perform_bind trivial (hRead _ _) ?_
    rintro (read : Marker) _ rfl
    exact ⟨trivial, some read, sleeps, rfl, fun hReady => by
      rw [readinessMarkerState_ready hReady]⟩
  | succ waits ih =>
    refine keeps_perform_bind trivial (hRead _ _) ?_
    rintro (read : Marker) _ rfl
    cases hState : readinessMarkerState read with
    | waiting =>
      obtain rfl := readinessMarkerState_waiting hState
      have hBelow : sleeps < 180 := by omega
      refine keeps_perform_bind trivial ⟨trivial, trivial, hBelow, rfl⟩ ?_
      rintro _ _ rfl
      have hNext : sleeps + 1 + waits ≤ 180 := by omega
      exact ih hNext
    | ready =>
      exact ⟨trivial, some read, sleeps, rfl, fun _ => by
        rw [readinessMarkerState_ready hState]⟩
    | rejected => exact ⟨trivial, some read, sleeps, rfl, nofun⟩

theorem awaitReady_keeps {held : Guard → Option Region} (h : Published build w held s)
    (hSleeps : s.sleeps = 0) (settings : Settings) :
    SystemKeeps build inv w (fun ok t => ∃ marker sleeps, t = s.polled marker sleeps ∧
        (ok = true → settings.Ready t)) (awaitReady settings.readyPath) s := by
  cases hPath : settings.readyPath with
  | none =>
    refine ⟨trivial, s.marker, s.sleeps, rfl, fun _ path hSome => ?_⟩
    rw [hPath] at hSome
    cases hSome
  | some path =>
    unfold awaitReady
    dsimp only
    by_cases hBad : ¬ascii "/tmp/" <+: path ∨ path.length > 255
    · rw [if_pos hBad]
      exact ⟨trivial, s.marker, s.sleeps, rfl, nofun⟩
    · rw [if_neg hBad]
      obtain ⟨hTmp, hLength⟩ := not_or.mp hBad
      have hPoll : SystemKeeps build inv w _ (pollReady path 180) (s.polled s.marker s.sleeps) :=
        pollReady_keeps h path 180 (by omega)
      apply keeps_bind
      refine keeps_mono hPoll ?_
      rintro state _ _ ⟨marker, sleeps, rfl, hMarker⟩
      refine ⟨trivial, marker, sleeps, rfl, fun hReady path' hPath' => ?_⟩
      rw [hPath] at hPath'
      cases hPath'
      exact ⟨not_not.mp hTmp, not_lt.mp hLength, hMarker (of_decide_eq_true hReady)⟩

/-! ### The answer -/

section Answer

variable {settings : Settings} {prompt transcript : List UInt8} {response : TextBuffer}
  {lines : List (List UInt8)} {last : List UInt8} {rounds : Nat}

/-- The renderer has shown the answer. -/
def Rendered (settings : Settings) (prompt : List UInt8) (response : TextBuffer) (t : World) :
    Prop :=
  ∃ runtime renderer transcript, t.reaped = [(runtime, .exited 0), (renderer, .exited 0)] ∧
    runtime.argv = [settings.runner, settings.module] ∧
    renderer.argv = rendererArgv settings transcript ∧
    renderer.input = some (writeTranscript prompt response)

/-- What has been told to the user, for a result. -/
inductive Told (build : Build) (inv : Invocation) : Bool → World → Prop
  | silent {t : World} (hPrinted : t.printed = []) : Told build inv false t
  | helped {t : World} (hHelp : readOptions (.initial build inv.env) inv.options = .inr true)
    (hPrinted : t.printed = usage build) : Told build inv true t
  | answered {settings : Settings} {prompt last : List UInt8} {lines : List (List UInt8)}
    {response : TextBuffer} {result : Bool} {t : World}
    (hAsked : Asked build inv settings prompt)
    (hConversation : Conversation build.bits inv.env prompt t.exchanged lines last response)
    (hAllocated : response.allocated = true) (hNonempty : response.data ≠ [])
    (hPrinted : t.printed = cString response.data ++ ascii "\n")
    (hRendered : result = true → Rendered settings prompt response t) : Told build inv result t

theorem Told.congr {result : Bool} (h : Told build inv result s) (hPrinted : t.printed = s.printed)
    (hExchanged : t.exchanged = s.exchanged) (hReaped : result = true → t.reaped = s.reaped) :
    Told build inv result t := by
  cases h with
  | silent hText => exact .silent (hPrinted.trans hText)
  | helped hHelp hText => exact .helped hHelp (hPrinted.trans hText)
  | answered hAsked hConversation hAllocated hNonempty hText hRendered =>
    refine .answered hAsked (hExchanged ▸ hConversation) hAllocated hNonempty
      (hPrinted.trans hText) fun hResult => ?_
    rw [Rendered, hReaped hResult]
    exact hRendered hResult

/-- What presenting the answer leaves. -/
structure Presented (build : Build) (inv : Invocation) (w s : World)
    (x : Option (List UInt8) × Bool) (t : World) : Prop where
  frame : t = { s with
    handles := t.handles, children := t.children, files := t.files, dirty := t.dirty
    printed := t.printed, reaped := t.reaped, failures := t.failures }
  handles : t.handles = w.handles
  abandoned : Abandoned t
  failures : s.failures ⊆ t.failures
  files : Holds x.1.toList w.files t.files
  dirty : ∀ a, t.dirty a → s.dirty a ∨ ∃ guard, s.env guard = some (addressText a)
  told : Told build inv x.2 t

theorem rendererArgv_last (settings : Settings) (transcript : List UInt8) :
    (rendererArgv settings transcript).getLastD [] = transcript := by
  unfold rendererArgv
  split <;> rfl

/-- What running the renderer comes to. -/
structure Ran (s : World) (argv : List (List UInt8)) (input : Option (List UInt8))
    (ok : Bool) (t : World) : Prop where
  frame : t = { s with
    children := t.children, dirty := t.dirty, reaped := t.reaped, failures := t.failures }
  abandoned : Abandoned t
  failures : s.failures ⊆ t.failures
  dirty : ∀ a, t.dirty a → s.dirty a ∨ ∃ guard, s.env guard = some (addressText a)
  shown : ok = true → ∃ renderer, t.reaped = s.reaped ++ [(renderer, .exited 0)] ∧
    renderer.argv = argv ∧ renderer.input = input

/-- What is dirty once a process with the environment of `s` has been started. -/
theorem spawned_dirty {argv : List (List UInt8)} {input : Option (List UInt8)} {a : Nat}
    (h : s.dirty a ∨ (Child.mk argv s.env input).Borrows a) :
    s.dirty a ∨ ∃ guard, s.env guard = some (addressText a) := h

theorem runRenderer_keeps (hIdle : s.children = fun _ => none)
    (hWithdrawn : Withdrawn build w s) (hAsked : Asked build inv settings prompt)
    (hRenders : Renders build inv settings prompt (rendererArgv settings transcript) s) :
    SystemKeeps build inv w
      (Ran s (rendererArgv settings transcript) (s.files transcript))
      (runRenderer rounds settings transcript) s := by
  refine keeps_perform_bind trivial ⟨hWithdrawn, trivial, settings, prompt, hAsked, hRenders⟩ ?_
  rintro (_ | pid) t hCall
  · obtain rfl : t = s := hCall
    exact ⟨trivial, rfl, abandoned_idle hIdle, fun _ => id, fun _ => .inl, nofun⟩
  obtain ⟨-, rfl⟩ := hCall
  rw [hIdle]
  have hChild : ∀ child, Function.update (fun _ : Nat => (none : Option Child)) pid (some child) pid =
    some child := fun _ => Function.update_self ..
  apply keeps_bind
  refine keeps_mono (waitFor_keeps (hChild _) rounds) ?_
  rintro _ _ _ (⟨exit, calls⟩ | ⟨hWait⟩)
  · refine ⟨trivial, rfl, abandoned_idle ?_, List.subset_append_left .., fun _ => spawned_dirty, ?_⟩
    · simp [World.reap, World.refused]
    · intro hOk
      obtain rfl : exit = .exited 0 := by simpa using hOk
      refine ⟨_, rfl, rfl, ?_⟩
      rw [rendererArgv_last]
  · refine ⟨trivial, rfl, ?_, List.subset_append_left .., fun _ => spawned_dirty, nofun⟩
    intro pid' hChild
    obtain rfl : pid' = pid := by
      by_contra hNe
      simp only [World.refused, Function.update_of_ne hNe] at hChild
      exact hChild rfl
    exact List.mem_append_right _ hWait

theorem present_keeps (hIdle : s.children = fun _ => none) (hWithdrawn : Withdrawn build w s)
    (hHandles : s.handles = w.handles) (hFiles : s.files = w.files) (hPrinted : s.printed = [])
    (hAsked : Asked build inv settings prompt) (hFinished : settings.Finished s)
    (hConversation : Conversation build.bits inv.env prompt s.exchanged lines last response) :
    SystemKeeps build inv w (Presented build inv w s)
      (present rounds settings prompt response) s := by
  unfold present
  by_cases hEmpty : (!response.allocated || response.data.isEmpty) = true
  · rw [if_pos hEmpty]
    refine ⟨trivial, rfl, hHandles, abandoned_idle hIdle, fun _ => id, ?_, fun _ => .inl,
      .silent hPrinted⟩
    rw [hFiles]
    exact .nil _
  rw [if_neg hEmpty]
  obtain ⟨hAllocated, hNonempty⟩ : response.allocated = true ∧ response.data ≠ [] := by
    simpa using hEmpty
  refine keeps_perform_bind trivial ⟨trivial, trivial, trivial⟩ ?_
  rintro _ _ rfl
  have hTold : ∀ t : World, t.exchanged = s.exchanged →
      t.printed = s.printed ++ (cString response.data ++ ascii "\n") →
      ∀ ok, (ok = true → Rendered settings prompt response t) → Told build inv ok t := by
    intro t hExchanged hText ok hRendered
    rw [hPrinted, List.nil_append] at hText
    exact .answered hAsked (hExchanged ▸ hConversation) hAllocated hNonempty hText hRendered
  refine keeps_perform_bind trivial ⟨trivial, trivial, trivial⟩ ?_
  rintro (_ | ⟨path, fd⟩) t hCall
  · obtain rfl := hCall
    refine ⟨trivial, rfl, hHandles, abandoned_idle hIdle, fun _ => id, ?_, fun _ => .inl,
      hTold _ (by rfl) (by rfl) false nofun⟩
    dsimp only
    rw [hFiles]
    exact .nil _
  obtain ⟨hNew, hFd, rfl⟩ := hCall
  have hHas : Has w [(fd, .descriptor)] { s with
      files := Function.update s.files path (some [])
      handles := Function.update s.handles fd (some .descriptor) } :=
    (Has.nil hHandles).take hFd rfl
  have hFresh : w.files path = none := by rw [← hFiles, hNew]
  have hHolds : ∀ contents, Holds [path] w.files (Function.update s.files path (some contents)) :=
    fun contents => by
      rw [hFiles]
      exact (Holds.nil w.files).take hFresh contents
  apply keeps_bind
  refine keeps_mono (close_keeps (l := []) (m := []) (hHas.congr rfl)) ?_
  rintro _ _ _ ⟨handles, rfl, hNone⟩
  have hClosed : handles = w.handles := hNone.eq
  subst hClosed
  apply keeps_bind
  unfold renderAnswer
  refine keeps_perform_bind trivial ⟨trivial, ⟨Function.update_self .., hFresh⟩, trivial⟩ ?_
  rintro (_ | _) t hCall
  · obtain ⟨contents, rfl⟩ := hCall
    refine ⟨trivial, trivial, rfl, rfl, abandoned_idle hIdle, fun _ => id, ?_, fun _ => .inl,
      hTold _ (by rfl) (by rfl) false nofun⟩
    dsimp only
    rw [Function.update_idem]
    exact hHolds contents
  · obtain rfl := hCall
    dsimp only
    rw [Function.update_idem]
    have hWritten : Function.update s.files path (some (writeTranscript prompt response)) path =
        some (writeTranscript prompt response) := Function.update_self ..
    refine keeps_mono (runRenderer_keeps hIdle ⟨hWithdrawn.maps, hWithdrawn.clean, hWithdrawn.told,
      hWithdrawn.children⟩ hAsked ⟨hFinished, path, lines, last, response, rfl, hConversation,
      hWritten⟩) ?_
    rintro ok t _ ⟨hFrame, hAbandoned, hFailures, hDirty, hShown⟩
    refine ⟨trivial, ?_, ?_, hAbandoned, hFailures, ?_, hDirty, hTold t ?_ ?_ ok ?_⟩
    · rw [hFrame]
    · rw [hFrame]
    · rw [hFrame]
      exact hHolds _
    · rw [hFrame]
    · rw [hFrame]
    · intro hOk
      obtain ⟨renderer, hReaped, hArgv, hInput⟩ := hShown hOk
      obtain ⟨runtime, hRuntime, hRuntimeArgv⟩ := hFinished
      refine ⟨runtime, renderer, path, ?_, hRuntimeArgv, hArgv, hInput.trans hWritten⟩
      rw [hReaped]
      simp [hRuntime]

end Answer

/-! ### `main` -/

section Main

variable {settings : Settings} {prompt : List UInt8} {response : TextBuffer}
  {lines : List (List UInt8)} {last : List UInt8} {rounds : Nat} {launch stream : Option Region}

/-- The supervisor at its start. -/
structure Fresh (w : World) : Prop where
  children : w.children = fun _ => none
  exchanged : w.exchanged = []
  printed : w.printed = []
  sleeps : w.sleeps = 0
  reaped : w.reaped = []

/-- Both guards are held, and nothing else has been done that lasts. -/
structure Serving (build : Build) (w : World) (launch stream : Option Region) (s : World) :
    Prop where
  guarded : Guarded build w [] (fun _ _ => False) (both launch stream) s
  lending : Lending (both launch stream) s
  all : ∀ guard, build.placement guard ≠ .absent → ∃ r, both launch stream guard = some r
  frame : s = { w with
    env := s.env, maps := s.maps, dirty := s.dirty, marker := s.marker, sleeps := s.sleeps }

/-- What the cleanup finds: what it is told to give back is all that there is. -/
structure Amid (build : Build) (inv : Invocation) (w : World) (x : Held × Bool) (t : World) :
    Prop where
  guards : Guarded build w [] (fun _ => w.dirty) x.1.guards t
  process : (x.1.process = none ∧ t.handles = w.handles ∧ Abandoned t) ∨
    ∃ process child, x.1.process = some process ∧ x.2 = false ∧ Streams w process t ∧
      t.children = Function.update (fun _ => none) process.pid (some child)
  files : Holds x.1.transcript.toList w.files t.files
  told : Told build inv x.2 t

theorem Guarded.mono {leaked : List Nat} {stale stale' : Guard → Nat → Prop}
    {held : Guard → Option Region} (h : Guarded build w leaked stale held s)
    (hStale : ∀ guard a, stale guard a → stale' guard a) :
    Guarded build w leaked stale' held s :=
  ⟨h.maps, h.lost, h.place, h.size, h.apart,
    fun guard r hPlace hDirty => (h.dirty guard r hPlace hDirty).imp id (hStale guard r.start)⟩

theorem both_launch (launch launch' stream : Option Region) :
    Function.update (both launch stream) .launch launch' = both launch' stream := by
  funext guard
  cases guard with
  | launch => exact Function.update_self ..
  | stream => exact Function.update_of_ne (by decide) ..

theorem both_none {guard : Guard} {r : Region} (h : both none none guard = some r) : False := by
  cases guard with
  | launch => cases h
  | stream => cases h

theorem both_stream (launch stream stream' : Option Region) :
    Function.update (both launch stream) .stream stream' = both launch stream' := by
  funext guard
  cases guard with
  | launch => exact Function.update_of_ne (by decide) ..
  | stream => exact Function.update_self ..

/-- The runtime has ended well, and the guards are still held. -/
structure Answered (build : Build) (inv : Invocation) (w : World) (settings : Settings)
    (prompt : List UInt8) (response : TextBuffer) (launch stream : Option Region) (s : World) :
    Prop where
  guarded : Guarded build w [] (fun _ _ => False) (both launch stream) s
  all : ∀ guard, build.placement guard ≠ .absent → ∃ r, both launch stream guard = some r
  idle : s.children = fun _ => none
  handles : s.handles = w.handles
  files : s.files = w.files
  printed : s.printed = []
  asked : Asked build inv settings prompt
  finished : settings.Finished s
  conversation : ∃ lines last,
    Conversation build.bits inv.env prompt s.exchanged lines last response

theorem deliver_keeps (h : Answered build inv w settings prompt response launch stream s) :
    SystemKeeps build inv w (Amid build inv w)
      (deliver rounds build settings prompt response launch stream) s := by
  obtain ⟨hGuarded, hAll, hIdle, hHandles, hFiles, hPrinted, hAsked, hFinished, lines, last,
    hConversation⟩ := h
  have hNone : ∀ pid, s.children pid = none := fun pid => by rw [hIdle]
  have hNoFile : Holds [] w.files s.files := by
    rw [hFiles]
    exact .nil _
  have hFailed : ∀ (t : World) (guards : Guard → Option Region),
      Guarded build w [] (fun _ _ => False) guards t →
      t.children = s.children → t.handles = s.handles → t.files = s.files →
      t.printed = s.printed → Amid build inv w (⟨guards, none, none⟩, false) t := by
    intro t guards hHeld hChildren hHandles' hFiles' hPrinted'
    refine ⟨hHeld.mono fun _ _ => False.elim, .inl ⟨rfl, hHandles'.trans hHandles,
      abandoned_idle (hChildren.trans hIdle)⟩, ?_, .silent (hPrinted'.trans hPrinted)⟩
    rw [hFiles']
    exact hNoFile
  apply keeps_bind
  refine keeps_mono (releaseGuard_keeps hGuarded hNone) ?_
  rintro ⟨launch', ok⟩ t₁ _ ⟨hFrame₁, hGuarded₁, _, hReleased₁⟩
  rw [both_launch] at hGuarded₁
  cases ok with
  | false =>
    exact ⟨trivial, hFailed t₁ _ hGuarded₁ (by rw [hFrame₁]) (by rw [hFrame₁]) (by rw [hFrame₁])
      (by rw [hFrame₁])⟩
  | true =>
    obtain ⟨rfl, hUnset₁, _⟩ := hReleased₁ rfl
    have hNone₁ : ∀ pid, t₁.children pid = none := fun pid => by rw [hFrame₁]; exact hNone pid
    apply keeps_bind
    refine keeps_mono (releaseGuard_keeps hGuarded₁ hNone₁) ?_
    rintro ⟨stream', ok⟩ t₂ _ ⟨hFrame₂, hGuarded₂, _, hReleased₂⟩
    rw [both_stream] at hGuarded₂
    have hFrame : t₂ = { s with
        env := t₂.env, maps := t₂.maps, dirty := t₂.dirty, failures := t₂.failures } := by
      rw [hFrame₂, hFrame₁]
    cases ok with
    | false =>
      exact ⟨trivial, hFailed t₂ _ hGuarded₂ (by rw [hFrame]) (by rw [hFrame]) (by rw [hFrame])
        (by rw [hFrame])⟩
    | true =>
      obtain ⟨rfl, hUnset₂, hSame₂⟩ := hReleased₂ rfl
      have hUnset : ∀ guard, build.placement guard ≠ .absent → t₂.env guard = none := by
        intro guard hPresent
        obtain ⟨r, hHeld⟩ := hAll guard hPresent
        cases guard with
        | launch =>
          rw [hSame₂ .launch (by decide)]
          exact hUnset₁ (by rw [hHeld]; exact Option.some_ne_none r)
        | stream =>
          have hStream : both none stream .stream = some r := hHeld
          exact hUnset₂ (by rw [hStream]; exact Option.some_ne_none r)
      have hClean : ∀ guard r, build.placement guard = .reserved r → ¬t₂.dirty r.start := by
        intro guard r hPlace hDirty
        rcases hGuarded₂.dirty guard r hPlace hDirty with hHeld | hStale
        · cases guard with
          | launch => cases hHeld
          | stream => cases hHeld
        · exact hStale
      have hMaps : t₂.maps = w.maps := by
        have hHolds := hGuarded₂.maps
        have hStarts : starts build (both none none) = [] := by simp [starts, starts.part, both]
        rw [hStarts] at hHolds
        exact hHolds.eq
      have hNone₂ : ∀ pid, t₂.children pid = none := fun pid => by rw [hFrame]; exact hNone pid
      have hFinished₂ : settings.Finished t₂ := by
        rw [hFrame]
        exact hFinished
      have hConversation₂ : Conversation build.bits inv.env prompt t₂.exchanged lines last response := by
        rw [hFrame]
        exact hConversation
      apply keeps_bind
      refine keeps_mono (present_keeps (funext hNone₂) ⟨hMaps, hClean, hUnset, hNone₂⟩
        (by rw [hFrame]; exact hHandles) (by rw [hFrame]; exact hFiles)
        (by rw [hFrame]; exact hPrinted) hAsked hFinished₂ hConversation₂) ?_
      rintro ⟨transcript, ok⟩ t₃ _ ⟨hFrame₃, hHandles₃, hAbandoned₃, hFailures₃, hFiles₃, hDirty₃,
        hTold₃⟩
      refine ⟨trivial, ?_, .inl ⟨rfl, hHandles₃, hAbandoned₃⟩, hFiles₃, hTold₃⟩
      refine ⟨?_, fun _ h => absurd h List.not_mem_nil, hGuarded₂.place, ?_, hGuarded₂.apart, ?_⟩
      · rw [hFrame₃]
        exact hGuarded₂.maps
      · rw [hFrame₃]
        exact hGuarded₂.size
      · intro guard r hPlace hDirty
        rcases hDirty₃ _ hDirty with hBefore | ⟨guard', hLent⟩
        · exact absurd hBefore (hClean guard r hPlace)
        · have hPresent : build.placement guard' ≠ .absent := by
            intro hAbsent
            have hSame := build.same guard guard'
            rw [hPlace, hAbsent] at hSame
            cases hSame
          rw [hUnset guard' hPresent] at hLent
          cases hLent

theorem session_keeps (h : Serving build w launch stream s) (hFresh : Fresh w)
    (hAsked : Asked build inv settings prompt) (hReady : settings.Ready s) :
    SystemKeeps build inv w (Amid build inv w)
      (session rounds build inv.env settings prompt launch stream) s := by
  obtain ⟨hGuarded, hLending, hAll, hFrame⟩ := h
  have hHandles : s.handles = w.handles := by rw [hFrame]
  have hIdle : s.children = fun _ => none := by rw [hFrame]; exact hFresh.children
  have hExchanged : s.exchanged = [] := by rw [hFrame]; exact hFresh.exchanged
  have hPrinted : s.printed = [] := by rw [hFrame]; exact hFresh.printed
  have hReaped : s.reaped = [] := by rw [hFrame]; exact hFresh.reaped
  have hFiles : s.files = w.files := by rw [hFrame]
  have hPublished := hGuarded.published hLending hAll
  have hSpawn : ∀ handles stdio,
      Lends build w (.spawn ⟨[settings.runner, settings.module], some stdio⟩)
        { s with handles := handles } ∧
      Speaks build inv (.spawn ⟨[settings.runner, settings.module], some stdio⟩)
        { s with handles := handles } := fun handles stdio =>
    ⟨⟨_, hPublished.congr rfl rfl rfl⟩, settings, prompt, hAsked, rfl, hReady, hExchanged,
      congrFun hIdle, hReaped⟩
  -- Whatever the runtime has done to its memory, the guards are still held.
  have hStill : ∀ t : World, t.maps = s.maps → s.failures ⊆ t.failures →
      Guarded build w [] (fun _ => w.dirty) (both launch stream) t := fun t hMaps hFailures =>
    (hGuarded.used hMaps hFailures hAll).mono fun _ _ => False.elim
  have hNoFile : ∀ t : World, t.files = s.files → Holds [] w.files t.files := by
    intro t hSame
    rw [hSame, hFiles]
    exact .nil _
  apply keeps_bind
  refine keeps_mono (startFx_keeps hHandles hIdle hSpawn) ?_
  rintro _ t _ (@⟨pid, input, output, child, _, hHas, hArgv, hChildren, hFrame₁⟩ |
    ⟨hHandles₁, hAbandoned₁, hFailures₁, hFrame₁⟩)
  · apply keeps_bind
    refine keeps_mono (converse_keeps hHas hAsked (by rw [hFrame₁]; exact hExchanged) rounds) ?_
    rintro (_ | response) t₂ _ ⟨hFrame₂, hWhole⟩
    · refine ⟨trivial, hStill t₂ ?_ ?_, .inr ⟨⟨pid, some input, some output⟩, child, rfl, rfl,
        .both rfl rfl (hHas.congr ?_), ?_⟩, hNoFile t₂ ?_, .silent ?_⟩
      all_goals rw [hFrame₂]
      · rw [hFrame₁]
      · rw [hFrame₁]
        exact fun _ => id
      · exact hChildren
      · rw [hFrame₁]
      · rw [hFrame₁]
        exact hPrinted
    obtain ⟨lines, last, hConversation⟩ := hWhole response rfl
    have hChildren₂ : t₂.children = Function.update (fun _ => none) pid (some child) := by
      rw [hFrame₂]
      exact hChildren
    have hStreams : Streams w ⟨pid, some input, some output⟩ t₂ :=
      .both rfl rfl (hHas.congr (by rw [hFrame₂]))
    have hChild : t₂.children pid = some child := by rw [hChildren₂, Function.update_self]
    have hBase : t₂.maps = s.maps ∧ t₂.files = s.files ∧ t₂.printed = s.printed ∧
        t₂.reaped = s.reaped ∧ t₂.failures = s.failures := by
      rw [hFrame₂, hFrame₁]
      exact ⟨rfl, rfl, rfl, rfl, rfl⟩
    obtain ⟨hMaps₂, hFiles₂, hPrinted₂, hReaped₂, hFailures₂⟩ := hBase
    have hGone : Function.update t₂.children pid none = fun _ => none := by
      rw [hChildren₂, Function.update_idem]
      exact Function.update_eq_self ..
    have hMore : ∀ calls, s.failures ⊆ t₂.failures ++ calls := by
      intro calls
      rw [hFailures₂]
      exact List.subset_append_left ..
    apply keeps_bind
    refine keeps_mono (finishFx_keeps hStreams hChild rounds) ?_
    rintro _ _ _ (⟨calls⟩ | ⟨exit, calls⟩ | ⟨calls⟩)
    · refine deliver_keeps ⟨hGuarded.used hMaps₂ (hMore calls) hAll, hAll, hGone, rfl,
        hFiles₂.trans hFiles, hPrinted₂.trans hPrinted, hAsked, ⟨child, ?_, hArgv⟩, lines, last,
        hConversation⟩
      simp only [World.reap, World.refused]
      rw [hReaped₂, hReaped]
      rfl
    · exact ⟨trivial, hStill _ hMaps₂ (hMore calls), .inl ⟨rfl, rfl, abandoned_idle hGone⟩,
        hNoFile _ hFiles₂, .silent (hPrinted₂.trans hPrinted)⟩
    · exact ⟨trivial, hStill _ hMaps₂ (hMore calls), .inr ⟨⟨pid, none, none⟩, child, rfl, rfl,
        .neither rfl rfl rfl, hChildren₂⟩, hNoFile _ hFiles₂, .silent (hPrinted₂.trans hPrinted)⟩
  · refine ⟨trivial, hStill t ?_ hFailures₁, .inl ⟨rfl, hHandles₁, hAbandoned₁⟩, hNoFile t ?_,
      .silent ?_⟩
    all_goals rw [hFrame₁]
    exact hPrinted

theorem serve_keeps (h : Serving build w launch stream s) (hFresh : Fresh w)
    (hSleeps : s.sleeps = 0) :
    SystemKeeps build inv w (Amid build inv w) (serve rounds build inv launch stream) s := by
  have hFrame := h.frame
  have hLeft : ∀ result t, t.maps = s.maps → t.dirty = s.dirty → t.failures = s.failures →
      t.handles = w.handles → t.children = w.children → t.files = w.files → Told build inv result t →
      Amid build inv w (⟨both launch stream, none, none⟩, result) t := by
    intro result t hMaps hDirty hFailures hHandles hChildren hFiles hTold
    refine ⟨?_, .inl ⟨rfl, hHandles, abandoned_idle (hChildren.trans hFresh.children)⟩, ?_, hTold⟩
    · refine (h.guarded.congr hMaps (fun a ha => hDirty ▸ ha) ?_).mono fun _ _ => False.elim
      rw [hFailures]
      exact fun _ => id
    · rw [hFiles]
      exact .nil _
  have hPrinted : s.printed = [] := by rw [hFrame]; exact hFresh.printed
  unfold serve
  cases hOptions : readOptions (.initial build inv.env) inv.options with
  | inr help =>
    cases help with
    | false =>
      exact ⟨trivial, hLeft false s rfl rfl rfl (by rw [hFrame]) (by rw [hFrame]) (by rw [hFrame])
        (.silent hPrinted)⟩
    | true =>
      refine keeps_perform_bind trivial ⟨trivial, trivial, trivial⟩ ?_
      rintro _ _ rfl
      refine ⟨trivial, hLeft true _ rfl rfl rfl ?_ ?_ ?_ (.helped hOptions ?_)⟩
      · rw [hFrame]
      · rw [hFrame]
      · rw [hFrame]
      · rw [hPrinted, List.nil_append]
  | inl settings =>
    cases hPrompt : joinPrompt inv.words with
    | none =>
      exact ⟨trivial, hLeft false s rfl rfl rfl (by rw [hFrame]) (by rw [hFrame]) (by rw [hFrame])
        (.silent hPrinted)⟩
    | some prompt =>
      have hPublished := h.guarded.published h.lending h.all
      apply keeps_bind
      refine keeps_mono (awaitReady_keeps hPublished hSleeps settings) ?_
      rintro (_ | _) _ _ ⟨marker, sleeps, rfl, hReady⟩
      · refine ⟨trivial, hLeft false _ rfl rfl rfl ?_ ?_ ?_ (.silent hPrinted)⟩
        all_goals
          rw [hFrame]
          rfl
      · refine session_keeps ⟨?_, ?_, h.all, ?_⟩ hFresh ⟨hOptions, hPrompt⟩ (hReady rfl)
        · exact h.guarded.congr rfl (fun _ => id) fun _ => id
        · exact ⟨h.lending.told, h.lending.clean⟩
        · rw [hFrame]
          rfl

theorem attempt_keeps (hFresh : Fresh w) :
    SystemKeeps build inv w (Amid build inv w) (attempt rounds build inv) w := by
  have hIdle : ∀ pid, w.children pid = none := fun pid => by rw [hFresh.children]
  have hNothing : Guarded build w [] (fun _ => w.dirty) (both none none) w := by
    refine ⟨?_, fun _ h => absurd h List.not_mem_nil, fun _ _ h => (both_none h).elim,
      fun _ _ h => (both_none h).elim, fun _ _ _ _ _ h => (both_none h).elim, fun _ _ _ => .inr⟩
    have hStarts : starts build (both none none) = [] := by simp [starts, starts.part, both]
    rw [hStarts]
    exact .nil _
  have hNoLending : Lending (both none none) w :=
    ⟨fun _ _ h => (both_none h).elim, fun _ _ h => (both_none h).elim⟩
  have hFailed : ∀ (t : World) (guards : Guard → Option Region) stale,
      Guarded build w [] stale guards t → (∀ guard a, stale guard a → w.dirty a) →
      t = { w with env := t.env, maps := t.maps, dirty := t.dirty } →
      Amid build inv w (⟨guards, none, none⟩, false) t := by
    intro t guards stale hHeld hStale hFrame
    refine ⟨hHeld.mono hStale, .inl ⟨rfl, ?_, ?_⟩, ?_, .silent ?_⟩
    all_goals rw [hFrame]
    · exact abandoned_idle hFresh.children
    · exact .nil _
    · exact hFresh.printed
  apply keeps_bind
  refine keeps_mono (holdLaunch_keeps hNothing rfl hNoLending hIdle) ?_
  rintro ⟨launch, ok⟩ t₁ _ (hTook₁ | ⟨hSame, rfl⟩)
  · obtain ⟨hFrame₁, hGuarded₁, hLending₁, hAll₁⟩ := hTook₁
    rw [both_launch] at hGuarded₁ hLending₁
    cases ok with
    | false =>
      exact ⟨trivial, hFailed t₁ _ _ hGuarded₁ (fun _ _ hStale => hStale.2) hFrame₁⟩
    | true =>
      have hIdle₁ : ∀ pid, t₁.children pid = none := fun pid => by rw [hFrame₁]; exact hIdle pid
      apply keeps_bind
      refine keeps_mono (holdGuard_keeps hGuarded₁ rfl (hLending₁ rfl) hIdle₁) ?_
      rintro ⟨stream, ok⟩ t₂ _ ⟨hFrame₂, hGuarded₂, hLending₂, hAll₂⟩
      rw [both_stream] at hGuarded₂ hLending₂
      have hFrame : t₂ = { w with env := t₂.env, maps := t₂.maps, dirty := t₂.dirty } := by
        rw [hFrame₂, hFrame₁]
      cases ok with
      | false =>
        exact ⟨trivial, hFailed t₂ _ _ hGuarded₂ (fun _ _ hStale => hStale.2.2) hFrame⟩
      | true =>
        refine serve_keeps ⟨hGuarded₂.mono ?_, hLending₂ rfl, ?_, ?_⟩ hFresh ?_
        · rintro (_ | _) a ⟨hOther, hOther', _⟩
          · exact hOther' rfl
          · exact hOther rfl
        · intro guard hPresent
          cases guard with
          | launch => exact hAll₁ rfl hPresent
          | stream => exact hAll₂ rfl hPresent
        · rw [hFrame]
        · rw [hFrame]
          exact hFresh.sleeps
  · cases hSame
    exact ⟨trivial, hFailed _ _ _ hNothing (fun _ _ => id) rfl⟩

/-- What the supervisor leaves: all as it was, but for what the system has refused to take back. -/
structure Restored (build : Build) (w t : World) : Prop where
  handles : t.handles = w.handles
  children : Abandoned t
  maps : ∀ a, t.maps a ≠ w.maps a → ∃ r : Region, r.start = a ∧ Call.unmap r ∈ t.failures
  files : ∀ path, t.files path ≠ w.files path → Call.unlink path ∈ t.failures
  dirty : ∀ guard r, build.placement guard = .reserved r → t.dirty r.start →
    w.dirty r.start ∨ t.Lent r.start

/-- What stopping the process comes to. -/
structure Stopped (build : Build) (inv : Invocation) (w s : World) (result : Bool) (t : World) :
    Prop where
  frame : t = { s with
    handles := t.handles, children := t.children, reaped := t.reaped, failures := t.failures }
  handles : t.handles = w.handles
  abandoned : Abandoned t
  failures : s.failures ⊆ t.failures
  told : Told build inv result t

theorem stopProcess_keeps {x : Held × Bool} (h : Amid build inv w x s) :
    SystemKeeps build inv w (fun _ t => Stopped build inv w s x.2 t) (stopProcess x.1.process) s := by
  obtain ⟨_, hProcess, _, hTold⟩ := h
  rcases hProcess with ⟨hNone, hHandles, hAbandoned⟩ |
    ⟨process, child, hSome, hFailed, hStreams, hChildren⟩
  · rw [hNone]
    exact ⟨trivial, rfl, hHandles, hAbandoned, fun _ => id, hTold⟩
  · rw [hSome]
    apply keeps_bind
    refine keeps_mono (closeStreams_keeps hStreams) ?_
    rintro _ _ _ rfl
    refine keeps_perform_bind trivial ⟨trivial, ?_, trivial⟩ ?_
    · rw [Handles, hChildren, Function.update_self]
      nofun
    rintro _ _ rfl
    have hHere : ({ s with handles := w.handles } : World).children =
        Function.update (fun _ => none) process.pid (some child) := hChildren
    apply keeps_bind
    refine keeps_mono (wait_keeps hHere) ?_
    rintro _ t _ ⟨hAbandoned, hFailures, hFrame⟩
    refine ⟨trivial, ?_, ?_, hAbandoned, hFailures, ?_⟩
    · rw [hFrame]
    · rw [hFrame]
    · refine hTold.congr ?_ ?_ fun hResult => by rw [hFailed] at hResult; cases hResult
      · rw [hFrame]
      · rw [hFrame]

theorem removeTranscript_keeps {transcript : Option (List UInt8)}
    (h : Holds transcript.toList w.files s.files) :
    SystemKeeps build inv w (fun _ t => t = { s with files := t.files, failures := t.failures } ∧
        s.failures ⊆ t.failures ∧
        ∀ path, t.files path ≠ w.files path → Call.unlink path ∈ t.failures)
      (removeTranscript transcript) s := by
  cases transcript with
  | none => exact ⟨trivial, rfl, fun _ => id, fun path hOther => absurd (congrFun h.eq path) hOther⟩
  | some path =>
    have hHeld := h.held path List.mem_cons_self
    refine keeps_perform_bind trivial ⟨trivial, ⟨hHeld, h.fresh path List.mem_cons_self⟩,
      trivial⟩ ?_
    rintro (_ | _) _ rfl
    · refine ⟨trivial, rfl, List.subset_append_left .., fun path' hOther => ?_⟩
      obtain rfl : path' = path := by
        by_contra hNe
        exact hOther (h.rest path' (by simpa using hNe))
      simp
    · exact ⟨trivial, rfl, fun _ => id, fun path' hOther => absurd (congrFun h.give.eq path') hOther⟩

theorem cleanup_keeps {x : Held × Bool} (h : Amid build inv w x s) :
    SystemKeeps build inv w (fun _ t => Restored build w t ∧ Told build inv x.2 t)
      (cleanup build x.1) s := by
  apply keeps_bind
  refine keeps_mono (stopProcess_keeps h) ?_
  rintro _ t₁ _ ⟨hFrame₁, hHandles₁, hAbandoned₁, hFailures₁, hTold₁⟩
  have hGuarded₁ : Guarded build w [] (fun _ a => w.dirty a ∨ t₁.Lent a) x.1.guards t₁ := by
    refine (h.guards.congr ?_ ?_ hFailures₁).mono fun _ _ => .inl
    · rw [hFrame₁]
    · rw [hFrame₁]
      exact fun _ => id
  apply keeps_bind
  refine keeps_mono (dropGuard_keeps hGuarded₁ hAbandoned₁.quiet fun _ hLent _ => .inr hLent) ?_
  rintro _ t₂ _ ⟨hFrame₂, hFailures₂, leaked₂, hGuarded₂⟩
  have hAbandoned₂ : Abandoned t₂ := by
    intro pid hChild
    rw [hFrame₂] at hChild
    exact hFailures₂ (hAbandoned₁ pid hChild)
  have hLent₂ : ∀ a, t₂.Lent a → t₁.Lent a := by
    rw [hFrame₂]
    exact fun _ => id
  have hStream : x.1.guards .stream = Function.update x.1.guards .launch none .stream :=
    (Function.update_of_ne (by decide) ..).symm
  rw [hStream]
  apply keeps_bind
  refine keeps_mono (dropGuard_keeps hGuarded₂ hAbandoned₂.quiet
    fun a hLent _ => .inr (hLent₂ a hLent)) ?_
  rintro _ t₃ _ ⟨hFrame₃, hFailures₃, leaked₃, hGuarded₃⟩
  have hFrame : t₃ = { t₁ with maps := t₃.maps, dirty := t₃.dirty, failures := t₃.failures } := by
    rw [hFrame₃, hFrame₂]
  have hFiles : Holds x.1.transcript.toList w.files t₃.files := by
    rw [hFrame, hFrame₁]
    exact h.files
  refine keeps_mono (removeTranscript_keeps hFiles) ?_
  rintro _ t _ ⟨hFrame₄, hFailures₄, hFiles₄⟩
  have hAll : t = { t₁ with
      maps := t.maps, dirty := t.dirty, files := t.files, failures := t.failures } := by
    rw [hFrame₄, hFrame]
  have hMaps : t.maps = t₃.maps := by rw [hFrame₄]
  have hNothing : ∀ guard, Function.update (Function.update x.1.guards .launch none) .stream none
      guard = none := by
    intro guard
    cases guard with
    | launch => rw [Function.update_of_ne (by decide), Function.update_self]
    | stream => rw [Function.update_self]
  have hStarts : starts build (Function.update (Function.update x.1.guards .launch none) .stream
      none) = [] := by
    simp [starts, starts.part]
  refine ⟨⟨?_, ?_, ?_, hFiles₄, ?_⟩, ?_⟩
  · rw [hAll]
    exact hHandles₁
  · intro pid hChild
    rw [hAll] at hChild
    exact hFailures₄ (hFailures₃ (hFailures₂ (hAbandoned₁ pid hChild)))
  · intro a hOther
    have hHolds := hGuarded₃.maps
    rw [hStarts, List.append_nil] at hHolds
    have hLeaked : a ∈ leaked₃ := by
      by_contra hNot
      rw [hMaps] at hOther
      exact hOther (hHolds.rest a hNot)
    obtain ⟨r, hStart, hFailed⟩ := hGuarded₃.lost a hLeaked
    exact ⟨r, hStart, hFailures₄ hFailed⟩
  · intro guard r hPlace hDirty
    have hBefore : t₃.dirty r.start := by
      rw [hFrame₄] at hDirty
      exact hDirty
    rcases hGuarded₃.dirty guard r hPlace hBefore with hHeld | hStale
    · rw [hNothing guard] at hHeld
      cases hHeld
    · refine hStale.imp id fun hLent => ?_
      rw [hAll]
      exact hLent
  · refine hTold₁.congr ?_ ?_ fun _ => ?_
    all_goals rw [hAll]

/-- Every run of the supervisor makes proper calls only, gives back what it has taken, and tells the
user what its result says. -/
theorem supervise_keeps (hFresh : Fresh w) :
    SystemKeeps build inv w (fun result t => Restored build w t ∧ Told build inv result t)
      (supervise rounds build inv) w := by
  apply keeps_bind
  refine keeps_mono (attempt_keeps hFresh) ?_
  rintro ⟨held, result⟩ t _ hAmid
  apply keeps_bind
  refine keeps_mono (cleanup_keeps hAmid) ?_
  rintro _ u _ hEnd
  exact ⟨trivial, hEnd⟩

end Main

end Esp32Fx.Eink.Supervisor
