import Esp32Fx.ExampleTools.RunTests

/-! How a run of the tests ends: with all the output and the exit code, with the failure text, or,
when no child was started, with nothing. -/

namespace Esp32Fx.ExampleTools.RunTests

open Esp32Fx.Lib

variable {cap : Nat} {entry : Answer} {s : State}

/-! ### Lengths -/

theorem exitCode_lt (status : Nat) : exitCode status < 256 := by
  unfold exitCode
  split <;> omega

theorem length_exitLine {code : Nat} (h : code < 256) : (exitLine code).length ≤ 14 := by
  have hDecimal : ∀ code < 256, (exitLine code).length ≤ 14 := by decide +kernel
  exact hDecimal code h

theorem length_failureText : failureText.length ≤ 128 := by decide

theorem reply_failureText (h : 128 ≤ cap) :
    reply cap true failureText = ⟨failureText.length, 1, failureText⟩ := by
  have hFits : ¬failureText.length > cap := Nat.not_lt.mpr (Nat.le_trans length_failureText h)
  simp only [reply, if_neg hFits, if_true]

/-! ### What holds in each phase -/

/-- No child has been started. -/
structure Fresh (entry : Answer) (s : State) : Prop where
  child : s.child = .none
  rearms : s.rearms = 0
  answer : s.answer = entry
  extent : s.extent = 0
  failed : s.failed = false
  kept : s.kept = []
  produced : s.produced = []
  consumed : s.consumed = 0

/-- The child has been started and not been reaped. -/
structure Spawned (s : State) : Prop where
  child : s.child = .running ∨ ∃ status, s.child = .exited status
  lends : s.lends = 1
  rearms : s.rearms = 0

/-- What has been read so far has been kept. -/
structure Reading (s : State) : Prop where
  failed : s.failed = false
  consumed : s.consumed = s.kept.length
  kept : s.kept <+: s.produced

/-- The pipe has been read to its end. -/
structure Ended (s : State) : Prop where
  ended : s.ended = true
  closed : s.closed = true
  kept : s.kept = s.produced

/-- The answer with the output and the exit code of a child. -/
def passed (output : List UInt8) (code : Nat) : Answer where
  result := (output ++ exitLine code).length
  status := if code = 0 then 0 else 1
  out := output ++ exitLine code

/-- How a run ends. -/
inductive Outcome (entry : Answer) (s : State) : Prop
  /-- Without a child, nothing is written. -/
  | unavailable (child : s.child = .none) (answer : s.answer = { entry with result := -1 })
    (extent : s.extent = 0)
  | failed (status : Nat) (child : s.child = .reaped status) (lends : s.lends = 1)
    (answer : s.answer = ⟨failureText.length, 1, failureText⟩)
  | passed (status : Nat) (child : s.child = .reaped status) (lends : s.lends = 1) (ended : Ended s)
    (answer : s.answer = passed s.produced (exitCode status))

def Phase.Fits (entry : Answer) (s : State) : Phase → Prop
  | deadline | pipe | closeOnExec | lend => Fresh entry s ∧ s.lends = 0
  | spawn | takeBack => Fresh entry s ∧ s.lends = 1
  | nonblock | readClock | poll | read => Spawned s ∧ Reading s
  | waitChild | waitClock => Spawned s ∧ s.failed = false ∧ Ended s
  | waitKilled => Spawned s ∧ s.failed = true
  | rearm => ∃ status, s.child = .reaped status ∧ s.childStatus = status ∧ s.lends = 1 ∧
      s.rearms = 0 ∧ (s.failed = true ∨ Ended s)
  | returned => Outcome entry s ∧ s.rearms = s.lends ∧ s.lends ≤ 1

structure Sound (cap : Nat) (entry : Answer) (s : State) : Prop where
  room : s.kept.length ≤ min cap TEST_LIMIT - 80
  extent : s.extent ≤ min cap TEST_LIMIT
  phase : s.phase.Fits entry s

theorem sound_start (guards : Guards) (entry : Answer) : Sound cap entry (.start guards entry) where
  room := Nat.zero_le _
  extent := Nat.zero_le _
  phase := ⟨⟨rfl, rfl, rfl, rfl, rfl, rfl, rfl, rfl⟩, rfl⟩

/-- A step that leaves the output alone. -/
theorem Sound.move {t : State} (h : Sound cap entry s) (hKept : t.kept = s.kept)
    (hExtent : t.extent = s.extent) (hPhase : t.phase.Fits entry t) : Sound cap entry t where
  room := hKept ▸ h.room
  extent := hExtent ▸ h.extent
  phase := hPhase

theorem unavailable_sound (h : Sound cap entry s) (hFresh : Fresh entry s)
    (hLends : s.lends ≤ 1) {rearms : Nat} (hRearms : rearms = s.lends) :
    Sound cap entry { s with rearms }.unavailable :=
  h.move rfl rfl
    ⟨.unavailable hFresh.child (by rw [State.unavailable, hFresh.answer]) hFresh.extent, hRearms,
      hLends⟩

theorem fail_sound (h : Sound cap entry s) (hSpawned : Spawned s) : Sound cap entry s.fail :=
  h.move rfl rfl ⟨{ hSpawned with }, rfl⟩

/-! ### Events of the child -/

theorem writes_sound (h : Sound cap entry s) {bytes : List UInt8}
    (hPossible : s.possible (.writes bytes) = true) :
    Sound cap entry { s with produced := s.produced ++ bytes } := by
  simp only [State.possible, Bool.and_eq_true, Bool.not_eq_true', decide_eq_true_eq] at hPossible
  obtain ⟨hChild, hOpen⟩ := hPossible
  have hNotEnded : ¬Ended s := fun hEnded => by
    rw [hEnded.closed] at hOpen
    cases hOpen
  refine h.move rfl rfl ?_
  have hPhase := h.phase
  show Phase.Fits entry _ s.phase
  cases hs : s.phase <;> rw [hs] at hPhase
  case deadline | pipe | closeOnExec | lend | spawn | takeBack =>
    exact absurd hPhase.1.child hChild
  case nonblock | readClock | poll | read =>
    obtain ⟨hSpawned, hReading⟩ := hPhase
    exact ⟨{ hSpawned with }, hReading.failed, hReading.consumed,
      hReading.kept.trans (List.prefix_append _ _)⟩
  case waitChild | waitClock => exact absurd hPhase.2.2 hNotEnded
  case waitKilled =>
    obtain ⟨hSpawned, hFailed⟩ := hPhase
    exact ⟨{ hSpawned with }, hFailed⟩
  case rearm =>
    obtain ⟨status, hReaped, hStatus, hLends, hRearms, hFailed | hEnded⟩ := hPhase
    · exact ⟨status, hReaped, hStatus, hLends, hRearms, .inl hFailed⟩
    · exact absurd hEnded hNotEnded
  case returned =>
    obtain ⟨hOutcome, hGuards⟩ := hPhase
    refine ⟨?_, hGuards⟩
    cases hOutcome with
    | unavailable child => exact absurd child hChild
    | failed status child lends answer => exact .failed status child lends answer
    | passed status child lends ended => exact absurd ended hNotEnded

theorem closes_sound (h : Sound cap entry s) (hPossible : s.possible .closes = true) :
    Sound cap entry { s with closed := true } := by
  have hChild : s.child ≠ .none := by simpa [State.possible] using hPossible
  refine h.move rfl rfl ?_
  have hPhase := h.phase
  show Phase.Fits entry _ s.phase
  cases hs : s.phase <;> rw [hs] at hPhase
  case deadline | pipe | closeOnExec | lend | spawn | takeBack =>
    exact absurd hPhase.1.child hChild
  case nonblock | readClock | poll | read =>
    obtain ⟨hSpawned, hReading⟩ := hPhase
    exact ⟨{ hSpawned with }, { hReading with }⟩
  case waitChild | waitClock =>
    obtain ⟨hSpawned, hFailed, hEnded⟩ := hPhase
    exact ⟨{ hSpawned with }, hFailed, hEnded.ended, rfl, hEnded.kept⟩
  case waitKilled =>
    obtain ⟨hSpawned, hFailed⟩ := hPhase
    exact ⟨{ hSpawned with }, hFailed⟩
  case rearm =>
    obtain ⟨status, hReaped, hStatus, hLends, hRearms, hFailed | hEnded⟩ := hPhase
    · exact ⟨status, hReaped, hStatus, hLends, hRearms, .inl hFailed⟩
    · exact ⟨status, hReaped, hStatus, hLends, hRearms, .inr ⟨hEnded.ended, rfl, hEnded.kept⟩⟩
  case returned =>
    obtain ⟨hOutcome, hGuards⟩ := hPhase
    refine ⟨?_, hGuards⟩
    cases hOutcome with
    | unavailable child => exact absurd child hChild
    | failed status child lends answer => exact .failed status child lends answer
    | passed status child lends ended answer =>
      exact .passed status child lends ⟨ended.ended, rfl, ended.kept⟩ answer

/-- The child ends by itself or after it has been killed. -/
theorem exits_sound (h : Sound cap entry s) {status : Nat}
    (hPossible : s.possible (.exits status) = true) :
    Sound cap entry { s with child := .exited status } := by
  have hRunning : s.child = .running := by simpa [State.possible] using hPossible
  refine h.move rfl rfl ?_
  have hPhase := h.phase
  show Phase.Fits entry _ s.phase
  cases hs : s.phase <;> rw [hs] at hPhase
  case deadline | pipe | closeOnExec | lend | spawn | takeBack =>
    cases hRunning.symm.trans hPhase.1.child
  case nonblock | readClock | poll | read =>
    obtain ⟨hSpawned, hReading⟩ := hPhase
    exact ⟨⟨.inr ⟨status, rfl⟩, hSpawned.lends, hSpawned.rearms⟩, hReading.failed, hReading.consumed,
      hReading.kept⟩
  case waitChild | waitClock =>
    obtain ⟨hSpawned, hFailed, hEnded⟩ := hPhase
    exact ⟨⟨.inr ⟨status, rfl⟩, hSpawned.lends, hSpawned.rearms⟩, hFailed, hEnded.ended, hEnded.closed,
      hEnded.kept⟩
  case waitKilled =>
    obtain ⟨hSpawned, hFailed⟩ := hPhase
    exact ⟨⟨.inr ⟨status, rfl⟩, hSpawned.lends, hSpawned.rearms⟩, hFailed⟩
  case rearm =>
    obtain ⟨status, hReaped, -⟩ := hPhase
    cases hRunning.symm.trans hReaped
  case returned =>
    obtain ⟨hOutcome, -⟩ := hPhase
    cases hOutcome with
    | unavailable child => cases hRunning.symm.trans child
    | failed _ child => cases hRunning.symm.trans child
    | passed _ child => cases hRunning.symm.trans child

/-! ### The calls -/

theorem afterClock_sound (hCap : 128 ≤ cap) (h : Sound cap entry s) (now : Int) :
    Sound cap entry (s.afterClock cap now) := by
  have hPhase := h.phase
  unfold State.afterClock
  split
  · next hs =>
    rw [hs] at hPhase
    obtain ⟨hFresh, hLends⟩ := hPhase
    rw [if_neg (by simp only [TEST_LIMIT]; omega)]
    exact h.move rfl rfl ⟨{ hFresh with }, hLends⟩
  · next hs =>
    rw [hs] at hPhase
    obtain ⟨hSpawned, hReading⟩ := hPhase
    split
    · exact fail_sound h hSpawned
    · exact h.move rfl rfl ⟨{ hSpawned with }, { hReading with }⟩
  · next hs =>
    rw [hs] at hPhase
    obtain ⟨hSpawned, hFailed, hEnded⟩ := hPhase
    split
    · exact fail_sound h hSpawned
    · exact h.move rfl rfl ⟨{ hSpawned with }, hFailed, { hEnded with }⟩
  · exact h

theorem afterSetup_sound (h : Sound cap entry s) (ok : Bool) :
    Sound cap entry (s.afterSetup ok) := by
  have hPhase := h.phase
  unfold State.afterSetup
  split
  · next hs =>
    rw [hs] at hPhase
    obtain ⟨hFresh, hLends⟩ := hPhase
    split
    · exact h.move rfl rfl ⟨{ hFresh with }, hLends⟩
    · exact unavailable_sound h hFresh (by omega) (hFresh.rearms.trans hLends.symm)
  · next hs =>
    rw [hs] at hPhase
    obtain ⟨hFresh, hLends⟩ := hPhase
    split
    · exact h.move rfl rfl ⟨{ hFresh with }, hLends⟩
    · exact unavailable_sound h hFresh (by omega) (hFresh.rearms.trans hLends.symm)
  · next hs =>
    rw [hs] at hPhase
    obtain ⟨hSpawned, hReading⟩ := hPhase
    split
    · exact h.move rfl rfl ⟨{ hSpawned with }, { hReading with }⟩
    · exact fail_sound h hSpawned
  · exact h

theorem lend_sound (h : Sound cap entry s) (hs : s.phase = .lend)
    (unmapsShell unmapsTest mapsShell : Bool) :
    Sound cap entry (s.advance cap (.lend unmapsShell unmapsTest mapsShell)) := by
  have hPhase := h.phase
  rw [hs] at hPhase
  obtain ⟨hFresh, hLends⟩ := hPhase
  simp only [State.advance]
  split
  · exact h.move rfl rfl ⟨{ hFresh with }, by rw [hLends]⟩
  · exact h.move rfl rfl
      ⟨.unavailable hFresh.child (by rw [State.unavailable, hFresh.answer]) hFresh.extent,
        hFresh.rearms.trans hLends.symm, by rw [State.unavailable, hLends]; omega⟩

theorem spawn_sound (h : Sound cap entry s) (hs : s.phase = .spawn) (ok : Bool) :
    Sound cap entry (s.advance cap (.spawn ok)) := by
  have hPhase := h.phase
  rw [hs] at hPhase
  obtain ⟨hFresh, hLends⟩ := hPhase
  simp only [State.advance]
  split
  · refine h.move rfl rfl ⟨⟨.inl rfl, hLends, hFresh.rearms⟩, hFresh.failed, ?_, ?_⟩
    · rw [hFresh.consumed, hFresh.kept]
      rfl
    · show s.kept <+: s.produced
      rw [hFresh.kept]
      exact List.nil_prefix
  · exact h.move rfl rfl ⟨{ hFresh with }, hLends⟩

theorem afterPoll_sound (h : Sound cap entry s) (hs : s.phase = .poll) (ready : Int)
    (interrupted : Bool) : Sound cap entry (s.afterPoll ready interrupted) := by
  have hPhase := h.phase
  rw [hs] at hPhase
  obtain ⟨hSpawned, hReading⟩ := hPhase
  unfold State.afterPoll
  split
  · exact fail_sound h hSpawned
  split
  · exact h.move rfl rfl ⟨{ hSpawned with }, { hReading with }⟩
  · exact h.move rfl rfl ⟨{ hSpawned with }, { hReading with }⟩

/-- A read keeps what fits in front of the last line, and the end of the pipe only comes behind all
that was written to it. -/
theorem afterRead_sound (h : Sound cap entry s) (r : ReadReply)
    (hPossible : s.possible (.read r) = true) : Sound cap entry (s.afterRead cap r) := by
  simp only [State.possible, Bool.and_eq_true, decide_eq_true_eq] at hPossible
  obtain ⟨hs, hBytes⟩ := hPossible
  have hPhase := h.phase
  rw [hs] at hPhase
  obtain ⟨hSpawned, hReading⟩ := hPhase
  cases r with
  | interrupted => exact h.move rfl rfl ⟨{ hSpawned with }, { hReading with }⟩
  | again => exact h.move rfl rfl ⟨{ hSpawned with }, { hReading with }⟩
  | fails => exact fail_sound h hSpawned
  | returns bytes =>
    simp only [Bool.and_eq_true, Bool.or_eq_true, decide_eq_true_eq, List.isPrefixOf_iff_prefix]
      at hBytes
    obtain ⟨⟨-, hNext⟩, hEnd⟩ := hBytes
    obtain ⟨rest, hRest⟩ := hReading.kept
    rw [State.afterRead]
    split
    · next hEmpty =>
      obtain ⟨hClosed, hAll⟩ := hEnd.resolve_left fun hNonempty => hNonempty hEmpty
      have hKept : s.kept = s.produced :=
        hReading.kept.eq_of_length (hReading.consumed.symm.trans hAll)
      exact h.move rfl rfl ⟨{ hSpawned with }, hReading.failed, rfl, hClosed, hKept⟩
    · have hMore : s.kept ++ bytes <+: s.produced := by
        rw [← hRest, hReading.consumed, List.drop_left] at hNext
        rw [← hRest]
        exact (List.prefix_append_right_inj s.kept).mpr hNext
      simp only
      split
      · exact h.move rfl rfl ⟨{ hSpawned with }, rfl⟩
      · next hRoom =>
        have hOldRoom := h.room
        have hOldExtent := h.extent
        refine ⟨?_, ?_, { hSpawned with }, hReading.failed, ?_, hMore⟩
        · simp only [List.length_append]
          omega
        · show max s.extent _ ≤ _
          omega
        · show s.consumed + bytes.length = (s.kept ++ bytes).length
          rw [hReading.consumed, List.length_append]

theorem afterWait_sound (h : Sound cap entry s) (r : WaitReply)
    (hPossible : s.possible (.wait r) = true) : Sound cap entry (s.afterWait r) := by
  have hPhase := h.phase
  cases r with
  | reaped =>
    simp only [State.possible, Bool.and_eq_true, Bool.or_eq_true, decide_eq_true_eq] at hPossible
    obtain ⟨hs, hExited⟩ := hPossible
    split at hExited
    · next status hChild =>
      rw [State.afterWait, State.reap, hChild]
      rcases hs with hs | hs
      · rw [hs] at hPhase
        obtain ⟨hSpawned, hFailed, hEnded⟩ := hPhase
        exact h.move rfl rfl ⟨status, rfl, rfl, hSpawned.lends, hSpawned.rearms,
          .inr ⟨hEnded.ended, hEnded.closed, hEnded.kept⟩⟩
      · rw [hs] at hPhase
        obtain ⟨hSpawned, hFailed⟩ := hPhase
        exact h.move rfl rfl ⟨status, rfl, rfl, hSpawned.lends, hSpawned.rearms, .inl hFailed⟩
    · cases hExited
  | interrupted | running =>
    rw [State.afterWait]
    · split
      · next hs =>
        rw [hs] at hPhase
        obtain ⟨hSpawned, hFailed, hEnded⟩ := hPhase
        exact h.move rfl rfl ⟨{ hSpawned with }, hFailed, { hEnded with }⟩
      · exact h
    · nofun

/-- The exit line always fits behind what has been kept. -/
theorem exitLine_fits (hCap : 128 ≤ cap) (hRoom : s.kept.length ≤ min cap TEST_LIMIT - 80)
    (status : Nat) :
    s.kept.length + ((exitLine (exitCode status)).length + 1) ≤ min cap TEST_LIMIT ∧
      (exitLine (exitCode status)).length < cap - s.kept.length := by
  have hLine := length_exitLine (exitCode_lt status)
  simp only [TEST_LIMIT] at hRoom ⊢
  omega

theorem finish_sound (hCap : 128 ≤ cap) (hRoom : s.kept.length ≤ min cap TEST_LIMIT - 80)
    (hExtent : s.extent ≤ min cap TEST_LIMIT) {status : Nat} (hChild : s.child = .reaped status)
    (hStatus : s.childStatus = status) (hLends : s.lends = 1) (hRearms : s.rearms = 1)
    (hEnd : s.failed = true ∨ Ended s) (rearmed : Bool) :
    Sound cap entry (s.finish cap rearmed) := by
  have hGuards : s.rearms = s.lends ∧ s.lends ≤ 1 := ⟨hRearms.trans hLends.symm, by rw [hLends]⟩
  unfold State.finish
  split
  · have hText := length_failureText
    refine ⟨hRoom, ?_, .failed status hChild hLends (reply_failureText hCap), hGuards⟩
    rw [reply_failureText hCap]
    show max s.extent failureText.length ≤ _
    simp only [TEST_LIMIT] at hExtent ⊢
    omega
  · next hPassed =>
    rw [not_or] at hPassed
    have hEnded := hEnd.resolve_left hPassed.1
    obtain ⟨hWithin, hFits⟩ := exitLine_fits hCap hRoom s.childStatus
    simp only
    rw [if_neg (Nat.not_le.mpr hFits)]
    refine ⟨hRoom, ?_, .passed status hChild hLends { hEnded with } ?_, hGuards⟩
    · show max s.extent _ ≤ _
      omega
    · simp only [passed, hStatus, ← hEnded.kept, List.length_append]

theorem rearm_sound (hCap : 128 ≤ cap) (h : Sound cap entry s)
    (hs : s.phase = .takeBack ∨ s.phase = .rearm) (mapsShell mapsTest unmapsShell : Bool) :
    Sound cap entry (s.advance cap (.rearm mapsShell mapsTest unmapsShell)) := by
  have hPhase := h.phase
  simp only [State.advance]
  rcases hs with hs | hs
  · rw [hs] at hPhase
    obtain ⟨hFresh, hLends⟩ := hPhase
    rw [if_pos hs]
    refine h.move rfl rfl
      ⟨.unavailable hFresh.child (by rw [State.unavailable, hFresh.answer]) hFresh.extent, ?_, ?_⟩
    · show s.rearms + 1 = s.lends
      rw [hFresh.rearms, hLends]
    · show s.lends ≤ 1
      rw [hLends]
  · rw [hs] at hPhase
    obtain ⟨status, hChild, hStatus, hLends, hRearms, hEnd⟩ := hPhase
    rw [if_neg (by simp [hs])]
    apply finish_sound hCap
    · exact h.room
    · exact h.extent
    · exact hChild
    · exact hStatus
    · exact hLends
    · show s.rearms + 1 = 1
      rw [hRearms]
    · exact hEnd.imp_right fun hEnded => { hEnded with }

/-! ### Runs -/

theorem advance_sound (hCap : 128 ≤ cap) (h : Sound cap entry s) {e : Event}
    (hPossible : s.possible e = true) : Sound cap entry (s.advance cap e) := by
  cases e with
  | writes bytes => exact writes_sound h hPossible
  | closes => exact closes_sound h hPossible
  | exits status => exact exits_sound h hPossible
  | clock now => exact afterClock_sound hCap h now
  | setup ok => exact afterSetup_sound h ok
  | lend unmapsShell unmapsTest mapsShell =>
    exact lend_sound h (of_decide_eq_true hPossible) unmapsShell unmapsTest mapsShell
  | spawn ok => exact spawn_sound h (of_decide_eq_true hPossible) ok
  | poll ready interrupted => exact afterPoll_sound h (of_decide_eq_true hPossible) ready interrupted
  | read r => exact afterRead_sound h r hPossible
  | wait r => exact afterWait_sound h r hPossible
  | rearm mapsShell mapsTest unmapsShell =>
    refine rearm_sound hCap h ?_ mapsShell mapsTest unmapsShell
    simpa [State.possible] using hPossible

theorem sound_of_reachable (hCap : 128 ≤ cap) (h : (testRuns cap entry).Reachable s) :
    Sound cap entry s := by
  refine h.invariant ?_ ?_
  · rintro s ⟨guards, rfl⟩
    exact sound_start guards entry
  · rintro s e t hSound ⟨hPossible, rfl⟩
    exact advance_sound hCap hSound hPossible

/-- No run writes past the output or its limit.  A run that was given a child returns with the child
reaped, either all the output and the exit code behind it or the failure text; without a child it
returns -1 and has written nothing.  Guards that were lent have been taken back by one call. -/
theorem runTests_outcome (hCap : 128 ≤ cap) (h : (testRuns cap entry).Reachable s) :
    s.extent ≤ min cap TEST_LIMIT ∧ (s.phase = .returned →
      Outcome entry s ∧ s.answer.result ≠ -3 ∧ s.rearms = s.lends ∧ s.lends ≤ 1) := by
  have hSound := sound_of_reachable hCap h
  refine ⟨hSound.extent, fun hReturned => ?_⟩
  have hPhase := hSound.phase
  rw [hReturned] at hPhase
  obtain ⟨hOutcome, hGuards⟩ := hPhase
  refine ⟨hOutcome, ?_, hGuards⟩
  cases hOutcome with
  | unavailable _ hAnswer => simp [hAnswer]
  | failed _ _ _ hAnswer =>
    rw [hAnswer]
    show ((failureText.length : Nat) : Int) ≠ -3
    omega
  | passed _ _ _ _ hAnswer =>
    rw [hAnswer, passed]
    show ((_ : Nat) : Int) ≠ -3
    omega

/-- The answer is the one that `runTests` gives for how the helper ended. -/
theorem answer_eq_runTests (hCap : 128 ≤ cap) (h : (testRuns cap entry).Reachable s)
    (hReturned : s.phase = .returned) : ∃ run, s.answer = runTests cap entry run := by
  have hSound := sound_of_reachable hCap h
  have hRoom := hSound.room
  have hPhase := hSound.phase
  have hLimit : ¬min cap TEST_LIMIT < 128 := by
    simp only [TEST_LIMIT]
    omega
  rw [hReturned] at hPhase
  cases hPhase.1 with
  | unavailable _ hAnswer =>
    refine ⟨.unavailable, ?_⟩
    simp only [runTests, if_neg hLimit, hAnswer]
  | failed _ _ _ hAnswer =>
    refine ⟨.failed, ?_⟩
    rw [hAnswer, ← reply_failureText hCap]
    simp only [runTests, if_neg hLimit, failureText]
  | passed status _ _ hEnded hAnswer =>
    obtain ⟨-, hFits⟩ := exitLine_fits hCap hRoom status
    rw [hEnded.kept] at hRoom hFits
    refine ⟨.exited s.produced (exitCode status), ?_⟩
    simp only [runTests, if_neg hLimit]
    rw [if_neg (Nat.not_lt.mpr hRoom), hAnswer]
    exact (if_neg (Nat.not_le.mpr hFits)).symm

/-- A helper that writes twice, is interrupted, and exits with 1. -/
def sampleEvents : List Event :=
  [.clock 5, .setup true, .setup true, .lend true true true, .spawn true, .setup true,
    .writes (ascii "no"), .clock 6, .poll 0 false, .clock 7, .poll 1 false, .read (.returns (ascii "n")),
    .clock 7, .poll (-1) true, .clock 8, .poll 1 false, .read .again, .writes (ascii "\n"), .closes,
    .clock 9, .poll 1 false, .read (.returns (ascii "o\n")), .clock 9, .poll 1 false,
    .read (.returns []), .wait .running, .clock 10, .exits 256, .wait .reaped, .rearm true true true]

theorem runTests_outcome_sample : ∃ s, (testRuns 128 ⟨0, 1, []⟩).Reachable s ∧ s.phase = .returned ∧
    s.answer = ⟨15, 1, ascii "no\nexit_code=1\n"⟩ ∧ s.extent ≤ min 128 TEST_LIMIT ∧
    Outcome ⟨0, 1, []⟩ s := by
  have hReplay : ((System.replay State.possible (State.advance 128)
      (.start ⟨true, true⟩ ⟨0, 1, []⟩) sampleEvents).any fun s =>
        s.phase = .returned ∧ s.answer = ⟨15, 1, ascii "no\nexit_code=1\n"⟩) = true := by decide
  obtain ⟨s, hs, hEnd⟩ := (Option.any_eq_true ..).mp hReplay
  obtain ⟨hReturned, hAnswer⟩ := of_decide_eq_true hEnd
  have hReachable : (testRuns 128 ⟨0, 1, []⟩).Reachable s := ⟨_, _, ⟨⟨true, true⟩, rfl⟩, .of_replay hs⟩
  obtain ⟨hExtent, hOutcome⟩ := runTests_outcome (Nat.le_refl 128) hReachable
  exact ⟨s, hReachable, hReturned, hAnswer, hExtent, (hOutcome hReturned).1⟩

/-- Without a pipe the result is -1. -/
theorem runTests_noPipe : ∃ s, (testRuns 128 ⟨0, 1, []⟩).Reachable s ∧ s.phase = .returned ∧
    s.answer.result = -1 ∧ s.answer ≠ ⟨failureText.length, 1, failureText⟩ ∧
    ∀ output code, s.answer ≠ passed output code := by
  have hReplay : System.replay State.possible (State.advance 128)
      (.start ⟨true, true⟩ ⟨0, 1, []⟩) [.clock 0, .setup false] =
        some { State.start ⟨true, true⟩ ⟨0, 1, []⟩ with
          deadline := 10000, answer := ⟨-1, 1, []⟩, phase := .returned } := by decide
  refine ⟨_, ⟨_, _, ⟨_, rfl⟩, .of_replay hReplay⟩, rfl, rfl, by decide, fun output code hPassed => ?_⟩
  have hResult := congrArg Answer.result hPassed
  simp only [passed] at hResult
  omega

end Esp32Fx.ExampleTools.RunTests
