import Esp32Fx.ExampleTools.ToolCall

/-! What the tools leave of a project: at every instant of a run, each entry is as it was, except
that `battery.sh` may hold the whole content of one `replace_battery` call. -/

namespace Esp32Fx.ExampleTools

open Esp32Fx.Lib

/-- `battery.sh` with some content. -/
def battery (content : List UInt8) : File := ⟨content, true, 1⟩

/-- The call asks to replace `battery.sh` by a content that may be written. -/
structure Call.Replaces (c : Call) (content : List UInt8) : Prop where
  tool : c.name = ascii "replace_battery"
  path : Gives c.arguments (ascii "path") (ascii "battery.sh")
  given : Gives c.arguments (ascii "content") content
  nonempty : content ≠ []
  bound : content.length ≤ FILE_LIMIT

/-- The checks before the jail is opened have passed. -/
structure Admitted (c : Call) (tool : Tool) (args : Args) : Prop where
  named : toolOf c.name = some tool
  parsed : parseArgs c.arguments = some args
  fields : args.fields = tool.fields
  allowed : denied tool args.path = false

theorem toolOf_replace {name : List UInt8} (h : toolOf name = some .replaceBattery) :
    name = ascii "replace_battery" := by
  unfold toolOf at h
  split at h
  · cases h
  split at h
  · next hName => exact hName
  split at h <;> cases h

theorem Admitted.replaces {c : Call} {args : Args} (h : Admitted c .replaceBattery args)
    (hContent : cString args.content ≠ []) : c.Replaces (cString args.content) := by
  have hFields : args.fields = 3 := h.fields
  have hPath : args.field? 1 = some args.path := by simp [Args.field?, hFields]
  have hText : args.field? 2 = some args.content := by simp [Args.field?, hFields]
  obtain ⟨hGivesPath, hFitsPath⟩ := parseArgs_sound h.parsed (.inl rfl) hPath
  obtain ⟨hGivesText, hNul, hLength⟩ := parseArgs_sound h.parsed (.inr rfl) hText
  have hAllowed := h.allowed
  simp only [denied, beq_self_eq_true, Bool.true_or, Bool.and_true, Bool.not_eq_false', strEq,
    beq_iff_eq, cString_of_nulFree hFitsPath.1] at hAllowed
  rw [hAllowed] at hGivesPath
  rw [cString_of_nulFree hNul] at hContent ⊢
  exact ⟨toolOf_replace h.named, hGivesPath, hGivesText, hContent, Nat.le_of_lt_succ hLength⟩

theorem temporary_eq (pid : Nat) : ∃ rest, temporary pid = 0x2e :: rest := ⟨_, rfl⟩

theorem temporary_ne {pid : Nat} {name : List UInt8} (h : peek name ≠ 0x2e) :
    temporary pid ≠ name := by
  obtain ⟨rest, hRest⟩ := temporary_eq pid
  rintro rfl
  exact h (by rw [hRest, peek_cons])

/-! ### The stage of a call -/

/-- The answer of a call that has ended: status 0 of `replace_battery` goes with a replaced file. -/
def Settled (c : Call) (answer : Answer) (stage : Stage File) : Prop :=
  (answer.status = 1 ∧ ∀ file, stage ≠ .replaced file) ∨
    (answer.status = 0 ∧ (toolOf c.name = some .replaceBattery →
      ∃ content, c.Replaces content ∧ stage = .replaced (battery content)))

/-- What has been done to the project when a call reaches a phase. -/
def Phase.Fits (c : Call) (answer : Answer) (stage : Stage File) : Phase → Prop
  | idle => True
  | calloc => stage = .untouched ∧ answer.status = 1
  | runTests => stage = .untouched ∧ answer.status = 1 ∧ toolOf c.name ≠ some .replaceBattery
  | openJail tool args | openProject tool args | openFile tool args | statFile tool args _ =>
    stage = .untouched ∧ answer.status = 1 ∧ Admitted c tool args
  | read _ _ => stage = .untouched ∧ answer.status = 1 ∧ toolOf c.name ≠ some .replaceBattery
  | create content => stage = .untouched ∧ answer.status = 1 ∧ c.Replaces content
  | write content used =>
    stage = .aside (battery (content.take used)) ∧ answer.status = 1 ∧ c.Replaces content
  | chmod content failed | sync content failed | close content failed =>
    answer.status = 1 ∧ c.Replaces content ∧
      ∃ file, stage = .aside file ∧ (failed = false → file = battery content)
  | rename content =>
    stage = .aside (battery content) ∧ answer.status = 1 ∧ c.Replaces content
  | unlink => answer.status = 1 ∧ ∃ file, stage = .aside file
  | done | returned => Settled c answer stage

/-- The project is at a stage of the last call. -/
structure At (s : State) (stage : Stage File) : Prop where
  project : s.project = stage.directory s.entry (ascii "battery.sh") s.aside
  free : stage.Free s.entry s.aside
  whole : ∀ file, stage = .replaced file → ∃ content, s.call.Replaces content ∧ file = battery content
  phase : s.phase.Fits s.call s.answer stage

variable {s : State} {stage : Stage File}

def Sound (s : State) : Prop := ∃ stage, At s stage

theorem At.toSound (h : At s stage) : Sound s := ⟨stage, h⟩

/-- An answer or a phase that suits the stage. -/
theorem At.move (h : At s stage) {answer : Answer} {phase : Phase}
    (hPhase : phase.Fits s.call answer stage) : Sound { s with answer, phase } :=
  ⟨stage, h.project, h.free, h.whole, hPhase⟩

theorem settled_failed {c : Call} {answer : Answer} (hStatus : answer.status = 1)
    (hStage : stage = .untouched ∨ ∃ file, stage = .aside file) : Settled c answer stage := by
  refine .inl ⟨hStatus, fun file hFile => ?_⟩
  obtain rfl | ⟨other, rfl⟩ := hStage <;> cases hFile

theorem invalid_sound (h : At s stage) (hStage : stage = .untouched) : Sound s.invalid :=
  h.move (settled_failed rfl (.inl hStage))

theorem dispatch_sound (h : At s stage) (hStage : stage = .untouched) (hStatus : s.answer.status = 1)
    {tool : Tool} {args : Args} (hTool : toolOf s.call.name = some tool)
    (hArgs : parseArgs s.call.arguments = some args) (hFields : args.fields = tool.fields) :
    Sound (s.dispatch tool args) := by
  have hFile : Sound (if denied tool args.path then
      { s with
        answer := reply s.call.cap true (ascii "file denied or unavailable\n"), phase := .done }
      else
      { s with
        answer := reply s.call.cap true (ascii "file denied or unavailable\n")
        phase := .openJail tool args }) := by
    split
    · exact h.move (settled_failed rfl (.inl hStage))
    · next hAllowed =>
      exact h.move ⟨hStage, rfl, hTool, hArgs, hFields, Bool.not_eq_true _ ▸ hAllowed⟩
  cases tool with
  | runTests => exact h.move ⟨hStage, hStatus, by rw [hTool]; decide⟩
  | readProject => exact hFile
  | replaceBattery => exact hFile

theorem checkArguments_sound (h : At s stage) (hStage : stage = .untouched)
    (hStatus : s.answer.status = 1) : Sound s.checkArguments := by
  unfold State.checkArguments
  split
  · exact invalid_sound h hStage
  next tool hTool =>
  split
  · exact invalid_sound h hStage
  next args hArgs =>
  split
  · exact invalid_sound h hStage
  next hFields =>
  exact dispatch_sound h hStage hStatus hTool hArgs (Decidable.not_not.mp hFields)

theorem afterStat_sound (h : At s stage) (hStage : stage = .untouched)
    (hStatus : s.answer.status = 1) {tool : Tool} {args : Args}
    (hAdmitted : Admitted s.call tool args) (file : File) : Sound (s.afterStat tool args file) := by
  unfold State.afterStat
  split
  · split
    · exact h.move (settled_failed hStatus (.inl hStage))
    · next hLength =>
      have hNonempty : cString args.content ≠ [] := fun hNil => hLength (by rw [strlen, hNil]; rfl)
      exact h.move ⟨hStage, hStatus, hAdmitted.replaces hNonempty⟩
  · next hTool =>
    refine h.move ⟨hStage, hStatus, fun hReplace => ?_⟩
    rw [hAdmitted.named] at hReplace
    exact hTool (Option.some.inj hReplace)

theorem readEnd_sound (h : At s stage) (hTool : toolOf s.call.name ≠ some .replaceBattery)
    (used : Nat) : Sound (s.readEnd used) :=
  h.move (.inr ⟨rfl, fun hReplace => absurd hReplace hTool⟩)

theorem afterRead_sound (h : At s stage) (hStage : stage = .untouched)
    (hStatus : s.answer.status = 1) (hTool : toolOf s.call.name ≠ some .replaceBattery)
    {file : File} {used : Nat} (r : Reply) : Sound (s.afterRead file used r) := by
  unfold State.afterRead
  cases r with
  | interrupted => exact h.toSound
  | fails =>
    simp only
    split
    · exact h.move (settled_failed hStatus (.inl hStage))
    · exact h.move (settled_failed hStatus (.inl hStage))
  | returns count =>
    simp only
    split
    · exact readEnd_sound h hTool used
    split
    · exact h.move (settled_failed hStatus (.inl hStage))
    · exact h.move ⟨hStage, hStatus, hTool⟩

theorem afterCreate_sound (h : At s stage) (hStage : stage = .untouched)
    (hStatus : s.answer.status = 1) {content : List UInt8} (hReplaces : s.call.Replaces content)
    (r : Reply) : Sound (s.afterCreate content r) := by
  have hProject : s.project = s.entry := by rw [h.project, hStage]; rfl
  unfold State.afterCreate
  split
  · next hCreate =>
    refine ⟨.aside (battery []), ?_, .inr (hProject ▸ hCreate.2), nofun,
      rfl, hStatus, hReplaces⟩
    show s.project.put s.aside (battery []) = s.entry.put s.aside (battery [])
    rw [hProject]
  · exact h.move (settled_failed hStatus (.inl hStage))

/-- A file aside gets other contents. -/
theorem At.rewrite {file other : File} (h : At s (.aside file)) {phase : Phase}
    (hPhase : phase.Fits s.call s.answer (.aside other)) :
    Sound { s with project := s.project.put s.aside other, phase } := by
  refine ⟨.aside other, ?_, .inr ?_, nofun, hPhase⟩
  · show s.project.put s.aside other = _
    rw [h.project, Stage.put_aside]
    rfl
  · exact h.free.resolve_left nofun

theorem append_aside {file : File} (h : At s (.aside file)) (bytes : List UInt8) :
    s.append s.aside bytes = s.project.put s.aside { file with bytes := file.bytes ++ bytes } := by
  have hFile : s.project s.aside = some file := by rw [h.project, Stage.aside_self]
  rw [State.append, hFile]

theorem afterWrite_sound {content : List UInt8} {used : Nat}
    (h : At s (.aside (battery (content.take used)))) (hStatus : s.answer.status = 1)
    (hReplaces : s.call.Replaces content) (r : Reply) : Sound (s.afterWrite content used r) := by
  have hBroken : Sound { s with phase := .chmod content true } :=
    h.move ⟨hStatus, hReplaces, _, rfl, nofun⟩
  unfold State.afterWrite
  cases r with
  | interrupted => exact h.toSound
  | fails => exact hBroken
  | returns count =>
    have hTake : content.take used ++ (content.drop used).take count =
        content.take (used + count) := by rw [List.take_add]
    simp only
    split
    · exact hBroken
    · rw [append_aside h]
      apply h.rewrite
      show Phase.Fits _ _ (.aside (battery (content.take used ++ (content.drop used).take count))) _
      rw [hTake]
      split
      · exact ⟨rfl, hStatus, hReplaces⟩
      · next hEnd =>
        refine ⟨hStatus, hReplaces, _, rfl, fun _ => ?_⟩
        rw [List.take_of_length_le (by omega)]

theorem afterClose_sound {file : File} (h : At s (.aside file)) (hStatus : s.answer.status = 1)
    {content : List UInt8} (hReplaces : s.call.Replaces content) {failed : Bool}
    (hWhole : failed = false → file = battery content) (r : Reply) :
    Sound (s.afterClose content failed r) := by
  unfold State.afterClose
  split
  · exact h.move ⟨hStatus, file, rfl⟩
  · next hClosed =>
    have hFailed : failed = false := by
      cases failed with
      | false => rfl
      | true => exact absurd rfl hClosed
    exact h.move ⟨by rw [hWhole hFailed], hStatus, hReplaces⟩

theorem aside_ne : s.aside ≠ ascii "battery.sh" := temporary_ne (by decide)

theorem afterRename_sound {content : List UInt8} (h : At s (.aside (battery content)))
    (hStatus : s.answer.status = 1) (hReplaces : s.call.Replaces content) (r : Reply) :
    Sound (s.afterRename r) := by
  have hFree := h.free.resolve_left nofun
  unfold State.afterRename
  split
  · refine ⟨.replaced (battery content), ?_, .inr hFree, ?_, .inr ⟨rfl, fun _ => ⟨_, hReplaces, rfl⟩⟩⟩
    · show s.project.rename s.aside (ascii "battery.sh") = _
      rw [h.project, Stage.rename_aside hFree aside_ne]
      rfl
    · intro file hFile
      cases hFile
      exact ⟨content, hReplaces, rfl⟩
  · exact h.move ⟨hStatus, _, rfl⟩

theorem unlink_sound {file : File} (h : At s (.aside file)) (hStatus : s.answer.status = 1)
    (removed : Bool) :
    Sound { s with
      project := if removed then s.project.unlink s.aside else s.project, phase := .done } := by
  have hFree := h.free.resolve_left nofun
  cases removed with
  | false => exact h.move (settled_failed hStatus (.inr ⟨file, rfl⟩))
  | true =>
    refine ⟨.untouched, ?_, .inl rfl, nofun,
      settled_failed hStatus (.inl rfl)⟩
    show s.project.unlink s.aside = _
    rw [h.project, Stage.unlink_aside hFree]
    rfl

/-- A system call and the code behind it keep the project at a stage of the call. -/
theorem advance_sound (h : Sound s) (r : Reply) : Sound (s.advance r) := by
  obtain ⟨stage, hAt⟩ := h
  have hPhase := hAt.phase
  unfold State.advance
  cases hs : s.phase with
  | idle => exact hAt.toSound
  | runTests => exact hAt.toSound
  | returned => exact hAt.toSound
  | calloc =>
    rw [hs] at hPhase
    obtain ⟨hStage, hStatus⟩ := hPhase
    simp only
    split
    · exact checkArguments_sound hAt hStage hStatus
    · exact hAt.move (settled_failed hStatus (.inl hStage))
  | openJail tool args =>
    rw [hs] at hPhase
    obtain ⟨hStage, hStatus, hAdmitted⟩ := hPhase
    simp only
    split
    · exact hAt.move ⟨hStage, hStatus, hAdmitted⟩
    · exact hAt.move (settled_failed hStatus (.inl hStage))
  | openProject tool args =>
    rw [hs] at hPhase
    obtain ⟨hStage, hStatus, hAdmitted⟩ := hPhase
    simp only
    split
    · exact hAt.move ⟨hStage, hStatus, hAdmitted⟩
    · exact hAt.move (settled_failed hStatus (.inl hStage))
  | openFile tool args =>
    rw [hs] at hPhase
    obtain ⟨hStage, hStatus, hAdmitted⟩ := hPhase
    simp only
    split
    · exact hAt.move (settled_failed hStatus (.inl hStage))
    · split
      · exact hAt.move ⟨hStage, hStatus, hAdmitted⟩
      · exact hAt.move (settled_failed hStatus (.inl hStage))
  | statFile tool args file =>
    rw [hs] at hPhase
    obtain ⟨hStage, hStatus, hAdmitted⟩ := hPhase
    simp only
    split
    · exact afterStat_sound hAt hStage hStatus hAdmitted file
    · exact hAt.move (settled_failed hStatus (.inl hStage))
  | read file used =>
    rw [hs] at hPhase
    obtain ⟨hStage, hStatus, hTool⟩ := hPhase
    exact afterRead_sound hAt hStage hStatus hTool r
  | create content =>
    rw [hs] at hPhase
    obtain ⟨hStage, hStatus, hReplaces⟩ := hPhase
    exact afterCreate_sound hAt hStage hStatus hReplaces r
  | write content used =>
    rw [hs] at hPhase
    obtain ⟨rfl, hStatus, hReplaces⟩ := hPhase
    exact afterWrite_sound hAt hStatus hReplaces r
  | chmod content failed =>
    rw [hs] at hPhase
    obtain ⟨hStatus, hReplaces, file, hStage, hWhole⟩ := hPhase
    simp only
    split
    · exact hAt.move ⟨hStatus, hReplaces, file, hStage, hWhole⟩
    · exact hAt.move ⟨hStatus, hReplaces, file, hStage, nofun⟩
  | sync content failed =>
    rw [hs] at hPhase
    obtain ⟨hStatus, hReplaces, file, hStage, hWhole⟩ := hPhase
    exact hAt.move ⟨hStatus, hReplaces, file, hStage, fun hFailed =>
      hWhole (Bool.or_eq_false_iff.mp hFailed).1⟩
  | close content failed =>
    rw [hs] at hPhase
    obtain ⟨hStatus, hReplaces, file, rfl, hWhole⟩ := hPhase
    exact afterClose_sound hAt hStatus hReplaces hWhole r
  | rename content =>
    rw [hs] at hPhase
    obtain ⟨rfl, hStatus, hReplaces⟩ := hPhase
    exact afterRename_sound hAt hStatus hReplaces r
  | unlink =>
    rw [hs] at hPhase
    obtain ⟨hStatus, file, rfl⟩ := hPhase
    exact unlink_sound hAt hStatus r.ok
  | done =>
    rw [hs] at hPhase
    exact hAt.move hPhase

theorem begin_sound (s : State) (c : Call) : Sound (s.begin c) := by
  have hRefused : ∀ answer : Answer, answer.status = 1 →
      Sound { s with call := c, calls := s.calls ++ [c], entry := s.project, answer, phase := .returned } :=
    fun answer hStatus => ⟨.untouched, rfl, .inl rfl, nofun, settled_failed hStatus (.inl rfl)⟩
  unfold State.begin
  simp only
  split
  · exact hRefused _ rfl
  split
  · exact hRefused _ rfl
  · exact ⟨.untouched, rfl, .inl rfl, nofun, rfl, rfl⟩

theorem runTests_settled {cap : Nat} {answer : Answer} (hStatus : answer.status = 1) (run : TestRun) :
    (runTests cap answer run).status = 1 ∨ (runTests cap answer run).status = 0 := by
  unfold runTests
  simp only
  split
  · exact .inl hStatus
  cases run with
  | unavailable => exact .inl hStatus
  | failed => exact .inl rfl
  | exited output code =>
    simp only
    split
    · exact .inl rfl
    split
    · exact .inl hStatus
    · by_cases hCode : code = 0
      · exact .inr (if_pos hCode)
      · exact .inl (if_neg hCode)

theorem tests_sound (h : Sound s) (hs : s.phase = .runTests) (run : TestRun) :
    Sound (s.answered (runTests s.call.cap s.answer run)) := by
  obtain ⟨stage, hAt⟩ := h
  have hPhase := hAt.phase
  rw [hs] at hPhase
  obtain ⟨hStage, hStatus, hTool⟩ := hPhase
  rcases runTests_settled hStatus run with h1 | h0
  · exact hAt.move (settled_failed h1 (.inl hStage))
  · exact hAt.move (.inr ⟨h0, fun hReplace => absurd hReplace hTool⟩)

/-! ### Runs -/

/-- A system call changes neither the call nor what is recorded of the run. -/
theorem advance_frame (s : State) (r : Reply) : (s.advance r).call = s.call ∧
    (s.advance r).calls = s.calls ∧ (s.advance r).entry = s.entry := by
  unfold State.advance State.checkArguments State.dispatch State.afterStat State.afterRead
    State.afterCreate State.afterWrite State.afterClose State.afterRename
  cases r <;> repeat' split
  all_goals exact ⟨rfl, rfl, rfl⟩

/-- The names of the files that the calls write aside. -/
def Asides (calls : List Call) (name : List UInt8) : Prop := ∃ c ∈ calls, name = temporary c.pid

/-- The file has the whole content of one of the calls. -/
def Written (calls : List Call) (file : File) : Prop :=
  ∃ c ∈ calls, ∃ content, c.Replaces content ∧ file = battery content

structure Holds (project : Project) (s : State) : Prop where
  past : Replaced project (ascii "battery.sh") (Asides s.calls) (Written s.calls) s.entry
  current : s.call ∈ s.calls ∨ (s.phase = .idle ∧ s.project = s.entry)
  sound : Sound s

variable {project : Project}

theorem Holds.replaced (h : Holds project s) :
    Replaced project (ascii "battery.sh") (Asides s.calls) (Written s.calls) s.project := by
  obtain hCall | ⟨-, hProject⟩ := h.current
  · obtain ⟨stage, hAt⟩ := h.sound
    rw [hAt.project]
    refine h.past.stage aside_ne ⟨s.call, hCall, rfl⟩ hAt.free fun file hFile => ?_
    exact ⟨s.call, hCall, hAt.whole file hFile⟩
  · rw [hProject]
    exact h.past

theorem holds_start (h : (toolCalls project).Start s) : Holds project s := by
  obtain ⟨hProject, hEntry, -, hIdle⟩ := h
  refine ⟨?_, .inr ⟨hIdle, hProject.trans hEntry.symm⟩, .untouched, ?_, .inl rfl, nofun, ?_⟩
  · rw [hEntry]
    exact .refl project _ _ _
  · exact hProject.trans hEntry.symm
  · rw [hIdle]
    trivial

theorem begin_frame (s : State) (c : Call) : (s.begin c).call = c ∧
    (s.begin c).calls = s.calls ++ [c] ∧ (s.begin c).entry = s.project := by
  unfold State.begin
  simp only
  repeat' split
  all_goals exact ⟨rfl, rfl, rfl⟩

theorem holds_begin (h : Holds project s) (c : Call) : Holds project (s.begin c) := by
  obtain ⟨hCall, hCalls, hEntry⟩ := begin_frame s c
  refine ⟨?_, .inl ?_, begin_sound s c⟩
  · rw [hCalls, hEntry]
    apply h.replaced.mono
    · rintro name ⟨c', hMem, hName⟩
      exact ⟨c', List.mem_append_left _ hMem, hName⟩
    · rintro file ⟨c', hMem, hFile⟩
      exact ⟨c', List.mem_append_left _ hMem, hFile⟩
  · rw [hCall, hCalls]
    exact List.mem_append_right _ (List.mem_singleton_self c)

theorem holds_advance (h : Holds project s) (r : Reply) : Holds project (s.advance r) := by
  obtain ⟨hCall, hCalls, hEntry⟩ := advance_frame s r
  refine ⟨?_, ?_, advance_sound h.sound r⟩
  · rw [hCalls, hEntry]
    exact h.past
  · obtain hMem | ⟨hIdle, hProject⟩ := h.current
    · exact .inl (by rw [hCall, hCalls]; exact hMem)
    · have hSame : s.advance r = s := by rw [State.advance, hIdle]
      rw [hSame]
      exact .inr ⟨hIdle, hProject⟩

theorem holds_step {t : State} {e : Event} (h : Holds project s)
    (hStep : (toolCalls project).Step s e t) : Holds project t := by
  cases e with
  | call c =>
    obtain ⟨-, rfl⟩ := hStep
    exact holds_begin h c
  | reply r =>
    obtain ⟨-, rfl⟩ := hStep
    exact holds_advance h r
  | tests run =>
    obtain ⟨hTests, rfl⟩ := hStep
    refine ⟨h.past, h.current.imp_right ?_, tests_sound h.sound hTests run⟩
    rintro ⟨hIdle, -⟩
    rw [hTests] at hIdle
    cases hIdle
  | stop =>
    obtain rfl := hStep
    obtain ⟨stage, hAt⟩ := h.sound
    refine ⟨h.past, h.current.imp_right fun hIdle => ⟨rfl, hIdle.2⟩, stage, hAt.project, hAt.free,
      hAt.whole, trivial⟩

theorem holds_of_reachable (h : (toolCalls project).Reachable s) : Holds project s :=
  h.invariant (fun _ hStart => holds_start hStart) fun _ _ _ hs hStep => holds_step hs hStep

/-! ### What a run leaves -/

/-- What the tools have left of `project`, and of the project that the last call found. -/
structure Kept (project : Project) (s : State) : Prop where
  /-- The last call changes no other entry than `battery.sh` and its own new file. -/
  call_others : ∀ name, name ≠ ascii "battery.sh" →
    name ≠ s.aside ∨ (∃ file, s.entry name = some file) → s.project name = s.entry name
  /-- So does the whole run: the entries that were there stay, and only new files of calls come. -/
  others : ∀ name, name ≠ ascii "battery.sh" →
    (∃ file, project name = some file) ∨ ¬Asides s.calls name → s.project name = project name
  spec : s.project (ascii "SPEC.md") = project (ascii "SPEC.md")
  test : s.project (ascii "test.sh") = project (ascii "test.sh")
  /-- `battery.sh` is the first one or has the whole content of one call. -/
  whole : s.project (ascii "battery.sh") = project (ascii "battery.sh") ∨
    ∃ c ∈ s.calls, ∃ content, c.Replaces content ∧
      s.project (ascii "battery.sh") = some (battery content)
  call_whole : s.project (ascii "battery.sh") = s.entry (ascii "battery.sh") ∨
    ∃ content, s.call.Replaces content ∧ s.project (ascii "battery.sh") = some (battery content)
  /-- The status of a `replace_battery` that has returned tells which of the two it is. -/
  status : s.phase = .returned → s.call.name = ascii "replace_battery" →
    (s.answer.status = 0 ∧ ∃ content, s.call.Replaces content ∧
      s.project (ascii "battery.sh") = some (battery content)) ∨
    (s.answer.status = 1 ∧ s.project (ascii "battery.sh") = s.entry (ascii "battery.sh"))

theorem settled_status {answer : Answer} (h : At s stage) (hSettled : Settled s.call answer stage)
    (hName : s.call.name = ascii "replace_battery") :
    (answer.status = 0 ∧ ∃ content, s.call.Replaces content ∧
      s.project (ascii "battery.sh") = some (battery content)) ∨
    (answer.status = 1 ∧ s.project (ascii "battery.sh") = s.entry (ascii "battery.sh")) := by
  obtain ⟨h1, hStage⟩ | ⟨h0, hReplaced⟩ := hSettled
  · exact .inr ⟨h1, by rw [h.project, Stage.target_unreplaced aside_ne hStage]⟩
  · obtain ⟨content, hReplaces, rfl⟩ := hReplaced (by rw [hName]; decide)
    exact .inl ⟨h0, content, hReplaces, by rw [h.project, Stage.target_replaced]⟩

theorem At.call_whole (h : At s stage) :
    s.project (ascii "battery.sh") = s.entry (ascii "battery.sh") ∨
    ∃ content, s.call.Replaces content ∧
      s.project (ascii "battery.sh") = some (battery content) := by
  by_cases hReplaced : ∃ file, stage = .replaced file
  · obtain ⟨file, rfl⟩ := hReplaced
    obtain ⟨content, hReplaces, rfl⟩ := h.whole file rfl
    exact .inr ⟨content, hReplaces, by rw [h.project, Stage.target_replaced]⟩
  · refine .inl ?_
    rw [h.project, Stage.target_unreplaced aside_ne fun file hFile => hReplaced ⟨file, hFile⟩]

theorem not_asides {name : List UInt8} (h : peek name ≠ 0x2e) (calls : List Call) :
    ¬Asides calls name := by
  rintro ⟨c, -, hName⟩
  exact temporary_ne h hName.symm

theorem Holds.kept (h : Holds project s) : Kept project s := by
  obtain ⟨stage, hAt⟩ := h.sound
  have hReplaced := h.replaced
  refine ⟨?_, hReplaced.elsewhere, ?_, ?_, ?_, hAt.call_whole, ?_⟩
  · intro name hName hAside
    rw [hAt.project]
    exact Stage.directory_elsewhere hAt.free hName hAside
  · exact hReplaced.elsewhere _ (by decide) (.inr (not_asides (by decide) _))
  · exact hReplaced.elsewhere _ (by decide) (.inr (not_asides (by decide) _))
  · refine hReplaced.target.imp_right ?_
    rintro ⟨file, ⟨c, hMem, content, hReplaces, rfl⟩, hFile⟩
    exact ⟨c, hMem, content, hReplaces, hFile⟩
  · intro hReturned hName
    have hPhase := hAt.phase
    rw [hReturned] at hPhase
    exact settled_status hAt hPhase hName

/-- In every run of calls whose system calls fail, write short or never come back, at every
instant: nothing but `battery.sh` and new files of the calls changes, and `battery.sh` is as it was
or has the whole content of one call, as the status of the call says. -/
theorem tools_keep_project (project : Project) {s : State}
    (h : (toolCalls project).Reachable s) : Kept project s :=
  (holds_of_reachable h).kept

/-! ### A run -/

/-- The state after the events of a list, one after the other; none when one of them cannot come. -/
def replay (s : State) : List Event → Option State
  | [] => some s
  | .call c :: es => if s.phase = .idle ∨ s.phase = .returned then replay (s.begin c) es else none
  | .reply r :: es => if s.possible r then replay (s.advance r) es else none
  | .tests run :: es =>
    if s.phase = .runTests then replay (s.answered (runTests s.call.cap s.answer run)) es else none
  | .stop :: es => replay { s with phase := .idle } es

theorem run_replay {t : State} {es : List Event} (h : replay s es = some t) :
    (toolCalls project).Run s es t := by
  induction es generalizing s with
  | nil =>
    cases h
    exact .nil _
  | cons e es ih =>
    cases e with
    | call c =>
      rw [replay] at h
      split at h
      · next hPhase => exact .cons ⟨hPhase, rfl⟩ (ih h)
      · cases h
    | reply r =>
      rw [replay] at h
      split at h
      · next hPossible => exact .cons ⟨hPossible, rfl⟩ (ih h)
      · cases h
    | tests run =>
      rw [replay] at h
      split at h
      · next hPhase => exact .cons ⟨hPhase, rfl⟩ (ih h)
      · cases h
    | stop => exact .cons rfl (ih h)

theorem reachable_replay {t : State} {es : List Event} (h : (toolCalls project).Reachable s)
    (hReplay : replay s es = some t) : (toolCalls project).Reachable t :=
  h.run (run_replay hReplay)

/-- A project with `battery.sh` alone. -/
def sampleProject : Project := fun name =>
  if name = ascii "battery.sh" then some (battery (ascii "old")) else none

def sampleCall : Call where
  jail := some (ascii "/jail")
  name := ascii "replace_battery"
  arguments := ascii "\x7b\"path\":\"battery.sh\",\"content\":\"new\\n\"\x7d"
  cap := 64
  pid := 7

def sampleStart : State where
  project := sampleProject
  call := sampleCall
  answer := ⟨0, 0, []⟩
  phase := .idle
  calls := []
  entry := sampleProject

/-- Every system call succeeds, after a write that is interrupted and one that is short. -/
def sampleEvents : List Event :=
  [.call sampleCall, .reply (.returns 0), .reply (.returns 0), .reply (.returns 0),
    .reply (.returns 0), .reply (.returns 0), .reply (.returns 0), .reply .interrupted,
    .reply (.returns 1), .reply (.returns 3), .reply (.returns 0), .reply (.returns 0),
    .reply (.returns 0), .reply (.returns 0), .reply (.returns 0)]

theorem tools_keep_project_sample : ∃ s, replay sampleStart sampleEvents = some s ∧
    s.phase = .returned ∧ s.answer.status = 0 ∧ s.answer.result = 17 ∧
    s.project (ascii "battery.sh") = some (battery (ascii "new\n")) ∧ Kept sampleProject s := by
  have hReplay : (replay sampleStart sampleEvents).isSome := by decide
  obtain ⟨s, hs⟩ := Option.isSome_iff_exists.mp hReplay
  have hEnd : (replay sampleStart sampleEvents).all (fun s => s.phase = .returned ∧
      s.answer.status = 0 ∧ s.answer.result = 17 ∧
      s.project (ascii "battery.sh") = some (battery (ascii "new\n"))) := by decide
  rw [hs] at hEnd
  simp only [Option.all_some, decide_eq_true_eq] at hEnd
  obtain ⟨hPhase, hStatus, hResult, hBattery⟩ := hEnd
  refine ⟨s, hs, hPhase, hStatus, hResult, hBattery, tools_keep_project sampleProject ?_⟩
  exact reachable_replay (.start ⟨rfl, rfl, rfl, rfl⟩) hs

end Esp32Fx.ExampleTools
