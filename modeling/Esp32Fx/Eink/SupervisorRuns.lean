import Esp32Fx.Eink.SupervisorSession
import Esp32Fx.Runner.Addresses

/-! Whole runs of the supervisor: how it treats the memory that it lends, what it says and in which
order, what it leaves behind and what the user gets to see, and that the runtime on the board
finds the memory that it was lent. -/

namespace Esp32Fx.Eink.Supervisor

open Lib Program

variable {build : Build} {inv : Invocation} {w s t : World} {rounds : Nat} {call : Call}

/-! ### Every call -/

/-- Every call of every run treats lent memory as it has to. -/
theorem supervise_lends (hFresh : Fresh w) (h : Reaches host w (supervise rounds build inv) call s) :
    Lends build w call s := (h.keeps (supervise_keeps hFresh)).lends

/-- Every request and every process of every run is in its place in the protocol. -/
theorem supervise_speaks (hFresh : Fresh w)
    (h : Reaches host w (supervise rounds build inv) call s) : Speaks build inv call s :=
  (h.keeps (supervise_keeps hFresh)).speaks

/-- Every run uses only what it has opened, and gives it back. -/
theorem supervise_restores (hFresh : Fresh w) :
    (∀ call s, Reaches host w (supervise rounds build inv) call s → Handles w call s) ∧
    ∀ result t, Runs host w (supervise rounds build inv) result t → Restored build w t :=
  ⟨fun _ _ h => (h.keeps (supervise_keeps hFresh)).handles,
    fun _ _ h => (h.keeps (supervise_keeps hFresh)).2.1⟩

/-! ### The prompt -/

/-- The bytes behind the first word, when there is room for them. -/
theorem joinLength_rest {length : Nat} (hLength : length ≤ maxPromptBytes)
    (parts : List (List UInt8)) :
    joinLength length 1 parts =
      if length + (parts.flatMap (0x20 :: ·)).length ≤ maxPromptBytes then
        some (length + (parts.flatMap (0x20 :: ·)).length)
      else none := by
  induction parts generalizing length with
  | nil => exact (if_pos hLength).symm
  | cons part parts ih =>
    rw [joinLength, List.flatMap_cons, List.length_append, List.length_cons]
    by_cases hRoom : 1 > maxPromptBytes - length ∨ part.length > maxPromptBytes - length - 1
    · rw [if_pos hRoom, if_neg (by omega)]
    · rw [if_neg hRoom, ih (by omega), Nat.add_comm 1, Nat.add_assoc]

/-- `join_prompt` joins the words by single spaces, when that is neither empty nor too long. -/
theorem joinPrompt_eq (words : List (List UInt8)) :
    joinPrompt words =
      if joinParts words = [] ∨ maxPromptBytes < (joinParts words).length then none
      else some (joinParts words) := by
  have hLength : joinLength 0 0 words =
      if (joinParts words).length ≤ maxPromptBytes then some (joinParts words).length else none := by
    cases words with
    | nil => rfl
    | cons part parts =>
      rw [joinLength, joinParts, List.length_append]
      by_cases hRoom : 0 > maxPromptBytes - 0 ∨ part.length > maxPromptBytes - 0 - 0
      · rw [if_pos hRoom, if_neg (by omega)]
      · rw [if_neg hRoom, joinLength_rest (by omega), Nat.zero_add, Nat.zero_add]
  rw [joinPrompt, hLength]
  by_cases hLong : (joinParts words).length ≤ maxPromptBytes
  · rw [if_pos hLong]
    simp only [List.length_eq_zero_iff, gt_iff_lt]
  · rw [if_neg hLong, if_pos (.inr (not_le.mp hLong))]

theorem joinParts_eq : ∀ words : List (List UInt8), joinParts words = [0x20].intercalate words
  | [] => rfl
  | [part] => by rw [joinParts, List.intercalate_singleton, List.flatMap_nil, List.append_nil]
  | part :: next :: parts => by
    rw [List.intercalate_cons_cons, ← joinParts_eq (next :: parts)]
    simp [joinParts]

/-- What a prompt is. -/
structure IsPrompt (words : List (List UInt8)) (prompt : List UInt8) : Prop where
  words : prompt = [0x20].intercalate words
  nonempty : prompt ≠ []
  length : prompt.length ≤ maxPromptBytes

theorem isPrompt_of_joined {words : List (List UInt8)} {prompt : List UInt8}
    (h : joinPrompt words = some prompt) : IsPrompt words prompt := by
  rw [joinPrompt_eq] at h
  split at h
  · cases h
  · next hFits =>
    obtain ⟨hNonempty, hLong⟩ := not_or.mp hFits
    cases h
    exact ⟨joinParts_eq words, hNonempty, not_lt.mp hLong⟩

/-! ### The answer -/

/-- The user is shown the answer of a conversation: it is what `showAnswer` makes of the lines behind
the prompt. -/
structure ShowsAnswer (build : Build) (inv : Invocation) (settings : Settings) (shown : Shown)
    (t : World) : Prop where
  settings : readOptions (.initial build inv.env) inv.options = .inl settings
  conversation : ∃ prompt lines last response, IsPrompt inv.words prompt ∧
    Conversation build.bits inv.env prompt t.exchanged lines last response ∧
    showAnswer build.bits lines.flatten last prompt true = some shown
  printed : t.printed = shown.printed

/-- The renderer has been run on a transcript, behind the runtime, and both ended well. -/
def RendersTranscript (settings : Settings) (transcript : List UInt8) (t : World) : Prop :=
  ∃ runtime renderer path, t.reaped = [(runtime, .exited 0), (renderer, .exited 0)] ∧
    runtime.argv = [settings.runner, settings.module] ∧
    renderer.argv = rendererArgv settings path ∧ renderer.input = some transcript

/-- What the user gets to see in every run: with a success the usage, or the answer both printed and
rendered; with a failure nothing, or the answer printed. -/
theorem supervise_shows (hFresh : Fresh w) {result : Bool}
    (h : Runs host w (supervise rounds build inv) result t) :
    (result = true →
      (readOptions (.initial build inv.env) inv.options = .inr true ∧ t.printed = usage build) ∨
      ∃ settings shown, ShowsAnswer build inv settings shown t ∧
        RendersTranscript settings shown.transcript t) ∧
    (result = false → t.printed = [] ∨
      ∃ settings shown, ShowsAnswer build inv settings shown t) := by
  obtain ⟨-, -, hTold⟩ := h.keeps (supervise_keeps hFresh)
  cases hTold with
  | silent hPrinted => exact ⟨nofun, fun _ => .inl hPrinted⟩
  | helped hHelp hPrinted => exact ⟨fun _ => .inl ⟨hHelp, hPrinted⟩, nofun⟩
  | @answered settings prompt last lines response _ _ hAsked hConversation hAllocated hNonempty
      hPrinted hRendered =>
    obtain ⟨line, hReads⟩ := hConversation.answered
    have hShown : showAnswer build.bits lines.flatten last prompt true =
        some ⟨cString response.data ++ ascii "\n", writeTranscript prompt response⟩ := by
      have hLength : response.data.length ≠ 0 := fun hEmpty =>
        hNonempty (List.length_eq_zero_iff.mp hEmpty)
      rw [Reads] at hReads
      simp [showAnswer, hReads, hAllocated, hNonempty]
    have hShows : ShowsAnswer build inv settings
        ⟨cString response.data ++ ascii "\n", writeTranscript prompt response⟩ t :=
      ⟨hAsked.settings, ⟨prompt, lines, last, response, isPrompt_of_joined hAsked.prompt,
        hConversation, hShown⟩, hPrinted⟩
    exact ⟨fun hResult => .inr ⟨settings, _, hShows, hRendered hResult⟩,
      fun _ => .inr ⟨settings, _, hShows⟩⟩

/-! ### The addresses -/

theorem readDigits_hex {digits : List Nat} (hDigits : ∀ d ∈ digits, d < 16) (acc : Nat) :
    readDigits 16 acc (digits.map hexLower) =
      (digits.foldl (fun value d => value * 16 + d) acc, []) := by
  induction digits generalizing acc with
  | nil => rfl
  | cons d digits ih =>
    obtain ⟨hDigit, hRest⟩ := List.forall_mem_cons.mp hDigits
    have hValue : digitValue 16 (hexLower d) = some d := by
      rw [digitValue, hexValue_hexLower ⟨d, hDigit⟩]
      simp [hDigit]
    rw [List.map_cons, readDigits, hValue]
    exact ih hRest _

/-- The digits of an address are read back. -/
theorem readDigits_address (address : Nat) :
    readDigits 16 0 ((Nat.digits 16 address).map hexLower).reverse = (address, []) := by
  have hDigits : ∀ d ∈ (Nat.digits 16 address).reverse, d < 16 := by
    intro d hd
    exact Nat.digits_lt_base (by decide) (List.mem_reverse.mp hd)
  have hStep : (fun (d value : Nat) => value * 16 + d) = fun d value => d + 16 * value := by
    funext d value
    omega
  have hValue : (Nat.digits 16 address).foldr (fun d value => value * 16 + d) 0 = address := by
    rw [hStep]
    simpa [Nat.ofDigits_eq_foldr] using Nat.ofDigits_digits 16 address
  rw [← List.map_reverse, readDigits_hex hDigits, List.foldl_reverse, hValue]

/-- What is published is a number that starts with a digit. -/
theorem addressText_digits (address : Nat) : ∃ b rest, addressText address = ascii "0x" ++ b :: rest ∧
    (hexValue b).isSome ∧ readDigits 16 0 (b :: rest) = (address, []) := by
  unfold addressText
  by_cases hZero : address = 0
  · subst hZero
    exact ⟨0x30, [], rfl, by decide, by decide⟩
  · rw [if_neg hZero]
    have hRead := readDigits_address address
    have hNonempty : Nat.digits 16 address ≠ [] := by
      rwa [Ne, Nat.digits_eq_nil_iff_eq_zero]
    rw [← List.map_reverse] at hRead ⊢
    cases hDigits : (Nat.digits 16 address).reverse with
    | nil => exact absurd (List.reverse_eq_nil_iff.mp hDigits) hNonempty
    | cons d digits =>
      rw [hDigits] at hRead
      have hDigit : d < 16 := by
        refine Nat.digits_lt_base (by decide) (List.mem_reverse.mp ?_ : d ∈ Nat.digits 16 address)
        rw [hDigits]
        exact List.mem_cons_self
      refine ⟨hexLower d, digits.map hexLower, rfl, ?_, hRead⟩
      rw [hexValue_hexLower ⟨d, hDigit⟩]
      rfl

/-- The runtime reads the address that was published. -/
theorem parseAddress_addressText {address : Nat} (h : address < 2 ^ 32) :
    Runner.parseAddress (addressText address) = some address := by
  obtain ⟨b, rest, hText, hDigit, hRead⟩ := addressText_digits address
  have hBase : readBase (0x30 :: 0x78 :: b :: rest) = (16, b :: rest) := by
    rw [readBase, peek_cons, if_pos ⟨.inl rfl, hDigit⟩]
  have hFirst : (digitValue 16 b).isNone = false := by
    obtain ⟨v, hValue⟩ := Option.isSome_iff_exists.mp hDigit
    rw [digitValue, hValue]
    simp [hexValue_lt hValue]
  have hNumber : strtoul 32 (addressText address) = some ⟨address, [], false⟩ := by
    have hAscii : addressText address = 0x30 :: 0x78 :: b :: rest := hText
    have hSpace : (addressText address).dropWhile isspace = 0x30 :: 0x78 :: b :: rest := by
      rw [hAscii]
      rfl
    have hSign : readSign (0x30 :: 0x78 :: b :: rest) = (false, 0x30 :: 0x78 :: b :: rest) := rfl
    simp only [strtoul, hSpace, hSign, hBase, peek_cons, hFirst, hRead]
    rw [if_neg (by decide), if_neg (by omega)]
    rfl
  rw [Runner.parseAddress, hNumber]
  simp

/-- The build for the board. -/
def boardBuild : Build where
  placement
    | .launch => .reserved ⟨0x3df00000, 0x100000⟩
    | .stream => .reserved ⟨0x3def0000, 0x10000⟩
  together := rfl
  apart := by
    rintro _ _ ⟨⟩ ⟨⟩
    decide
  bits := 32
  defaultModule := ascii "/usr/share/fx/fx-core.wasm"

/-- The memory of a guard that is reserved. -/
theorem Published.reserved {held : Guard → Option Region} {guard : Guard} {r : Region}
    (h : Published build w held s) (hPlace : build.placement guard = .reserved r) :
    s.env guard = some (addressText r.start) ∧ ¬s.dirty r.start := by
  obtain ⟨r', hHeld⟩ := h.all guard (by rw [hPlace]; nofun)
  have hSame : r' = r := by
    rcases (h.owns guard r' hHeld).place with hReserved | hMapped
    · rw [hPlace] at hReserved
      cases hReserved
      rfl
    · rw [hPlace] at hMapped
      cases hMapped
  subst hSame
  exact ⟨h.told guard r' hHeld, h.clean guard r' hHeld⟩

/-- On the board, every runtime that is started accepts the addresses it is told of, and they are
those of the two guards, wiped, and apart from each other and from the runtime's own memory. -/
theorem supervise_handover (hFresh : Fresh w) {argv : List (List UInt8)} {stdio : Nat × Nat}
    (h : Reaches host w (supervise rounds boardBuild inv) (.spawn ⟨argv, some stdio⟩) s)
    {reg : List UInt8} (hReg : (Runner.verifyReservedPsram reg).isSome) :
    ∃ linear stream arenas, s.env .launch = some linear ∧ s.env .stream = some stream ∧
      Runner.start reg linear stream = some arenas ∧ arenas.Separate ∧
      boardBuild.placement .launch = .reserved arenas.linear ∧
      boardBuild.placement .stream = .reserved arenas.stream ∧
      ¬s.dirty arenas.linear.start ∧ ¬s.dirty arenas.stream.start := by
  obtain ⟨held, hPublished⟩ := supervise_lends hFresh h
  obtain ⟨hLaunch, hLaunchClean⟩ :=
    hPublished.reserved (show boardBuild.placement .launch = .reserved _ from rfl)
  obtain ⟨hStream, hStreamClean⟩ :=
    hPublished.reserved (show boardBuild.placement .stream = .reserved _ from rfl)
  obtain ⟨reservation, hReservation⟩ := Option.isSome_iff_exists.mp hReg
  have hWhole := Runner.verifyReservedPsram_eq hReservation
  subst hWhole
  have hLinear : Runner.borrowedLinear (addressText 0x3df00000) = some 0x3df00000 := by
    rw [Runner.borrowedLinear, parseAddress_addressText (by decide)]
    decide
  have hBuffer : Runner.borrowedStream 0x3df00000 (addressText 0x3def0000) = some 0x3def0000 := by
    rw [Runner.borrowedStream, parseAddress_addressText (by decide)]
    decide
  refine ⟨_, _, ⟨⟨Runner.metadataAddress, 0x130000⟩, ⟨0x3df00000, 0x100000⟩,
    ⟨0x3def0000, 0x10000⟩⟩, hLaunch, hStream, ?_, ?_, rfl, rfl, hLaunchClean, hStreamClean⟩
  · simp only [Runner.start, hReservation, hLinear, hBuffer]
    rfl
  · exact ⟨by decide, by decide, by decide, by decide, by decide, by decide, by decide⟩

/-! ### A run -/

section Sample

variable {bits : Nat} {n : Int} {raw last request : List UInt8} {response after : Option TextBuffer}
  {output input : Nat} {r : Option (List UInt8 × Option TextBuffer)}

/-- A line that ends with a newline. -/
structure IsWhole (raw : List UInt8) : Prop extends IsLine raw where
  newline : raw.getLast? = some 0x0a

theorem receive_runs (hLine : IsWhole raw) (hOpen : s.ended = false) :
    host s (.receive output) (some raw) (s.heard [raw] false) := by
  refine ⟨hOpen, hLine.nonempty, hLine.single, ?_⟩
  simp [World.heard, hLine.newline]

theorem readUntil_next (hLine : IsWhole raw) (hOpen : s.ended = false)
    (hJudge : judge bits n raw response = .inl after)
    (hRest : Runs host (s.heard [raw] false) (readUntil rounds bits output n after) r t) :
    Runs host s (readUntil (rounds + 1) bits output n response) r t := by
  refine runs_loop_next ?_ hRest
  refine runs_perform_bind (receive_runs hLine hOpen) ?_
  dsimp only
  rw [hJudge]
  exact .ret _ _

theorem readUntil_last (hLine : IsWhole raw) (hOpen : s.ended = false)
    (hJudge : judge bits n raw response = .inr r) :
    Runs host s (readUntil (rounds + 1) bits output n response) r (s.heard [raw] false) := by
  refine runs_loop_end ?_
  refine runs_perform_bind (receive_runs hLine hOpen) ?_
  dsimp only
  rw [hJudge]
  exact .ret _ _

/-- The world after a request. -/
def World.asked (s : World) (request : List UInt8) : World :=
  { s with exchanged := s.exchanged ++ [.sent request] }

theorem ask_runs (h : Runs host (s.asked request) (readUntil rounds bits output n response) r t) :
    Runs host s (ask rounds bits input output request n response) r t := by
  have hSend : host s (.send input request) true (s.asked request) := rfl
  exact runs_perform_bind hSend h

def initializeReply : List UInt8 := ascii "\x7b\"id\":1,\"result\":\x7b\x7d\x7d\n"

def sessionReply : List UInt8 := ascii "\x7b\"id\":2,\"result\":\x7b\"sessionId\":\"s\"\x7d\x7d\n"

def chunkNotice : List UInt8 :=
  ascii "\x7b\"sessionUpdate\":\"agent_message_chunk\",\"text\":\"ok\"\x7d\n"

def promptReply : List UInt8 := ascii "\x7b\"id\":3,\"result\":\x7b\x7d\x7d\n"

/-- The world after the whole conversation. -/
def World.conversed (s : World) (env : Env) (prompt : List UInt8) : World :=
  ((((((s.asked (sendInitialize env)).heard [initializeReply] false).asked sendNewSession).heard
    [sessionReply] false).asked (sendPrompt (ascii "s") prompt)).heard [chunkNotice] false).heard
    [promptReply] false

/-- The answer "ok" in a buffer. -/
def okResponse : TextBuffer := ⟨ascii "ok", 1024⟩

theorem converse_runs (env : Env) (prompt : List UInt8) (hOpen : s.ended = false) :
    Runs host s (converse 2 32 env input output prompt) (some okResponse)
      (s.conversed env prompt) := by
  have hFirst : IsWhole initializeReply := ⟨⟨by decide, by decide⟩, by decide⟩
  have hSecond : IsWhole sessionReply := ⟨⟨by decide, by decide⟩, by decide⟩
  have hChunk : IsWhole chunkNotice := ⟨⟨by decide, by decide⟩, by decide⟩
  have hThird : IsWhole promptReply := ⟨⟨by decide, by decide⟩, by decide⟩
  have hId : jsonStringValue sessionReply (ascii "sessionId") = .found ⟨ascii "s", 1024⟩ := by
    decide
  have hFirstJudged : judge 32 1 initializeReply none = .inr (some (initializeReply, none)) := by
    decide
  have hSecondJudged : judge 32 2 sessionReply none = .inr (some (sessionReply, none)) := by decide
  have hChunkJudged : judge 32 3 chunkNotice (some .empty) = .inl (some okResponse) := by decide
  have hThirdJudged : judge 32 3 promptReply (some okResponse) =
      .inr (some (promptReply, some okResponse)) := by decide
  refine (ask_runs (readUntil_last hFirst hOpen hFirstJudged)).bind ?_
  refine (ask_runs (readUntil_last hSecond rfl hSecondJudged)).bind ?_
  dsimp only
  rw [hId]
  refine (ask_runs (readUntil_next hChunk rfl hChunkJudged
    (readUntil_last hThird rfl hThirdJudged))).bind ?_
  exact .ret _ _

/-- The world after a guard has been published. -/
def World.holding (s : World) (guard : Guard) (r : Region) : World :=
  { s with
    dirty := Function.update s.dirty r.start (s.Lent r.start)
    env := Function.update s.env guard (some (addressText r.start)) }

theorem holdGuard_runs (guard : Guard) (r : Region) :
    Runs host s (holdGuard guard (.reserved r)) (some r, true) (s.holding guard r) := by
  have hWipe : host s (.wipe r) ()
      { s with dirty := Function.update s.dirty r.start (s.Lent r.start) } := rfl
  have hSet : host { s with dirty := Function.update s.dirty r.start (s.Lent r.start) }
      (.setenv guard (addressText r.start)) true (s.holding guard r) := rfl
  exact runs_perform_bind hWipe (runs_perform_bind hSet (.ret _ _))

variable {α : Type} {a : α} {fd : Nat} {command : Command}

def World.piped (s : World) (read write : Nat) : World :=
  { s with
    handles := Function.update (Function.update s.handles read (some .descriptor)) write
      (some .descriptor) }

def World.closed (s : World) (fd : Nat) : World :=
  { s with handles := Function.update s.handles fd none }

def World.streamed (s : World) (fd : Nat) : World :=
  { s with handles := Function.update s.handles fd (some .stream) }

/-- The process that a command becomes. -/
def World.child (s : World) (command : Command) : Child :=
  ⟨command.argv, s.env, s.files (command.argv.getLastD [])⟩

def World.spawned (s : World) (pid : Nat) (command : Command) : World :=
  { s with
    children := Function.update s.children pid (some (s.child command))
    dirty := fun address => s.dirty address ∨ (s.child command).Borrows address }

theorem World.spawned_child (s : World) (pid : Nat) (command : Command) :
    (s.spawned pid command).children pid = some (s.child command) := by simp [World.spawned]

theorem pipe_runs (read write : Nat) {f : Option (Nat × Nat) → System α}
    (hRead : s.handles read = none)
    (hWrite : s.handles write = none) (hNe : read ≠ write)
    (h : Runs host (s.piped read write) (f (some (read, write))) a t) :
    Runs host s (pipe >>= f) a t := by
  have hCall : host s .pipe (some (read, write)) (s.piped read write) :=
    ⟨hRead, hWrite, hNe, rfl⟩
  exact runs_perform_bind hCall h

theorem spawn_runs (pid : Nat) {f : Option Nat → System α} (hFree : s.children pid = none)
    (h : Runs host (s.spawned pid command) (f (some pid)) a t) :
    Runs host s (spawn command >>= f) a t := by
  have hCall : host s (.spawn command) (some pid) (s.spawned pid command) := ⟨hFree, rfl⟩
  exact runs_perform_bind hCall h

theorem close_runs {f : Unit → System α} (h : Runs host (s.closed fd) (f ()) a t) :
    Runs host s (close fd >>= f) a t := by
  have hCall : host s (.close fd) () (s.closed fd) := rfl
  exact runs_perform_bind hCall h

theorem fdopen_runs {f : Bool → System α} (h : Runs host (s.streamed fd) (f true) a t) :
    Runs host s (fdopen fd >>= f) a t := by
  have hCall : host s (.fdopen fd) true (s.streamed fd) := rfl
  exact runs_perform_bind hCall h

/-- The world after the runtime has been started. -/
def World.started (s : World) (runner module : List UInt8) : World :=
  ((((((s.piped 0 1).piped 2 3).spawned 0 ⟨[runner, module], some (0, 3)⟩).closed 0).closed
    3).streamed 1).streamed 2

theorem startFx_runs (hHandles : s.handles = fun _ => none) (hChildren : s.children = fun _ => none)
    (runner module : List UInt8) :
    Runs host s (startFx runner module) (some ⟨0, some 1, some 2⟩) (s.started runner module) := by
  refine pipe_runs 0 1 (by rw [hHandles]) (by rw [hHandles]) (by decide) ?_
  refine pipe_runs 2 3 (by simp [World.piped, hHandles]) (by simp [World.piped, hHandles])
    (by decide) ?_
  refine spawn_runs 0 (by simp [World.piped, hChildren]) ?_
  refine close_runs (close_runs (fdopen_runs (fdopen_runs ?_)))
  exact .ret _ _

theorem waitFor_runs {child : Child} (hChild : s.children 0 = some child) :
    Runs host s (waitFor 2 0) (some (.exited 0)) (s.reap 0 child (.exited 0)) := by
  have hWait : host s (.wait 0) (.ended (.exited 0)) (s.reap 0 child (.exited 0)) :=
    ⟨child, hChild, rfl⟩
  exact runs_loop_end (runs_perform_bind hWait (.ret _ _))

theorem finishFx_runs {child : Child} (hChild : s.children 0 = some child) :
    Runs host s (finishFx 2 ⟨0, some 1, some 2⟩) (none, true)
      (((s.closed 1).closed 2).reap 0 child (.exited 0)) := by
  have hInput : host s (.fclose 1) () (s.closed 1) := rfl
  have hOutput : host (s.closed 1) (.fclose 2) () ((s.closed 1).closed 2) := rfl
  have hClosed : Runs host s (closeStreams ⟨0, some 1, some 2⟩) () ((s.closed 1).closed 2) :=
    runs_perform_bind hInput (.call () hOutput (.ret _ _))
  have hHere : ((s.closed 1).closed 2).children 0 = some child := hChild
  exact hClosed.bind ((waitFor_runs hHere).bind (.ret _ _))

def World.released (s : World) (guard : Guard) (r : Region) : World :=
  { s with
    dirty := Function.update s.dirty r.start (s.Lent r.start)
    env := Function.update s.env guard none }

theorem releaseGuard_runs (guard : Guard) (r : Region) :
    Runs host s (releaseGuard guard (.reserved r) (some r)) (none, true) (s.released guard r) := by
  have hWipe : host s (.wipe r) ()
      { s with dirty := Function.update s.dirty r.start (s.Lent r.start) } := rfl
  have hUnset : host { s with dirty := Function.update s.dirty r.start (s.Lent r.start) }
      (.unsetenv guard) () (s.released guard r) := rfl
  exact runs_perform_bind hWipe (runs_perform_bind hUnset (.ret _ _))

def World.prints (s : World) (text : List UInt8) : World := { s with printed := s.printed ++ text }

def World.creates (s : World) (path : List UInt8) (fd : Nat) : World :=
  { s with
    files := Function.update s.files path (some [])
    handles := Function.update s.handles fd (some .descriptor) }

def World.writes (s : World) (path contents : List UInt8) : World :=
  { s with files := Function.update s.files path (some contents) }

/-- The world in which the renderer is started. -/
def World.written (s : World) (prompt path : List UInt8) : World :=
  (((s.prints (cString okResponse.data ++ ascii "\n")).creates path 0).closed 0).writes path
    (writeTranscript prompt okResponse)

theorem present_runs (hHandles : s.handles = fun _ => none)
    (hChildren : s.children = fun _ => none) (hFiles : s.files = fun _ => none)
    (settings : Settings) (prompt path : List UInt8) :
    ∃ t, Runs host s (present 2 settings prompt okResponse) (some path, true) t := by
  have hPrint : host s (.print (cString okResponse.data ++ ascii "\n")) ()
      (s.prints (cString okResponse.data ++ ascii "\n")) := rfl
  have hCreate : host (s.prints (cString okResponse.data ++ ascii "\n")) .mkstemp (some (path, 0))
      ((s.prints (cString okResponse.data ++ ascii "\n")).creates path 0) :=
    ⟨congrFun hFiles path, congrFun hHandles 0, rfl⟩
  have hWrite : host (((s.prints (cString okResponse.data ++ ascii "\n")).creates path 0).closed 0)
      (.writeFile path (writeTranscript prompt okResponse)) true (s.written prompt path) := rfl
  have hFree : (s.written prompt path).children 0 = none := congrFun hChildren 0
  have hWaited := waitFor_runs ((s.written prompt path).spawned_child 0
    ⟨rendererArgv settings path, none⟩)
  obtain ⟨u, hRender⟩ : ∃ u, Runs host (s.written prompt path) (runRenderer 2 settings path)
      true u :=
    ⟨_, spawn_runs 0 hFree (hWaited.bind (f := fun exit => pure (decide (exit =
      some (.exited 0)))) (.ret _ _))⟩
  have hAnswer : Runs host (((s.prints (cString okResponse.data ++ ascii "\n")).creates path
      0).closed 0) (renderAnswer 2 settings path prompt okResponse) true u :=
    runs_perform_bind hWrite hRender
  have hReturn : Runs host u (pure (some path, true) : System (Option (List UInt8) × Bool))
    (some path, true) u := .ret _ _
  exact ⟨u, runs_perform_bind hPrint (runs_perform_bind hCreate (close_runs
    (hAnswer.bind hReturn)))⟩

/-- The board before the supervisor: nothing is open, and its memory is dirty. -/
def emptyWorld : World where
  env _ := none
  maps _ := none
  handles _ := none
  children _ := none
  files _ := none
  dirty _ := True
  exchanged := []
  ended := false
  printed := []
  marker := none
  sleeps := 0
  reaped := []
  failures := []

theorem emptyWorld_fresh : Fresh emptyWorld := ⟨rfl, rfl, rfl, rfl, rfl⟩

/-- A supervisor that is called with one word. -/
def greeting : Invocation := ⟨⟨none, none, none, none⟩, [], [ascii "hi"]⟩

/-- The board with both guards held. -/
def heldWorld : World :=
  (emptyWorld.holding .launch ⟨0x3df00000, 0x100000⟩).holding .stream ⟨0x3def0000, 0x10000⟩

def greetingSettings : Settings := .initial boardBuild greeting.env

/-- Once the runtime is gone, all that was opened for it is closed. -/
theorem World.finished_idle {s : World} (hHandles : s.handles = fun _ => none)
    (hChildren : s.children = fun _ => none) (hFiles : s.files = fun _ => none) {child : Child}
    {runner module prompt : List UInt8} {env : Env} {u : World}
    (hSame : u = ((((s.started runner module).conversed env prompt).closed 1).closed 2).reap 0 child
      (.exited 0)) :
    u.handles = (fun _ => none) ∧ u.children = (fun _ => none) ∧ u.files = fun _ => none := by
  subst hSame
  simp only [World.reap, World.closed, World.conversed, World.heard, World.asked, World.started,
    World.streamed, World.spawned, World.piped, hHandles, hChildren, Function.update_idem]
  refine ⟨?_, Function.update_eq_self .., hFiles⟩
  funext fd
  simp only [Function.update_apply]
  split_ifs <;> rfl

theorem session_runs : ∃ t, Runs host heldWorld (session 2 boardBuild greeting.env greetingSettings
    (ascii "hi") (some ⟨0x3df00000, 0x100000⟩) (some ⟨0x3def0000, 0x10000⟩))
      (⟨both none none, none, some (ascii "/tmp/fx-eink.a")⟩, true) t := by
  obtain ⟨s₁, hStarted, hStart⟩ : ∃ s₁, s₁ = heldWorld.started greetingSettings.runner
      greetingSettings.module ∧ Runs host heldWorld
        (startFx greetingSettings.runner greetingSettings.module) (some ⟨0, some 1, some 2⟩) s₁ :=
    ⟨_, rfl, startFx_runs rfl rfl _ _⟩
  have hOpen : s₁.ended = false := by rw [hStarted]; rfl
  have hConverse : Runs host s₁ (converse 2 32 greeting.env 1 2 (ascii "hi")) (some okResponse)
    (s₁.conversed greeting.env (ascii "hi")) := converse_runs _ _ hOpen
  obtain ⟨child, hChild⟩ : ∃ child, (s₁.conversed greeting.env (ascii "hi")).children 0 =
      some child := by
    rw [hStarted]
    exact ⟨_, World.spawned_child ((heldWorld.piped 0 1).piped 2 3) 0 _⟩
  obtain ⟨s₂, hFinished, hFinish⟩ : ∃ s₂, s₂ = (((s₁.conversed greeting.env
      (ascii "hi")).closed 1).closed 2).reap 0 child (.exited 0) ∧
      Runs host (s₁.conversed greeting.env (ascii "hi")) (finishFx 2 ⟨0, some 1, some 2⟩)
        (none, true) s₂ := ⟨_, rfl, finishFx_runs hChild⟩
  obtain ⟨hHandles, hChildren, hFiles⟩ := World.finished_idle (s := heldWorld) rfl rfl rfl
    (hStarted ▸ hFinished)
  obtain ⟨t, hPresent⟩ := present_runs
    (s := (s₂.released .launch ⟨0x3df00000, 0x100000⟩).released .stream ⟨0x3def0000, 0x10000⟩)
    hHandles hChildren hFiles greetingSettings (ascii "hi") (ascii "/tmp/fx-eink.a")
  refine ⟨t, hStart.bind (hConverse.bind (hFinish.bind ?_))⟩
  refine (releaseGuard_runs .launch ⟨0x3df00000, 0x100000⟩).bind ?_
  refine (releaseGuard_runs .stream ⟨0x3def0000, 0x10000⟩).bind ?_
  refine hPresent.bind ?_
  exact .ret _ _

theorem greeting_prompt : joinPrompt greeting.words = some (ascii "hi") := by decide

theorem holdLaunch_runs : Runs host emptyWorld (holdLaunch (boardBuild.placement .launch))
    (some ⟨0x3df00000, 0x100000⟩, true) (emptyWorld.holding .launch ⟨0x3df00000, 0x100000⟩) := by
  have hVerified : host emptyWorld .verifyReserved true emptyWorld := rfl
  exact runs_perform_bind hVerified (holdGuard_runs .launch _)

theorem holdStream_runs : Runs host (emptyWorld.holding .launch ⟨0x3df00000, 0x100000⟩)
    (holdGuard .stream (boardBuild.placement .stream)) (some ⟨0x3def0000, 0x10000⟩, true)
    heldWorld := holdGuard_runs .stream _

/-- The supervisor can succeed on the board. -/
theorem greeting_runs : ∃ t, Runs host emptyWorld (supervise 2 boardBuild greeting) true t := by
  obtain ⟨t, hSession⟩ := session_runs
  have hServe : Runs host heldWorld (serve 2 boardBuild greeting (some ⟨0x3df00000, 0x100000⟩)
      (some ⟨0x3def0000, 0x10000⟩)) (⟨both none none, none, some (ascii "/tmp/fx-eink.a")⟩, true)
      t := by
    unfold serve
    rw [greeting_prompt]
    exact hSession
  have hUnlink : host t (.unlink (ascii "/tmp/fx-eink.a")) true
    { t with files := Function.update t.files (ascii "/tmp/fx-eink.a") none } := rfl
  have hCleanup : Runs host t (cleanup boardBuild ⟨both none none, none,
      some (ascii "/tmp/fx-eink.a")⟩) () { t with
        files := Function.update t.files (ascii "/tmp/fx-eink.a") none } :=
    runs_perform_bind hUnlink (.ret _ _)
  have hAttempt : Runs host emptyWorld (attempt 2 boardBuild greeting)
      (⟨both none none, none, some (ascii "/tmp/fx-eink.a")⟩, true) t :=
    holdLaunch_runs.bind (holdStream_runs.bind hServe)
  have hReturn : ∀ u, Runs host u (pure true : System Bool) true u := fun _ => .ret _ _
  exact ⟨_, hAttempt.bind (hCleanup.bind (hReturn _))⟩

/-- The runtime on the board. -/
def runtimeCommand : Command :=
  ⟨[greetingSettings.runner, greetingSettings.module], some (0, 3)⟩

theorem greeting_reaches : ∃ s, Reaches host emptyWorld (supervise 2 boardBuild greeting)
    (.spawn runtimeCommand) s := by
  have hFirst : host heldWorld .pipe (some (0, 1)) (heldWorld.piped 0 1) :=
    ⟨rfl, rfl, by decide, rfl⟩
  have hSecond : host (heldWorld.piped 0 1) .pipe (some (2, 3)) ((heldWorld.piped 0 1).piped 2 3) :=
    ⟨rfl, rfl, by decide, rfl⟩
  have hStart : Reaches host heldWorld
      (startFx greetingSettings.runner greetingSettings.module) (.spawn runtimeCommand)
      ((heldWorld.piped 0 1).piped 2 3) := .after _ hFirst (.after _ hSecond (.here ..))
  have hServe : Reaches host heldWorld (serve 2 boardBuild greeting (some ⟨0x3df00000, 0x100000⟩)
      (some ⟨0x3def0000, 0x10000⟩)) (.spawn runtimeCommand) ((heldWorld.piped 0 1).piped 2 3) := by
    unfold serve
    rw [greeting_prompt]
    exact reaches_second (.ret _ _ : Runs host heldWorld (awaitReady none) true heldWorld)
      (reaches_first hStart)
  exact ⟨_, reaches_first (reaches_second holdLaunch_runs (reaches_second holdStream_runs hServe))⟩

theorem supervise_lends_greeting : ∃ s, Reaches host emptyWorld (supervise 2 boardBuild greeting)
    (.spawn runtimeCommand) s ∧ ∃ held, Published boardBuild emptyWorld held s := by
  obtain ⟨s, hReaches⟩ := greeting_reaches
  exact ⟨s, hReaches, supervise_lends emptyWorld_fresh hReaches⟩

theorem supervise_speaks_greeting : ∃ s, Reaches host emptyWorld (supervise 2 boardBuild greeting)
    (.spawn runtimeCommand) s ∧ Speaks boardBuild greeting (.spawn runtimeCommand) s := by
  obtain ⟨s, hReaches⟩ := greeting_reaches
  exact ⟨s, hReaches, supervise_speaks emptyWorld_fresh hReaches⟩

theorem supervise_restores_greeting : ∃ t, Runs host emptyWorld (supervise 2 boardBuild greeting)
    true t ∧ Restored boardBuild emptyWorld t := by
  obtain ⟨t, hRun⟩ := greeting_runs
  exact ⟨t, hRun, (supervise_restores emptyWorld_fresh).2 true t hRun⟩

theorem supervise_shows_greeting : ∃ t, Runs host emptyWorld (supervise 2 boardBuild greeting)
    true t ∧ ∃ settings shown, ShowsAnswer boardBuild greeting settings shown t ∧
      RendersTranscript settings shown.transcript t := by
  obtain ⟨t, hRun⟩ := greeting_runs
  refine ⟨t, hRun, ((supervise_shows emptyWorld_fresh hRun).1 rfl).resolve_left ?_⟩
  rintro ⟨hHelp, _⟩
  cases hHelp

theorem supervise_handover_greeting : ∃ s linear stream arenas,
    Reaches host emptyWorld (supervise 2 boardBuild greeting) (.spawn runtimeCommand) s ∧
    s.env .launch = some linear ∧ s.env .stream = some stream ∧
    Runner.start Runner.boardReg linear stream = some arenas ∧ arenas.Separate := by
  obtain ⟨s, hReaches⟩ := greeting_reaches
  have hReg : (Runner.verifyReservedPsram Runner.boardReg).isSome = true := by decide
  obtain ⟨linear, stream, arenas, hLinear, hStream, hStarted, hSeparate, _⟩ :=
    supervise_handover emptyWorld_fresh hReaches hReg
  exact ⟨s, linear, stream, arenas, hReaches, hLinear, hStream, hStarted, hSeparate⟩

end Sample

end Esp32Fx.Eink.Supervisor
