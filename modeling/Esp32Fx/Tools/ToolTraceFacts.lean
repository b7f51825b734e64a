import Mathlib.Data.Bool.AllAny
import Esp32Fx.Lib.PyJsonText
import Esp32Fx.Tools.ToolTrace

/-! A line with a chunk of the agent's answer is no evidence.  The line of the diagnostics may be
several for `splitlines`: its start is a text that ends inside a string, what follows a break of the
answer's text has a backslash before every quote up to the one that closes it, and the whole of it,
if nothing breaks it, is a message that the audit passes over. -/

namespace Esp32Fx.Tools.ToolTrace

open Lib Lib.Py Lib.PyJson

variable {Number : Type} [DecidableEq Number] {number : List Char → Number}

/-- The audit passes over the line. -/
def Inert (number : List Char → Number) (line : List Char) : Prop :=
  ∀ s : Reads Number, readLine number s line = s

theorem inert_of_message {line : List Char}
    (h : ∀ message rest, line = acpPrefix ++ rest → loads rest = some message →
      ∀ s : Reads Number, (record number s message).getD s = s) : Inert number line := by
  intro s
  rw [readLine]
  split
  · next hStart =>
    obtain ⟨rest, rfl⟩ := hStart
    rw [List.drop_left]
    cases hLoads : loads rest with
    | none => rfl
    | some message => exact h message rest rfl hLoads s
  · rfl

theorem record_raises {message : Value} (h : get message (str "params") (.object []) = none)
    (s : Reads Number) : record number s message = none := by
  rw [record, h]
  rfl

/-- An update that is none of the two kinds changes nothing. -/
theorem record_other {message params update sessionUpdate : Value}
    (hParams : get message (str "params") (.object []) = some params)
    (hUpdate : get params (str "update") (.object []) = some update)
    (hKind : get update (str "sessionUpdate") .null = some sessionUpdate)
    (hCall : isStr sessionUpdate (str "tool_call") = false)
    (hDone : isStr sessionUpdate (str "tool_call_update") = false) (s : Reads Number) :
    (record number s message).getD s = s := by
  obtain ⟨members, rfl⟩ : ∃ members, update = .object members := by
    cases update with
    | object members => exact ⟨members, rfl⟩
    | null | bool | number | string | array => cases hKind
  simp only [record, hParams, hUpdate, hKind, Option.bind_eq_bind, Option.bind_some, hCall, hDone]
  rfl

/-- A message without members is no record. -/
theorem record_empty {message : Value} (h : ∀ members, message = .object members → members = [])
    (s : Reads Number) : (record number s message).getD s = s := by
  cases message with
  | object members =>
    obtain rfl := h members rfl
    exact record_other rfl rfl rfl rfl rfl s
  | null | bool | number | string | array =>
    rw [record_raises rfl]
    rfl

theorem acpPrefix_marks : ∀ c ∈ acpPrefix, c ≠ '"' ∧ c ≠ '\\' :=
  List.all_iff_forall_prop.mp (by decide)

theorem inert_of_stringless {line : List Char} (h : Stringless line) : Inert number line := by
  apply inert_of_message
  rintro message rest rfl hLoads
  apply record_empty
  rintro members rfl
  exact loads_stringless hLoads (stringless_invariant.append acpPrefix_marks h)

/-- A line that ends inside a string has no message. -/
theorem inert_of_quoting {line : List Char} (h : quoting line ≠ .outside) : Inert number line := by
  apply inert_of_message
  rintro message rest rfl hLoads
  have hPrefix := (quoting_invariant (quoting (acpPrefix ++ rest))).append acpPrefix_marks rfl
  exact absurd (hPrefix.symm.trans (loads_quoting hLoads)) h

theorem foldl_inert {all : List (List Char)} (h : ∀ line ∈ all, Inert number line)
    (s : Reads Number) : all.foldl (readLine number) s = s := by
  induction all with
  | nil => rfl
  | cons line all ih =>
    obtain ⟨hLine, hRest⟩ := List.forall_mem_cons.mp h
    rw [List.foldl_cons, hLine s, ih hRest]

/-! ### A chunk of the answer -/

/-- A `session/update` message with a chunk of the agent's answer, as it is written on one line, with
the text of the chunk last. -/
structure ChunkMessage where
  message : Layer
  params : Layer
  update : Layer
  content : Layer
  answer : Literal
  message_key : message.key.name.text = "params".toList
  params_key : params.key.name.text = "update".toList
  update_members : update.members.map (fun m => (m.key.name.text, m.value.text)) =
    [("sessionUpdate".toList, "agent_message_chunk".toList)]
  update_key : update.key.name.text = "content".toList
  content_members : content.members.map (fun m => (m.key.name.text, m.value.text)) =
    [("type".toList, "text".toList)]
  content_key : content.key.name.text = "text".toList

namespace ChunkMessage

def layers (m : ChunkMessage) : List Layer := [m.message, m.params, m.update, m.content]

/-- The line of the diagnostics. -/
def line (m : ChunkMessage) : List Char := acpPrefix ++ nest m.layers m.answer

end ChunkMessage

theorem get_last (members : List (Str × Value)) (key : Str) (v default : Value) :
    get (.object (members ++ [(key, v)])) key default = some v := by
  simp [get]

theorem plain_value {p : Plain} {s : List Char} (h : p.text = s) :
    p.value = joinSurrogates (s.map Char.toNat) := by
  rw [p.value_eq, h]

/-- The whole line is passed over. -/
theorem ChunkMessage.inert (m : ChunkMessage) (answer : Literal) :
    Inert number (acpPrefix ++ nest m.layers answer) := by
  apply inert_of_message
  intro message rest hLine hLoads s
  obtain rfl := List.append_cancel_left hLine
  rw [loads_nest] at hLoads
  obtain rfl := Option.some.inj hLoads
  have hMessage : m.message.key.name.value = str "params" := by
    rw [plain_value m.message_key]
    decide
  have hParams : m.params.key.name.value = str "update" := by
    rw [plain_value m.params_key]
    decide
  have hUpdate : m.update.key.name.value = str "content" := by
    rw [plain_value m.update_key]
    decide
  obtain ⟨kind, hMembers, hKind⟩ := List.map_eq_singleton_iff.mp m.update_members
  obtain ⟨hName, hValue⟩ := Prod.mk.inj hKind
  have hKindName : kind.key.name.value = str "sessionUpdate" := by
    rw [plain_value hName]
    decide
  have hKindValue : kind.value.value = str "agent_message_chunk" := by
    rw [plain_value hValue]
    decide
  have hGetParams : get (nested m.layers answer) (str "params") (.object []) =
      some (nested [m.params, m.update, m.content] answer) := by
    rw [← hMessage]
    exact get_last _ _ _ _
  have hGetUpdate : get (nested [m.params, m.update, m.content] answer) (str "update")
      (.object []) = some (nested [m.update, m.content] answer) := by
    rw [← hParams]
    exact get_last _ _ _ _
  have hGetKind : get (nested [m.update, m.content] answer) (str "sessionUpdate") .null =
      some (.string (str "agent_message_chunk")) := by
    have hOther : (str "sessionUpdate" == str "content") = false := by decide
    simp only [nested, List.foldr_cons, List.foldr_nil, Layer.object, hMembers, get, hUpdate,
      List.map_cons, List.map_nil, List.singleton_append, List.reverse_cons, List.reverse_nil,
      List.nil_append, List.lookup_cons, hOther, Member.pair, hKindName, hKindValue, beq_self_eq_true,
      Option.getD_some]
  exact record_other hGetParams hGetUpdate hGetKind (by decide) (by decide) s

/-! ### The line in pieces -/

/-- What stands in the line before the answer. -/
def ChunkMessage.start (m : ChunkMessage) : List Char := acpPrefix ++ head m.layers ++ ['"']

/-- What stands in the line behind the answer. -/
def ChunkMessage.finish (m : ChunkMessage) : List Char := '"' :: foot m.layers

/-- Whatever breaks off an answer behind the text, and whatever is left of it there, is passed
over. -/
def Covers (number : List Char → Number) (start finish : List Char) : Prop :=
  ∀ l : Literal, Inert number (start ++ l.text) ∧ Inert number (start ++ l.text ++ finish)

/-- Where a text and the start of a line cover their pieces, every line of a text with an answer in
it is passed over. -/
theorem linesFrom_inert {start finish : List Char} (hFinish : InOneLine finish)
    (hStart : Covers number start finish) (hAnew : Covers number [] finish) (done l : Literal) :
    ∀ line ∈ linesFrom (start ++ done.text) (l.text ++ (finish ++ ['\n'])), Inert number line := by
  induction l generalizing start done with
  | nil =>
    have hNil : Literal.text [] = [] := rfl
    intro line hMem
    rw [hNil, List.nil_append, linesFrom_run hFinish, linesFrom_feed_nil] at hMem
    obtain rfl := List.mem_singleton.mp hMem
    exact (hStart done).2
  | cons i l ih =>
    have hCons : Literal.text (i :: l) = i.text ++ Literal.text l := rfl
    rw [hCons, List.append_assoc]
    obtain ⟨c, hText, hBreak, hPrinted⟩ | hInLine := i.breaks
    · have hReturn : c ≠ '\r' := by
        rintro rfl
        exact absurd hPrinted (by decide)
      rw [hText, List.singleton_append,
        linesFrom_break hBreak fun _ hSame => absurd hSame hReturn]
      intro line hMem
      cases hMem with
      | head => exact (hStart done).1
      | tail _ hMem => exact ih hAnew [] line hMem
    · have hMore : start ++ done.text ++ i.text = start ++ Literal.text (done ++ [i]) := by
        simp [Literal.text]
      rw [linesFrom_run hInLine, hMore]
      exact ih hStart (done ++ [i])

theorem ChunkMessage.covers (m : ChunkMessage) : Covers number m.start m.finish := by
  intro l
  constructor
  · apply inert_of_quoting
    have hPrefix : quoting acpPrefix = .outside := by decide
    have hInside : quoting (m.start ++ l.text) = .inside := by
      have hHead : (head m.layers).foldl Quoting.next .outside = .outside := quoting_head m.layers
      rw [quoting] at hPrefix
      rw [quoting, start, List.foldl_append, List.foldl_append, List.foldl_append, hPrefix, hHead]
      exact literal_inside l
    rw [hInside]
    decide
  · have hLine : m.start ++ l.text ++ m.finish = acpPrefix ++ nest m.layers l := by
      simp [start, finish, nest]
    rw [hLine]
    exact m.inert l

theorem ChunkMessage.finish_covers (m : ChunkMessage) : Covers number [] m.finish := by
  intro l
  rw [List.nil_append]
  constructor
  · apply inert_of_stringless
    have h := literal_stringless l stringless_nil
    rwa [List.append_nil] at h
  · apply inert_of_stringless
    apply literal_stringless l (stringless_quote _)
    intro hMem
    obtain h | h | h := foot_marks m.layers _ hMem <;> cases h

theorem ChunkMessage.line_eq (m : ChunkMessage) :
    m.line = m.start ++ m.answer.text ++ m.finish := by
  simp [line, start, finish, nest]

theorem ChunkMessage.finish_inOneLine (m : ChunkMessage) : InOneLine m.finish := by
  intro c hMem
  obtain _ | ⟨_, hMem⟩ := hMem
  · decide
  · obtain rfl | rfl | rfl := foot_marks m.layers c hMem <;> decide

theorem ChunkMessage.start_inOneLine (m : ChunkMessage) : InOneLine m.start := by
  have hPrefix : InOneLine acpPrefix := List.all_iff_forall_prop.mp (by decide)
  have hQuote : InOneLine ['"'] := List.all_iff_forall_prop.mp (by decide)
  exact (hPrefix.append (head_inOneLine m.layers)).append hQuote

/-- Every line that the line of a chunk falls into is passed over. -/
theorem ChunkMessage.lines_inert (m : ChunkMessage) :
    ∀ line ∈ splitLines (m.line ++ ['\n']), Inert number line := by
  have hSplit : splitLines (m.line ++ ['\n']) =
      linesFrom (m.start ++ Literal.text []) (m.answer.text ++ (m.finish ++ ['\n'])) := by
    have hNil : Literal.text [] = [] := rfl
    rw [m.line_eq, splitLines, List.append_assoc, List.append_assoc,
      linesFrom_run m.start_inOneLine, List.nil_append, hNil, List.append_nil]
  rw [hSplit]
  exact linesFrom_inert m.finish_inOneLine m.covers m.finish_covers [] m.answer

/-! ### The calls -/

theorem callPattern_inLine : callPattern.InLine := by
  have hWords : IsLine "fx-tools: ".toList ∧ IsLine readProject ∧ IsLine replaceBattery ∧
      IsLine runTests ∧ IsLine " begin".toList := by
    decide
  obtain ⟨hStart, hRead, hReplace, hTests, hBegin⟩ := hWords
  exact ⟨trivial, hStart, ⟨hRead, hReplace, hTests⟩, hBegin, trivial⟩

theorem callPattern_inside (rest : List Char) : callPattern.run ⟨false, rest, []⟩ = [] := rfl

theorem ChunkMessage.isLine (m : ChunkMessage) : IsLine m.line := by
  intro hMem
  rw [m.line_eq, List.mem_append, List.mem_append] at hMem
  have hFeed : isLineBreak '\n' = true := by decide
  obtain (hMem | hMem) | hMem := hMem
  · exact absurd (m.start_inOneLine _ hMem) (by simp [hFeed])
  · obtain ⟨i, -, hItem⟩ := List.mem_flatMap.mp hMem
    obtain ⟨c, hText, -, hPrinted⟩ | hInLine := i.breaks
    · rw [hText, List.mem_singleton] at hItem
      subst hItem
      exact absurd hPrinted (by decide)
    · exact absurd (hInLine _ hItem) (by simp [hFeed])
  · exact absurd (m.finish_inOneLine _ hMem) (by simp [hFeed])

/-- A line of a message is no call. -/
theorem ChunkMessage.no_calls (m : ChunkMessage) : findall callPattern m.line = [] := by
  apply findall_none callPattern_inside m.isLine
  have hWord : ¬"fx-tools: ".toList <+: m.line := by
    intro hWord
    have hPrefix : acpPrefix <+: m.line := List.prefix_append _ _
    have hLength : "fx-tools: ".toList.length ≤ acpPrefix.length := by decide
    have hDiffer : ¬"fx-tools: ".toList <+: acpPrefix := by decide
    exact hDiffer (List.prefix_of_prefix_length_le hWord hPrefix hLength)
  simp only [callPattern, Pattern.run, if_true, List.flatMap_cons, List.flatMap_nil, if_neg hWord,
    List.append_nil]

/-- No answer is evidence: wherever a line with a chunk of it comes between the lines of a log, the
audit has the same result. -/
theorem auditToolTrace_insert (m : ChunkMessage) {before : List Char} (h : EndsLine before)
    (after : List Char) :
    auditToolTrace number (before ++ (m.line ++ '\n' :: after)) =
      auditToolTrace number (before ++ after) := by
  have hCalls : findall callPattern (before ++ (m.line ++ '\n' :: after)) =
      findall callPattern (before ++ after) := by
    rw [findall_append callPattern_inLine h, findall_append callPattern_inLine h,
      findall_line callPattern_inLine m.isLine, m.no_calls, List.nil_append]
  have hReads (s : Reads Number) :
      (splitLines (before ++ (m.line ++ '\n' :: after))).foldl (readLine number) s =
        (splitLines (before ++ after)).foldl (readLine number) s := by
    have hLine (s : Reads Number) :
        (splitLines (m.line ++ ['\n'])).foldl (readLine number) s = s :=
      foldl_inert m.lines_inert s
    have hFeed : EndsLine (m.line ++ ['\n']) := .inr List.getLast?_concat
    have hText : m.line ++ '\n' :: after = m.line ++ ['\n'] ++ after := by simp
    rw [hText, splitLines_append h, splitLines_append h, splitLines_append hFeed,
      List.foldl_append, List.foldl_append, List.foldl_append, hLine]
  rw [auditToolTrace, hCalls, hReads]
  rfl

/-- A word that a string holds as it is. -/
def plainWord (word : List Char) (h : word.all (fun c => (0x20 ≤ c.toNat ∧ c ≠ '"' ∧ c ≠ '\\') ∧
    isLineBreak c = false) = true) : Plain :=
  ⟨word, List.all_iff_forall_prop.mp h⟩

def noBlank : Blank := ⟨[], List.forall_mem_nil _⟩

/-- A key as `json.dumps` writes it behind a brace. -/
def compactKey (name : Plain) : Key where
  before := noBlank
  name := name
  afterName := noBlank
  afterColon := ⟨[' '], List.all_iff_forall_prop.mp (by decide)⟩

/-- A key as `json.dumps` writes it behind a comma. -/
def spacedKey (name : Plain) : Key := { compactKey name with
  before := ⟨[' '], List.all_iff_forall_prop.mp (by decide)⟩ }

/-- An answer with a line break of Unicode, and a quote behind it. -/
def sampleChunk : ChunkMessage where
  message := ⟨[], compactKey (plainWord "params".toList (by decide)), noBlank⟩
  params :=
    { members := [⟨compactKey (plainWord "sessionId".toList (by decide)),
        plainWord "a1".toList (by decide), noBlank⟩]
      key := spacedKey (plainWord "update".toList (by decide))
      after := noBlank }
  update :=
    { members := [⟨compactKey (plainWord "sessionUpdate".toList (by decide)),
        plainWord "agent_message_chunk".toList (by decide), noBlank⟩]
      key := spacedKey (plainWord "content".toList (by decide))
      after := noBlank }
  content :=
    { members := [⟨compactKey (plainWord "type".toList (by decide)),
        plainWord "text".toList (by decide), noBlank⟩]
      key := spacedKey (plainWord "text".toList (by decide))
      after := noBlank }
  answer := [.plain '\u2028' (by decide), .escape '"' 0x22 (by decide)]
  message_key := rfl
  params_key := rfl
  update_members := rfl
  update_key := rfl
  content_members := rfl
  content_key := rfl

example : nest [sampleChunk.content] sampleChunk.answer =
    "\x7b\"type\": \"text\", \"text\": \"\u2028\\\"\"\x7d".toList := by
  rw [String.toList_ofList]
  decide

theorem auditToolTrace_insert_sample :
    EndsLine "fx-tools: run_tests begin\n".toList ∧
      auditToolTrace id ("fx-tools: run_tests begin\n".toList ++ (sampleChunk.line ++
          '\n' :: "fx-tools: replace_battery begin\n".toList)) =
        auditToolTrace id ("fx-tools: run_tests begin\n".toList ++
          "fx-tools: replace_battery begin\n".toList) := by
  have hBefore : EndsLine "fx-tools: run_tests begin\n".toList := by decide
  exact ⟨hBefore, auditToolTrace_insert sampleChunk hBefore _⟩

end Esp32Fx.Tools.ToolTrace
