import Esp32Fx.Eink.Supervisor

/-! `read_until_id` line by line: the loop over what `getline` hands it is `readUntilId` on the
stream of these lines. -/

namespace Esp32Fx.Eink.Supervisor

open Lib Program

variable {bits : Nat} {n : Int} {raw rest line last : List UInt8} {lines : List (List UInt8)}
  {response after : Option TextBuffer} {s t : World} {ended : Bool}

/-- A line that `getline` hands out, with what may be behind it. -/
structure IsLine (raw : List UInt8) : Prop where
  nonempty : raw ≠ []
  single : 0x0a ∉ raw.dropLast

theorem getline_line (h : IsLine raw) (hRest : raw.getLast? ≠ some 0x0a → rest = []) :
    getline (raw ++ rest) = some (raw, rest) := by
  obtain ⟨body, b, rfl⟩ : ∃ body b, raw = body ++ [b] :=
    ⟨raw.dropLast, raw.getLast h.nonempty, (List.dropLast_concat_getLast h.nonempty).symm⟩
  have hBody : ∀ x ∈ body, decide (x ≠ 0x0a) = true := by
    intro x hx
    have hSingle := h.single
    rw [List.dropLast_concat] at hSingle
    exact decide_eq_true fun hNewline => hSingle (hNewline ▸ hx)
  have hNonempty : (body ++ [b] ++ rest).isEmpty = false := by simp
  rw [getline, hNonempty, List.append_assoc, List.dropWhile_append_of_pos hBody,
    List.takeWhile_append_of_pos hBody]
  by_cases hNewline : b = 0x0a
  · subst hNewline
    simp
  · obtain rfl := hRest (by simpa using hNewline)
    simp [hNewline]

/-- A round of the loop is the judgement of its line. -/
theorem readLoop_judge (h : IsLine raw) (hRest : raw.getLast? ≠ some 0x0a → rest = [])
    (rounds : Nat) (line : List UInt8) :
    (∀ after, judge bits n raw response = .inl after →
      readLoop bits n (rounds + 1) (raw ++ rest) line response =
        readLoop bits n rounds rest line after) ∧
    (∀ last after, judge bits n raw response = .inr (some (last, after)) →
      readLoop bits n (rounds + 1) (raw ++ rest) line response = ⟨true, rest, last, after⟩) ∧
    (judge bits n raw response = .inr none →
      (readLoop bits n (rounds + 1) (raw ++ rest) line response).ok = false) := by
  rw [readLoop, getline_line h hRest, judge]
  dsimp only
  by_cases hLong : raw.length > maxProtocolLineBytes
  · simp [hLong]
  rw [if_neg hLong, if_neg hLong]
  cases readChunk raw response with
  | none => simp
  | some after =>
    dsimp only
    cases jsonIntegerValue bits raw (ascii "id") with
    | invalid => simp
    | absent => simp
    | found id =>
      dsimp only
      by_cases hId : id = n
      · cases hError : (findJsonKey raw (ascii "error")).isSome with
        | false => simp [hId]
        | true => simp [hId]
      · simp [hId]

/-- The loop of `read_until_id` goes past some lines.  Once the stream has ended nothing is behind
them. -/
structure Passed (bits : Nat) (n : Int) (response : Option TextBuffer) (lines : List (List UInt8))
    (ended : Bool) (after : Option TextBuffer) : Prop where
  loop : ∀ rounds rest line, (ended = true → rest = []) →
    readLoop bits n (lines.length + rounds) (lines.flatten ++ rest) line response =
      readLoop bits n rounds rest line after
  length : lines.length ≤ lines.flatten.length

theorem Passed.nil (ended : Bool) : Passed bits n response [] ended response :=
  ⟨fun _ _ _ _ => by rw [List.length_nil, Nat.zero_add, List.flatten_nil, List.nil_append],
    Nat.le_refl _⟩

/-- One more line. -/
theorem Passed.next {later : Option TextBuffer} (h : Passed bits n response lines false after)
    (hLine : IsLine raw) (hJudge : judge bits n raw after = .inl later) :
    Passed bits n response (lines ++ [raw]) (decide (raw.getLast? ≠ some 0x0a)) later where
  loop rounds rest line hRest := by
    have hRound := (readLoop_judge hLine (fun hOpen => hRest (decide_eq_true hOpen)) rounds
      line).1 later hJudge
    rw [List.length_append, List.flatten_append, List.flatten_singleton, List.append_assoc,
      Nat.add_assoc, h.loop _ _ _ nofun, List.length_singleton, Nat.add_comm 1, hRound]
  length := by
    have hLength := h.length
    have hPositive := List.length_pos_iff.mpr hLine.nonempty
    simp only [List.length_append, List.flatten_append, List.flatten_singleton,
      List.length_singleton]
    omega

/-- What `readUntilId` makes of the stream of some lines, all of which it reads. -/
def Reads (bits : Nat) (lines : List (List UInt8)) (n : Int) (line : List UInt8)
    (response : Option TextBuffer) (last : List UInt8) (after : Option TextBuffer) : Prop :=
  readUntilId bits lines.flatten n line response = ⟨true, [], last, after⟩

/-- A chunk is collected only by a caller that has a buffer. -/
theorem readChunk_isSome (h : readChunk raw response = some after) :
    after.isSome = response.isSome := by
  unfold readChunk at h
  generalize jsonStringValue raw (ascii "sessionUpdate") = kind at h
  cases kind with
  | invalid => cases h
  | absent =>
    cases h
    rfl
  | found update =>
    cases response with
    | none =>
      cases h
      rfl
    | some buffer =>
      dsimp only at h
      split at h
      · split at h
        · cases h
        · cases h
          rfl
        · rw [Option.map_eq_some_iff] at h
          obtain ⟨grown, _, rfl⟩ := h
          rfl
      · cases h
        rfl

theorem readLoop_isSome (rounds : Nat) (output line : List UInt8) (response : Option TextBuffer) :
    (readLoop bits n rounds output line response).response.isSome = response.isSome := by
  induction rounds generalizing output response with
  | zero => rfl
  | succ rounds ih =>
    rw [readLoop]
    cases getline output with
    | none => rfl
    | some line =>
      obtain ⟨raw, rest⟩ := line
      dsimp only
      split
      · rfl
      cases hChunk : readChunk raw response with
      | none => rfl
      | some after =>
        have hSame := readChunk_isSome hChunk
        dsimp only
        cases jsonIntegerValue bits raw (ascii "id") with
        | invalid => exact hSame
        | absent => exact (ih ..).trans hSame
        | found id =>
          dsimp only
          split
          · split
            · exact hSame
            · exact hSame
          · exact (ih ..).trans hSame

theorem Reads.isSome (h : Reads bits lines n line response last after) :
    after.isSome = response.isSome := by
  have hSame : (readUntilId bits lines.flatten n line response).response.isSome =
    response.isSome := readLoop_isSome ..
  rwa [h] at hSame

/-- A read that does not come to a response. -/
def Fails (bits : Nat) (lines : List (List UInt8)) (n : Int) (line : List UInt8)
    (response : Option TextBuffer) : Prop :=
  (readUntilId bits lines.flatten n line response).ok = false

/-- The rounds of `readUntilId` behind some lines. -/
theorem Passed.readUntilId (h : Passed bits n response lines ended after) (rest : List UInt8)
    (hRest : ended = true → rest = []) (line : List UInt8) :
    ∃ rounds, readUntilId bits (lines.flatten ++ rest) n line response =
      readLoop bits n (rounds + 1) rest line after := by
  refine ⟨(lines.flatten ++ rest).length - lines.length, ?_⟩
  have hLength := h.length
  have hRounds : (lines.flatten ++ rest).length + 1 =
      lines.length + ((lines.flatten ++ rest).length - lines.length + 1) := by
    rw [List.length_append]
    omega
  rw [Eink.readUntilId, hRounds, h.loop _ _ _ hRest]

/-- The last line is the response. -/
theorem Passed.reads (h : Passed bits n response lines false after) (hLine : IsLine raw)
    {later : Option TextBuffer} (hJudge : judge bits n raw after = .inr (some (last, later)))
    (line : List UInt8) : Reads bits (lines ++ [raw]) n line response last later := by
  obtain ⟨rounds, hRounds⟩ := h.readUntilId raw nofun line
  have hRound := (readLoop_judge hLine (fun _ => rfl) rounds line).2.1 last later hJudge
  rw [List.append_nil] at hRound
  rw [Reads, List.flatten_append, List.flatten_singleton, hRounds, hRound]

theorem Passed.fails (h : Passed bits n response lines false after) (hLine : IsLine raw)
    (hJudge : judge bits n raw after = .inr none) (line : List UInt8) :
    Fails bits (lines ++ [raw]) n line response := by
  obtain ⟨rounds, hRounds⟩ := h.readUntilId raw nofun line
  have hRound := (readLoop_judge hLine (fun _ => rfl) rounds line).2.2 hJudge
  rw [List.append_nil] at hRound
  rw [Fails, List.flatten_append, List.flatten_singleton, hRounds, hRound]

theorem Passed.fails_end (h : Passed bits n response lines ended after) (line : List UInt8) :
    Fails bits lines n line response := by
  obtain ⟨rounds, hRounds⟩ := h.readUntilId [] (fun _ => rfl) line
  rw [List.append_nil] at hRounds
  rw [Fails, hRounds, readLoop]
  rfl

/-! ### The loop -/

/-- The world after some lines of the runtime. -/
def World.heard (s : World) (lines : List (List UInt8)) (ended : Bool) : World :=
  { s with exchanged := s.exchanged ++ lines.map .received, ended := ended }

theorem World.heard_nil (s : World) : s.heard [] s.ended = s := by simp [World.heard]

/-- A line is handed out. -/
theorem host_receive {output : Nat} (h : host (s.heard lines ended) (.receive output) (some raw) t) :
    ended = false ∧ IsLine raw ∧ t = s.heard (lines ++ [raw]) (decide (raw.getLast? ≠ some 0x0a)) := by
  obtain ⟨hOpen, hNonempty, hSingle, rfl⟩ := h
  refine ⟨hOpen, ⟨hNonempty, hSingle⟩, ?_⟩
  simp [World.heard]

/-- What a run of `read_until_id` comes to: the lines that it has read, and what `readUntilId` makes
of them. -/
def Heard (bits : Nat) (n : Int) (response : Option TextBuffer) (s : World)
    (r : Option (List UInt8 × Option TextBuffer)) (t : World) : Prop :=
  ∃ lines ended, t = s.heard lines ended ∧
    match r with
    | none => ∀ line, Fails bits lines n line response
    | some (last, after) => ∀ line, Reads bits lines n line response last after

theorem readUntil_keeps {P : Call → World → Prop} {output : Nat}
    (hP : ∀ lines ended, P (.receive output) (s.heard lines ended)) (hHang : ∀ s, P .hang s)
    (rounds : Nat) (response : Option TextBuffer) :
    (readUntil rounds bits output n response).Keeps host (wholeCalls host) (fun _ => True) P
      (Heard bits n response s) s := by
  have hBody : ∀ after t, (∃ lines ended, t = s.heard lines ended ∧
      Passed bits n response lines ended after) →
      (readRound bits output n after).Keeps host (wholeCalls host) (fun _ => True) P
        (Round (fun after t => ∃ lines ended, t = s.heard lines ended ∧
          Passed bits n response lines ended after) (Heard bits n response s)) t := by
    rintro after _ ⟨lines, ended, rfl, hPassed⟩
    refine keeps_perform_bind trivial (hP lines ended) ?_
    rintro (_ | raw) t hCall
    · obtain rfl : t = s.heard lines ended := hCall
      exact ⟨trivial, lines, ended, rfl, hPassed.fails_end⟩
    · obtain ⟨rfl, hLine, rfl⟩ := host_receive hCall
      refine ⟨trivial, ?_⟩
      cases hJudge : judge bits n raw after with
      | inl later => exact ⟨_, _, rfl, hPassed.next hLine hJudge⟩
      | inr r =>
        cases r with
        | none => exact ⟨_, _, rfl, hPassed.fails hLine hJudge⟩
        | some r => exact ⟨_, _, rfl, hPassed.reads hLine hJudge⟩
  refine keeps_loop hBody ?_ rounds ⟨[], s.ended, s.heard_nil.symm, .nil _⟩
  intro after t _
  exact keeps_call trivial (hHang t) fun x => x.elim

end Esp32Fx.Eink.Supervisor
