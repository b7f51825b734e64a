import Esp32Fx.Lib.Json
import Esp32Fx.Native.Sink

/-! What `write_body` does to a sink and to the buffers: it appends the chunk to the bytes that the
sink has buffered or leaves them as they are, and it reaches no other buffer. -/

namespace Esp32Fx.Native

open Lib

variable {cfg : Config} {libc : Nat → Bool} {chunk : Chunk} {sink : ByteSink} {bufs : Buffers}

namespace Buffers

/-- Blocks are numbered by the calls of `realloc` so far. -/
def Numbered (bufs : Buffers) : Prop := ∀ id, bufs.heap id ≠ none → id < bufs.attempts

theorem initial_numbered (borrowed : List UInt8) : (initial borrowed).Numbered :=
  fun _ h => absurd rfl h

@[simp] theorem copyTo_attempts (p : Pointer) (offset : Nat) (contents : List UInt8) :
    (bufs.copyTo p offset contents).attempts = bufs.attempts := by
  cases p <;> rfl

@[simp] theorem copyTo_released (p : Pointer) (offset : Nat) (contents : List UInt8) :
    (bufs.copyTo p offset contents).released = bufs.released := by
  cases p <;> rfl

theorem copyTo_nil (p : Pointer) (offset : Nat) : bufs.copyTo p offset [] = bufs := by
  cases p with
  | null => rfl
  | borrowed => simp [copyTo]
  | heap id =>
    have hSame : (fun block : HeapBlock =>
        { block with bytes := block.bytes.take offset ++ [] ++ block.bytes.drop (offset + 0) }) =
        fun block => block := by
      funext block
      simp
    simp only [copyTo, List.length_nil, hSame, Option.map_id', Function.update_eq_self]

theorem copyTo_size (bufs : Buffers) (p : Pointer) (offset : Nat) (contents : List UInt8)
    (id : Nat) :
    ((bufs.copyTo p offset contents).heap id).map HeapBlock.size =
      (bufs.heap id).map HeapBlock.size := by
  cases p with
  | null => rfl
  | borrowed => rfl
  | heap k =>
    by_cases hid : id = k
    · subst hid
      simp only [copyTo, Function.update_self, Option.map_map]
      rfl
    · simp [copyTo, Function.update_of_ne hid]

theorem copyTo_heap_eq_none {p : Pointer} {offset id : Nat} {contents : List UInt8} :
    (bufs.copyTo p offset contents).heap id = none ↔ bufs.heap id = none := by
  have hSize := copyTo_size bufs p offset contents id
  refine ⟨fun hNone => ?_, fun hNone => ?_⟩
  · rw [hNone] at hSize
    simpa using hSize.symm
  · rw [hNone] at hSize
    simpa using hSize

theorem copyTo_heap_of_ne {p : Pointer} {id : Nat} (h : p ≠ .heap id) (offset : Nat)
    (contents : List UInt8) : (bufs.copyTo p offset contents).heap id = bufs.heap id := by
  cases p with
  | null => rfl
  | borrowed => rfl
  | heap k =>
    have hne : id ≠ k := fun hid => h (by rw [hid])
    simp [copyTo, Function.update_of_ne hne]

theorem copyTo_borrowed_of_ne {p : Pointer} (h : p ≠ .borrowed) (offset : Nat)
    (contents : List UInt8) : (bufs.copyTo p offset contents).borrowed = bufs.borrowed := by
  cases p with
  | null => rfl
  | borrowed => exact absurd rfl h
  | heap k => rfl

/-- A copy to the end of the first `offset` bytes behind a pointer. -/
theorem take_read_copyTo {p : Pointer} {offset : Nat} (contents : List UInt8)
    (hValid : offset ≤ (bufs.read p).length)
    (hSome : contents ≠ [] → p = .borrowed ∨ ∃ id, p = .heap id ∧ bufs.heap id ≠ none) :
    ((bufs.copyTo p offset contents).read p).take (offset + contents.length) =
      (bufs.read p).take offset ++ contents := by
  have hList : ∀ bytes : List UInt8, offset ≤ bytes.length →
      (bytes.take offset ++ contents ++ bytes.drop (offset + contents.length)).take
        (offset + contents.length) = bytes.take offset ++ contents := by
    intro bytes hLength
    exact List.take_left' (by simp; omega)
  by_cases hEmpty : contents = []
  · subst hEmpty
    rw [copyTo_nil]
    simp
  rcases hSome hEmpty with rfl | ⟨id, rfl, hLive⟩
  · exact hList _ hValid
  · obtain ⟨block, hBlock⟩ := Option.ne_none_iff_exists'.mp hLive
    simp only [read, hBlock, Option.map_some, Option.getD_some] at hValid
    simp only [read, copyTo, Function.update_self, hBlock, Option.map_some, Option.getD_some]
    exact hList _ hValid

end Buffers

/-! ### The capacity that `write_body` asks for -/

theorem growStream_ge {wanted : Nat} (hWanted : wanted ≤ cfg.maxStreamBytes) {rounds next : Nat}
    (hNext : 0 < next) (hRounds : wanted ≤ next + rounds) :
    wanted ≤ growStream cfg wanted rounds next := by
  induction rounds generalizing next with
  | zero => exact hRounds
  | succ rounds ih =>
    rw [growStream]
    split
    · split
      · exact hWanted
      · exact ih (by omega) (by omega)
    · omega

theorem nextCapacity_eq (cap wanted : Nat) : nextCapacity cfg cap wanted =
    min (growStream cfg wanted wanted (if cap < 4096 then 4096 else cap)) cfg.maxStreamBytes := by
  simp only [nextCapacity]
  generalize growStream cfg wanted wanted (if cap < 4096 then 4096 else cap) = next
  split <;> omega

theorem nextCapacity_ge {cap wanted : Nat} (hWanted : wanted ≤ cfg.maxStreamBytes) :
    wanted ≤ nextCapacity cfg cap wanted := by
  have hGrow : wanted ≤ growStream cfg wanted wanted (if cap < 4096 then 4096 else cap) :=
    growStream_ge hWanted (by split <;> omega) (by omega)
  rw [nextCapacity_eq]
  omega

theorem nextCapacity_le (cap wanted : Nat) : nextCapacity cfg cap wanted ≤ cfg.maxStreamBytes := by
  rw [nextCapacity_eq]
  omega

theorem growStream_start (cfg : Config) (wanted rounds next : Nat) :
    min next cfg.maxStreamBytes ≤ growStream cfg wanted rounds next := by
  induction rounds generalizing next with
  | zero => exact Nat.min_le_left _ _
  | succ rounds ih =>
    rw [growStream]
    split
    · split
      · exact Nat.min_le_right _ _
      · have := ih (next * 2)
        omega
    · exact Nat.min_le_left _ _

/-- A sink never shrinks. -/
theorem nextCapacity_ge_cap {cap : Nat} (hCap : cap ≤ cfg.maxStreamBytes) (wanted : Nat) :
    cap ≤ nextCapacity cfg cap wanted := by
  have hBase : cap ≤ if cap < 4096 then 4096 else cap := by split <;> omega
  rw [nextCapacity_eq]
  generalize (if cap < 4096 then 4096 else cap) = base at hBase ⊢
  have hStart := growStream_start cfg wanted wanted base
  omega

/-! ### `write_body` -/

/-- A sink whose first `len` bytes are buffered behind its pointer, with room for `cap`: in the lent
buffer, or in a block of its own once there is one. -/
structure SinkOk (cfg : Config) (bufs : Buffers) (sink : ByteSink) : Prop where
  numbered : bufs.Numbered
  len_cap : sink.len ≤ sink.cap
  cap_max : sink.cap ≤ cfg.sizeMax
  len_read : sink.len ≤ (bufs.read sink.bytes).length
  lent : sink.owned = false → sink.bytes = .borrowed
  own : sink.owned = true → sink.cap ≤ cfg.maxStreamBytes ∧
    (sink.bytes = .null ∨ ∃ id, sink.bytes = .heap id ∧ bufs.heap id ≠ none)

/-- The bytes that a sink has buffered. -/
def buffered (bufs : Buffers) (sink : ByteSink) : List UInt8 := (bufs.read sink.bytes).take sink.len

/-- The ways in which a call of `write_body` ends. -/
inductive WriteEnd (cfg : Config) (libc : Nat → Bool) (chunk : Chunk) (sink : ByteSink)
    (bufs : Buffers) : Nat × ByteSink × Buffers → Prop
  /-- No room: nothing happens. -/
  | refused (hFull : sink.cap < sink.len + chunk.contents.length ∨
      cfg.sizeMax < chunk.contents.length) :
    WriteEnd cfg libc chunk sink bufs (0, { sink with overflow := true }, bufs)
  /-- `realloc` fails. -/
  | exhausted (hOwned : sink.owned = true) (hLibc : libc bufs.attempts = false) :
    WriteEnd cfg libc chunk sink bufs
      (0, { sink with overflow := true }, { bufs with attempts := bufs.attempts + 1 })
  /-- The chunk goes to a new block that takes over the bytes of the old one. -/
  | grown (next : Nat) (moved : Buffers) (hOwned : sink.owned = true) (hCap : sink.cap ≤ next)
    (hRoom : sink.len + chunk.contents.length ≤ next) (hNext : next ≤ cfg.maxStreamBytes)
    (hMoved : bufs.realloc libc sink.bytes next = (some (.heap bufs.attempts), moved)) :
    WriteEnd cfg libc chunk sink bufs
      (chunk.contents.length,
        { sink with
          bytes := .heap bufs.attempts, cap := next, len := sink.len + chunk.contents.length },
        moved.copyTo (.heap bufs.attempts) sink.len chunk.contents)
  /-- The chunk goes to the buffer that is there. -/
  | inPlace (hRoom : sink.len + chunk.contents.length ≤ sink.cap)
    (hPlace : sink.owned = false ∨ chunk.contents = []) :
    WriteEnd cfg libc chunk sink bufs
      (chunk.contents.length, { sink with len := sink.len + chunk.contents.length },
        bufs.copyTo sink.bytes sink.len chunk.contents)

theorem writeBody_end (libc : Nat → Bool) (chunk : Chunk) (h : SinkOk cfg bufs sink) :
    WriteEnd cfg libc chunk sink bufs (writeBody cfg libc chunk sink bufs) := by
  have hLength := chunk.length_contents
  have hCopy : ∀ (b : Buffers) (p : Pointer),
      (if chunk.size * chunk.nmemb ≠ 0 then b.copyTo p sink.len chunk.contents else b) =
        b.copyTo p sink.len chunk.contents := by
    intro b p
    by_cases hZero : chunk.size * chunk.nmemb = 0
    · have hEmpty : chunk.contents = [] := List.length_eq_zero_iff.mp (by omega)
      rw [hEmpty, if_neg (fun h => h hZero), Buffers.copyTo_nil]
    · rw [if_pos hZero]
  have hCap := h.len_cap
  unfold writeBody
  split
  · next hOverflow =>
    refine .refused (.inr ?_)
    rw [hLength, Nat.mul_comm]
    exact (Nat.div_lt_iff_lt_mul (Nat.pos_of_ne_zero hOverflow.1)).mp hOverflow.2
  simp only
  split
  · next hFull =>
    exact .refused (.inl (by omega))
  next hRoom =>
  simp only [hCopy]
  rw [← hLength]
  split
  · next hOwn =>
    obtain ⟨hMax, -⟩ := h.own hOwn.1
    by_cases hLibc : libc bufs.attempts = true
    · have hMoved : ∀ n, ∃ moved,
          bufs.realloc libc sink.bytes n = (some (.heap bufs.attempts), moved) :=
        fun n => ⟨_, by simp only [Buffers.realloc, hLibc, if_true]; rfl⟩
      obtain ⟨moved, hEq⟩ := hMoved (nextCapacity cfg sink.cap (sink.len + chunk.contents.length))
      rw [hEq]
      exact .grown _ _ hOwn.1 (nextCapacity_ge_cap hMax _) (nextCapacity_ge (by omega))
        (nextCapacity_le _ _) hEq
    · have hFail : ∀ n, bufs.realloc libc sink.bytes n =
          (none, { bufs with attempts := bufs.attempts + 1 }) := fun n => by
        simp [Buffers.realloc, hLibc]
      rw [hFail]
      exact .exhausted hOwn.1 (by simpa using hLibc)
  · next hPlace =>
    refine .inPlace (by omega) ?_
    by_cases hOwned : sink.owned = true
    · right
      have hZero : ¬sink.len + chunk.contents.length > 0 := fun hPos => hPlace ⟨hOwned, hPos⟩
      exact List.length_eq_zero_iff.mp (by omega)
    · exact .inl (by simpa using hOwned)

/-- What a successful `realloc` leaves. -/
structure Moved (bufs : Buffers) (p : Pointer) (next : Nat) (moved : Buffers) : Prop where
  read : moved.read (.heap bufs.attempts) = (bufs.read p).take next
  live : moved.heap bufs.attempts ≠ none
  attempts : moved.attempts = bufs.attempts + 1
  borrowed : moved.borrowed = bufs.borrowed
  others : ∀ id, id ≠ bufs.attempts → p ≠ .heap id → moved.heap id = bufs.heap id
  numbered : moved.Numbered

theorem realloc_moved {p q : Pointer} {next : Nat} {moved : Buffers} (hNumbered : bufs.Numbered)
    (h : bufs.realloc libc p next = (some q, moved)) : Moved bufs p next moved := by
  unfold Buffers.realloc at h
  simp only at h
  split at h
  · cases h
    have hOthers : ∀ id, id ≠ bufs.attempts → p ≠ .heap id →
        (Function.update (({ bufs with attempts := bufs.attempts + 1 } : Buffers).free p).heap
          bufs.attempts (some ⟨next, (bufs.read p).take next⟩)) id = bufs.heap id := by
      intro id hne hp
      rw [Function.update_of_ne hne]
      cases p with
      | null => rfl
      | borrowed => rfl
      | heap k =>
        have hk : id ≠ k := fun hid => hp (by rw [hid])
        simp [Buffers.free, Function.update_of_ne hk]
    refine ⟨by simp [Buffers.read], by simp, by cases p <;> rfl, by cases p <;> rfl, hOthers, ?_⟩
    intro id hid
    have hAttempts : ∀ b : Buffers, (b.free p).attempts = b.attempts := fun b => by cases p <;> rfl
    show id < (({ bufs with attempts := bufs.attempts + 1 } : Buffers).free p).attempts
    rw [hAttempts]
    show id < bufs.attempts + 1
    by_cases hne : id = bufs.attempts
    · omega
    · have hLive : bufs.heap id ≠ none := by
        intro hNone
        refine hid ((Function.update_of_ne hne _ _).trans ?_)
        cases p with
        | null => exact hNone
        | borrowed => exact hNone
        | heap k =>
          by_cases hk : id = k
          · subst hk
            simp [Buffers.free]
          · simpa [Buffers.free, Function.update_of_ne hk] using hNone
      have := hNumbered id hLive
      omega
  · cases h

/-- A call of `write_body` appends the chunk or nothing to the buffered bytes, and changes no block
but the sink's own. -/
structure Wrote (cfg : Config) (chunk : Chunk) (sink : ByteSink) (bufs : Buffers) (count : Nat)
    (sink' : ByteSink) (bufs' : Buffers) : Prop where
  sinkOk : SinkOk cfg bufs' sink'
  owned : sink'.owned = sink.owned
  buffered : buffered bufs' sink' =
    buffered bufs sink ++ if count = chunk.contents.length then chunk.contents else []
  attempts : bufs.attempts ≤ bufs'.attempts
  heap : ∀ id, id < bufs.attempts → sink.bytes ≠ .heap id → bufs'.heap id = bufs.heap id
  pointer : sink'.bytes = sink.bytes ∨ ∃ id, sink'.bytes = .heap id ∧ bufs.attempts ≤ id
  borrowed : sink.owned = true → bufs'.borrowed = bufs.borrowed

theorem Buffers.copyTo_numbered {p : Pointer} {offset : Nat} {contents : List UInt8}
    (h : bufs.Numbered) : (bufs.copyTo p offset contents).Numbered := by
  intro id hid
  rw [Buffers.copyTo_attempts]
  exact h id fun hNone => hid (Buffers.copyTo_heap_eq_none.mpr hNone)

namespace Wrote

/-- A rejected chunk leaves everything but the flag and the count of the calls. -/
theorem rejected (h : SinkOk cfg bufs sink) (chunk : Chunk) {attempts : Nat}
    (hAttempts : bufs.attempts ≤ attempts) :
    Wrote cfg chunk sink bufs 0 { sink with overflow := true }
      { bufs with attempts := attempts } := by
  have hNumbered : ({ bufs with attempts := attempts } : Buffers).Numbered :=
    fun id hid => Nat.lt_of_lt_of_le (h.numbered id hid) hAttempts
  have hRead : ∀ p, ({ bufs with attempts := attempts } : Buffers).read p = bufs.read p :=
    fun p => by cases p <;> rfl
  refine ⟨⟨hNumbered, h.len_cap, h.cap_max, ?_, h.lent, h.own⟩, rfl, ?_, hAttempts,
    fun _ _ _ => rfl, .inl rfl, fun _ => rfl⟩
  · rw [hRead]
    exact h.len_read
  · simp only [Native.buffered, hRead]
    split
    · next hZero => rw [List.length_eq_zero_iff.mp hZero.symm, List.append_nil]
    · rw [List.append_nil]

/-- A chunk behind the bytes that a new block has taken over. -/
theorem grown (h : SinkOk cfg bufs sink) {next : Nat} {moved : Buffers}
    (hOwned : sink.owned = true) (hRoom : sink.len + chunk.contents.length ≤ next)
    (hNext : next ≤ cfg.maxStreamBytes)
    (hMoved : bufs.realloc libc sink.bytes next = (some (.heap bufs.attempts), moved)) :
    Wrote cfg chunk sink bufs chunk.contents.length
      { sink with
        bytes := .heap bufs.attempts, cap := next, len := sink.len + chunk.contents.length }
      (moved.copyTo (.heap bufs.attempts) sink.len chunk.contents) := by
  have hMove := realloc_moved h.numbered hMoved
  have hRead := h.len_read
  have hLength : sink.len ≤ (moved.read (.heap bufs.attempts)).length := by
    rw [hMove.read, List.length_take]
    omega
  have hTake := Buffers.take_read_copyTo chunk.contents hLength
    fun _ => .inr ⟨_, rfl, hMove.live⟩
  have hPrefix : (moved.read (.heap bufs.attempts)).take sink.len =
      (bufs.read sink.bytes).take sink.len := by
    rw [hMove.read, List.take_take, Nat.min_eq_left (by omega)]
  have hMax : next ≤ cfg.sizeMax := Nat.le_trans hNext cfg.maxStreamBytes_le
  have hSame : ∀ id, id ≠ bufs.attempts →
      (moved.copyTo (.heap bufs.attempts) sink.len chunk.contents).heap id = moved.heap id :=
    fun id hne => Buffers.copyTo_heap_of_ne (fun hp => hne (by injection hp with hp; exact hp.symm))
      _ _
  refine ⟨⟨Buffers.copyTo_numbered hMove.numbered, hRoom, hMax, ?_,
    fun hLent => absurd (hLent.symm.trans hOwned) (by decide), fun _ => ⟨hNext, .inr ⟨_, rfl, ?_⟩⟩⟩,
    rfl, ?_, ?_, ?_, .inr ⟨_, rfl, Nat.le_refl _⟩, ?_⟩
  · have hCount := congrArg List.length hTake
    simp only [List.length_take, List.length_append] at hCount
    simp only
    omega
  · exact fun hNone => hMove.live (Buffers.copyTo_heap_eq_none.mp hNone)
  · simp only [Native.buffered, hTake, hPrefix, if_true]
  · rw [Buffers.copyTo_attempts, hMove.attempts]
    omega
  · intro id hid hp
    rw [hSame id (by omega), hMove.others id (by omega) hp]
  · intro _
    rw [Buffers.copyTo_borrowed_of_ne (by simp), hMove.borrowed]

/-- A chunk behind the bytes that are there. -/
theorem inPlace (h : SinkOk cfg bufs sink) (hRoom : sink.len + chunk.contents.length ≤ sink.cap)
    (hPlace : sink.owned = false ∨ chunk.contents = []) :
    Wrote cfg chunk sink bufs chunk.contents.length
      { sink with len := sink.len + chunk.contents.length }
      (bufs.copyTo sink.bytes sink.len chunk.contents) := by
  have hSome : chunk.contents ≠ [] →
      sink.bytes = .borrowed ∨ ∃ id, sink.bytes = .heap id ∧ bufs.heap id ≠ none := by
    intro hne
    rcases hPlace with hLent | hEmpty
    · exact .inl (h.lent hLent)
    · exact absurd hEmpty hne
  have hTake := Buffers.take_read_copyTo chunk.contents h.len_read hSome
  have hRead := h.len_read
  refine ⟨⟨Buffers.copyTo_numbered h.numbered, hRoom, h.cap_max, ?_, h.lent, ?_⟩, rfl, ?_, ?_, ?_,
    .inl rfl, ?_⟩
  · have hCount := congrArg List.length hTake
    simp only [List.length_take, List.length_append] at hCount
    simp only
    omega
  · intro hOwned
    obtain ⟨hCap, hPointer⟩ := h.own hOwned
    refine ⟨hCap, hPointer.imp_right ?_⟩
    rintro ⟨id, hId, hLive⟩
    exact ⟨id, hId, fun hNone => hLive (Buffers.copyTo_heap_eq_none.mp hNone)⟩
  · simp only [Native.buffered, hTake, if_true]
  · rw [Buffers.copyTo_attempts]
  · intro id hid hp
    exact Buffers.copyTo_heap_of_ne hp _ _
  · intro hOwned
    rcases hPlace with hLent | hEmpty
    · exact absurd (hLent.symm.trans hOwned) (by decide)
    · rw [hEmpty, Buffers.copyTo_nil]

end Wrote

theorem writeBody_wrote (libc : Nat → Bool) (chunk : Chunk) (h : SinkOk cfg bufs sink) :
    Wrote cfg chunk sink bufs (writeBody cfg libc chunk sink bufs).1
      (writeBody cfg libc chunk sink bufs).2.1 (writeBody cfg libc chunk sink bufs).2.2 := by
  have hEnd := writeBody_end libc chunk h
  generalize writeBody cfg libc chunk sink bufs = outcome at hEnd
  cases hEnd with
  | refused hFull => exact .rejected h chunk (Nat.le_refl _)
  | exhausted hOwned hLibc => exact .rejected h chunk (Nat.le_succ _)
  | grown next moved hOwned hCap hRoom hNext hMoved =>
    exact .grown h hOwned hRoom hNext hMoved
  | inPlace hRoom hPlace => exact .inPlace h hRoom hPlace

/-! ### Appending with room to spare -/

/-- A sink has room for `n` more bytes, and `realloc` succeeds when the sink needs it. -/
def Room (libc : Nat → Bool) (sink : ByteSink) (n : Nat) : Prop :=
  sink.len + n ≤ sink.cap ∧ (sink.owned = true → ∀ k, libc k = true)

/-- A call succeeded and appended `bytes`. -/
structure Appended (cfg : Config) (sink : ByteSink) (bufs : Buffers) (bytes : List UInt8)
    (outcome : Bool × ByteSink × Buffers) : Prop where
  succeeded : outcome.1 = true
  sinkOk : SinkOk cfg outcome.2.2 outcome.2.1
  buffered : buffered outcome.2.2 outcome.2.1 = buffered bufs sink ++ bytes
  owned : outcome.2.1.owned = sink.owned
  len : outcome.2.1.len = sink.len + bytes.length
  cap : sink.cap ≤ outcome.2.1.cap

theorem Appended.room {bytes : List UInt8} {outcome : Bool × ByteSink × Buffers} {n : Nat}
    (h : Appended cfg sink bufs bytes outcome) (hRoom : Room libc sink (bytes.length + n)) :
    Room libc outcome.2.1 n := by
  have hLen := h.len
  have hCap := h.cap
  have hSum := hRoom.1
  exact ⟨by omega, fun hOwned => hRoom.2 (h.owned ▸ hOwned)⟩

theorem Appended.trans {bytes bytes' : List UInt8} {outcome outcome' : Bool × ByteSink × Buffers}
    (h : Appended cfg sink bufs bytes outcome)
    (h' : Appended cfg outcome.2.1 outcome.2.2 bytes' outcome') :
    Appended cfg sink bufs (bytes ++ bytes') outcome' where
  succeeded := h'.succeeded
  sinkOk := h'.sinkOk
  buffered := by rw [h'.buffered, h.buffered, List.append_assoc]
  owned := h'.owned.trans h.owned
  len := by rw [h'.len, h.len, List.length_append, Nat.add_assoc]
  cap := Nat.le_trans h.cap h'.cap

theorem sinkAppend_appended {bytes : List UInt8} (h : SinkOk cfg bufs sink) (hNonempty : bytes ≠ [])
    (hRoom : Room libc sink bytes.length) :
    Appended cfg sink bufs bytes (sinkAppend cfg libc bytes sink bufs) := by
  have hEnd := writeBody_end libc (.ofBytes bytes) h
  have hWrote := writeBody_wrote libc (.ofBytes bytes) h
  have hZero : ¬bytes.length = 0 := fun h0 => hNonempty (List.length_eq_zero_iff.mp h0)
  have hSum := hRoom.1
  have hMax := h.cap_max
  rw [sinkAppend, if_neg hZero]
  generalize writeBody cfg libc (.ofBytes bytes) sink bufs = outcome at hEnd hWrote
  have hCount : outcome.1 = bytes.length ∧ outcome.2.1.len = sink.len + bytes.length ∧
      sink.cap ≤ outcome.2.1.cap := by
    cases hEnd with
    | refused hFull =>
      simp only [Chunk.ofBytes] at hFull
      omega
    | exhausted hOwned hLibc => exact absurd ((hRoom.2 hOwned _).symm.trans hLibc) (by decide)
    | grown next moved hOwned hCap hRoom hNext hMoved => exact ⟨rfl, rfl, hCap⟩
    | inPlace hRoom hPlace => exact ⟨rfl, rfl, Nat.le_refl _⟩
  obtain ⟨count, sink', bufs'⟩ := outcome
  simp only at hCount
  have hBuffered := hWrote.buffered
  rw [if_pos (by exact hCount.1)] at hBuffered
  exact ⟨by simpa using hCount.1, hWrote.sinkOk, hBuffered, hWrote.owned, hCount.2.1, hCount.2.2⟩

theorem escaped_hex (n : Fin 32) :
    (if UInt8.ofNat n >>> 4 < 10 then (0x30 : UInt8) + UInt8.ofNat n >>> 4
      else (0x61 : UInt8) + UInt8.ofNat n >>> 4 - 10) = hexLower (n / 16) ∧
    (if UInt8.ofNat n &&& 0x0f < 10 then (0x30 : UInt8) + (UInt8.ofNat n &&& 0x0f)
      else (0x61 : UInt8) + (UInt8.ofNat n &&& 0x0f) - 10) = hexLower (n % 16) := by
  revert n
  decide

/-- `sink_append_json_string` escapes a byte as its item. -/
theorem escaped_eq (b : UInt8) : escaped b = (Json.encodeByte b).text := by
  unfold escaped Json.encodeByte
  repeat' split
  all_goals first
    | rfl
    | skip
  · next h₁ h₂ _ _ _ _ _ hLow h =>
    simp only [UInt8.lt_iff_toNat_lt, UInt8.le_iff_toNat_le] at hLow h
    exact absurd h.1 (by omega)
  · next h₁ h₂ _ _ _ _ _ hLow h =>
    simp only [UInt8.lt_iff_toNat_lt] at hLow
    have hHex := escaped_hex ⟨b.toNat, hLow⟩
    simp only [UInt8.ofNat_toNat] at hHex
    have hHigh : b.toNat / 16 < 16 := by
      have := b.toNat_lt
      omega
    simp only [hHex.1, hHex.2, Json.Item.text, Json.HexDigit.lower, Fin.ofNat,
      Nat.mod_eq_of_lt hHigh, Nat.mod_mod]
    rfl
  · next h₁ h₂ _ _ _ _ _ hLow h =>
    refine absurd ⟨?_, h₁, h₂⟩ h
    simp only [UInt8.lt_iff_toNat_lt, UInt8.le_iff_toNat_le] at hLow ⊢
    omega

theorem escaped_ne_nil (b : UInt8) : escaped b ≠ [] := by
  rw [escaped_eq]
  cases Json.encodeByte b <;> simp [Json.Item.text]

theorem sinkAppendEscaped_appended {value : List UInt8} (hNul : (0 : UInt8) ∉ value)
    (h : SinkOk cfg bufs sink)
    (hRoom : Room libc sink ((Json.encode value).flatMap Json.Item.text ++ [0x22]).length) :
    Appended cfg sink bufs ((Json.encode value).flatMap Json.Item.text ++ [0x22])
      (sinkAppendEscaped cfg libc value sink bufs) := by
  induction value generalizing sink bufs with
  | nil => exact sinkAppend_appended h (by simp) hRoom
  | cons ch value ih =>
    simp only [List.mem_cons, not_or] at hNul
    have hText : (Json.encode (ch :: value)).flatMap Json.Item.text ++ [0x22] =
        escaped ch ++ ((Json.encode value).flatMap Json.Item.text ++ [0x22]) := by
      rw [escaped_eq, Json.encode_cons, List.flatMap_cons, List.append_assoc]
    rw [hText] at hRoom ⊢
    rw [List.length_append] at hRoom
    have hFirst : Room libc sink (escaped ch).length := ⟨by have := hRoom.1; omega, hRoom.2⟩
    have hAppended := sinkAppend_appended h (escaped_ne_nil ch) hFirst
    rw [sinkAppendEscaped, if_neg (Ne.symm hNul.1)]
    generalize hOutcome : sinkAppend cfg libc (escaped ch) sink bufs = outcome at hAppended
    obtain ⟨ok, sink', bufs'⟩ := outcome
    obtain rfl : ok = true := hAppended.succeeded
    exact hAppended.trans (ih hNul.2 hAppended.sinkOk (hAppended.room hRoom))

/-- `sink_append_json_string` appends the literal of its value. -/
theorem sinkAppendJsonString_appended {value : List UInt8} (hNul : (0 : UInt8) ∉ value)
    (h : SinkOk cfg bufs sink) (hRoom : Room libc sink (Json.encode value).text.length) :
    Appended cfg sink bufs (Json.encode value).text
      (sinkAppendJsonString cfg libc value sink bufs) := by
  have hText : (Json.encode value).text =
      [0x22] ++ ((Json.encode value).flatMap Json.Item.text ++ [0x22]) := rfl
  rw [hText] at hRoom ⊢
  rw [List.length_append] at hRoom
  have hFirst : Room libc sink ([0x22] : List UInt8).length := ⟨by have := hRoom.1; omega, hRoom.2⟩
  have hAppended := sinkAppend_appended h (by simp) hFirst
  rw [sinkAppendJsonString]
  generalize hOutcome : sinkAppend cfg libc [0x22] sink bufs = outcome at hAppended
  obtain ⟨ok, sink', bufs'⟩ := outcome
  obtain rfl : ok = true := hAppended.succeeded
  exact hAppended.trans
    (sinkAppendEscaped_appended hNul hAppended.sinkOk (hAppended.room hRoom))

end Esp32Fx.Native
