import Esp32Fx.Native.SinkFacts
import Esp32Fx.Native.Streams

/-! Runs of deliveries to one sink.  A sink that owns its buffer starts with a limit for `cap` and no
block; from the first block on, `cap` is the size of the block.  The limit is asked for at once, so
the two agree in every run. -/

namespace Esp32Fx.Native

open Lib

variable {cfg : Config} {libc : Nat → Bool} {borrowedBytes : Option Nat}

/-- A sink, the buffers, and the chunks that the sink has accepted, in order. -/
structure SinkState where
  sink : ByteSink
  bufs : Buffers
  accepted : List Chunk

/-- Whether `write_body` accepts a chunk: it raises no overflow on a sink without one. -/
def accepts (cfg : Config) (libc : Nat → Bool) (chunk : Chunk) (sink : ByteSink)
    (bufs : Buffers) : Bool :=
  !(writeBody cfg libc chunk { sink with overflow := false } bufs).2.1.overflow

/-- One call of `write_body`. -/
def deliver (cfg : Config) (libc : Nat → Bool) (chunk : Chunk) (w : SinkState) : SinkState where
  sink := (writeBody cfg libc chunk w.sink w.bufs).2.1
  bufs := (writeBody cfg libc chunk w.sink w.bufs).2.2
  accepted := if accepts cfg libc chunk w.sink w.bufs then w.accepted ++ [chunk] else w.accepted

/-- The runs of deliveries to a sink as `fx_http_stream_open_wrapper` sets it up, over a lent buffer
of `borrowedBytes` or without one.  Other blocks may be in use. -/
def sinkSystem (cfg : Config) (libc : Nat → Bool) (borrowedBytes : Option Nat) :
    System SinkState Chunk where
  Start w := w.sink = openSink cfg borrowedBytes ∧ w.accepted = [] ∧ w.bufs.Numbered ∧
    ∀ length, borrowedBytes = some length →
      w.bufs.borrowed.length = length ∧ length ≤ cfg.sizeMax
  Step w chunk w' := w' = deliver cfg libc chunk w

/-- The bytes that a sink may hold: the length of the lent buffer, or the limit of a stream. -/
def capacity (cfg : Config) (borrowedBytes : Option Nat) : Nat :=
  borrowedBytes.getD cfg.maxStreamBytes

/-- The bytes of memory behind a pointer. -/
def Buffers.allocated (bufs : Buffers) : Pointer → Nat
  | .null => 0
  | .borrowed => bufs.borrowed.length
  | .heap id => ((bufs.heap id).map HeapBlock.size).getD 0

/-! ### One delivery -/

section Delivery

variable {chunk : Chunk} {sink : ByteSink} {bufs : Buffers}

/-- A chunk fits what is left of the capacity, and there is memory for it if the sink needs any. -/
def Fits (libc : Nat → Bool) (chunk : Chunk) (sink : ByteSink) (bufs : Buffers) : Prop :=
  sink.len + chunk.size * chunk.nmemb ≤ sink.cap ∧
    (sink.owned = true → 0 < sink.len + chunk.size * chunk.nmemb → libc bufs.attempts = true)

/-- A chunk that does not fit leaves the sink as it is, but for the flag, and every block. -/
theorem writeBody_rejected (h : SinkOk cfg bufs sink) (hFits : ¬Fits libc chunk sink bufs) :
    ∃ attempts, writeBody cfg libc chunk sink bufs =
      (0, { sink with overflow := true }, { bufs with attempts := attempts }) := by
  have hCap := h.len_cap
  unfold writeBody
  split
  · exact ⟨bufs.attempts, rfl⟩
  simp only
  split
  · exact ⟨bufs.attempts, rfl⟩
  next hRoom =>
  have hMemory : ¬(sink.owned = true → 0 < sink.len + chunk.size * chunk.nmemb →
      libc bufs.attempts = true) := fun hMemory => hFits ⟨by omega, hMemory⟩
  have hOwned : sink.owned = true := by
    by_contra hLent
    exact hMemory fun hOwned => absurd hOwned hLent
  have hWanted : sink.len + chunk.size * chunk.nmemb > 0 := by
    by_contra hZero
    exact hMemory fun _ hPos => absurd hPos hZero
  have hLibc : ¬libc bufs.attempts = true := fun hLibc => hMemory fun _ _ => hLibc
  rw [if_pos ⟨hOwned, hWanted⟩]
  refine ⟨bufs.attempts + 1, ?_⟩
  simp only [Buffers.realloc, if_neg hLibc]

/-- A chunk that fits is counted whole, and the flag stays as it is. -/
theorem writeBody_accepted (h : SinkOk cfg bufs sink) (hFits : Fits libc chunk sink bufs) :
    (writeBody cfg libc chunk sink bufs).1 = chunk.size * chunk.nmemb ∧
      (writeBody cfg libc chunk sink bufs).2.1.overflow = sink.overflow := by
  obtain ⟨hRoom, hMemory⟩ := hFits
  have hMax := h.cap_max
  have hProduct : ¬(chunk.size ≠ 0 ∧ chunk.nmemb > cfg.sizeMax / chunk.size) := by
    rintro ⟨hSize, hNmemb⟩
    have hLarge := (Nat.div_lt_iff_lt_mul (Nat.pos_of_ne_zero hSize)).mp hNmemb
    rw [Nat.mul_comm] at hLarge
    omega
  rw [writeBody, if_neg hProduct]
  simp only
  rw [if_neg (by omega : ¬chunk.size * chunk.nmemb > sink.cap - sink.len)]
  split
  · next hOwned =>
    have hLibc := hMemory hOwned.1 hOwned.2
    simp only [Buffers.realloc, hLibc, if_true, and_self]
  · exact ⟨rfl, rfl⟩

/-- `write_body` accepts the chunks that fit. -/
theorem accepts_iff (libc : Nat → Bool) (chunk : Chunk) (h : SinkOk cfg bufs sink) :
    accepts cfg libc chunk sink bufs = true ↔ Fits libc chunk sink bufs := by
  have hClear : SinkOk cfg bufs { sink with overflow := false } := { h with }
  rw [accepts, Bool.not_eq_true']
  refine ⟨fun hFlag => ?_, fun hFits => (writeBody_accepted hClear hFits).2⟩
  by_contra hFits
  obtain ⟨attempts, hRejected⟩ : ∃ attempts, writeBody cfg libc chunk
      { sink with overflow := false } bufs = (0, _, { bufs with attempts := attempts }) :=
    writeBody_rejected hClear hFits
  rw [hRejected] at hFlag
  cases hFlag

end Delivery

/-! ### The invariant -/

/-- A sink after some deliveries: `cap` is the capacity from the start, and the size of the memory
behind the pointer as soon as there is any. -/
structure Delivered (cfg : Config) (borrowedBytes : Option Nat) (w : SinkState) : Prop where
  sinkOk : SinkOk cfg w.bufs w.sink
  owned : w.sink.owned = borrowedBytes.isNone
  cap : w.sink.cap = capacity cfg borrowedBytes
  backed : w.sink.bytes = .null ∨ w.bufs.allocated w.sink.bytes = w.sink.cap
  holds : buffered w.bufs w.sink = w.accepted.flatMap Chunk.contents

variable {w : SinkState}

theorem Delivered.start (hSink : w.sink = openSink cfg borrowedBytes) (hAccepted : w.accepted = [])
    (hNumbered : w.bufs.Numbered) (hLent : ∀ length, borrowedBytes = some length →
      w.bufs.borrowed.length = length ∧ length ≤ cfg.sizeMax) : Delivered cfg borrowedBytes w := by
  obtain ⟨sink, bufs, accepted⟩ := w
  simp only at hSink hAccepted hNumbered hLent
  subst hSink hAccepted
  cases borrowedBytes with
  | none =>
    refine ⟨⟨hNumbered, Nat.zero_le _, cfg.maxStreamBytes_le, Nat.zero_le _, ?_, ?_⟩, rfl, rfl,
      .inl rfl, rfl⟩
    · intro hOwned
      cases hOwned
    · exact fun _ => ⟨Nat.le_refl _, .inl rfl⟩
  | some length =>
    obtain ⟨hLength, hMax⟩ := hLent length rfl
    refine ⟨⟨hNumbered, Nat.zero_le _, hMax, Nat.zero_le _, fun _ => rfl, ?_⟩, rfl, rfl,
      .inr hLength, rfl⟩
    intro hOwned
    cases hOwned

theorem Buffers.allocated_realloc {bufs moved : Buffers} {p q : Pointer} {next : Nat}
    (h : bufs.realloc libc p next = (some q, moved)) : moved.allocated q = next := by
  unfold Buffers.realloc at h
  simp only at h
  split at h
  · cases h
    simp [Buffers.allocated]
  · cases h

theorem Buffers.allocated_copyTo {bufs : Buffers} {p : Pointer} {offset : Nat}
    {contents : List UInt8} (h : offset + contents.length ≤ bufs.allocated p) :
    (bufs.copyTo p offset contents).allocated p = bufs.allocated p := by
  cases p with
  | null => rfl
  | borrowed =>
    simp only [Buffers.allocated] at h
    simp only [Buffers.allocated, Buffers.copyTo, List.length_append, List.length_take,
      List.length_drop]
    omega
  | heap id => exact congrArg (·.getD 0) (Buffers.copyTo_size bufs _ offset contents id)

/-- The first block that a sink asks for has the size of the limit, and so has every later one. -/
theorem writeBody_backed (libc : Nat → Bool) (chunk : Chunk) {sink : ByteSink} {bufs : Buffers}
    (h : SinkOk cfg bufs sink) (hLimit : sink.owned = true → sink.cap = cfg.maxStreamBytes)
    (hBacked : sink.bytes = .null ∨ bufs.allocated sink.bytes = sink.cap) :
    (writeBody cfg libc chunk sink bufs).2.1.cap = sink.cap ∧
      ((writeBody cfg libc chunk sink bufs).2.1.bytes = .null ∨
        (writeBody cfg libc chunk sink bufs).2.2.allocated
          (writeBody cfg libc chunk sink bufs).2.1.bytes =
            (writeBody cfg libc chunk sink bufs).2.1.cap) := by
  have hEnd := writeBody_end libc chunk h
  generalize writeBody cfg libc chunk sink bufs = outcome at hEnd
  cases hEnd with
  | refused hFull => exact ⟨rfl, hBacked⟩
  | exhausted hOwned hLibc =>
    refine ⟨rfl, hBacked.imp_right fun hSize => Eq.trans ?_ hSize⟩
    cases sink.bytes <;> rfl
  | grown next moved hOwned hCap hRoom hNext hMoved =>
    have hSize := Buffers.allocated_realloc hMoved
    have hSame : next = sink.cap := by
      have := hLimit hOwned
      omega
    refine ⟨hSame, .inr ?_⟩
    rw [← hSize] at hRoom
    exact (Buffers.allocated_copyTo hRoom).trans hSize
  | inPlace hRoom hPlace =>
    refine ⟨rfl, hBacked.imp_right fun hSize => ?_⟩
    rw [← hSize] at hRoom
    exact (Buffers.allocated_copyTo hRoom).trans hSize

theorem Delivered.step (h : Delivered cfg borrowedBytes w) (chunk : Chunk) :
    Delivered cfg borrowedBytes (deliver cfg libc chunk w) := by
  have hWrote := writeBody_wrote libc chunk h.sinkOk
  have hLimit : w.sink.owned = true → w.sink.cap = cfg.maxStreamBytes := by
    intro hOwned
    have hNone := h.owned.symm.trans hOwned
    rw [Option.isNone_iff_eq_none] at hNone
    rw [h.cap, hNone]
    rfl
  obtain ⟨hCap, hBacked⟩ := writeBody_backed libc chunk h.sinkOk hLimit h.backed
  refine ⟨hWrote.sinkOk, hWrote.owned.trans h.owned, hCap.trans h.cap, hBacked, ?_⟩
  refine hWrote.buffered.trans ?_
  rw [h.holds]
  have hAccepts := accepts_iff libc chunk h.sinkOk
  by_cases hFits : Fits libc chunk w.sink w.bufs
  · have hCount := (writeBody_accepted h.sinkOk hFits).1
    rw [← chunk.length_contents] at hCount
    rw [if_pos hCount, deliver, if_pos (hAccepts.mpr hFits), List.flatMap_append,
      List.flatMap_singleton]
  · obtain ⟨attempts, hRejected⟩ := writeBody_rejected h.sinkOk hFits
    rw [deliver, if_neg fun h => hFits (hAccepts.mp h), hRejected]
    -- a rejected chunk of length 0 is counted whole too
    split
    · next hZero => rw [List.length_eq_zero_iff.mp hZero.symm, List.append_nil]
    · rw [List.append_nil]

theorem delivered_reachable (h : (sinkSystem cfg libc borrowedBytes).Reachable w) :
    Delivered cfg borrowedBytes w := by
  refine h.invariant ?_ ?_
  · rintro w ⟨hSink, hAccepted, hNumbered, hLent⟩
    exact .start hSink hAccepted hNumbered hLent
  · rintro w chunk w' hw rfl
    exact hw.step chunk

theorem Delivered.length (h : Delivered cfg borrowedBytes w) :
    w.sink.len = (w.accepted.flatMap Chunk.contents).length := by
  rw [← h.holds, buffered, List.length_take, Nat.min_eq_left h.sinkOk.len_read]

theorem Delivered.len_allocated (h : Delivered cfg borrowedBytes w) :
    w.sink.len ≤ w.bufs.allocated w.sink.bytes := by
  rcases h.backed with hNull | hSize
  · have hRead := h.sinkOk.len_read
    rw [hNull] at hRead
    exact Nat.le_trans hRead (Nat.zero_le _)
  · rw [hSize]
    exact h.sinkOk.len_cap

/-- After any deliveries the sink holds the accepted chunks, one behind the other, within its memory
and within the limit, and the next chunk is accepted when it fits what the sink has left and its
`realloc`, if it needs one, succeeds; otherwise the flag is raised and nothing else changes. -/
theorem writeBody_deliveries (h : (sinkSystem cfg libc borrowedBytes).Reachable w) :
    (w.bufs.read w.sink.bytes).take w.sink.len = w.accepted.flatMap Chunk.contents ∧
    w.sink.len = (w.accepted.flatMap Chunk.contents).length ∧
    w.sink.len ≤ w.bufs.allocated w.sink.bytes ∧
    (∀ length, borrowedBytes = some length →
      w.sink.owned = false ∧ w.sink.bytes = .borrowed ∧ w.sink.len ≤ length) ∧
    (borrowedBytes = none → w.sink.owned = true ∧ w.sink.len ≤ cfg.maxStreamBytes) ∧
    ∀ chunk,
      (accepts cfg libc chunk w.sink w.bufs = true ↔
        chunk.size * chunk.nmemb ≤ capacity cfg borrowedBytes - w.sink.len ∧
          (w.sink.owned = true → 0 < w.sink.len + chunk.size * chunk.nmemb →
            libc w.bufs.attempts = true)) ∧
      (accepts cfg libc chunk w.sink w.bufs = true →
        (writeBody cfg libc chunk w.sink w.bufs).1 = chunk.size * chunk.nmemb ∧
        (deliver cfg libc chunk w).sink.overflow = w.sink.overflow ∧
        (deliver cfg libc chunk w).accepted = w.accepted ++ [chunk]) ∧
      (accepts cfg libc chunk w.sink w.bufs = false →
        (writeBody cfg libc chunk w.sink w.bufs).1 = 0 ∧
        (deliver cfg libc chunk w).sink = { w.sink with overflow := true } ∧
        (deliver cfg libc chunk w).bufs.borrowed = w.bufs.borrowed ∧
        (deliver cfg libc chunk w).bufs.heap = w.bufs.heap ∧
        (deliver cfg libc chunk w).accepted = w.accepted) := by
  have hw := delivered_reachable h
  have hLen : w.sink.len ≤ capacity cfg borrowedBytes := hw.cap ▸ hw.sinkOk.len_cap
  refine ⟨hw.holds, hw.length, hw.len_allocated, ?_, ?_, fun chunk => ⟨?_, ?_, ?_⟩⟩
  · rintro length rfl
    exact ⟨hw.owned, hw.sinkOk.lent hw.owned, hLen⟩
  · rintro rfl
    exact ⟨hw.owned, hLen⟩
  · rw [accepts_iff _ _ hw.sinkOk, Fits, hw.cap]
    have hRoom : w.sink.len + chunk.size * chunk.nmemb ≤ capacity cfg borrowedBytes ↔
        chunk.size * chunk.nmemb ≤ capacity cfg borrowedBytes - w.sink.len := by omega
    rw [hRoom]
  · intro hAccepts
    obtain ⟨hCount, hFlag⟩ := writeBody_accepted hw.sinkOk ((accepts_iff _ _ hw.sinkOk).mp hAccepts)
    exact ⟨hCount, hFlag, if_pos hAccepts⟩
  · intro hAccepts
    have hFits : ¬Fits libc chunk w.sink w.bufs := by
      rw [← accepts_iff _ _ hw.sinkOk, hAccepts]
      exact Bool.false_ne_true
    obtain ⟨attempts, hRejected⟩ := writeBody_rejected hw.sinkOk hFits
    simp [deliver, hRejected, hAccepts]

/-- A sink of the board that has taken two bytes and then a chunk without any. -/
def twoBytes : SinkState :=
  [.ofBytes [0x68, 0x69], .ofBytes []].foldl (fun w chunk => deliver board (fun _ => true) chunk w)
    ⟨openSink board none, .initial [], []⟩

theorem writeBody_deliveries_two :
    (twoBytes.bufs.read twoBytes.sink.bytes).take twoBytes.sink.len = [0x68, 0x69] ∧
      accepts board (fun _ => true) (.ofBytes [0x21]) twoBytes.sink twoBytes.bufs = true := by
  have hStart : (sinkSystem board (fun _ => true) none).Reachable
      ⟨openSink board none, .initial [], []⟩ :=
    .start ⟨rfl, rfl, Buffers.initial_numbered [], fun _ h => absurd h (by simp)⟩
  have hRun : (sinkSystem board (fun _ => true) none).Reachable twoBytes :=
    (hStart.step rfl).step rfl
  obtain ⟨hHolds, hLength, -, -, -, hNext⟩ := writeBody_deliveries hRun
  have hAccepted : twoBytes.accepted.flatMap Chunk.contents = [0x68, 0x69] := by decide
  rw [hAccepted] at hHolds hLength
  refine ⟨hHolds, (hNext _).1.mpr ⟨?_, fun _ _ => rfl⟩⟩
  rw [hLength]
  decide

end Esp32Fx.Native
