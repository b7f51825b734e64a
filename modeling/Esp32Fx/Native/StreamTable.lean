import Esp32Fx.Native.StreamFacts

/-! Who frees the buffers of the streams.  Every block that `realloc` obtains is either live or was
released once, and a live block belongs to the sink of the open that runs or to one slot; so a
`deinit` after any run of calls leaves nothing allocated and nothing freed twice. -/

namespace Esp32Fx.Native

open Lib

variable {cfg : Config} {libc : Nat → Bool} {s : NativeState} {client : Client}

/-- `init_native_lib`. -/
def initNativeLib (s : NativeState) : NativeState := { s with streams := fun _ => .zero }

/-- A round of the loop of `deinit_native_lib`. -/
def deinitSlot (s : NativeState) (i : Fin maxStreams) : NativeState :=
  { s with
    streams := Function.update s.streams i .zero
    bufs := if (s.streams i).owned then s.bufs.free (s.streams i).bytes else s.bufs }

/-- `deinit_native_lib`. -/
def deinitNativeLib (s : NativeState) : NativeState :=
  { (List.finRange maxStreams).foldl deinitSlot s with borrowedBytes := none }

/-- `realloc` has obtained the block. -/
def Obtained (libc : Nat → Bool) (bufs : Buffers) (id : Nat) : Prop :=
  id < bufs.attempts ∧ libc id = true

instance (bufs : Buffers) (id : Nat) : Decidable (Obtained libc bufs id) :=
  inferInstanceAs (Decidable (_ ∧ _))

/-- Every block that was obtained is live or was released once, and nothing else was released. -/
structure Accounted (libc : Nat → Bool) (bufs : Buffers) : Prop where
  once : ∀ id, bufs.released.count (.heap id) + (if (bufs.heap id).isSome then 1 else 0) =
    if Obtained libc bufs id then 1 else 0
  only : ∀ p ∈ bufs.released, ∃ id, p = .heap id

/-- Nothing is allocated, and all that was obtained before has been released once. -/
structure Idle (cfg : Config) (libc : Nat → Bool) (s : NativeState) : Prop where
  accounted : Accounted libc s.bufs
  heap : ∀ id, s.bufs.heap id = none
  borrowed : ∀ length, s.borrowedBytes = some length →
    s.bufs.borrowed.length = length ∧ length ≤ cfg.sizeMax

/-! ### Operations on the buffers -/

namespace Accounted

variable {bufs : Buffers}

theorem initial (libc : Nat → Bool) (borrowed : List UInt8) :
    Accounted libc (.initial borrowed) :=
  ⟨fun id => by simp [Buffers.initial, Obtained], fun p hp => by cases hp⟩

theorem count_le (h : Accounted libc bufs) (id : Nat) : bufs.released.count (.heap id) ≤ 1 := by
  have hOnce := h.once id
  split at hOnce <;> split at hOnce <;> omega

theorem released_nodup (h : Accounted libc bufs) : bufs.released.Nodup := by
  apply List.nodup_iff_count.mpr
  intro p
  by_cases hp : p ∈ bufs.released
  · obtain ⟨id, rfl⟩ := h.only p hp
    exact h.count_le id
  · rw [List.count_eq_zero_of_not_mem hp]
    exact Nat.zero_le 1

theorem borrowed_not_mem (h : Accounted libc bufs) : Pointer.borrowed ∉ bufs.released := by
  intro hp
  obtain ⟨id, hid⟩ := h.only _ hp
  cases hid

/-- A live block has not been released. -/
theorem not_released (h : Accounted libc bufs) {id : Nat} (hLive : bufs.heap id ≠ none) :
    Pointer.heap id ∉ bufs.released := by
  have hOnce := h.once id
  rw [if_pos (Option.isSome_iff_ne_none.mpr hLive)] at hOnce
  apply List.count_eq_zero.mp
  split at hOnce <;> omega

theorem copyTo (h : Accounted libc bufs) (p : Pointer) (offset : Nat) (contents : List UInt8) :
    Accounted libc (bufs.copyTo p offset contents) := by
  constructor
  · intro id
    have hSize := congrArg Option.isSome (Buffers.copyTo_size bufs p offset contents id)
    simp only [Option.isSome_map] at hSize
    simp only [Obtained, Buffers.copyTo_released, Buffers.copyTo_attempts, hSize]
    exact h.once id
  · rw [Buffers.copyTo_released]
    exact h.only

theorem free_null (h : Accounted libc bufs) : Accounted libc (bufs.free .null) := h

theorem free_heap (h : Accounted libc bufs) {id : Nat} (hLive : bufs.heap id ≠ none) :
    Accounted libc (bufs.free (.heap id)) := by
  constructor
  · intro k
    have hOnce := h.once k
    show (bufs.released ++ [Pointer.heap id]).count (.heap k) +
      (if (Function.update bufs.heap id none k).isSome then 1 else 0) =
        if Obtained libc bufs k then 1 else 0
    by_cases hk : k = id
    · subst hk
      rw [if_pos (Option.isSome_iff_ne_none.mpr hLive)] at hOnce
      simpa using hOnce
    · have hne : Pointer.heap id ≠ .heap k := fun hp => hk (by injection hp with hp; exact hp.symm)
      rw [Function.update_of_ne hk, List.count_append, List.count_singleton, beq_false_of_ne hne]
      exact hOnce
  · intro p hp
    rcases List.mem_append.mp hp with hp | hp
    · exact h.only p hp
    · exact ⟨id, List.mem_singleton.mp hp⟩

/-- A call of `realloc` that fails. -/
theorem attempt (h : Accounted libc bufs) (hLibc : libc bufs.attempts = false) :
    Accounted libc { bufs with attempts := bufs.attempts + 1 } := by
  refine ⟨fun id => ?_, h.only⟩
  have hSame : Obtained libc { bufs with attempts := bufs.attempts + 1 } id ↔
      Obtained libc bufs id := by
    constructor
    · rintro ⟨hId, hTrue⟩
      refine ⟨?_, hTrue⟩
      have hne : id ≠ bufs.attempts := by
        rintro rfl
        exact absurd (hLibc.symm.trans hTrue) (by decide)
      simp only at hId
      omega
    · rintro ⟨hId, hTrue⟩
      exact ⟨Nat.lt_succ_of_lt hId, hTrue⟩
  simp only [hSame]
  exact h.once id

/-- A fresh block. -/
theorem obtain_block (h : Accounted libc bufs) (hLibc : libc bufs.attempts = true)
    (block : HeapBlock) :
    Accounted libc
      { bufs with
        attempts := bufs.attempts + 1
        heap := Function.update bufs.heap bufs.attempts (some block) } := by
  refine ⟨fun id => ?_, h.only⟩
  have hOnce := h.once id
  by_cases hid : id = bufs.attempts
  · subst hid
    have hBefore : ¬Obtained libc bufs bufs.attempts := fun hBefore => Nat.lt_irrefl _ hBefore.1
    have hAfter : Obtained libc { bufs with
        attempts := bufs.attempts + 1
        heap := Function.update bufs.heap bufs.attempts (some block) } bufs.attempts :=
      ⟨Nat.lt_succ_self _, hLibc⟩
    simp only [hBefore, if_false] at hOnce
    simp only [hAfter, Function.update_self, Option.isSome_some, if_true]
    omega
  · have hSame : Obtained libc { bufs with
        attempts := bufs.attempts + 1
        heap := Function.update bufs.heap bufs.attempts (some block) } id ↔
        Obtained libc bufs id := by
      have hLt : id < bufs.attempts + 1 ↔ id < bufs.attempts := by omega
      simp only [Obtained, hLt]
    simpa only [Function.update_of_ne hid, hSame] using hOnce

/-- What a pointer must be to be freed: null, or a live block. -/
def Freeable (bufs : Buffers) (p : Pointer) : Prop :=
  p = .null ∨ ∃ id, p = .heap id ∧ bufs.heap id ≠ none

theorem free (h : Accounted libc bufs) {p : Pointer} (hp : Freeable bufs p) :
    Accounted libc (bufs.free p) := by
  rcases hp with rfl | ⟨id, rfl, hLive⟩
  · exact h.free_null
  · exact h.free_heap hLive

theorem realloc (h : Accounted libc bufs) {p q : Pointer} (hp : Freeable bufs p) {size : Nat}
    {moved : Buffers} (hMoved : bufs.realloc libc p size = (some q, moved)) :
    Accounted libc moved := by
  simp only [Buffers.realloc] at hMoved
  split at hMoved
  · next hLibc =>
    cases hMoved
    have hFreed := h.free hp
    have hObtained := hFreed.obtain_block (by cases p <;> exact hLibc)
      ⟨size, (bufs.read p).take size⟩
    cases p <;> exact hObtained
  · cases hMoved

end Accounted

/-! ### An exchange -/

/-- The live blocks are those in `kept` and the sink's own. -/
structure SinkLedger (libc : Nat → Bool) (kept : Nat → Prop) (sink : ByteSink) (bufs : Buffers) :
    Prop where
  accounted : Accounted libc bufs
  live : ∀ id, bufs.heap id ≠ none → kept id ∨ sink.bytes = .heap id

variable {kept : Nat → Prop} {sink : ByteSink} {bufs : Buffers}

theorem SinkLedger.copyTo (h : SinkLedger libc kept sink bufs) (p : Pointer) (offset : Nat)
    (contents : List UInt8) : SinkLedger libc kept sink (bufs.copyTo p offset contents) := by
  refine ⟨h.accounted.copyTo p offset contents, fun id hLive => h.live id fun hNone => hLive ?_⟩
  have hSize := Buffers.copyTo_size bufs p offset contents id
  rw [hNone] at hSize
  simpa using hSize

/-- A block that was freed is not live. -/
theorem Buffers.free_heap_self (bufs : Buffers) (id : Nat) :
    (bufs.free (.heap id)).heap id = none := by
  simp [Buffers.free]

theorem SinkLedger.moved (h : SinkLedger libc kept sink bufs) (hOk : SinkOk cfg bufs sink)
    (hOwned : sink.owned = true) {next : Nat} {moved : Buffers} (cap len : Nat)
    (hMoved : bufs.realloc libc sink.bytes next = (some (.heap bufs.attempts), moved)) :
    SinkLedger libc kept { sink with bytes := .heap bufs.attempts, cap := cap, len := len }
      moved := by
  refine ⟨h.accounted.realloc (hOk.own hOwned).2 hMoved, fun id hLive => ?_⟩
  have hMove := realloc_moved hOk.numbered hMoved
  by_cases hid : id = bufs.attempts
  · subst hid
    exact .inr rfl
  by_cases hp : sink.bytes = .heap id
  · -- the block that `realloc` moved is gone
    refine absurd ?_ hLive
    simp only [Buffers.realloc] at hMoved
    split at hMoved
    · cases hMoved
      simp only [hp, Function.update_of_ne hid]
      exact Buffers.free_heap_self _ _
    · cases hMoved
  · rw [hMove.others id hid hp] at hLive
    exact .inl ((h.live id hLive).resolve_right hp)

theorem writeBody_ledger (chunk : Chunk) (hOk : SinkOk cfg bufs sink)
    (h : SinkLedger libc kept sink bufs) :
    SinkLedger libc kept (writeBody cfg libc chunk sink bufs).2.1
      (writeBody cfg libc chunk sink bufs).2.2 := by
  have hEnd := writeBody_end libc chunk hOk
  generalize writeBody cfg libc chunk sink bufs = outcome at hEnd
  cases hEnd with
  | refused hFull => exact ⟨h.accounted, h.live⟩
  | exhausted hOwned hLibc => exact ⟨h.accounted.attempt hLibc, h.live⟩
  | grown next moved hOwned hCap hRoom hNext hMoved =>
    have hLedger := h.moved hOk hOwned next (sink.len + chunk.contents.length) hMoved
    dsimp only
    exact hLedger.copyTo _ _ _
  | inPlace hRoom hPlace =>
    have hCopied := h.copyTo sink.bytes sink.len chunk.contents
    exact ⟨hCopied.accounted, hCopied.live⟩

theorem performRequest_ledger (chunks : List Chunk) {sink : ByteSink} {bufs : Buffers}
    (hOk : SinkOk cfg bufs sink) (h : SinkLedger libc kept sink bufs) (status : Option UInt16) :
    SinkLedger libc kept (performRequest cfg libc status chunks sink bufs).2.1
      (performRequest cfg libc status chunks sink bufs).2.2 := by
  induction chunks generalizing sink bufs with
  | nil => exact h
  | cons chunk chunks ih =>
    have hWrote := writeBody_wrote libc chunk hOk
    have hLedger := writeBody_ledger chunk hOk h
    simp only [performRequest]
    generalize writeBody cfg libc chunk sink bufs = written at hWrote hLedger
    obtain ⟨count, next, after⟩ := written
    dsimp only at hWrote hLedger ⊢
    split
    · exact ih hWrote.sinkOk hLedger
    · exact hLedger

/-! ### The table -/

/-- The blocks of the streams. -/
def Held (streams : Fin maxStreams → StreamSlot) (id : Nat) : Prop :=
  ∃ i, (streams i).bytes = .heap id

/-- The books of the table: every live block is a stream's. -/
structure TableOk (libc : Nat → Bool) (s : NativeState) : Prop where
  accounted : Accounted libc s.bufs
  held : ∀ id, s.bufs.heap id ≠ none → Held s.streams id

theorem Idle.tableOk (h : Idle cfg libc s) : TableOk libc (initNativeLib s) :=
  ⟨h.accounted, fun id hLive => absurd (h.heap id) hLive⟩

theorem Idle.fresh (h : Idle cfg libc s) : FreshStreams cfg (initNativeLib s) :=
  ⟨fun _ => rfl, h.heap, h.borrowed⟩

/-- What a slot owns can be freed. -/
theorem StreamsOk.freeable (h : StreamsOk cfg s client) {i : Fin maxStreams}
    (hOwned : (s.streams i).owned = true) : Accounted.Freeable s.bufs (s.streams i).bytes := by
  have hUsed : (s.streams i).used = true := by
    by_contra hUnused
    rw [h.clear i (by simpa using hUnused)] at hOwned
    cases hOwned
  have hMode : s.borrowedBytes = none := by
    by_contra hSome
    have hLent := (h.lent (Option.isSome_iff_ne_none.mpr hSome) i hUsed).1
    exact absurd (hLent.symm.trans hOwned) (by decide)
  rcases hBytes : (s.streams i).bytes with _ | _ | id
  · exact .inl rfl
  · exact absurd hBytes (h.own hMode i hUsed).2
  · exact .inr ⟨id, rfl, h.live i id hBytes⟩

/-- A slot with a block owns it. -/
theorem StreamsOk.owned_of_heap (h : StreamsOk cfg s client) {i : Fin maxStreams} {id : Nat}
    (hid : (s.streams i).bytes = .heap id) : (s.streams i).owned = true := by
  have hUsed := h.used_of_heap hid
  have hMode : s.borrowedBytes = none := by
    by_contra hSome
    rw [(h.lent (Option.isSome_iff_ne_none.mpr hSome) i hUsed).2.1] at hid
    cases hid
  exact (h.own hMode i hUsed).1

theorem TableOk.deinitSlot (h : TableOk libc s) (hOk : StreamsOk cfg s client)
    (i : Fin maxStreams) : TableOk libc (deinitSlot s i) := by
  -- a live block of another slot stays with it
  have hOther : ∀ id, s.bufs.heap id ≠ none → (s.streams i).bytes ≠ .heap id →
      Held (Function.update s.streams i .zero) id := by
    intro id hLive hne
    obtain ⟨j, hj⟩ := h.held id hLive
    have hji : j ≠ i := by
      rintro rfl
      exact hne hj
    exact ⟨j, by rwa [Function.update_of_ne hji]⟩
  by_cases hOwned : (s.streams i).owned = true
  · simp only [Native.deinitSlot, hOwned, if_true]
    refine ⟨h.accounted.free (hOk.freeable hOwned), fun id hLive => ?_⟩
    by_cases hid : (s.streams i).bytes = .heap id
    · rw [hid] at hLive
      exact absurd (Buffers.free_heap_self _ _) hLive
    · exact hOther id (by rwa [Buffers.free_heap_of_ne hid] at hLive) hid
  · simp only [Native.deinitSlot, hOwned, Bool.false_eq_true, if_false]
    refine ⟨h.accounted, fun id hLive => hOther id hLive fun hid => hOwned ?_⟩
    exact hOk.owned_of_heap hid

/-- The loop of `deinit_native_lib` closes the slots. -/
theorem deinitSlot_eq_close (s : NativeState) (i : Fin maxStreams) :
    deinitSlot s i = streamClose (i + 1) s := by
  simp only [deinitSlot, streamClose, slotOf_succ]

theorem TableOk.close (h : TableOk libc s) (hOk : StreamsOk cfg s client) (handle : Int) :
    TableOk libc (streamClose handle s) := by
  rcases hi : slotOf handle with _ | i
  · simp only [streamClose, hi]
    exact h
  · simp only [streamClose, hi]
    exact h.deinitSlot hOk i

theorem TableOk.next (h : TableOk libc s) (handle : Int) (cap : Nat) :
    TableOk libc (streamNext handle cap s).2.2 := by
  unfold streamNext
  split
  · exact h
  · next i hi =>
    dsimp only
    split
    · refine ⟨h.accounted, fun id hLive => ?_⟩
      obtain ⟨j, hj⟩ := h.held id hLive
      refine ⟨j, ?_⟩
      by_cases hji : j = i
      · subst hji
        simpa using hj
      · simpa [Function.update_of_ne hji] using hj
    · exact h

/-- The books while an open runs. -/
theorem TableOk.exchange (h : TableOk libc s) (hOk : StreamsOk cfg s client)
    (exchange : Exchange) :
    SinkLedger libc (Held s.streams)
      (performRequest cfg libc exchange.status exchange.chunks (openSink cfg s.borrowedBytes)
        s.bufs).2.1
      (performRequest cfg libc exchange.status exchange.chunks (openSink cfg s.borrowedBytes)
        s.bufs).2.2 :=
  performRequest_ledger exchange.chunks (openSink_ok hOk)
    ⟨h.accounted, fun id hLive => .inl (h.held id hLive)⟩ exchange.status

theorem TableOk.open (h : TableOk libc s) (hOk : StreamsOk cfg s client) (exchange : Exchange) :
    TableOk libc (streamOpen cfg libc exchange s).2 := by
  rcases hFree : freeSlot s.streams with _ | i
  · simp only [streamOpen, hFree]
    exact h
  by_cases hBusy : (s.borrowedBytes.isSome && anyUsed s.streams) = true
  · simp only [streamOpen, hFree, hBusy, if_true]
    exact h
  have hLedger := h.exchange hOk exchange
  have hRequest := (performRequest_exchanged libc exchange.chunks (openSink_ok hOk)
    exchange.status).1
  simp only [streamOpen, hFree, hBusy, Bool.false_eq_true, if_false]
  generalize performRequest cfg libc exchange.status exchange.chunks
    (openSink cfg s.borrowedBytes) s.bufs = outcome at hLedger hRequest ⊢
  obtain ⟨status, sink, bufs⟩ := outcome
  rcases status with _ | status
  · -- the exchange failed: the sink's block goes back
    dsimp only at hLedger hRequest ⊢
    split
    · next hOwned =>
      refine ⟨hLedger.accounted.free (hRequest.sinkOk.own hOwned).2, fun id hLive => ?_⟩
      by_cases hid : sink.bytes = .heap id
      · rw [hid] at hLive
        exact absurd (Buffers.free_heap_self _ _) hLive
      · rw [Buffers.free_heap_of_ne hid] at hLive
        exact (hLedger.live id hLive).resolve_right hid
    · next hLent =>
      refine ⟨hLedger.accounted, fun id hLive => (hLedger.live id hLive).resolve_right ?_⟩
      rw [hRequest.sinkOk.lent (by simpa using hLent)]
      simp
  · -- the sink's block moves into the slot
    dsimp only at hLedger ⊢
    refine ⟨hLedger.accounted, fun id hLive => ?_⟩
    rcases hLedger.live id hLive with ⟨j, hj⟩ | hid
    · have hUsed := hOk.used_of_heap hj
      have hji : j ≠ i := by
        rintro rfl
        exact absurd ((freeSlot_some hFree).symm.trans hUsed) (by decide)
      exact ⟨j, by simpa only [Function.update_of_ne hji] using hj⟩
    · exact ⟨i, by simpa only [Function.update_self] using hid⟩

theorem TableOk.step (h : TableOk libc s) (hOk : StreamsOk cfg s client) (call : StreamCall) :
    TableOk libc (call.perform cfg libc (s, client)).1 := by
  cases call with
  | «open» exchange => exact h.open hOk exchange
  | status handle => exact h
  | next handle cap => exact h.next handle cap.toNat
  | close handle => exact h.close hOk handle

/-! ### Runs -/

/-- Every run of calls after `init_native_lib` keeps the table and its books. -/
theorem run_tableOk (h : Idle cfg libc s) {calls : List StreamCall} {w : NativeState × Client}
    (hRun : (streamSystem cfg libc).Run (initNativeLib s, fun _ => none) calls w) :
    StreamsOk cfg w.1 w.2 ∧ TableOk libc w.1 := by
  refine hRun.preserves (I := fun w => StreamsOk cfg w.1 w.2 ∧ TableOk libc w.1) ?_ ?_
  · rintro ⟨s, client⟩ call _ ⟨hOk, hTable⟩ rfl
    exact ⟨hOk.step call, hTable.step hOk call⟩
  · exact ⟨.start h.fresh fun _ => rfl, h.tableOk⟩

/-- The loop of `deinit_native_lib` over some of the slots. -/
theorem deinitSlots_ok (slots : List (Fin maxStreams)) (hOk : StreamsOk cfg s client)
    (h : TableOk libc s) :
    (∃ client', StreamsOk cfg (slots.foldl deinitSlot s) client') ∧
      TableOk libc (slots.foldl deinitSlot s) ∧
      ∀ i, i ∈ slots ∨ s.streams i = .zero → (slots.foldl deinitSlot s).streams i = .zero := by
  induction slots generalizing s client with
  | nil => exact ⟨⟨client, hOk⟩, h, fun i hi => hi.resolve_left (by simp)⟩
  | cons slot slots ih =>
    have hClosed : StreamsOk cfg (StreamCall.perform cfg libc (.close (slot + 1)) (s, client)).1 _ :=
      hOk.close (slot + 1)
    simp only [StreamCall.perform, ← deinitSlot_eq_close] at hClosed
    obtain ⟨hOk', hTable', hZero⟩ := ih hClosed (h.deinitSlot hOk slot)
    refine ⟨hOk', hTable', fun i hi => hZero i ?_⟩
    by_cases hSlot : i = slot
    · subst hSlot
      exact .inr (Function.update_self ..)
    · rcases hi with hMem | hClear
      · exact .inl ((List.mem_cons.mp hMem).resolve_left hSlot)
      · exact .inr ((Function.update_of_ne hSlot _ _).trans hClear)

/-- `deinit_native_lib` clears the table and leaves nothing allocated. -/
theorem deinitNativeLib_idle (hOk : StreamsOk cfg s client) (h : TableOk libc s) :
    Idle cfg libc (deinitNativeLib s) ∧ ∀ i, (deinitNativeLib s).streams i = .zero := by
  obtain ⟨-, hTable, hZero⟩ := deinitSlots_ok (List.finRange maxStreams) hOk h
  have hClear := fun i => hZero i (.inl (List.mem_finRange i))
  refine ⟨⟨hTable.accounted, fun id => ?_, fun length hLength => by cases hLength⟩, hClear⟩
  by_contra hLive
  obtain ⟨i, hi⟩ := hTable.held id hLive
  rw [hClear i] at hi
  cases hi

/-- A failed open leaves the slots as they are. -/
theorem streamOpen_failed (hOk : StreamsOk cfg s client) (exchange : Exchange)
    (hFailed : (streamOpen cfg libc exchange s).1 = -1) :
    (streamOpen cfg libc exchange s).2.streams = s.streams := by
  have hEnd := streamOpen_end libc hOk exchange
  generalize streamOpen cfg libc exchange s = outcome at hEnd hFailed ⊢
  cases hEnd with
  | refused hBusy => rfl
  | failed sink bufs hIdle hExchanged => rfl
  | opened i status sink bufs hFree hIdle hStatus hExchanged =>
    simp only at hFailed
    omega

/-- After any run of calls: no block was released twice, the lent buffer never, and none that a slot
refers to; slots not in use are clear; and a failed open changes no slot.  A `deinit` then leaves
nothing allocated, and every block that was ever obtained has been released once. -/
theorem streams_release {calls : List StreamCall} {w : NativeState × Client}
    (h : Idle cfg libc s)
    (hRun : (streamSystem cfg libc).Run (initNativeLib s, fun _ => none) calls w) :
    (w.1.bufs.released.Nodup ∧ Pointer.borrowed ∉ w.1.bufs.released ∧
      (∀ i id, (w.1.streams i).used = true → (w.1.streams i).bytes = .heap id →
        w.1.bufs.heap id ≠ none ∧ Pointer.heap id ∉ w.1.bufs.released) ∧
      (∀ i, (w.1.streams i).used = false → w.1.streams i = .zero) ∧
      ∀ exchange, (streamOpen cfg libc exchange w.1).1 = -1 →
        (streamOpen cfg libc exchange w.1).2.streams = w.1.streams) ∧
    (∀ i, (deinitNativeLib w.1).streams i = .zero) ∧
    (∀ id, (deinitNativeLib w.1).bufs.heap id = none) ∧
    Pointer.borrowed ∉ (deinitNativeLib w.1).bufs.released ∧
    ∀ id, (deinitNativeLib w.1).bufs.released.count (.heap id) =
      if Obtained libc (deinitNativeLib w.1).bufs id then 1 else 0 := by
  obtain ⟨hOk, hTable⟩ := run_tableOk h hRun
  obtain ⟨hIdle, hClear⟩ := deinitNativeLib_idle hOk hTable
  refine ⟨⟨hTable.accounted.released_nodup, hTable.accounted.borrowed_not_mem, ?_, hOk.clear,
    fun exchange => streamOpen_failed hOk exchange⟩, hClear, hIdle.heap,
    hIdle.accounted.borrowed_not_mem, fun id => ?_⟩
  · intro i id _ hBytes
    have hLive := hOk.live i id hBytes
    exact ⟨hLive, hTable.accounted.not_released hLive⟩
  · have hOnce := hIdle.accounted.once id
    rwa [hIdle.heap id] at hOnce

/-- A body in two chunks without a lent buffer: the second call of `realloc` moves the block. -/
def ownedOpen : NativeState × Client :=
  StreamCall.perform board (fun _ => true)
    (.open ⟨[.ofBytes [0x68, 0x69], .ofBytes [0x21]], some 200⟩)
    (initNativeLib ⟨fun _ => .zero, none, .initial []⟩, fun _ => none)

theorem streams_release_owned : ownedOpen.1.bufs.released = [.heap 0] ∧
    (deinitNativeLib ownedOpen.1).bufs.released = [.heap 0, .heap 1] ∧
    (∀ i, (deinitNativeLib ownedOpen.1).streams i = .zero) ∧
    ∀ id, (deinitNativeLib ownedOpen.1).bufs.heap id = none := by
  have hIdle : Idle board (fun _ => true) ⟨fun _ => .zero, none, .initial []⟩ :=
    ⟨.initial _ _, fun _ => rfl, fun _ hLength => by cases hLength⟩
  have hRun : (streamSystem board fun _ => true).Run
      (initNativeLib ⟨fun _ => .zero, none, .initial []⟩, fun _ => none)
      [.open ⟨[.ofBytes [0x68, 0x69], .ofBytes [0x21]], some 200⟩] ownedOpen :=
    .snoc (.nil _) rfl
  have hRelease := streams_release hIdle hRun
  exact ⟨by decide, by decide, hRelease.2.1, hRelease.2.2.1⟩

end Esp32Fx.Native
