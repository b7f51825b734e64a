import Esp32Fx.Native.SinkFacts
import Esp32Fx.Native.Streams

/-! Every run of calls keeps the table and the client's view in step: each open stream is in its own
slot, whose buffer holds the whole body and whose cursor counts the bytes that were delivered. -/

namespace Esp32Fx.Native

open Lib

variable {cfg : Config} {libc : Nat → Bool} {s : NativeState} {client : Client}

/-! ### Exchanges -/

/-- The bytes behind a pointer depend on its own block only. -/
theorem read_congr {bufs bufs' : Buffers} {p : Pointer}
    (hBorrowed : p = .borrowed → bufs'.borrowed = bufs.borrowed)
    (hHeap : ∀ id, p = .heap id → bufs'.heap id = bufs.heap id) : bufs'.read p = bufs.read p := by
  cases p with
  | null => rfl
  | borrowed => exact hBorrowed rfl
  | heap id => simp only [Buffers.read, hHeap id rfl]

/-- What an exchange does to its sink and to the buffers. -/
structure Exchanged (cfg : Config) (contents : List UInt8) (sink : ByteSink) (bufs : Buffers)
    (succeeded : Bool) (sink' : ByteSink) (bufs' : Buffers) : Prop where
  sinkOk : SinkOk cfg bufs' sink'
  owned : sink'.owned = sink.owned
  buffered : succeeded = true → buffered bufs' sink' = buffered bufs sink ++ contents
  attempts : bufs.attempts ≤ bufs'.attempts
  heap : ∀ id, id < bufs.attempts → sink.bytes ≠ .heap id → bufs'.heap id = bufs.heap id
  pointer : sink'.bytes = sink.bytes ∨ ∃ id, sink'.bytes = .heap id ∧ bufs.attempts ≤ id
  borrowed : sink.owned = true → bufs'.borrowed = bufs.borrowed

theorem performRequest_exchanged (libc : Nat → Bool) (chunks : List Chunk) {sink : ByteSink}
    {bufs : Buffers}
    (h : SinkOk cfg bufs sink) (status : Option UInt16) :
    let outcome := performRequest cfg libc status chunks sink bufs
    Exchanged cfg (chunks.flatMap Chunk.contents) sink bufs outcome.1.isSome outcome.2.1
      outcome.2.2 ∧ (outcome.1.isSome → outcome.1 = status) := by
  induction chunks generalizing sink bufs with
  | nil =>
    exact ⟨⟨h, rfl, fun _ => (List.append_nil _).symm, Nat.le_refl _, fun _ _ _ => rfl, .inl rfl,
      fun _ => rfl⟩, fun _ => rfl⟩
  | cons chunk chunks ih =>
    have hWrote := writeBody_wrote libc chunk h
    have hLength := chunk.length_contents
    simp only [performRequest]
    generalize writeBody cfg libc chunk sink bufs = written at hWrote
    obtain ⟨count, next, after⟩ := written
    dsimp only at hWrote ⊢
    split
    · next hCount =>
      have hBuffered := hWrote.buffered
      rw [if_pos (hCount.trans hLength.symm)] at hBuffered
      obtain ⟨hRest, hStatus⟩ := ih hWrote.sinkOk
      refine ⟨⟨hRest.sinkOk, hRest.owned.trans hWrote.owned, ?_,
        Nat.le_trans hWrote.attempts hRest.attempts, ?_, ?_, ?_⟩, hStatus⟩
      · intro hSome
        rw [hRest.buffered hSome, hBuffered, List.flatMap_cons, List.append_assoc]
      · intro id hid hne
        have hAttempts := hWrote.attempts
        have hNext : next.bytes ≠ .heap id := by
          rcases hWrote.pointer with hSame | ⟨k, hk, hFresh⟩
          · rwa [hSame]
          · rw [hk]
            rintro ⟨⟩
            omega
        rw [hRest.heap id (by omega) hNext, hWrote.heap id hid hne]
      · rcases hRest.pointer with hSame | ⟨k, hk, hFresh⟩
        · rw [hSame]
          exact hWrote.pointer
        · exact .inr ⟨k, hk, Nat.le_trans hWrote.attempts hFresh⟩
      · intro hOwned
        rw [hRest.borrowed (hWrote.owned.trans hOwned), hWrote.borrowed hOwned]
    · exact ⟨⟨hWrote.sinkOk, hWrote.owned, fun hSome => absurd hSome (by simp), hWrote.attempts,
        hWrote.heap, hWrote.pointer, hWrote.borrowed⟩, fun hSome => absurd hSome (by simp)⟩

/-! ### The invariant -/

/-- A slot in use holds a stream. -/
structure Holds (bufs : Buffers) (slot : StreamSlot) (e : ClientStream) : Prop where
  used : slot.used = true
  status : slot.status = e.status
  body : (bufs.read slot.bytes).take slot.len = e.body
  len : slot.len = e.body.length
  cursor : slot.cursor ≤ slot.len
  delivered : e.delivered = e.body.take slot.cursor

/-- The table and the buffers, against the client's view. -/
structure StreamsOk (cfg : Config) (s : NativeState) (client : Client) : Prop where
  numbered : s.bufs.Numbered
  borrowed_max : ∀ length, s.borrowedBytes = some length → length ≤ cfg.sizeMax
  /-- A slot that is not in use is clear. -/
  clear : ∀ i, (s.streams i).used = false → s.streams i = .zero
  held : ∀ handle e, client handle = some e →
    ∃ i, slotOf handle = some i ∧ Holds s.bufs (s.streams i) e
  known : ∀ handle i, slotOf handle = some i → (s.streams i).used = true → client handle ≠ none
  /-- Without a lent buffer every stream has its own block, or no bytes. -/
  own : s.borrowedBytes = none → ∀ i, (s.streams i).used = true →
    (s.streams i).owned = true ∧ (s.streams i).bytes ≠ .borrowed
  /-- With a lent buffer there is one stream at most. -/
  lent : s.borrowedBytes.isSome → ∀ i, (s.streams i).used = true →
    (s.streams i).owned = false ∧ (s.streams i).bytes = .borrowed ∧
      ∀ j, (s.streams j).used = true → j = i
  live : ∀ i id, (s.streams i).bytes = .heap id → s.bufs.heap id ≠ none
  apart : ∀ i j id, (s.streams i).bytes = .heap id → (s.streams j).bytes = .heap id → i = j

theorem StreamsOk.start (h : FreshStreams cfg s) (hClient : ∀ handle, client handle = none) :
    StreamsOk cfg s client where
  numbered id hid := absurd (h.heap id) hid
  borrowed_max length hLength := (h.borrowed length hLength).2
  clear i _ := h.streams i
  held handle e he := by rw [hClient handle] at he; cases he
  known handle i _ hUsed := by rw [h.streams i] at hUsed; cases hUsed
  own _ i hUsed := by rw [h.streams i] at hUsed; cases hUsed
  lent _ i hUsed := by rw [h.streams i] at hUsed; cases hUsed
  live i id hid := by rw [h.streams i] at hid; cases hid
  apart i j id hid := by rw [h.streams i] at hid; cases hid

/-! ### Handles and slots -/

theorem slotOf_succ (i : Fin maxStreams) : slotOf ((i : Int) + 1) = some i := by
  have hRange : 1 ≤ (i : Int) + 1 ∧ (i : Int) + 1 ≤ (maxStreams : Nat) := by
    have := i.isLt
    omega
  rw [slotOf, dif_pos hRange]
  simp

theorem slotOf_inj {handle handle' : Int} {i : Fin maxStreams} (h : slotOf handle = some i)
    (h' : slotOf handle' = some i) : handle = handle' := by
  simp only [slotOf] at h h'
  split at h
  · split at h'
    · simp only [Option.some.injEq] at h h'
      have := congrArg Fin.val (h.trans h'.symm)
      simp only at this
      omega
    · cases h'
  · cases h

theorem freeSlot_some {i : Fin maxStreams} (h : freeSlot s.streams = some i) :
    (s.streams i).used = false := by
  have hFound := List.find?_some h
  simpa using hFound

theorem freeSlot_none (h : freeSlot s.streams = none) (i : Fin maxStreams) :
    (s.streams i).used = true := by
  have hAll := List.find?_eq_none.mp h i (List.mem_finRange i)
  simpa using hAll

theorem anyUsed_iff : anyUsed s.streams = true ↔ ∃ i, (s.streams i).used = true := by
  simp [anyUsed]

theorem openSink_ok (h : StreamsOk cfg s client) :
    SinkOk cfg s.bufs (openSink cfg s.borrowedBytes) := by
  have hMax := h.borrowed_max
  rcases hBorrowed : s.borrowedBytes with _ | length
  · exact ⟨h.numbered, Nat.zero_le _, cfg.maxStreamBytes_le, Nat.zero_le _,
      (fun hOwned => by cases hOwned), fun _ => ⟨Nat.le_refl _, .inl rfl⟩⟩
  · exact ⟨h.numbered, Nat.zero_le _, hMax length hBorrowed, Nat.zero_le _, fun _ => rfl,
      (fun hOwned => by cases hOwned)⟩

/-! ### Steps of the invariant -/

/-- Buffers that no stream refers to may change. -/
theorem StreamsOk.frame (h : StreamsOk cfg s client) {bufs : Buffers} (hNumbered : bufs.Numbered)
    (hRead : ∀ i, (s.streams i).used = true →
      bufs.read (s.streams i).bytes = s.bufs.read (s.streams i).bytes)
    (hLive : ∀ i id, (s.streams i).bytes = .heap id → bufs.heap id ≠ none) :
    StreamsOk cfg { s with bufs := bufs } client :=
  { h with
    numbered := hNumbered
    live := hLive
    held := by
      intro handle e he
      obtain ⟨i, hi, hHolds⟩ := h.held handle e he
      exact ⟨i, hi, { hHolds with body := by rw [hRead i hHolds.used, hHolds.body] }⟩ }

/-- A slot that is not in use refers to no block. -/
theorem StreamsOk.used_of_heap (h : StreamsOk cfg s client) {i : Fin maxStreams} {id : Nat}
    (hid : (s.streams i).bytes = .heap id) : (s.streams i).used = true := by
  by_contra hUnused
  rw [h.clear i (by simpa using hUnused)] at hid
  cases hid

/-- The slot of one handle does not hold the stream of another. -/
theorem StreamsOk.held_other (h : StreamsOk cfg s client) {handle handle' : Int}
    {i : Fin maxStreams} (hi : slotOf handle = some i) (hHandle : handle' ≠ handle)
    {e : ClientStream} (he : client handle' = some e) (slot : StreamSlot) :
    ∃ j, slotOf handle' = some j ∧ Holds s.bufs (Function.update s.streams i slot j) e := by
  obtain ⟨j, hj, hHolds⟩ := h.held handle' e he
  have hne : j ≠ i := by
    rintro rfl
    exact hHandle (slotOf_inj hj hi)
  exact ⟨j, hj, by rwa [Function.update_of_ne hne]⟩

/-- A stream goes into a slot that was not in use. -/
theorem StreamsOk.install (h : StreamsOk cfg s client) {i : Fin maxStreams} {slot : StreamSlot}
    {e : ClientStream} (hFree : (s.streams i).used = false) (hHolds : Holds s.bufs slot e)
    (hOwn : s.borrowedBytes = none → slot.owned = true ∧ slot.bytes ≠ .borrowed)
    (hLent : s.borrowedBytes.isSome → slot.owned = false ∧ slot.bytes = .borrowed ∧
      ∀ j, (s.streams j).used = false)
    (hLive : ∀ id, slot.bytes = .heap id → s.bufs.heap id ≠ none)
    (hApart : ∀ j id, slot.bytes = .heap id → (s.streams j).bytes ≠ .heap id) :
    StreamsOk cfg { s with streams := Function.update s.streams i slot }
      (Function.update client (i + 1) (some e)) where
  numbered := h.numbered
  borrowed_max := h.borrowed_max
  clear j hUnused := by
    by_cases hj : j = i
    · subst hj
      simp only [Function.update_self] at hUnused
      exact absurd (hUnused.symm.trans hHolds.used) (by decide)
    · simp only [Function.update_of_ne hj] at hUnused ⊢
      exact h.clear j hUnused
  held handle e' he := by
    by_cases hHandle : handle = i + 1
    · subst hHandle
      rw [Function.update_self] at he
      cases he
      exact ⟨i, slotOf_succ i, by simpa using hHolds⟩
    · rw [Function.update_of_ne hHandle] at he
      exact h.held_other (slotOf_succ i) hHandle he _
  known handle j hj hUsed := by
    by_cases hHandle : handle = i + 1
    · subst hHandle
      simp
    · rw [Function.update_of_ne hHandle]
      have hne : j ≠ i := by
        rintro rfl
        exact hHandle (slotOf_inj hj (slotOf_succ j))
      simp only [Function.update_of_ne hne] at hUsed
      exact h.known handle j hj hUsed
  own hNone j hUsed := by
    by_cases hj : j = i
    · subst hj
      simpa using hOwn hNone
    · simp only [Function.update_of_ne hj] at hUsed ⊢
      exact h.own hNone j hUsed
  lent hSome j hUsed := by
    obtain ⟨hOwned, hBytes, hNone⟩ := hLent hSome
    have hOnly : ∀ k, (Function.update s.streams i slot k).used = true → k = i := by
      intro k hk
      by_contra hne
      rw [Function.update_of_ne hne, hNone k] at hk
      cases hk
    obtain rfl := hOnly j hUsed
    simpa using ⟨hOwned, hBytes, hOnly⟩
  live j id hid := by
    by_cases hj : j = i
    · subst hj
      exact hLive id (by simpa using hid)
    · simp only [Function.update_of_ne hj] at hid
      exact h.live j id hid
  apart j k id hj hk := by
    by_cases hji : j = i
    · by_cases hki : k = i
      · rw [hji, hki]
      · subst hji
        simp only [Function.update_self, Function.update_of_ne hki] at hj hk
        exact absurd hk (hApart k id hj)
    · by_cases hki : k = i
      · subst hki
        simp only [Function.update_self, Function.update_of_ne hji] at hj hk
        exact absurd hj (hApart j id hk)
      · simp only [Function.update_of_ne hji, Function.update_of_ne hki] at hj hk
        exact h.apart j k id hj hk

/-! ### The calls -/

namespace Buffers

variable {bufs : Buffers}

theorem free_heap_of_ne {p : Pointer} {id : Nat} (h : p ≠ .heap id) :
    (bufs.free p).heap id = bufs.heap id := by
  cases p with
  | null => rfl
  | borrowed => rfl
  | heap k =>
    have hne : id ≠ k := fun hid => h (by rw [hid])
    simp [free, Function.update_of_ne hne]

@[simp] theorem free_borrowed (p : Pointer) : (bufs.free p).borrowed = bufs.borrowed := by
  cases p <;> rfl

theorem free_numbered (h : bufs.Numbered) (p : Pointer) : (bufs.free p).Numbered := by
  intro id hid
  cases p with
  | null => exact h id hid
  | borrowed => exact h id hid
  | heap k =>
    refine h id fun hNone => hid ?_
    by_cases hk : id = k
    · subst hk
      simp [free]
    · rw [free_heap_of_ne (fun hp => hk (by injection hp with hp; exact hp.symm)), hNone]

end Buffers

/-- The buffers of the open streams while another exchange runs. -/
theorem StreamsOk.exchange (h : StreamsOk cfg s client) (hIdle : s.borrowedBytes.isSome →
    ∀ i, (s.streams i).used = false) {contents : List UInt8} {ok : Bool} {sink : ByteSink}
    {bufs : Buffers}
    (hExchanged : Exchanged cfg contents (openSink cfg s.borrowedBytes) s.bufs ok sink bufs) :
    StreamsOk cfg { s with bufs := bufs } client ∧
      ∀ i id, (s.streams i).bytes = .heap id → sink.bytes ≠ .heap id := by
  have hStart : ∀ id, (openSink cfg s.borrowedBytes).bytes ≠ .heap id := by
    intro id
    rcases s.borrowedBytes with _ | length <;> simp [openSink]
  have hBlock : ∀ i id, (s.streams i).bytes = .heap id → id < s.bufs.attempts ∧
      bufs.heap id = s.bufs.heap id := by
    intro i id hid
    have hOld := h.numbered id (h.live i id hid)
    exact ⟨hOld, hExchanged.heap id hOld (hStart id)⟩
  refine ⟨h.frame hExchanged.sinkOk.numbered (fun i hUsed => read_congr ?_ ?_) ?_, ?_⟩
  · intro hLent
    rcases hMode : s.borrowedBytes with _ | length
    · exact absurd hLent (h.own hMode i hUsed).2
    · rw [hIdle (by simp [hMode]) i] at hUsed
      cases hUsed
  · intro id hid
    exact (hBlock i id hid).2
  · intro i id hid
    rw [(hBlock i id hid).2]
    exact h.live i id hid
  · intro i id hid hSink
    rcases hExchanged.pointer with hSame | ⟨k, hk, hFresh⟩
    · exact hStart id (hSame.symm.trans hSink)
    · rw [hk] at hSink
      obtain rfl : k = id := by injection hSink
      exact absurd (hBlock i k hid).1 (by omega)

/-- The ways in which an open ends. -/
inductive OpenEnd (cfg : Config) (exchange : Exchange) (s : NativeState) : Int × NativeState → Prop
  /-- No slot is free, or the lent buffer is in use: nothing happens. -/
  | refused (hBusy : ∃ i, (s.streams i).used = true) : OpenEnd cfg exchange s (-1, s)
  /-- The exchange fails, and the sink's block goes back. -/
  | failed (sink : ByteSink) (bufs : Buffers)
    (hIdle : s.borrowedBytes.isSome → ∀ i, (s.streams i).used = false)
    (hExchanged : Exchanged cfg exchange.body (openSink cfg s.borrowedBytes) s.bufs false sink bufs) :
    OpenEnd cfg exchange s
      (-1, { s with bufs := if sink.owned then bufs.free sink.bytes else bufs })
  /-- The sink moves into a free slot. -/
  | opened (i : Fin maxStreams) (status : UInt16) (sink : ByteSink) (bufs : Buffers)
    (hFree : (s.streams i).used = false)
    (hIdle : s.borrowedBytes.isSome → ∀ i, (s.streams i).used = false)
    (hStatus : exchange.status = some status)
    (hExchanged : Exchanged cfg exchange.body (openSink cfg s.borrowedBytes) s.bufs true sink bufs) :
    OpenEnd cfg exchange s (i + 1, {
      s with
      streams := Function.update s.streams i ⟨true, sink.owned, status, sink.bytes, sink.len, 0⟩
      bufs := bufs })

theorem streamOpen_end (libc : Nat → Bool) (h : StreamsOk cfg s client) (exchange : Exchange) :
    OpenEnd cfg exchange s (streamOpen cfg libc exchange s) := by
  rcases hFree : freeSlot s.streams with _ | i
  · simp only [streamOpen, hFree]
    exact .refused ⟨⟨0, by decide⟩, freeSlot_none hFree _⟩
  by_cases hBusy : (s.borrowedBytes.isSome && anyUsed s.streams) = true
  · simp only [streamOpen, hFree, hBusy, if_true]
    rw [Bool.and_eq_true, anyUsed_iff] at hBusy
    exact .refused hBusy.2
  have hIdle : s.borrowedBytes.isSome → ∀ i, (s.streams i).used = false := by
    intro hSome j
    by_contra hUsed
    exact hBusy (by rw [hSome, Bool.true_and, anyUsed_iff]; exact ⟨j, by simpa using hUsed⟩)
  have hRequest := performRequest_exchanged libc exchange.chunks (openSink_ok h)
    exchange.status
  simp only [streamOpen, hFree, hBusy, Bool.false_eq_true, if_false]
  generalize performRequest cfg libc exchange.status exchange.chunks
    (openSink cfg s.borrowedBytes) s.bufs = outcome at hRequest ⊢
  obtain ⟨status, sink, bufs⟩ := outcome
  obtain ⟨hExchanged, hStatus⟩ := hRequest
  rcases status with _ | status
  · exact .failed sink bufs hIdle hExchanged
  · exact .opened i status sink bufs (freeSlot_some hFree) hIdle (hStatus rfl).symm hExchanged

/-- A failed open leaves the streams as they are. -/
theorem StreamsOk.failed (h : StreamsOk cfg s client) {contents : List UInt8} {sink : ByteSink}
    {bufs : Buffers} (hIdle : s.borrowedBytes.isSome → ∀ i, (s.streams i).used = false)
    (hExchanged : Exchanged cfg contents (openSink cfg s.borrowedBytes) s.bufs false sink bufs) :
    StreamsOk cfg { s with bufs := if sink.owned then bufs.free sink.bytes else bufs } client := by
  obtain ⟨hFrame, hApart⟩ := h.exchange hIdle hExchanged
  split
  · refine hFrame.frame (Buffers.free_numbered hExchanged.sinkOk.numbered _)
      (fun j hUsed => read_congr (fun _ => Buffers.free_borrowed _) fun id hid => ?_)
      fun j id hid => ?_
    · exact Buffers.free_heap_of_ne (hApart j id hid)
    · rw [Buffers.free_heap_of_ne (hApart j id hid)]
      exact hFrame.live j id hid
  · exact hFrame

/-- A successful open puts the whole body into its slot. -/
theorem StreamsOk.opened (h : StreamsOk cfg s client) {exchange : Exchange} {i : Fin maxStreams}
    {status : UInt16} {sink : ByteSink} {bufs : Buffers} (hFree : (s.streams i).used = false)
    (hIdle : s.borrowedBytes.isSome → ∀ i, (s.streams i).used = false)
    (hExchanged :
      Exchanged cfg exchange.body (openSink cfg s.borrowedBytes) s.bufs true sink bufs) :
    StreamsOk cfg
      { s with
        streams := Function.update s.streams i ⟨true, sink.owned, status, sink.bytes, sink.len, 0⟩
        bufs := bufs }
      (Function.update client (i + 1) (some ⟨exchange.body, status, []⟩)) := by
  obtain ⟨hFrame, hApart⟩ := h.exchange hIdle hExchanged
  have hEmpty : buffered s.bufs (openSink cfg s.borrowedBytes) = [] := by
    rcases s.borrowedBytes with _ | length <;> rfl
  have hBody := hExchanged.buffered rfl
  rw [hEmpty, List.nil_append] at hBody
  have hRead := hExchanged.sinkOk.len_read
  have hLength : sink.len = exchange.body.length := by
    have := congrArg List.length hBody
    simp only [buffered, List.length_take] at this
    omega
  have hOwned := hExchanged.owned
  refine hFrame.install hFree ⟨rfl, rfl, hBody, hLength, Nat.zero_le _, rfl⟩ ?_ ?_ ?_
    fun j id hid hj => hApart j id hj hid
  · intro hNone
    rw [show s.borrowedBytes = none from hNone] at hOwned
    refine ⟨hOwned, ?_⟩
    rcases (hExchanged.sinkOk.own hOwned).2 with hNull | ⟨id, hid, -⟩
    · simp [hNull]
    · simp [hid]
  · intro hSome
    obtain ⟨length, hMode⟩ := Option.isSome_iff_exists.mp hSome
    rw [show s.borrowedBytes = some length from hMode] at hOwned
    exact ⟨hOwned, hExchanged.sinkOk.lent hOwned, hIdle hSome⟩
  · intro id hid
    have hOwn : sink.owned = true := by
      by_contra hLent
      have hBorrowed := hExchanged.sinkOk.lent (by simpa using hLent)
      rw [show sink.bytes = .heap id from hid] at hBorrowed
      cases hBorrowed
    rcases (hExchanged.sinkOk.own hOwn).2 with hNull | ⟨k, hk, hLive⟩
    · rw [show sink.bytes = .heap id from hid] at hNull
      cases hNull
    · obtain rfl : k = id := by
        rw [show sink.bytes = .heap id from hid] at hk
        injection hk with hk
        exact hk.symm
      exact hLive

theorem StreamsOk.open (h : StreamsOk cfg s client) (exchange : Exchange) :
    StreamsOk cfg (StreamCall.perform cfg libc (.open exchange) (s, client)).1
      (StreamCall.perform cfg libc (.open exchange) (s, client)).2 := by
  have hEnd := streamOpen_end libc h exchange
  simp only [StreamCall.perform]
  generalize streamOpen cfg libc exchange s = outcome at hEnd ⊢
  cases hEnd with
  | refused hBusy => exact h
  | failed sink bufs hIdle hExchanged => exact h.failed hIdle hExchanged
  | opened i status sink bufs hFree hIdle hStatus hExchanged =>
    have hPositive : (0 : Int) < (i : Int) + 1 := by omega
    simp only [hPositive, if_true, hStatus, Option.map_some]
    exact h.opened hFree hIdle hExchanged

theorem StreamsOk.client_none (h : StreamsOk cfg s client) {handle : Int}
    (hUnused : ∀ i, slotOf handle = some i → (s.streams i).used = false) :
    client handle = none := by
  rcases hClient : client handle with _ | e
  · rfl
  · obtain ⟨i, hi, hHolds⟩ := h.held handle e hClient
    exact absurd ((hUnused i hi).symm.trans hHolds.used) (by decide)

/-- A stream moves on in its slot. -/
theorem StreamsOk.advance (h : StreamsOk cfg s client) {handle : Int} {i : Fin maxStreams}
    (hi : slotOf handle = some i) (hUsed : (s.streams i).used = true) {cursor : Nat}
    {e : ClientStream} (hHolds : Holds s.bufs { s.streams i with cursor := cursor } e) :
    StreamsOk cfg
      { s with streams := Function.update s.streams i { s.streams i with cursor := cursor } }
      (Function.update client handle (some e)) := by
  have hSame : ∀ j, (Function.update s.streams i { s.streams i with cursor := cursor } j).used =
        (s.streams j).used ∧
      (Function.update s.streams i { s.streams i with cursor := cursor } j).owned =
        (s.streams j).owned ∧
      (Function.update s.streams i { s.streams i with cursor := cursor } j).bytes =
        (s.streams j).bytes := by
    intro j
    by_cases hj : j = i
    · subst hj
      simp
    · simp [Function.update_of_ne hj]
  refine ⟨h.numbered, h.borrowed_max, ?_, ?_, ?_, ?_, ?_, ?_, ?_⟩
  · intro j hUnused
    rw [(hSame j).1] at hUnused
    have hj : j ≠ i := by
      rintro rfl
      exact absurd (hUnused.symm.trans hUsed) (by decide)
    simpa only [Function.update_of_ne hj] using h.clear j hUnused
  · intro handle' e' he
    by_cases hHandle : handle' = handle
    · subst hHandle
      rw [Function.update_self] at he
      cases he
      exact ⟨i, hi, by simpa using hHolds⟩
    · rw [Function.update_of_ne hHandle] at he
      exact h.held_other hi hHandle he _
  · intro handle' j hj hUsed'
    rw [(hSame j).1] at hUsed'
    by_cases hHandle : handle' = handle
    · subst hHandle
      simp
    · rw [Function.update_of_ne hHandle]
      exact h.known handle' j hj hUsed'
  · intro hNone j hUsed'
    rw [(hSame j).1] at hUsed'
    rw [(hSame j).2.1, (hSame j).2.2]
    exact h.own hNone j hUsed'
  · intro hSome j hUsed'
    rw [(hSame j).1] at hUsed'
    rw [(hSame j).2.1, (hSame j).2.2]
    obtain ⟨hOwned, hBytes, hOnly⟩ := h.lent hSome j hUsed'
    exact ⟨hOwned, hBytes, fun k hk => hOnly k (by rwa [(hSame k).1] at hk)⟩
  · intro j id hid
    rw [(hSame j).2.2] at hid
    exact h.live j id hid
  · intro j k id hj hk
    rw [(hSame j).2.2] at hj
    rw [(hSame k).2.2] at hk
    exact h.apart j k id hj hk

/-- A stream leaves its slot. -/
theorem StreamsOk.remove (h : StreamsOk cfg s client) {handle : Int} {i : Fin maxStreams}
    (hi : slotOf handle = some i) :
    StreamsOk cfg { s with streams := Function.update s.streams i .zero }
      (Function.update client handle none) := by
  have hOther : ∀ j, (Function.update s.streams i .zero j).used = true → j ≠ i := by
    rintro j hUsed rfl
    rw [Function.update_self] at hUsed
    cases hUsed
  have hHeap : ∀ j id, (Function.update s.streams i .zero j).bytes = .heap id →
      (s.streams j).bytes = .heap id := by
    intro j id hid
    by_cases hj : j = i
    · subst hj
      rw [Function.update_self] at hid
      cases hid
    · rwa [Function.update_of_ne hj] at hid
  refine ⟨h.numbered, h.borrowed_max, ?_, ?_, ?_, ?_, ?_, ?_, ?_⟩
  · intro j hUnused
    by_cases hj : j = i
    · subst hj
      simp
    · simp only [Function.update_of_ne hj] at hUnused ⊢
      exact h.clear j hUnused
  · intro handle' e he
    by_cases hHandle : handle' = handle
    · subst hHandle
      simp at he
    · rw [Function.update_of_ne hHandle] at he
      exact h.held_other hi hHandle he _
  · intro handle' j hj hUsed
    have hne := hOther j hUsed
    have hHandle : handle' ≠ handle := by
      rintro rfl
      rw [hi] at hj
      cases hj
      exact hne rfl
    simp only [Function.update_of_ne hne] at hUsed
    rw [Function.update_of_ne hHandle]
    exact h.known handle' j hj hUsed
  · intro hNone j hUsed
    have hne := hOther j hUsed
    simp only [Function.update_of_ne hne] at hUsed ⊢
    exact h.own hNone j hUsed
  · intro hSome j hUsed
    have hne := hOther j hUsed
    simp only [Function.update_of_ne hne] at hUsed ⊢
    obtain ⟨hOwned, hBytes, hOnly⟩ := h.lent hSome j hUsed
    refine ⟨hOwned, hBytes, fun k hk => hOnly k ?_⟩
    rwa [Function.update_of_ne (hOther k hk)] at hk
  · intro j id hid
    exact h.live j id (hHeap j id hid)
  · intro j k id hj hk
    exact h.apart j k id (hHeap j id hj) (hHeap k id hk)

/-- What a call of `next` copies, for a slot that holds a stream. -/
theorem Holds.copied {bufs : Buffers} {slot : StreamSlot} {e : ClientStream}
    (h : Holds bufs slot e) {count : Nat} (hCount : count ≤ slot.len - slot.cursor) :
    Holds bufs { slot with cursor := slot.cursor + count }
      { e with
        delivered := e.delivered ++ ((bufs.read slot.bytes).drop slot.cursor).take count } := by
  have hCursor := h.cursor
  have hBody : (e.body.drop slot.cursor).take count =
      ((bufs.read slot.bytes).drop slot.cursor).take count := by
    rw [← h.body, List.drop_take, List.take_take, Nat.min_eq_left hCount]
  refine ⟨h.used, h.status, h.body, h.len, ?_, ?_⟩
  · simp only
    omega
  · simp only
    rw [h.delivered, ← hBody, List.take_add]

theorem StreamsOk.next (libc : Nat → Bool) (h : StreamsOk cfg s client) (handle : Int) (cap : UInt32) :
    StreamsOk cfg (StreamCall.perform cfg libc (.next handle cap) (s, client)).1
      (StreamCall.perform cfg libc (.next handle cap) (s, client)).2 := by
  have hNothing : client handle = none →
      Function.update client handle
        ((client handle).map fun e => { e with delivered := e.delivered ++ [] }) = client := by
    intro hNone
    rw [hNone, Option.map_none, ← hNone, Function.update_eq_self]
  rcases hi : slotOf handle with _ | i
  · simp only [StreamCall.perform, streamNext, hi]
    rw [hNothing (h.client_none fun i hi' => by rw [hi] at hi'; cases hi')]
    exact h
  by_cases hUsed : (s.streams i).used = true
  · obtain ⟨e, he⟩ := Option.ne_none_iff_exists'.mp (h.known handle i hi hUsed)
    obtain ⟨j, hj, hHolds⟩ := h.held handle e he
    obtain rfl : i = j := by
      rw [hi] at hj
      exact Option.some.inj hj
    simp only [StreamCall.perform, streamNext, hi, hUsed, if_true, he, Option.map_some]
    have hCount : (if (s.streams i).len - (s.streams i).cursor < cap.toNat then
        (s.streams i).len - (s.streams i).cursor else cap.toNat) ≤
        (s.streams i).len - (s.streams i).cursor := by split <;> omega
    have hAdvance := h.advance hi hUsed (hHolds.copied hCount)
    simp only [hUsed] at hAdvance
    exact hAdvance
  · simp only [StreamCall.perform, streamNext, hi, hUsed, if_false, Bool.false_eq_true]
    rw [hNothing (h.client_none fun j hj => by rw [hi] at hj; cases hj; simpa using hUsed)]
    exact h

theorem StreamsOk.close (h : StreamsOk cfg s client) (handle : Int) :
    StreamsOk cfg (StreamCall.perform cfg libc (.close handle) (s, client)).1
      (StreamCall.perform cfg libc (.close handle) (s, client)).2 := by
  rcases hi : slotOf handle with _ | i
  · have hNone := h.client_none fun i hi' => by rw [hi] at hi'; cases hi'
    simp only [StreamCall.perform, streamClose, hi]
    rw [← hNone, Function.update_eq_self]
    exact h
  simp only [StreamCall.perform, streamClose, hi]
  have hRemoved := h.remove hi
  split
  · have hOther : ∀ j, (Function.update s.streams i .zero j).bytes ≠ .null → j ≠ i := by
      rintro j hBytes rfl
      exact hBytes (by rw [Function.update_self]; rfl)
    have hApart : ∀ j id, (Function.update s.streams i .zero j).bytes = .heap id →
        (s.streams i).bytes ≠ .heap id := by
      intro j id hid hFreed
      have hne := hOther j (by rw [hid]; simp)
      rw [Function.update_of_ne hne] at hid
      exact hne (h.apart j i id hid hFreed)
    refine hRemoved.frame (Buffers.free_numbered h.numbered _)
      (fun j hUsed => read_congr (fun _ => Buffers.free_borrowed _) fun id hid => ?_)
      fun j id hid => ?_
    · exact Buffers.free_heap_of_ne (hApart j id hid)
    · rw [Buffers.free_heap_of_ne (hApart j id hid)]
      exact hRemoved.live j id hid
  · exact hRemoved

/-- Every call keeps the table and the client's view in step. -/
theorem StreamsOk.step (h : StreamsOk cfg s client) (call : StreamCall) :
    StreamsOk cfg (call.perform cfg libc (s, client)).1 (call.perform cfg libc (s, client)).2 := by
  cases call with
  | «open» exchange => exact h.open exchange
  | status handle => exact h
  | next handle cap => exact h.next libc handle cap
  | close handle => exact h.close handle

theorem streamsOk_reachable (h : (streamSystem cfg libc).Reachable (s, client)) :
    StreamsOk cfg s client := by
  refine h.invariant (I := fun w => StreamsOk cfg w.1 w.2) ?_ ?_
  · rintro ⟨s, client⟩ ⟨hFresh, hClient⟩
    exact .start hFresh hClient
  · rintro ⟨s, client⟩ call w hOk rfl
    exact hOk.step call

/-! ### What a client sees -/

/-- A count below `2 ^ 32` is zero as an `int32_t` only if it is zero. -/
theorem toInt32_eq_zero {count : Nat} (h : count < 2 ^ 32) (hZero : toInt32 count = 0) :
    count = 0 := by
  have hMod := Int.bmod_emod (x := (count : Int)) (m := 2 ^ 32)
  rw [show Int.bmod (count : Int) (2 ^ 32) = 0 from hZero] at hMod
  omega

/-- A count below `2 ^ 31` stays what it is. -/
theorem toInt32_of_lt {count : Nat} (h : count < 2 ^ 31) : toInt32 count = count :=
  Int.bmod_eq_of_le (by omega) (by omega)

/-- What a call of `next` with a capacity answers and copies, on an open stream. -/
structure Delivers (e : ClientStream) (cap : UInt32) (answer : Int) (copied : List UInt8) :
    Prop where
  /-- The bytes are those behind what has been delivered, as far as the capacity goes. -/
  next : copied = (e.body.drop e.delivered.length).take cap.toNat
  count : copied.length = min cap.toNat (e.body.length - e.delivered.length)
  result : answer = toInt32 copied.length
  /-- A body of `2 ^ 31` bytes is more than the result can count. -/
  counted : e.body.length < 2 ^ 31 → answer = copied.length
  continues : e.delivered ++ copied <+: e.body
  whole : 0 < cap → answer = 0 → e.delivered = e.body

/-- `next` delivers from where the stream is. -/
theorem Holds.delivers {slot : StreamSlot} {e : ClientStream} (h : Holds s.bufs slot e)
    {handle : Int} {i : Fin maxStreams} (hi : slotOf handle = some i) (hSlot : s.streams i = slot)
    (cap : UInt32) :
    Delivers e cap (streamNext handle cap.toNat s).1 (streamNext handle cap.toNat s).2.1 := by
  have hCursor := h.cursor
  have hLen := h.len
  have hDelivered : e.delivered.length = slot.cursor := by
    rw [h.delivered, List.length_take]
    omega
  have hCount : (if slot.len - slot.cursor < cap.toNat then slot.len - slot.cursor
      else cap.toNat) = min cap.toNat (e.body.length - e.delivered.length) := by
    split <;> omega
  obtain ⟨hResult, hBytes⟩ : (streamNext handle cap.toNat s).1 =
        toInt32 (min cap.toNat (e.body.length - e.delivered.length)) ∧
      (streamNext handle cap.toNat s).2.1 = ((s.bufs.read slot.bytes).drop slot.cursor).take
        (min cap.toNat (e.body.length - e.delivered.length)) := by
    simp only [streamNext, hi, hSlot, h.used, if_true, hCount, and_self]
  have hRest : (streamNext handle cap.toNat s).2.1 =
      (e.body.drop e.delivered.length).take cap.toNat := by
    rw [hBytes, hDelivered, ← h.body, List.drop_take, List.take_take, h.body, hLen]
  have hLength : (streamNext handle cap.toNat s).2.1.length =
      min cap.toNat (e.body.length - e.delivered.length) := by
    rw [hRest, List.length_take, List.length_drop]
  rw [← hLength] at hResult
  refine ⟨hRest, hLength, hResult, fun hShort => ?_, ?_, fun hCap hZero => ?_⟩
  · rw [hResult]
    exact toInt32_of_lt (by omega)
  · rw [hRest, hDelivered, h.delivered, ← List.take_add]
    exact List.take_prefix _ _
  · have hCapPos : 0 < cap.toNat := by simpa [UInt32.lt_iff_toNat_lt] using hCap
    have hCapMax := cap.toNat_lt
    rw [hResult] at hZero
    have hNone := toInt32_eq_zero (by omega) hZero
    rw [h.delivered, List.take_of_length_le (by omega)]

/-- An open stream, as the calls on its handle show it. -/
theorem StreamsOk.serves (h : StreamsOk cfg s client) {handle : Int} {e : ClientStream}
    (he : client handle = some e) :
    e.delivered <+: e.body ∧ streamStatus handle s = some e.status ∧
      ∀ cap : UInt32, Delivers e cap (streamNext handle cap.toNat s).1
        (streamNext handle cap.toNat s).2.1 := by
  obtain ⟨i, hi, hHolds⟩ := h.held handle e he
  refine ⟨?_, ?_, fun cap => hHolds.delivers hi rfl cap⟩
  · rw [hHolds.delivered]
    exact List.take_prefix _ _
  · simp only [streamStatus, hi, hHolds.used, if_true, hHolds.status]

/-- A handle that opened no stream, or whose stream is closed, reads nothing. -/
theorem StreamsOk.stale (h : StreamsOk cfg s client) {handle : Int} (hNone : client handle = none) :
    streamStatus handle s = none ∧ ∀ cap, streamNext handle cap s = (-1, [], s) := by
  rcases hi : slotOf handle with _ | i
  · simp only [streamStatus, streamNext, hi, implies_true, and_self]
  have hUnused : (s.streams i).used = false := by
    by_contra hUsed
    exact h.known handle i hi (by simpa using hUsed) hNone
  simp only [streamStatus, streamNext, hi, hUnused, Bool.false_eq_true, if_false, implies_true,
    and_self]

/-- The streams of a client are its own: a call other than `next` and `close` on a handle leaves the
handle's stream as it is. -/
theorem StreamsOk.keeps (h : StreamsOk cfg s client) {handle : Int} {e : ClientStream}
    (he : client handle = some e) {call : StreamCall} (hClose : call ≠ .close handle)
    (hNext : ∀ cap, call ≠ .next handle cap) :
    (call.perform cfg libc (s, client)).2 handle = some e := by
  cases call with
  | status handle' => exact he
  | next handle' cap =>
    have hne : handle ≠ handle' := by
      rintro rfl
      exact hNext cap rfl
    simpa only [StreamCall.perform, Function.update_of_ne hne] using he
  | close handle' =>
    have hne : handle ≠ handle' := by
      rintro rfl
      exact hClose rfl
    simpa only [StreamCall.perform, Function.update_of_ne hne] using he
  | «open» exchange =>
    have hEnd := streamOpen_end libc h exchange
    simp only [StreamCall.perform]
    generalize streamOpen cfg libc exchange s = outcome at hEnd ⊢
    cases hEnd with
    | refused hBusy => exact he
    | failed sink bufs hIdle hExchanged => exact he
    | opened i status sink bufs hFree hIdle hStatus hExchanged =>
      have hPositive : (0 : Int) < (i : Int) + 1 := by omega
      have hne : handle ≠ (i : Int) + 1 := by
        rintro rfl
        obtain ⟨j, hj, hHolds⟩ := h.held _ e he
        rw [slotOf_succ] at hj
        cases hj
        exact absurd (hFree.symm.trans hHolds.used) (by decide)
      simpa only [hPositive, if_true, Function.update_of_ne hne] using he

/-- With the lent buffer in use, an open touches nothing. -/
theorem streamOpen_busy (hLent : s.borrowedBytes.isSome = true)
    (hUsed : ∃ i, (s.streams i).used = true) (exchange : Exchange) :
    streamOpen cfg libc exchange s = (-1, s) := by
  have hBusy : (s.borrowedBytes.isSome && anyUsed s.streams) = true := by
    rw [hLent, Bool.true_and, anyUsed_iff]
    exact hUsed
  rcases hFree : freeSlot s.streams with _ | i
  · simp only [streamOpen, hFree]
  · simp only [streamOpen, hFree, hBusy, if_true]

/-- In every state that calls lead to: what an open stream has delivered is the start of its body,
another `next` copies what follows, up to its capacity, answers how many bytes these are, and answers
0 to a call with room only at the end, the status is the exchange's, and only `next` and `close` on
its own handle change any of this.  Other handles read nothing.  An open that finds the lent buffer in
use changes nothing. -/
theorem streams_deliver (h : (streamSystem cfg libc).Reachable (s, client)) :
    (∀ handle e, client handle = some e →
      e.delivered <+: e.body ∧ streamStatus handle s = some e.status ∧
      (∀ cap : UInt32, Delivers e cap (streamNext handle cap.toNat s).1
        (streamNext handle cap.toNat s).2.1) ∧
      ∀ call : StreamCall, call ≠ .close handle → (∀ cap, call ≠ .next handle cap) →
        (call.perform cfg libc (s, client)).2 handle = some e) ∧
    (∀ handle, client handle = none →
      streamStatus handle s = none ∧ ∀ cap, streamNext handle cap s = (-1, [], s)) ∧
    (s.borrowedBytes.isSome = true → (∃ i, (s.streams i).used = true) →
      ∀ exchange, streamOpen cfg libc exchange s = (-1, s)) := by
  have hOk := streamsOk_reachable h
  refine ⟨fun handle e he => ?_, fun _ hNone => hOk.stale hNone,
    fun hLent hUsed => streamOpen_busy hLent hUsed⟩
  obtain ⟨hPrefix, hStatus, hNext⟩ := hOk.serves he
  exact ⟨hPrefix, hStatus, hNext, fun call hClose hOther => hOk.keeps he hClose hOther⟩

/-- One exchange into a lent buffer. -/
def lentOpen : NativeState × Client :=
  StreamCall.perform board (fun _ => true) (.open ⟨[.ofBytes [0x68, 0x69]], some 200⟩)
    (⟨fun _ => .zero, some 16, .initial (List.replicate 16 0)⟩, fun _ => none)

/-- One byte of it has been read. -/
def lentRead : NativeState × Client := StreamCall.perform board (fun _ => true) (.next 1 1) lentOpen

theorem streams_deliver_lent : streamStatus 1 lentRead.1 = some 200 ∧
    (streamNext 1 8 lentRead.1).1 = 1 ∧ (streamNext 1 8 lentRead.1).2.1 = [0x69] ∧
    Delivers ⟨[0x68, 0x69], 200, [0x68]⟩ 8 1 [0x69] ∧
    ∀ exchange, streamOpen board (fun _ => true) exchange lentRead.1 = (-1, lentRead.1) := by
  have hFresh : FreshStreams board
      ⟨fun _ => .zero, some 16, .initial (List.replicate 16 0)⟩ :=
    ⟨fun _ => rfl, fun _ => rfl, by rintro length ⟨⟩; decide⟩
  have hStart : (streamSystem board (fun _ => true)).Start
      (⟨fun _ => .zero, some 16, .initial (List.replicate 16 0)⟩, fun _ => none) :=
    ⟨hFresh, fun _ => rfl⟩
  have hOpened : (streamSystem board (fun _ => true)).Reachable lentOpen :=
    (System.Reachable.start hStart).step
      (e := .open ⟨[.ofBytes [0x68, 0x69]], some 200⟩) (show lentOpen = _ from rfl)
  have hReachable : (streamSystem board (fun _ => true)).Reachable (lentRead.1, lentRead.2) :=
    hOpened.step (e := .next 1 1) (show lentRead = _ from rfl)
  have hClient : lentRead.2 1 = some ⟨[0x68, 0x69], 200, [0x68]⟩ := by decide
  have hResult : (streamNext 1 8 lentRead.1).1 = 1 := by decide
  have hCopied : (streamNext 1 8 lentRead.1).2.1 = [0x69] := by decide
  have hDeliver := streams_deliver hReachable
  obtain ⟨_, hStatus, hNext, _⟩ := hDeliver.1 1 _ hClient
  have hEight : Delivers _ 8 (streamNext 1 8 lentRead.1).1 (streamNext 1 8 lentRead.1).2.1 :=
    hNext 8
  rw [hResult, hCopied] at hEight
  exact ⟨hStatus, hResult, hCopied, hEight, hDeliver.2.2 (by decide) ⟨0, by decide⟩⟩

end Esp32Fx.Native
