import Esp32Fx.Lib.Transition
import Esp32Fx.Native.Sink

/-! The response streams of `runtime/fx_wamr_native.c`: the table of streams, the four calls that a
guest makes on it, and what a client knows of its streams from the calls it has made. -/

namespace Esp32Fx.Native

open Lib

/-- `FX_WAMR_MAX_STREAMS`. -/
abbrev maxStreams : Nat := 4

/-- `struct stream_slot`. -/
structure StreamSlot where
  used : Bool
  owned : Bool
  status : UInt16
  bytes : Pointer
  len : Nat
  cursor : Nat
  deriving DecidableEq, Repr

/-- A slot that `memset` has cleared. -/
def StreamSlot.zero : StreamSlot := ⟨false, false, 0, .null, 0, 0⟩

/-- The table, the length of the lent buffer when one is set, and the buffers. -/
structure NativeState where
  streams : Fin maxStreams → StreamSlot
  borrowedBytes : Option Nat
  bufs : Buffers

/-- An HTTP exchange as the sink sees it: the chunks in the order of their arrival, and the status
when the exchange succeeds after them. -/
structure Exchange where
  chunks : List Chunk
  status : Option UInt16

/-- The body that an exchange delivers. -/
def Exchange.body (exchange : Exchange) : List UInt8 := exchange.chunks.flatMap Chunk.contents

/-- `perform_request`: the status or none for -1, the sink, and the buffers.  An exchange fails at
the first chunk that `write_body` does not take whole. -/
def performRequest (cfg : Config) (libc : Nat → Bool) (status : Option UInt16) :
    List Chunk → ByteSink → Buffers → Option UInt16 × ByteSink × Buffers
  | [], sink, bufs => (status, sink, bufs)
  | chunk :: chunks, sink, bufs =>
    let (count, sink, bufs) := writeBody cfg libc chunk sink bufs
    if count = chunk.size * chunk.nmemb then performRequest cfg libc status chunks sink bufs
    else (none, sink, bufs)

/-- The slot of a handle in range. -/
def slotOf (handle : Int) : Option (Fin maxStreams) :=
  if h : 1 ≤ handle ∧ handle ≤ maxStreams then some ⟨(handle - 1).toNat, by omega⟩ else none

/-- The first slot that is not in use. -/
def freeSlot (streams : Fin maxStreams → StreamSlot) : Option (Fin maxStreams) :=
  (List.finRange maxStreams).find? fun i => !(streams i).used

def anyUsed (streams : Fin maxStreams → StreamSlot) : Bool :=
  (List.finRange maxStreams).any fun i => (streams i).used

/-- The sink that an exchange starts with. -/
def openSink (cfg : Config) (borrowedBytes : Option Nat) : ByteSink :=
  match borrowedBytes with
  | some length => ⟨.borrowed, 0, length, false, false⟩
  | none => ⟨.null, 0, cfg.maxStreamBytes, true, false⟩

/-- `fx_http_stream_open_wrapper`: the handle or -1. -/
def streamOpen (cfg : Config) (libc : Nat → Bool) (exchange : Exchange) (s : NativeState) :
    Int × NativeState :=
  match freeSlot s.streams with
  | none => (-1, s)
  | some slot =>
    if s.borrowedBytes.isSome && anyUsed s.streams then (-1, s)
    else
      match performRequest cfg libc exchange.status exchange.chunks (openSink cfg s.borrowedBytes)
        s.bufs with
      | (none, sink, bufs) =>
        (-1, { s with bufs := if sink.owned then bufs.free sink.bytes else bufs })
      | (some status, sink, bufs) =>
        (slot + 1, {
          s with
          streams := Function.update s.streams slot
            ⟨true, sink.owned, status, sink.bytes, sink.len, 0⟩
          bufs := bufs })

/-- `fx_http_stream_status_wrapper`: the status, or none for -1. -/
def streamStatus (handle : Int) (s : NativeState) : Option UInt16 :=
  match slotOf handle with
  | none => none
  | some i => if (s.streams i).used then some (s.streams i).status else none

/-- A count as an `int32_t`. -/
def toInt32 (count : Nat) : Int := Int.bmod count (2 ^ 32)

/-- `fx_http_stream_next_wrapper`: the result, and the bytes that it copies to the guest. -/
def streamNext (handle : Int) (cap : Nat) (s : NativeState) : Int × List UInt8 × NativeState :=
  match slotOf handle with
  | none => (-1, [], s)
  | some i =>
    let slot := s.streams i
    if slot.used then
      let remaining := slot.len - slot.cursor
      let count := if remaining < cap then remaining else cap
      (toInt32 count, ((s.bufs.read slot.bytes).drop slot.cursor).take count,
        { s with
          streams := Function.update s.streams i { slot with cursor := slot.cursor + count } })
    else (-1, [], s)

/-- `fx_http_stream_close_wrapper`. -/
def streamClose (handle : Int) (s : NativeState) : NativeState :=
  match slotOf handle with
  | none => s
  | some i =>
    { s with
      streams := Function.update s.streams i .zero
      bufs := if (s.streams i).owned then s.bufs.free (s.streams i).bytes else s.bufs }

/-! ### The client's view -/

/-- A stream as its client knows it: the body and the status of the exchange that opened it, and the
bytes that have been delivered since. -/
structure ClientStream where
  body : List UInt8
  status : UInt16
  delivered : List UInt8
  deriving DecidableEq, Repr

/-- The streams that are open, by handle. -/
abbrev Client := Int → Option ClientStream

/-- A call of the guest's.  A capacity is a `uint32_t`. -/
inductive StreamCall
  | open (exchange : Exchange)
  | status (handle : Int)
  | next (handle : Int) (cap : UInt32)
  | close (handle : Int)

/-- A call, and what the client makes of its result: a stream is opened by a positive handle, grows
by what its own `next` copies, and ends at its own `close`. -/
def StreamCall.perform (cfg : Config) (libc : Nat → Bool) :
    StreamCall → NativeState × Client → NativeState × Client
  | .open exchange, (s, client) =>
    let (handle, s) := streamOpen cfg libc exchange s
    (s, if 0 < handle then
      Function.update client handle ((exchange.status).map (⟨exchange.body, ·, []⟩))
    else client)
  | .status _, (s, client) => (s, client)
  | .next handle cap, (s, client) =>
    let (_, copied, s) := streamNext handle cap.toNat s
    (s, Function.update client handle
      ((client handle).map fun e => { e with delivered := e.delivered ++ copied }))
  | .close handle, (s, client) => (streamClose handle s, Function.update client handle none)

/-- A state before the first call, with or without a lent buffer. -/
structure FreshStreams (cfg : Config) (s : NativeState) : Prop where
  streams : ∀ i, s.streams i = .zero
  heap : ∀ id, s.bufs.heap id = none
  borrowed : ∀ length, s.borrowedBytes = some length →
    s.bufs.borrowed.length = length ∧ length ≤ cfg.sizeMax

/-- The runs of calls on the streams. -/
def streamSystem (cfg : Config) (libc : Nat → Bool) : System (NativeState × Client) StreamCall where
  Start w := FreshStreams cfg w.1 ∧ ∀ handle, w.2 handle = none
  Step w call w' := w' = call.perform cfg libc w

end Esp32Fx.Native
