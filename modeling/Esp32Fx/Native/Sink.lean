import Mathlib.Logic.Function.Basic
import Esp32Fx.Lib.CString

/-! The byte sink of `runtime/fx_wamr_native.c`: `write_body` and the functions that append to a
sink.  Buffers are blocks: the one that the caller lends, and those of the heap by number.  `Libc`
says which calls of `realloc` succeed; a successful call moves the block to a fresh one. -/

namespace Esp32Fx.Native

open Lib

/-- The constants of a build. -/
structure Config where
  /-- `SIZE_MAX`. -/
  sizeMax : Nat
  /-- `FX_WAMR_MAX_STREAM_BYTES`. -/
  maxStreamBytes : Nat
  maxStreamBytes_le : maxStreamBytes ≤ sizeMax

/-- The board's build. -/
def board : Config := ⟨2 ^ 32 - 1, 65536, by decide⟩

/-- Where a `bytes` field points. -/
inductive Pointer
  | null
  | borrowed
  | heap (id : Nat)
  deriving DecidableEq, Repr

/-- A block of the heap: its size, and the bytes of it that have been written. -/
structure HeapBlock where
  size : Nat
  bytes : List UInt8
  deriving DecidableEq, Repr

/-- The lent buffer and the heap.  `attempts` counts the calls of `realloc`, and `released` has the
pointers that were passed to `free`, or to a `realloc` that moved their block, in order. -/
structure Buffers where
  borrowed : List UInt8
  heap : Nat → Option HeapBlock
  attempts : Nat
  released : List Pointer

namespace Buffers

def initial (borrowed : List UInt8) : Buffers := ⟨borrowed, fun _ => none, 0, []⟩

/-- The bytes behind a pointer. -/
def read (bufs : Buffers) : Pointer → List UInt8
  | .null => []
  | .borrowed => bufs.borrowed
  | .heap id => ((bufs.heap id).map HeapBlock.bytes).getD []

/-- `memcpy` to `offset` bytes past a pointer. -/
def copyTo (bufs : Buffers) (p : Pointer) (offset : Nat) (contents : List UInt8) : Buffers :=
  let overwrite (bytes : List UInt8) :=
    bytes.take offset ++ contents ++ bytes.drop (offset + contents.length)
  match p with
  | .null => bufs
  | .borrowed => { bufs with borrowed := overwrite bufs.borrowed }
  | .heap id =>
    { bufs with
      heap := Function.update bufs.heap id
        ((bufs.heap id).map fun block => { block with bytes := overwrite block.bytes }) }

/-- `free`. -/
def free (bufs : Buffers) : Pointer → Buffers
  | .heap id =>
    { bufs with heap := Function.update bufs.heap id none, released := bufs.released ++ [.heap id] }
  | .borrowed => { bufs with released := bufs.released ++ [.borrowed] }
  | .null => bufs

/-- `realloc(p, size)`. -/
def realloc (libc : Nat → Bool) (bufs : Buffers) (p : Pointer) (size : Nat) :
    Option Pointer × Buffers :=
  let id := bufs.attempts
  let bytes := (bufs.read p).take size
  let bufs := { bufs with attempts := bufs.attempts + 1 }
  if libc id then
    let bufs := bufs.free p
    (some (.heap id), { bufs with heap := Function.update bufs.heap id (some ⟨size, bytes⟩) })
  else (none, bufs)

end Buffers

/-- `struct byte_sink`. -/
structure ByteSink where
  bytes : Pointer
  len : Nat
  cap : Nat
  owned : Bool
  overflow : Bool
  deriving DecidableEq, Repr

/-- The arguments of one call of `write_body`. -/
structure Chunk where
  size : Nat
  nmemb : Nat
  contents : List UInt8
  length_contents : contents.length = size * nmemb

/-- `rounds` rounds of the loop that doubles the capacity until `wanted` bytes fit. -/
def growStream (cfg : Config) (wanted : Nat) : Nat → Nat → Nat
  | 0, next => next
  | rounds + 1, next =>
    if next < wanted then
      if next > cfg.maxStreamBytes / 2 then cfg.maxStreamBytes
      else growStream cfg wanted rounds (next * 2)
    else next

/-- The capacity that `write_body` asks for. -/
def nextCapacity (cfg : Config) (cap wanted : Nat) : Nat :=
  let next := growStream cfg wanted wanted (if cap < 4096 then 4096 else cap)
  if next > cfg.maxStreamBytes then cfg.maxStreamBytes else next

/-- `write_body`: the count that it returns, the sink, and the buffers. -/
def writeBody (cfg : Config) (libc : Nat → Bool) (chunk : Chunk) (sink : ByteSink)
    (bufs : Buffers) : Nat × ByteSink × Buffers :=
  if chunk.size ≠ 0 ∧ chunk.nmemb > cfg.sizeMax / chunk.size then
    (0, { sink with overflow := true }, bufs)
  else
    let count := chunk.size * chunk.nmemb
    if count > sink.cap - sink.len then (0, { sink with overflow := true }, bufs)
    else
      let wanted := sink.len + count
      if sink.owned = true ∧ wanted > 0 then
        let next := nextCapacity cfg sink.cap wanted
        match bufs.realloc libc sink.bytes next with
        | (none, bufs) => (0, { sink with overflow := true }, bufs)
        | (some grown, bufs) =>
          (count, { sink with bytes := grown, cap := next, len := wanted },
            if count ≠ 0 then bufs.copyTo grown sink.len chunk.contents else bufs)
      else
        (count, { sink with len := wanted },
          if count ≠ 0 then bufs.copyTo sink.bytes sink.len chunk.contents else bufs)

/-- The arguments that `sink_append` passes on: `len` bytes of size 1. -/
def Chunk.ofBytes (bytes : List UInt8) : Chunk := ⟨1, bytes.length, bytes, by simp⟩

/-- `sink_append`: whether it returns 0, the sink, and the buffers. -/
def sinkAppend (cfg : Config) (libc : Nat → Bool) (bytes : List UInt8) (sink : ByteSink)
    (bufs : Buffers) : Bool × ByteSink × Buffers :=
  if bytes.length = 0 then (true, sink, bufs)
  else
    let (count, sink, bufs) := writeBody cfg libc (.ofBytes bytes) sink bufs
    (count = bytes.length, sink, bufs)

/-- The `escaped` bytes of `sink_append_json_string` for a byte of the value. -/
def escaped (ch : UInt8) : List UInt8 :=
  if ch = 0x22 then [0x5c, 0x22]
  else if ch = 0x5c then [0x5c, 0x5c]
  else if ch = 0x08 then [0x5c, 0x62]
  else if ch = 0x0c then [0x5c, 0x66]
  else if ch = 0x0a then [0x5c, 0x6e]
  else if ch = 0x0d then [0x5c, 0x72]
  else if ch = 0x09 then [0x5c, 0x74]
  else if ch < 0x20 then
    let high := ch >>> 4
    let low := ch &&& 0x0f
    [0x5c, 0x75, 0x30, 0x30, if high < 10 then 0x30 + high else 0x61 + high - 10,
      if low < 10 then 0x30 + low else 0x61 + low - 10]
  else [ch]

/-- The loop of `sink_append_json_string`, and the quote after it. -/
def sinkAppendEscaped (cfg : Config) (libc : Nat → Bool) :
    List UInt8 → ByteSink → Buffers → Bool × ByteSink × Buffers
  | [], sink, bufs => sinkAppend cfg libc [0x22] sink bufs
  | ch :: cursor, sink, bufs =>
    if ch = 0 then sinkAppend cfg libc [0x22] sink bufs
    else
      match sinkAppend cfg libc (escaped ch) sink bufs with
      | (false, sink, bufs) => (false, sink, bufs)
      | (true, sink, bufs) => sinkAppendEscaped cfg libc cursor sink bufs

def sinkAppendJsonString (cfg : Config) (libc : Nat → Bool) (value : List UInt8) (sink : ByteSink)
    (bufs : Buffers) : Bool × ByteSink × Buffers :=
  match sinkAppend cfg libc [0x22] sink bufs with
  | (false, sink, bufs) => (false, sink, bufs)
  | (true, sink, bufs) => sinkAppendEscaped cfg libc value sink bufs

end Esp32Fx.Native
