import Mathlib.Logic.Function.Basic
import Esp32Fx.Lib.Ledger
import Esp32Fx.Lib.Transition
import Esp32Fx.Runner.Addresses

/-! The allocator that the runner gives to WAMR: guest linear memory in its own arena, two large
blocks in the metadata arena, and the C library for the rest.  An address is a number and the null
pointer is 0.  A function that ends in a call of the C library returns that call, so that the
functions stay executable whatever the library answers. -/

namespace Esp32Fx.Runner

open Lib

/-- An entry of `metadata_blocks`. -/
structure MetadataBlock where
  offset : Nat
  size : Nat
  deriving DecidableEq, Repr

/-- `struct wamr_allocator`. -/
structure WamrAllocator where
  linearMemory : Nat
  capacity : Nat
  used : Nat
  inUse : Bool
  metadata : Nat
  metadataBlocks : Fin 2 → MetadataBlock

/-- `a` with `block` in an entry of `metadata_blocks`. -/
def WamrAllocator.withBlock (a : WamrAllocator) (slot : Fin 2) (block : MetadataBlock) :
    WamrAllocator :=
  { a with metadataBlocks := Function.update a.metadataBlocks slot block }

/-- `mem_alloc_usage_t`, as far as the allocator tells usages apart. -/
inductive Usage
  | runtime
  | linearMemory
  deriving DecidableEq, Repr

/-- A `size_t`. -/
def sizeT (n : Nat) : Nat := n % 2 ^ 32

/-- `(end + 7U) & ~(size_t)7U`. -/
def alignEight (blockEnd : Nat) : Nat := sizeT (blockEnd + 7) / 8 * 8

/-- Whether `size` bytes at `offset` reach into a block that is in use. -/
def MetadataBlock.overlaps (block : MetadataBlock) (offset size : Nat) : Bool :=
  block.size ≠ 0 && (offset < sizeT (block.offset + block.size) && sizeT (offset + size) > block.offset)

/-- `FX_METADATA_BYTES - offset`. -/
def metadataRoom (offset : Nat) : Nat := sizeT (metadataBytes + 2 ^ 32 - offset)

/-- The search of `metadata_malloc` for an offset.  A round that finds a block in the way goes on
behind that block. -/
def findOffset (blocks : Fin 2 → MetadataBlock) (size : Nat) : Nat → Nat → Option Nat
  | 0, _ => none
  | rounds + 1, offset =>
    if size > metadataRoom offset then none
    else
      match (List.finRange 2).find? fun i => (blocks i).overlaps offset size with
      | some i => findOffset blocks size rounds (alignEight (sizeT ((blocks i).offset + (blocks i).size)))
      | none => some offset

/-- `metadata_malloc`.  Two rounds are enough, since one entry is empty. -/
def metadataMalloc (a : WamrAllocator) (size : Nat) : Nat × WamrAllocator :=
  if size = 0 ∨ size > metadataBytes then (0, a)
  else
    match (List.finRange 2).find? fun slot => (a.metadataBlocks slot).size = 0 with
    | none => (0, a)
    | some slot =>
      match findOffset a.metadataBlocks size 2 0 with
      | none => (0, a)
      | some offset => (a.metadata + offset, a.withBlock slot ⟨offset, size⟩)

/-- `metadata_slot`: none for -1. -/
def metadataSlot (a : WamrAllocator) (pointer : Nat) : Option (Fin 2) :=
  (List.finRange 2).find? fun i =>
    (a.metadataBlocks i).size ≠ 0 ∧ pointer = a.metadata + (a.metadataBlocks i).offset

/-- How a call ends: it returns a pointer, or it returns what the C library returns. -/
inductive Finish
  | returns (pointer : Nat) (a : WamrAllocator) (m : Memory)
  | malloc (size : Nat)
  | realloc (pointer size : Nat)
  | free (pointer : Nat)

/-- `wamr_malloc`. -/
def wamrMalloc (usage : Usage) (size : Nat) (a : WamrAllocator) (m : Memory) : Finish :=
  if usage ≠ .linearMemory then
    if size > 32768 then
      let (pointer, a) := metadataMalloc a size
      .returns pointer a m
    else .malloc size
  else if a.inUse ∨ size > a.capacity then .returns 0 a m
  else
    .returns a.linearMemory { a with used := size, inUse := true }
      (m.store a.linearMemory (List.replicate size 0))

/-- `wamr_realloc`. -/
def wamrRealloc (usage : Usage) (pointer size : Nat) (a : WamrAllocator) (m : Memory) : Finish :=
  if usage ≠ .linearMemory then
    match metadataSlot a pointer with
    | some slot =>
      let offset := (a.metadataBlocks slot).offset
      if size > metadataRoom offset then .returns 0 a m
      else if (List.finRange 2).any fun i => i ≠ slot ∧ (a.metadataBlocks i).overlaps offset size then
        .returns 0 a m
      else
        .returns (if size ≠ 0 then pointer else 0) (a.withBlock slot ⟨offset, size⟩) m
    | none =>
      if pointer = 0 then wamrMalloc usage size a m
      else if size > 32768 then .returns 0 a m
      else .realloc pointer size
  else if pointer ≠ a.linearMemory ∨ size > a.capacity then .returns 0 a m
  else
    .returns a.linearMemory { a with used := size }
      (if size > a.used then
        m.store (a.linearMemory + a.used) (List.replicate (size - a.used) 0)
      else m)

/-- `wamr_free`. -/
def wamrFree (pointer : Nat) (a : WamrAllocator) (m : Memory) : Finish :=
  match metadataSlot a pointer with
  | some slot =>
    .returns 0 (a.withBlock slot { a.metadataBlocks slot with size := 0 }) m
  | none =>
    if pointer = a.linearMemory then .returns 0 { a with used := 0, inUse := false } m
    else .free pointer

/-! ### The C library -/

/-- The sizes of the C library's live blocks, by address. -/
abbrev Heap := Nat → Option Nat

/-- The bytes that a block of the library keeps to itself: a block of no bytes has an address of its
own. -/
def footprint (p n : Nat) : Region := ⟨p, max n 1⟩

/-- What the library may not touch: the arenas, and its live blocks other than those at `p`. -/
def Untouched (arenas : List Region) (heap : Heap) (p : Nat) (m m' : Memory) : Prop :=
  (∀ r ∈ arenas, Memory.AgreeOn r m m') ∧
    ∀ q n, q ≠ p → heap q = some n → Memory.AgreeOn ⟨q, n⟩ m m'

/-- Where the library may put a block: apart from the arenas and from its live blocks. -/
def Placed (arenas : List Region) (heap : Heap) (p n : Nat) : Prop :=
  p ≠ 0 ∧ (∀ r ∈ arenas, (footprint p n).Disjoint r) ∧
    ∀ q k, heap q = some k → (footprint p n).Disjoint (footprint q k)

/-- The C library's side of a call, as its standard has it: `p` is the pointer that comes back. -/
inductive Finishes (arenas : List Region) (heap : Heap) (a : WamrAllocator) (m : Memory) :
    Finish → (p : Nat) → WamrAllocator → Memory → Heap → Prop
  | returns (p : Nat) (a' : WamrAllocator) (m' : Memory) :
    Finishes arenas heap a m (.returns p a' m') p a' m' heap
  | mallocFails (size : Nat) : Finishes arenas heap a m (.malloc size) 0 a m heap
  | malloc (size p : Nat) (m' : Memory) (hPlaced : Placed arenas heap p size)
    (hUntouched : Untouched arenas heap p m m') :
    Finishes arenas heap a m (.malloc size) p a m' (Function.update heap p (some size))
  | reallocFails (pointer size : Nat) (hSize : size ≠ 0) :
    Finishes arenas heap a m (.realloc pointer size) 0 a m heap
  | reallocFrees (pointer : Nat) (m' : Memory) (hUntouched : Untouched arenas heap pointer m m') :
    Finishes arenas heap a m (.realloc pointer 0) 0 a m' (Function.update heap pointer none)
  | realloc (pointer size p n : Nat) (m' : Memory) (hOld : heap pointer = some n)
    (hPlaced : Placed arenas (Function.update heap pointer none) p size)
    (hUntouched : Untouched arenas heap pointer m m')
    (hKept : m'.load p (min size n) = m.load pointer (min size n)) :
    Finishes arenas heap a m (.realloc pointer size) p a m'
      (Function.update (Function.update heap pointer none) p (some size))
  | free (pointer : Nat) (m' : Memory) (hUntouched : Untouched arenas heap pointer m m') :
    Finishes arenas heap a m (.free pointer) 0 a m' (Function.update heap pointer none)

/-! ### Runs -/

/-- The allocator, the memory, the library's blocks, and the client's ledger. -/
structure AllocatorState where
  allocator : WamrAllocator
  memory : Memory
  heap : Heap
  live : Ledger Usage

/-- The arenas that the library has no part in. -/
def WamrAllocator.arenas (a : WamrAllocator) : List Region :=
  [⟨a.metadata, metadataBytes⟩, ⟨a.linearMemory, a.capacity⟩]

/-- The client's calls, with the pointers that they return. -/
inductive AllocatorCall
  | malloc (usage : Usage) (size : UInt32) (p : Nat)
  | realloc (usage : Usage) (pointer : Nat) (size : UInt32) (p : Nat)
  | free (pointer : Nat)
  | write (pointer offset : Nat) (bytes : List UInt8)

/-- A step of a client that passes back only live pointers of the usage they were allocated for, and
writes only to its live blocks. -/
inductive AllocatorStep : AllocatorState → AllocatorCall → AllocatorState → Prop
  | malloc (s : AllocatorState) (usage : Usage) (size : UInt32) (p : Nat) (a : WamrAllocator)
    (m : Memory) (heap : Heap)
    (hFinish : Finishes s.allocator.arenas s.heap s.allocator s.memory
      (wamrMalloc usage size.toNat s.allocator s.memory) p a m heap) :
    AllocatorStep s (.malloc usage size p)
      ⟨a, m, heap, if p = 0 then s.live else s.live.allocated m p size.toNat usage⟩
  | realloc (s : AllocatorState) (pointer : Nat) (b : Block Usage) (size : UInt32) (p : Nat)
    (a : WamrAllocator) (m : Memory) (heap : Heap) (hLive : s.live pointer = some b)
    (hFinish : Finishes s.allocator.arenas s.heap s.allocator s.memory
      (wamrRealloc b.tag pointer size.toNat s.allocator s.memory) p a m heap) :
    AllocatorStep s (.realloc b.tag pointer size p)
      ⟨a, m, heap,
        if p ≠ 0 then s.live.reallocated b m pointer p size.toNat
        else if size.toNat = 0 then s.live.freed pointer else s.live⟩
  | free (s : AllocatorState) (pointer : Nat) (b : Block Usage) (p : Nat) (a : WamrAllocator)
    (m : Memory) (heap : Heap) (hLive : s.live pointer = some b)
    (hFinish : Finishes s.allocator.arenas s.heap s.allocator s.memory
      (wamrFree pointer s.allocator s.memory) p a m heap) :
    AllocatorStep s (.free pointer) ⟨a, m, heap, s.live.freed pointer⟩
  | write (s : AllocatorState) (pointer offset : Nat) (b : Block Usage) (bytes : List UInt8)
    (hLive : s.live pointer = some b) (hFits : offset + bytes.length ≤ b.bytes.length) :
    AllocatorStep s (.write pointer offset bytes)
      { s with
        memory := s.memory.store (pointer + offset) bytes
        live := s.live.wrote b pointer offset bytes }

/-- A fresh allocator on two arenas of their own. -/
structure FreshAllocator (s : AllocatorState) : Prop where
  used : s.allocator.used = 0
  inUse : s.allocator.inUse = false
  blocks : ∀ i, s.allocator.metadataBlocks i = ⟨0, 0⟩
  metadata_pos : 0 < s.allocator.metadata
  metadata_aligned : s.allocator.metadata % 8 = 0
  linear_pos : 0 < s.allocator.linearMemory
  capacity_pos : 0 < s.allocator.capacity
  apart : Region.Disjoint ⟨s.allocator.metadata, metadataBytes⟩
    ⟨s.allocator.linearMemory, s.allocator.capacity⟩
  heap : ∀ p, s.heap p = none
  live : ∀ p, s.live p = none

def allocatorSystem : System AllocatorState AllocatorCall := ⟨FreshAllocator, AllocatorStep⟩

end Esp32Fx.Runner
