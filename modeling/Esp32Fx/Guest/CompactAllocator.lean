import Esp32Fx.Guest.Usize
import Esp32Fx.Lib.Ledger
import Esp32Fx.Lib.Program
import Esp32Fx.Lib.Transition

/-! The guest's allocator over the C allocator `fx_malloc`, `fx_realloc`, `fx_free`, and
`fx_usable_size`.  Its functions are programs over those four and the memory accesses, in the order
of the source. -/

namespace Esp32Fx.Guest

open Lib

/-- What the functions call and access. -/
inductive Request
  | malloc (size : Nat)
  | realloc (base size : Nat)
  | free (base : Nat)
  | usableSize (base : Nat)
  | load (address : Nat)
  | store (address word : Nat)
  | copyForwards (dest source count : Nat)
  | copyBackwards (dest source count : Nat)

/-- The answers; none is the null pointer. -/
def Answer : Request → Type
  | .malloc _ => Option Nat
  | .realloc _ _ => Option Nat
  | .usableSize _ => Nat
  | .load _ => Nat
  | .free _ => Unit
  | .store _ _ => Unit
  | .copyForwards _ _ _ => Unit
  | .copyBackwards _ _ _ => Unit

abbrev Compact := Program Request Answer

def fxMalloc (size : Nat) : Compact (Option Nat) := Program.perform (Request.malloc size)

def fxRealloc (base size : Nat) : Compact (Option Nat) := Program.perform (Request.realloc base size)

def fxFree (base : Nat) : Compact Unit := Program.perform (Request.free base)

def fxUsableSize (base : Nat) : Compact Nat := Program.perform (Request.usableSize base)

def loadUsize (address : Nat) : Compact Nat := Program.perform (Request.load address)

def storeUsize (address word : Nat) : Compact Unit := Program.perform (Request.store address word)

def copyForwards (dest source count : Nat) : Compact Unit :=
  Program.perform (Request.copyForwards dest source count)

def copyBackwards (dest source count : Nat) : Compact Unit :=
  Program.perform (Request.copyBackwards dest source count)

namespace CompactAllocator

/-- `@max(alignment.toByteUnits(), @alignOf(usize))`. -/
def unit (alignment : Alignment) : Nat := max (toByteUnits alignment) usizeBytes

/-- The address of the slice in the block at `base`. -/
def slot (base : Nat) (alignment : Alignment) : Nat :=
  alignForward (usize (base + usizeBytes)) (unit alignment)

/-- `alloc`. -/
def alloc (len : Nat) (alignment : Alignment) : Compact (Option Nat) :=
  match mathAdd len (unit alignment + usizeBytes) with
  | none => return none
  | some total => do
    match ← fxMalloc total with
    | none => return none
    | some base =>
      let address := slot base alignment
      storeUsize (usizeSub address usizeBytes) base
      return some address

/-- `resize`. -/
def resize (address newLen : Nat) : Compact Bool := do
  let header ← loadUsize (usizeSub address usizeBytes)
  let usable ← fxUsableSize header
  return newLen ≤ usizeSub usable (usizeSub address header)

/-- `remap`. -/
def remap (oldAddress len : Nat) (alignment : Alignment) (newLen : Nat) : Compact (Option Nat) :=
  match mathAdd newLen (unit alignment + usizeBytes) with
  | none => return none
  | some total => do
    let oldHeader ← loadUsize (usizeSub oldAddress usizeBytes)
    let offset := usizeSub oldAddress oldHeader
    match ← fxRealloc oldHeader total with
    | none => return none
    | some base =>
      let address := slot base alignment
      let count := min len newLen
      -- realloc preserves bytes at the old offset, but alignment padding can change.
      let oldData := usize (base + offset)
      if address ≤ oldData then copyForwards address oldData count
      else copyBackwards address oldData count
      storeUsize (usizeSub address usizeBytes) base
      return some address

/-- `free`. -/
def free (address : Nat) : Compact Unit := do
  let header ← loadUsize (usizeSub address usizeBytes)
  fxFree header

end CompactAllocator

/-! ### The C allocator -/

/-- A block of the C allocator.  The number tells blocks apart that have had one address in turn; a
block that `fx_realloc` moves keeps it. -/
structure HeapBlock where
  number : Nat
  usable : Nat

/-- The memory, the blocks by address, and the blocks that were given back so far. -/
structure Machine where
  memory : Memory
  heap : Nat → Option HeapBlock
  issued : Nat
  freed : List Nat

/-- The bytes that belong to the client. -/
def HeapBlock.region (h : HeapBlock) (base : Nat) : Region := ⟨base, h.usable⟩

/-- `memory` has the bytes of every block of `heap`. -/
def KeepsBlocks (heap : Nat → Option HeapBlock) (before memory : Memory) : Prop :=
  ∀ q h, heap q = some h → Memory.AgreeOn (h.region q) before memory

/-- The C allocator may put a block of `usable` bytes at `base`. -/
structure Placed (heap : Nat → Option HeapBlock) (base usable : Nat) : Prop where
  notNull : base ≠ 0
  fresh : heap base = none
  top : base + usable ≤ 0x100000000
  apart : ∀ q h, heap q = some h → Region.Disjoint ⟨base, usable⟩ (h.region q)

/-- The C allocator's specification, and the memory accesses.  What a call does with a pointer that
is no block's address is left open altogether. -/
inductive Does : Lib.Program.Environment Request Answer Machine
  | mallocFails (s : Machine) (size : Nat) (memory : Memory)
    (hKept : KeepsBlocks s.heap s.memory memory) :
    Does s (.malloc size) none { s with memory }
  | malloc (s : Machine) (size base usable : Nat) (memory : Memory) (hSize : size ≤ usable)
    (hPlaced : Placed s.heap base usable) (hKept : KeepsBlocks s.heap s.memory memory) :
    Does s (.malloc size) (some base)
      ⟨memory, Function.update s.heap base (some ⟨s.issued, usable⟩), s.issued + 1, s.freed⟩
  | reallocFails (s : Machine) (base size : Nat) (memory : Memory)
    (hKept : KeepsBlocks s.heap s.memory memory) :
    Does s (.realloc base size) none { s with memory }
  | realloc (s : Machine) (base size : Nat) (h : HeapBlock) (base' usable : Nat) (memory : Memory)
    (hLive : s.heap base = some h) (hSize : size ≤ usable)
    (hPlaced : Placed (Function.update s.heap base none) base' usable)
    (hKept : KeepsBlocks (Function.update s.heap base none) s.memory memory)
    (hMoved : memory.load base' (min h.usable size) = s.memory.load base (min h.usable size)) :
    Does s (.realloc base size) (some base')
      { s with
        memory
        heap := Function.update (Function.update s.heap base none) base' (some ⟨h.number, usable⟩) }
  | free (s : Machine) (base : Nat) (h : HeapBlock) (memory : Memory)
    (hLive : s.heap base = some h)
    (hKept : KeepsBlocks (Function.update s.heap base none) s.memory memory) :
    Does s (.free base) ()
      { s with
        memory
        heap := Function.update s.heap base none
        freed := h.number :: s.freed }
  | usableSize (s : Machine) (base : Nat) (h : HeapBlock) (hLive : s.heap base = some h) :
    Does s (.usableSize base) h.usable s
  | wildRealloc (s s' : Machine) (base size : Nat) (answer : Option Nat)
    (hWild : s.heap base = none) : Does s (.realloc base size) answer s'
  | wildFree (s s' : Machine) (base : Nat) (hWild : s.heap base = none) : Does s (.free base) () s'
  | wildUsableSize (s s' : Machine) (base answer : Nat) (hWild : s.heap base = none) :
    Does s (.usableSize base) answer s'
  | load (s : Machine) (address : Nat) : Does s (.load address) (s.memory.word address) s
  | store (s : Machine) (address word : Nat) :
    Does s (.store address word) ()
      { s with memory := s.memory.store address (Memory.wordBytes word) }
  | copyForwards (s : Machine) (dest source count : Nat) :
    Does s (.copyForwards dest source count) ()
      { s with memory := s.memory.copyForwards dest source count }
  | copyBackwards (s : Machine) (dest source count : Nat) :
    Does s (.copyBackwards dest source count) ()
      { s with memory := s.memory.copyBackwards dest source count }

/-! ### Runs -/

/-- The machine, and the client's ledger of slices. -/
structure CompactState where
  machine : Machine
  live : Ledger Alignment

inductive CompactCall
  | alloc (len : Nat) (alignment : Alignment) (result : Option Nat)
  | resize (address newLen : Nat) (result : Bool)
  | remap (address newLen : Nat) (result : Option Nat)
  | free (address : Nat)
  | write (address offset : Nat) (bytes : List UInt8)

/-- A step of a client that passes back only live slices, with the alignment they were allocated
with, and writes only to its live slices. -/
inductive CompactStep : CompactState → CompactCall → CompactState → Prop
  | alloc (s : CompactState) (len : Nat) (alignment : Alignment) (result : Option Nat) (t : Machine)
    (hRun : (CompactAllocator.alloc len alignment).Runs Does s.machine result t) :
    CompactStep s (.alloc len alignment result)
      ⟨t, s.live.grant t.memory result len alignment⟩
  | resize (s : CompactState) (address newLen : Nat) (b : Block Alignment) (result : Bool)
    (t : Machine) (hLive : s.live address = some b)
    (hRun : (CompactAllocator.resize address newLen).Runs Does s.machine result t) :
    CompactStep s (.resize address newLen result)
      ⟨t, if result then s.live.reallocated b t.memory address address newLen else s.live⟩
  | remap (s : CompactState) (address newLen : Nat) (b : Block Alignment) (result : Option Nat)
    (t : Machine) (hLive : s.live address = some b)
    (hRun : (CompactAllocator.remap address b.bytes.length b.tag newLen).Runs Does s.machine
      result t) :
    CompactStep s (.remap address newLen result)
      ⟨t, s.live.regrant b t.memory address result newLen⟩
  | free (s : CompactState) (address : Nat) (b : Block Alignment) (t : Machine)
    (hLive : s.live address = some b)
    (hRun : (CompactAllocator.free address).Runs Does s.machine () t) :
    CompactStep s (.free address) ⟨t, s.live.freed address⟩
  | write (s : CompactState) (address offset : Nat) (b : Block Alignment) (bytes : List UInt8)
    (hLive : s.live address = some b) (hFits : offset + bytes.length ≤ b.bytes.length) :
    CompactStep s (.write address offset bytes)
      ⟨{ s.machine with memory := s.machine.memory.store (address + offset) bytes },
        s.live.wrote b address offset bytes⟩

/-- Before the first call. -/
structure FreshCompact (s : CompactState) : Prop where
  heap : ∀ base, s.machine.heap base = none
  issued : s.machine.issued = 0
  freed : s.machine.freed = []
  live : ∀ address, s.live address = none

def compactSystem : System CompactState CompactCall := ⟨FreshCompact, CompactStep⟩

end Esp32Fx.Guest
