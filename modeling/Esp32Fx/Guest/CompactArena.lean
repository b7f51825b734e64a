import Esp32Fx.Guest.Usize
import Esp32Fx.Lib.Ledger
import Esp32Fx.Lib.Program
import Esp32Fx.Lib.Transition

/-! The guest's arena of fixed-size nodes.  The nodes are the list from `head` on along `next`, with
the fields of each header and the address where it lies. -/

namespace Esp32Fx.Guest

open Lib

/-- `chunk_bytes`. -/
def chunkBytes : Nat := 512

/-- `@sizeOf(Node)`: five fields of a `usize` each. -/
def nodeBytes : Nat := 20

structure Node where
  address : Nat
  totalLen : Nat
  used : Nat
  lastStart : Nat
  lastLen : Nat
  deriving DecidableEq, Repr

namespace Node

/-- The address of `data(node)`. -/
def data (node : Node) : Nat := node.address + nodeBytes

/-- The length of `data(node)`. -/
def dataLen (node : Node) : Nat := node.totalLen - nodeBytes

end Node

/-- What the arena calls: its child allocator, and `@memcpy`. -/
inductive ArenaRequest
  | rawAlloc (len : Nat)
  | rawFree (address len : Nat)
  | memcpy (dest source count : Nat)

def ArenaAnswer : ArenaRequest → Type
  | .rawAlloc _ => Option Nat
  | .rawFree _ _ => Unit
  | .memcpy _ _ _ => Unit

abbrev Arena := Program ArenaRequest ArenaAnswer

def rawAlloc (len : Nat) : Arena (Option Nat) := Program.perform (ArenaRequest.rawAlloc len)

def rawFree (address len : Nat) : Arena Unit := Program.perform (ArenaRequest.rawFree address len)

def memcpy (dest source count : Nat) : Arena Unit :=
  Program.perform (ArenaRequest.memcpy dest source count)

namespace CompactArena

/-- `allocateFrom`, with the node as it is afterwards. -/
def allocateFrom (node : Node) (len : Nat) (alignment : Alignment) : Option (Nat × Node) :=
  let aligned :=
    usizeSub (alignForward (usize (node.data + node.used)) (toByteUnits alignment)) node.data
  if aligned > node.dataLen ∨ len > node.dataLen - aligned then none
  else
    some (node.data + aligned,
      { node with used := aligned + len, lastStart := aligned, lastLen := len })

/-- The result and the nodes after `allocateFrom` on a new node. -/
def withNew (node : Node) (next : List Node) : Option (Nat × Node) → Option Nat × List Node
  | none => (none, node :: next)
  | some (result, node) => (some result, node :: next)

/-- The part of `alloc` that gets a new node. -/
def allocNode (nodes : List Node) (len : Nat) (alignment : Alignment) :
    Arena (Option Nat × List Node) :=
  match mathAdd nodeBytes (toByteUnits alignment - 1) with
  | none => return (none, nodes)
  | some minimum =>
    match mathAdd minimum len with
    | none => return (none, nodes)
    | some required => do
      let totalLen := max required (nodeBytes + chunkBytes)
      match ← rawAlloc totalLen with
      | none => return (none, nodes)
      | some address =>
        let node : Node := ⟨address, totalLen, 0, 0, 0⟩
        return withNew node nodes (allocateFrom node len alignment)

/-- The result and the nodes after `allocateFrom` on the head, or those from a new node. -/
def orNew (nodes : List Node) (next : List Node) (len : Nat) (alignment : Alignment) :
    Option (Nat × Node) → Arena (Option Nat × List Node)
  | some (result, node) => return (some result, node :: next)
  | none => allocNode nodes len alignment

/-- `alloc`. -/
def alloc (nodes : List Node) (len : Nat) (alignment : Alignment) : Arena (Option Nat × List Node) :=
  match nodes with
  | [] => allocNode nodes len alignment
  | node :: next => orNew nodes next len alignment (allocateFrom node len alignment)

/-- Whether a slice is the last one that the node has given out. -/
def isLast (node : Node) (address len : Nat) : Bool :=
  address = node.data + node.lastStart && len = node.lastLen

/-- The node with `newLen` bytes in its last slice. -/
def setLast (node : Node) (newLen : Nat) : Node :=
  { node with used := node.lastStart + newLen, lastLen := newLen }

/-- `resize`. -/
def resize (nodes : List Node) (address len newLen : Nat) : Bool × List Node :=
  if newLen ≤ len then
    match nodes with
    | [] => (true, [])
    | node :: rest =>
      if isLast node address len then (true, setLast node newLen :: rest) else (true, node :: rest)
  else
    match nodes with
    | [] => (false, [])
    | node :: rest =>
      if !isLast node address len then (false, node :: rest)
      else if node.lastStart > node.dataLen ∨ newLen > node.dataLen - node.lastStart then
        (false, node :: rest)
      else (true, setLast node newLen :: rest)

/-- `remap`. -/
def remap (nodes : List Node) (address len : Nat) (alignment : Alignment) (newLen : Nat) :
    Arena (Option Nat × List Node) :=
  match resize nodes address len newLen with
  | (true, nodes) => return (some address, nodes)
  | (false, nodes) => do
    match ← alloc nodes newLen alignment with
    | (none, nodes) => return (none, nodes)
    | (some result, nodes) =>
      memcpy result address (min len newLen)
      return (some result, nodes)

/-- `free`. -/
def free (nodes : List Node) (address len : Nat) : List Node :=
  match nodes with
  | [] => []
  | node :: rest => if !isLast node address len then node :: rest else setLast node 0 :: rest

/-- `deinit`. -/
def deinit : List Node → Arena Unit
  | [] => return ()
  | node :: next => do
    rawFree node.address node.totalLen
    deinit next

end CompactArena

/-! ### The child allocator -/

/-- The memory, the lengths of the child's live blocks by address, and the blocks that the arena got
and returned so far, the latest first. -/
structure ArenaMachine where
  memory : Memory
  child : Nat → Option Nat
  obtained : List (Nat × Nat)
  returned : List (Nat × Nat)

/-- `memory` has the bytes of every block of `child`. -/
def ChildKeeps (child : Nat → Option Nat) (before memory : Memory) : Prop :=
  ∀ q n, child q = some n → Memory.AgreeOn ⟨q, n⟩ before memory

/-- The child's contract for a new block, aligned for a `Node`. -/
structure ChildPlaces (child : Nat → Option Nat) (address len : Nat) : Prop where
  notNull : address ≠ 0
  aligned : address % usizeBytes = 0
  fresh : child address = none
  top : address + len ≤ 0x100000000
  apart : ∀ q n, child q = some n → Region.Disjoint ⟨address, len⟩ ⟨q, n⟩

/-- The child may refuse any call.  What it does with a slice that is no block of its own is left
open altogether, and so is a `@memcpy` between slices that overlap. -/
inductive ArenaDoes : Program.Environment ArenaRequest ArenaAnswer ArenaMachine
  | rawAllocFails (s : ArenaMachine) (len : Nat) (memory : Memory)
    (hKept : ChildKeeps s.child s.memory memory) :
    ArenaDoes s (.rawAlloc len) none { s with memory }
  | rawAlloc (s : ArenaMachine) (len address : Nat) (memory : Memory)
    (hPlaces : ChildPlaces s.child address len) (hKept : ChildKeeps s.child s.memory memory) :
    ArenaDoes s (.rawAlloc len) (some address)
      ⟨memory, Function.update s.child address (some len), (address, len) :: s.obtained, s.returned⟩
  | rawFree (s : ArenaMachine) (address len : Nat) (memory : Memory)
    (hLive : s.child address = some len)
    (hKept : ChildKeeps (Function.update s.child address none) s.memory memory) :
    ArenaDoes s (.rawFree address len) ()
      ⟨memory, Function.update s.child address none, s.obtained, (address, len) :: s.returned⟩
  | wildFree (s s' : ArenaMachine) (address len : Nat) (hWild : s.child address ≠ some len) :
    ArenaDoes s (.rawFree address len) () s'
  | memcpy (s : ArenaMachine) (dest source count : Nat)
    (hApart : Region.Disjoint ⟨dest, count⟩ ⟨source, count⟩) :
    ArenaDoes s (.memcpy dest source count) ()
      { s with memory := s.memory.store dest (s.memory.load source count) }
  | wildMemcpy (s s' : ArenaMachine) (dest source count : Nat)
    (hWild : ¬Region.Disjoint ⟨dest, count⟩ ⟨source, count⟩) :
    ArenaDoes s (.memcpy dest source count) () s'

/-! ### Runs -/

structure ArenaState where
  machine : ArenaMachine
  nodes : List Node
  live : Ledger Alignment

inductive ArenaCall
  | alloc (len : Nat) (alignment : Alignment) (result : Option Nat)
  | resize (address newLen : Nat) (result : Bool)
  | remap (address newLen : Nat) (result : Option Nat)
  | free (address : Nat)
  | write (address offset : Nat) (bytes : List UInt8)

/-- A step of a client that asks for no empty slices, passes back only live slices, with the alignment
they were allocated with, and writes only to its live slices. -/
inductive ArenaStep : ArenaState → ArenaCall → ArenaState → Prop
  | alloc (s : ArenaState) (len : Nat) (alignment : Alignment) (result : Option Nat)
    (nodes : List Node) (t : ArenaMachine) (hLen : len ≠ 0)
    (hRun : (CompactArena.alloc s.nodes len alignment).Runs ArenaDoes s.machine (result, nodes) t) :
    ArenaStep s (.alloc len alignment result) ⟨t, nodes, s.live.grant t.memory result len alignment⟩
  | resize (s : ArenaState) (address newLen : Nat) (b : Block Alignment) (result : Bool)
    (nodes : List Node) (hLive : s.live address = some b) (hLen : newLen ≠ 0)
    (hResult : CompactArena.resize s.nodes address b.bytes.length newLen = (result, nodes)) :
    ArenaStep s (.resize address newLen result)
      ⟨s.machine, nodes,
        if result then s.live.reallocated b s.machine.memory address address newLen else s.live⟩
  | remap (s : ArenaState) (address newLen : Nat) (b : Block Alignment) (result : Option Nat)
    (nodes : List Node) (t : ArenaMachine) (hLive : s.live address = some b) (hLen : newLen ≠ 0)
    (hRun : (CompactArena.remap s.nodes address b.bytes.length b.tag newLen).Runs ArenaDoes
      s.machine (result, nodes) t) :
    ArenaStep s (.remap address newLen result)
      ⟨t, nodes, s.live.regrant b t.memory address result newLen⟩
  | free (s : ArenaState) (address : Nat) (b : Block Alignment) (hLive : s.live address = some b) :
    ArenaStep s (.free address)
      ⟨s.machine, CompactArena.free s.nodes address b.bytes.length, s.live.freed address⟩
  | write (s : ArenaState) (address offset : Nat) (b : Block Alignment) (bytes : List UInt8)
    (hLive : s.live address = some b) (hFits : offset + bytes.length ≤ b.bytes.length) :
    ArenaStep s (.write address offset bytes)
      ⟨{ s.machine with memory := s.machine.memory.store (address + offset) bytes }, s.nodes,
        s.live.wrote b address offset bytes⟩

/-- After `init`. -/
structure FreshArena (s : ArenaState) : Prop where
  nodes : s.nodes = []
  obtained : s.machine.obtained = []
  returned : s.machine.returned = []
  live : ∀ address, s.live address = none

def arenaSystem : System ArenaState ArenaCall := ⟨FreshArena, ArenaStep⟩

end Esp32Fx.Guest
