import Esp32Fx.Lib.Leb128

/-! Read-only modules (`src/guest/wamr-readonly.patch`): the loader keeps the opcodes that it would
rewrite in a list of patches, and the interpreter walks the numbers of a `br_table` instead of
reading the bytes that the loader would put in their place.  The readers of numbers and the lookup
of a cached table are the runtime's own and stay parameters. -/

namespace Esp32Fx.Wamr

open Esp32Fx.Lib

/-- The opcodes that matter here. -/
structure Opcodes where
  brTable : UInt8
  brTableCache : UInt8
  nop : UInt8
  distinct : brTable ≠ brTableCache

structure BytecodePatch where
  opcodeAddr : Nat
  opcode : UInt8
  deriving DecidableEq, Repr

/-- `br_depths` has a place for each of the `brCount + 1` entries. -/
structure BrTableCache where
  brTableOpAddr : Nat
  brCount : Nat
  brDepths : List Nat
  deriving DecidableEq, Repr

/-- What the loader changes: the bytes of the module, the patches of the function, newest first,
and the cached tables of the module. -/
structure Loader where
  memory : Memory
  patches : List BytecodePatch
  caches : List BrTableCache

/-! ### Opcodes -/

def resolveBytecodeOpcode : List BytecodePatch → Nat → UInt8 → UInt8
  | [], _, opcode => opcode
  | patch :: next, opcodeAddr, opcode =>
    if patch.opcodeAddr = opcodeAddr then patch.opcode
    else resolveBytecodeOpcode next opcodeAddr opcode

/-- The opcode that the interpreter fetches from an address. -/
def fetchOpcode (s : Loader) (ip : Nat) : UInt8 := resolveBytecodeOpcode s.patches ip (s.memory ip)

def addBytecodePatch (allocated : Bool) (patches : List BytecodePatch) (opcodeAddr : Nat)
    (opcode : UInt8) : Option (List BytecodePatch) :=
  if allocated then some (⟨opcodeAddr, opcode⟩ :: patches) else none

/-- `PATCH_OPCODE`: an address and its new opcode, with whether there is memory for a patch. -/
structure Rewrite where
  allocated : Bool
  opcodeAddr : Nat
  replacement : UInt8
  deriving DecidableEq, Repr

def patchOpcode (readonly : Bool) (s : Loader) (r : Rewrite) : Option Loader :=
  if readonly then
    match addBytecodePatch r.allocated s.patches r.opcodeAddr r.replacement with
    | none => none
    | some patches => some { s with patches }
  else some { s with memory := s.memory.store r.opcodeAddr [r.replacement] }

/-- The rewrites of a load, in order; none when one fails. -/
def patchOpcodes (readonly : Bool) : Loader → List Rewrite → Option Loader
  | s, [] => some s
  | s, r :: rs =>
    match patchOpcode readonly s r with
    | none => none
    | some s => patchOpcodes readonly s rs

/-! ### The loader on a `br_table` -/

/-- A `br_table` in the loader: the end of the function, the addresses of the opcode and of the first
entry, the number of entries but one, the check of a branch, which gives the depth of the block, and
whether there is memory for a cache. -/
structure BrTable where
  pEnd : Nat
  pOpcode : Nat
  pDepthBegin : Nat
  count : Nat
  check : Nat → Option Nat
  allocated : Bool

/-- The local variables of the loop over the entries. -/
structure Scan where
  memory : Memory
  p : Nat
  pDepth : Nat
  cache : Option BrTableCache

/-- The new cache at entry `i`, with the depths so far from their bytes. -/
def newCache (t : BrTable) (memory : Memory) (i : Nat) : BrTableCache where
  brTableOpAddr := t.pOpcode
  brCount := t.count
  brDepths := (memory.load t.pDepthBegin i).map UInt8.toNat ++ List.replicate (t.count + 1 - i) 0

/-- Entry `i` with its depth put in the cache, in its byte, or in a new cache. -/
def putDepth (ops : Opcodes) (t : BrTable) (i depth : Nat) (s : Scan) : Option Scan :=
  match s.cache with
  | some cache =>
    some { s with cache := some { cache with brDepths := cache.brDepths.set i depth } }
  | none =>
    if depth > 255 then
      if t.allocated then
        let memory := s.memory.store t.pOpcode [ops.brTableCache]
        let cache := newCache t memory i
        some { s with
          memory, cache := some { cache with brDepths := cache.brDepths.set i depth } }
      else none
    else
      some { s with
        memory := s.memory.store s.pDepth [UInt8.ofNat depth], pDepth := s.pDepth + 1 }

def scanEntry (ops : Opcodes) (read : LebReader) (readonly : Bool) (t : BrTable) (i : Nat)
    (s : Scan) : Option Scan :=
  match read s.memory s.p t.pEnd with
  | none => none
  | some (label, p) =>
    match t.check label with
    | none => none
    | some depth => if readonly then some { s with p } else putDepth ops t i depth { s with p }

/-- Entries from `i` on, `entries` of them. -/
def scanEntries (ops : Opcodes) (read : LebReader) (readonly : Bool) (t : BrTable) :
    (entries i : Nat) → Scan → Option Scan
  | 0, _, s => some s
  | entries + 1, i, s =>
    match scanEntry ops read readonly t i s with
    | none => none
    | some s => scanEntries ops read readonly t entries (i + 1) s

/-- The bytes behind the depths become `nop`. -/
def setTail (ops : Opcodes) (t : BrTable) (s : Scan) : Memory :=
  let pDepth := if s.cache.isSome then t.pDepthBegin else s.pDepth
  s.memory.store pDepth (List.replicate (s.p - pDepth) ops.nop)

/-- `WASM_OP_BR_TABLE` in `wasm_loader_prepare_bytecode`, with `p` behind the count: the loader
afterwards, and the address of the next instruction. -/
def prepareBrTable (ops : Opcodes) (read : LebReader) (readonly : Bool) (t : BrTable)
    (s : Loader) : Option (Loader × Nat) :=
  match scanEntries ops read readonly t (t.count + 1) 0
      ⟨s.memory, t.pDepthBegin, t.pDepthBegin, none⟩ with
  | none => none
  | some scan =>
    if readonly then some (s, scan.p)
    else some ({ s with memory := setTail ops t scan, caches := scan.cache.toList ++ s.caches }, scan.p)

/-! ### The interpreter on a `br_table` -/

/-- Reads `entries` numbers from `ip` on; the last one is the depth. -/
def walkEntries (read : LebReader) (m : Memory) (ipEnd : Nat) : (entries ip depth : Nat) → Option Nat
  | 0, _, depth => some depth
  | entries + 1, ip, _ =>
    match read m ip ipEnd with
    | none => none
    | some (depth, ip) => walkEntries read m ipEnd entries ip depth

/-- `WASM_OP_BR_TABLE` with `frame_ip` behind the opcode. -/
def brTable (read : LebReader) (readonly : Bool) (m : Memory) (ip ipEnd lidx : Nat) : Option Nat :=
  match read m ip ipEnd with
  | none => none
  | some (count, ip) =>
    let lidx := if lidx > count then count else lidx
    if readonly then walkEntries read m ipEnd (lidx + 1) ip 0 else some (m (ip + lidx)).toNat

/-- The instruction at `ip`, when it is a `br_table`: the depth of the branch for an index.  `find`
is the instruction of a cached table. -/
def dispatchBrTable (ops : Opcodes) (read : LebReader) (find : List BrTableCache → Nat → Nat → Option Nat)
    (readonly : Bool) (s : Loader) (ip ipEnd lidx : Nat) : Option Nat :=
  if fetchOpcode s ip = ops.brTable then brTable read readonly s.memory (ip + 1) ipEnd lidx
  else if fetchOpcode s ip = ops.brTableCache then find s.caches ip lidx
  else none

/-- The instruction of a cached table takes the depth from the cache of its address, and clamps the
index to the count. -/
def FindsCache (find : List BrTableCache → Nat → Nat → Option Nat) : Prop :=
  ∀ (caches : List BrTableCache) (cache : BrTableCache) (lidx : Nat), cache ∈ caches →
    (∀ c ∈ caches, c.brTableOpAddr = cache.brTableOpAddr → c = cache) →
    find caches cache.brTableOpAddr lidx = cache.brDepths[min lidx cache.brCount]?

end Esp32Fx.Wamr
