import Esp32Fx.Guest.CompactArena

/-! The guest's arena keeps its slices apart.  Only the last slice of the first node can grow, shrink,
or go; `Sits` says where the other slices are, which is why no other slice is ever taken for it. -/

namespace Esp32Fx.Guest

open Lib

variable {node node' : Node} {nodes rest : List Node} {p q len n k : Nat} {alignment : Alignment}

/-! ### The child allocator -/

/-- No call is stuck. -/
theorem arenaDoes_answers (s : ArenaMachine) (r : ArenaRequest) : ∃ x t, ArenaDoes s r x t := by
  cases r with
  | rawAlloc len => exact ⟨_, _, .rawAllocFails s len s.memory fun _ _ _ => .refl _ _⟩
  | rawFree address len =>
    by_cases hLive : s.child address = some len
    · exact ⟨_, _, .rawFree s address len s.memory hLive fun _ _ _ => .refl _ _⟩
    · exact ⟨_, _, .wildFree s s address len hLive⟩
  | memcpy dest source count =>
    by_cases hApart : Region.Disjoint ⟨dest, count⟩ ⟨source, count⟩
    · exact ⟨_, _, .memcpy s dest source count hApart⟩
    · exact ⟨_, _, .wildMemcpy s s dest source count hApart⟩

/-- Every function comes to an end. -/
theorem arena_ends {α : Type} (f : Arena α) (s : ArenaMachine) : ∃ a t, f.Runs ArenaDoes s a t :=
  f.exists_runs arenaDoes_answers s

/-! ### Nodes -/

namespace Node

/-- The addresses of a node, its header included. -/
def region (node : Node) : Region := ⟨node.address, node.totalLen⟩

/-- The addresses of `data(node)`. -/
def dataRegion (node : Node) : Region := ⟨node.data, node.dataLen⟩

/-- A node lies in the address space and has room for its header. -/
structure Sized (node : Node) : Prop where
  notNull : node.address ≠ 0
  header : nodeBytes ≤ node.totalLen
  top : node.address + node.totalLen ≤ 0x100000000

theorem Sized.data_add (h : node.Sized) :
    node.data + node.dataLen = node.address + node.totalLen := by
  have hHeader := h.header
  unfold data dataLen
  omega

theorem Sized.dataRegion_within (h : node.Sized) : node.dataRegion.Within node.region := by
  have hAdd := h.data_add
  unfold Region.Within dataRegion region data at *
  simp only
  omega

/-- The last slice of a node ends where the node's used part ends. -/
structure Filled (node : Node) : Prop where
  used : node.used = node.lastStart + node.lastLen
  room : node.used ≤ node.dataLen

end Node

/-- An aligned address that wraps around is 0. -/
theorem alignForward_wraps (hTop : n ≤ 0x100000000)
    (hWraps : 0x100000000 ≤ n + (toByteUnits alignment - 1)) :
    alignForward (usize n) (toByteUnits alignment) = 0 := by
  have hPos := toByteUnits_pos alignment
  have hLe := toByteUnits_le alignment
  have hSmall : usize (usize n + (toByteUnits alignment - 1)) < toByteUnits alignment := by
    unfold usize
    omega
  rw [alignForward, Nat.div_eq_of_lt hSmall, Nat.zero_mul]

/-- A slice that `allocateFrom` finds is the last one of the node, behind the used part. -/
theorem allocateFrom_some (hSized : node.Sized) (hFilled : node.Filled) (hLen : len ≠ 0)
    (h : CompactArena.allocateFrom node len alignment = some (p, node')) :
    node.used ≤ node'.lastStart ∧ node'.lastStart + len ≤ node.dataLen ∧
      node' = { node with
        used := node'.lastStart + len, lastStart := node'.lastStart, lastLen := len } ∧
      p = node.data + node'.lastStart ∧ p % toByteUnits alignment = 0 := by
  have hAdd := hSized.data_add
  have hTop := hSized.top
  have hRoom := hFilled.room
  have hPos := toByteUnits_pos alignment
  have hData : 0 < node.data := by
    have hNotNull := hSized.notNull
    unfold Node.data
    omega
  unfold CompactArena.allocateFrom at h
  dsimp only at h
  split at h
  · cases h
  next hFits =>
  simp only [not_or, Nat.not_lt] at hFits
  simp only [Option.some.injEq, Prod.mk.injEq] at h
  obtain ⟨rfl, rfl⟩ := h
  by_cases hWraps : 0x100000000 ≤ node.data + node.used + (toByteUnits alignment - 1)
  · -- The offset is past the data, so that no slice fits.
    rw [alignForward_wraps (by omega) hWraps] at hFits
    unfold usizeSub usize at hFits
    omega
  · rw [usize_of_lt (by omega)] at hFits ⊢
    obtain ⟨hAligned, hLow, hHigh⟩ := alignForward_of_lt hPos
      (by omega : node.data + node.used + (toByteUnits alignment - 1) < 0x100000000)
    rw [usizeSub_of_le (by omega) (by omega)] at hFits ⊢
    refine ⟨?_, ?_, rfl, rfl, ?_⟩
    · dsimp only
      omega
    · dsimp only
      omega
    · rwa [Nat.add_sub_cancel' (by omega)]

/-- A new node has room for what it was made for. -/
theorem allocateFrom_unused (hSized : node.Sized) (hUsed : node.used = 0) (hLen : len ≠ 0)
    (hRoom : toByteUnits alignment - 1 + len ≤ node.dataLen) :
    CompactArena.allocateFrom node len alignment ≠ none := by
  have hAdd := hSized.data_add
  have hTop := hSized.top
  have hFits : node.data + 0 + (toByteUnits alignment - 1) < 0x100000000 := by omega
  obtain ⟨-, hLow, hHigh⟩ := alignForward_of_lt (toByteUnits_pos alignment) hFits
  unfold CompactArena.allocateFrom
  dsimp only
  rw [hUsed, usize_of_lt (by omega), usizeSub_of_le (by omega) (by omega), if_neg (by omega)]
  simp

/-! ### Where the live slices are -/

/-- A slice of `len` bytes at `p` lies below the last one of the first node, or in a later node. -/
structure Elsewhere (node : Node) (rest : List Node) (p len : Nat) : Prop where
  nonempty : len ≠ 0
  place : node.data ≤ p ∧ p + len ≤ node.data + node.lastStart ∨
    ∃ node' ∈ rest, Region.Within ⟨p, len⟩ node'.dataRegion

/-- Where a live slice of `len` bytes at `p` may be. -/
inductive Sits : List Node → Nat → Nat → Prop
  | last (node : Node) (rest : List Node) (hLen : node.lastLen ≠ 0) :
    Sits (node :: rest) (node.data + node.lastStart) node.lastLen
  | elsewhere (node : Node) (rest : List Node) (p len : Nat) (h : Elsewhere node rest p len) :
    Sits (node :: rest) p len

/-- The nodes are the child's blocks that the arena got, apart, and none was returned yet. -/
structure ArenaLaid (s : ArenaMachine) (nodes : List Node) : Prop where
  obtained : s.obtained = nodes.map fun node => (node.address, node.totalLen)
  returned : s.returned = []
  child : ∀ node ∈ nodes, s.child node.address = some node.totalLen
  sized : ∀ node ∈ nodes, node.Sized
  apart : nodes.Pairwise fun node node' => node.region.Disjoint node'.region
  filled : ∀ node ∈ nodes.head?, node.Filled

section Places

variable {s : ArenaMachine}

theorem Sits.nonempty (h : Sits nodes p len) : len ≠ 0 := by
  cases h with
  | last _ _ hLen => exact hLen
  | elsewhere _ _ _ _ h => exact h.nonempty

theorem ArenaLaid.last_within (hLaid : ArenaLaid s (node :: rest)) :
    Region.Within ⟨node.data + node.lastStart, node.lastLen⟩ node.dataRegion := by
  have hFilled := hLaid.filled node rfl
  have hUsed := hFilled.used
  have hRoom := hFilled.room
  unfold Region.Within Node.dataRegion
  simp only
  omega

theorem ArenaLaid.start_le (hLaid : ArenaLaid s (node :: rest)) : node.lastStart ≤ node.dataLen := by
  have hFilled := hLaid.filled node rfl
  have hUsed := hFilled.used
  have hRoom := hFilled.room
  omega

/-- A live slice lies in the data of a node. -/
theorem Sits.within (h : Sits nodes p len) (hLaid : ArenaLaid s nodes) :
    ∃ node ∈ nodes, Region.Within ⟨p, len⟩ node.dataRegion := by
  cases h with
  | last node rest => exact ⟨node, List.mem_cons_self, hLaid.last_within⟩
  | elsewhere node rest _ _ h =>
    rcases h.place with ⟨hData, hBelow⟩ | ⟨node', hMem, hWithin⟩
    · have hStart := hLaid.start_le
      refine ⟨node, List.mem_cons_self, ?_⟩
      unfold Region.Within Node.dataRegion
      simp only
      omega
    · exact ⟨node', List.mem_cons_of_mem _ hMem, hWithin⟩

/-- What is given out behind the start of the last slice is apart from the slices elsewhere. -/
theorem Elsewhere.disjoint (h : Elsewhere node rest p len) (hLaid : ArenaLaid s (node :: rest))
    (hRoom : node.lastStart + n ≤ node.dataLen) :
    Region.Disjoint ⟨node.data + node.lastStart, n⟩ ⟨p, len⟩ := by
  rcases h.place with ⟨hData, hBelow⟩ | ⟨node', hMem, hWithin⟩
  · exact .inr hBelow
  · have hApart := (List.pairwise_cons.mp hLaid.apart).1 node' hMem
    refine hApart.mono (.trans ?_ (hLaid.sized node List.mem_cons_self).dataRegion_within)
      (hWithin.trans (hLaid.sized node' (List.mem_cons_of_mem _ hMem)).dataRegion_within)
    unfold Region.Within Node.dataRegion
    simp only
    omega

/-- A slice that starts elsewhere than the last one is elsewhere. -/
theorem Sits.elsewhere_of_ne (h : Sits (node :: rest) p len) (hne : p ≠ node.data + node.lastStart) :
    Elsewhere node rest p len := by
  cases h with
  | last => exact absurd rfl hne
  | elsewhere _ _ _ _ h => exact h

theorem isLast_iff : CompactArena.isLast node p len = true ↔
    p = node.data + node.lastStart ∧ len = node.lastLen := by
  simp [CompactArena.isLast]

theorem Sits.elsewhere_of_not_isLast (h : Sits (node :: rest) p len)
    (hNot : CompactArena.isLast node p len ≠ true) : Elsewhere node rest p len := by
  cases h with
  | last => exact absurd (isLast_iff.mpr ⟨rfl, rfl⟩) hNot
  | elsewhere _ _ _ _ h => exact h

/-! ### The first node changes -/

theorem ArenaLaid.replace (hLaid : ArenaLaid s (node :: rest)) (hAddress : node'.address = node.address)
    (hTotal : node'.totalLen = node.totalLen) (hFilled : node'.Filled) :
    ArenaLaid s (node' :: rest) where
  obtained := by
    rw [hLaid.obtained, List.map_cons, List.map_cons, hAddress, hTotal]
  returned := hLaid.returned
  child k hk := by
    rcases List.mem_cons.mp hk with rfl | hk
    · rw [hAddress, hTotal]
      exact hLaid.child node List.mem_cons_self
    · exact hLaid.child k (List.mem_cons_of_mem _ hk)
  sized k hk := by
    rcases List.mem_cons.mp hk with rfl | hk
    · obtain ⟨hNotNull, hHeader, hTop⟩ := hLaid.sized node List.mem_cons_self
      exact ⟨hAddress ▸ hNotNull, hTotal ▸ hHeader, by rw [hAddress, hTotal]; exact hTop⟩
    · exact hLaid.sized k (List.mem_cons_of_mem _ hk)
  apart := by
    have hApart := List.pairwise_cons.mp hLaid.apart
    refine List.pairwise_cons.mpr ⟨fun k hk => ?_, hApart.2⟩
    rw [Node.region, hAddress, hTotal]
    exact hApart.1 k hk
  filled k hk := by
    cases hk
    exact hFilled

theorem ArenaLaid.withMemory (hLaid : ArenaLaid s nodes) (memory : Memory) :
    ArenaLaid { s with memory } nodes :=
  ⟨hLaid.obtained, hLaid.returned, hLaid.child, hLaid.sized, hLaid.apart, hLaid.filled⟩

/-- What is elsewhere stays elsewhere while the last slice does not start lower. -/
theorem Elsewhere.carry (h : Elsewhere node rest p len) (hAddress : node'.address = node.address)
    (hStart : node.lastStart ≤ node'.lastStart) : Elsewhere node' rest p len := by
  refine ⟨h.nonempty, ?_⟩
  have hData : node'.data = node.data := by rw [Node.data, hAddress, Node.data]
  rcases h.place with hBelow | hLater
  · exact .inl (by omega)
  · exact .inr hLater

/-- Every slice is elsewhere once another one starts behind the used part. -/
theorem Sits.carry (h : Sits (node :: rest) p len) (hLaid : ArenaLaid s (node :: rest))
    (hAddress : node'.address = node.address) (hStart : node.used ≤ node'.lastStart) :
    Elsewhere node' rest p len := by
  have hFilled := hLaid.filled node rfl
  have hUsed := hFilled.used
  have hData : node'.data = node.data := by rw [Node.data, hAddress, Node.data]
  cases h with
  | last _ _ hLen => exact ⟨hLen, .inl (by omega)⟩
  | elsewhere _ _ _ _ h => exact h.carry hAddress (by omega)

theorem ArenaLaid.setLast (hLaid : ArenaLaid s (node :: rest))
    (hRoom : node.lastStart + n ≤ node.dataLen) :
    ArenaLaid s (CompactArena.setLast node n :: rest) := hLaid.replace rfl rfl ⟨rfl, hRoom⟩

/-- The last slice, resized. -/
theorem sits_setLast (hLen : n ≠ 0) :
    Sits (CompactArena.setLast node n :: rest) (node.data + node.lastStart) n :=
  .last (CompactArena.setLast node n) rest hLen

end Places

/-! ### The client's ledger -/

/-- The live slices are in the nodes, aligned, and hold what was written to them. -/
structure ArenaConsistent (s : ArenaState) : Prop where
  laid : ArenaLaid s.machine s.nodes
  sits : ∀ p b, s.live p = some b → Sits s.nodes p b.bytes.length
  aligned : ∀ p b, s.live p = some b → p % toByteUnits b.tag = 0
  sound : s.live.Sound s.machine.memory

structure ArenaKeeps (s s' : ArenaState) (subject : Option Nat) : Prop where
  consistent : ArenaConsistent s'
  others : s.live.Keeps s'.live subject

/-- The slice of `n` bytes at `p` is where the nodes have room, apart from a live slice of `len` bytes
at `q`, which stays where it is and as it is. -/
structure Beside (nodes : List Node) (before memory : Memory) (p n q len : Nat) : Prop where
  sits : Sits nodes q len
  apart : Region.Disjoint ⟨p, n⟩ ⟨q, len⟩
  kept : Memory.AgreeOn ⟨q, len⟩ before memory

namespace ArenaConsistent

variable {s : ArenaState} {t : ArenaMachine} {b : Block Alignment}

theorem refl (c : ArenaConsistent s) (subject : Option Nat) : ArenaKeeps s s subject :=
  ⟨c, .refl _ _⟩

/-- A new slice. -/
theorem allocated (c : ArenaConsistent s) (hLaid : ArenaLaid t nodes) (hNew : Sits nodes p n)
    (hAligned : p % toByteUnits alignment = 0)
    (hOthers : ∀ q b, s.live q = some b →
      Beside nodes s.machine.memory t.memory p n q b.bytes.length) :
    ArenaKeeps s ⟨t, nodes, s.live.allocated t.memory p n alignment⟩ none := by
  have hNone : s.live p = none := by
    cases hp : s.live p with
    | none => rfl
    | some b =>
      have hBeside := hOthers p b hp
      exact absurd rfl (hBeside.apart.start_ne (Nat.pos_of_ne_zero hNew.nonempty)
        (Nat.pos_of_ne_zero hBeside.sits.nonempty))
  refine ⟨⟨hLaid, fun q b hq => ?_, fun q b hq => ?_, ?_⟩, Ledger.keeps_allocated hNone⟩
  · rcases Ledger.allocated_eq_some hq with ⟨rfl, rfl⟩ | ⟨-, hq⟩
    · rwa [Block.length_fresh]
    · exact (hOthers q b hq).sits
  · rcases Ledger.allocated_eq_some hq with ⟨rfl, rfl⟩ | ⟨-, hq⟩
    · exact hAligned
    · exact c.aligned q b hq
  · exact c.sound.allocated (fun q b hq => (hOthers q b hq).kept)
      fun q b hq => (hOthers q b hq).apart

/-- The slice at `p` becomes one of `n` bytes at `q`. -/
theorem reallocated (c : ArenaConsistent s) (hp : s.live p = some b) (hLaid : ArenaLaid t nodes)
    (hNew : Sits nodes q n) (hAligned : q % toByteUnits b.tag = 0)
    (hOthers : ∀ q' b', q' ≠ p → s.live q' = some b' →
      Beside nodes s.machine.memory t.memory q n q' b'.bytes.length)
    (hBytes : t.memory.load q (min n b.bytes.length) =
      s.machine.memory.load p (min n b.bytes.length)) :
    ArenaKeeps s ⟨t, nodes, s.live.reallocated b t.memory p q n⟩ (some p) := by
  have hTarget : ∀ b', s.live q = some b' → q = p := by
    intro b' hq
    by_contra hne
    have hBeside := hOthers q b' hne hq
    exact hBeside.apart.start_ne (Nat.pos_of_ne_zero hNew.nonempty)
      (Nat.pos_of_ne_zero hBeside.sits.nonempty) rfl
  refine ⟨⟨hLaid, fun q' b' hq' => ?_, fun q' b' hq' => ?_, ?_⟩, Ledger.keeps_reallocated hTarget⟩
  · rcases Ledger.reallocated_eq_some hq' with ⟨rfl, rfl⟩ | ⟨-, hne, hq'⟩
    · rwa [Block.length_resized]
    · exact (hOthers q' b' hne hq').sits
  · rcases Ledger.reallocated_eq_some hq' with ⟨rfl, rfl⟩ | ⟨-, hne, hq'⟩
    · exact hAligned
    · exact c.aligned q' b' hq'
  · exact c.sound.reallocated hp (fun q' b' hne hq' => (hOthers q' b' hne hq').kept)
      (fun q' b' hne hq' => (hOthers q' b' hne hq').apart) hBytes

/-- The slice at `p` goes. -/
theorem freed (c : ArenaConsistent s) (hLaid : ArenaLaid s.machine nodes)
    (hOthers : ∀ q b, q ≠ p → s.live q = some b → Sits nodes q b.bytes.length) :
    ArenaKeeps s ⟨s.machine, nodes, s.live.freed p⟩ (some p) := by
  refine ⟨⟨hLaid, fun q b hq => ?_, fun q b hq => ?_, ?_⟩, Ledger.keeps_freed s.live p⟩
  · obtain ⟨hne, hq⟩ := Ledger.freed_eq_some hq
    exact hOthers q b hne hq
  · exact c.aligned q b (Ledger.freed_eq_some hq).2
  · exact c.sound.freed fun _ _ _ _ => .refl _ _

/-- The owner of the slice at `p` stores bytes in it. -/
theorem wrote (c : ArenaConsistent s) (hp : s.live p = some b) {offset : Nat} {bytes : List UInt8}
    (hFits : offset + bytes.length ≤ b.bytes.length) :
    ArenaKeeps s
      ⟨{ s.machine with memory := s.machine.memory.store (p + offset) bytes }, s.nodes,
        s.live.wrote b p offset bytes⟩ (some p) := by
  refine ⟨⟨c.laid.withMemory _, fun q b' hq => ?_, fun q b' hq => ?_, c.sound.wrote hp hFits⟩,
    Ledger.keeps_wrote⟩
  · rcases Ledger.wrote_eq_some hq with ⟨rfl, rfl⟩ | ⟨-, hq⟩
    · rw [Block.length_written hFits]
      exact c.sits q b hp
    · exact c.sits q b' hq
  · rcases Ledger.wrote_eq_some hq with ⟨rfl, rfl⟩ | ⟨-, hq⟩
    · exact c.aligned q b hp
    · exact c.aligned q b' hq

theorem start (h : FreshArena s) : ArenaConsistent s := by
  obtain ⟨hNodes, hObtained, hReturned, hLive⟩ := h
  have hNone : s.live = fun _ => none := funext hLive
  constructor
  · rw [hNodes]
    constructor <;> simp [hObtained, hReturned]
  · simp [hLive]
  · simp [hLive]
  · rw [hNone]
    exact .empty _

end ArenaConsistent

/-! ### The calls, one by one -/

section Calls

variable {s : ArenaState} {t : ArenaMachine} {b : Block Alignment}

theorem Elsewhere.shrink (h : Elsewhere node rest p len) (hLen : n ≠ 0) (hShrinks : n ≤ len) :
    Elsewhere node rest p n := by
  refine ⟨hLen, ?_⟩
  rcases h.place with ⟨hData, hBelow⟩ | ⟨node', hMem, hWithin⟩
  · exact .inl ⟨hData, by omega⟩
  · refine .inr ⟨node', hMem, Region.Within.trans ?_ hWithin⟩
    unfold Region.Within
    simp only
    omega

/-- The three ends of `resize`. -/
theorem resize_cases (hLaid : ArenaLaid s.machine (node :: rest)) (p len n : Nat) :
    (CompactArena.isLast node p len = true ∧ node.lastStart + n ≤ node.dataLen ∧
      CompactArena.resize (node :: rest) p len n = (true, CompactArena.setLast node n :: rest)) ∨
    (CompactArena.isLast node p len ≠ true ∧ n ≤ len ∧
      CompactArena.resize (node :: rest) p len n = (true, node :: rest)) ∨
    CompactArena.resize (node :: rest) p len n = (false, node :: rest) := by
  have hFilled := hLaid.filled node rfl
  have hUsed := hFilled.used
  have hRoom := hFilled.room
  unfold CompactArena.resize
  by_cases hLast : CompactArena.isLast node p len = true
  · have hLen := (isLast_iff.mp hLast).2
    simp only [hLast, Bool.not_true, Bool.false_eq_true, if_true, if_false]
    split
    · exact .inl ⟨trivial, by omega, rfl⟩
    · split
      · exact .inr (.inr rfl)
      · next hFits => exact .inl ⟨trivial, by omega, rfl⟩
  · simp only [Bool.not_eq_true] at hLast
    simp only [hLast, Bool.not_false, Bool.false_eq_true, if_true, if_false]
    split
    · next hShrinks => exact .inr (.inl ⟨by simp, hShrinks, rfl⟩)
    · exact .inr (.inr rfl)

theorem resize_refused (hLaid : ArenaLaid s.machine nodes) {after : List Node}
    (hResult : CompactArena.resize nodes p len n = (false, after)) : after = nodes := by
  cases nodes with
  | nil =>
    rw [CompactArena.resize] at hResult
    split at hResult
    · cases hResult
    · cases hResult
      rfl
  | cons node rest =>
    rcases resize_cases hLaid p len n with ⟨-, -, hEq⟩ | ⟨-, -, hEq⟩ | hEq
    · rw [hEq] at hResult
      cases hResult
    · rw [hEq] at hResult
      cases hResult
    · rw [hEq] at hResult
      cases hResult
      rfl

/-- A live slice is in some node. -/
theorem ArenaConsistent.nodes_eq (c : ArenaConsistent s) (hp : s.live p = some b) :
    ∃ node rest, s.nodes = node :: rest := by
  have hSits := c.sits p b hp
  cases hNodes : s.nodes with
  | nil =>
    rw [hNodes] at hSits
    cases hSits
  | cons node rest => exact ⟨node, rest, rfl⟩

theorem ArenaConsistent.resize (c : ArenaConsistent s) (hp : s.live p = some b) (hLen : n ≠ 0)
    {result : Bool}
    (hResult : CompactArena.resize s.nodes p b.bytes.length n = (result, nodes)) :
    ArenaKeeps s ⟨s.machine, nodes,
        if result then s.live.reallocated b s.machine.memory p p n else s.live⟩ (some p) := by
  obtain ⟨node, rest, hNodes⟩ := c.nodes_eq hp
  have hLaid := c.laid
  have hSits := c.sits
  rw [hNodes] at hLaid hSits hResult
  have hAt := hSits p b hp
  rcases resize_cases hLaid p b.bytes.length n with ⟨hLast, hRoom, hEq⟩ | ⟨hNot, hShrinks, hEq⟩ | hEq
  · rw [hEq] at hResult
    cases hResult
    obtain ⟨hStart, -⟩ := isLast_iff.mp hLast
    rw [if_pos rfl]
    refine c.reallocated hp (hLaid.setLast hRoom) (hStart ▸ sits_setLast hLen) (c.aligned p b hp)
      (fun q b' hne hq => ?_) rfl
    have hElse := (hSits q b' hq).elsewhere_of_ne (hStart ▸ hne)
    refine ⟨.elsewhere _ _ _ _ (hElse.carry rfl (Nat.le_refl _)), ?_, .refl _ _⟩
    rw [hStart]
    exact hElse.disjoint hLaid hRoom
  · rw [hEq] at hResult
    cases hResult
    have hElse := hAt.elsewhere_of_not_isLast hNot
    rw [if_pos rfl]
    refine c.reallocated hp hLaid (.elsewhere _ _ _ _ (hElse.shrink hLen hShrinks))
      (c.aligned p b hp) (fun q b' hne hq => ⟨hSits q b' hq, ?_, .refl _ _⟩) rfl
    refine (c.sound.apart p b q b' hp hq hne.symm).mono ?_ ⟨Nat.le_refl _, Nat.le_refl _⟩
    unfold Region.Within
    simp only [Block.region_start, Block.region_size]
    omega
  · rw [hEq] at hResult
    cases hResult
    rw [if_neg (by simp), ← hNodes]
    exact c.refl _

theorem ArenaConsistent.free (c : ArenaConsistent s) (hp : s.live p = some b) :
    ArenaKeeps s ⟨s.machine, CompactArena.free s.nodes p b.bytes.length, s.live.freed p⟩
      (some p) := by
  obtain ⟨node, rest, hNodes⟩ := c.nodes_eq hp
  have hLaid := c.laid
  have hSits := c.sits
  rw [hNodes] at hLaid hSits ⊢
  by_cases hLast : CompactArena.isLast node p b.bytes.length = true
  · obtain ⟨hStart, -⟩ := isLast_iff.mp hLast
    rw [CompactArena.free, hLast, Bool.not_true, if_neg (by simp)]
    refine c.freed (hLaid.setLast hLaid.start_le) fun q b' hne hq => ?_
    have hElse := (hSits q b' hq).elsewhere_of_ne (hStart ▸ hne)
    exact .elsewhere _ _ _ _ (hElse.carry rfl (Nat.le_refl _))
  · simp only [Bool.not_eq_true] at hLast
    rw [CompactArena.free, hLast, Bool.not_false, if_pos rfl]
    exact c.freed hLaid fun q b' _ hq => hSits q b' hq

/-- What the arena has after it has given out `n` bytes at `p`. -/
structure Granted (s : ArenaState) (t : ArenaMachine) (nodes : List Node) (p n : Nat)
    (alignment : Alignment) : Prop where
  laid : ArenaLaid t nodes
  new : Sits nodes p n
  aligned : p % toByteUnits alignment = 0
  others : ∀ q b, s.live q = some b → Beside nodes s.machine.memory t.memory p n q b.bytes.length

/-- What `alloc` leaves, by its result. -/
def AllocEnd (s : ArenaState) (n : Nat) (alignment : Alignment) :
    Option Nat × List Node → ArenaMachine → Prop
  | (none, nodes), t => nodes = s.nodes ∧ ArenaConsistent ⟨t, s.nodes, s.live⟩
  | (some p, nodes), t => Granted s t nodes p n alignment

/-- A call of the child leaves the live slices alone. -/
theorem ArenaConsistent.kept (c : ArenaConsistent s) {memory : Memory}
    (hKept : ChildKeeps s.machine.child s.machine.memory memory) (hq : s.live q = some b) :
    Memory.AgreeOn ⟨q, b.bytes.length⟩ s.machine.memory memory := by
  obtain ⟨node, hMem, hWithin⟩ := (c.sits q b hq).within c.laid
  exact (hKept _ _ (c.laid.child node hMem)).within
    (hWithin.trans (c.laid.sized node hMem).dataRegion_within)

/-- The child refuses. -/
theorem ArenaConsistent.refused (c : ArenaConsistent s) {memory : Memory}
    (hKept : ChildKeeps s.machine.child s.machine.memory memory) :
    ArenaConsistent ⟨{ s.machine with memory }, s.nodes, s.live⟩ := by
  exact ⟨c.laid.withMemory memory, c.sits, c.aligned, c.sound.agree fun q b hq => c.kept hKept hq⟩

/-- A node that the child has just given. -/
theorem ArenaLaid.push (hLaid : ArenaLaid s.machine nodes) {address totalLen : Nat}
    {memory : Memory} (hPlaces : ChildPlaces s.machine.child address totalLen)
    (hHeader : nodeBytes ≤ totalLen) :
    ArenaLaid ⟨memory, Function.update s.machine.child address (some totalLen),
        (address, totalLen) :: s.machine.obtained, s.machine.returned⟩
      (⟨address, totalLen, 0, 0, 0⟩ :: nodes) where
  obtained := by
    dsimp only
    rw [hLaid.obtained, List.map_cons]
  returned := hLaid.returned
  child k hk := by
    rcases List.mem_cons.mp hk with rfl | hk
    · exact Function.update_self ..
    · have hne : k.address ≠ address := by
        intro hSame
        have hChild := hLaid.child k hk
        rw [hSame, hPlaces.fresh] at hChild
        cases hChild
      dsimp only
      rw [Function.update_of_ne hne]
      exact hLaid.child k hk
  sized k hk := by
    rcases List.mem_cons.mp hk with rfl | hk
    · exact ⟨hPlaces.notNull, hHeader, hPlaces.top⟩
    · exact hLaid.sized k hk
  apart := List.pairwise_cons.mpr
    ⟨fun k hk => hPlaces.apart _ _ (hLaid.child k hk), hLaid.apart⟩
  filled k hk := by
    cases hk
    exact ⟨rfl, Nat.zero_le _⟩

/-- The slice that `allocateFrom` has found in the first node. -/
theorem Granted.ofFirst (hLaid : ArenaLaid t (node :: rest)) (hLen : n ≠ 0)
    (hFound : CompactArena.allocateFrom node n alignment = some (p, node'))
    (hElse : ∀ q b, s.live q = some b → node.used ≤ node'.lastStart →
      node'.address = node.address → Elsewhere node' rest q b.bytes.length)
    (hKept : ∀ q b, s.live q = some b →
      Memory.AgreeOn ⟨q, b.bytes.length⟩ s.machine.memory t.memory) :
    Granted s t (node' :: rest) p n alignment := by
  obtain ⟨hStart, hRoom, hNode, hAt, hAligned⟩ :=
    allocateFrom_some (hLaid.sized node List.mem_cons_self) (hLaid.filled node rfl) hLen hFound
  have hAddress : node'.address = node.address := by rw [hNode]
  have hTotal : node'.totalLen = node.totalLen := by rw [hNode]
  have hLast : node'.lastLen = n := by rw [hNode]
  have hUsed : node'.used = node'.lastStart + node'.lastLen := by rw [hNode]
  have hData : node'.data = node.data := by rw [Node.data, hAddress, Node.data]
  have hDataLen : node'.dataLen = node.dataLen := by rw [Node.dataLen, hTotal, Node.dataLen]
  have hLaid' := hLaid.replace hAddress hTotal ⟨hUsed, by omega⟩
  rw [← hData] at hAt
  subst hAt hLast
  refine ⟨hLaid', .last node' rest hLen, hAligned, fun q b hq => ?_⟩
  have hOther := hElse q b hq hStart hAddress
  exact ⟨.elsewhere _ _ _ _ hOther, hOther.disjoint hLaid' (by omega), hKept q b hq⟩

@[simp] theorem ensures_rawAlloc {Q : Option Nat → ArenaMachine → Prop} :
    (rawAlloc n).Ensures ArenaDoes Q t ↔ ∀ x u, ArenaDoes t (.rawAlloc n) x u → Q x u := Iff.rfl

@[simp] theorem ensures_rawFree {Q : Unit → ArenaMachine → Prop} :
    (rawFree p n).Ensures ArenaDoes Q t ↔ ∀ x u, ArenaDoes t (.rawFree p n) x u → Q x u := Iff.rfl

theorem AllocEnd.none (c : ArenaConsistent s) (n : Nat) (alignment : Alignment) :
    AllocEnd s n alignment (none, s.nodes) s.machine := ⟨rfl, c⟩

/-- The slice in a new node. -/
theorem ArenaConsistent.granted_push (c : ArenaConsistent s) (hLen : n ≠ 0)
    {address totalLen : Nat} {memory : Memory}
    (hPlaces : ChildPlaces s.machine.child address totalLen)
    (hKept : ChildKeeps s.machine.child s.machine.memory memory) (hHeader : nodeBytes ≤ totalLen)
    (hRoom : toByteUnits alignment - 1 + n ≤ totalLen - nodeBytes) :
    AllocEnd s n alignment
      (CompactArena.withNew ⟨address, totalLen, 0, 0, 0⟩ s.nodes
        (CompactArena.allocateFrom ⟨address, totalLen, 0, 0, 0⟩ n alignment))
      ⟨memory, Function.update s.machine.child address (some totalLen),
        (address, totalLen) :: s.machine.obtained, s.machine.returned⟩ := by
  have hSized : (⟨address, totalLen, 0, 0, 0⟩ : Node).Sized :=
    ⟨hPlaces.notNull, hHeader, hPlaces.top⟩
  have hFits := allocateFrom_unused hSized rfl hLen hRoom
  generalize hFound : CompactArena.allocateFrom ⟨address, totalLen, 0, 0, 0⟩ n alignment = found
    at hFits ⊢
  cases found with
  | none => exact absurd rfl hFits
  | some found =>
    obtain ⟨p, node'⟩ := found
    refine Granted.ofFirst (c.laid.push hPlaces hHeader) hLen hFound
      (fun q b hq _ _ => ⟨?_, .inr ?_⟩) fun q b hq => c.kept hKept hq
    · exact (c.sits q b hq).nonempty
    · exact (c.sits q b hq).within c.laid

theorem ArenaConsistent.allocNode_ensures (c : ArenaConsistent s) (hLen : n ≠ 0)
    (alignment : Alignment) :
    (CompactArena.allocNode s.nodes n alignment).Ensures ArenaDoes (AllocEnd s n alignment)
      s.machine := by
  unfold CompactArena.allocNode
  split
  · exact Program.ensures_pure.mpr (.none c n alignment)
  next minimum hMinimum =>
  obtain ⟨rfl, -⟩ := mathAdd_eq_some hMinimum
  split
  · exact Program.ensures_pure.mpr (.none c n alignment)
  next required hRequired =>
  obtain ⟨hRequired, -⟩ := mathAdd_eq_some hRequired
  have hHeader : nodeBytes ≤ max required (nodeBytes + chunkBytes) := by omega
  have hRoom : toByteUnits alignment - 1 + n ≤ max required (nodeBytes + chunkBytes) - nodeBytes := by
    omega
  generalize max required (nodeBytes + chunkBytes) = totalLen at *
  simp only [Program.ensures_bind, ensures_rawAlloc]
  intro answer t hAlloc
  cases hAlloc with
  | rawAllocFails _ _ memory hKept => exact Program.ensures_pure.mpr ⟨rfl, c.refused hKept⟩
  | rawAlloc _ _ address memory hPlaces hKept =>
    exact Program.ensures_pure.mpr (c.granted_push hLen hPlaces hKept hHeader hRoom)

theorem ArenaConsistent.alloc_ensures (c : ArenaConsistent s) (hLen : n ≠ 0)
    (alignment : Alignment) :
    (CompactArena.alloc s.nodes n alignment).Ensures ArenaDoes (AllocEnd s n alignment)
      s.machine := by
  have hNode := c.allocNode_ensures hLen alignment
  have hLaid := c.laid
  have hSits := c.sits
  generalize s.nodes = nodes at hNode hLaid hSits ⊢
  cases nodes with
  | nil => exact hNode
  | cons node rest =>
    unfold CompactArena.alloc
    dsimp only
    generalize hFound : CompactArena.allocateFrom node n alignment = found
    cases found with
    | none => exact hNode
    | some found =>
      obtain ⟨p, node'⟩ := found
      refine Program.ensures_pure.mpr (Granted.ofFirst hLaid hLen hFound
        (fun q b hq hStart hAddress => (hSits q b hq).carry hLaid hAddress hStart)
        fun _ _ _ => .refl _ _)

theorem ensures_memcpy {Q : Unit → ArenaMachine → Prop} (hApart : Region.Disjoint ⟨p, n⟩ ⟨q, n⟩)
    (hQ : Q () { t with memory := t.memory.store p (t.memory.load q n) }) :
    (memcpy p q n).Ensures ArenaDoes Q t := by
  intro x u hDoes
  cases hDoes with
  | memcpy => exact hQ
  | wildMemcpy _ _ _ _ _ hWild => exact absurd hApart hWild

/-- A granted slice gets the bytes of the slice at `p` and takes its place. -/
theorem ArenaConsistent.copied (c : ArenaConsistent s) (hp : s.live p = some b)
    (hGranted : Granted s t nodes q n b.tag) :
    ArenaKeeps s
      ⟨{ t with memory := t.memory.store q (t.memory.load p (min b.bytes.length n)) }, nodes,
        s.live.reallocated b (t.memory.store q (t.memory.load p (min b.bytes.length n))) p q n⟩
      (some p) := by
  have hOld := hGranted.others p b hp
  refine c.reallocated hp (hGranted.laid.withMemory _) hGranted.new hGranted.aligned
    (fun q' b' hne hq' => ?_) ?_
  · have hBeside := hGranted.others q' b' hq'
    refine ⟨hBeside.sits, hBeside.apart,
      hBeside.kept.trans (Memory.agreeOn_store _ (hBeside.apart.symm.within ?_))⟩
    unfold Region.Within
    simp only [Memory.length_load]
    omega
  · have hStored := Memory.load_store t.memory q (t.memory.load p (min b.bytes.length n))
    rw [Memory.length_load, Nat.min_comm] at hStored
    dsimp only
    rw [Nat.min_comm b.bytes.length, hStored]
    refine Memory.load_of_agreeOn (hOld.kept.within ?_)
    unfold Region.Within
    simp only
    omega

theorem ArenaConsistent.remap_ensures (c : ArenaConsistent s) (hp : s.live p = some b)
    (hLen : n ≠ 0) :
    (CompactArena.remap s.nodes p b.bytes.length b.tag n).Ensures ArenaDoes (fun result t =>
      ArenaKeeps s ⟨t, result.2, s.live.regrant b t.memory p result.1 n⟩ (some p) ∧
        (result.1 = none → result.2 = s.nodes)) s.machine := by
  unfold CompactArena.remap
  generalize hResult : CompactArena.resize s.nodes p b.bytes.length n = resized
  obtain ⟨_ | _, nodes⟩ := resized
  · obtain rfl := resize_refused c.laid hResult
    dsimp only
    rw [Program.ensures_bind]
    refine Program.ensures_mono (c.alloc_ensures hLen b.tag) fun result t hEnd => ?_
    obtain ⟨_ | q, nodes⟩ := result
    · obtain ⟨rfl, hConsistent⟩ := hEnd
      exact Program.ensures_pure.mpr ⟨⟨hConsistent, .refl _ _⟩, fun _ => rfl⟩
    · have hGranted : Granted s t nodes q n b.tag := hEnd
      have hApart : Region.Disjoint ⟨q, min b.bytes.length n⟩ ⟨p, min b.bytes.length n⟩ := by
        refine (hGranted.others p b hp).apart.mono ?_ ?_
        · unfold Region.Within
          simp only
          omega
        · unfold Region.Within
          simp only
          omega
      dsimp only
      rw [Program.ensures_bind]
      refine ensures_memcpy hApart (Program.ensures_pure.mpr ⟨c.copied hp hGranted, ?_⟩)
      simp
  · have hKeeps := c.resize hp hLen hResult
    rw [if_pos rfl] at hKeeps
    exact Program.ensures_pure.mpr ⟨hKeeps, by simp⟩

theorem ArenaConsistent.grant (c : ArenaConsistent s) {result : Option Nat × List Node}
    (h : AllocEnd s n alignment result t) :
    ArenaKeeps s ⟨t, result.2, s.live.grant t.memory result.1 n alignment⟩ none := by
  obtain ⟨_ | p, nodes⟩ := result
  · obtain ⟨rfl, hConsistent⟩ := h
    exact ⟨hConsistent, .refl _ _⟩
  · exact c.allocated h.laid h.new h.aligned h.others

end Calls

/-! ### Runs -/

/-- The live slice that a call is about. -/
def ArenaCall.subject : ArenaCall → Option Nat
  | .alloc _ _ _ => none
  | .resize address _ _ => some address
  | .remap address _ _ => some address
  | .free address => some address
  | .write address _ _ => some address

/-- The call returned null or false. -/
inductive ArenaCall.Refused : ArenaCall → Prop
  | alloc (len : Nat) (alignment : Alignment) : Refused (.alloc len alignment none)
  | resize (address newLen : Nat) : Refused (.resize address newLen false)
  | remap (address newLen : Nat) : Refused (.remap address newLen none)

namespace ArenaConsistent

variable {s s' : ArenaState} {e : ArenaCall}

theorem step (c : ArenaConsistent s) (hStep : ArenaStep s e s') : ArenaKeeps s s' e.subject := by
  cases hStep with
  | alloc len alignment result nodes t hLen hRun =>
    exact c.grant (hRun.ensures (c.alloc_ensures hLen alignment))
  | resize address newLen b result nodes hLive hLen hResult => exact c.resize hLive hLen hResult
  | remap address newLen b result nodes t hLive hLen hRun =>
    exact (hRun.ensures (c.remap_ensures hLive hLen)).1
  | free address b hLive => exact c.free hLive
  | write address offset b bytes hLive hFits => exact c.wrote hLive hFits

theorem reachable (h : arenaSystem.Reachable s) : ArenaConsistent s :=
  h.invariant (fun _ => start) fun _ _ _ c hStep => (c.step hStep).consistent

/-- A refused call leaves the nodes and the ledger as they were. -/
theorem refused_nodes (c : ArenaConsistent s) (hStep : ArenaStep s e s') (hRefused : e.Refused) :
    s'.nodes = s.nodes ∧ s'.live = s.live := by
  cases hRefused with
  | alloc len alignment =>
    cases hStep with
    | alloc _ _ _ nodes t hLen hRun => exact ⟨(hRun.ensures (c.alloc_ensures hLen alignment)).1, rfl⟩
  | resize address newLen =>
    cases hStep with
    | resize _ _ b _ nodes hLive hLen hResult => exact ⟨resize_refused c.laid hResult, rfl⟩
  | remap address newLen =>
    cases hStep with
    | remap _ _ b _ nodes t hLive hLen hRun =>
      exact ⟨(hRun.ensures (c.remap_ensures hLive hLen)).2 rfl, rfl⟩

end ArenaConsistent

/-! ### The end of an arena -/

theorem ArenaLaid.distinct {s : ArenaMachine} (hLaid : ArenaLaid s nodes) :
    nodes.Pairwise fun node node' => node.address ≠ node'.address := by
  refine hLaid.apart.imp_of_mem fun hMem hMem' hApart => ?_
  have hBytes : nodeBytes = 20 := rfl
  have hHeader := (hLaid.sized _ hMem).header
  have hHeader' := (hLaid.sized _ hMem').header
  refine hApart.start_ne ?_ ?_
  · unfold Node.region
    simp only
    omega
  · unfold Node.region
    simp only
    omega

/-- `deinit` returns the nodes in order, each with its length. -/
theorem deinit_ensures (t : ArenaMachine)
    (hChild : ∀ node ∈ nodes, t.child node.address = some node.totalLen)
    (hDistinct : nodes.Pairwise fun node node' => node.address ≠ node'.address) :
    (CompactArena.deinit nodes).Ensures ArenaDoes (fun _ u =>
      u.returned = (nodes.map fun node => (node.address, node.totalLen)).reverse ++ t.returned) t := by
  induction nodes generalizing t with
  | nil => exact Program.ensures_pure.mpr rfl
  | cons node rest ih =>
    obtain ⟨hFirst, hRest⟩ := List.pairwise_cons.mp hDistinct
    rw [CompactArena.deinit, Program.ensures_bind, ensures_rawFree]
    intro _ u hFree
    cases hFree with
    | rawFree _ _ _ memory hLive hKept =>
      refine Program.ensures_mono (ih _ (fun k hk => ?_) hRest) fun _ u hReturned => ?_
      · dsimp only
        rw [Function.update_of_ne (hFirst k hk).symm]
        exact hChild k (List.mem_cons_of_mem _ hk)
      · rw [hReturned, List.map_cons, List.reverse_cons, List.append_assoc]
        rfl
    | wildFree _ _ _ _ hWild => exact absurd (hChild node List.mem_cons_self) hWild

/-- In every run each live slice is aligned and in the data of a node, live slices are apart and hold
what their owners wrote, a refused call changes no node and no slice, and `deinit` returns each node
that was obtained once. -/
theorem arena_keeps_slices {s : ArenaState} (hReach : arenaSystem.Reachable s) :
    (∀ p b, s.live p = some b → p % toByteUnits b.tag = 0 ∧
      ∃ node ∈ s.nodes, Region.Within (b.region p) node.dataRegion) ∧
    (∀ p b q c, s.live p = some b → s.live q = some c → p ≠ q →
      (b.region p).Disjoint (c.region q)) ∧
    s.live.Sound s.machine.memory ∧
    (∀ e s', ArenaStep s e s' →
      (∀ p b, s.live p = some b → e.subject ≠ some p →
        s'.live p = some b ∧ s'.machine.memory.load p b.bytes.length = b.bytes) ∧
      (∀ p newLen q b, (e = .remap p newLen (some q) ∨ e = .resize p newLen true ∧ q = p) →
        s.live p = some b →
        s'.machine.memory.load q (min newLen b.bytes.length) = b.bytes.take newLen) ∧
      (e.Refused → s'.nodes = s.nodes ∧ s'.live = s.live ∧
        ∀ p b, s.live p = some b → s'.machine.memory.load p b.bytes.length = b.bytes)) ∧
    (s.machine.obtained.map Prod.fst).Nodup ∧
    ∀ t, (CompactArena.deinit s.nodes).Runs ArenaDoes s.machine () t →
      t.returned = s.machine.obtained.reverse := by
  have c := ArenaConsistent.reachable hReach
  refine ⟨fun p b hp => ⟨c.aligned p b hp, (c.sits p b hp).within c.laid⟩, c.sound.apart, c.sound,
    fun e s' hStep => ⟨fun p b hp hOther => ?_, fun p newLen q b he hp => ?_, fun hRefused => ?_⟩,
    ?_, fun t hRun => ?_⟩
  · have hKeeps := c.step hStep
    have hSame := hKeeps.others p b hp hOther
    exact ⟨hSame, hKeeps.consistent.sound.held p b hSame⟩
  · have hSound := (c.step hStep).consistent.sound
    have hResized : s'.live q = some (b.resized s'.machine.memory q newLen) := by
      rcases he with rfl | ⟨rfl, rfl⟩
      · cases hStep with
        | remap _ _ b' _ nodes t hLive =>
        rw [hp] at hLive
        cases hLive
        exact Ledger.reallocated_self ..
      · cases hStep with
        | resize _ _ b' _ nodes hLive =>
        rw [hp] at hLive
        cases hLive
        exact Ledger.reallocated_self ..
    exact hSound.held_resized hResized
  · obtain ⟨hNodes, hLive⟩ := c.refused_nodes hStep hRefused
    refine ⟨hNodes, hLive, fun p b hp => ?_⟩
    exact (c.step hStep).consistent.sound.held p b (hLive ▸ hp)
  · rw [c.laid.obtained, List.map_map]
    exact List.pairwise_map.mpr c.laid.distinct
  · have hReturned := hRun.ensures (deinit_ensures s.machine c.laid.child c.laid.distinct)
    rw [hReturned, c.laid.returned, List.append_nil, c.laid.obtained]

/-- The child may give the arena a new node wherever it has room. -/
theorem allocNode_runs {m : ArenaMachine} (nodes : List Node) {len address : Nat}
    {alignment : Alignment} (total : Nat) {minimum required : Nat}
    {result : Option Nat × List Node}
    (hMinimum : mathAdd nodeBytes (toByteUnits alignment - 1) = some minimum)
    (hRequired : mathAdd minimum len = some required)
    (hTotal : max required (nodeBytes + chunkBytes) = total)
    (hPlaces : ChildPlaces m.child address total)
    (hResult : CompactArena.withNew ⟨address, total, 0, 0, 0⟩ nodes
      (CompactArena.allocateFrom ⟨address, total, 0, 0, 0⟩ len alignment) = result) :
    (CompactArena.allocNode nodes len alignment).Runs ArenaDoes m result
      ⟨m.memory, Function.update m.child address (some total), (address, total) :: m.obtained,
        m.returned⟩ := by
  have hPlaced := ArenaDoes.rawAlloc m total address m.memory hPlaces fun _ _ _ => .refl _ _
  unfold CompactArena.allocNode
  rw [hMinimum]
  dsimp only
  rw [hRequired]
  dsimp only
  rw [hTotal, ← hResult]
  exact .call (some address) hPlaced (.ret _ _)

def emptyArena : ArenaState := ⟨⟨fun _ => 0, fun _ => none, [], []⟩, [], fun _ => none⟩

/-- A hundred bytes in a first node at 4096. -/
def oneNode : ArenaState where
  machine := ⟨emptyArena.machine.memory, Function.update emptyArena.machine.child 4096 (some 532),
    [(4096, 532)], []⟩
  nodes := [⟨4096, 532, 100, 0, 100⟩]
  live := emptyArena.live.allocated emptyArena.machine.memory 4116 100 usizeAlignment

theorem emptyArena_fresh : FreshArena emptyArena := ⟨rfl, rfl, rfl, fun _ => rfl⟩

theorem oneNode_step : ArenaStep emptyArena (.alloc 100 usizeAlignment (some 4116)) oneNode := by
  have hPlaces : ChildPlaces emptyArena.machine.child 4096 532 :=
    ⟨by decide, by decide, rfl, by decide, fun q n hq => by cases hq⟩
  have hMinimum : mathAdd nodeBytes (toByteUnits usizeAlignment - 1) = some 23 := by decide
  have hRequired : mathAdd 23 100 = some 123 := by decide
  have hFirst : CompactArena.withNew ⟨4096, 532, 0, 0, 0⟩ []
      (CompactArena.allocateFrom ⟨4096, 532, 0, 0, 0⟩ 100 usizeAlignment) =
      (some 4116, oneNode.nodes) := by decide
  have hRun : (CompactArena.alloc [] 100 usizeAlignment).Runs ArenaDoes emptyArena.machine
      (some 4116, oneNode.nodes) oneNode.machine :=
    allocNode_runs [] 532 hMinimum hRequired (by decide) hPlaces hFirst
  exact .alloc emptyArena 100 usizeAlignment (some 4116) oneNode.nodes oneNode.machine (by decide) hRun

theorem oneNode_reachable : arenaSystem.Reachable oneNode :=
  (System.Reachable.start emptyArena_fresh).step oneNode_step

/-- The hundred bytes after a write to the first of them. -/
def markedSlice : Block Alignment :=
  (Block.fresh emptyArena.machine.memory 4116 100 usizeAlignment).written 0 [7]

def markedNode : ArenaState where
  machine := { oneNode.machine with memory := oneNode.machine.memory.store (4116 + 0) [7] }
  nodes := oneNode.nodes
  live := oneNode.live.wrote (.fresh emptyArena.machine.memory 4116 100 usizeAlignment) 4116 0 [7]

/-- Three hundred bytes more in the same node. -/
def twoSlices : ArenaState where
  machine := markedNode.machine
  nodes := [⟨4096, 532, 400, 100, 300⟩]
  live := markedNode.live.allocated markedNode.machine.memory 4216 300 usizeAlignment

/-- The memory after the first slice has moved to a second node, at 8192. -/
def movedMemory : Memory :=
  markedNode.machine.memory.store 8212 (markedNode.machine.memory.load 4116 100)

def twoNodes : ArenaState where
  machine := ⟨movedMemory, Function.update oneNode.machine.child 8192 (some 532),
    [(8192, 532), (4096, 532)], []⟩
  nodes := [⟨8192, 532, 500, 0, 500⟩, ⟨4096, 532, 400, 100, 300⟩]
  live := twoSlices.live.reallocated markedSlice movedMemory 4116 8212 500

theorem markedSlice_length : markedSlice.bytes.length = 100 := by
  have hFits : 0 + [(7 : UInt8)].length ≤
      (Block.fresh emptyArena.machine.memory 4116 100 usizeAlignment).bytes.length := by
    rw [Block.length_fresh]
    decide
  exact (Block.length_written hFits).trans (Block.length_fresh ..)

theorem markedNode_step : ArenaStep oneNode (.write 4116 0 [7]) markedNode := by
  have hLive : oneNode.live 4116 =
      some (.fresh emptyArena.machine.memory 4116 100 usizeAlignment) :=
    Ledger.allocated_self emptyArena.live emptyArena.machine.memory 4116 100 usizeAlignment
  exact .write oneNode 4116 0 _ [7] hLive (by rw [Block.length_fresh]; decide)

theorem twoSlices_step : ArenaStep markedNode (.alloc 300 usizeAlignment (some 4216)) twoSlices := by
  have hRoom : CompactArena.allocateFrom ⟨4096, 532, 100, 0, 100⟩ 300 usizeAlignment =
      some (4216, ⟨4096, 532, 400, 100, 300⟩) := by decide
  have hRun : (CompactArena.orNew markedNode.nodes [] 300 usizeAlignment
      (CompactArena.allocateFrom ⟨4096, 532, 100, 0, 100⟩ 300 usizeAlignment)).Runs ArenaDoes
      markedNode.machine (some 4216, twoSlices.nodes) markedNode.machine := by
    rw [hRoom]
    exact .ret _ _
  exact .alloc markedNode 300 usizeAlignment (some 4216) twoSlices.nodes _ (by decide) hRun

theorem twoSlices_marked : twoSlices.live 4116 = some markedSlice := by
  have hNe : (4116 : Nat) ≠ 4216 := by decide
  have hLive : twoSlices.live =
      markedNode.live.allocated markedNode.machine.memory 4216 300 usizeAlignment := rfl
  rw [hLive, Ledger.allocated_of_ne hNe]
  exact Ledger.wrote_self oneNode.live _ 4116 0 [7]

theorem secondNode_placed : ChildPlaces twoSlices.machine.child 8192 532 := by
  refine ⟨by decide, by decide, rfl, by decide, fun q n hq => ?_⟩
  have hChild : twoSlices.machine.child =
      Function.update emptyArena.machine.child 4096 (some 532) := rfl
  rw [hChild] at hq
  by_cases hFirst : q = 4096
  · rw [hFirst, Function.update_self] at hq
    cases hq
    exact .inr (by rw [hFirst]; decide)
  · rw [Function.update_of_ne hFirst] at hq
    cases hq

/-- The first slice is not the last one of its node, and the node has no room for five hundred bytes. -/
theorem twoNodes_step : ArenaStep twoSlices (.remap 4116 500 (some 8212)) twoNodes := by
  have hResize : CompactArena.resize twoSlices.nodes 4116 100 500 = (false, twoSlices.nodes) := by
    decide
  have hFull : CompactArena.allocateFrom ⟨4096, 532, 400, 100, 300⟩ 500 usizeAlignment = none := by
    decide
  have hMinimum : mathAdd nodeBytes (toByteUnits usizeAlignment - 1) = some 23 := by decide
  have hRequired : mathAdd 23 500 = some 523 := by decide
  have hSecond : CompactArena.withNew ⟨8192, 532, 0, 0, 0⟩ twoSlices.nodes
      (CompactArena.allocateFrom ⟨8192, 532, 0, 0, 0⟩ 500 usizeAlignment) =
      (some 8212, twoNodes.nodes) := by decide
  have hAlloc : (CompactArena.orNew twoSlices.nodes [] 500 usizeAlignment
      (CompactArena.allocateFrom ⟨4096, 532, 400, 100, 300⟩ 500 usizeAlignment)).Runs ArenaDoes
      twoSlices.machine (some 8212, twoNodes.nodes)
      ⟨twoSlices.machine.memory, twoNodes.machine.child, twoNodes.machine.obtained, []⟩ := by
    rw [hFull]
    exact allocNode_runs twoSlices.nodes 532 hMinimum hRequired (by decide) secondNode_placed hSecond
  have hCopy : ArenaDoes ⟨twoSlices.machine.memory, twoNodes.machine.child,
      twoNodes.machine.obtained, []⟩ (.memcpy 8212 4116 (min 100 500)) () twoNodes.machine := by
    rw [show min 100 500 = 100 from rfl]
    exact .memcpy _ 8212 4116 100 (.inr (by decide))
  have hRun : (CompactArena.remap twoSlices.nodes 4116 100 usizeAlignment 500).Runs ArenaDoes
      twoSlices.machine (some 8212, twoNodes.nodes) twoNodes.machine := by
    unfold CompactArena.remap
    rw [hResize]
    refine Program.Runs.bind hAlloc ?_
    exact .call () hCopy (.ret _ _)
  exact .remap twoSlices 4116 500 markedSlice (some 8212) twoNodes.nodes twoNodes.machine
    twoSlices_marked (by decide) (markedSlice_length.symm ▸ hRun)

theorem twoSlices_reachable : arenaSystem.Reachable twoSlices :=
  (oneNode_reachable.step markedNode_step).step twoSlices_step

theorem arena_keeps_slices_two :
    twoNodes.live.Sound twoNodes.machine.memory ∧ Region.Disjoint ⟨8212, 500⟩ ⟨4216, 300⟩ ∧
      twoNodes.machine.memory.load 8212 100 = markedSlice.bytes ∧
      ∀ t, (CompactArena.deinit twoNodes.nodes).Runs ArenaDoes twoNodes.machine () t →
        t.returned = [(4096, 532), (8192, 532)] := by
  obtain ⟨-, -, -, hSteps, -, -⟩ := arena_keeps_slices twoSlices_reachable
  obtain ⟨-, hMoved, -⟩ := hSteps _ _ twoNodes_step
  have hBytes := hMoved 4116 500 8212 markedSlice (.inl rfl) twoSlices_marked
  rw [markedSlice_length, List.take_of_length_le (by rw [markedSlice_length]; decide)] at hBytes
  obtain ⟨-, hApart, hSound, -, -, hDeinit⟩ :=
    arena_keeps_slices (twoSlices_reachable.step twoNodes_step)
  have hLive : twoNodes.live = twoSlices.live.reallocated markedSlice movedMemory 4116 8212 500 :=
    rfl
  have hFirst : twoNodes.live 8212 = some (markedSlice.resized movedMemory 8212 500) := by
    rw [hLive, Ledger.reallocated_self]
  have hSecond : twoNodes.live 4216 =
      some (.fresh markedNode.machine.memory 4216 300 usizeAlignment) := by
    rw [hLive, Ledger.reallocated_of_ne (by decide) (by decide)]
    exact Ledger.allocated_self markedNode.live markedNode.machine.memory 4216 300 usizeAlignment
  have hDisjoint := hApart 8212 _ 4216 _ hFirst hSecond (by decide)
  simp only [Block.region, Block.length_resized, Block.length_fresh] at hDisjoint
  exact ⟨hSound, hDisjoint, hBytes, hDeinit⟩

end Esp32Fx.Guest
