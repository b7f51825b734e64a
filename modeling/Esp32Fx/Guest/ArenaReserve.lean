import Esp32Fx.Guest.CompactArenaFacts

/-! How much the arena reserves.  A node is left behind when a request does not fit, so that what is
used of it and that request are more than its data: each byte of a request pays once for the node it
is put in and at most once more for the node before. -/

namespace Esp32Fx.Guest

open Lib

variable {node node' : Node} {nodes nodes' rest : List Node} {len n r k : Nat}
  {alignment : Alignment}

/-- What an allocation may take of a node: its bytes, and the padding before them. -/
def demand (len : Nat) (alignment : Alignment) : Nat := len + toByteUnits alignment - 1

/-- What a call requests: what `alloc` is asked for, by a `remap` that cannot resize as well, and the
bytes that a slice gains in place. -/
def requested (s : ArenaState) : ArenaCall → Nat
  | .alloc len alignment _ => demand len alignment
  | .resize address newLen result =>
    match s.live address with
    | none => 0
    | some b => if result then newLen - b.bytes.length else 0
  | .remap address newLen _ =>
    match s.live address with
    | none => 0
    | some b =>
      if (CompactArena.resize s.nodes address b.bytes.length newLen).1 then newLen - b.bytes.length
      else demand newLen b.tag
  | .free _ => 0
  | .write _ _ _ => 0

/-- The bytes of the nodes, without their headers. -/
def reserve : List Node → Nat
  | [] => 0
  | node :: next => (node.totalLen - nodeBytes) + reserve next

theorem reserve_cons (node : Node) (nodes : List Node) :
    reserve (node :: nodes) = node.dataLen + reserve nodes := rfl

/-! ### The invariant -/

/-- The nodes that were left behind and what is used of the first one are paid for by `r` requested
bytes, and all the nodes up to one chunk. -/
def Reserved : List Node → Nat → Prop
  | [], _ => True
  | node :: rest, r =>
    node.used + reserve rest ≤ 2 * r ∧ reserve (node :: rest) ≤ 2 * r + chunkBytes

theorem Reserved.mono (h : Reserved nodes r) : Reserved nodes (r + k) := by
  cases nodes with
  | nil => trivial
  | cons node rest =>
    obtain ⟨hUsed, hReserve⟩ := h
    exact ⟨by omega, by omega⟩

/-- At most `k` more bytes of the first node are used. -/
theorem Reserved.fill (h : Reserved (node :: rest) r) (hTotal : node'.totalLen = node.totalLen)
    (hUsed : node'.used ≤ node.used + k) : Reserved (node' :: rest) (r + k) := by
  obtain ⟨hFilled, hReserve⟩ := h
  have hDataLen : node'.dataLen = node.dataLen := by rw [Node.dataLen, hTotal, Node.dataLen]
  rw [reserve_cons] at hReserve
  refine ⟨by omega, ?_⟩
  rw [reserve_cons, hDataLen]
  omega

/-- A request of `k` bytes that the first node has no room for gets a node of its own. -/
theorem Reserved.push (h : Reserved nodes r)
    (hFull : ∀ node ∈ nodes.head?, node.dataLen ≤ node.used + k) (hUsed : node'.used ≤ k)
    (hLen : node'.dataLen ≤ k + chunkBytes) : Reserved (node' :: nodes) (r + k) := by
  cases nodes with
  | nil =>
    refine ⟨?_, ?_⟩
    · rw [reserve]
      omega
    · rw [reserve_cons, reserve]
      omega
  | cons node rest =>
    obtain ⟨hFilled, -⟩ := h
    have hLeft := hFull node rfl
    refine ⟨?_, ?_⟩
    · rw [reserve_cons]
      omega
    · rw [reserve_cons, reserve_cons]
      omega

/-! ### The calls -/

/-- A slice takes no more than its demand, and a node without room has less than that left. -/
theorem allocateFrom_demand (hSized : node.Sized) (hRoom : node.used ≤ node.dataLen)
    (hLen : len ≠ 0) (alignment : Alignment) :
    (∀ p node', CompactArena.allocateFrom node len alignment = some (p, node') →
      node'.totalLen = node.totalLen ∧ node'.used ≤ node.used + demand len alignment) ∧
    (CompactArena.allocateFrom node len alignment = none →
      node.dataLen ≤ node.used + demand len alignment) := by
  have hAdd := hSized.data_add
  have hTop := hSized.top
  have hPos := toByteUnits_pos alignment
  have hData : 0 < node.data := by
    have hNotNull := hSized.notNull
    unfold Node.data
    omega
  unfold CompactArena.allocateFrom demand
  dsimp only
  by_cases hWraps : 0x100000000 ≤ node.data + node.used + (toByteUnits alignment - 1)
  · -- The aligned address is 0 then, which is past every node.
    rw [alignForward_wraps (by omega) hWraps, if_pos (by unfold usizeSub usize; omega)]
    exact ⟨fun _ _ h => absurd h (by simp), fun _ => by omega⟩
  · rw [usize_of_lt (by omega)]
    obtain ⟨-, hLow, hHigh⟩ := alignForward_of_lt hPos
      (by omega : node.data + node.used + (toByteUnits alignment - 1) < 0x100000000)
    rw [usizeSub_of_le (by omega) (by omega)]
    split
    · exact ⟨fun _ _ h => absurd h (by simp), fun _ => by omega⟩
    · next hFits =>
      refine ⟨fun p node' h => ?_, fun h => absurd h (by simp)⟩
      simp only [Option.some.injEq, Prod.mk.injEq] at h
      obtain ⟨-, rfl⟩ := h
      refine ⟨rfl, ?_⟩
      dsimp only
      omega

section Calls

variable {s : ArenaState} {t : ArenaMachine}

theorem allocNode_reserved (h : Reserved nodes r) (hLen : len ≠ 0)
    (hFull : ∀ node ∈ nodes.head?, node.dataLen ≤ node.used + demand len alignment) :
    (CompactArena.allocNode nodes len alignment).Ensures ArenaDoes
      (fun result _ => Reserved result.2 (r + demand len alignment)) t := by
  have hPos := toByteUnits_pos alignment
  unfold CompactArena.allocNode
  split
  · exact Program.ensures_pure.mpr h.mono
  next minimum hMinimum =>
  obtain ⟨rfl, -⟩ := mathAdd_eq_some hMinimum
  split
  · exact Program.ensures_pure.mpr h.mono
  next required hRequired =>
  obtain ⟨hRequired, -⟩ := mathAdd_eq_some hRequired
  have hHeader : nodeBytes ≤ max required (nodeBytes + chunkBytes) := by omega
  have hData : max required (nodeBytes + chunkBytes) - nodeBytes ≤
      demand len alignment + chunkBytes := by
    unfold demand
    omega
  generalize max required (nodeBytes + chunkBytes) = totalLen at *
  simp only [Program.ensures_bind, ensures_rawAlloc]
  intro answer u hAlloc
  cases hAlloc with
  | rawAllocFails => exact Program.ensures_pure.mpr h.mono
  | rawAlloc _ _ address memory hPlaces hKept =>
    refine Program.ensures_pure.mpr ?_
    have hSized : (⟨address, totalLen, 0, 0, 0⟩ : Node).Sized :=
      ⟨hPlaces.notNull, hHeader, hPlaces.top⟩
    have hDemand := (allocateFrom_demand hSized (Nat.zero_le _) hLen alignment).1
    generalize CompactArena.allocateFrom ⟨address, totalLen, 0, 0, 0⟩ len alignment = found
      at hDemand ⊢
    cases found with
    | none => exact h.push hFull (Nat.zero_le _) hData
    | some found =>
      obtain ⟨p, node'⟩ := found
      obtain ⟨hTotal, hUsed⟩ := hDemand p node' rfl
      refine h.push hFull (by simpa using hUsed) ?_
      rw [Node.dataLen, hTotal]
      exact hData

theorem alloc_reserved (hLaid : ArenaLaid t nodes) (h : Reserved nodes r) (hLen : len ≠ 0)
    (alignment : Alignment) :
    (CompactArena.alloc nodes len alignment).Ensures ArenaDoes
      (fun result _ => Reserved result.2 (r + demand len alignment)) t := by
  cases nodes with
  | nil => exact allocNode_reserved h hLen fun node hNode => absurd hNode (by simp)
  | cons node rest =>
    have hDemand := allocateFrom_demand (hLaid.sized node List.mem_cons_self)
      (hLaid.filled node rfl).room hLen alignment
    unfold CompactArena.alloc
    dsimp only
    generalize CompactArena.allocateFrom node len alignment = found at hDemand
    cases found with
    | none =>
      refine allocNode_reserved h hLen fun k hk => ?_
      cases hk
      exact hDemand.2 rfl
    | some found =>
      obtain ⟨p, node'⟩ := found
      obtain ⟨hTotal, hUsed⟩ := hDemand.1 p node' rfl
      exact Program.ensures_pure.mpr (h.fill hTotal hUsed)

/-- The last slice gets `n` bytes. -/
theorem Reserved.setLast (h : Reserved (node :: rest) r) (hFilled : node.Filled) (n : Nat) :
    Reserved (CompactArena.setLast node n :: rest) (r + (n - node.lastLen)) := by
  have hUsed := hFilled.used
  have hGrows : (CompactArena.setLast node n).used ≤ node.used + (n - node.lastLen) := by
    unfold CompactArena.setLast
    dsimp only
    omega
  exact h.fill rfl hGrows

/-- A slice that is resized in place uses as much more as it grows, and a refusal changes nothing. -/
theorem resize_reserved (hLaid : ArenaLaid s.machine nodes) (h : Reserved nodes r) {p : Nat}
    {result : Bool} (hResult : CompactArena.resize nodes p len n = (result, nodes')) :
    Reserved nodes' (r + if result then n - len else 0) := by
  cases nodes with
  | nil =>
    rw [CompactArena.resize] at hResult
    split at hResult <;> cases hResult <;> trivial
  | cons node rest =>
    rcases resize_cases hLaid p len n with ⟨hLast, -, hEq⟩ | ⟨-, -, hEq⟩ | hEq
    · rw [hEq] at hResult
      cases hResult
      rw [(isLast_iff.mp hLast).2, if_pos rfl]
      exact h.setLast (hLaid.filled node rfl) n
    · rw [hEq] at hResult
      cases hResult
      exact h.mono
    · rw [hEq] at hResult
      cases hResult
      exact h.mono

theorem free_reserved (hLaid : ArenaLaid t nodes) (h : Reserved nodes r) (p len : Nat) :
    Reserved (CompactArena.free nodes p len) r := by
  cases nodes with
  | nil => trivial
  | cons node rest =>
    rw [CompactArena.free]
    split
    · exact h
    · have hEmptied := h.setLast (hLaid.filled node rfl) 0
      rwa [Nat.zero_sub] at hEmptied

/-- A `remap` requests what its slice gains, or a slice of its own. -/
theorem remap_reserved (hLaid : ArenaLaid s.machine nodes) (h : Reserved nodes r) (hLen : n ≠ 0)
    (p len : Nat) (alignment : Alignment) :
    (CompactArena.remap nodes p len alignment n).Ensures ArenaDoes
      (fun result _ => Reserved result.2
        (r + if (CompactArena.resize nodes p len n).1 then n - len else demand n alignment))
      s.machine := by
  unfold CompactArena.remap
  generalize hResult : CompactArena.resize nodes p len n = resized
  obtain ⟨_ | _, nodes'⟩ := resized
  · obtain rfl := resize_refused hLaid hResult
    dsimp only
    rw [Program.ensures_bind]
    refine Program.ensures_mono (alloc_reserved hLaid h hLen alignment) fun result u hEnd => ?_
    obtain ⟨_ | q, nodes'⟩ := result
    · exact Program.ensures_pure.mpr hEnd
    · dsimp only
      rw [Program.ensures_bind]
      exact fun _ _ _ => Program.ensures_pure.mpr hEnd
  · exact Program.ensures_pure.mpr (resize_reserved hLaid h hResult)

end Calls

/-! ### Runs -/

variable {s s' : ArenaState} {e : ArenaCall}

theorem Reserved.step (c : ArenaConsistent s) (h : Reserved s.nodes r) (hStep : ArenaStep s e s') :
    Reserved s'.nodes (r + requested s e) := by
  cases hStep with
  | alloc len alignment result nodes t hLen hRun =>
    exact hRun.ensures (alloc_reserved c.laid h hLen alignment)
  | resize address newLen b result nodes hLive hLen hResult =>
    rw [requested, hLive]
    exact resize_reserved c.laid h hResult
  | remap address newLen b result nodes t hLive hLen hRun =>
    rw [requested, hLive]
    exact hRun.ensures (remap_reserved c.laid h hLen _ _ _)
  | free address b hLive => exact free_reserved c.laid h _ _
  | write address offset b bytes hLive hFits => exact h

theorem reserved_reachable {w : ArenaState × Nat}
    (h : (arenaSystem.metered requested).Reachable w) : Reserved w.1.nodes w.2 := by
  refine (System.Reachable.invariant
    (I := fun w => ArenaConsistent w.1 ∧ Reserved w.1.nodes w.2) ?_ ?_ h).2
  · rintro w ⟨hStart, -⟩
    refine ⟨.start hStart, ?_⟩
    rw [hStart.nodes]
    trivial
  · rintro w e w' ⟨hConsistent, hReserved⟩ ⟨hStep, hMeter⟩
    rw [hMeter]
    exact ⟨(hConsistent.step hStep).consistent, hReserved.step hConsistent hStep⟩

/-- Every run has its requests counted, and however the calls come, the data of all nodes is at most
twice what was requested so far and one chunk. -/
theorem arena_reserves :
    (∀ s, arenaSystem.Reachable s → ∃ r, (arenaSystem.metered requested).Reachable (s, r)) ∧
    ∀ s r, (arenaSystem.metered requested).Reachable (s, r) →
      reserve s.nodes ≤ 2 * r + 512 := by
  refine ⟨fun s h => h.meter requested, fun s r h => ?_⟩
  have hReserved := reserved_reachable h
  have hChunk : chunkBytes = 512 := rfl
  generalize s.nodes = nodes at hReserved
  cases nodes with
  | nil => exact Nat.zero_le _
  | cons node rest => exact hChunk ▸ hReserved.2

theorem arena_reserves_two :
    (arenaSystem.metered requested).Reachable (twoNodes, 909) ∧
      reserve twoNodes.nodes ≤ 2 * 909 + 512 := by
  have hStart : (arenaSystem.metered requested).Reachable (emptyArena, 0) :=
    .start ⟨emptyArena_fresh, rfl⟩
  have hOne : (arenaSystem.metered requested).Reachable (oneNode, 103) :=
    hStart.step ⟨oneNode_step, rfl⟩
  have hMarked : (arenaSystem.metered requested).Reachable (markedNode, 103) :=
    hOne.step ⟨markedNode_step, rfl⟩
  have hSlices : (arenaSystem.metered requested).Reachable (twoSlices, 406) :=
    hMarked.step ⟨twoSlices_step, rfl⟩
  have hDemand : requested twoSlices (.remap 4116 500 (some 8212)) = 503 := by
    rw [requested, twoSlices_marked]
    dsimp only
    rw [markedSlice_length]
    decide
  have hNodes : (arenaSystem.metered requested).Reachable (twoNodes, 909) :=
    hSlices.step ⟨twoNodes_step, by rw [hDemand]⟩
  exact ⟨hNodes, arena_reserves.2 twoNodes 909 hNodes⟩

end Esp32Fx.Guest
