import Esp32Fx.Wamr.Readonly

/-! Read-only modules and modules rewritten in place give the interpreter the same opcodes and the
same depths. -/

namespace Esp32Fx.Wamr

open Esp32Fx.Lib

/-! ### Opcodes -/

/-- The rewrites so far are in the patches of one loader and in the bytes of the other. -/
def SameOpcodes (r w : Loader) : Prop := ∀ a, fetchOpcode r a = w.memory a

theorem patchOpcode_same {r r' w : Loader} {x : Rewrite} (h : SameOpcodes r w)
    (hReadonly : patchOpcode true r x = some r') :
    ∃ w', patchOpcode false w x = some w' ∧ SameOpcodes r' w' := by
  refine ⟨{ w with memory := w.memory.store x.opcodeAddr [x.replacement] }, rfl, fun a => ?_⟩
  simp only [patchOpcode, if_true, addBytecodePatch] at hReadonly
  split at hReadonly
  · cases hReadonly
  next patches hPatches =>
  split at hPatches
  · cases hPatches
    cases hReadonly
    rw [fetchOpcode, resolveBytecodeOpcode]
    split
    · next hAddr =>
      obtain rfl : x.opcodeAddr = a := hAddr
      exact (Memory.store_singleton ..).symm
    · next hAddr =>
      have hNe : x.opcodeAddr ≠ a := hAddr
      have hOutside : a < x.opcodeAddr ∨ x.opcodeAddr + [x.replacement].length ≤ a := by
        rw [List.length_singleton]
        omega
      exact (h a).trans (Memory.store_outside _ hOutside).symm
  · cases hPatches

theorem patchOpcodes_same {r r' w : Loader} {xs : List Rewrite} (h : SameOpcodes r w)
    (hReadonly : patchOpcodes true r xs = some r') :
    ∃ w', patchOpcodes false w xs = some w' ∧ SameOpcodes r' w' := by
  induction xs generalizing r w with
  | nil =>
    cases hReadonly
    exact ⟨w, rfl, h⟩
  | cons x xs ih =>
    rw [patchOpcodes] at hReadonly
    split at hReadonly
    · cases hReadonly
    next r₁ hFirst =>
    obtain ⟨w₁, hWrite, hSame⟩ := patchOpcode_same h hFirst
    obtain ⟨w', hRest, hSame'⟩ := ih hSame hReadonly
    exact ⟨w', by rw [patchOpcodes, hWrite]; exact hRest, hSame'⟩

/-- The last opcode that a sequence of rewrites puts at an address, over the old one. -/
def lastRewrite (xs : List Rewrite) (a : Nat) (opcode : UInt8) : UInt8 :=
  ((xs.reverse.find? fun x => x.opcodeAddr = a).map Rewrite.replacement).getD opcode

/-- In place, the last rewrite of an address wins. -/
theorem patchOpcodes_memory {s w : Loader} {xs : List Rewrite}
    (h : patchOpcodes false s xs = some w) (a : Nat) :
    w.memory a = lastRewrite xs a (s.memory a) := by
  induction xs generalizing s with
  | nil =>
    cases h
    rfl
  | cons x xs ih =>
    have hRest : w.memory a = lastRewrite xs a (s.memory.store x.opcodeAddr [x.replacement] a) := ih h
    rw [hRest, lastRewrite, lastRewrite, List.reverse_cons, List.find?_append]
    cases hLater : xs.reverse.find? fun x => x.opcodeAddr = a with
    | some y => rfl
    | none =>
      by_cases hAddr : x.opcodeAddr = a
      · subst hAddr
        simp [Memory.store_singleton]
      · have hOutside : a < x.opcodeAddr ∨ x.opcodeAddr + [x.replacement].length ≤ a := by
          rw [List.length_singleton]
          omega
        simp [hAddr, Memory.store_outside _ hOutside]
/-- Read-only, no byte of the module changes. -/
theorem patchOpcodes_readonly {s r : Loader} {xs : List Rewrite}
    (h : patchOpcodes true s xs = some r) : r.memory = s.memory := by
  induction xs generalizing s with
  | nil =>
    cases h
    rfl
  | cons x xs ih =>
    rw [patchOpcodes] at h
    split at h
    · cases h
    next s₁ hFirst =>
    have hSame : s₁.memory = s.memory := by
      simp only [patchOpcode, if_true] at hFirst
      split at hFirst
      · cases hFirst
      · cases hFirst
        rfl
    exact (ih h).trans hSame

/-- An address that no patch names keeps its opcode. -/
theorem fetchOpcode_unpatched {s : Loader} {a : Nat} (h : ∀ patch ∈ s.patches, patch.opcodeAddr ≠ a) :
    fetchOpcode s a = s.memory a := by
  obtain ⟨memory, patches, caches⟩ := s
  rw [fetchOpcode]
  induction patches with
  | nil => rfl
  | cons patch patches ih =>
    rw [resolveBytecodeOpcode, if_neg (h patch List.mem_cons_self)]
    exact ih fun other hOther => h other (List.mem_cons_of_mem _ hOther)

/-! ### A walk over the entries -/

variable {ops : Opcodes} {read : LebReader} {t : BrTable} {count : Leb32} {entries : List Leb32}

theorem walkEntries_text (hRead : read.Decodes) {m : Memory} {ip ipEnd n depth : Nat}
    {es : List Leb32} (hn : n < es.length)
    (hText : m.load ip (Leb32.text es).length = Leb32.text es)
    (hEnd : ip + (Leb32.text es).length ≤ ipEnd) :
    walkEntries read m ipEnd (n + 1) ip depth = es[n]?.map Leb32.value := by
  induction n generalizing es ip depth with
  | zero =>
    obtain ⟨e, es, rfl⟩ := List.exists_cons_of_ne_nil (List.ne_nil_of_length_pos hn)
    rw [Leb32.text_cons, List.length_append] at hEnd
    rw [walkEntries, hRead m ip ipEnd e (m.load_text (i := 0) hText rfl) (by omega)]
    rfl
  | succ n ih =>
    have hPos : 0 < es.length := by omega
    obtain ⟨e, es, rfl⟩ := List.exists_cons_of_ne_nil (List.ne_nil_of_length_pos hPos)
    have hFirst := m.load_text (i := 0) hText rfl
    rw [Leb32.text_cons, List.length_append] at hEnd hText
    rw [Memory.load_add] at hText
    rw [walkEntries, hRead m ip ipEnd e hFirst (by omega)]
    simp only [List.length_cons] at hn
    rw [List.getElem?_cons_succ]
    exact ih (by omega) (List.append_inj hText (Memory.length_load ..)).2 (by omega)

/-- A memory holds the instruction: the opcode, the count, and the entries. -/
structure HoldsBrTable (ops : Opcodes) (t : BrTable) (count : Leb32) (entries : List Leb32)
    (m : Memory) : Prop where
  opcode : m t.pOpcode = ops.brTable
  countText : m.load (t.pOpcode + 1) count.bytes.length = count.bytes
  countValue : count.value = t.count
  begins : t.pDepthBegin = t.pOpcode + 1 + count.bytes.length
  length : entries.length = t.count + 1
  text : m.load t.pDepthBegin (Leb32.text entries).length = Leb32.text entries
  ends : t.pDepthBegin + (Leb32.text entries).length ≤ t.pEnd

/-- The depth for an index, clamped to the last entry. -/
def depthAt (entries : List Leb32) (lidx count : Nat) : Option Nat :=
  entries[min lidx count]?.map Leb32.value

theorem HoldsBrTable.entry {m : Memory} (h : HoldsBrTable ops t count entries m) {i : Nat}
    {e : Leb32} (hi : entries[i]? = some e) :
    m.load (t.pDepthBegin + (Leb32.text (entries.take i)).length) e.bytes.length = e.bytes ∧
      t.pDepthBegin + (Leb32.text (entries.take i)).length + e.bytes.length ≤ t.pEnd := by
  refine ⟨Memory.load_text h.text hi, ?_⟩
  have hLength := congrArg List.length (Leb32.text_take_succ hi)
  have hLe := Leb32.length_text_take_le entries (i + 1)
  have hEnds := h.ends
  rw [List.length_append] at hLength
  omega

/-- The interpreter walks to the depth of the index. -/
theorem brTable_readonly (hRead : read.Decodes) {m : Memory}
    (h : HoldsBrTable ops t count entries m) (lidx : Nat) :
    brTable read true m (t.pOpcode + 1) t.pEnd lidx = depthAt entries lidx t.count := by
  have hBegins := h.begins
  have hEnds := h.ends
  have hLength := h.length
  have hClamp : (if lidx > t.count then t.count else lidx) = min lidx t.count := by
    split <;> omega
  rw [brTable, hRead m _ _ count h.countText (by omega), h.countValue, ← hBegins]
  simp only [if_true, hClamp]
  exact walkEntries_text hRead (by omega) h.text h.ends

/-! ### The loader in place -/

/-- The loop before entry `i`: the entries ahead are as they were, and the depths behind are in the
first bytes or in the cache. -/
structure Scanned (ops : Opcodes) (t : BrTable) (entries : List Leb32) (m : Memory) (i : Nat)
    (s : Scan) : Prop where
  p : s.p = t.pDepthBegin + (Leb32.text (entries.take i)).length
  ahead : ∀ a, s.p ≤ a → s.memory a = m a
  before : ∀ a, a < t.pDepthBegin → a ≠ t.pOpcode → s.memory a = m a
  inBytes : s.cache = none → s.memory t.pOpcode = ops.brTable ∧ s.pDepth = t.pDepthBegin + i ∧
    ∀ j < i, entries[j]?.map Leb32.value = some (s.memory (t.pDepthBegin + j)).toNat
  inCache : ∀ cache, s.cache = some cache → s.memory t.pOpcode = ops.brTableCache ∧
    cache.brTableOpAddr = t.pOpcode ∧ cache.brCount = t.count ∧
    cache.brDepths.length = t.count + 1 ∧
    ∀ j < i, cache.brDepths[j]? = entries[j]?.map Leb32.value

theorem scanned_start {m : Memory} (h : HoldsBrTable ops t count entries m) :
    Scanned ops t entries m 0 ⟨m, t.pDepthBegin, t.pDepthBegin, none⟩ where
  p := by simp
  ahead _ _ := rfl
  before _ _ _ := rfl
  inBytes _ := ⟨h.opcode, rfl, fun j hj => absurd hj (Nat.not_lt_zero j)⟩
  inCache _ hCache := by cases hCache

variable {m : Memory} {i : Nat} {s s' : Scan} {e : Leb32}

/-- A byte for each entry is not more than the entries take. -/
theorem Scanned.slot_le (h : Scanned ops t entries m i s) (hi : i ≤ entries.length) :
    t.pDepthBegin + i ≤ s.p := by
  have hLe := Leb32.length_le_text (entries.take i)
  rw [List.length_take, Nat.min_eq_left hi] at hLe
  have hp := h.p
  omega

theorem getElem?_set_depth {depths : List Nat} {depth j : Nat} (hi : i < depths.length)
    (hDepth : entries[i]?.map Leb32.value = some depth)
    (hBefore : ∀ j < i, depths[j]? = entries[j]?.map Leb32.value) (hj : j < i + 1) :
    (depths.set i depth)[j]? = entries[j]?.map Leb32.value := by
  by_cases hEq : i = j
  · subst hEq
    rw [List.getElem?_set_self hi, hDepth]
  · rw [List.getElem?_set_ne hEq]
    exact hBefore j (by omega)

/-- A new cache starts with the depths that are in the first bytes. -/
theorem newCache_depths {memory : Memory} (hi : i ≤ t.count + 1)
    (hSlots : ∀ j < i, entries[j]?.map Leb32.value = some (memory (t.pDepthBegin + j)).toNat) :
    (newCache t memory i).brDepths.length = t.count + 1 ∧
      ∀ j < i, (newCache t memory i).brDepths[j]? = entries[j]?.map Leb32.value := by
  constructor
  · simp only [newCache, List.length_append, List.length_map, Memory.length_load,
      List.length_replicate]
    omega
  · intro j hj
    have hLoad := Memory.getElem?_load memory t.pDepthBegin hj
    simp only [newCache]
    rw [List.getElem?_append_left (by simpa using hj), List.getElem?_map, hLoad, hSlots j hj]
    rfl

theorem store_byte_ne {memory : Memory} {a x : Nat} {b : UInt8} (h : x ≠ a) :
    memory.store a [b] x = memory x :=
  Memory.store_outside _ (by rw [List.length_singleton]; omega)

/-- What an entry writes is behind the cursor. -/
theorem putDepth_scanned (hLoad : HoldsBrTable ops t count entries m)
    (h : Scanned ops t entries m i s) (hi : entries[i]? = some e)
    (hPut : putDepth ops t i e.value { s with p := s.p + e.bytes.length } = some s') :
    Scanned ops t entries m (i + 1) s' := by
  have hBytes := e.bytes_pos
  have hLength := hLoad.length
  have hBegins := hLoad.begins
  have hLt : i < entries.length := by
    obtain ⟨hLt, -⟩ := List.getElem?_eq_some_iff.mp hi
    exact hLt
  have hSlot := h.slot_le (Nat.le_of_lt hLt)
  have hDepth : entries[i]?.map Leb32.value = some e.value := by rw [hi]; rfl
  have hP : s.p + e.bytes.length =
      t.pDepthBegin + (Leb32.text (entries.take (i + 1))).length := by
    rw [Leb32.text_take_succ hi, List.length_append, h.p, Nat.add_assoc]
  unfold putDepth at hPut
  simp only at hPut
  split at hPut
  · next cache hCache =>
    obtain ⟨hOpcode, hAddr, hCount, hSize, hDepths⟩ := h.inCache cache hCache
    cases hPut
    refine ⟨hP, fun a ha => h.ahead a (by simp only at ha; omega), h.before, nofun, ?_⟩
    rintro _ ⟨⟩
    refine ⟨hOpcode, hAddr, hCount, by simpa using hSize, fun j hj => ?_⟩
    exact getElem?_set_depth (by omega) hDepth hDepths hj
  next hCache =>
  obtain ⟨hOpcode, hPDepth, hSlots⟩ := h.inBytes hCache
  split at hPut
  · split at hPut
    · cases hPut
      have hSlots' : ∀ j < i, entries[j]?.map Leb32.value =
          some (s.memory.store t.pOpcode [ops.brTableCache] (t.pDepthBegin + j)).toNat := by
        intro j hj
        rw [store_byte_ne (by omega)]
        exact hSlots j hj
      obtain ⟨hSize, hDepths⟩ := newCache_depths (by omega) hSlots'
      refine ⟨hP, fun a ha => ?_, fun a ha hNe => ?_, nofun, ?_⟩
      · simp only at ha
        have hNe : a ≠ t.pOpcode := by omega
        exact (store_byte_ne hNe).trans (h.ahead a (by omega))
      · exact (store_byte_ne hNe).trans (h.before a ha hNe)
      · rintro _ ⟨⟩
        refine ⟨Memory.store_singleton .., rfl, rfl, by simpa using hSize, fun j hj => ?_⟩
        exact getElem?_set_depth (by omega) hDepth hDepths hj
    · cases hPut
  · next hSmall =>
    cases hPut
    refine ⟨hP, fun a ha => ?_, fun a ha hNe => ?_, fun _ => ⟨?_, ?_, fun j hj => ?_⟩, ?_⟩
    · simp only at ha
      have hSlotNe : a ≠ s.pDepth := by omega
      exact (store_byte_ne hSlotNe).trans (h.ahead a (by omega))
    · have hSlotNe : a ≠ s.pDepth := by omega
      exact (store_byte_ne hSlotNe).trans (h.before a ha hNe)
    · have hSlotNe : t.pOpcode ≠ s.pDepth := by omega
      exact (store_byte_ne hSlotNe).trans hOpcode
    · simp only
      omega
    · simp only [hPDepth]
      by_cases hEq : j = i
      · subst hEq
        rw [Memory.store_singleton, hDepth, UInt8.toNat_ofNat', Nat.mod_eq_of_lt (by omega)]
      · rw [store_byte_ne (by omega)]
        exact hSlots j (by omega)
    · intro cache hSome
      simp only [hCache] at hSome
      cases hSome

/-- The entry at the cursor is read as it was before the load. -/
theorem Scanned.read_entry (hRead : read.Decodes) (hLoad : HoldsBrTable ops t count entries m)
    (h : Scanned ops t entries m i s) (hi : entries[i]? = some e) :
    read s.memory s.p t.pEnd = some (e.value, s.p + e.bytes.length) := by
  obtain ⟨hText, hEnd⟩ := hLoad.entry hi
  rw [← h.p] at hText hEnd
  have hSame : s.memory.load s.p e.bytes.length = m.load s.p e.bytes.length :=
    Memory.load_congr fun j _ => h.ahead _ (Nat.le_add_right _ _)
  exact hRead _ _ _ e (hSame.trans hText) hEnd

theorem scanEntry_scanned (hRead : read.Decodes) (hLoad : HoldsBrTable ops t count entries m)
    (hCheck : ∀ label depth, t.check label = some depth → depth = label)
    (h : Scanned ops t entries m i s) (hi : i < entries.length)
    (hScan : scanEntry ops read false t i s = some s') : Scanned ops t entries m (i + 1) s' := by
  have hGet := List.getElem?_eq_getElem hi
  rw [scanEntry, h.read_entry hRead hLoad hGet] at hScan
  simp only [Bool.false_eq_true, if_false] at hScan
  split at hScan
  · cases hScan
  next depth hDepth =>
  obtain rfl := hCheck _ depth hDepth
  exact putDepth_scanned hLoad h hGet hScan

theorem scanEntries_scanned (hRead : read.Decodes) (hLoad : HoldsBrTable ops t count entries m)
    (hCheck : ∀ label depth, t.check label = some depth → depth = label) {n : Nat}
    (h : Scanned ops t entries m i s) (hn : i + n ≤ entries.length)
    (hScan : scanEntries ops read false t n i s = some s') :
    Scanned ops t entries m (i + n) s' := by
  induction n generalizing i s with
  | zero =>
    cases hScan
    exact h
  | succ n ih =>
    rw [scanEntries] at hScan
    split at hScan
    · cases hScan
    next s₁ hFirst =>
    have h₁ := scanEntry_scanned hRead hLoad hCheck h (by omega) hFirst
    have hEnd := ih h₁ (by omega) hScan
    rwa [Nat.add_assoc, Nat.add_comm 1 n] at hEnd

/-- The read-only loader passes over the same entries and writes nothing. -/
theorem scanEntries_readonly (hRead : read.Decodes) (hLoad : HoldsBrTable ops t count entries m)
    (hCheck : ∀ label depth, t.check label = some depth → depth = label) {memory : Memory}
    (hText : HoldsBrTable ops t count entries memory) {n pDepth : Nat}
    {cache : Option BrTableCache} (h : Scanned ops t entries m i s) (hn : i + n ≤ entries.length)
    (hScan : scanEntries ops read false t n i s = some s') :
    scanEntries ops read true t n i ⟨memory, s.p, pDepth, cache⟩ =
      some ⟨memory, s'.p, pDepth, cache⟩ := by
  induction n generalizing i s with
  | zero =>
    cases hScan
    rfl
  | succ n ih =>
    rw [scanEntries] at hScan
    split at hScan
    · cases hScan
    next s₁ hFirst =>
    have hi : i < entries.length := by omega
    have hGet := List.getElem?_eq_getElem hi
    have h₁ := scanEntry_scanned hRead hLoad hCheck h hi hFirst
    obtain ⟨hEntry, hEnd⟩ := hText.entry hGet
    rw [← h.p] at hEntry hEnd
    have hNext : s₁.p = s.p + entries[i].bytes.length := by
      rw [h₁.p, Leb32.text_take_succ hGet, List.length_append, h.p, Nat.add_assoc]
    rw [scanEntry, h.read_entry hRead hLoad hGet] at hFirst
    simp only [Bool.false_eq_true, if_false] at hFirst
    split at hFirst
    · cases hFirst
    next depth hDepth =>
    have hReadonly : scanEntry ops read true t i ⟨memory, s.p, pDepth, cache⟩ =
        some ⟨memory, s₁.p, pDepth, cache⟩ := by
      rw [scanEntry, hRead memory s.p t.pEnd _ hEntry hEnd]
      simp only [hDepth, if_true, hNext]
    rw [scanEntries, hReadonly]
    exact ih h₁ (by omega) hScan

/-- The loader has gone on after the instruction and has left it alone. -/
structure Later (t : BrTable) (next : Nat) (s later : Loader) : Prop where
  memory : Memory.AgreeOn ⟨t.pOpcode, next - t.pOpcode⟩ s.memory later.memory
  patches : ∀ patch ∈ later.patches, patch.opcodeAddr ≠ t.pOpcode
  caches : ∀ cache : BrTableCache, cache.brTableOpAddr = t.pOpcode →
    (cache ∈ later.caches ↔ cache ∈ s.caches)

theorem Later.holds {next : Nat} {r later : Loader} (h : Later t next r later)
    (hText : HoldsBrTable ops t count entries r.memory)
    (hNext : next = t.pDepthBegin + (Leb32.text entries).length) :
    HoldsBrTable ops t count entries later.memory := by
  have hBegins := hText.begins
  have hPart : ∀ a n, t.pOpcode ≤ a → a + n ≤ next →
      later.memory.load a n = r.memory.load a n := by
    intro a n hStart hEnd
    refine Memory.load_of_agreeOn (h.memory.within ?_)
    unfold Region.Within
    simp only
    omega
  refine ⟨?_, ?_, hText.countValue, hBegins, hText.length, ?_, hText.ends⟩
  · rw [h.memory t.pOpcode (Nat.le_refl _) (by simp only; omega)]
    exact hText.opcode
  · rw [hPart _ _ (by omega) (by omega)]
    exact hText.countText
  · rw [hPart _ _ (by omega) (by omega)]
    exact hText.text

/-- The read-only interpreter takes the depth of the clamped index. -/
theorem dispatch_readonly (hRead : read.Decodes) {find : List BrTableCache → Nat → Nat → Option Nat}
    {next : Nat} {r later : Loader} (h : Later t next r later)
    (hText : HoldsBrTable ops t count entries r.memory)
    (hNext : next = t.pDepthBegin + (Leb32.text entries).length) (lidx : Nat) :
    dispatchBrTable ops read find true later t.pOpcode t.pEnd lidx =
      depthAt entries lidx t.count := by
  have hHolds := h.holds hText hNext
  rw [dispatchBrTable, fetchOpcode_unpatched h.patches, if_pos hHolds.opcode]
  exact brTable_readonly hRead hHolds lidx

theorem setTail_before (h : Scanned ops t entries m i s) {a : Nat} (ha : a < t.pDepthBegin) :
    setTail ops t s a = s.memory a := by
  refine Memory.store_outside _ (.inl ?_)
  split
  · exact ha
  · next hNone =>
    have hSlot := (h.inBytes (by simpa using hNone)).2.1
    omega

theorem setTail_slot (h : Scanned ops t entries m i s) (hNone : s.cache = none) {j : Nat}
    (hj : j < i) : setTail ops t s (t.pDepthBegin + j) = s.memory (t.pDepthBegin + j) := by
  have hSlot := (h.inBytes hNone).2.1
  unfold setTail
  simp only [hNone, Option.isSome_none, Bool.false_eq_true, if_false]
  exact Memory.store_outside _ (.inl (by omega))

/-- The loader after the instruction, in place. -/
def loaded (ops : Opcodes) (t : BrTable) (w : Loader) (s : Scan) : Loader :=
  { w with memory := setTail ops t s, caches := s.cache.toList ++ w.caches }

theorem later_byte {next a : Nat} {w later : Loader} (h : Later t next w later)
    (hStart : t.pOpcode ≤ a) (hEnd : a < next) : later.memory a = w.memory a :=
  h.memory a hStart (by simp only; omega)

/-- Depths in one byte each: the interpreter reads the byte of the clamped index. -/
theorem dispatch_bytes (hRead : read.Decodes) {find : List BrTableCache → Nat → Nat → Option Nat}
    {w later : Loader} (hText : HoldsBrTable ops t count entries m)
    (hScan : Scanned ops t entries m (t.count + 1) s) (hNone : s.cache = none)
    (h : Later t s.p (loaded ops t w s) later) (lidx : Nat) :
    dispatchBrTable ops read find false later t.pOpcode t.pEnd lidx =
      depthAt entries lidx t.count := by
  obtain ⟨hOpcode, -, hSlots⟩ := hScan.inBytes hNone
  have hBegins := hText.begins
  have hEnds := hText.ends
  have hLe := hScan.slot_le (by rw [hText.length])
  have hFetch : later.memory t.pOpcode = ops.brTable := by
    rw [later_byte h (Nat.le_refl _) (by omega)]
    exact (setTail_before hScan (by omega)).trans hOpcode
  have hCount : later.memory.load (t.pOpcode + 1) count.bytes.length = count.bytes := by
    refine (Memory.load_congr fun k hk => ?_).trans hText.countText
    rw [later_byte h (by omega) (by omega)]
    exact (setTail_before hScan (by omega)).trans (hScan.before _ (by omega) (by omega))
  have hClamp : (if lidx > t.count then t.count else lidx) = min lidx t.count := by
    split <;> omega
  rw [dispatchBrTable, fetchOpcode_unpatched h.patches, if_pos hFetch, brTable,
    hRead _ _ _ count hCount (by omega), hText.countValue, ← hBegins]
  simp only [Bool.false_eq_true, if_false, hClamp]
  rw [later_byte h (by omega) (by omega), depthAt, hSlots _ (by omega)]
  exact congrArg (fun b : UInt8 => some b.toNat) (setTail_slot hScan hNone (by omega))

/-- Depths in a cache: the interpreter finds the cache under the new opcode. -/
theorem dispatch_cache {find : List BrTableCache → Nat → Nat → Option Nat} (hFind : FindsCache find)
    {w later : Loader} (hText : HoldsBrTable ops t count entries m)
    (hNew : ∀ cache ∈ w.caches, cache.brTableOpAddr ≠ t.pOpcode)
    (hScan : Scanned ops t entries m (t.count + 1) s) {cache : BrTableCache}
    (hCache : s.cache = some cache) (h : Later t s.p (loaded ops t w s) later) (lidx : Nat) :
    dispatchBrTable ops read find false later t.pOpcode t.pEnd lidx =
      depthAt entries lidx t.count := by
  obtain ⟨hOpcode, hAddr, hCount, -, hDepths⟩ := hScan.inCache cache hCache
  have hBegins := hText.begins
  have hLe := hScan.slot_le (by rw [hText.length])
  have hFetch : later.memory t.pOpcode = ops.brTableCache := by
    rw [later_byte h (Nat.le_refl _) (by omega)]
    exact (setTail_before hScan (by omega)).trans hOpcode
  have hOwn : ∀ c : BrTableCache, c.brTableOpAddr = t.pOpcode → (c ∈ later.caches ↔ c = cache) := by
    intro c hc
    have hOld : c ∉ w.caches := fun hMem => hNew c hMem hc
    rw [h.caches c hc]
    simp [loaded, hCache, hOld]
  rw [dispatchBrTable, fetchOpcode_unpatched h.patches, hFetch, if_neg ops.distinct.symm,
    if_pos rfl, ← hAddr, hFind later.caches cache lidx ((hOwn cache hAddr).mpr rfl), hCount, depthAt]
  · exact hDepths _ (by omega)
  · intro c _ hc
    exact (hOwn c (hc.trans hAddr)).mp ‹_›

/-! ### Both modes -/

/-- The interpreter fetches from the patches what the loader would have written in place, the last
rewrite of each address, and the module stays as it is. -/
theorem opcodes_agree {memory : Memory} {caches : List BrTableCache} {xs : List Rewrite}
    {r : Loader} (h : patchOpcodes true ⟨memory, [], caches⟩ xs = some r) :
    r.memory = memory ∧ ∃ w, patchOpcodes false ⟨memory, [], caches⟩ xs = some w ∧
      ∀ a, fetchOpcode r a = w.memory a ∧ w.memory a = lastRewrite xs a (memory a) := by
  obtain ⟨w, hWrites, hSame⟩ := patchOpcodes_same (w := ⟨memory, [], caches⟩) (fun _ => rfl) h
  exact ⟨patchOpcodes_readonly h, w, hWrites, fun a => ⟨hSame a, patchOpcodes_memory hWrites a⟩⟩

/-- The loader in place leaves the entries ahead of the cursor as they are. -/
theorem entries_unclobbered (hRead : read.Decodes) {w : Loader}
    (hText : HoldsBrTable ops t count entries w.memory)
    (hCheck : ∀ label depth, t.check label = some depth → depth = label)
    (hi : i ≤ entries.length)
    (hScan : scanEntries ops read false t i 0 ⟨w.memory, t.pDepthBegin, t.pDepthBegin, none⟩ = some s) :
    s.p = t.pDepthBegin + (Leb32.text (entries.take i)).length ∧
      ∀ a, s.p ≤ a → s.memory a = w.memory a := by
  have hScanned := scanEntries_scanned hRead hText hCheck (scanned_start hText) (by omega) hScan
  rw [Nat.zero_add] at hScanned
  exact ⟨hScanned.p, hScanned.ahead⟩

/-- A table that loads in place loads read-only, and gives the same depth for every index. -/
theorem depths_agree {loaderRead : LebReader} (hLoader : loaderRead.Decodes) (hRead : read.Decodes)
    {find : List BrTableCache → Nat → Nat → Option Nat} (hFind : FindsCache find)
    {r w w' : Loader} {next : Nat} (hReadonly : HoldsBrTable ops t count entries r.memory)
    (hText : HoldsBrTable ops t count entries w.memory)
    (hCheck : ∀ label depth, t.check label = some depth → depth = label)
    (hNew : ∀ cache ∈ w.caches, cache.brTableOpAddr ≠ t.pOpcode)
    (hPrepare : prepareBrTable ops loaderRead false t w = some (w', next)) :
    prepareBrTable ops loaderRead true t r = some (r, next) ∧
      ∀ later later' lidx, Later t next r later → Later t next w' later' →
        dispatchBrTable ops read find true later t.pOpcode t.pEnd lidx =
            depthAt entries lidx t.count ∧
          dispatchBrTable ops read find false later' t.pOpcode t.pEnd lidx =
            depthAt entries lidx t.count := by
  have hLength := hText.length
  unfold prepareBrTable at hPrepare
  split at hPrepare
  · cases hPrepare
  next s hScan =>
  cases hPrepare
  have hScanned := scanEntries_scanned hLoader hText hCheck (scanned_start hText) (by omega) hScan
  rw [Nat.zero_add] at hScanned
  have hNext : s.p = t.pDepthBegin + (Leb32.text entries).length := by
    rw [hScanned.p, List.take_of_length_le (by omega)]
  constructor
  · have hSame : scanEntries ops loaderRead true t (t.count + 1) 0
        ⟨r.memory, t.pDepthBegin, t.pDepthBegin, none⟩ =
          some ⟨r.memory, s.p, t.pDepthBegin, none⟩ :=
      scanEntries_readonly hLoader hText hCheck hReadonly (scanned_start hText) (by omega) hScan
    rw [prepareBrTable, hSame]
    rfl
  · intro later later' lidx hLater hLater'
    refine ⟨dispatch_readonly hRead hLater hReadonly hNext lidx, ?_⟩
    cases hCache : s.cache with
    | none => exact dispatch_bytes hRead hText hScanned hCache hLater' lidx
    | some cache => exact dispatch_cache hFind hText hNew hScanned hCache hLater' lidx

/-- Read-only mode agrees with in-place mode: in every opcode that the loader rewrites, and in the
depth of every `br_table` for every index, whose entries the loader in place never overwrites before
it has read them. -/
theorem readonly_agrees {loaderRead read : LebReader}
    {find : List BrTableCache → Nat → Nat → Option Nat} (hLoader : loaderRead.Decodes)
    (hRead : read.Decodes) (hFind : FindsCache find) (ops : Opcodes) :
    (∀ memory caches xs r, patchOpcodes true ⟨memory, [], caches⟩ xs = some r →
      r.memory = memory ∧ ∃ w, patchOpcodes false ⟨memory, [], caches⟩ xs = some w ∧
        ∀ a, fetchOpcode r a = w.memory a ∧ w.memory a = lastRewrite xs a (memory a)) ∧
    (∀ (t : BrTable) (count : Leb32) (entries : List Leb32) (r w : Loader),
      (∀ label depth, t.check label = some depth → depth = label) →
      HoldsBrTable ops t count entries r.memory → HoldsBrTable ops t count entries w.memory →
      (∀ cache ∈ w.caches, cache.brTableOpAddr ≠ t.pOpcode) →
      (∀ w' next, prepareBrTable ops loaderRead false t w = some (w', next) →
        prepareBrTable ops loaderRead true t r = some (r, next) ∧
        ∀ later later' lidx, Later t next r later → Later t next w' later' →
          dispatchBrTable ops read find true later t.pOpcode t.pEnd lidx =
              depthAt entries lidx t.count ∧
            dispatchBrTable ops read find false later' t.pOpcode t.pEnd lidx =
              depthAt entries lidx t.count) ∧
      ∀ i s, i ≤ entries.length →
        scanEntries ops loaderRead false t i 0
          ⟨w.memory, t.pDepthBegin, t.pDepthBegin, none⟩ = some s →
        s.p = t.pDepthBegin + (Leb32.text (entries.take i)).length ∧
          ∀ a, s.p ≤ a → s.memory a = w.memory a) := by
  refine ⟨fun memory caches xs r h => opcodes_agree h, ?_⟩
  intro t count entries r w hCheck hReadonly hText hNew
  exact ⟨fun w' next h => depths_agree hLoader hRead hFind hReadonly hText hCheck hNew h,
    fun i s hi h => entries_unclobbered hLoader hText hCheck hi h⟩

/-! ### A table -/

def findCache (caches : List BrTableCache) (opAddr lidx : Nat) : Option Nat :=
  match caches.find? (·.brTableOpAddr == opAddr) with
  | none => none
  | some cache => cache.brDepths[min lidx cache.brCount]?

theorem findCache_finds : FindsCache findCache := by
  intro caches cache lidx hMem hOnly
  have hSome : (caches.find? (·.brTableOpAddr == cache.brTableOpAddr)).isSome := by
    rw [List.find?_isSome]
    exact ⟨cache, hMem, by simp⟩
  obtain ⟨found, hFound⟩ := Option.isSome_iff_exists.mp hSome
  have hAddr : found.brTableOpAddr = cache.brTableOpAddr := by
    simpa using List.find?_some hFound
  rw [findCache, hFound, hOnly found (List.mem_of_find?_eq_some hFound) hAddr]

def sampleOpcodes : Opcodes := ⟨0x0e, 0xd5, 0x01, by decide⟩

def leb (groups : List (Fin 128)) (h : groups ≠ [] ∧ groups.length ≤ 5 ∧ Leb128.value groups < 2 ^ 32) :
    Leb32 :=
  ⟨groups, h.1, h.2.1, h.2.2⟩

/-- Depths 2, 300 and 1, the last in two bytes. -/
def sampleEntries : List Leb32 :=
  [leb [2] (by decide), leb [44, 2] (by decide), leb [1, 0] (by decide)]

def sampleMemory : Memory := Memory.store (fun _ => 0) 100 [0x0e, 2, 2, 0xac, 2, 0x81, 0]

def sampleTable : BrTable := ⟨200, 100, 102, 2, some, true⟩

def sampleLoader : Loader := ⟨sampleMemory, [], []⟩

theorem sampleMemory_holds :
    HoldsBrTable sampleOpcodes sampleTable (leb [2] (by decide)) sampleEntries sampleMemory where
  opcode := by decide
  countText := by decide
  countValue := by decide
  begins := by decide
  length := by decide
  text := by decide
  ends := by decide

/-- An opcode is rewritten twice. -/
def sampleRewrites : List Rewrite := [⟨true, 104, 0x1a⟩, ⟨true, 103, 0x24⟩, ⟨true, 104, 0x21⟩]

theorem readonly_agrees_sample : (∃ r, patchOpcodes true sampleLoader sampleRewrites = some r ∧
    fetchOpcode r 104 = 0x21 ∧ r.memory 104 = 2) ∧ ∃ w next,
    prepareBrTable sampleOpcodes LebReader.five false sampleTable sampleLoader = some (w, next) ∧
      w.memory 100 = 0xd5 ∧
      dispatchBrTable sampleOpcodes LebReader.five findCache true sampleLoader 100 200 1 = some 300 ∧
      dispatchBrTable sampleOpcodes LebReader.five findCache false w 100 200 1 = some 300 := by
  obtain ⟨hOpcodes, hTables⟩ :=
    readonly_agrees LebReader.five_decodes LebReader.five_decodes findCache_finds sampleOpcodes
  have hRewritten : ∃ r, patchOpcodes true sampleLoader sampleRewrites = some r ∧
      fetchOpcode r 104 = 0x21 ∧ r.memory 104 = 2 := by
    have hPatched : patchOpcodes true sampleLoader sampleRewrites =
        some ⟨sampleMemory, [⟨104, 0x21⟩, ⟨103, 0x24⟩, ⟨104, 0x1a⟩], []⟩ := rfl
    obtain ⟨hMemory, w, -, hFetched⟩ := hOpcodes _ _ _ _ hPatched
    obtain ⟨hSame, hLast⟩ := hFetched 104
    refine ⟨_, hPatched, ?_, ?_⟩
    · rw [hSame, hLast]
      decide
    · rw [hMemory]
      decide
  refine ⟨hRewritten, ?_⟩
  obtain ⟨hLoads, -⟩ := hTables sampleTable (leb [2] (by decide)) sampleEntries sampleLoader
    sampleLoader (fun label depth h => (Option.some.inj h).symm) sampleMemory_holds
    sampleMemory_holds nofun
  have hSome : (prepareBrTable sampleOpcodes LebReader.five false sampleTable sampleLoader).isSome := by
    decide
  obtain ⟨⟨w, next⟩, hPrepare⟩ := Option.isSome_iff_exists.mp hSome
  have hOpcode : (prepareBrTable sampleOpcodes LebReader.five false sampleTable sampleLoader).all
      (fun x => x.1.memory 100 = 0xd5 ∧ x.1.patches = []) := by decide
  rw [hPrepare] at hOpcode
  simp only [Option.all_some, decide_eq_true_eq] at hOpcode
  obtain ⟨-, hDepths⟩ := hLoads w next hPrepare
  have hLater : ∀ s : Loader, s.patches = [] → Later sampleTable next s s := by
    intro s hs
    exact ⟨.refl _ _, by rw [hs]; exact nofun, fun cache _ => Iff.rfl⟩
  obtain ⟨hReadonly, hInPlace⟩ :=
    hDepths sampleLoader w 1 (hLater sampleLoader rfl) (hLater w hOpcode.2)
  exact ⟨w, next, hPrepare, hOpcode.1, hReadonly, hInPlace⟩

end Esp32Fx.Wamr
