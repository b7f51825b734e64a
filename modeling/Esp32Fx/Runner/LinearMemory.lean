import Esp32Fx.Lib.Splice
import Esp32Fx.Runner.AllocatorFacts

/-! The lifetimes of guest linear memory.  `GuestMemory` is what WebAssembly wants of a memory: new
pages are zero and a growth keeps what is there.  The one arena of the runner, which is never
unmapped and zeroed only from `used` on, behaves like it in every run. -/

namespace Esp32Fx.Runner

open Lib

/-- The calls on linear memory, with the pointers that they return, and the writes of the guest. -/
inductive LinearCall
  | malloc (size : UInt32) (p : Nat)
  | realloc (pointer : Nat) (size : UInt32) (p : Nat)
  | free (pointer : Nat)
  | write (pointer offset : Nat) (bytes : List UInt8)

/-! ### What a guest memory is -/

/-- The bytes that the guest sees while it has a memory. -/
abbrev GuestMemory := Option (List UInt8)

/-- A call on a guest memory of at most `capacity` bytes. -/
def GuestMemory.call (capacity : Nat) : GuestMemory → LinearCall → GuestMemory
  | none, .malloc size _ =>
    if size.toNat ≤ capacity then some (List.replicate size.toNat 0) else none
  | some bytes, .realloc _ size _ =>
    if size.toNat ≤ capacity then
      some (bytes.take size.toNat ++ List.replicate (size.toNat - bytes.length) 0)
    else some bytes
  | some _, .free _ => none
  | some bytes, .write _ offset data => some (splice bytes offset data)
  | guest, _ => guest

/-! ### Runs of the allocator -/

/-- The allocator, the memory, and the pointers that `malloc` has given out and that have not been
freed, one for each lifetime. -/
structure LinearState where
  allocator : WamrAllocator
  memory : Memory
  live : List Nat

/-- A step of a runtime that passes back only live pointers, and of a guest that writes only inside
the current size. -/
inductive LinearStep : LinearState → LinearCall → LinearState → Prop
  | malloc (s : LinearState) (size : UInt32) (p : Nat) (a : WamrAllocator) (m : Memory)
    (hFinish : wamrMalloc .linearMemory size.toNat s.allocator s.memory = .returns p a m) :
    LinearStep s (.malloc size p) ⟨a, m, if p = 0 then s.live else p :: s.live⟩
  | realloc (s : LinearState) (pointer : Nat) (size : UInt32) (p : Nat) (a : WamrAllocator)
    (m : Memory) (hLive : pointer ∈ s.live)
    (hFinish : wamrRealloc .linearMemory pointer size.toNat s.allocator s.memory =
      .returns p a m) :
    LinearStep s (.realloc pointer size p)
      ⟨a, m, if p = 0 then s.live else p :: s.live.erase pointer⟩
  | free (s : LinearState) (pointer p : Nat) (a : WamrAllocator) (m : Memory)
    (hLive : pointer ∈ s.live) (hFinish : wamrFree pointer s.allocator s.memory = .returns p a m) :
    LinearStep s (.free pointer) ⟨a, m, s.live.erase pointer⟩
  | write (s : LinearState) (pointer offset : Nat) (bytes : List UInt8) (hLive : pointer ∈ s.live)
    (hInside : offset + bytes.length ≤ s.allocator.used) :
    LinearStep s (.write pointer offset bytes)
      { s with memory := s.memory.store (pointer + offset) bytes }

/-- The arena is there and apart from the metadata arena, and whatever is in it, no memory has been
given out. -/
structure FreshLinear (s : LinearState) : Prop where
  pos : 0 < s.allocator.linearMemory
  apart : metadataSlot s.allocator s.allocator.linearMemory = none
  used : s.allocator.used = 0
  inUse : s.allocator.inUse = false
  live : s.live = []

def linearSystem : System LinearState LinearCall := ⟨FreshLinear, LinearStep⟩

/-- What the guest sees of the arena. -/
def LinearState.guest (s : LinearState) : GuestMemory :=
  if s.allocator.inUse then some (s.memory.load s.allocator.linearMemory s.allocator.used) else none

/-! ### The invariant -/

structure LinearOk (s : LinearState) : Prop where
  pos : 0 < s.allocator.linearMemory
  apart : metadataSlot s.allocator s.allocator.linearMemory = none
  used_le : s.allocator.used ≤ s.allocator.capacity
  live : s.live = if s.allocator.inUse then [s.allocator.linearMemory] else []

variable {s s' : LinearState} {e : LinearCall}

theorem LinearOk.start (h : FreshLinear s) : LinearOk s where
  pos := h.pos
  apart := h.apart
  used_le := by
    rw [h.used]
    exact Nat.zero_le _
  live := by
    rw [h.inUse, h.live]
    rfl

/-- A live pointer is the one to the arena, and the arena is in use. -/
theorem LinearOk.active (h : LinearOk s) {pointer : Nat} (hLive : pointer ∈ s.live) :
    pointer = s.allocator.linearMemory ∧ s.allocator.inUse = true := by
  rw [h.live] at hLive
  split at hLive
  · next hUse => exact ⟨List.mem_singleton.mp hLive, hUse⟩
  · exact absurd hLive List.not_mem_nil

theorem LinearOk.live_active (h : LinearOk s) (hUse : s.allocator.inUse = true) :
    s.live = [s.allocator.linearMemory] := by
  rw [h.live, if_pos hUse]

/-- How a call ends in a state of the invariant. -/
inductive LinearEnd (s : LinearState) : LinearCall → LinearState → Prop
  /-- A memory is in use, or the size is too large: nothing happens. -/
  | refusedMalloc (size : UInt32)
    (hRefused : s.allocator.inUse = true ∨ s.allocator.capacity < size.toNat) :
    LinearEnd s (.malloc size 0) s
  | malloc (size : UInt32) (hIdle : s.allocator.inUse = false)
    (hFits : size.toNat ≤ s.allocator.capacity) :
    LinearEnd s (.malloc size s.allocator.linearMemory)
      { allocator := { s.allocator with used := size.toNat, inUse := true }
        memory := s.memory.store s.allocator.linearMemory (List.replicate size.toNat 0)
        live := [s.allocator.linearMemory] }
  | refusedRealloc (size : UInt32) (hUse : s.allocator.inUse = true)
    (hRefused : s.allocator.capacity < size.toNat) :
    LinearEnd s (.realloc s.allocator.linearMemory size 0) s
  /-- The bytes behind the old size are zeroed, if any. -/
  | realloc (size : UInt32) (hUse : s.allocator.inUse = true)
    (hFits : size.toNat ≤ s.allocator.capacity) :
    LinearEnd s (.realloc s.allocator.linearMemory size s.allocator.linearMemory)
      { allocator := { s.allocator with used := size.toNat }
        memory := s.memory.store (s.allocator.linearMemory + s.allocator.used)
          (List.replicate (size.toNat - s.allocator.used) 0)
        live := [s.allocator.linearMemory] }
  | free (hUse : s.allocator.inUse = true) :
    LinearEnd s (.free s.allocator.linearMemory)
      { allocator := { s.allocator with used := 0, inUse := false }
        memory := s.memory
        live := [] }
  | write (offset : Nat) (bytes : List UInt8) (hUse : s.allocator.inUse = true)
    (hInside : offset + bytes.length ≤ s.allocator.used) :
    LinearEnd s (.write s.allocator.linearMemory offset bytes)
      { s with memory := s.memory.store (s.allocator.linearMemory + offset) bytes }

theorem LinearOk.end (h : LinearOk s) (hStep : LinearStep s e s') : LinearEnd s e s' := by
  have hSome : ¬s.allocator.linearMemory = 0 := Nat.ne_of_gt h.pos
  cases hStep with
  | malloc size p a m hFinish =>
    rw [wamrMalloc, if_neg (by decide)] at hFinish
    split at hFinish
    · next hRefused =>
      cases hFinish
      exact .refusedMalloc size hRefused
    · next hOpen =>
      cases hFinish
      simp only [not_or, Bool.not_eq_true, Nat.not_lt] at hOpen
      have hNone : s.live = [] := by rw [h.live, hOpen.1]; rfl
      rw [if_neg hSome, hNone]
      exact .malloc size hOpen.1 hOpen.2
  | realloc pointer size p a m hLive hFinish =>
    obtain ⟨rfl, hUse⟩ := h.active hLive
    rw [wamrRealloc, if_neg (by decide)] at hFinish
    split at hFinish
    · next hRefused =>
      cases hFinish
      exact .refusedRealloc size hUse (hRefused.resolve_left fun hne => hne rfl)
    · next hFits =>
      cases hFinish
      simp only [ne_eq, not_true_eq_false, false_or, Nat.not_lt] at hFits
      have hZero : (if size.toNat > s.allocator.used then
            s.memory.store (s.allocator.linearMemory + s.allocator.used)
              (List.replicate (size.toNat - s.allocator.used) 0)
          else s.memory) = s.memory.store (s.allocator.linearMemory + s.allocator.used)
              (List.replicate (size.toNat - s.allocator.used) 0) := by
        split
        · rfl
        · rw [show size.toNat - s.allocator.used = 0 by omega]
          rw [List.replicate_zero, Memory.store_nil]
      rw [if_neg hSome, h.live_active hUse, List.erase_cons_head, hZero]
      exact .realloc size hUse hFits
  | free pointer p a m hLive hFinish =>
    obtain ⟨rfl, hUse⟩ := h.active hLive
    rw [wamrFree, h.apart] at hFinish
    simp only [if_true] at hFinish
    cases hFinish
    rw [h.live_active hUse, List.erase_cons_head]
    exact .free hUse
  | write pointer offset bytes hLive hInside =>
    obtain ⟨rfl, hUse⟩ := h.active hLive
    exact .write offset bytes hUse hInside

theorem LinearEnd.ok (hEnd : LinearEnd s e s') (h : LinearOk s) : LinearOk s' := by
  cases hEnd with
  | refusedMalloc size hRefused => exact h
  | malloc size hIdle hFits => exact ⟨h.pos, h.apart, hFits, rfl⟩
  | refusedRealloc size hUse hRefused => exact h
  | realloc size hUse hFits =>
    refine ⟨h.pos, h.apart, hFits, ?_⟩
    simp only
    rw [if_pos hUse]
  | free hUse => exact ⟨h.pos, h.apart, Nat.zero_le _, rfl⟩
  | write offset bytes hUse hInside => exact { h with }

theorem linearOk_run {s₀ : LinearState} {es : List LinearCall} (hStart : FreshLinear s₀)
    (hRun : linearSystem.Run s₀ es s) : LinearOk s :=
  hRun.preserves (fun _ _ _ hs hStep => (hs.end hStep).ok hs) (.start hStart)

/-! ### The arena as a guest memory -/

theorem LinearState.guest_active (h : s.allocator.inUse = true) :
    s.guest = some (s.memory.load s.allocator.linearMemory s.allocator.used) := if_pos h

theorem LinearState.guest_idle (h : s.allocator.inUse = false) : s.guest = none := by
  rw [guest, h]
  rfl

/-- Each call does to what the guest sees what it does to a guest memory. -/
theorem LinearEnd.guest (hEnd : LinearEnd s e s') :
    s'.guest = s.guest.call s.allocator.capacity e := by
  cases hEnd with
  | refusedMalloc size hRefused =>
    by_cases hUse : s.allocator.inUse = true
    · rw [s.guest_active hUse]
      rfl
    · rw [s.guest_idle (by simpa using hUse), GuestMemory.call,
        if_neg (Nat.not_le.mpr (hRefused.resolve_left hUse))]
  | malloc size hIdle hFits =>
    rw [s.guest_idle hIdle, GuestMemory.call, if_pos hFits]
    exact congrArg some (Memory.load_replicate ..)
  | refusedRealloc size hUse hRefused =>
    rw [s.guest_active hUse, GuestMemory.call, if_neg (Nat.not_le.mpr hRefused)]
  | realloc size hUse hFits =>
    rw [s.guest_active hUse, GuestMemory.call, if_pos hFits, Memory.length_load, LinearState.guest]
    simp only
    rw [if_pos hUse, Memory.load_filled]
  | free hUse =>
    rw [s.guest_active hUse]
    rfl
  | write offset bytes hUse hInside =>
    let block : Block Unit := ⟨s.memory.load s.allocator.linearMemory s.allocator.used, ()⟩
    have hLength : block.bytes.length = s.allocator.used := Memory.length_load ..
    have hWritten : (s.memory.store (s.allocator.linearMemory + offset) bytes).load
        s.allocator.linearMemory block.bytes.length = splice block.bytes offset bytes :=
      Block.load_written (by rw [hLength]) (by rw [hLength]; exact hInside)
    rw [hLength] at hWritten
    rw [s.guest_active hUse, GuestMemory.call, LinearState.guest]
    simp only
    rw [if_pos hUse, hWritten]

theorem LinearEnd.arena (hEnd : LinearEnd s e s') :
    s'.allocator.capacity = s.allocator.capacity ∧
      s'.allocator.linearMemory = s.allocator.linearMemory := by
  cases hEnd <;> exact ⟨rfl, rfl⟩

theorem guest_run {s₀ : LinearState} {es : List LinearCall} (hStart : FreshLinear s₀)
    (hRun : linearSystem.Run s₀ es s) :
    s.allocator.capacity = s₀.allocator.capacity ∧
      s.guest = es.foldl (GuestMemory.call s₀.allocator.capacity) none := by
  induction hRun with
  | nil => exact ⟨rfl, s₀.guest_idle hStart.inUse⟩
  | snoc hBefore hLast ih =>
    obtain ⟨hCapacity, hGuest⟩ := ih
    have hEnd := (linearOk_run hStart hBefore).end hLast
    refine ⟨hEnd.arena.1.trans hCapacity, ?_⟩
    rw [List.foldl_append, ← hGuest, ← hCapacity]
    exact hEnd.guest

/-- In every run there is one lifetime at most, the visible size stays within the capacity, and the
guest sees what it would see of a memory of its own that starts with zeroes and grows by zeroes,
whatever was in the arena before.  The other parts say the same of one call and its bytes. -/
theorem linearMemory_lifetimes {s₀ : LinearState} {es : List LinearCall} (hStart : FreshLinear s₀)
    (hRun : linearSystem.Run s₀ es s) :
    s.live.length ≤ 1 ∧ s.allocator.used ≤ s.allocator.capacity ∧
    s.guest = es.foldl (GuestMemory.call s₀.allocator.capacity) none ∧
    (∀ size p s', LinearStep s (.malloc size p) s' →
      p = 0 ∧ s' = s ∨
      p ≠ 0 ∧ s.live = [] ∧ s'.live = [p] ∧ s'.allocator.used = size.toNat ∧
        ∀ i < size.toNat, s'.memory (p + i) = 0) ∧
    (∀ pointer size p s', LinearStep s (.realloc pointer size p) s' →
      p = 0 ∧ s' = s ∨
      p = pointer ∧ s'.live = s.live ∧ s'.allocator.used = size.toNat ∧
        (∀ i < min s.allocator.used size.toNat, s'.memory (p + i) = s.memory (p + i)) ∧
        ∀ i < size.toNat, s.allocator.used ≤ i → s'.memory (p + i) = 0) ∧
    (∀ pointer ∈ s.live, ∃ s', LinearStep s (.free pointer) s') ∧
    (∀ pointer s', LinearStep s (.free pointer) s' → s'.live = [] ∧ s'.guest = none) ∧
    ∀ pointer offset bytes s', LinearStep s (.write pointer offset bytes) s' →
      s'.allocator = s.allocator ∧ s'.live = s.live ∧
        s'.memory = s.memory.store (pointer + offset) bytes := by
  have hOk := linearOk_run hStart hRun
  have hSome : s.allocator.linearMemory ≠ 0 := Nat.ne_of_gt hOk.pos
  refine ⟨?_, hOk.used_le, (guest_run hStart hRun).2, ?_, ?_, ?_, ?_, ?_⟩
  · rw [hOk.live]
    split <;> simp
  · intro size p s' hStep
    cases hOk.end hStep with
    | refusedMalloc _ hRefused => exact .inl ⟨rfl, rfl⟩
    | malloc _ hIdle hFits =>
      have hNone : s.live = [] := by rw [hOk.live, hIdle]; rfl
      refine .inr ⟨hSome, hNone, rfl, rfl, fun i hi => ?_⟩
      simp only
      rw [Memory.store_inside _ (by rwa [List.length_replicate]), List.getElem_replicate]
  · intro pointer size p s' hStep
    cases hOk.end hStep with
    | refusedRealloc _ hUse hRefused => exact .inl ⟨rfl, rfl⟩
    | realloc _ hUse hFits =>
      refine .inr ⟨rfl, (hOk.live_active hUse).symm, rfl, fun i hi => ?_, fun i hi hNew => ?_⟩
      · exact Memory.store_outside _ (by omega)
      · obtain ⟨j, rfl⟩ := Nat.exists_eq_add_of_le hNew
        simp only
        rw [← Nat.add_assoc, Memory.store_inside _ (by rw [List.length_replicate]; omega),
          List.getElem_replicate]
  · intro pointer hLive
    obtain ⟨rfl, hUse⟩ := hOk.active hLive
    refine ⟨_, .free s _ 0 { s.allocator with used := 0, inUse := false } s.memory hLive ?_⟩
    rw [wamrFree, hOk.apart]
    exact if_pos rfl
  · intro pointer s' hStep
    cases hOk.end hStep with
    | free hUse => exact ⟨rfl, rfl⟩
  · intro pointer offset bytes s' hStep
    cases hStep with
    | write _ _ _ hLive hInside => exact ⟨rfl, rfl, rfl⟩

/-- A memory of four bytes that is written, halved, and doubled again. -/
def regrown : List LinearCall :=
  [.malloc 4 0x3df00000, .write 0x3df00000 0 [1, 2, 3, 4], .realloc 0x3df00000 2 0x3df00000,
    .realloc 0x3df00000 4 0x3df00000]

theorem linearMemory_lifetimes_regrown :
    ∃ s, linearSystem.Run ⟨boardAllocator, fun _ => 0xff, []⟩ regrown s ∧
      s.guest = some [1, 2, 0, 0] := by
  have hStart : FreshLinear ⟨boardAllocator, fun _ => 0xff, []⟩ :=
    ⟨by decide, by decide, rfl, rfl, rfl⟩
  obtain ⟨s, hRun⟩ : ∃ s, linearSystem.Run ⟨boardAllocator, fun _ => 0xff, []⟩ regrown s :=
    ⟨_, .cons (LinearStep.malloc _ 4 _ _ _ rfl)
      (.cons (LinearStep.write _ _ 0 [1, 2, 3, 4] (by decide) (by decide))
        (.cons (LinearStep.realloc _ _ 2 _ _ _ (by decide) rfl)
          (.cons (LinearStep.realloc _ _ 4 _ _ _ (by decide) rfl) (.nil _))))⟩
  exact ⟨s, hRun, (linearMemory_lifetimes hStart hRun).2.2.1.trans (by decide)⟩

end Esp32Fx.Runner
