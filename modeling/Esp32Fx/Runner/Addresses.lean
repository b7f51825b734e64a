import Esp32Fx.Lib.CString
import Esp32Fx.Lib.Memory

/-! The fixed memory of the board build: the addresses that the runner takes from its environment,
in `init_wamr_allocator` and in `main`, and the reservation that `fx_verify_reserved_psram` checks.
A `size_t`, an `unsigned long` and a `uintptr_t` have 32 bits. -/

namespace Esp32Fx.Runner

open Lib

/-- `FX_METADATA_ADDRESS`. -/
def metadataAddress : Nat := 0x3ded0000

/-- `FX_METADATA_BYTES`. -/
def metadataBytes : Nat := 0x20000

/-- `FX_WAMR_LINEAR_RESERVE_BYTES`. -/
def linearReserveBytes : Nat := 0x100000

/-- `FX_WAMR_NATIVE_STREAM_RESERVE_BYTES`. -/
def nativeStreamReserveBytes : Nat := 0x10000

/-- `FX_WAMR_BORROWED_LINEAR_MIN`. -/
def borrowedLinearMin : Nat := 0x3d800000

/-- `FX_WAMR_BORROWED_LINEAR_MAX`. -/
def borrowedLinearMax : Nat := 0x3e000000

/-- A big-endian word of four bytes. -/
def wordOf : List UInt8 → Nat := List.foldl (fun word byte => word * 256 + byte.toNat) 0

/-- `fx_verify_reserved_psram`, on the bytes that the first `read` of the node's `reg` returns: the
reservation when the check passes. -/
def verifyReservedPsram (reg : List UInt8) : Option Region :=
  let address := wordOf (reg.take 4)
  let length := wordOf (reg.drop 4)
  if reg.length ≠ 8 then none
  else if address ≠ metadataAddress ∨ length ≠ 0x130000 then none
  else some ⟨address, length⟩

/-- `strtoul` to the end of a value: none when `errno` is set or the value is not all number. -/
def parseAddress (value : List UInt8) : Option Nat :=
  match strtoul 32 value with
  | none => none
  | some parsed => if parsed.erange ∨ peek parsed.rest ≠ 0 then none else some parsed.value.toNat

/-- The checks of `init_wamr_allocator` on a borrowed address. -/
def borrowedLinear (value : List UInt8) : Option Nat :=
  match parseAddress value with
  | none => none
  | some address =>
    if address % 8 ≠ 0 ∨ address < borrowedLinearMin ∨ address ≥ borrowedLinearMax ∨
        linearReserveBytes > borrowedLinearMax - address then none
    else some address

/-- The checks of `main` on a borrowed stream address, with the guest's arena at `linearStart`. -/
def borrowedStream (linearStart : Nat) (value : List UInt8) : Option Nat :=
  match parseAddress value with
  | none => none
  | some address =>
    let linearEnd := (linearStart + linearReserveBytes) % 2 ^ 32
    let streamEnd := (address + nativeStreamReserveBytes) % 2 ^ 32
    if address % 8 ≠ 0 ∨ address < borrowedLinearMin ∨ address ≥ borrowedLinearMax ∨
        streamEnd < address ∨ streamEnd > borrowedLinearMax ∨
        (address < linearEnd ∧ streamEnd > linearStart) then none
    else some address

/-- The memory that a start of the runner works with. -/
structure Arenas where
  reservation : Region
  linear : Region
  stream : Region
  deriving DecidableEq, Repr

/-- A start with both addresses borrowed: the arenas when the runner accepts them. -/
def start (reg linearValue streamValue : List UInt8) : Option Arenas :=
  match verifyReservedPsram reg with
  | none => none
  | some reservation =>
    match borrowedLinear linearValue with
    | none => none
    | some linear =>
      match borrowedStream linear streamValue with
      | none => none
      | some stream =>
        some ⟨reservation, ⟨linear, linearReserveBytes⟩, ⟨stream, nativeStreamReserveBytes⟩⟩

/-- The runtime's own arena. -/
def metadata : Region := ⟨metadataAddress, metadataBytes⟩

/-- The arenas and the runtime's own are apart and in the reservation, and no address wraps. -/
structure Arenas.Separate (a : Arenas) : Prop where
  linear_stream : a.linear.Disjoint a.stream
  linear_metadata : a.linear.Disjoint metadata
  stream_metadata : a.stream.Disjoint metadata
  linear_within : a.linear.Within a.reservation
  stream_within : a.stream.Within a.reservation
  metadata_within : metadata.Within a.reservation
  no_wrap : ∀ r ∈ [a.linear, a.stream, metadata, a.reservation], r.start + r.size < 2 ^ 32

theorem verifyReservedPsram_eq {reg : List UInt8} {r : Region}
    (h : verifyReservedPsram reg = some r) : r = ⟨metadataAddress, 0x130000⟩ := by
  simp only [verifyReservedPsram] at h
  split at h
  · cases h
  · split at h
    · cases h
    · next hReg =>
      rw [not_or, not_not, not_not] at hReg
      rw [← hReg.1, ← hReg.2]
      exact (Option.some.inj h).symm

/-- What the check on the guest's arena lets through. -/
theorem borrowedLinear_range {value : List UInt8} {address : Nat}
    (h : borrowedLinear value = some address) :
    borrowedLinearMin ≤ address ∧ address + linearReserveBytes ≤ borrowedLinearMax := by
  simp only [borrowedLinear] at h
  split at h
  · cases h
  · split at h
    · cases h
    · next hCheck =>
      obtain rfl := Option.some.inj h
      omega

/-- What the check on the stream buffer lets through, behind the other check. -/
theorem borrowedStream_range {value : List UInt8} {linearStart address : Nat}
    (hLinear : linearStart + linearReserveBytes ≤ borrowedLinearMax)
    (h : borrowedStream linearStart value = some address) :
    borrowedLinearMin ≤ address ∧ address + nativeStreamReserveBytes ≤ borrowedLinearMax ∧
      (linearStart + linearReserveBytes ≤ address ∨
        address + nativeStreamReserveBytes ≤ linearStart) := by
  have hMax : borrowedLinearMax = 0x3e000000 := rfl
  have hStream : nativeStreamReserveBytes = 0x10000 := rfl
  simp only [borrowedStream] at h
  split at h
  · cases h
  · split at h
    · cases h
    · next hCheck =>
      obtain rfl := Option.some.inj h
      omega

/-- Behind the runner's checks, the arenas are as they should be exactly when both addresses are
behind the runtime's own arena. -/
theorem start_separate_iff {reg linearValue streamValue : List UInt8} {a : Arenas}
    (h : start reg linearValue streamValue = some a) :
    a.Separate ↔ metadataAddress + metadataBytes ≤ a.linear.start ∧
      metadataAddress + metadataBytes ≤ a.stream.start := by
  simp only [start] at h
  rcases hReg : verifyReservedPsram reg with _ | reservation
  · rw [hReg] at h
    cases h
  rcases hLinear : borrowedLinear linearValue with _ | linear
  · rw [hReg, hLinear] at h
    cases h
  rcases hStream : borrowedStream linear streamValue with _ | stream
  · simp only [hReg, hLinear, hStream] at h
    cases h
  simp only [hReg, hLinear, hStream, Option.some.injEq] at h
  subst h
  have hReservation := verifyReservedPsram_eq hReg
  have hLinearRange := borrowedLinear_range hLinear
  have hStreamRange := borrowedStream_range hLinearRange.2 hStream
  have hMin : borrowedLinearMin = 0x3d800000 := rfl
  have hMax : borrowedLinearMax = 0x3e000000 := rfl
  have hLinearBytes : linearReserveBytes = 0x100000 := rfl
  have hStreamBytes : nativeStreamReserveBytes = 0x10000 := rfl
  have hAddress : metadataAddress = 0x3ded0000 := rfl
  have hBytes : metadataBytes = 0x20000 := rfl
  subst hReservation
  dsimp only
  constructor
  · intro hSeparate
    have hL := hSeparate.linear_metadata
    have hLw := hSeparate.linear_within
    have hS := hSeparate.stream_metadata
    have hSw := hSeparate.stream_within
    simp only [Region.Disjoint, Region.Within, metadata] at hL hLw hS hSw
    constructor
    · omega
    · omega
  · rintro ⟨hL, hS⟩
    refine ⟨?_, ?_, ?_, ?_, ?_, ?_, ?_⟩
    · simp only [Region.Disjoint]
      omega
    · simp only [Region.Disjoint, metadata]
      omega
    · simp only [Region.Disjoint, metadata]
      omega
    · simp only [Region.Within]
      omega
    · simp only [Region.Within]
      omega
    · simp only [Region.Within, metadata]
      omega
    · intro r hr
      simp only [List.mem_cons, List.not_mem_nil, or_false] at hr
      rcases hr with rfl | rfl | rfl | rfl
      · simp only
        omega
      · simp only
        omega
      · decide
      · decide

/-- The `reg` property of the board's reservation. -/
def boardReg : List UInt8 := [0x3d, 0xed, 0, 0, 0, 0x13, 0, 0]

/-- The addresses of the board's launcher. -/
theorem start_separate_board : ∃ a, start boardReg (ascii "0x3df00000") (ascii "0x3def0000") =
    some a ∧ a.Separate := by
  have hStart : start boardReg (ascii "0x3df00000") (ascii "0x3def0000") =
      some ⟨⟨0x3ded0000, 0x130000⟩, ⟨0x3df00000, 0x100000⟩, ⟨0x3def0000, 0x10000⟩⟩ := by
    decide
  exact ⟨_, hStart, (start_separate_iff hStart).mpr ⟨by decide, by decide⟩⟩

/-- The runner accepts a guest arena that covers the runtime's own. -/
theorem start_overlap : ∃ a, start boardReg (ascii "0x3de00000") (ascii "0x3df00000") = some a ∧
    ¬a.Separate := by
  refine ⟨⟨⟨0x3ded0000, 0x130000⟩, ⟨0x3de00000, 0x100000⟩, ⟨0x3df00000, 0x10000⟩⟩,
    by decide, fun h => ?_⟩
  exact absurd h.linear_metadata (by decide)

end Esp32Fx.Runner
