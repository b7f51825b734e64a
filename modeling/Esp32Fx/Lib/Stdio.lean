import Mathlib.Data.List.TakeDrop

/-! Reading from a stream of the C library.  The stream is filled by reads from its file, each of
which may bring less than there is still to come; `fread` goes on until it has what it was asked
for, or the file has come to its end or to an error. -/

namespace Esp32Fx.Lib.Stdio

/-- What comes after the last byte that a file delivers. -/
inductive Ending
  | endOfFile
  | failure
  deriving DecidableEq, Repr

/-- A stream: what the next reads bring, one after the other, what comes then, and the flags that
`feof` and `ferror` test. -/
structure Stream where
  reads : List (List UInt8)
  ending : Ending
  eof : Bool
  error : Bool
  deriving DecidableEq, Repr

/-- The bytes that are still to come. -/
def Stream.bytes (stream : Stream) : List UInt8 := stream.reads.flatten

/-- The bytes that reads bring for a request, the reads behind them, and whether they ran out. -/
def gather : Nat → List (List UInt8) → List UInt8 × List (List UInt8) × Bool
  | requested, [] => ([], [], 0 < requested)
  | requested, piece :: reads =>
    if requested ≤ piece.length then (piece.take requested, piece.drop requested :: reads, false)
    else
      let (bytes, reads, short) := gather (requested - piece.length) reads
      (piece ++ bytes, reads, short)

/-- `fread` of single bytes. -/
def fread (requested : Nat) (stream : Stream) : List UInt8 × Stream :=
  let (bytes, reads, short) := gather requested stream.reads
  (bytes, { stream with
    reads,
    eof := stream.eof || (short && stream.ending = .endOfFile),
    error := stream.error || (short && stream.ending = .failure) })

example : fread 4 ⟨[[1], [2, 3], [4, 5, 6]], .endOfFile, false, false⟩ =
    ([1, 2, 3, 4], ⟨[[5, 6]], .endOfFile, false, false⟩) := by decide

theorem gather_bytes (requested : Nat) (reads : List (List UInt8)) :
    (gather requested reads).1 = reads.flatten.take requested ∧
      (gather requested reads).2.1.flatten = reads.flatten.drop requested ∧
      (gather requested reads).2.2 = decide (reads.flatten.length < requested) := by
  induction reads generalizing requested with
  | nil => simp [gather]
  | cons piece reads ih =>
    rw [gather, List.flatten_cons]
    split
    · next hEnough =>
      refine ⟨(List.take_append_of_le_length hEnough).symm, ?_, ?_⟩
      · rw [List.flatten_cons, List.drop_append_of_le_length hEnough]
      · rw [List.length_append]
        exact (decide_eq_false (by omega)).symm
    · next hMore =>
      obtain ⟨hBytes, hReads, hShort⟩ := ih (requested - piece.length)
      have hLong : piece.length ≤ requested := by omega
      refine ⟨?_, ?_, ?_⟩
      · show piece ++ _ = _
        rw [hBytes, List.take_append, List.take_of_length_le hLong]
      · show List.flatten _ = _
        rw [hReads, List.drop_append, List.drop_of_length_le hLong, List.nil_append]
      · show Prod.snd _ = _
        rw [hShort, List.length_append, decide_eq_decide]
        omega

section Fread

variable {requested : Nat} {stream : Stream}

theorem fread_length_le (requested : Nat) (stream : Stream) :
    (fread requested stream).1.length ≤ requested := by
  rw [show (fread requested stream).1 = stream.bytes.take requested from (gather_bytes _ _).1]
  exact List.length_take_le ..

/-- A full read leaves the flags as they were. -/
theorem fread_full (h : requested ≤ stream.bytes.length) :
    (fread requested stream).1 = stream.bytes.take requested ∧
      (fread requested stream).2.bytes = stream.bytes.drop requested ∧
      (fread requested stream).2.ending = stream.ending ∧
      (fread requested stream).2.eof = stream.eof ∧
      (fread requested stream).2.error = stream.error := by
  obtain ⟨hBytes, hReads, hShort⟩ := gather_bytes requested stream.reads
  have hFull : (gather requested stream.reads).2.2 = false := by
    rw [hShort]
    exact decide_eq_false (Nat.not_lt.mpr h)
  refine ⟨hBytes, hReads, rfl, ?_, ?_⟩
  · show (stream.eof || _) = _
    rw [hFull, Bool.false_and, Bool.or_false]
  · show (stream.error || _) = _
    rw [hFull, Bool.false_and, Bool.or_false]

/-- A short read brings everything, and one of the flags is set. -/
theorem fread_short (h : stream.bytes.length < requested) :
    (fread requested stream).1 = stream.bytes ∧
      (fread requested stream).2.bytes = [] ∧
      (fread requested stream).2.ending = stream.ending ∧
      (fread requested stream).2.eof = (stream.eof || decide (stream.ending = .endOfFile)) ∧
      (fread requested stream).2.error = (stream.error || decide (stream.ending = .failure)) := by
  obtain ⟨hBytes, hReads, hShort⟩ := gather_bytes requested stream.reads
  have hAll : (gather requested stream.reads).2.2 = true := by
    rw [hShort]
    exact decide_eq_true h
  refine ⟨?_, ?_, rfl, ?_, ?_⟩
  · exact hBytes.trans (List.take_of_length_le (Nat.le_of_lt h))
  · exact hReads.trans (List.drop_of_length_le (Nat.le_of_lt h))
  · show (stream.eof || _) = _
    rw [hAll, Bool.true_and]
  · show (stream.error || _) = _
    rw [hAll, Bool.true_and]

/-- How much there is still to find out about a stream. -/
def Stream.left (stream : Stream) : Nat := if stream.eof then 0 else stream.bytes.length + 1

/-- A read that is not in vain finds out something, or it fails. -/
theorem fread_left_lt (hRequested : 0 < requested) (hEof : ¬stream.eof)
    (hError : ¬(fread requested stream).2.error) :
    (fread requested stream).2.left < stream.left := by
  have hLeft : stream.left = stream.bytes.length + 1 := if_neg hEof
  rw [hLeft, Stream.left]
  by_cases hFull : requested ≤ stream.bytes.length
  · obtain ⟨-, hBytes, -, hFlag, -⟩ := fread_full hFull
    rw [hBytes, hFlag, if_neg hEof, List.length_drop]
    omega
  · obtain ⟨-, -, -, hFlag, hFailed⟩ := fread_short (Nat.lt_of_not_le hFull)
    cases hEnding : stream.ending with
    | endOfFile =>
      rw [hFlag, hEnding, if_pos (by simp)]
      exact Nat.succ_pos _
    | failure =>
      rw [hFailed, hEnding] at hError
      exact absurd (by simp) hError

end Fread

end Esp32Fx.Lib.Stdio
