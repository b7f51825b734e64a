import Esp32Fx.Lib.CString
import Esp32Fx.Lib.Stdio

/-! `read_text` of `einkctl.c`.  `allocates` tells for each size whether an allocation of that size
succeeds. -/

namespace Esp32Fx.Einkctl

open Lib Stdio

abbrev maxInputBytes : Nat := 262144

/-- The messages of `read_text`. -/
inductive ReadError
  | cannotOpen
  | outOfMemory
  | exceeds
  | cannotRead
  | cannotClose
  deriving DecidableEq, Repr

/-- A file to read from, and whether `fclose` succeeds on it. -/
structure InputFile where
  reads : List (List UInt8)
  ending : Ending
  closes : Bool
  deriving DecidableEq, Repr

def InputFile.stream (file : InputFile) : Stream := ⟨file.reads, file.ending, false, false⟩

/-- A write to the buffer, with the bytes that the buffer has for it. -/
structure Write where
  offset : Nat
  amount : Nat
  size : Nat
  deriving DecidableEq, Repr

/-- `buffer`, `capacity` and `length`. -/
structure InputBuffer where
  capacity : Nat
  text : List UInt8
  fits : text.length ≤ capacity
  positive : 0 < capacity
  within : capacity ≤ maxInputBytes

/-- A buffer that has room for more. -/
abbrev RoomyBuffer : Type := { buffer : InputBuffer // buffer.text.length < buffer.capacity }

def InputBuffer.initial : InputBuffer := ⟨4096, [], by decide, by decide, by decide⟩

/-- The capacity that a full buffer gets. -/
def grownCapacity (capacity : Nat) : Nat :=
  if capacity * 2 > maxInputBytes then maxInputBytes else capacity * 2

theorem grownCapacity_bounds {capacity : Nat} (hPositive : 0 < capacity)
    (hLimit : ¬capacity ≥ maxInputBytes) :
    capacity < grownCapacity capacity ∧ grownCapacity capacity ≤ maxInputBytes := by
  unfold grownCapacity
  split <;> omega

def InputBuffer.grown (buffer : InputBuffer) (hLimit : ¬buffer.capacity ≥ maxInputBytes) :
    RoomyBuffer :=
  have hGrown := grownCapacity_bounds buffer.positive hLimit
  ⟨⟨grownCapacity buffer.capacity, buffer.text, Nat.le_trans buffer.fits (Nat.le_of_lt hGrown.1),
    Nat.zero_lt_of_lt hGrown.1, hGrown.2⟩, Nat.lt_of_le_of_lt buffer.fits hGrown.1⟩

/-- The part of a round that makes room. -/
def makeRoom (allocates : Nat → Bool) (buffer : InputBuffer) : Except ReadError RoomyBuffer :=
  if hFull : buffer.text.length = buffer.capacity then
    if hLimit : buffer.capacity ≥ maxInputBytes then .error .exceeds
    else if allocates (grownCapacity buffer.capacity + 1) then .ok (buffer.grown hLimit)
    else .error .outOfMemory
  else .ok ⟨buffer, Nat.lt_of_le_of_ne buffer.fits hFull⟩

/-- `buffer` after `fread`, which never brings more than there is room for. -/
def InputBuffer.read (buffer : InputBuffer) (stream : Stream) : InputBuffer :=
  { buffer with
    text := buffer.text ++ (fread (buffer.capacity - buffer.text.length) stream).1
    fits := by
      have hRead := fread_length_le (buffer.capacity - buffer.text.length) stream
      have hFits := buffer.fits
      rw [List.length_append]
      omega }

/-- What is done to the buffer, and what comes of it. -/
structure Reading (α : Type) where
  writes : List Write
  result : Except ReadError α

/-- The loop of `read_text`. -/
def readLoop (allocates : Nat → Bool) (buffer : InputBuffer) (stream : Stream) :
    Reading InputBuffer :=
  if stream.eof then ⟨[], .ok buffer⟩
  else
    match makeRoom allocates buffer with
    | .error error => ⟨[], .error error⟩
    | .ok ⟨buffer, _⟩ =>
      let requested := buffer.capacity - buffer.text.length
      let write : Write :=
        ⟨buffer.text.length, (fread requested stream).1.length, buffer.capacity⟩
      if (fread requested stream).2.error then ⟨[write], .error .cannotRead⟩
      else
        let rest := readLoop allocates (buffer.read stream) (fread requested stream).2
        ⟨write :: rest.writes, rest.result⟩
termination_by stream.left
decreasing_by exact fread_left_lt (by omega) ‹_› ‹_›

/-- Whether `input` is a file that `read_text` opens, and closes in the end. -/
def isNamed (path : Option (List UInt8)) : Bool :=
  match path with
  | none => false
  | some path => !strEq path (ascii "-")

/-- `input`. -/
def inputFile (path : Option (List UInt8)) (stdin : InputFile)
    (fopen : List UInt8 → Option InputFile) : Option InputFile :=
  match path with
  | none => some stdin
  | some name => if isNamed path then fopen name else some stdin

/-- `read_text`: the buffer with the NUL behind the text, and `*length_out`. -/
def readText (allocates : Nat → Bool) (path : Option (List UInt8)) (stdin : InputFile)
    (fopen : List UInt8 → Option InputFile) : Reading (List UInt8 × Nat) :=
  match inputFile path stdin fopen with
  | none => ⟨[], .error .cannotOpen⟩
  | some input =>
    if allocates (InputBuffer.initial.capacity + 1) then
      let loop := readLoop allocates .initial input.stream
      match loop.result with
      | .error error => ⟨loop.writes, .error error⟩
      | .ok buffer =>
        if isNamed path && !input.closes then ⟨loop.writes, .error .cannotClose⟩
        else
          let length := buffer.text.length
          ⟨loop.writes ++ [⟨length, 1, buffer.capacity + 1⟩], .ok (buffer.text ++ [0], length)⟩
    else ⟨[], .error .outOfMemory⟩

/-! ### The loop -/

section Loop

variable {allocates : Nat → Bool}

theorem makeRoom_text {buffer : InputBuffer} {room : RoomyBuffer}
    (h : makeRoom allocates buffer = .ok room) : room.val.text = buffer.text := by
  unfold makeRoom at h
  split at h
  · split at h
    · cases h
    · split at h
      · cases h
        rfl
      · cases h
  · cases h
    rfl

/-- With memory for every allocation there is no room only behind as much text as is allowed. -/
theorem makeRoom_error (hMemory : ∀ size, allocates size = true) {buffer : InputBuffer}
    {error : ReadError} (h : makeRoom allocates buffer = .error error) :
    buffer.text.length = maxInputBytes := by
  have hWithin := buffer.within
  unfold makeRoom at h
  split at h
  · split at h
    · omega
    · rw [if_pos (hMemory _)] at h
      cases h
  · cases h

theorem readLoop_writes (buffer : InputBuffer) (stream : Stream) :
    ∀ write ∈ (readLoop allocates buffer stream).writes,
      write.offset + write.amount ≤ write.size := by
  fun_induction readLoop allocates buffer stream with
  | case1 => exact List.forall_mem_nil _
  | case2 => exact List.forall_mem_nil _
  | case3 buffer stream _ room hRoom _ requested write _ =>
    have hRead := fread_length_le requested stream
    refine List.forall_mem_singleton.mpr ?_
    dsimp only [write, requested] at hRead ⊢
    omega
  | case4 buffer stream _ room hRoom _ requested write _ rest ih =>
    have hRead := fread_length_le requested stream
    refine List.forall_mem_cons.mpr ⟨?_, ih⟩
    dsimp only [write, requested] at hRead ⊢
    omega

theorem readLoop_eof {stream : Stream} (h : stream.eof = true) (buffer : InputBuffer) :
    readLoop allocates buffer stream = ⟨[], .ok buffer⟩ := by
  rw [readLoop, if_pos h]

/-- The end of the file is seen only with room to spare: a text of the whole size is refused. -/
theorem readLoop_result (hMemory : ∀ size, allocates size = true) (buffer : InputBuffer)
    (stream : Stream) (hEof : stream.eof = false) (hError : stream.error = false) :
    (stream.ending = .endOfFile → buffer.text.length + stream.bytes.length < maxInputBytes →
      ∃ whole, (readLoop allocates buffer stream).result = .ok whole ∧
        whole.text = buffer.text ++ stream.bytes) ∧
    (stream.ending = .failure ∨ maxInputBytes ≤ buffer.text.length + stream.bytes.length →
      ∃ error, (readLoop allocates buffer stream).result = .error error) := by
  fun_induction readLoop allocates buffer stream with
  | case1 buffer stream h => exact absurd (hEof ▸ h) (by decide)
  | case2 buffer stream _ error hRoom =>
    have hFull := makeRoom_error hMemory hRoom
    exact ⟨fun _ h => by omega, fun _ => ⟨error, rfl⟩⟩
  | case3 buffer stream _ room hRoom hText requested write hFailed =>
    have hShort : stream.bytes.length < requested := by
      by_contra hFull
      rw [(fread_full (Nat.le_of_not_lt hFull)).2.2.2.2, hError] at hFailed
      cases hFailed
    rw [(fread_short hShort).2.2.2.2, hError, Bool.false_or, decide_eq_true_eq] at hFailed
    exact ⟨fun h => absurd (hFailed.symm.trans h) (by decide), fun _ => ⟨_, rfl⟩⟩
  | case4 buffer stream _ room hRoom hText requested write hGood rest ih =>
    have hSame : room.text = buffer.text := makeRoom_text hText
    have hRead : (room.read stream).text = buffer.text ++ (fread requested stream).1 := by
      rw [← hSame]
      rfl
    rw [Bool.not_eq_true] at hGood
    by_cases hFull : requested ≤ stream.bytes.length
    · obtain ⟨hBytes, hRest, hEnding, hFlag, -⟩ := fread_full hFull
      have hParts : (room.read stream).text ++ (fread requested stream).2.bytes =
          buffer.text ++ stream.bytes := by
        rw [hRead, hBytes, hRest, List.append_assoc, List.take_append_drop]
      have hLength := congrArg List.length hParts
      rw [List.length_append, List.length_append] at hLength
      obtain ⟨hOk, hNot⟩ := ih (hFlag.trans hEof) hGood
      rw [hEnding, hLength] at hOk hNot
      rw [hParts] at hOk
      exact ⟨hOk, hNot⟩
    · obtain ⟨hBytes, hRest, -, hFlag, hFailed⟩ := fread_short (Nat.lt_of_not_le hFull)
      rw [hGood, hError, Bool.false_or] at hFailed
      have hEnding : stream.ending = .endOfFile := by
        cases hEnd : stream.ending with
        | endOfFile => rfl
        | failure =>
          rw [hEnd] at hFailed
          exact absurd hFailed (by decide)
      have hEnd : (fread requested stream).2.eof = true := by
        rw [hFlag, hEnding, hEof]
        rfl
      have hRest : rest = ⟨[], .ok (room.read stream)⟩ := readLoop_eof hEnd _
      have hFits := room.within
      constructor
      · intro _ _
        rw [hRest]
        exact ⟨_, rfl, by rw [hRead, hBytes]⟩
      · rintro (h | h)
        · rw [hEnding] at h
          cases h
        · rw [← hSame] at h
          omega

end Loop

/-! ### The text -/

/-- A read fails, or `fclose` does in the end. -/
def InputFile.Fails (file : InputFile) (path : Option (List UInt8)) : Prop :=
  file.ending = .failure ∨ (isNamed path = true ∧ file.closes = false)

/-- What there is to expect of a reading. -/
structure ReadsFile (path : Option (List UInt8)) (input : InputFile)
    (reading : Reading (List UInt8 × Nat)) : Prop where
  whole : input.stream.bytes.length ≤ maxInputBytes → ¬input.Fails path →
    reading.result = .ok (input.stream.bytes ++ [0], input.stream.bytes.length)
  refused : maxInputBytes < input.stream.bytes.length ∨ input.Fails path →
    ∃ error, reading.result = .error error
  inside : ∀ write ∈ reading.writes, write.offset + write.amount ≤ write.size

section Text

variable {allocates : Nat → Bool} {path : Option (List UInt8)} {stdin input : InputFile}
  {fopen : List UInt8 → Option InputFile}

theorem readText_writes :
    ∀ write ∈ (readText allocates path stdin fopen).writes,
      write.offset + write.amount ≤ write.size := by
  unfold readText
  split
  · exact List.forall_mem_nil _
  split
  · have hLoop := @readLoop_writes allocates
    dsimp only
    split
    · exact hLoop _ _
    · next buffer hBuffer =>
      split
      · exact hLoop _ _
      · have hFits := buffer.fits
        refine List.forall_mem_append.mpr ⟨hLoop _ _, List.forall_mem_singleton.mpr ?_⟩
        show buffer.text.length + 1 ≤ buffer.capacity + 1
        omega
  · exact List.forall_mem_nil _

variable (hMemory : ∀ size, allocates size = true)
  (hInput : inputFile path stdin fopen = some input)

include hMemory hInput

theorem readText_result : (readText allocates path stdin fopen).result =
    match (readLoop allocates .initial input.stream).result with
    | .error error => .error error
    | .ok buffer =>
      if isNamed path && !input.closes then .error .cannotClose
      else .ok (buffer.text ++ [0], buffer.text.length) := by
  rw [readText, hInput]
  dsimp only
  rw [if_pos (hMemory _)]
  split
  · rfl
  · split
    · rfl
    · rfl

theorem readText_whole (hLength : input.stream.bytes.length < maxInputBytes)
    (hGood : ¬input.Fails path) :
    (readText allocates path stdin fopen).result =
      .ok (input.stream.bytes ++ [0], input.stream.bytes.length) := by
  rw [InputFile.Fails, not_or] at hGood
  have hEnding : input.stream.ending = .endOfFile := by
    cases hEnd : input.ending with
    | endOfFile => exact hEnd
    | failure => exact absurd hEnd hGood.1
  have hStart : InputBuffer.initial.text.length + input.stream.bytes.length < maxInputBytes :=
    (Nat.zero_add _).symm ▸ hLength
  obtain ⟨whole, hLoop, hText⟩ :=
    (readLoop_result hMemory .initial input.stream rfl rfl).1 hEnding hStart
  have hCloses : ¬(isNamed path && !input.closes) = true := by
    rw [Bool.and_eq_true, Bool.not_eq_true']
    exact hGood.2
  rw [readText_result hMemory hInput, hLoop]
  dsimp only
  rw [if_neg hCloses, hText]
  rfl

theorem readText_refused
    (h : maxInputBytes ≤ input.stream.bytes.length ∨ input.Fails path) :
    ∃ error, (readText allocates path stdin fopen).result = .error error := by
  have hLoop := (readLoop_result hMemory .initial input.stream rfl rfl).2
  rw [readText_result hMemory hInput]
  rcases h with hLong | hFailed | ⟨hNamed, hCloses⟩
  · obtain ⟨error, hError⟩ := hLoop (.inr ((Nat.zero_add _).symm ▸ hLong))
    exact ⟨error, by rw [hError]⟩
  · obtain ⟨error, hError⟩ := hLoop (.inl hFailed)
    exact ⟨error, by rw [hError]⟩
  · rw [hNamed, hCloses]
    split
    · exact ⟨_, rfl⟩
    · exact ⟨_, rfl⟩

/-- A text is read as it should be unless it has the whole size that is allowed: its end is looked
for only after more room has been refused. -/
theorem readText_stream_iff :
    ReadsFile path input (readText allocates path stdin fopen) ↔
      ¬(input.stream.bytes.length = 262144 ∧ ¬input.Fails path) := by
  constructor
  · rintro hReads ⟨hLength, hGood⟩
    obtain ⟨error, hError⟩ :=
      readText_refused hMemory hInput (.inl (Nat.le_of_eq hLength.symm))
    rw [hReads.whole (Nat.le_of_eq hLength) hGood] at hError
    cases hError
  · intro hLength
    refine ⟨fun hFits hGood => ?_, fun h => ?_, readText_writes⟩
    · apply readText_whole hMemory hInput _ hGood
      exact Nat.lt_of_le_of_ne hFits fun h => hLength ⟨h, hGood⟩
    · exact readText_refused hMemory hInput (h.imp_left Nat.le_of_lt)

end Text

/-- A short text from the standard input, in two pieces. -/
theorem readText_stream_iff_short :
    ReadsFile none ⟨[[0x61], [0x62]], .endOfFile, true⟩
        (readText (fun _ => true) none ⟨[[0x61], [0x62]], .endOfFile, true⟩ fun _ => none) ↔
      ¬((InputFile.mk [[0x61], [0x62]] .endOfFile true).stream.bytes.length = 262144 ∧
        ¬(InputFile.mk [[0x61], [0x62]] .endOfFile true).Fails none) :=
  readText_stream_iff (fun _ => rfl) rfl

/-- A text of exactly 262144 bytes is refused. -/
theorem readText_wholeSize :
    ¬∀ input : InputFile, ReadsFile none input
      (readText (fun _ => true) none input fun _ => none) := by
  intro h
  let input : InputFile := ⟨[List.replicate 262144 0x61], .endOfFile, true⟩
  have hLength : input.stream.bytes.length = maxInputBytes := by
    rw [Stream.bytes, show input.stream.reads = [List.replicate 262144 0x61] from rfl,
      List.flatten_singleton, List.length_replicate]
  have hGood : ¬input.Fails none := by
    rintro (hFailed | ⟨hNamed, -⟩)
    · cases hFailed
    · cases hNamed
  have hInput : inputFile none input (fun _ => none) = some input := rfl
  obtain ⟨error, hError⟩ :=
    readText_refused (fun _ => rfl) hInput (.inl (Nat.le_of_eq hLength.symm))
  have hWhole := (h input).whole (Nat.le_of_eq hLength) hGood
  rw [hError] at hWhole
  cases hWhole

end Esp32Fx.Einkctl
