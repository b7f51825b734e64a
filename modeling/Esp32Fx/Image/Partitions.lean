import Mathlib.Data.Char
import Mathlib.Data.List.Lex
import Mathlib.Data.List.Pairwise
import Mathlib.Logic.Function.Basic
import Esp32Fx.Lib.Memory
import Esp32Fx.Lib.PyText

/-! The partition table: `parse_partitions` of `tools/package.py`, and what it accepts.  Neighbours
of the sorted table that do not overlap keep all of its partitions apart, also where a name stands
for the last of several. -/

namespace Esp32Fx.Image

open Lib Lib.Py

/-- `FLASH_BYTES`. -/
def flashBytes : Nat := 16 * 1024 * 1024

/-- `FX_WASM_FLASH_OFFSET`. -/
def fxWasmFlashOffset : Nat := 0xd80000

abbrev Name := List Char

/-- An entry of `partitions`. -/
structure Partition where
  offset : Nat
  size : Nat
  deriving DecidableEq, Repr

/-- An entry of `occupied`. -/
structure Occupied where
  start : Nat
  stop : Nat
  name : Name
  deriving DecidableEq, Repr

/-- The order of the tuples of `occupied`. -/
def Occupied.le (a b : Occupied) : Bool :=
  a.start < b.start || (a.start == b.start &&
    (a.stop < b.stop || (a.stop == b.stop && decide (a.name ≤ b.name))))

/-- The partition table as far as it has been read. -/
structure Table where
  occupied : List Occupied
  partitions : Name → Option Partition

/-- The ways in which `parse_partitions` fails. -/
inductive PartitionError
  | invalidLine (raw : List Char)
  | valueError (field : List Char)
  | outside (name : Name)
  | missing (names : List Name)
  | overlapping (left right : Name)
  | rootfs
  | fxwasm
  | home
  deriving DecidableEq, Repr

/-- The `offset` and the `size` of a line that lies inside the lower 16 MiB. -/
def checkRange (offset size : Int) : Option Partition :=
  if offset < 0x9000 ∨ size ≤ 0 ∨ offset + size > flashBytes then none
  else some ⟨offset.toNat, size.toNat⟩

/-- A round of the loop of `parse_partitions`. -/
def parseLine (table : Table) (raw : List Char) : Except PartitionError Table :=
  let line := strip raw
  if line = [] ∨ line.head? = some '#' then .ok table
  else
    match (line.splitOn ',').map strip with
    | name :: _ :: _ :: offsetField :: sizeField :: _ =>
      match int0 offsetField, int0 sizeField with
      | none, _ => .error (.valueError offsetField)
      | some _, none => .error (.valueError sizeField)
      | some offset, some size =>
        match checkRange offset size with
        | none => .error (.outside name)
        | some info =>
          .ok ⟨table.occupied ++ [⟨info.offset, info.offset + info.size, name⟩],
            Function.update table.partitions name (some info)⟩
    | _ => .error (.invalidLine raw)

/-- The rounds of the loop. -/
def parseLines (table : Table) : List (List Char) → Except PartitionError Table
  | [] => .ok table
  | raw :: lines =>
    match parseLine table raw with
    | .error e => .error e
    | .ok table => parseLines table lines

/-- `required`, sorted. -/
def required : List Name :=
  ["etc".toList, "factory".toList, "fxwasm".toList, "home".toList, "linux".toList, "rootfs".toList]

/-- The first neighbours that overlap. -/
def overlap : List Occupied → Option (Name × Name)
  | left :: right :: rest =>
    if left.stop > right.start then some (left.name, right.name) else overlap (right :: rest)
  | _ => none

/-- `parse_partitions`, on the text of the table. -/
def parsePartitions (text : List Char) : Except PartitionError (Name → Option Partition) :=
  match parseLines ⟨[], fun _ => none⟩ (splitLines text) with
  | .error e => .error e
  | .ok ⟨occupied, partitions⟩ =>
    let missing := required.filter fun name => (partitions name).isNone
    if missing ≠ [] then .error (.missing missing)
    else
      match overlap (occupied.insertionSort fun a b => a.le b) with
      | some (left, right) => .error (.overlapping left right)
      | none =>
        if partitions "rootfs".toList ≠ some ⟨0x540000, 0x840000⟩ then .error .rootfs
        else if partitions "fxwasm".toList ≠ some ⟨fxWasmFlashOffset, 0x200000⟩ then .error .fxwasm
        else if partitions "home".toList ≠ some ⟨0xf80000, 0x80000⟩ then .error .home
        else .ok partitions

/-! ### What an accepted table holds -/

/-- The range of a partition. -/
def Partition.region (info : Partition) : Region := ⟨info.offset, info.size⟩

/-- Behind the partition table and inside the flash, and not empty. -/
def Partition.Placed (info : Partition) : Prop :=
  0x9000 ≤ info.offset ∧ 0 < info.size ∧ info.offset + info.size ≤ flashBytes

/-- The entry of `occupied` for a partition. -/
def Partition.occupied (info : Partition) (name : Name) : Occupied :=
  ⟨info.offset, info.offset + info.size, name⟩

theorem checkRange_placed {offset size : Int} {info : Partition}
    (h : checkRange offset size = some info) : info.Placed := by
  unfold checkRange at h
  split at h
  · cases h
  next hChecks =>
  cases h
  simp only [not_or, Int.not_lt, Int.not_le] at hChecks
  obtain ⟨hOffset, hSize, hEnd⟩ := hChecks
  refine ⟨?_, ?_, ?_⟩ <;> simp only <;> omega

/-- `occupied` has every partition of the table, and no empty range. -/
structure Consistent (table : Table) : Prop where
  nonempty : ∀ o ∈ table.occupied, o.start < o.stop
  listed : ∀ name info, table.partitions name = some info →
    info.Placed ∧ info.occupied name ∈ table.occupied

theorem Consistent.empty : Consistent ⟨[], fun _ => none⟩ :=
  ⟨nofun, nofun⟩

theorem Consistent.add {table : Table} (h : Consistent table) {info : Partition} (hInfo : info.Placed)
    (name : Name) :
    Consistent ⟨table.occupied ++ [info.occupied name],
      Function.update table.partitions name (some info)⟩ := by
  constructor
  · intro o ho
    rcases List.mem_append.mp ho with ho | ho
    · exact h.nonempty o ho
    · rw [List.mem_singleton.mp ho]
      exact Nat.lt_add_of_pos_right hInfo.2.1
  · intro other info' hOther
    by_cases hName : other = name
    · subst hName
      simp only [Function.update_self, Option.some.injEq] at hOther
      subst hOther
      exact ⟨hInfo, List.mem_append_right _ (List.mem_singleton_self _)⟩
    · simp only [Function.update_of_ne hName] at hOther
      obtain ⟨hPlaced, hListed⟩ := h.listed other info' hOther
      exact ⟨hPlaced, List.mem_append_left _ hListed⟩

theorem parseLine_ok {table table' : Table} {raw : List Char} (h : Consistent table)
    (hLine : parseLine table raw = .ok table') : Consistent table' := by
  unfold parseLine at hLine
  dsimp only at hLine
  repeat' split at hLine
  all_goals cases hLine
  · exact h
  · next hRange => exact h.add (checkRange_placed hRange) _

theorem parseLines_ok {table table' : Table} {lines : List (List Char)} (h : Consistent table)
    (hLines : parseLines table lines = .ok table') : Consistent table' := by
  induction lines generalizing table with
  | nil =>
    cases hLines
    exact h
  | cons raw lines ih =>
    rw [parseLines] at hLines
    split at hLines
    · cases hLines
    · next hLine => exact ih (parseLine_ok h hLine) hLines

/-- Neighbours that do not overlap keep all ranges of a list apart. -/
theorem pairwise_of_overlap {occupied : List Occupied} (hNonempty : ∀ o ∈ occupied, o.start < o.stop)
    (h : overlap occupied = none) : occupied.Pairwise fun a b => a.stop ≤ b.start := by
  induction occupied with
  | nil => exact .nil
  | cons left rest ih =>
    cases rest with
    | nil => exact List.pairwise_singleton _ _
    | cons right rest =>
      rw [overlap] at h
      split at h
      · cases h
      next hApart =>
      have hRest := ih (fun o ho => hNonempty o (List.mem_cons_of_mem _ ho)) h
      have hRight := hNonempty right (by simp)
      refine List.pairwise_cons.mpr ⟨fun o ho => ?_, hRest⟩
      rcases List.mem_cons.mp ho with rfl | ho
      · omega
      · have := (List.pairwise_cons.mp hRest).1 o ho
        omega

/-- Two ranges do not overlap. -/
def Occupied.Apart (a b : Occupied) : Prop := a.stop ≤ b.start ∨ b.stop ≤ a.start

instance : Std.Symm Occupied.Apart := ⟨fun _ _ => Or.symm⟩

/-- What `parse_partitions` accepts: the partitions of fx are all there, between the partition table
and the end of the flash, and no two partitions of different names overlap. -/
structure Accepted (partitions : Name → Option Partition) : Prop where
  present : ∀ name ∈ required, partitions name ≠ none
  placed : ∀ name info, partitions name = some info → info.Placed
  apart : ∀ name name' info info', partitions name = some info → partitions name' = some info' →
    name ≠ name' → info.region.Disjoint info'.region

theorem parsePartitions_accepted {text : List Char} {partitions : Name → Option Partition}
    (h : parsePartitions text = .ok partitions) : Accepted partitions := by
  unfold parsePartitions at h
  split at h
  · cases h
  next occupied parsed hLines =>
  have hTable := parseLines_ok .empty hLines
  dsimp only at h
  split at h
  · cases h
  next hMissing =>
  split at h
  · cases h
  next hOverlap =>
  have hEq : parsed = partitions := by
    repeat' split at h
    all_goals first
      | exact Except.ok.inj h
      | cases h
  subst hEq
  have hSorted := pairwise_of_overlap
    (fun o ho => hTable.nonempty o ((List.mem_insertionSort _).mp ho)) hOverlap
  refine ⟨fun name hName hNone => hMissing ?_, fun name info hInfo => (hTable.listed name info hInfo).1,
    fun name name' info info' hInfo hInfo' hne => ?_⟩
  · have hMem : name ∈ required.filter fun name => (parsed name).isNone :=
      List.mem_filter.mpr ⟨hName, by simp [hNone]⟩
    rw [not_not.mp hMissing] at hMem
    cases hMem
  · have hMem := (hTable.listed name info hInfo).2
    have hMem' := (hTable.listed name' info' hInfo').2
    have hApart : occupied.insertionSort (fun a b => a.le b) |>.Pairwise Occupied.Apart :=
      hSorted.imp Or.inl
    exact hApart.forall ((List.mem_insertionSort _).mpr hMem)
      ((List.mem_insertionSort _).mpr hMem') fun hSame => hne (congrArg Occupied.name hSame)

end Esp32Fx.Image
