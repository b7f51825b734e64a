import Esp32Fx.Image.Partitions
import Esp32Fx.Lib.Splice

/-! The merged flash image: `place` and the placements of `main` in `tools/package.py`.  An accepted
partition table keeps the ranges of all payloads apart, so a placement fails only on a payload that
is too large, and none overwrites another. -/

namespace Esp32Fx.Image

open Lib

/-- A payload file. -/
structure Payload where
  name : Name
  bytes : List UInt8
  deriving DecidableEq, Repr

/-- The ways in which the placement of the payloads fails. -/
inductive PlaceError
  | tooLarge (name : Name) (bytes limit : Nat)
  | overlap (name : Name)
  | keyError (partition : Name)
  | imageSize
  deriving DecidableEq, Repr

/-- `place`. -/
def place (image : List UInt8) (offset limit : Nat) (payload : Payload) :
    Except PlaceError (List UInt8) :=
  let data := payload.bytes
  if data.length > limit then .error (.tooLarge payload.name data.length limit)
  else if (slice image offset data.length).any (· ≠ 0xff) then .error (.overlap payload.name)
  else .ok (splice image offset data)

/-- The files that `main` puts into the image. -/
structure Payloads where
  bootloader : List UInt8
  partitionTable : List UInt8
  networkAdapter : List UInt8
  etc : List UInt8
  xipImage : List UInt8
  rootfs : List UInt8
  fxCore : List UInt8
  home : List UInt8
  deriving DecidableEq, Repr

/-- `images`: the file of each partition. -/
def Payloads.images (payloads : Payloads) : List (Name × Payload) :=
  [("factory".toList, ⟨"network_adapter.bin".toList, payloads.networkAdapter⟩),
    ("etc".toList, ⟨"etc.jffs2".toList, payloads.etc⟩),
    ("linux".toList, ⟨"xipImage".toList, payloads.xipImage⟩),
    ("rootfs".toList, ⟨"rootfs.cramfs".toList, payloads.rootfs⟩),
    ("fxwasm".toList, ⟨"fx-core.flash.bin".toList, payloads.fxCore⟩),
    ("home".toList, ⟨"home.jffs2".toList, payloads.home⟩)]

/-- The loop over `images`. -/
def placeImages (partitions : Name → Option Partition) (full : List UInt8) :
    List (Name × Payload) → Except PlaceError (List UInt8)
  | [] => .ok full
  | (partition, payload) :: images =>
    match partitions partition with
    | none => .error (.keyError partition)
    | some info =>
      match place full info.offset info.size payload with
      | .error e => .error e
      | .ok full => placeImages partitions full images

/-- The image of `bytearray(b"\xFF") * FLASH_BYTES`. -/
def erased : List UInt8 := List.replicate flashBytes 0xff

/-- The merged image of `main`. -/
def mergeImage (partitions : Name → Option Partition) (payloads : Payloads) :
    Except PlaceError (List UInt8) :=
  match place erased 0 0x8000 ⟨"bootloader.bin".toList, payloads.bootloader⟩ with
  | .error e => .error e
  | .ok full =>
    match place full 0x8000 0x1000 ⟨"partition-table.bin".toList, payloads.partitionTable⟩ with
    | .error e => .error e
    | .ok full =>
      match placeImages partitions full payloads.images with
      | .error e => .error e
      | .ok full => if full.length ≠ flashBytes then .error .imageSize else .ok full

/-! ### Placements -/

/-- A payload with the range that it may fill. -/
structure Slot where
  offset : Nat
  limit : Nat
  payload : Payload
  deriving DecidableEq, Repr

namespace Slot

/-- The range that a payload may fill. -/
def region (slot : Slot) : Region := ⟨slot.offset, slot.limit⟩

def Fits (slot : Slot) : Prop := slot.payload.bytes.length ≤ slot.limit

/-- Two slots have no byte in common. -/
def Apart (a b : Slot) : Prop := a.region.Disjoint b.region

end Slot

/-- The placements one after the other. -/
def placeAll (image : List UInt8) : List Slot → Except PlaceError (List UInt8)
  | [] => .ok image
  | slot :: slots =>
    match place image slot.offset slot.limit slot.payload with
    | .error e => .error e
    | .ok image => placeAll image slots

/-- An image with the payloads of `placed`, and erased elsewhere. -/
structure Holds (image : List UInt8) (placed : List Slot) : Prop where
  length : image.length = flashBytes
  payload : ∀ slot ∈ placed,
    slice image slot.offset slot.payload.bytes.length = slot.payload.bytes
  erased : ∀ i < flashBytes, (∀ slot ∈ placed,
    i < slot.offset ∨ slot.offset + slot.payload.bytes.length ≤ i) → image[i]? = some 0xff
  fits : ∀ slot ∈ placed, slot.Fits

theorem Holds.nil : Holds Image.erased [] where
  length := List.length_replicate
  payload := nofun
  erased _ hi _ := List.getElem?_replicate_of_lt hi
  fits := nofun

/-- A payload that fits goes into a slot apart from the others. -/
theorem Holds.place {image : List UInt8} {placed : List Slot} (h : Holds image placed) {slot : Slot}
    (hApart : ∀ other ∈ placed, other.Apart slot) (hEnd : slot.offset + slot.limit ≤ flashBytes)
    (hFits : slot.Fits) :
    Image.place image slot.offset slot.limit slot.payload =
        .ok (splice image slot.offset slot.payload.bytes) ∧
      Holds (splice image slot.offset slot.payload.bytes) (placed ++ [slot]) := by
  have hRange : slot.offset + slot.payload.bytes.length ≤ image.length := by
    rw [h.length]
    exact Nat.le_trans (Nat.add_le_add_left hFits _) hEnd
  -- a payload that is there ends before the range of its own slot does
  have hOther : ∀ other ∈ placed,
      other.offset + other.payload.bytes.length ≤ slot.offset ∨
        slot.offset + slot.payload.bytes.length ≤ other.offset := by
    intro other hMem
    have hRegion := hApart other hMem
    have hOtherFits := h.fits other hMem
    simp only [Slot.Apart, Slot.region, Region.Disjoint, Slot.Fits] at *
    omega
  have hClear : (slice image slot.offset slot.payload.bytes.length).any (· ≠ 0xff) = false := by
    apply List.any_eq_false.mpr
    intro b hb
    obtain ⟨i, hi⟩ := List.getElem?_of_mem hb
    simp only [slice, List.getElem?_take, List.getElem?_drop] at hi
    split at hi
    · next hLt =>
      rw [h.erased _ (by rw [← h.length]; omega) fun other hMem => by
        have := hOther other hMem
        omega] at hi
      cases hi
      decide
    · cases hi
  refine ⟨?_, ?_⟩
  · have hSmall : ¬slot.payload.bytes.length > slot.limit := Nat.not_lt.mpr hFits
    simp only [Image.place, hSmall, if_false, hClear, Bool.false_eq_true]
  constructor
  · rw [length_splice hRange, h.length]
  · intro other hMem
    rcases List.mem_append.mp hMem with hMem | hMem
    · rw [slice_splice_of_disjoint hRange (hOther other hMem), h.payload other hMem]
    · rw [List.mem_singleton.mp hMem]
      exact slice_splice (by omega)
  · intro i hi hOutside
    have hSlot := hOutside slot (List.mem_append_right _ (List.mem_singleton_self _))
    rw [getElem?_splice hRange hSlot]
    exact h.erased i hi fun other hMem => hOutside other (List.mem_append_left _ hMem)
  · intro other hMem
    rcases List.mem_append.mp hMem with hMem | hMem
    · exact h.fits other hMem
    · rwa [List.mem_singleton.mp hMem]

/-- Slots that are apart take all payloads that fit. -/
theorem placeAll_holds {image : List UInt8} {placed slots : List Slot} (h : Holds image placed)
    (hApart : (placed ++ slots).Pairwise Slot.Apart)
    (hEnd : ∀ slot ∈ slots, slot.offset + slot.limit ≤ flashBytes)
    (hFits : ∀ slot ∈ slots, slot.Fits) :
    ∃ full, placeAll image slots = .ok full ∧ Holds full (placed ++ slots) := by
  induction slots generalizing image placed with
  | nil => exact ⟨image, rfl, by simpa using h⟩
  | cons slot slots ih =>
    have hBefore : ∀ other ∈ placed, other.Apart slot := by
      intro other hMem
      exact (List.pairwise_append.mp hApart).2.2 other hMem slot (by simp)
    obtain ⟨hPlace, hHolds⟩ := h.place hBefore (hEnd slot (by simp)) (hFits slot (by simp))
    obtain ⟨full, hFull, hAll⟩ := ih hHolds (by simpa using hApart)
      (fun other hMem => hEnd other (List.mem_cons_of_mem _ hMem))
      fun other hMem => hFits other (List.mem_cons_of_mem _ hMem)
    refine ⟨full, ?_, by simpa using hAll⟩
    simp only [placeAll, hPlace, hFull]

/-- Payloads that were all placed fit. -/
theorem placeAll_fits {image full : List UInt8} {slots : List Slot}
    (h : placeAll image slots = .ok full) : ∀ slot ∈ slots, slot.Fits := by
  induction slots generalizing image with
  | nil => exact nofun
  | cons slot slots ih =>
    rw [placeAll] at h
    split at h
    · cases h
    next hPlace =>
    intro other hMem
    rcases List.mem_cons.mp hMem with rfl | hMem
    · unfold place at hPlace
      dsimp only at hPlace
      split at hPlace
      · cases hPlace
      · next hSmall => exact Nat.le_of_not_lt hSmall
    · exact ih h other hMem

/-! ### The image of an accepted table -/

/-- The slot of a payload of `images`. -/
def slotOf (partitions : Name → Option Partition) (image : Name × Payload) : Option Slot :=
  (partitions image.1).map fun info => ⟨info.offset, info.size, image.2⟩

/-- All payloads, in the order of their placement. -/
def slots (partitions : Name → Option Partition) (payloads : Payloads) : List Slot :=
  ⟨0, 0x8000, "bootloader.bin".toList, payloads.bootloader⟩ ::
    ⟨0x8000, 0x1000, "partition-table.bin".toList, payloads.partitionTable⟩ ::
    payloads.images.filterMap (slotOf partitions)

variable {partitions : Name → Option Partition} {payloads : Payloads}

theorem placeImages_eq {images : List (Name × Payload)}
    (h : ∀ image ∈ images, partitions image.1 ≠ none) (full : List UInt8) :
    placeImages partitions full images = placeAll full (images.filterMap (slotOf partitions)) := by
  induction images generalizing full with
  | nil => rfl
  | cons image images ih =>
    obtain ⟨info, hInfo⟩ := Option.ne_none_iff_exists'.mp (h image (by simp))
    have hSlot : slotOf partitions image = some ⟨info.offset, info.size, image.2⟩ := by
      simp [slotOf, hInfo]
    have hRest := ih fun other hMem => h other (List.mem_cons_of_mem _ hMem)
    simp only [List.filterMap_cons, hSlot, placeImages, hInfo, placeAll, hRest]

/-- The partitions of `images`, in order. -/
def imageNames : List Name :=
  ["factory".toList, "etc".toList, "linux".toList, "rootfs".toList, "fxwasm".toList, "home".toList]

theorem images_names (payloads : Payloads) : payloads.images.map Prod.fst = imageNames := rfl

theorem images_present (h : Accepted partitions) :
    ∀ image ∈ payloads.images, partitions image.1 ≠ none := by
  have hRequired : ∀ name ∈ imageNames, name ∈ required := by decide
  intro image hMem
  exact h.present _ (hRequired _ (images_names payloads ▸ List.mem_map_of_mem hMem))

theorem mergeImage_eq (h : Accepted partitions) :
    mergeImage partitions payloads =
      match placeAll erased (slots partitions payloads) with
      | .error e => .error e
      | .ok full => if full.length ≠ flashBytes then .error .imageSize else .ok full := by
  simp only [mergeImage, slots, placeAll, placeImages_eq (images_present h)]
  repeat' split
  all_goals rfl

/-- The slot of a partition is behind the partition table, inside the flash. -/
theorem slotOf_placed (h : Accepted partitions) {image : Name × Payload} {slot : Slot}
    (hSlot : slotOf partitions image = some slot) :
    0x9000 ≤ slot.offset ∧ slot.offset + slot.limit ≤ flashBytes := by
  obtain ⟨info, hInfo, rfl⟩ := Option.map_eq_some_iff.mp hSlot
  obtain ⟨hOffset, -, hEnd⟩ := h.placed _ _ hInfo
  exact ⟨hOffset, hEnd⟩

theorem slots_end (h : Accepted partitions) :
    ∀ slot ∈ slots partitions payloads, slot.offset + slot.limit ≤ flashBytes := by
  intro slot hMem
  simp only [slots, List.mem_cons, List.mem_filterMap] at hMem
  rcases hMem with rfl | rfl | ⟨image, -, hSlot⟩
  · show 0 + 0x8000 ≤ flashBytes
    unfold flashBytes
    omega
  · show 0x8000 + 0x1000 ≤ flashBytes
    unfold flashBytes
    omega
  · exact (slotOf_placed h hSlot).2

theorem images_nodup : payloads.images.Pairwise fun a b => a.1 ≠ b.1 := by
  have hNodup : imageNames.Nodup := by decide
  have hNames : (payloads.images.map Prod.fst).Nodup := by
    rw [images_names]
    exact hNodup
  exact List.pairwise_map.mp hNames

theorem slots_apart (h : Accepted partitions) :
    (slots partitions payloads).Pairwise Slot.Apart := by
  have hImages : (payloads.images.filterMap (slotOf partitions)).Pairwise Slot.Apart := by
    apply List.Pairwise.filterMap (S := Slot.Apart) _ _ images_nodup
    intro image image' hNames slot hSlot slot' hSlot'
    obtain ⟨info, hInfo, rfl⟩ := Option.map_eq_some_iff.mp hSlot
    obtain ⟨info', hInfo', rfl⟩ := Option.map_eq_some_iff.mp hSlot'
    exact h.apart _ _ _ _ hInfo hInfo' hNames
  have hBehind : ∀ slot ∈ payloads.images.filterMap (slotOf partitions), 0x9000 ≤ slot.offset := by
    intro slot hMem
    obtain ⟨image, -, hSlot⟩ := List.mem_filterMap.mp hMem
    exact (slotOf_placed h hSlot).1
  refine List.pairwise_cons.mpr ⟨?_, List.pairwise_cons.mpr ⟨?_, hImages⟩⟩
  · intro slot hMem
    left
    rcases List.mem_cons.mp hMem with rfl | hMem
    · show 0 + 0x8000 ≤ 0x8000
      omega
    · have := hBehind slot hMem
      simp only [Slot.region]
      omega
  · intro slot hMem
    have := hBehind slot hMem
    left
    simp only [Slot.region]
    omega

theorem slots_length (h : Accepted partitions) : (slots partitions payloads).length = 8 := by
  have hAll : ∀ image ∈ payloads.images, (slotOf partitions image).isSome := by
    intro image hMem
    rw [slotOf, Option.isSome_map, Option.isSome_iff_ne_none]
    exact images_present h image hMem
  rw [slots, List.length_cons, List.length_cons, List.filterMap_length_eq_length.mpr hAll]
  rfl

/-- For every table that `parse_partitions` accepts: the placement succeeds when each payload fits
its range and not otherwise, and then the image has 16 MiB, with each payload at its offset, no two
of them over the same byte, and erased bytes everywhere else. -/
theorem mergeImage_places {text : List Char} (hParse : parsePartitions text = .ok partitions)
    (payloads : Payloads) :
    ((∃ full, mergeImage partitions payloads = .ok full) ↔
      ∀ slot ∈ slots partitions payloads, slot.payload.bytes.length ≤ slot.limit) ∧
    (slots partitions payloads).length = 8 ∧
    ∀ full, mergeImage partitions payloads = .ok full →
      full.length = 16 * 1024 * 1024 ∧
      (∀ slot ∈ slots partitions payloads,
        slice full slot.offset slot.payload.bytes.length = slot.payload.bytes) ∧
      ((slots partitions payloads).Pairwise fun a b =>
        Region.Disjoint ⟨a.offset, a.payload.bytes.length⟩ ⟨b.offset, b.payload.bytes.length⟩) ∧
      ∀ i < 16 * 1024 * 1024, (∀ slot ∈ slots partitions payloads,
        i < slot.offset ∨ slot.offset + slot.payload.bytes.length ≤ i) → full[i]? = some 0xff := by
  have h := parsePartitions_accepted hParse
  have hPlaced : (∀ slot ∈ slots partitions payloads, slot.Fits) →
      ∃ full, mergeImage partitions payloads = .ok full ∧ Holds full (slots partitions payloads) := by
    intro hFits
    have hAll : ∃ full, placeAll erased (slots partitions payloads) = .ok full ∧
        Holds full ([] ++ slots partitions payloads) :=
      placeAll_holds .nil (slots_apart h) (slots_end h) hFits
    obtain ⟨full, hFull, hHolds⟩ := hAll
    rw [List.nil_append] at hHolds
    refine ⟨full, ?_, hHolds⟩
    have hLength : ¬full.length ≠ flashBytes := not_not.mpr hHolds.length
    simp only [mergeImage_eq h, hFull, hLength, if_false]
  have hFitted : ∀ full, mergeImage partitions payloads = .ok full →
      ∀ slot ∈ slots partitions payloads, slot.Fits := by
    intro full hMerge
    rw [mergeImage_eq h] at hMerge
    split at hMerge
    · cases hMerge
    · next hAll => exact placeAll_fits hAll
  refine ⟨⟨fun ⟨full, hMerge⟩ => hFitted full hMerge, fun hFits => ?_⟩, slots_length h, ?_⟩
  · obtain ⟨full, hMerge, -⟩ := hPlaced hFits
    exact ⟨full, hMerge⟩
  · intro full hMerge
    obtain ⟨full', hMerge', hHolds⟩ := hPlaced (hFitted full hMerge)
    obtain rfl : full' = full := Except.ok.inj (hMerge'.symm.trans hMerge)
    refine ⟨hHolds.length, hHolds.payload, ?_, hHolds.erased⟩
    refine (slots_apart h).imp_of_mem fun {a b} ha hb hApart => ?_
    have hFitsA := hHolds.fits a ha
    have hFitsB := hHolds.fits b hb
    simp only [Slot.Apart, Slot.region, Slot.Fits, Region.Disjoint] at *
    omega

/-- The partitions of fx on the board. -/
def boardTable : String :=
  "factory,app,,0x10000,0xc0000\netc,,,0xd0000,0x70000\nlinux,,,0x140000,0x400000\n" ++
  "rootfs,,,0x540000,0x840000\nfxwasm,,,0xd80000,0x200000\nhome,,,0xf80000,0x80000\n"

/-- Two bytes for each of the files. -/
def shortPayloads : Payloads :=
  ⟨[0xe9, 0x03], [0xaa, 0x50], [0xe9, 0x04], [0x85, 0x19], [0x06, 0x01], [0x45, 0x3d], [0x46, 0x58],
    [0x85, 0x20]⟩

theorem mergeImage_places_board : ∃ partitions full, parsePartitions boardTable.toList = .ok partitions ∧
    mergeImage partitions shortPayloads = .ok full ∧ slice full 0x540000 2 = [0x45, 0x3d] := by
  have hParsed : (parsePartitions boardTable.toList).map (imageNames.map ·) =
      .ok [some ⟨0x10000, 0xc0000⟩, some ⟨0xd0000, 0x70000⟩, some ⟨0x140000, 0x400000⟩,
        some ⟨0x540000, 0x840000⟩, some ⟨0xd80000, 0x200000⟩, some ⟨0xf80000, 0x80000⟩] := by
    decide +kernel
  rcases hParse : parsePartitions boardTable.toList with e | partitions
  · rw [hParse] at hParsed
    cases hParsed
  rw [hParse] at hParsed
  have hValues := Except.ok.inj hParsed
  simp only [imageNames, List.map_cons, List.map_nil, List.cons.injEq, and_true] at hValues
  obtain ⟨hFactory, hEtc, hLinux, hRootfs, hFxwasm, hHome⟩ := hValues
  have hSlots : slots partitions shortPayloads =
      [⟨0, 0x8000, "bootloader.bin".toList, [0xe9, 0x03]⟩,
        ⟨0x8000, 0x1000, "partition-table.bin".toList, [0xaa, 0x50]⟩,
        ⟨0x10000, 0xc0000, "network_adapter.bin".toList, [0xe9, 0x04]⟩,
        ⟨0xd0000, 0x70000, "etc.jffs2".toList, [0x85, 0x19]⟩,
        ⟨0x140000, 0x400000, "xipImage".toList, [0x06, 0x01]⟩,
        ⟨0x540000, 0x840000, "rootfs.cramfs".toList, [0x45, 0x3d]⟩,
        ⟨0xd80000, 0x200000, "fx-core.flash.bin".toList, [0x46, 0x58]⟩,
        ⟨0xf80000, 0x80000, "home.jffs2".toList, [0x85, 0x20]⟩] := by
    simp only [slots, Payloads.images, slotOf, List.filterMap_cons, hFactory, hEtc, hLinux, hRootfs,
      hFxwasm, hHome, Option.map_some, List.filterMap_nil, shortPayloads]
  obtain ⟨hFits, -, hFull⟩ := mergeImage_places hParse shortPayloads
  obtain ⟨full, hMerge⟩ := hFits.mpr (by rw [hSlots]; decide)
  refine ⟨partitions, full, rfl, hMerge, ?_⟩
  exact (hFull full hMerge).2.1 ⟨0x540000, 0x840000, "rootfs.cramfs".toList, [0x45, 0x3d]⟩
    (by rw [hSlots]; simp)

end Esp32Fx.Image
