import Esp32Fx.Runner.ModuleFile

/-! The runs of the module's loader: the runtime gets the whole of the file or the module in the
flash, with nothing left open, keeps it as long as it may use it, and everything is given back
once. -/

namespace Esp32Fx.Runner.ModuleFile

open Lib Program

variable {w s t : World} {build : Build} {path contents : List UInt8} {fd address size : Nat}

/-! ### Reading -/

/-- The blocks during a read: bytes have been put at the start of a block of `size` bytes. -/
def Filling (s : World) (size : Nat) (got : List UInt8) (t : World) : Target → Prop
  | .header => t.blocks = s.blocks
  | .block address => ∃ block, t.blocks = Function.update s.blocks address (some block) ∧
    block.length = size ∧ block.take got.length = got

/-- A read of a file has got so far. -/
structure Reading (s : World) (fd : Nat) (contents : List UInt8) (target : Target) (size : Nat)
    (got : List UInt8) (t : World) : Prop where
  whole : got <+: contents
  bound : got.length ≤ size
  frame : t = { s with handles := t.handles, blocks := t.blocks }
  handles : t.handles = Function.update s.handles fd (some (contents, got.length))
  filling : Filling s size got t target

theorem take_splice {block got bytes : List UInt8} (hGot : block.take got.length = got) :
    (splice block got.length bytes).take (got ++ bytes).length = got ++ bytes := by
  rw [splice, hGot, List.take_left' rfl]

/-- What a read of `size` bytes may fill. -/
def Target.Fits (w : World) (size : Nat) : Target → Prop
  | .header => size ≤ 4
  | .block address => w.blocks address = none

theorem readRound_keeps {target : Target} {got : List UInt8} (hFresh : w.handles fd = none)
    (hTarget : target.Fits w size) (h : Reading s fd contents target size got t) :
    LoaderKeeps w build path (Round (Reading s fd contents target size)
        fun result u => ∃ got, Reading s fd contents target size got u ∧
          ∀ bytes, result = some bytes → bytes = got ∧ got.length = size)
      (readRound fd target size got) t := by
  have hOpened : Opened w t fd := by
    refine ⟨?_, hFresh⟩
    rw [h.handles, Function.update_self]
    exact Option.some_ne_none _
  unfold readRound
  split
  · next hDone =>
    refine ⟨trivial, got, h, fun bytes hBytes => ⟨(Option.some.inj hBytes).symm, ?_⟩⟩
    exact le_antisymm h.bound hDone
  · next hMore =>
    refine keeps_perform_bind trivial ?_ ?_
    · cases target with
      | header =>
        have hFour : size ≤ 4 := hTarget
        exact ⟨hOpened, by omega⟩
      | block address =>
        obtain ⟨blk, hBlocks, hLength, -⟩ := h.filling
        refine ⟨hOpened, hTarget, blk, ?_, ?_⟩
        · rw [hBlocks, Function.update_self]
        · omega
    · rintro (_ | _ | bytes) u hCall
      · obtain rfl : u = t := hCall
        exact ⟨trivial, h⟩
      · obtain rfl : u = t := hCall
        refine ⟨trivial, got, h, ?_⟩
        intro bytes hNone
        cases hNone
      · obtain ⟨file, position, hHandle, hSize, hPrefix, -, rfl⟩ := hCall
        rw [h.handles, Function.update_self] at hHandle
        cases hHandle
        have hWhole : got ++ bytes <+: contents := by
          obtain ⟨rest, hRest⟩ := h.whole
          rw [← hRest, List.drop_left' rfl] at hPrefix
          rw [← hRest]
          exact (List.prefix_append_right_inj got).mpr hPrefix
        have hBound : (got ++ bytes).length ≤ size := by
          rw [List.length_append]
          omega
        have hReading : Reading s fd contents target size (got ++ bytes) { t with
            handles := Function.update t.handles fd (some (contents, got.length + bytes.length))
            blocks := stored t.blocks target got.length bytes } := by
          refine ⟨hWhole, hBound, ?_, ?_, ?_⟩
          · rw [h.frame]
          · dsimp only
            rw [h.handles, Function.update_idem, List.length_append]
          · have hFilling := h.filling
            cases target with
            | header => exact hFilling
            | block address =>
              obtain ⟨blk, hBlocks, hLength, hTake⟩ := hFilling
              have hRoom : got.length + bytes.length ≤ blk.length := by omega
              refine ⟨splice blk got.length bytes, ?_, ?_, take_splice hTake⟩
              · dsimp only [stored]
                rw [hBlocks, Function.update_self, Function.update_idem]
                rfl
              · rw [length_splice hRoom, hLength]
        cases hEmpty : bytes.isEmpty with
        | true =>
          simp only [hEmpty, if_true]
          refine ⟨trivial, got ++ bytes, hReading, ?_⟩
          intro bytes hNone
          cases hNone
        | false =>
          simp only [hEmpty, Bool.false_eq_true, if_false]
          exact ⟨trivial, hReading⟩

/-- What `read_all` comes to. -/
theorem readAll_keeps (rounds : Nat) (target : Target) (hFresh : w.handles fd = none)
    (hTarget : target.Fits w size) (hHandle : s.handles fd = some (contents, 0))
    (hRoom : ∀ address, target = .block address → ∃ blk, s.blocks address = some blk ∧
      blk.length = size) :
    LoaderKeeps w build path (fun result t => ∃ got, Reading s fd contents target size got t ∧
        ∀ bytes, result = some bytes → bytes = got ∧ got.length = size)
      (readAll rounds fd target size) s := by
  have hStart : Reading s fd contents target size [] s := by
    refine ⟨List.nil_prefix, Nat.zero_le _, rfl, ?_, ?_⟩
    · rw [List.length_nil, ← hHandle, Function.update_eq_self]
    · cases target with
      | header => rfl
      | block address =>
        obtain ⟨blk, hHere, hLength⟩ := hRoom address rfl
        exact ⟨blk, by rw [← hHere, Function.update_eq_self], hLength, rfl⟩
  refine keeps_loop (J := fun got t => Reading s fd contents target size got t)
    (fun _ _ h => readRound_keeps hFresh hTarget h) ?_ rounds hStart
  intro got t _
  exact ⟨trivial, trivial, fun _ _ => trivial, fun x => x.elim⟩

/-! ### What the runner has -/

section Amid

variable {image : Option ModuleBytes} {fds blocks maps lost : List Nat}

theorem Amid.start (hNone : w.loaded = none) : Amid w none [] [] [] [] w :=
  ⟨rfl, hNone, .nil _, .nil _, .nil _, fun _ h => absurd h List.not_mem_nil⟩

/-- A descriptor is opened. -/
theorem Amid.opened (h : Amid w image fds blocks maps lost s) (hFree : s.handles fd = none)
    (file : List UInt8 × Nat) : Amid w image (fd :: fds) blocks maps lost
      { s with handles := Function.update s.handles fd (some file) } :=
  ⟨h.files, h.loaded, h.handles.take hFree file, h.blocks, h.maps, h.lost⟩

/-- The position of an open file moves. -/
theorem Amid.moved (h : Amid w image fds blocks maps lost s) (hMine : fd ∈ fds)
    (file : List UInt8 × Nat) : Amid w image fds blocks maps lost
      { s with handles := Function.update s.handles fd (some file) } :=
  ⟨h.files, h.loaded, h.handles.put hMine file, h.blocks, h.maps, h.lost⟩

theorem Amid.closed (h : Amid w image (fd :: fds) blocks maps lost s) : Amid w image fds blocks maps lost
    { s with handles := Function.update s.handles fd none } :=
  ⟨h.files, h.loaded, h.handles.give, h.blocks, h.maps, h.lost⟩

/-- A block is allocated. -/
theorem Amid.allocated (h : Amid w image fds blocks maps lost s) (hFree : s.blocks address = none)
    (block : List UInt8) : Amid w image fds (address :: blocks) maps lost
      { s with blocks := Function.update s.blocks address (some block) } :=
  ⟨h.files, h.loaded, h.handles, h.blocks.take hFree block, h.maps, h.lost⟩

/-- A block is written to. -/
theorem Amid.written (h : Amid w image fds blocks maps lost s) (hMine : address ∈ blocks)
    (block : List UInt8) : Amid w image fds blocks maps lost
      { s with blocks := Function.update s.blocks address (some block) } :=
  ⟨h.files, h.loaded, h.handles, h.blocks.put hMine block, h.maps, h.lost⟩

theorem Amid.freed (h : Amid w image fds (address :: blocks) maps lost s) : Amid w image fds blocks maps lost
    { s with blocks := Function.update s.blocks address none } :=
  ⟨h.files, h.loaded, h.handles, h.blocks.give, h.maps, h.lost⟩

/-- A file is mapped. -/
theorem Amid.mapped (h : Amid w image fds blocks maps lost s) (hFree : s.maps address = none)
    (bytes : List UInt8) : Amid w image fds blocks (address :: maps) lost
      { s with maps := Function.update s.maps address (some bytes) } :=
  ⟨h.files, h.loaded, h.handles, h.blocks, h.maps.take hFree bytes, h.lost⟩

theorem Amid.unmapped (h : Amid w image fds blocks (address :: maps) lost s) :
    Amid w image fds blocks maps lost { s with maps := Function.update s.maps address none } :=
  ⟨h.files, h.loaded, h.handles, h.blocks, h.maps.give, h.lost⟩

/-- A mapping that could not be unmapped is lost. -/
theorem Amid.refused (h : Amid w image fds blocks [address] lost s) : Amid w image fds blocks [] (address :: lost)
    { s with failures := s.failures ++ [.unmap address size] } := by
  refine ⟨h.files, h.loaded, h.handles, h.blocks, h.maps, ?_⟩
  intro other hOther
  rcases List.mem_cons.mp hOther with rfl | hBefore
  · exact ⟨size, List.mem_append_right _ (List.mem_singleton_self _)⟩
  · obtain ⟨n, hFailed⟩ := h.lost other hBefore
    exact ⟨n, List.mem_append_left _ hFailed⟩

/-- While the runtime has no image, everything may go. -/
theorem Amid.releases (h : Amid w none fds blocks maps lost s) : Released s address := by
  intro image hImage
  rw [h.loaded] at hImage
  cases hImage

theorem Amid.owns (h : Amid w image (fd :: fds) blocks maps lost s) : Opened w s fd :=
  ⟨h.handles.held fd List.mem_cons_self, h.handles.fresh fd List.mem_cons_self⟩

end Amid

/-! ### Loading -/

variable {lost : List Nat} {x : Bool × ModuleBytes}

/-- How `load_module_bytes` ends. -/
inductive Loaded (w : World) (build : Build) (path : List UInt8) : Bool × ModuleBytes → World → Prop
  | failed {t : World} {lost : List Nat} (hAmid : Amid w none [] [] [] lost t) :
    Loaded w build path (false, .zero) t
  | flash {module : ModuleBytes} {t : World} (hAmid : Amid w none [] [] [] [] t)
    (hFlash : loadFlash build path = (0, module)) (hMapped : module.mapped = false)
    (hOwned : module.owned = false) : Loaded w build path (true, module) t
  | mapped {module : ModuleBytes} {t : World} {lost : List Nat} {contents : List UInt8}
    (hAmid : Amid w none [] [] [module.data] lost t) (hFile : w.files path = some contents)
    (hPos : contents ≠ []) (hSize : module.size.toNat = contents.length)
    (hHeld : Mapped w build contents module t) : Loaded w build path (true, module) t
  | owned {module : ModuleBytes} {t : World} {lost : List Nat} {contents : List UInt8}
    (hAmid : Amid w none [] [module.data] [] lost t) (hFile : w.files path = some contents)
    (hPos : contents ≠ []) (hSize : module.size.toNat = contents.length)
    (hHeld : Owned w contents module t) : Loaded w build path (true, module) t

theorem failed_keeps (h : Amid w none [fd] [] [] lost s) :
    LoaderKeeps w build path (Loaded w build path) (failed fd) s := by
  refine keeps_perform_bind trivial h.owns ?_
  rintro _ t hCall
  obtain rfl : t = { s with handles := Function.update s.handles fd none } := hCall
  exact ⟨trivial, .failed h.closed⟩

/-- A file that is open at its start. -/
structure AtStart (w : World) (path contents : List UInt8) (fd : Nat) (lost : List Nat) (s : World) :
    Prop where
  amid : Amid w none [fd] [] [] lost s
  handle : s.handles fd = some (contents, 0)
  file : w.files path = some contents
  pos : contents ≠ []
  small : contents.length < 2 ^ 32

theorem AtStart.length (h : AtStart w path contents fd lost s) :
    (UInt32.ofNat contents.length).toNat = contents.length := UInt32.toNat_ofNat_of_lt' h.small

theorem loadRaw_keeps (rounds : Nat) (h : AtStart w path contents fd lost s) :
    LoaderKeeps w build path (Loaded w build path) (loadRaw rounds build fd contents.length) s := by
  unfold loadRaw
  cases hReadonly : build.readonly with
  | true =>
    simp only [if_true]
    refine keeps_perform_bind trivial h.amid.owns ?_
    rintro (_ | address) t hCall
    · obtain rfl : t = s := hCall
      exact failed_keeps h.amid
    · obtain ⟨file, position, hHandle, hFree, rfl⟩ := hCall
      rw [h.handle] at hHandle
      cases hHandle
      rw [List.take_length]
      have hMapped := h.amid.mapped hFree contents
      refine keeps_perform_bind trivial hMapped.owns ?_
      rintro _ u hClose
      obtain rfl := hClose
      refine ⟨trivial, .mapped hMapped.closed h.file h.pos h.length ⟨⟨rfl, rfl, rfl⟩, ?_, ?_, ?_, ?_⟩⟩
      · exact fun hFalse => Bool.noConfusion hFalse
      · exact fun _ => hReadonly
      · exact Function.update_self ..
      · exact hMapped.maps.fresh address List.mem_cons_self
  | false =>
    simp only [Bool.false_eq_true, if_false]
    refine keeps_perform_bind trivial trivial ?_
    rintro (_ | address) t hCall
    · obtain rfl : t = s := hCall
      exact failed_keeps h.amid
    · obtain ⟨hFree, block, hLength, rfl⟩ := hCall
      have hBlock := h.amid.allocated hFree block
      have hNew : w.blocks address = none := hBlock.blocks.fresh address List.mem_cons_self
      apply keeps_bind
      refine keeps_mono (readAll_keeps rounds (.block address) h.amid.owns.2 hNew h.handle
        ?_) ?_
      · rintro other hOther
        cases hOther
        exact ⟨block, Function.update_self .., hLength⟩
      rintro result u - ⟨got, hReading, hResult⟩
      obtain ⟨blk, hBlocks, hFull, hTake⟩ := hReading.filling
      have hAmid : Amid w none [fd] [address] [] lost u := by
        have hMoved := (hBlock.moved List.mem_cons_self (contents, got.length)).written
          List.mem_cons_self blk
        rw [hReading.frame, hReading.handles, hBlocks]
        exact hMoved
      cases result with
      | none =>
        refine keeps_perform_bind trivial ⟨hAmid.blocks.held address List.mem_cons_self, hNew,
          hAmid.releases⟩ ?_
        rintro _ v hCall
        obtain rfl : v = { u with blocks := Function.update u.blocks address none } := hCall
        exact failed_keeps hAmid.freed
      | some bytes =>
        obtain ⟨-, hWhole⟩ := hResult bytes rfl
        have hGot : got = contents := List.IsPrefix.eq_of_length hReading.whole hWhole
        have hContents : blk = contents := by
          rw [← hGot, ← hTake, hWhole, ← hFull, List.take_length]
        refine keeps_perform_bind trivial hAmid.owns ?_
        rintro _ v hCall
        obtain rfl : v = { u with handles := Function.update u.handles fd none } := hCall
        refine ⟨trivial, .owned hAmid.closed h.file h.pos h.length
          ⟨⟨rfl, rfl, rfl, rfl⟩, ?_, hNew⟩⟩
        dsimp only
        rw [hBlocks, Function.update_self, hContents]

theorem loadOpened_keeps (rounds : Nat) (h : AtStart w path contents fd lost s) :
    LoaderKeeps w build path (Loaded w build path)
      (loadOpened rounds build fd contents.length (contents.take 4)) s := by
  unfold loadOpened
  cases hAot : isAotHeader (contents.take 4) && build.aot with
  | false =>
    simp only [Bool.false_eq_true, if_false]
    exact loadRaw_keeps rounds h
  | true =>
    rw [Bool.and_eq_true] at hAot
    simp only [if_true]
    refine keeps_perform_bind trivial h.amid.owns ?_
    rintro (_ | address) t hCall
    · obtain rfl : t = s := hCall
      exact loadRaw_keeps rounds h
    · obtain ⟨file, position, hHandle, hFree, rfl⟩ := hCall
      rw [h.handle] at hHandle
      cases hHandle
      rw [List.take_length]
      have hMapped := h.amid.mapped hFree contents
      have hNew : w.maps address = none := hMapped.maps.fresh address List.mem_cons_self
      have hMaps : MapsFile w { s with maps := Function.update s.maps address (some contents) }
          address contents.length := ⟨⟨contents, Function.update_self .., rfl⟩, hNew⟩
      refine keeps_perform_bind trivial hMaps ?_
      rintro (_ | _) u hCall
      · obtain rfl := hCall
        refine keeps_perform_bind trivial ⟨hMaps, hMapped.releases⟩ ?_
        rintro (_ | _) v hCall
        · obtain rfl := hCall
          exact loadRaw_keeps rounds ⟨hMapped.refused, h.handle, h.file, h.pos, h.small⟩
        · obtain rfl := hCall
          exact loadRaw_keeps rounds ⟨hMapped.unmapped, h.handle, h.file, h.pos, h.small⟩
      · obtain rfl := hCall
        refine keeps_perform_bind trivial hMapped.owns ?_
        rintro _ v hCall
        obtain rfl := hCall
        refine ⟨trivial, .mapped hMapped.closed h.file h.pos h.length
          ⟨⟨rfl, rfl, rfl⟩, ?_, ?_, ?_, hNew⟩⟩
        · exact fun _ => ⟨hAot.2, hAot.1⟩
        · exact fun hFalse => Bool.noConfusion hFalse
        · exact Function.update_self ..

theorem loadFile_keeps (rounds : Nat) (hNone : w.loaded = none) :
    LoaderKeeps w build path (Loaded w build path) (loadFile rounds build path) w := by
  have hNothing := Amid.start hNone
  refine keeps_perform_bind trivial trivial ?_
  rintro (_ | fd) t hCall
  · obtain rfl : t = w := hCall
    exact ⟨trivial, .failed hNothing⟩
  obtain ⟨contents, hFile, hFree, rfl⟩ := hCall
  have hOpened := hNothing.opened hFree (contents, 0)
  refine keeps_perform_bind trivial hOpened.owns ?_
  rintro (_ | size) u hCall
  · obtain rfl := hCall
    exact failed_keeps hOpened
  obtain ⟨rfl, file, position, hHandle, rfl⟩ := hCall
  dsimp only at hHandle
  rw [Function.update_self] at hHandle
  cases hHandle
  dsimp only
  split
  · exact failed_keeps hOpened
  · next hBounds =>
    rw [not_or] at hBounds
    apply keeps_bind
    refine keeps_mono (readAll_keeps rounds .header hOpened.owns.2 (le_refl 4)
      (Function.update_self ..) nofun) ?_
    rintro result v - ⟨got, hReading, hResult⟩
    have hBlocks : v.blocks = w.blocks := hReading.filling
    have hAmid : Amid w none [fd] [] [] [] v := by
      rw [hReading.frame, hReading.handles, hBlocks]
      exact hOpened.moved List.mem_cons_self (contents, got.length)
    cases result with
    | none => exact failed_keeps hAmid
    | some header =>
      obtain ⟨rfl, hFour⟩ := hResult header rfl
      have hHeader : header = contents.take 4 := by
        rw [← hFour]
        exact List.prefix_iff_eq_take.mp hReading.whole
      refine keeps_perform_bind trivial hAmid.owns ?_
      rintro (_ | _) u hCall
      · obtain rfl : u = v := hCall
        exact failed_keeps hAmid
      · obtain ⟨file, position, hHandle, rfl⟩ := hCall
        rw [hReading.handles, Function.update_self] at hHandle
        cases hHandle
        rw [hHeader]
        refine loadOpened_keeps rounds ⟨hAmid.moved List.mem_cons_self (contents, 0),
          Function.update_self .., hFile, ?_, Nat.lt_of_not_le hBounds.2⟩
        exact fun hEmpty => hBounds.1 (by rw [hEmpty]; rfl)

theorem loadFlash_cases (build : Build) (path : List UInt8) :
    (loadFlash build path).1 = 1 ∨ loadFlash build path = (-1, .zero) ∨
      ∃ module, loadFlash build path = (0, module) ∧ module.mapped = false ∧
        module.owned = false := by
  unfold loadFlash
  cases build.flash with
  | none => exact .inl rfl
  | some memory =>
    have hEnd := loadBuiltinFlashModule_end memory path .zero
    dsimp only
    generalize loadBuiltinFlashModule memory path .zero = result at hEnd ⊢
    cases hEnd with
    | other => exact .inl rfl
    | invalid => exact .inr (.inl rfl)
    | loaded => exact .inr (.inr ⟨_, rfl, rfl, rfl⟩)

theorem loadModuleBytes_keeps (rounds : Nat) (hNone : w.loaded = none) :
    LoaderKeeps w build path (Loaded w build path) (loadModuleBytes rounds build path) w := by
  unfold loadModuleBytes
  rcases loadFlash_cases build path with hOther | hInvalid | ⟨module, hFlash, hMapped, hOwned⟩
  · rw [if_neg (by rw [hOther]; decide)]
    exact loadFile_keeps rounds hNone
  · rw [hInvalid, if_pos (by decide)]
    exact ⟨trivial, .failed (.start hNone)⟩
  · rw [hFlash, if_pos (le_refl (0 : Int))]
    exact ⟨trivial, .flash (.start hNone) hFlash hMapped hOwned⟩

/-! ### Unloading -/

/-- What there is to give back, while the runtime has an image. -/
inductive Has (w : World) (path : List UInt8) (image : Option ModuleBytes) (module : ModuleBytes)
    (s : World) : Prop
  | nothing (lost : List Nat) (hAmid : Amid w image [] [] [] lost s)
    (hMapped : module.mapped = false) (hOwned : module.owned = false)
  | mapping (lost : List Nat) (hAmid : Amid w image [] [] [module.data] lost s)
    (hMapped : module.mapped = true) (contents : List UInt8)
    (hFile : w.files path = some contents) (hHere : s.maps module.data = some contents)
    (hSize : contents.length = module.size.toNat) (hOwned : module.owned = false)
  | block (lost : List Nat) (hAmid : Amid w image [] [module.data] [] lost s)
    (hMapped : module.mapped = false) (hOwned : module.owned = true)

variable {image : Option ModuleBytes} {module : ModuleBytes}

theorem Has.closed (h : Has w path image module s) : s.handles = w.handles := by
  cases h with
  | nothing _ hAmid => exact hAmid.handles.eq
  | mapping _ hAmid => exact hAmid.handles.eq
  | block _ hAmid => exact hAmid.handles.eq

theorem Has.loaded (h : Has w path image module s) : s.loaded = image := by
  cases h with
  | nothing _ hAmid => exact hAmid.loaded
  | mapping _ hAmid => exact hAmid.loaded
  | block _ hAmid => exact hAmid.loaded

theorem Has.kept (h : Has w path image module s) : Kept w path module s := by
  cases h with
  | nothing _ _ hMapped hOwned =>
    refine ⟨fun hTrue => ?_, fun _ hTrue => ?_⟩
    · rw [hMapped] at hTrue
      cases hTrue
    · rw [hOwned] at hTrue
      cases hTrue
  | mapping lost hAmid hMapped contents hFile hHere =>
    refine ⟨fun _ => ⟨hAmid.maps.fresh _ List.mem_cons_self, contents, hFile, hHere⟩,
      fun hFalse => ?_⟩
    rw [hMapped] at hFalse
    cases hFalse
  | block _ hAmid hMapped =>
    refine ⟨fun hTrue => ?_, fun _ _ => ?_⟩
    · rw [hMapped] at hTrue
      cases hTrue
    · exact ⟨hAmid.blocks.fresh _ List.mem_cons_self, hAmid.blocks.held _ List.mem_cons_self⟩

/-- What the runner has does not depend on what the runtime says. -/
theorem Has.answered (h : Has w path image module s) (answer : Option Bool) :
    Has w path image module { s with freeable := answer } := by
  cases h with
  | nothing lost hAmid hMapped hOwned =>
    exact .nothing lost { hAmid with } hMapped hOwned
  | mapping lost hAmid hMapped contents hFile hHere hSize hOwned =>
    exact .mapping lost { hAmid with } hMapped contents hFile hHere hSize hOwned
  | block lost hAmid hMapped hOwned =>
    exact .block lost { hAmid with } hMapped hOwned

/-- The runtime takes an image, or gives it up. -/
theorem Has.imaged (h : Has w path image module s) (image' : Option ModuleBytes) :
    Has w path image' module { s with loaded := image' } := by
  cases h with
  | nothing lost hAmid hMapped hOwned =>
    exact .nothing lost { hAmid with loaded := rfl } hMapped hOwned
  | mapping lost hAmid hMapped contents hFile hHere hSize hOwned =>
    exact .mapping lost { hAmid with loaded := rfl } hMapped contents hFile hHere hSize hOwned
  | block lost hAmid hMapped hOwned =>
    exact .block lost { hAmid with loaded := rfl } hMapped hOwned

/-- Nothing is left but what the system has refused to take. -/
def Cleared (w : World) (image : Option ModuleBytes) (t : World) : Prop :=
  ∃ lost, Amid w image [] [] [] lost t

/-- A module is given back once it may go. -/
theorem unloadModuleBytes_keeps (h : Has w path image module s)
    (hMay : Released s module.data) :
    LoaderKeeps w build path
      (fun module' t => module' = .zero ∧ Cleared w image t ∧ t.freeable = s.freeable)
      (unloadModuleBytes module) s := by
  unfold unloadModuleBytes
  cases h with
  | nothing lost hAmid hMapped hOwned =>
    rw [hMapped, hOwned]
    exact ⟨trivial, rfl, ⟨lost, hAmid⟩, rfl⟩
  | mapping lost hAmid hMapped contents hFile hHere hSize =>
    rw [hMapped]
    have hNew : w.maps module.data = none := hAmid.maps.fresh _ List.mem_cons_self
    refine keeps_perform_bind trivial ⟨⟨⟨contents, hHere, hSize⟩, hNew⟩, hMay⟩ ?_
    rintro (_ | _) t hCall
    · obtain rfl := hCall
      exact ⟨trivial, rfl, ⟨_, hAmid.refused⟩, rfl⟩
    · obtain rfl := hCall
      exact ⟨trivial, rfl, ⟨_, hAmid.unmapped⟩, rfl⟩
  | block lost hAmid hMapped hOwned =>
    rw [hMapped, hOwned]
    refine keeps_perform_bind trivial ⟨hAmid.blocks.held _ List.mem_cons_self,
      hAmid.blocks.fresh _ List.mem_cons_self, hMay⟩ ?_
    rintro _ t hCall
    obtain rfl : t = { s with blocks := Function.update s.blocks module.data none } := hCall
    exact ⟨trivial, rfl, ⟨_, hAmid.freed⟩, rfl⟩

theorem Cleared.has (h : Cleared w image t) : Has w path image .zero t := by
  obtain ⟨lost, hAmid⟩ := h
  exact .nothing lost hAmid rfl rfl

/-- Once the runtime has no image, what the runner has may go. -/
theorem Has.releases (h : Has w path none module s) : Released s address := by
  intro image hImage
  rw [h.loaded] at hImage
  cases hImage

theorem Loaded.has (h : Loaded w build path (true, module) s) : Has w path none module s := by
  cases h with
  | flash hAmid _ hMapped hOwned => exact .nothing [] hAmid hMapped hOwned
  | mapped hAmid hFile _ hSize hHeld =>
    obtain ⟨hMapped, hOwned, -⟩ := hHeld.flags
    exact .mapping _ hAmid hMapped _ hFile hHeld.here hSize.symm hOwned
  | owned hAmid _ _ _ hHeld =>
    obtain ⟨hMapped, hOwned, -⟩ := hHeld.flags
    exact .block _ hAmid hMapped hOwned

theorem Has.worked {blocks : Nat → Option (List UInt8)} (h : Has w path image module s)
    (hWorked : Worked module s.blocks blocks) :
    Has w path image module { s with blocks := blocks } := by
  unfold Worked at hWorked
  cases h with
  | nothing lost hAmid hMapped hOwned =>
    rw [hOwned] at hWorked
    obtain rfl : blocks = s.blocks := hWorked
    exact .nothing lost hAmid hMapped hOwned
  | mapping lost hAmid hMapped contents hFile hHere hSize hOwned =>
    rw [hOwned] at hWorked
    obtain rfl : blocks = s.blocks := hWorked
    exact .mapping lost hAmid hMapped contents hFile hHere hSize hOwned
  | block lost hAmid hMapped hOwned =>
    rw [hOwned] at hWorked
    obtain ⟨block, rfl⟩ : ∃ block, blocks = Function.update s.blocks module.data (some block) :=
      hWorked
    exact .block lost (hAmid.written List.mem_cons_self block) hMapped hOwned

theorem Loaded.given (h : Loaded w build path (true, module) s) :
    Given w build path module s ∧ s.handles = w.handles := by
  cases h with
  | flash hAmid hFlash => exact ⟨.flash hFlash, hAmid.handles.eq⟩
  | mapped hAmid hFile hPos hSize hHeld =>
    exact ⟨.file _ hFile hPos hSize (.inl hHeld), hAmid.handles.eq⟩
  | owned hAmid hFile hPos hSize hHeld =>
    exact ⟨.file _ hFile hPos hSize (.inr hHeld), hAmid.handles.eq⟩

/-- The image of the runtime stays, or the runtime has cloned it. -/
theorem releaseImage_keeps (h : Has w path (some module) module s) :
    LoaderKeeps w build path
      (fun module' t => Has w path (some module) module' t ∧ (module' = module ∨ Cloned module t))
      (releaseImage module) s := by
  unfold releaseImage
  cases hPlace : module.raw || module.xip with
  | true =>
    rw [if_pos rfl]
    exact ⟨trivial, h, .inl rfl⟩
  | false =>
    rw [if_neg Bool.false_ne_true]
    obtain ⟨hRaw, hXip⟩ := Bool.or_eq_false_iff.mp hPlace
    refine keeps_perform_bind trivial trivial ?_
    rintro (_ | _) t hCall
    · obtain rfl : t = { s with freeable := some false } := hCall
      exact ⟨trivial, h.answered _, .inl rfl⟩
    · obtain rfl : t = { s with freeable := some true } := hCall
      have hMay : Released { s with freeable := some true } module.data := by
        intro image hImage _
        obtain rfl : module = image := Option.some.inj (h.loaded.symm.trans hImage)
        exact ⟨rfl, hRaw, hXip⟩
      refine keeps_mono (unloadModuleBytes_keeps (h.answered _) hMay) ?_
      rintro module' u - ⟨rfl, hCleared, hSaid⟩
      exact ⟨hCleared.has, .inr ⟨hSaid, hRaw, hXip⟩⟩

theorem runModule_keeps (rounds : Nat) (build : Build) (path : List UInt8)
    (hNone : w.loaded = none) :
    LoaderKeeps w build path (fun _ t => Cleared w none t) (runModule rounds build path) w := by
  have hUnload : ∀ {s : World} {module : ModuleBytes} (result : Bool), Has w path none module s →
      LoaderKeeps w build path (fun _ t => Cleared w none t)
        (unloadModuleBytes module >>= fun _ => pure result) s := by
    intro s module result hHas
    apply keeps_bind
    refine keeps_mono (unloadModuleBytes_keeps hHas hHas.releases) ?_
    rintro module' t - ⟨-, hCleared, -⟩
    exact ⟨trivial, hCleared⟩
  apply keeps_bind
  refine keeps_mono (loadModuleBytes_keeps rounds hNone) ?_
  rintro ⟨ok, module⟩ s - hLoaded
  cases ok with
  | false =>
    cases hLoaded with
    | failed hAmid => exact hUnload false (Cleared.has ⟨_, hAmid⟩)
  | true =>
    refine keeps_perform_bind trivial trivial ?_
    rintro (_ | _) s' hStart
    · obtain rfl : s' = s := hStart
      exact hUnload false hLoaded.has
    · obtain rfl : s' = s := hStart
      refine keeps_perform_bind trivial hLoaded.given ?_
      rintro (_ | _) t hCall
      · obtain ⟨blocks, hWorked, rfl⟩ := hCall
        exact hUnload false (hLoaded.has.worked hWorked)
      · obtain ⟨blocks, hWorked, rfl⟩ := hCall
        apply keeps_bind
        refine keeps_mono (releaseImage_keeps ((hLoaded.has.worked hWorked).imaged _)) ?_
        rintro module' u _ ⟨hHas, hImage⟩
        have hThere : Kept w path module u ∨ Cloned module u := by
          rcases hImage with rfl | hCloned
          · exact .inl hHas.kept
          · exact .inr hCloned
        refine keeps_perform_bind trivial ⟨⟨module, hHas.loaded, hThere⟩, hHas.closed⟩ ?_
        rintro _ v hRun
        obtain rfl : v = { u with loaded := none } := hRun
        exact hUnload true (hHas.imaged none)

/-- In every run, the runtime is given the module of the flash or the whole file, with nothing left
open; its image stays until its end, unless it says that it has cloned it; every call works on what
the runner has; and at the end all is given back but what the system has refused to take. -/
theorem runModule_lends (rounds : Nat) (build : Build) (path : List UInt8)
    (hNone : w.loaded = none) :
    (∀ call s, Reaches host w (runModule rounds build path) call s → Proper w build path call s) ∧
    ∀ ok t, Runs host w (runModule rounds build path) ok t →
      t.handles = w.handles ∧ t.blocks = w.blocks ∧
      ∀ address, t.maps address ≠ w.maps address → Refused t address := by
  refine ⟨fun _ _ h => h.keeps (runModule_keeps rounds build path hNone), fun ok t h => ?_⟩
  obtain ⟨lost, hAmid⟩ := (h.keeps (runModule_keeps rounds build path hNone)).2
  refine ⟨hAmid.handles.eq, hAmid.blocks.eq, fun address hChanged => ?_⟩
  apply hAmid.lost
  by_contra hElsewhere
  exact hChanged (hAmid.maps.rest address hElsewhere)

section Sample

/-- A file can be read at once. -/
theorem readAll_runs {target : Target} (hHandle : s.handles fd = some (contents, 0))
    (hPos : 0 < size) (hEnough : size ≤ contents.length) :
    Runs host s (readAll 2 fd target size) (some (contents.take size)) { s with
      handles := Function.update s.handles fd (some (contents, 0 + (contents.take size).length))
      blocks := stored s.blocks target 0 (contents.take size) } := by
  have hLength : (contents.take size).length = size := List.length_take_of_le hEnough
  have hSome : (contents.take size).isEmpty = false := by
    rw [List.isEmpty_eq_false_iff_exists_mem]
    exact List.exists_mem_of_length_pos (by omega)
  have hRead : host s (.read fd target 0 size)
      (.returns (contents.take size)) { s with
        handles := Function.update s.handles fd (some (contents, 0 + (contents.take size).length))
        blocks := stored s.blocks target 0 (contents.take size) } := by
    refine ⟨contents, 0, hHandle, hLength.le, ?_, fun hEmpty => ?_, rfl⟩
    · rw [List.drop_zero]
      exact List.take_prefix size contents
    · rw [hEmpty] at hSome
      cases hSome
  have hFirst : Runs host s (readRound fd target size []) (.inl (contents.take size)) { s with
      handles := Function.update s.handles fd (some (contents, 0 + (contents.take size).length))
      blocks := stored s.blocks target 0 (contents.take size) } := by
    unfold readRound
    rw [if_neg (by simp only [List.length_nil]; omega)]
    refine runs_perform_bind hRead ?_
    simp only [hSome, Bool.false_eq_true, if_false]
    exact .ret _ _
  refine runs_loop_next hFirst (runs_loop_end ?_)
  unfold readRound
  rw [if_pos hLength.ge]
  exact .ret _ _

/-- A host with one module. -/
def sampleWorld : World :=
  ⟨fun path => if path = ascii "/m" then some emptyWasm else none, fun _ => none, fun _ => none,
    fun _ => none, none, none, []⟩

def sampleBuild : Build := ⟨none, false, false⟩

/-- The module in a block. -/
def sampleModule : ModuleBytes := ⟨0x1000, 8, false, true, false, false⟩

theorem loadRaw_runs (hHandle : s.handles 3 = some (emptyWasm, 0)) (hFree : s.blocks 0x1000 = none) :
    ∃ t, Runs host s (loadRaw 2 sampleBuild 3 8) (true, sampleModule) t := by
  have hMalloc : host s (.malloc 8) (some 0x1000) { s with
      blocks := Function.update s.blocks 0x1000 (some (List.replicate 8 0)) } :=
    ⟨hFree, List.replicate 8 0, rfl, rfl⟩
  have hRead : Runs host { s with
      blocks := Function.update s.blocks 0x1000 (some (List.replicate 8 0)) }
      (readAll 2 3 (.block 0x1000) 8) (some (emptyWasm.take 8)) _ :=
    readAll_runs hHandle (by decide) (by decide)
  have hClose : ∀ u : World, host u (.close 3) ()
      { u with handles := Function.update u.handles 3 none } := fun _ => rfl
  exact ⟨_, runs_perform_bind hMalloc (hRead.bind (runs_perform_bind (hClose _) (.ret _ _)))⟩

theorem loadModuleBytes_runs : ∃ t, Runs host sampleWorld
    (loadModuleBytes 2 sampleBuild (ascii "/m")) (true, sampleModule) t := by
  have hFile : sampleWorld.files (ascii "/m") = some emptyWasm := by
    show (if ascii "/m" = ascii "/m" then some emptyWasm else none) = some emptyWasm
    exact if_pos rfl
  have hOpen : host sampleWorld (.openFile (ascii "/m")) (some 3) { sampleWorld with
      handles := Function.update sampleWorld.handles 3 (some (emptyWasm, 0)) } :=
    ⟨emptyWasm, hFile, rfl, rfl⟩
  have hStat : host { sampleWorld with
      handles := Function.update sampleWorld.handles 3 (some (emptyWasm, 0)) } (.fstat 3) (some 8)
      { sampleWorld with
        handles := Function.update sampleWorld.handles 3 (some (emptyWasm, 0)) } :=
    ⟨rfl, emptyWasm, 0, rfl, rfl⟩
  have hHeader : Runs host { sampleWorld with
      handles := Function.update sampleWorld.handles 3 (some (emptyWasm, 0)) }
      (readAll 2 3 .header 4) (some (emptyWasm.take 4)) _ :=
    readAll_runs rfl (by decide) (by decide)
  have hRewind : ∀ u : World, (∃ position, u.handles 3 = some (emptyWasm, position)) →
      host u (.rewind 3) true
        { u with handles := Function.update u.handles 3 (some (emptyWasm, 0)) } := by
    rintro u ⟨position, hHandle⟩
    exact ⟨emptyWasm, position, hHandle, rfl⟩
  obtain ⟨t, hRaw⟩ := loadRaw_runs (s := { sampleWorld with
    handles := Function.update (Function.update (Function.update sampleWorld.handles 3
      (some (emptyWasm, 0))) 3 (some (emptyWasm, 0 + (emptyWasm.take 4).length))) 3
      (some (emptyWasm, 0)) }) rfl rfl
  exact ⟨t, runs_perform_bind hOpen (runs_perform_bind hStat (hHeader.bind
    (runs_perform_bind (hRewind _ ⟨_, rfl⟩) hRaw)))⟩

/-- The world once the runtime has loaded the module, and has worked in the block. -/
def loadedWorld (s : World) : World :=
  { s with
    blocks := Function.update s.blocks 0x1000 (some [])
    loaded := some sampleModule }

theorem load_runs (s : World) : host s (.load sampleModule) true (loadedWorld s) :=
  ⟨_, ⟨[], rfl⟩, rfl⟩

/-- A module is loaded from a file, stays while it may be used, and is given back once the runtime
has cloned it. -/
theorem runModule_lends_sample :
    (∃ s, Reaches host sampleWorld (runModule 2 sampleBuild (ascii "/m")) (.load sampleModule) s ∧
      Given sampleWorld sampleBuild (ascii "/m") sampleModule s) ∧
    (∃ s, Reaches host sampleWorld (runModule 2 sampleBuild (ascii "/m")) .run s ∧
      Kept sampleWorld (ascii "/m") sampleModule s) ∧
    ∃ t, Runs host sampleWorld (runModule 2 sampleBuild (ascii "/m")) true t ∧
      t.blocks = sampleWorld.blocks := by
  obtain ⟨hCalls, hEnd⟩ := runModule_lends 2 sampleBuild (ascii "/m") (w := sampleWorld) rfl
  obtain ⟨s, hLoaded⟩ := loadModuleBytes_runs
  have hStart : host s .startRuntime true s := rfl
  have hFreeable : ∀ (u : World) answer, host u .isFreeable answer { u with freeable := some answer } :=
    fun _ _ => rfl
  refine ⟨?_, ?_, ?_⟩
  · have hReaches : Reaches host sampleWorld (runModule 2 sampleBuild (ascii "/m"))
        (.load sampleModule) s := reaches_second hLoaded (.after true hStart (.here ..))
    exact ⟨s, hReaches, (hCalls _ _ hReaches).1⟩
  · have hRelease : Runs host (loadedWorld s) (releaseImage sampleModule) sampleModule
        { loadedWorld s with freeable := some false } :=
      runs_perform_bind (hFreeable _ false) (.ret _ _)
    have hRest : Reaches host (loadedWorld s) (releaseImage sampleModule >>= fun module =>
        run >>= fun _ => unloadModuleBytes module >>= fun _ => pure true) .run
        { loadedWorld s with freeable := some false } := reaches_second hRelease (.here ..)
    have hReaches : Reaches host sampleWorld (runModule 2 sampleBuild (ascii "/m")) .run
        { loadedWorld s with freeable := some false } :=
      reaches_second hLoaded (.after true hStart (.after true (load_runs s) hRest))
    obtain ⟨⟨image, hImage, hThere⟩, -⟩ := hCalls _ _ hReaches
    obtain rfl : sampleModule = image := Option.some.inj hImage
    refine ⟨_, hReaches, hThere.resolve_right fun hCloned => ?_⟩
    cases hCloned.answer
  · have hFree : ∀ u : World, host u (.free 0x1000) ()
        { u with blocks := Function.update u.blocks 0x1000 none } := fun _ => rfl
    have hRun : ∀ u : World, host u .run () { u with loaded := none } := fun _ => rfl
    have hRelease : Runs host (loadedWorld s) (releaseImage sampleModule) .zero _ :=
      runs_perform_bind (hFreeable _ true) (runs_perform_bind (hFree _) (.ret _ _))
    have hUnload : ∀ u : World, Runs host u (unloadModuleBytes .zero) .zero u := fun u => .ret _ _
    have hWhole : ∃ t, Runs host sampleWorld (runModule 2 sampleBuild (ascii "/m")) true t :=
      ⟨_, hLoaded.bind (runs_perform_bind hStart (runs_perform_bind (load_runs s)
        (hRelease.bind (runs_perform_bind (hRun _) ((hUnload _).bind (.ret _ _))))))⟩
    obtain ⟨t, hRuns⟩ := hWhole
    exact ⟨t, hRuns, (hEnd true t hRuns).2.1⟩

end Sample

end Esp32Fx.Runner.ModuleFile
