import Esp32Fx.Image.FlashPayload
import Esp32Fx.Lib.Memory

/-! The fx module in the data-mapped flash: `load_builtin_flash_module` of
`runtime/fx_wamr_runner.c`, against the partition that `tools/package.py` writes. -/

namespace Esp32Fx.Runner

open Lib Image

/-- `FX_WAMR_FLASH_MODULE_ADDRESS`. -/
def flashModuleAddress : Nat := 0x3cd80000

/-- `FX_WAMR_FLASH_PARTITION_BYTES`. -/
def flashPartitionBytes : UInt32 := 0x200000

/-- `FX_FLASH_HEADER_MAGIC`. -/
def flashHeaderMagic : UInt32 := 0x4d575846

/-- `FX_FLASH_HEADER_VERSION`. -/
def flashHeaderVersion : UInt32 := 1

/-- `FX_FLASH_HEADER_BYTES`. -/
def flashHeaderBytes : UInt32 := 64

/-- `WASM_BINARY_MAGIC`. -/
def wasmBinaryMagic : UInt32 := 0x6d736100

/-- `DEFAULT_FX_MODULE`. -/
def defaultFxModule : List UInt8 := ascii "/usr/share/fx/fx-core.wasm"

/-- `struct module_bytes`, with an address for `data`. -/
structure ModuleBytes where
  data : Nat
  size : UInt32
  mapped : Bool
  owned : Bool
  xip : Bool
  raw : Bool
  deriving DecidableEq, Repr

/-- A module that `memset` has cleared. -/
def ModuleBytes.zero : ModuleBytes := ⟨0, 0, false, false, false, false⟩

/-- The `uint32_t` at an address. -/
def word (m : Memory) (a : Nat) : UInt32 := UInt32.ofNat (ofLe (m.load a 4))

/-- `load_builtin_flash_module`: its result, and the module. -/
def loadBuiltinFlashModule (m : Memory) (path : List UInt8) (module : ModuleBytes) :
    Int × ModuleBytes :=
  if strEq path defaultFxModule = false then (1, module)
  else
    let header := flashModuleAddress
    let headerBytes := word m (header + 8)
    let wasmBytes := word m (header + 12)
    if word m header ≠ flashHeaderMagic ∨ word m (header + 4) ≠ flashHeaderVersion ∨
        headerBytes ≠ flashHeaderBytes ∨ wasmBytes < 8 ∨
        wasmBytes > flashPartitionBytes - headerBytes then
      (-1, module)
    else
      let wasmMagic := header + headerBytes.toNat
      if word m wasmMagic ≠ wasmBinaryMagic then (-1, module)
      else (0, { module with data := wasmMagic, size := wasmBytes, xip := true, raw := true })

/-! ### Words -/

/-- A word is a number when its bytes are. -/
theorem word_eq_iff {m : Memory} {a : Nat} {w : UInt32} :
    word m a = w ↔ m.load a 4 = toLe 4 w.toNat := by
  have hBytes := ofLe_lt (m.load a 4)
  rw [Memory.length_load] at hBytes
  have hIff := @ofLe_eq_iff (m.load a 4) w.toNat
    (by rw [Memory.length_load]; exact w.toNat_lt)
  rw [Memory.length_load] at hIff
  rw [← hIff, word, ← UInt32.toNat_inj, UInt32.toNat_ofNat_of_lt' hBytes]

/-- The checks of the loader on a header of `size` bytes of module, as its bytes. -/
theorem header_iff {m : Memory} {a size : Nat} (hSize : size < 2 ^ 32) :
    m.load a 16 = flashHeaderStart size ↔ word m a = flashHeaderMagic ∧
      word m (a + 4) = flashHeaderVersion ∧ word m (a + 8) = flashHeaderBytes ∧
      word m (a + 12) = UInt32.ofNat size := by
  have hMagic : toLe 4 flashHeaderMagic.toNat = packBytes 4 (ascii "FXWM") := by decide
  have hLoad : m.load a 16 = m.load a 4 ++ m.load (a + 4) 4 ++ m.load (a + 8) 4 ++
      m.load (a + 12) 4 := by
    rw [← Memory.load_add, ← Memory.load_add m a 8 4, ← Memory.load_add m a 12 4]
  rw [hLoad, flashHeaderStart]
  simp only [word_eq_iff, hMagic, UInt32.toNat_ofNat_of_lt' hSize]
  constructor
  · intro h
    obtain ⟨h, h₃⟩ := List.append_inj' h (by simp)
    obtain ⟨h, h₂⟩ := List.append_inj' h (by simp)
    obtain ⟨h₀, h₁⟩ := List.append_inj' h (by simp)
    exact ⟨h₀, h₁, h₂, h₃⟩
  · rintro ⟨h₀, h₁, h₂, h₃⟩
    rw [h₀, h₁, h₂, h₃]
    rfl

/-! ### The loader -/

/-- The ways in which a load ends. -/
inductive LoadEnd (m : Memory) (path : List UInt8) (module : ModuleBytes) :
    Int × ModuleBytes → Prop
  | other (hPath : strEq path defaultFxModule = false) : LoadEnd m path module (1, module)
  | invalid : LoadEnd m path module (-1, module)
  | loaded (size : Nat) (hLeast : 8 ≤ size)
    (hMost : size ≤ fxWasmPartitionBytes - fxWasmHeaderBytes)
    (hHeader : m.load flashModuleAddress 16 = flashHeaderStart size)
    (hMagic : m.load (flashModuleAddress + fxWasmHeaderBytes) 4 = toLe 4 wasmBinaryMagic.toNat) :
    LoadEnd m path module
      (0, { module with
        data := flashModuleAddress + fxWasmHeaderBytes
        size := UInt32.ofNat size
        xip := true
        raw := true })

theorem loadBuiltinFlashModule_end (m : Memory) (path : List UInt8) (module : ModuleBytes) :
    LoadEnd m path module (loadBuiltinFlashModule m path module) := by
  unfold loadBuiltinFlashModule
  split
  · next hPath => exact .other hPath
  simp only
  split
  · exact .invalid
  next hChecks =>
  simp only [not_or, not_not] at hChecks
  obtain ⟨hHead, hVersion, hBytes, hLeast, hMost⟩ := hChecks
  split
  · exact .invalid
  next hMagic =>
  rw [not_not, hBytes] at hMagic
  rw [hBytes] at hMost ⊢
  have hSize := (word m (flashModuleAddress + 12)).toNat_lt
  have hOfNat : UInt32.ofNat (word m (flashModuleAddress + 12)).toNat =
      word m (flashModuleAddress + 12) := UInt32.ofNat_toNat
  rw [UInt32.lt_iff_toNat_lt] at hLeast
  rw [gt_iff_lt, UInt32.lt_iff_toNat_lt] at hMost
  have hLoaded : LoadEnd m path module _ := .loaded
    (word m (flashModuleAddress + 12)).toNat (Nat.le_of_not_lt hLeast) (Nat.le_of_not_lt hMost)
    ((header_iff hSize).mpr ⟨hHead, hVersion, hBytes, hOfNat.symm⟩) (word_eq_iff.mp hMagic)
  rw [hOfNat] at hLoaded
  exact hLoaded

/-- A header of the writer passes the checks of the loader. -/
theorem loadBuiltinFlashModule_accepts {m : Memory} {size : Nat} (module : ModuleBytes)
    (hLeast : 8 ≤ size) (hMost : size ≤ fxWasmPartitionBytes - fxWasmHeaderBytes)
    (hHeader : m.load flashModuleAddress 16 = flashHeaderStart size)
    (hMagic : m.load (flashModuleAddress + fxWasmHeaderBytes) 4 = toLe 4 wasmBinaryMagic.toNat) :
    loadBuiltinFlashModule m defaultFxModule module =
      (0, { module with
        data := flashModuleAddress + fxWasmHeaderBytes
        size := UInt32.ofNat size
        xip := true
        raw := true }) := by
  have hSize : size < 2 ^ 32 := by
    unfold fxWasmPartitionBytes fxWasmHeaderBytes at hMost
    omega
  have hToNat := UInt32.toNat_ofNat_of_lt' hSize
  obtain ⟨hHead, hVersion, hBytes, hWasm⟩ := (header_iff hSize).mp hHeader
  have hPath : ¬strEq defaultFxModule defaultFxModule = false := by decide
  have hWasmMagic : word m (flashModuleAddress + flashHeaderBytes.toNat) = wasmBinaryMagic :=
    word_eq_iff.mpr hMagic
  have hSmall : ¬UInt32.ofNat size < 8 := by
    rw [UInt32.lt_iff_toNat_lt, hToNat]
    exact Nat.not_lt.mpr hLeast
  have hLarge : ¬UInt32.ofNat size > flashPartitionBytes - flashHeaderBytes := by
    rw [gt_iff_lt, UInt32.lt_iff_toNat_lt, hToNat]
    exact Nat.not_lt.mpr hMost
  simp only [loadBuiltinFlashModule, hPath, if_false, hHead, hVersion, hBytes, hWasm, hSmall, hLarge,
    hWasmMagic, ne_eq, not_true_eq_false, or_self]
  rfl

/-- The writer and the loader of the partition agree: what is written for a module is loaded as that
module, and what the loader accepts is a module inside the partition, behind a header that the
writer gives a module of its length. -/
theorem flashModule_format (sha256 : List UInt8 → List UInt8) :
    (∀ (m : Memory) (wasm : List UInt8) (module : ModuleBytes), [0x00, 0x61, 0x73, 0x6d] <+: wasm →
      8 ≤ wasm.length → wasm.length ≤ 0x200000 - 64 →
      ∃ payload, buildFxFlashPayload sha256 wasm = some payload ∧
        (m.load flashModuleAddress payload.length = payload →
          ∃ loaded, loadBuiltinFlashModule m defaultFxModule module = (0, loaded) ∧
            loaded.size.toNat = wasm.length ∧ m.load loaded.data loaded.size.toNat = wasm)) ∧
    ∀ (m : Memory) (path : List UInt8) (module loaded : ModuleBytes),
      loadBuiltinFlashModule m path module = (0, loaded) →
        Region.Within ⟨loaded.data, loaded.size.toNat⟩ ⟨flashModuleAddress + 64, 0x200000 - 64⟩ ∧
        ∀ wasm, wasm.length = loaded.size.toNat →
          ∃ payload, buildFxFlashPayload sha256 wasm = some payload ∧
            m.load flashModuleAddress 16 = payload.take 16 := by
  constructor
  · intro m wasm module hMagic hLeast hMost
    refine ⟨_, buildFxFlashPayload_eq sha256 hMost, fun hHeld => ?_⟩
    have hToNat : (UInt32.ofNat wasm.length).toNat = wasm.length :=
      UInt32.toNat_ofNat_of_lt' (by simp only [UInt32.size]; omega)
    rw [List.length_append, Memory.load_add, length_flashHeader] at hHeld
    obtain ⟨hHeader, hWasm⟩ := List.append_inj hHeld (by simp)
    have hStart : m.load flashModuleAddress 16 = flashHeaderStart wasm.length := by
      have hTake := congrArg (List.take 16) hHeader
      rwa [Memory.take_load _ _ (by decide), flashHeader, List.append_assoc,
        List.take_left' (by simp)] at hTake
    have hWord : m.load (flashModuleAddress + fxWasmHeaderBytes) 4 =
        toLe 4 wasmBinaryMagic.toNat := by
      obtain ⟨rest, hRest⟩ := hMagic
      have hTake := congrArg (List.take 4) hWasm
      rw [Memory.take_load _ _ (by omega), ← hRest] at hTake
      exact hTake
    refine ⟨_, loadBuiltinFlashModule_accepts module hLeast hMost hStart hWord, hToNat, ?_⟩
    simp only [hToNat]
    exact hWasm
  · intro m path module loaded hLoad
    have hEnd := loadBuiltinFlashModule_end m path module
    rw [hLoad] at hEnd
    cases hEnd with
    | loaded size hLeast hMost hHeader hMagic =>
      have hToNat : (UInt32.ofNat size).toNat = size :=
        UInt32.toNat_ofNat_of_lt' (by
          unfold fxWasmPartitionBytes fxWasmHeaderBytes at hMost
          simp only [UInt32.size]
          omega)
      refine ⟨?_, fun wasm hLength => ?_⟩
      · simp only [hToNat, Region.Within]
        unfold fxWasmPartitionBytes fxWasmHeaderBytes at *
        omega
      · simp only [hToNat] at hLength
        refine ⟨_, buildFxFlashPayload_eq sha256 (hLength ▸ hMost), ?_⟩
        rw [hHeader, flashHeader, List.append_assoc, List.append_assoc, List.take_left' (by simp),
          hLength]

/-- A module without sections. -/
def emptyWasm : List UInt8 := [0x00, 0x61, 0x73, 0x6d, 0x01, 0x00, 0x00, 0x00]

/-- The SHA-256 of `emptyWasm`. -/
def emptyWasmDigest : List UInt8 :=
  [0x93, 0xa4, 0x4b, 0xbb, 0x96, 0xc7, 0x51, 0x21, 0x8e, 0x4c, 0x00, 0xd4, 0x79, 0xe4, 0xc1, 0x43,
    0x58, 0x12, 0x2a, 0x38, 0x9a, 0xcc, 0xa1, 0x62, 0x05, 0xb1, 0xe4, 0xd0, 0xdc, 0x5f, 0x94, 0x76]

/-- Erased flash with the partition of `emptyWasm`. -/
def emptyWasmFlash : Memory :=
  Memory.store (fun _ => 0xff) flashModuleAddress
    (flashHeader emptyWasm.length emptyWasmDigest ++ emptyWasm)

theorem flashModule_format_empty :
    ∃ loaded, loadBuiltinFlashModule emptyWasmFlash defaultFxModule .zero = (0, loaded) ∧
      emptyWasmFlash.load loaded.data loaded.size.toNat = emptyWasm ∧
      Region.Within ⟨loaded.data, loaded.size.toNat⟩ ⟨flashModuleAddress + 64, 0x200000 - 64⟩ := by
  obtain ⟨hWrites, hReads⟩ := flashModule_format fun _ => emptyWasmDigest
  obtain ⟨payload, hPayload, hLoads⟩ := hWrites emptyWasmFlash emptyWasm .zero
    ⟨[0x01, 0x00, 0x00, 0x00], rfl⟩ (by decide) (by decide)
  obtain rfl : flashHeader emptyWasm.length emptyWasmDigest ++ emptyWasm = payload := by
    rw [buildFxFlashPayload_eq _ (by decide)] at hPayload
    exact Option.some.inj hPayload
  obtain ⟨loaded, hLoaded, -, hWasm⟩ := hLoads (Memory.load_store _ _ _)
  exact ⟨loaded, hLoaded, hWasm, (hReads _ _ _ _ hLoaded).1⟩

end Esp32Fx.Runner
