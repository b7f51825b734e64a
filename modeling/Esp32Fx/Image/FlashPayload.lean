import Esp32Fx.Lib.CString
import Esp32Fx.Lib.LittleEndian

/-! The `fxwasm` partition as `tools/package.py` writes it: a header of 64 bytes, and the Wasm module
of fx after it. -/

namespace Esp32Fx.Image

open Lib

/-- `FX_WASM_PARTITION_BYTES`. -/
def fxWasmPartitionBytes : Nat := 0x200000

/-- `FX_WASM_HEADER_BYTES`. -/
def fxWasmHeaderBytes : Nat := 64

/-- `struct.pack("32s", bytes)` and the like: cut off or filled up with zeros. -/
def packBytes (width : Nat) (bytes : List UInt8) : List UInt8 :=
  bytes.take width ++ List.replicate (width - bytes.length) 0

@[simp] theorem length_packBytes (width : Nat) (bytes : List UInt8) :
    (packBytes width bytes).length = width := by
  simp only [packBytes, List.length_append, List.length_take, List.length_replicate]
  omega

/-- The fields of `struct.pack("<4sIII32s16x", ...)` before the digest. -/
def flashHeaderStart (wasmBytes : Nat) : List UInt8 :=
  packBytes 4 (ascii "FXWM") ++ toLe 4 1 ++ toLe 4 fxWasmHeaderBytes ++ toLe 4 wasmBytes

/-- `struct.pack("<4sIII32s16x", ...)`. -/
def flashHeader (wasmBytes : Nat) (digest : List UInt8) : List UInt8 :=
  flashHeaderStart wasmBytes ++ packBytes 32 digest ++ List.replicate 16 0

/-- `build_fx_flash_payload`: the file that it writes, or none when it exits. -/
def buildFxFlashPayload (sha256 : List UInt8 → List UInt8) (wasm : List UInt8) :
    Option (List UInt8) :=
  if wasm.length > fxWasmPartitionBytes - fxWasmHeaderBytes then none
  else
    let header := flashHeader wasm.length (sha256 wasm)
    if header.length ≠ fxWasmHeaderBytes then none else some (header ++ wasm)

@[simp] theorem length_flashHeaderStart (wasmBytes : Nat) :
    (flashHeaderStart wasmBytes).length = 16 := by
  simp [flashHeaderStart]

/-- The header has the size that it states. -/
@[simp] theorem length_flashHeader (wasmBytes : Nat) (digest : List UInt8) :
    (flashHeader wasmBytes digest).length = fxWasmHeaderBytes := by
  simp [flashHeader, fxWasmHeaderBytes]

theorem buildFxFlashPayload_eq (sha256 : List UInt8 → List UInt8) {wasm : List UInt8}
    (h : wasm.length ≤ fxWasmPartitionBytes - fxWasmHeaderBytes) :
    buildFxFlashPayload sha256 wasm = some (flashHeader wasm.length (sha256 wasm) ++ wasm) := by
  have hSize : ¬wasm.length > fxWasmPartitionBytes - fxWasmHeaderBytes := by omega
  simp [buildFxFlashPayload, hSize]

end Esp32Fx.Image
