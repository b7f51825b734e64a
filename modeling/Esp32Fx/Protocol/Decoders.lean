import Esp32Fx.ExampleTools.Args
import Esp32Fx.Native.Json

/-! The three decoders of JSON strings against each other: what the strict decoder of the example
tools accepts, the one of the runtime accepts, and what that one accepts, `fx-eink` accepts when it
fits its buffer, each with the same bytes. -/

namespace Esp32Fx.Protocol

open Lib Lib.Json Eink Native ExampleTools

/-! ### The three decoders -/

/-- What the strict decoder accepts is a literal without surrogates, for any capacity. -/
theorem stringValue_literal {cap : Nat} {p value rest : List UInt8}
    (h : stringValue cap p = some (value, rest)) :
    ∃ l : Literal, p = l.text ++ rest ∧ l.NoSurrogate ∧ value = l.flatMap Item.bytes := by
  unfold stringValue at h
  split at h
  · cases h
  next p' hQuote =>
  obtain ⟨l, read, rfl, hValue, hDecode, hWhole, -, -⟩ := stringLoop_sound h
  rw [Literal.decode_of_noSurrogate hWhole] at hDecode
  refine ⟨l, ?_, hWhole, by rw [hValue, List.nil_append, Option.some.inj hDecode]⟩
  rw [passByte_eq hQuote, Literal.text, List.cons_append, List.append_assoc, List.singleton_append]

/-- The decoders agree: the runtime's on all that the strict one accepts, and that of `fx-eink`, on
a copy with a NUL behind it, on all that the runtime's accepts and that fits its buffer. -/
theorem decoders_agree (p value rest : List UInt8) :
    (∀ cap, stringValue cap p = some (value, rest) → parseJsonString p = some (value, rest)) ∧
    (parseJsonString p = some (value, rest) → value.length ≤ maxResponseBytes →
      ∃ buffer, decodeJsonString (p ++ [0]) .empty = some (buffer, rest ++ [0]) ∧
        buffer.data = value) := by
  constructor
  · intro cap h
    obtain ⟨l, rfl, hWhole, rfl⟩ := stringValue_literal h
    exact parseJsonString_literal hWhole rest
  · intro h hFits
    obtain ⟨l, rfl, hWhole, rfl⟩ := parseJsonString_sound h
    rw [← literalBytes_eq hWhole] at hFits ⊢
    obtain ⟨buffer, hDecoded, hData, -⟩ := decodeJsonString_literal l (rest ++ [0]) hFits
    exact ⟨buffer, by rw [List.append_assoc]; exact hDecoded, hData⟩

/-- An escape of each decoder, and a byte behind the string. -/
theorem decoders_agree_escaped :
    parseJsonString (ascii "\"\\u0041\\n\",") = some (ascii "A\n", ascii ",") ∧
      ∃ buffer, decodeJsonString (ascii "\"\\u0041\\n\"," ++ [0]) .empty =
        some (buffer, ascii "," ++ [0]) ∧ buffer.data = ascii "A\n" := by
  obtain ⟨hStrict, hEink⟩ := decoders_agree (ascii "\"\\u0041\\n\",") (ascii "A\n") (ascii ",")
  have hParsed := hStrict 8 (by decide)
  exact ⟨hParsed, hEink hParsed (by decide)⟩

end Esp32Fx.Protocol
