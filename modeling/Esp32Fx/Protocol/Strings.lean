import Esp32Fx.Eink.Decode
import Esp32Fx.Native.Json
import Esp32Fx.Native.SinkFacts

/-! The string encoders and decoders of the two programs, against each other: `fx-eink` writes the
lines that the runtime reads, and reads the lines that the runtime writes. -/

namespace Esp32Fx.Protocol

open Lib Lib.Json Eink Native

/-- For a text without NUL, both encoders write the same literal, which has no control byte and no
bare quote inside, and both decoders read exactly that literal back to the text, whatever follows
it. -/
theorem jsonString_interchange {s : List UInt8} (hNul : (0 : UInt8) ∉ s) :
    (∀ cfg libc sink bufs, SinkOk cfg bufs sink → Room libc sink (writeJsonString s).length →
      let outcome := sinkAppendJsonString cfg libc s sink bufs
      outcome.1 = true ∧
        buffered outcome.2.2 outcome.2.1 = buffered bufs sink ++ writeJsonString s) ∧
    (∀ b ∈ writeJsonString s, 0x20 ≤ b) ∧
    bareQuotes false 0 (writeJsonString s) = [0, (writeJsonString s).length - 1] ∧
    (∀ rest, parseJsonString (writeJsonString s ++ rest) = some (s, rest)) ∧
    (s.length ≤ maxResponseBytes → ∀ rest, ∃ value,
      decodeJsonString (writeJsonString s ++ rest) .empty = some (value, rest) ∧
        value.data = s) := by
  rw [writeJsonString_eq hNul]
  refine ⟨fun cfg libc sink bufs hSink hRoom => ?_, literal_text_ge _, bareQuotes_text _,
    fun rest => ?_, fun hLength rest => ?_⟩
  · have hAppended := sinkAppendJsonString_appended hNul hSink hRoom
    exact ⟨hAppended.succeeded, hAppended.buffered⟩
  · rw [parseJsonString_literal (noSurrogate_encode s), bytes_encode]
  · have hFits : (literalBytes (encode s)).length ≤ maxResponseBytes := by
      rwa [literalBytes_encode]
    obtain ⟨value, hDecoded, hData, -⟩ := decodeJsonString_literal (encode s) rest hFits
    exact ⟨value, hDecoded, hData.trans (literalBytes_encode s)⟩

/-- A lent buffer of sixteen bytes. -/
def lentSink : ByteSink := ⟨.borrowed, 0, 16, false, false⟩

theorem lentSink_ok : SinkOk board (.initial (List.replicate 16 0)) lentSink where
  numbered := Buffers.initial_numbered _
  len_cap := by decide
  cap_max := by decide
  len_read := by decide
  lent _ := rfl
  own h := by simp [lentSink] at h

/-- The text `a"` and a byte 1. -/
theorem jsonString_interchange_quote :
    (sinkAppendJsonString board (fun _ => false) [0x61, 0x22, 0x01] lentSink
      (.initial (List.replicate 16 0))).1 = true ∧
    parseJsonString (ascii "\"a\\\"\\u0001\"\n") = some ([0x61, 0x22, 0x01], [0x0a]) ∧
    ∃ value, decodeJsonString (ascii "\"a\\\"\\u0001\"\n") .empty = some (value, [0x0a]) ∧
      value.data = [0x61, 0x22, 0x01] := by
  have h := jsonString_interchange (s := [0x61, 0x22, 0x01]) (by decide)
  have hRoom : Room (fun _ => false) lentSink (writeJsonString [0x61, 0x22, 0x01]).length :=
    ⟨by decide, fun hOwned => absurd hOwned (by decide)⟩
  exact ⟨(h.1 board _ _ _ lentSink_ok hRoom).1, h.2.2.2.1 [0x0a],
    h.2.2.2.2 (by decide) [0x0a]⟩

end Esp32Fx.Protocol
