import Esp32Fx.ExampleTools.ToolFacts

/-! What a `read_project` call returns of a file that was admitted, for every outcome of its
reads. -/

namespace Esp32Fx.ExampleTools

open Esp32Fx.Lib

variable {project : Project} {s s₀ : State} {file : File}

/-- The bytes that an answer returns. -/
def Answer.bytes (answer : Answer) : List UInt8 := answer.out.take answer.result.toNat

end Esp32Fx.ExampleTools
