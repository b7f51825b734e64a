import Mathlib.Data.List.Basic

/-! Drawing on a surface.  A surface shows a colour at each point; an operation draws a stamp when
it gives the points of the stamp their colours and leaves the others as they were.  Operations one
after the other draw the stamps on top of each other. -/

namespace Esp32Fx.Lib

variable {X C S ι : Type*}

/-- Colours for some of the points. -/
abbrev Stamp (X C : Type*) := X → Option C

namespace Stamp

def blank : Stamp X C := fun _ => none

/-- The stamp `top` on top of `bottom`. -/
def above (top bottom : Stamp X C) : Stamp X C := fun x => (top x).or (bottom x)

/-- Stamps on top of each other, the last one on top. -/
def stack (stamps : ι → Stamp X C) : List ι → Stamp X C
  | [] => blank
  | i :: rest => (stack stamps rest).above (stamps i)

variable {stamps : ι → Stamp X C} {layers : List ι} {x : X}

/-- A point that no stamp covers. -/
theorem stack_none (h : ∀ i ∈ layers, stamps i x = none) : stack stamps layers x = none := by
  induction layers with
  | nil => rfl
  | cons i rest ih =>
    rw [stack, above, ih fun j hj => h j (List.mem_cons_of_mem _ hj), h i List.mem_cons_self]
    rfl

/-- A point that at most one stamp covers. -/
theorem stack_only {k : ι} (hk : k ∈ layers) (h : ∀ i ∈ layers, i ≠ k → stamps i x = none) :
    stack stamps layers x = stamps k x := by
  induction layers with
  | nil => cases hk
  | cons i rest ih =>
    have hRest := fun j hj => h j (List.mem_cons_of_mem i hj)
    rw [stack, above]
    by_cases hMem : k ∈ rest
    · rw [ih hMem hRest]
      cases hCovered : stamps k x with
      | some colour => rfl
      | none =>
        by_cases hi : i = k
        · rw [hi, hCovered]
          rfl
        · rw [h i List.mem_cons_self hi]
          rfl
    · obtain rfl : k = i := (List.mem_cons.mp hk).resolve_right hMem
      rw [stack_none fun j hj => hRest j hj fun hEq => hMem (hEq ▸ hj)]
      rfl

end Stamp

/-- The operation draws the stamp. -/
def Draws (look : S → X → C) (act : S → S) (stamp : Stamp X C) : Prop :=
  ∀ s x, look (act s) x = (stamp x).getD (look s x)

namespace Draws

variable {look : S → X → C} {act act' : S → S} {stamp stamp' : Stamp X C}

/-- A point outside the stamp. -/
theorem unseen {x : X} (h : Draws look act stamp) (hx : stamp x = none) (s : S) :
    look (act s) x = look s x := by
  rw [h, hx]
  rfl

theorem nothing : Draws look id (Stamp.blank : Stamp X C) := fun _ _ => rfl

theorem after (h' : Draws look act' stamp') (h : Draws look act stamp) :
    Draws look (fun s => act' (act s)) (stamp'.above stamp) := by
  intro s x
  rw [h', h, Stamp.above]
  cases stamp' x <;> rfl

/-- A loop whose rounds draw stamps. -/
theorem foldl {step : S → ι → S} {stamps : ι → Stamp X C}
    (h : ∀ i, Draws look (fun s => step s i) (stamps i)) (layers : List ι) :
    Draws look (fun s => layers.foldl step s) (Stamp.stack stamps layers) := by
  induction layers with
  | nil => exact nothing
  | cons i rest ih => exact ih.after (h i)

end Draws

end Esp32Fx.Lib
