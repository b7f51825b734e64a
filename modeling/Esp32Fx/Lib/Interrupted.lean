import Esp32Fx.Lib.Program

/-! Programs that may be broken off: between two calls, or during a call, which then leaves behind
what its half-done work does.  `Leaves` are the states that a run may leave, `Reaches` the calls
that it gets to, and `Keeps` the rule for both: an invariant of every state on the way, a condition
of every call, and a result. -/

namespace Esp32Fx.Lib.Program

variable {ι : Type} {ρ : ι → Type} {α β σ : Type}

/-- What calls leave behind that are broken off. -/
abbrev Breaks (ι σ : Type) := σ → ι → σ → Prop

variable {E : Environment ι ρ σ} {B : Breaks ι σ} {I : σ → Prop} {P : ι → σ → Prop}

/-- The states that a run of a program may leave, at its end or where it is broken off. -/
inductive Leaves (E : Environment ι ρ σ) (B : Breaks ι σ) : σ → Program ι ρ α → σ → Prop
  | here (s : σ) (p : Program ι ρ α) : Leaves E B s p s
  | during {s t : σ} {i : ι} {next : ρ i → Program ι ρ α} (hBreak : B s i t) :
    Leaves E B s (.call i next) t
  | after {s t u : σ} {i : ι} {next : ρ i → Program ι ρ α} (x : ρ i) (hCall : E s i x t)
    (hNext : Leaves E B t (next x) u) : Leaves E B s (.call i next) u

/-- A run of a program gets to a call in a state. -/
inductive Reaches (E : Environment ι ρ σ) : σ → Program ι ρ α → ι → σ → Prop
  | here (s : σ) (i : ι) (next : ρ i → Program ι ρ α) : Reaches E s (.call i next) i s
  | after {s t u : σ} {i j : ι} {next : ρ i → Program ι ρ α} (x : ρ i) (hCall : E s i x t)
    (hNext : Reaches E t (next x) j u) : Reaches E s (.call i next) j u

/-- Every state of every run has `I`, every call is made where it has `P`, and a run that ends ends
with `Q`. -/
def Keeps (E : Environment ι ρ σ) (B : Breaks ι σ) (I : σ → Prop) (P : ι → σ → Prop)
    (Q : α → σ → Prop) : Program ι ρ α → σ → Prop
  | .ret a, s => I s ∧ Q a s
  | .call i next, s =>
    I s ∧ P i s ∧ (∀ t, B s i t → I t) ∧ ∀ x t, E s i x t → Keeps E B I P Q (next x) t

variable {Q : α → σ → Prop} {p : Program ι ρ α} {s t : σ}

theorem Keeps.inv (h : p.Keeps E B I P Q s) : I s := by
  cases p with
  | ret a => exact h.1
  | call i next => exact h.1

theorem Leaves.keeps (hLeaves : Leaves E B s p t) (h : p.Keeps E B I P Q s) : I t := by
  induction hLeaves with
  | here s p => exact h.inv
  | during hBreak => exact h.2.2.1 _ hBreak
  | after x hCall _ ih => exact ih (h.2.2.2 x _ hCall)

theorem Runs.keeps {a : α} (hRun : Runs E s p a t) (h : p.Keeps E B I P Q s) : I t ∧ Q a t := by
  induction hRun with
  | ret => exact h
  | call x hCall _ ih => exact ih (h.2.2.2 x _ hCall)

theorem Runs.leaves {a : α} (hRun : Runs E s p a t) : Leaves E B s p t := by
  induction hRun with
  | ret => exact .here _ _
  | call x hCall _ ih => exact .after x hCall ih

/-- Two programs in sequence are left in the first, or in the second after the first. -/
theorem leaves_bind {f : α → Program ι ρ β} (h : Leaves E B s (p >>= f) t) :
    Leaves E B s p t ∨ ∃ a u, Runs E s p a u ∧ Leaves E B u (f a) t := by
  induction p generalizing s with
  | ret a => exact .inr ⟨a, s, .ret s a, h⟩
  | call i next ih =>
    cases h with
    | here => exact .inl (.here _ _)
    | during hBreak => exact .inl (.during hBreak)
    | after x hCall hNext =>
      rcases ih x hNext with hFirst | ⟨a, u, hRun, hSecond⟩
      · exact .inl (.after x hCall hFirst)
      · exact .inr ⟨a, u, .call x hCall hRun, hSecond⟩

theorem Reaches.keeps {i : ι} (hReaches : Reaches E s p i t) (h : p.Keeps E B I P Q s) :
    P i t := by
  induction hReaches with
  | here s i next => exact h.2.1
  | after x hCall _ ih => exact ih (h.2.2.2 x _ hCall)

/-! ### Rules -/

theorem keeps_bind {Q : β → σ → Prop} {f : α → Program ι ρ β}
    (h : p.Keeps E B I P (fun a t => (f a).Keeps E B I P Q t) s) : (p >>= f).Keeps E B I P Q s := by
  induction p generalizing s with
  | ret a => exact h.2
  | call i next ih =>
    exact ⟨h.1, h.2.1, h.2.2.1, fun x t hCall => ih x (h.2.2.2 x t hCall)⟩

/-- Every call of a program has `C`. -/
def Only (C : ι → Prop) : Program ι ρ α → Prop
  | .ret _ => True
  | .call i next => C i ∧ ∀ x, Only C (next x)

variable {C : ι → Prop}

theorem only_bind {f : α → Program ι ρ β} (h : p.Only C) (hf : ∀ a, (f a).Only C) :
    (p >>= f).Only C := by
  induction p with
  | ret a => exact hf a
  | call i next ih => exact ⟨h.1, fun x => ih x (h.2 x)⟩

theorem only_ite {c : Prop} [Decidable c] {p q : Program ι ρ α} (hp : p.Only C) (hq : q.Only C) :
    (if c then p else q).Only C := by
  split
  · exact hp
  · exact hq

/-- A program whose calls all keep an invariant. -/
theorem Only.keeps (h : p.Only C) (hP : ∀ i s, C i → I s → P i s)
    (hBreak : ∀ i s t, C i → I s → B s i t → I t)
    (hCall : ∀ i x s t, C i → I s → E s i x t → I t) (hI : I s) :
    p.Keeps E B I P (fun _ _ => True) s := by
  induction p generalizing s with
  | ret a => exact ⟨hI, trivial⟩
  | call i next ih =>
    exact ⟨hI, hP i s h.1 hI, fun t => hBreak i s t h.1 hI,
      fun x t hDoes => ih x (h.2 x) (hCall i x s t h.1 hI hDoes)⟩

/-- A weaker result, or a result that follows with the invariant. -/
theorem keeps_mono {Q' : α → σ → Prop} (h : p.Keeps E B I P Q s)
    (hQ : ∀ a t, I t → Q a t → Q' a t) : p.Keeps E B I P Q' s := by
  induction p generalizing s with
  | ret a => exact ⟨h.1, hQ a s h.1 h.2⟩
  | call i next ih => exact ⟨h.1, h.2.1, h.2.2.1, fun x t hCall => ih x (h.2.2.2 x t hCall)⟩

end Esp32Fx.Lib.Program
