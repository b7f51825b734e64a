import Mathlib.Data.List.Basic

/-! Programs that call what is not part of them.  A program is a tree of calls, with a branch for
each answer.  An environment says which answers a call can get in a state, and which state it leaves
behind; `Runs` is what a program can do in an environment, and `Ensures` what it does in every run. -/

namespace Esp32Fx.Lib

/-- A program over the calls `ι`, where the call `i` is answered by a `ρ i`. -/
inductive Program (ι : Type) (ρ : ι → Type) (α : Type)
  | ret (a : α)
  | call (i : ι) (next : ρ i → Program ι ρ α)

namespace Program

variable {ι : Type} {ρ : ι → Type} {α β σ : Type}

def bind : Program ι ρ α → (α → Program ι ρ β) → Program ι ρ β
  | .ret a, f => f a
  | .call i next, f => .call i fun x => (next x).bind f

instance : Monad (Program ι ρ) where
  pure := ret
  bind := bind

/-- The program that is one call. -/
def perform (i : ι) : Program ι ρ (ρ i) := .call i .ret

/-- What calls do: the answer, and the state after the call. -/
abbrev Environment (ι : Type) (ρ : ι → Type) (σ : Type) := σ → (i : ι) → ρ i → σ → Prop

variable {E : Environment ι ρ σ}

/-- A run of a program from a state, with its result and the state it ends in. -/
inductive Runs (E : Environment ι ρ σ) : σ → Program ι ρ α → α → σ → Prop
  | ret (s : σ) (a : α) : Runs E s (.ret a) a s
  | call {s t u : σ} {i : ι} {next : ρ i → Program ι ρ α} {a : α} (x : ρ i) (hCall : E s i x t)
    (hNext : Runs E t (next x) a u) : Runs E s (.call i next) a u

/-- Every run of the program from `s` ends with `Q`. -/
def Ensures (E : Environment ι ρ σ) (Q : α → σ → Prop) : Program ι ρ α → σ → Prop
  | .ret a, s => Q a s
  | .call i next, s => ∀ x t, E s i x t → Ensures E Q (next x) t

theorem Runs.ensures {Q : α → σ → Prop} {p : Program ι ρ α} {s t : σ} {a : α}
    (hRun : Runs E s p a t) (h : p.Ensures E Q s) : Q a t := by
  induction hRun with
  | ret => exact h
  | call x hCall _ ih => exact ih (h x _ hCall)

/-- Where every call gets some answer, every program has a run. -/
theorem exists_runs (hE : ∀ s i, ∃ x t, E s i x t) (p : Program ι ρ α) (s : σ) :
    ∃ a t, Runs E s p a t := by
  induction p generalizing s with
  | ret a => exact ⟨a, s, .ret s a⟩
  | call i next ih =>
    obtain ⟨x, t, hCall⟩ := hE s i
    obtain ⟨a, u, hNext⟩ := ih x t
    exact ⟨a, u, .call x hCall hNext⟩

theorem Runs.bind {p : Program ι ρ α} {f : α → Program ι ρ β} {s t u : σ} {a : α} {b : β}
    (hFirst : Runs E s p a t) (hSecond : Runs E t (f a) b u) : Runs E s (p >>= f) b u := by
  induction hFirst with
  | ret => exact hSecond
  | call x hCall _ ih => exact .call x hCall (ih hSecond)

/-- A run of two programs in sequence is a run of the first and then one of the second. -/
theorem runs_bind {p : Program ι ρ α} {f : α → Program ι ρ β} {s t : σ} {b : β}
    (h : Runs E s (p >>= f) b t) : ∃ a u, Runs E s p a u ∧ Runs E u (f a) b t := by
  induction p generalizing s with
  | ret a => exact ⟨a, s, .ret s a, h⟩
  | call i next ih =>
    cases h with
    | call x hCall hNext =>
      obtain ⟨a, u, hFirst, hSecond⟩ := ih x hNext
      exact ⟨a, u, .call x hCall hFirst, hSecond⟩

theorem ensures_mono {Q Q' : α → σ → Prop} {p : Program ι ρ α} {s : σ} (h : p.Ensures E Q s)
    (hQ : ∀ a t, Q a t → Q' a t) : p.Ensures E Q' s := by
  induction p generalizing s with
  | ret a => exact hQ a s h
  | call i next ih => exact fun x t hCall => ih x (h x t hCall)

@[simp] theorem ensures_pure {Q : α → σ → Prop} {a : α} {s : σ} :
    (pure a : Program ι ρ α).Ensures E Q s ↔ Q a s := Iff.rfl

@[simp] theorem ensures_perform {i : ι} {Q : ρ i → σ → Prop} {s : σ} :
    (perform i : Program ι ρ (ρ i)).Ensures E Q s ↔ ∀ x t, E s i x t → Q x t := Iff.rfl

@[simp] theorem ensures_bind {Q : β → σ → Prop} {p : Program ι ρ α} {f : α → Program ι ρ β}
    {s : σ} : (p >>= f).Ensures E Q s ↔ p.Ensures E (fun a t => (f a).Ensures E Q t) s := by
  induction p generalizing s with
  | ret a => exact Iff.rfl
  | call i next ih => exact forall_congr' fun x => forall_congr' fun t => imp_congr_right fun _ => ih x

end Program

end Esp32Fx.Lib
