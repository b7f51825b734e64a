import Mathlib.Data.List.Basic

/-! Transition systems with events: runs, reachable states, and the induction that carries an
invariant from the starting states along every run. -/

namespace Esp32Fx.Lib

/-- A system that moves from state to state on events. -/
structure System (σ ε : Type*) where
  Start : σ → Prop
  Step : σ → ε → σ → Prop

namespace System

variable {σ ε : Type*} {S : System σ ε} {I : σ → Prop} {s t u : σ} {es : List ε} {e : ε}

/-- `S` takes the events of a list, in order, from one state to another. -/
inductive Run (S : System σ ε) : σ → List ε → σ → Prop
  | nil (s : σ) : Run S s [] s
  | snoc {s t u : σ} {es : List ε} {e : ε} :
    Run S s es t → S.Step t e u → Run S s (es ++ [e]) u

/-- A run from a starting state ends in `s`. -/
def Reachable (S : System σ ε) (s : σ) : Prop := ∃ s₀ es, S.Start s₀ ∧ S.Run s₀ es s

/-- One run behind another. -/
theorem Run.append {es' : List ε} (h : S.Run s es t) (h' : S.Run t es' u) :
    S.Run s (es ++ es') u := by
  induction h' with
  | nil => rwa [List.append_nil]
  | snoc _ hLast ih =>
    rw [← List.append_assoc]
    exact ih.snoc hLast

theorem Run.cons (hStep : S.Step s e t) (h : S.Run t es u) : S.Run s (e :: es) u :=
  .append (.snoc (.nil s) hStep) h

theorem Reachable.start (h : S.Start s) : S.Reachable s := ⟨s, [], h, .nil s⟩

theorem Reachable.step (h : S.Reachable s) (hStep : S.Step s e t) : S.Reachable t := by
  obtain ⟨s₀, es, hStart, hRun⟩ := h
  exact ⟨s₀, es ++ [e], hStart, hRun.snoc hStep⟩

theorem Reachable.run (h : S.Reachable s) (hRun : S.Run s es t) : S.Reachable t := by
  obtain ⟨s₀, es₀, hStart, hRun₀⟩ := h
  exact ⟨s₀, es₀ ++ es, hStart, hRun₀.append hRun⟩

/-- What every step preserves holds along every run. -/
theorem Run.preserves (step : ∀ s e t, I s → S.Step s e t → I t) (hRun : S.Run s es t)
    (hs : I s) : I t := by
  induction hRun with
  | nil => exact hs
  | snoc _ hLast ih => exact step _ _ _ ih hLast

/-- What holds at the start and is preserved by every step holds in every reachable state. -/
theorem Reachable.invariant (start : ∀ s, S.Start s → I s)
    (step : ∀ s e t, I s → S.Step s e t → I t) (h : S.Reachable s) : I s := by
  obtain ⟨s₀, es, hStart, hRun⟩ := h
  exact hRun.preserves step (start s₀ hStart)

/-- The system that moves by a function on the events that are possible. -/
def moves (Start : σ → Prop) (possible : σ → ε → Bool) (advance : σ → ε → σ) : System σ ε where
  Start := Start
  Step s e t := possible s e = true ∧ t = advance s e

/-- Where a list of events leads, if each is possible in its turn. -/
def replay (possible : σ → ε → Bool) (advance : σ → ε → σ) : σ → List ε → Option σ
  | s, [] => some s
  | s, e :: es => if possible s e then replay possible advance (advance s e) es else none

theorem Run.of_replay {Start : σ → Prop} {possible : σ → ε → Bool} {advance : σ → ε → σ}
    (h : replay possible advance s es = some t) : (moves Start possible advance).Run s es t := by
  induction es generalizing s with
  | nil =>
    cases h
    exact .nil _
  | cons e es ih =>
    rw [replay] at h
    split at h
    · next hPossible => exact .cons ⟨hPossible, rfl⟩ (ih h)
    · cases h

/-- `S` with the steps only that meet a condition. -/
def within (S : System σ ε) (P : σ → ε → Prop) : System σ ε where
  Start := S.Start
  Step s e t := P s e ∧ S.Step s e t

/-! ### Meters -/

/-- `S` with a meter that adds what each event costs in the state that it meets. -/
def metered (S : System σ ε) (cost : σ → ε → Nat) : System (σ × Nat) ε where
  Start w := S.Start w.1 ∧ w.2 = 0
  Step w e w' := S.Step w.1 e w'.1 ∧ w'.2 = w.2 + cost w.1 e

variable {cost : σ → ε → Nat}

/-- The meter stops no run. -/
theorem Reachable.meter (cost : σ → ε → Nat) (h : S.Reachable s) :
    ∃ n, (S.metered cost).Reachable (s, n) := by
  refine Reachable.invariant (I := fun s => ∃ n, (S.metered cost).Reachable (s, n)) ?_ ?_ h
  · intro s hStart
    exact ⟨0, .start ⟨hStart, rfl⟩⟩
  · rintro s e t ⟨n, hReached⟩ hStep
    exact ⟨n + cost s e, hReached.step ⟨hStep, rfl⟩⟩

end System

end Esp32Fx.Lib
