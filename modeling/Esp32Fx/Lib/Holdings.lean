import Mathlib.Data.List.Nodup
import Mathlib.Logic.Function.Basic

/-! What a program holds of a table that it shares: the keys that it has taken, none of them in use
before, beside entries of others that it leaves as they are. -/

namespace Esp32Fx.Lib

/-- From the table `w` on, the keys of `mine` have been taken, and nothing else has changed. -/
structure Holds {K V : Type*} (mine : List K) (w s : K → Option V) : Prop where
  nodup : mine.Nodup
  fresh : ∀ k ∈ mine, w k = none
  held : ∀ k ∈ mine, s k ≠ none
  rest : ∀ k, k ∉ mine → s k = w k

namespace Holds

variable {K V : Type*} {mine mine' : List K} {w s : K → Option V} {k : K} {v : V}

theorem nil (s : K → Option V) : Holds [] s s := ⟨.nil, nofun, nofun, fun _ _ => rfl⟩

/-- What holds nothing has put everything back. -/
theorem eq (h : Holds [] w s) : s = w := funext fun k => h.rest k List.not_mem_nil

/-- The order of the keys does not matter. -/
theorem perm (h : Holds mine w s) (hPerm : mine.Perm mine') : Holds mine' w s where
  nodup := hPerm.nodup_iff.mp h.nodup
  fresh k hk := h.fresh k (hPerm.mem_iff.mpr hk)
  held k hk := h.held k (hPerm.mem_iff.mpr hk)
  rest k hk := h.rest k fun hMine => hk (hPerm.mem_iff.mp hMine)

variable [DecidableEq K]

/-- A free key is taken. -/
theorem take (h : Holds mine w s) (hFree : s k = none) (v : V) :
    Holds (k :: mine) w (Function.update s k (some v)) := by
  have hNew : k ∉ mine := fun hk => h.held k hk hFree
  refine ⟨List.nodup_cons.mpr ⟨hNew, h.nodup⟩, ?_, ?_, ?_⟩
  · intro k' hk'
    rcases List.mem_cons.mp hk' with rfl | hOld
    · rw [← h.rest k' hNew, hFree]
    · exact h.fresh k' hOld
  · intro k' hk'
    rcases List.mem_cons.mp hk' with rfl | hOld
    · rw [Function.update_self]
      nofun
    · have hNe : k' ≠ k := by
        rintro rfl
        exact hNew hOld
      rw [Function.update_of_ne hNe]
      exact h.held k' hOld
  · intro k' hk'
    rw [List.mem_cons, not_or] at hk'
    rw [Function.update_of_ne hk'.1, h.rest k' hk'.2]

/-- The last key is given back. -/
theorem give (h : Holds (k :: mine) w s) : Holds mine w (Function.update s k none) := by
  obtain ⟨hNew, hNodup⟩ := List.nodup_cons.mp h.nodup
  refine ⟨hNodup, fun k' hk' => h.fresh k' (List.mem_cons_of_mem _ hk'), ?_, ?_⟩
  · intro k' hk'
    have hNe : k' ≠ k := by
      rintro rfl
      exact hNew hk'
    rw [Function.update_of_ne hNe]
    exact h.held k' (List.mem_cons_of_mem _ hk')
  · intro k' hk'
    by_cases hEq : k' = k
    · subst hEq
      rw [Function.update_self, h.fresh k' List.mem_cons_self]
    · rw [Function.update_of_ne hEq, h.rest k' (by simp [hEq, hk'])]

/-- A key that is held gets another entry. -/
theorem put (h : Holds mine w s) (hMine : k ∈ mine) (v : V) :
    Holds mine w (Function.update s k (some v)) where
  nodup := h.nodup
  fresh := h.fresh
  held k' hk' := by
    by_cases hEq : k' = k
    · subst hEq
      rw [Function.update_self]
      exact Option.some_ne_none v
    · rw [Function.update_of_ne hEq]
      exact h.held k' hk'
  rest k' hk' := by
    have hNe : k' ≠ k := by
      rintro rfl
      exact hk' hMine
    rw [Function.update_of_ne hNe, h.rest k' hk']

/-- An entry that stays when a free key is taken. -/
theorem update_kept (hFree : s k = none) {k' : K} (h : s k' = some v) (v' : V) :
    Function.update s k (some v') k' = some v := by
  have hNe : k' ≠ k := by
    rintro rfl
    rw [hFree] at h
    cases h
  rw [Function.update_of_ne hNe, h]

end Holds

end Esp32Fx.Lib
