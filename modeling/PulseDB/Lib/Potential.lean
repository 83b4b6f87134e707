import Mathlib.Algebra.BigOperators.Group.List.Basic
import Mathlib.Algebra.GroupWithZero.Nat
import PulseDB.Lib.Trace

/-!
# Costs that are paid from a potential

* `Run.potential` : over a run, what the steps cost together, if every step pays its cost from what it brings
  in and from the potential of the state;
* `Run.potential_countP` : how many events of a kind there can be, if each costs one.
-/

namespace PulseDB.Lib.Run

variable {σ ε : Type} {step : σ → ε → σ → Prop} {s s' : σ} {evs : List ε}

theorem potential (I : σ → Prop) (Φ : σ → ℕ) (cost gain : ε → ℕ)
    (hstep : ∀ s ev s', I s → step s ev s' → I s' ∧ cost ev + Φ s' ≤ Φ s + gain ev) (h : Run step s evs s')
      (hs : I s) :
    (evs.map cost).sum + Φ s' ≤ Φ s + (evs.map gain).sum := by
  have hall : I s' ∧ (evs.map cost).sum + Φ s' ≤ Φ s + (evs.map gain).sum := by
    induction h with
    | nil => exact ⟨hs, Nat.le_of_eq (Nat.add_comm _ _)⟩
    | snoc _ hlast ih =>
      obtain ⟨hI, hle⟩ := ih
      obtain ⟨hI', hle'⟩ := hstep _ _ _ hI hlast
      refine ⟨hI', ?_⟩
      simp only [List.map_append, List.sum_append, List.map_singleton, List.sum_singleton]
      omega
  exact hall.2

theorem potential_countP (I : σ → Prop) (Φ : σ → ℕ) (p : ε → Bool) (gain : ε → ℕ)
    (hstep : ∀ s ev s', I s → step s ev s' → I s' ∧ (if p ev then 1 else 0) + Φ s' ≤ Φ s + gain ev)
    (h : Run step s evs s') (hs : I s) : evs.countP p + Φ s' ≤ Φ s + (evs.map gain).sum := by
  have hcount : evs.countP p = (evs.map fun ev => if p ev then 1 else 0).sum := by
    clear h
    induction evs with
    | nil => rfl
    | cons ev rest ih => rw [List.countP_cons, List.map_cons, List.sum_cons, ih, Nat.add_comm]
  rw [hcount]
  exact h.potential I Φ _ gain hstep hs

end PulseDB.Lib.Run
