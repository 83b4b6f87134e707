import Mathlib.Data.List.Count
import Mathlib.Logic.Function.Iterate
import Mathlib.Tactic.Common

/-!
# Linear probing

A table of slots that is searched from a slot on, around its end.

* `following size slot` : the slot looked at next; `iterate_following` : the slots looked at;
* `exists_free` : while the table is not full, every search meets a free slot;
* `occupied_set_le` : a write fills one slot at most.
-/

namespace PulseDB.Lib.Probing

variable {α : Type}

def following (size slot : ℕ) : ℕ := (slot + 1) % size

theorem iterate_following {size slot : ℕ} (hslot : slot < size) :
    ∀ k : ℕ, (following size)^[k] slot = (slot + k) % size
  | 0 => (Nat.mod_eq_of_lt hslot).symm
  | k + 1 => by
    rw [Function.iterate_succ_apply', iterate_following hslot k, following, Nat.mod_add_mod, Nat.add_assoc]

def occupied (slots : List (Option α)) : ℕ := slots.countP Option.isSome

theorem occupied_replicate (n : ℕ) : occupied (List.replicate n (none : Option α)) = 0 := by
  rw [occupied, List.countP_replicate, if_neg (by simp)]

theorem occupied_set_le (slots : List (Option α)) (i : ℕ) (x : Option α) :
    occupied (slots.set i x) ≤ occupied slots + 1 := by
  unfold occupied
  by_cases hi : i < slots.length
  · rw [List.countP_set hi]
    split <;> split <;> omega
  · rw [List.set_eq_of_length_le (Nat.le_of_not_lt hi)]
    omega

/-- Every search in a table that is not full meets a free slot, after fewer steps than there are slots. -/
theorem exists_free {slots : List (Option α)} (h : occupied slots < slots.length) {slot : ℕ}
    (hslot : slot < slots.length) :
    ∃ k < slots.length, slots[(following slots.length)^[k] slot]? = some none := by
  obtain ⟨j, hj, hfree⟩ : ∃ j, ∃ hj : j < slots.length, slots[j] = none := by
    by_contra hfull
    refine (Nat.ne_of_lt h) (List.countP_eq_length.mpr fun o ho => ?_)
    obtain ⟨j, hj, rfl⟩ := List.getElem_of_mem ho
    exact Option.isSome_iff_ne_none.mpr fun hnone => hfull ⟨j, hj, hnone⟩
  -- the steps from `slot` to `j`, around the end if need be
  refine ⟨(j + slots.length - slot) % slots.length, Nat.mod_lt _ (by omega), ?_⟩
  have hat : (slot + (j + slots.length - slot) % slots.length) % slots.length = j := by
    rw [Nat.add_mod_mod, Nat.add_sub_cancel' (by omega), Nat.add_mod_right, Nat.mod_eq_of_lt hj]
  rw [iterate_following hslot, hat, List.getElem?_eq_getElem hj, hfree]

end PulseDB.Lib.Probing
