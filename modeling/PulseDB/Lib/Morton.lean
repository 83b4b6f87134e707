import Mathlib.Data.Nat.Bitwise
import Mathlib.Tactic.Common

/-!
# Interleaved bits

Two numbers of `n` bits woven into one of `2 * n` bits, the first in the even positions and the second in the
odd ones.

* `weave n a b` : the interleaving; `unweave n offset h` : the bits at the positions `offset`, `offset + 2`,
  ...;
* `testBit_weave`, `testBit_unweave` : their bits;
* `unweave_weave`, `weave_unweave` : they are inverse to each other.
-/

namespace PulseDB.Lib

/-- The low `n` bits of `a` and `b`, interleaved. -/
def weave : ℕ → ℕ → ℕ → ℕ
  | 0, _, _ => 0
  | n + 1, a, b => (weave n a b ||| ((a >>> n) &&& 1) <<< (2 * n)) ||| ((b >>> n) &&& 1) <<< (2 * n + 1)

/-- The `n` bits of `h` at every second position from `offset` on. -/
def unweave : ℕ → ℕ → ℕ → ℕ
  | 0, _, _ => 0
  | n + 1, offset, h => unweave n offset h ||| ((h >>> (2 * n + offset)) &&& 1) <<< n

theorem testBit_moved (x i k j : ℕ) :
    (((x >>> i) &&& 1) <<< k).testBit j = (decide (j = k) && x.testBit i) := by
  rw [Nat.testBit_shiftLeft, Nat.testBit_and, Nat.testBit_shiftRight]
  by_cases h : j = k
  · subst h
    simp
  · by_cases hle : k ≤ j
    · have hone : Nat.testBit 1 (j - k) = false := Nat.testBit_lt_two_pow (Nat.one_lt_two_pow (by omega))
      simp [h, hone]
    · simp [h, hle]

theorem testBit_weave (a b j : ℕ) : ∀ n : ℕ, (weave n a b).testBit j =
    (decide (j < 2 * n) && if j % 2 = 0 then a.testBit (j / 2) else b.testBit (j / 2))
  | 0 => by rw [weave, Nat.zero_testBit, Nat.mul_zero]; rfl
  | n + 1 => by
    rw [weave, Nat.testBit_or, Nat.testBit_or, testBit_moved, testBit_moved, testBit_weave a b j n]
    by_cases heven : j = 2 * n
    · subst heven
      simp
    · by_cases hodd : j = 2 * n + 1
      · subst hodd
        have hdiv : (2 * n + 1) / 2 = n := by omega
        have hlt : ¬ 2 * n + 1 < 2 * n := by omega
        have hlt' : 2 * n + 1 < 2 * (n + 1) := by omega
        simp [hdiv, hlt, hlt']
      · have hiff : j < 2 * (n + 1) ↔ j < 2 * n := by omega
        simp [heven, hodd, hiff]

theorem testBit_unweave (offset h j : ℕ) : ∀ n : ℕ, (unweave n offset h).testBit j =
    (decide (j < n) && h.testBit (2 * j + offset))
  | 0 => by rw [unweave, Nat.zero_testBit]; rfl
  | n + 1 => by
    rw [unweave, Nat.testBit_or, testBit_moved, testBit_unweave offset h j n]
    by_cases heq : j = n
    · subst heq
      simp
    · have hiff : j < n + 1 ↔ j < n := by omega
      simp [heq, hiff]

theorem weave_lt (n a b : ℕ) : weave n a b < 2 ^ (2 * n) := by
  refine Nat.lt_pow_two_of_testBit _ fun j hj => ?_
  rw [testBit_weave, decide_eq_false (Nat.not_lt.mpr hj), Bool.false_and]

theorem unweave_lt (n offset h : ℕ) : unweave n offset h < 2 ^ n := by
  refine Nat.lt_pow_two_of_testBit _ fun j hj => ?_
  rw [testBit_unweave, decide_eq_false (Nat.not_lt.mpr hj), Bool.false_and]

/-- The even positions hold the first number, the odd ones the second. -/
theorem unweave_weave {n a b : ℕ} (ha : a < 2 ^ n) (hb : b < 2 ^ n) :
    unweave n 0 (weave n a b) = a ∧ unweave n 1 (weave n a b) = b := by
  have hfar : ∀ {x : ℕ}, x < 2 ^ n → ∀ {j : ℕ}, ¬ j < n → x.testBit j = false := fun hx _ hj =>
    Nat.testBit_lt_two_pow (hx.trans_le (Nat.pow_le_pow_right (by decide) (Nat.le_of_not_lt hj)))
  refine ⟨Nat.eq_of_testBit_eq fun j => ?_, Nat.eq_of_testBit_eq fun j => ?_⟩
  · rw [testBit_unweave, testBit_weave]
    by_cases hj : j < n
    · have hlt : 2 * j + 0 < 2 * n := by omega
      have hmod : (2 * j + 0) % 2 = 0 := by omega
      have hdiv : (2 * j + 0) / 2 = j := by omega
      rw [decide_eq_true hj, decide_eq_true hlt, if_pos hmod, hdiv, Bool.true_and, Bool.true_and]
    · rw [decide_eq_false hj, Bool.false_and, hfar ha hj]
  · rw [testBit_unweave, testBit_weave]
    by_cases hj : j < n
    · have hlt : 2 * j + 1 < 2 * n := by omega
      have hmod : ¬ (2 * j + 1) % 2 = 0 := by omega
      have hdiv : (2 * j + 1) / 2 = j := by omega
      rw [decide_eq_true hj, decide_eq_true hlt, if_neg hmod, hdiv, Bool.true_and, Bool.true_and]
    · rw [decide_eq_false hj, Bool.false_and, hfar hb hj]

theorem weave_unweave {n h : ℕ} (hh : h < 2 ^ (2 * n)) : weave n (unweave n 0 h) (unweave n 1 h) = h := by
  refine Nat.eq_of_testBit_eq fun j => ?_
  rw [testBit_weave, testBit_unweave, testBit_unweave]
  by_cases hj : j < 2 * n
  · have hhalf : j / 2 < n := by omega
    rw [decide_eq_true hj, decide_eq_true hhalf, Bool.true_and, Bool.true_and, Bool.true_and]
    split
    · rw [show 2 * (j / 2) + 0 = j by omega]
    · rw [show 2 * (j / 2) + 1 = j by omega]
  · rw [decide_eq_false hj, Bool.false_and,
      Nat.testBit_lt_two_pow (hh.trans_le (Nat.pow_le_pow_right (by decide) (Nat.le_of_not_lt hj)))]

end PulseDB.Lib
