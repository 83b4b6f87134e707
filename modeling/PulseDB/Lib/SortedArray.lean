import Mathlib.Data.List.Basic
import Mathlib.Data.List.Sort
import Mathlib.Order.Defs.Unbundled
import Mathlib.Tactic.Common

/-!
# Sorted arrays and binary search

Arrays kept strictly increasing for a strict total order `r`.

* `lowerBound below rounds lo hi` : the halving loop that finds the first position that is not `below`;
  `lowerBound_spec` is its specification;
* `slotOf r xs x` : the lower bound of `x` in `xs`: everything before it is smaller than `x`, nothing from it
  on is (`slotOf_spec`), and it is where `x` sits if `x` is there (`getElem?_slotOf`);
* `insertAt` at the lower bound keeps the order (`pairwise_insertAt`), and so does `List.eraseIdx`;
* `eq_of_mem_iff` : a strictly increasing array is determined by its elements.
-/

namespace PulseDB.Lib.SortedArray

/-- At most `rounds` rounds of the halving loop on `[lo, hi)`. -/
def lowerBound (below : ℕ → Bool) : ℕ → ℕ → ℕ → ℕ
  | 0, lo, _ => lo
  | rounds + 1, lo, hi =>
    if lo < hi then
      let mid := lo + (hi - lo) / 2
      if below mid then lowerBound below rounds (mid + 1) hi else lowerBound below rounds lo mid
    else lo

/-- With a round for every position, the loop ends at the first position that is not `below`. -/
theorem lowerBound_spec {below : ℕ → Bool} (hmono : ∀ i j, i ≤ j → below j → below i) :
    ∀ (rounds lo hi : ℕ), lo ≤ hi → hi - lo ≤ rounds →
      lo ≤ lowerBound below rounds lo hi ∧ lowerBound below rounds lo hi ≤ hi ∧
      (∀ i, lo ≤ i → i < lowerBound below rounds lo hi → below i) ∧
      ∀ i, lowerBound below rounds lo hi ≤ i → i < hi → below i = false
  | 0, lo, hi, hle, hr => by
    have : lo = hi := by omega
    subst this
    exact ⟨le_rfl, le_rfl, fun i h1 h2 => absurd h2 (by simp [lowerBound]; omega), fun i h1 h2 => by
      simp only [lowerBound] at h1; omega⟩
  | rounds + 1, lo, hi, hle, hr => by
    unfold lowerBound
    by_cases hlt : lo < hi
    · rw [if_pos hlt]
      simp only
      obtain ⟨mid, hmid⟩ : ∃ mid, mid = lo + (hi - lo) / 2 := ⟨_, rfl⟩
      rw [← hmid]
      by_cases hb : below mid
      · rw [if_pos hb]
        obtain ⟨h1, h2, h3, h4⟩ := lowerBound_spec hmono rounds (mid + 1) hi (by omega) (by omega)
        refine ⟨by omega, h2, fun i hi1 hi2 => ?_, h4⟩
        by_cases him : i ≤ mid
        · exact hmono i mid him hb
        · exact h3 i (by omega) hi2
      · rw [if_neg hb]
        obtain ⟨h1, h2, h3, h4⟩ := lowerBound_spec hmono rounds lo mid (by omega) (by omega)
        refine ⟨h1, by omega, h3, fun i hi1 hi2 => ?_⟩
        by_cases him : i < mid
        · exact h4 i hi1 him
        · -- past `mid` nothing is below, since `mid` is not
          cases hbi : below i with
          | false => rfl
          | true => exact absurd (hmono mid i (by omega) hbi) hb
    · rw [if_neg hlt]
      exact ⟨le_rfl, hle, fun i h1 h2 => absurd h2 (by omega), fun i h1 h2 => absurd h2 (by omega)⟩

theorem lowerBound_le (below : ℕ → Bool) (rounds : ℕ) :
    ∀ {lo hi : ℕ}, lo ≤ hi → lowerBound below rounds lo hi ≤ hi := by
  induction rounds with
  | zero => exact fun hle => hle
  | succ rounds ih =>
    intro lo hi hle
    rw [lowerBound]
    split
    · dsimp only
      split
      · exact ih (by omega)
      · exact (ih (by omega)).trans (by omega)
    · exact hle

section Order
variable {α : Type} {r : α → α → Prop} [DecidableRel r]

/-- The lower bound of `x`: the first position whose element is not smaller than `x`. -/
def slotOf (r : α → α → Prop) [DecidableRel r] (xs : List α) (x : α) : ℕ :=
  lowerBound (fun i => (xs[i]?).any fun y => decide (r y x)) xs.length 0 xs.length

/-- Put `x` at position `p`, moving the rest up. -/
def insertAt (xs : List α) (p : ℕ) (x : α) : List α := xs.take p ++ x :: xs.drop p

theorem slotOf_spec [IsTrans α r] {xs : List α} (hs : xs.Pairwise r) (x : α) :
    slotOf r xs x ≤ xs.length ∧ (∀ y ∈ xs.take (slotOf r xs x), r y x) ∧
      ∀ y ∈ xs.drop (slotOf r xs x), ¬ r y x := by
  have hmono : ∀ i j : ℕ, i ≤ j → ((xs[j]?).any fun y => decide (r y x)) = true →
      ((xs[i]?).any fun y => decide (r y x)) = true := by
    intro i j hij hj
    rcases Nat.eq_or_lt_of_le hij with rfl | hlt
    · exact hj
    · by_cases hjl : j < xs.length
      · rw [List.getElem?_eq_getElem hjl] at hj
        rw [List.getElem?_eq_getElem (by omega)]
        simp only [Option.any_some, decide_eq_true_eq] at hj ⊢
        exact IsTrans.trans _ _ _ (List.pairwise_iff_getElem.mp hs i j (by omega) hjl hlt) hj
      · rw [List.getElem?_eq_none (by omega)] at hj
        simp at hj
  obtain ⟨-, h2, h3, h4⟩ := lowerBound_spec hmono xs.length 0 xs.length (by omega) (by omega)
  refine ⟨h2, fun y hy => ?_, fun y hy => ?_⟩
  · obtain ⟨i, hi, rfl⟩ := List.getElem_of_mem hy
    rw [List.length_take] at hi
    have := h3 i (by omega) (by unfold slotOf at hi; omega)
    rw [List.getElem?_eq_getElem (by omega)] at this
    simpa using this
  · obtain ⟨i, hi, rfl⟩ := List.getElem_of_mem hy
    rw [List.length_drop] at hi
    have := h4 (slotOf r xs x + i) (by unfold slotOf; omega) (by omega)
    rw [List.getElem?_eq_getElem (by omega)] at this
    rw [List.getElem_drop]
    simpa using this

theorem slotOf_eq_countP [IsTrans α r] {xs : List α} (hs : xs.Pairwise r) (x : α) :
    slotOf r xs x = xs.countP fun y => decide (r y x) := by
  obtain ⟨hle, hlo, hhi⟩ := slotOf_spec (r := r) hs x
  have hbelow : (xs.take (slotOf r xs x)).countP (fun y => decide (r y x)) =
      (xs.take (slotOf r xs x)).length :=
    List.countP_eq_length.mpr fun y hy => decide_eq_true (hlo y hy)
  have habove : (xs.drop (slotOf r xs x)).countP (fun y => decide (r y x)) = 0 :=
    List.countP_eq_zero.mpr fun y hy => by simpa using hhi y hy
  conv_rhs => rw [← List.take_append_drop (slotOf r xs x) xs]
  rw [List.countP_append, hbelow, habove, Nat.add_zero, List.length_take_of_le hle]

theorem length_insertAt {xs : List α} {p : ℕ} (hp : p ≤ xs.length) (x : α) :
    (insertAt xs p x).length = xs.length + 1 := by
  simp only [insertAt, List.length_append, List.length_take, List.length_cons, List.length_drop]
  omega

theorem map_insertAt {β : Type} (f : α → β) (xs : List α) (p : ℕ) (x : α) :
    (insertAt xs p x).map f = insertAt (xs.map f) p (f x) := by
  rw [insertAt, insertAt, List.map_append, List.map_cons, List.map_take, List.map_drop]

theorem insertAt_perm (xs : List α) (p : ℕ) (x : α) : (insertAt xs p x).Perm (x :: xs) := by
  refine List.perm_middle.trans ?_
  rw [List.take_append_drop]

theorem eraseIdx_perm {xs : List α} {p : ℕ} {x : α} (h : xs[p]? = some x) :
    xs.Perm (x :: xs.eraseIdx p) := by
  obtain ⟨hp, rfl⟩ := List.getElem?_eq_some_iff.mp h
  rw [List.eraseIdx_eq_take_drop_succ]
  refine List.Perm.trans (List.Perm.of_eq ?_) List.perm_middle
  rw [← List.drop_eq_getElem_cons hp, List.take_append_drop]

variable [IsStrictTotalOrder α r]

theorem pairwise_insertAt {xs : List α} (hs : xs.Pairwise r) {x : α} (hx : x ∉ xs) :
    (insertAt xs (slotOf r xs x) x).Pairwise r := by
  obtain ⟨-, hlo, hhi⟩ := slotOf_spec (r := r) hs x
  have hgt : ∀ y ∈ xs.drop (slotOf r xs x), r x y := by
    intro y hy
    by_contra hxy
    have := Std.Trichotomous.trichotomous (r := r) x y hxy (hhi y hy)
    exact hx (this ▸ List.mem_of_mem_drop hy)
  rw [insertAt, List.pairwise_append, List.pairwise_cons]
  refine ⟨hs.sublist (List.take_sublist _ _), ⟨hgt, hs.sublist (List.drop_sublist _ _)⟩, fun y hy z hz => ?_⟩
  rcases List.mem_cons.mp hz with rfl | hz
  · exact hlo y hy
  · exact IsTrans.trans _ _ _ (hlo y hy) (hgt z hz)

theorem getElem?_slotOf {xs : List α} (hs : xs.Pairwise r) {x : α} (hx : x ∈ xs) :
    xs[slotOf r xs x]? = some x := by
  obtain ⟨hle, hlo, hhi⟩ := slotOf_spec (r := r) hs x
  have hd : x ∈ xs.drop (slotOf r xs x) := by
    rw [← List.take_append_drop (slotOf r xs x) xs, List.mem_append] at hx
    rcases hx with hx | hx
    · exact absurd (hlo x hx) (Std.Irrefl.irrefl x)
    · exact hx
  have hsd := hs.sublist (List.drop_sublist (slotOf r xs x) xs)
  cases hxs : xs.drop (slotOf r xs x) with
  | nil => rw [hxs] at hd; simp at hd
  | cons y ys =>
    have hlt : slotOf r xs x < xs.length := by
      by_contra hge
      rw [List.drop_of_length_le (by omega)] at hxs
      simp at hxs
    have hy : xs[slotOf r xs x] = y := by
      rw [List.drop_eq_getElem_cons hlt] at hxs
      exact (List.cons.inj hxs).1
    rw [hxs] at hd hsd
    rw [List.getElem?_eq_getElem hlt, hy]
    rcases List.mem_cons.mp hd with rfl | hd
    · rfl
    · exact absurd ((List.pairwise_cons.mp hsd).1 x hd) (hhi y (by rw [hxs]; simp))

omit [DecidableRel r] in
theorem eq_of_mem_iff {xs ys : List α} (hx : xs.Pairwise r) (hy : ys.Pairwise r) (h : ∀ a, a ∈ xs ↔ a ∈ ys) :
    xs = ys := by
  have hne : ∀ a b, r a b → a ≠ b := fun a b hab he => Std.Irrefl.irrefl (r := r) b (he ▸ hab)
  have hp : xs.Perm ys := (List.perm_ext_iff_of_nodup (hx.imp (hne _ _)) (hy.imp (hne _ _))).mpr h
  refine hp.eq_of_pairwise (fun a b _ _ hab hba => ?_) hx hy
  exact absurd (IsTrans.trans _ _ _ hab hba) (Std.Irrefl.irrefl (r := r) a)

end Order
end PulseDB.Lib.SortedArray
