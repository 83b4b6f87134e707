import Mathlib.Data.List.TakeWhile
import Mathlib.Tactic.Common

/-!
# Intervals of lists

A loop that skips elements and then takes elements, on a list in which the elements it is after stand
together.

* `takeWhile_eq_filter`, `dropWhile_eq_filter` : a test that holds on a prefix can be made on every element;
* `takeWhile_dropWhile_eq_filter` : the elements between two such tests;
* `atIndexes lo hi xs` : the elements at the indexes from `lo` to `hi`; `atIndexes_eq` : they are a slice.
-/

namespace PulseDB.Lib

variable {α : Type}

section Prefix
variable {p q : α → Bool}

theorem takeWhile_eq_filter : ∀ {l : List α}, (l.Pairwise fun x y => p y = true → p x = true) →
    l.takeWhile p = l.filter p
  | [], _ => rfl
  | a :: l, h => by
    obtain ⟨hhead, htail⟩ := List.pairwise_cons.mp h
    by_cases ha : p a = true
    · rw [List.takeWhile_cons_of_pos ha, List.filter_cons_of_pos ha, takeWhile_eq_filter htail]
    · rw [List.takeWhile_cons_of_neg ha, List.filter_cons_of_neg ha]
      exact (List.filter_eq_nil_iff.mpr fun b hb hpb => ha (hhead b hb hpb)).symm

theorem dropWhile_eq_filter : ∀ {l : List α}, (l.Pairwise fun x y => p y = true → p x = true) →
    l.dropWhile p = l.filter fun x => !p x
  | [], _ => rfl
  | a :: l, h => by
    obtain ⟨hhead, htail⟩ := List.pairwise_cons.mp h
    by_cases ha : p a = true
    · rw [List.dropWhile_cons_of_pos ha, List.filter_cons_of_neg (by simp [ha]), dropWhile_eq_filter htail]
    · -- nothing behind the first element that fails passes
      rw [List.dropWhile_cons_of_neg ha]
      refine (List.filter_eq_self.mpr fun b hb => ?_).symm
      rcases List.mem_cons.mp hb with rfl | hb
      · simp [ha]
      · have hpb : ¬ p b = true := fun hpb => ha (hhead b hb hpb)
        simp [hpb]

theorem takeWhile_dropWhile_eq_filter {l : List α} (hp : l.Pairwise fun x y => p y = true → p x = true)
    (hq : l.Pairwise fun x y => q y = true → q x = true) :
    (l.dropWhile p).takeWhile q = l.filter fun x => !p x && q x := by
  rw [takeWhile_eq_filter (hq.sublist (List.dropWhile_sublist p)), dropWhile_eq_filter hp, List.filter_filter]
  simp only [Bool.and_comm]

end Prefix

section Index

/-- The elements at the indexes from `lo` to `hi`, both included. -/
def atIndexes (lo hi : Int) (xs : List α) : List α :=
  (xs.zipIdx.filter fun x => decide (lo ≤ (x.2 : Int) ∧ (x.2 : Int) ≤ hi)).map Prod.fst

theorem filter_zipIdx : ∀ (xs : List α) (k first stop : ℕ),
    ((xs.zipIdx k).filter fun x => decide (first ≤ x.2 ∧ x.2 < stop)).map Prod.fst =
      (xs.drop (first - k)).take (stop - max first k)
  | [], k, first, stop => by rw [List.drop_nil, List.take_nil]; rfl
  | x :: xs, k, first, stop => by
    rw [List.zipIdx_cons, List.filter_cons]
    by_cases hbefore : k < first
    · rw [if_neg (by simp; omega), filter_zipIdx xs (k + 1) first stop, ← Nat.sub_add_cancel
        (Nat.sub_pos_of_lt hbefore),
        List.drop_succ_cons, Nat.sub_sub, Nat.max_eq_left hbefore, Nat.max_eq_left hbefore.le]
    · have hzero : first - k = 0 := by omega
      have hmax : max first k = k := by omega
      rw [hzero, hmax, List.drop_zero]
      by_cases hin : k < stop
      · have hzero' : first - (k + 1) = 0 := by omega
        have hmax' : max first (k + 1) = k + 1 := by omega
        have hcount : stop - k = stop - (k + 1) + 1 := by omega
        rw [if_pos (by simp; omega), List.map_cons, filter_zipIdx xs (k + 1) first stop, hzero', hmax',
          List.drop_zero, hcount, List.take_succ_cons]
      · have hstop : stop - k = 0 := by omega
        have hstop' : stop - max first (k + 1) = 0 := by omega
        rw [if_neg (by simp; omega), filter_zipIdx xs (k + 1) first stop, hstop, hstop', List.take_zero,
          List.take_zero]

theorem atIndexes_eq {lo hi : Int} {xs : List α} {first stop : ℕ}
    (h : ∀ i < xs.length, (lo ≤ (i : Int) ∧ (i : Int) ≤ hi) ↔ (first ≤ i ∧ i < stop)) :
    atIndexes lo hi xs = (xs.drop first).take (stop - first) := by
  have hslice := filter_zipIdx xs 0 first stop
  rw [Nat.sub_zero, Nat.max_zero] at hslice
  rw [← hslice]
  refine congrArg (List.map Prod.fst) (List.filter_congr fun x hx => ?_)
  have hlt : x.2 < xs.length := by
    have hlt := List.snd_lt_of_mem_zipIdx hx
    rwa [Nat.add_zero] at hlt
  exact decide_eq_decide.mpr (h x.2 hlt)

theorem atIndexes_eq_nil {lo hi : Int} {xs : List α}
    (h : ∀ i < xs.length, ¬ (lo ≤ (i : Int) ∧ (i : Int) ≤ hi)) :
    atIndexes lo hi xs = [] := by
  have hslice : atIndexes lo hi xs = (xs.drop 0).take (0 - 0) :=
    atIndexes_eq fun i hi => iff_of_false (h i hi) fun hlt => Nat.not_lt_zero i hlt.2
  rw [hslice, List.take_zero]

end Index
end PulseDB.Lib
