import Mathlib.Data.List.TakeWhile
import Mathlib.Algebra.Group.Nat.Defs

/-!
# Growable blocks

A sequence kept in the first cells of a block of memory. The cells behind it hold anything. A step outside the
block has no result, and neither has a loop that does not end.

* `copyTo`, `slice`, `resize` : write some cells, read some cells, reallocate;
* `doubling` : the loop `while (cap < need) cap *= 2` in unsigned arithmetic; `doubling_eq` : it ends when
  twice the need can be represented;
* `Block` : a block with the length of its sequence; `Block.contents`, `Block.Sound`;
* `Block.Sound.resized`, `Block.Sound.appended`, `Block.Sound.cleared`, `Block.Sound.shifted` : what the steps
  do to the sequence.
-/

namespace PulseDB.Lib

variable {τ : Type}

/-! ## Memory -/

/-- Copy some elements to the cells from `pos` on. -/
def copyTo (data : List τ) (pos : ℕ) (src : List τ) : Option (List τ) :=
  if pos + src.length ≤ data.length then some (data.take pos ++ src ++ data.drop (pos + src.length)) else none

/-- The `n` cells from `pos` on. -/
def slice (data : List τ) (pos n : ℕ) : Option (List τ) :=
  if pos + n ≤ data.length then some ((data.drop pos).take n) else none

/-- Reallocate a block: the old cells are kept as far as they fit, and the new ones hold what `fresh` says. -/
def resize (data : List τ) (cap : ℕ) (fresh : ℕ → τ) : List τ :=
  data.take cap ++ (List.range (cap - data.length)).map fresh

theorem slice_eq {data : List τ} {pos n : ℕ} (h : pos + n ≤ data.length) :
    slice data pos n = some ((data.drop pos).take n) := if_pos h

theorem length_resize (data : List τ) (cap : ℕ) (fresh : ℕ → τ) : (resize data cap fresh).length = cap := by
  rw [resize, List.length_append, List.length_take, List.length_map, List.length_range]
  omega

theorem take_resize {data : List τ} {cap n : ℕ} (fresh : ℕ → τ) (hn : n ≤ data.length)
    (hcap : data.length ≤ cap) :
    (resize data cap fresh).take n = data.take n := by
  rw [resize, List.take_of_length_le hcap, List.take_append_of_le_length hn]

/-- A copy within the block: the block keeps its size, and the front is the old front with the copy behind
it. -/
theorem exists_copyTo {data src : List τ} {pos : ℕ} (h : pos + src.length ≤ data.length) :
    ∃ data', copyTo data pos src = some data' ∧ data'.length = data.length ∧
      data'.take (pos + src.length) = data.take pos ++ src := by
  refine ⟨_, if_pos h, ?_, ?_⟩
  · rw [List.length_append, List.length_append, List.length_take, List.length_drop]
    omega
  · have hfront : (data.take pos ++ src).length = pos + src.length := by
      rw [List.length_append, List.length_take]
      omega
    rw [← hfront, List.take_left]

/-- One cell is written: the front of the block ends with it, and the cells behind stay as they are. -/
theorem exists_copyTo_one {data : List τ} {pos : ℕ} (x : τ) (h : pos < data.length) :
    ∃ data', copyTo data pos [x] = some data' ∧ data'.length = data.length ∧ data'.take (pos + 1) =
      data.take pos ++ [x] ∧
      ∀ i, pos < i → data'.drop i = data.drop i := by
  obtain ⟨data', hcopy, hlen, htake⟩ := exists_copyTo (show pos + [x].length ≤ data.length from h)
  refine ⟨data', hcopy, hlen, htake, fun i hi => ?_⟩
  have hfront : (data.take pos ++ [x]).length = pos + 1 := by simp [Nat.min_eq_left h.le]
  have hdata : data.take pos ++ [x] ++ data.drop (pos + 1) = data' :=
    Option.some.inj ((if_pos h).symm.trans hcopy)
  obtain ⟨k, rfl⟩ := Nat.exists_eq_add_of_le hi
  rw [← List.drop_drop, ← List.drop_drop, ← hdata, List.drop_left' hfront]

/-- The cells from `pos` on are moved up by one, and the gap is filled. -/
theorem exists_insert_cells {data : List τ} {pos len : ℕ} (x : τ) (hpos : pos ≤ len)
    (hlen : len < data.length) :
    ∃ moved data₁ data₂, slice data pos (len - pos) = some moved ∧ copyTo data (pos + 1) moved = some data₁ ∧
      copyTo data₁ pos [x] = some data₂ ∧ data₂.length = data.length ∧
      data₂.take (len + 1) = (data.take len).take pos ++ x :: (data.take len).drop pos := by
  have hmoved : ((data.drop pos).take (len - pos)).length = len - pos := by
    rw [List.length_take, List.length_drop]
    omega
  obtain ⟨data₁, hcopy₁, hlen₁, htake₁⟩ :=
    exists_copyTo (show pos + 1 + ((data.drop pos).take (len - pos)).length ≤ data.length by omega)
  obtain ⟨data₂, hcopy₂, hlen₂, htake₂, hdrop₂⟩ := exists_copyTo_one x (show pos < data₁.length by omega)
  refine ⟨_, data₁, data₂, slice_eq (by omega), hcopy₁, hcopy₂, hlen₂.trans hlen₁, ?_⟩
  rw [hmoved, show pos + 1 + (len - pos) = len + 1 by omega] at htake₁
  have hfront : data₁.take pos = data.take pos := by
    have hle := congrArg (List.take pos) htake₁
    rwa [List.take_take, Nat.min_eq_left (by omega), List.take_append_of_le_length
      (by rw [List.length_take]; omega), List.take_take, Nat.min_eq_left (by omega)] at hle
  have hback : (data₁.drop (pos + 1)).take (len - pos) = (data.drop pos).take (len - pos) := by
    have hge := congrArg (List.drop (pos + 1)) htake₁
    rwa [List.drop_take, show len + 1 - (pos + 1) = len - pos by omega,
      List.drop_left' (by rw [List.length_take]; omega)] at hge
  calc data₂.take (len + 1) = data₂.take (pos + 1) ++ (data₂.drop (pos + 1)).take (len - pos) := by
        rw [show len + 1 = pos + 1 + (len - pos) by omega, List.take_add]
    _ = data.take pos ++ [x] ++ (data.drop pos).take (len - pos) := by
        rw [htake₂, hfront, hdrop₂ _ (Nat.lt_succ_self pos), hback]
    _ = (data.take len).take pos ++ x :: (data.take len).drop pos := by
        rw [List.take_take, Nat.min_eq_left hpos, List.drop_take, List.append_assoc, List.singleton_append]

theorem exists_remove_cells {data : List τ} {pos len : ℕ} (hpos : pos < len) (hlen : len ≤ data.length) :
    ∃ moved data', slice data (pos + 1) (len - pos - 1) = some moved ∧ copyTo data pos moved = some data' ∧
      data'.length = data.length ∧ data'.take (len - 1) = (data.take len).eraseIdx pos := by
  have hmoved : ((data.drop (pos + 1)).take (len - pos - 1)).length = len - pos - 1 := by
    rw [List.length_take, List.length_drop]
    omega
  obtain ⟨data', hcopy, hlen', htake⟩ :=
    exists_copyTo (show pos + ((data.drop (pos + 1)).take (len - pos - 1)).length ≤ data.length by omega)
  refine ⟨_, data', slice_eq (by omega), hcopy, hlen', ?_⟩
  rw [hmoved, show pos + (len - pos - 1) = len - 1 by omega] at htake
  rw [htake, List.eraseIdx_eq_take_drop_succ, List.take_take, Nat.min_eq_left hpos.le, List.drop_take,
    show len - (pos + 1) = len - pos - 1 by omega]

/-! ## The growth of a block -/

/-- The loop `while (cap < need) cap *= 2`, in at most `rounds` tests and modulo `limit`. -/
def doubling (limit need : ℕ) : (rounds : ℕ) → (cap : ℕ) → Option ℕ
  | 0, _ => none
  | rounds + 1, cap => if cap < need then doubling limit need rounds (cap * 2 % limit) else some cap

theorem doubling_eq {limit need : ℕ} (hlimit : 2 * need ≤ limit) : ∀ {rounds cap : ℕ}, 0 < cap →
    need ≤ cap * 2 ^ rounds → ∃ cap', doubling limit need (rounds + 1) cap = some cap' ∧
    need ≤ cap' ∧ cap ≤ cap'
  | 0, cap, _, henough => by
    rw [Nat.pow_zero, Nat.mul_one] at henough
    exact ⟨cap, if_neg (Nat.not_lt.mpr henough), henough, Nat.le_refl _⟩
  | rounds + 1, cap, hcap, henough => by
    rw [doubling]
    by_cases hlt : cap < need
    · have hmod : cap * 2 % limit = cap * 2 := Nat.mod_eq_of_lt (by omega)
      have hnext : need ≤ cap * 2 * 2 ^ rounds := by
        rw [Nat.mul_assoc, ← Nat.pow_succ']
        exact henough
      obtain ⟨cap', hloop, hneed, hle⟩ := doubling_eq hlimit (show 0 < cap * 2 by omega) hnext
      rw [if_pos hlt, hmod]
      exact ⟨cap', hloop, hneed, by omega⟩
    · exact ⟨cap, if_neg hlt, Nat.not_lt.mp hlt, Nat.le_refl _⟩

/-! ## Blocks -/

/-- A block of memory with the length of the sequence in it and the size it is taken to have. -/
structure Block (τ : Type) where
  data : List τ
  len : ℕ
  cap : ℕ
  deriving DecidableEq

namespace Block

def empty : Block τ := ⟨[], 0, 0⟩

def contents (b : Block τ) : List τ := b.data.take b.len

/-- The block has the size it is taken to have, and the sequence fits. -/
structure Sound (b : Block τ) : Prop where
  size : b.data.length = b.cap
  fits : b.len ≤ b.cap

namespace Sound
variable {b : Block τ}

theorem empty : (empty : Block τ).Sound := ⟨rfl, Nat.le_refl _⟩

theorem length_contents (h : b.Sound) : b.contents.length = b.len := by
  rw [contents, List.length_take, h.size, Nat.min_eq_left h.fits]

theorem resized (h : b.Sound) {cap : ℕ} (fresh : ℕ → τ) (hcap : b.cap ≤ cap) :
    Sound ⟨resize b.data cap fresh, b.len, cap⟩ ∧ contents ⟨resize b.data cap fresh, b.len, cap⟩ =
      b.contents := by
  refine ⟨⟨length_resize _ _ _, h.fits.trans hcap⟩, ?_⟩
  apply take_resize fresh
  · rw [h.size]
    exact h.fits
  · rw [h.size]
    exact hcap

theorem appended (h : b.Sound) {src : List τ} (hroom : b.len + src.length ≤ b.cap) :
    ∃ data, copyTo b.data b.len src = some data ∧ Sound ⟨data, b.len + src.length, b.cap⟩ ∧
      contents ⟨data, b.len + src.length, b.cap⟩ = b.contents ++ src := by
  obtain ⟨data, hcopy, hlen, htake⟩ := exists_copyTo (h.size.symm ▸ hroom)
  exact ⟨data, hcopy, ⟨hlen.trans h.size, hroom⟩, htake⟩

theorem cleared (h : b.Sound) : Sound ⟨b.data, 0, b.cap⟩ ∧ contents ⟨b.data, 0, b.cap⟩ = [] :=
  ⟨⟨h.size, Nat.zero_le _⟩, List.take_zero⟩

theorem slice_contents (h : b.Sound) {n : ℕ} (hn : n ≤ b.len) :
    slice b.data n (b.len - n) = some (b.contents.drop n) := by
  have hfits := h.fits
  have hsize := h.size
  rw [slice_eq (by omega), contents, List.drop_take]

/-- The sequence without its first elements, moved to the front of the block. -/
theorem shifted (h : b.Sound) (n : ℕ) :
    ∃ data, copyTo b.data 0 (b.contents.drop n) = some data ∧ Sound ⟨data, b.len - n, b.cap⟩ ∧
      contents ⟨data, b.len - n, b.cap⟩ = b.contents.drop n := by
  have hmoved : (b.contents.drop n).length = b.len - n := by rw [List.length_drop, h.length_contents]
  have hroom : 0 + (b.contents.drop n).length ≤ b.data.length := by
    rw [Nat.zero_add, hmoved, h.size]
    exact (Nat.sub_le _ _).trans h.fits
  obtain ⟨data, hcopy, hlen, htake⟩ := exists_copyTo hroom
  rw [hmoved, Nat.zero_add, List.take_zero, List.nil_append] at htake
  exact ⟨data, hcopy, ⟨hlen.trans h.size, (Nat.sub_le _ _).trans h.fits⟩, htake⟩

end Sound
end Block
end PulseDB.Lib
