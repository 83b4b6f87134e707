import PulseDB.Geo
import PulseDB.Exact
import PulseDB.Lib.Morton
import Mathlib.Tactic.FieldSimp
import Mathlib.Tactic.Linarith
import Mathlib.Tactic.Positivity
import Mathlib.Tactic.Ring

/-!
# Geohashes round-trip

* `interleave_toNat`, `deinterleave_toNat` : the loops on machine words weave and unweave the bits of 26-bit
  numbers;
* `axisCell` : where a coordinate lies along its axis, in cells; `cellOf`, `centreOf` : its cell, and the
  centre of a cell;
* `centreOf_error`, `cellOf_centreOf` : a centre is at most half a cell away, and its cell is found again from
  it;
* `quantise_exact`, `cellCentre_exact` : with exact numbers this is what the program computes;
* `geohash_round_trip` : so hashes and coordinates are found again from each other.
-/

namespace PulseDB
open Lib

/-! ## Bits -/

theorem spread_toNat (a : UInt32) {i k : ℕ} (hi : i < 32) (hk : k < 63) :
    (((a >>> i.toUInt32) &&& 1).toUInt64 <<< k.toUInt64).toNat = ((a.toNat >>> i) &&& 1) <<< k := by
  have hone : (1 : UInt32).toNat = 1 := rfl
  have hi' : i.toUInt32.toNat % 32 = i := by
    rw [UInt32.toNat_ofNat']
    omega
  have hk' : k.toUInt64.toNat % 64 = k := by
    rw [UInt64.toNat_ofNat']
    omega
  have hbit : ((a.toNat >>> i) &&& 1) <<< k < 2 ^ 64 := by
    rw [Nat.shiftLeft_eq, Nat.and_one_is_mod]
    calc a.toNat >>> i % 2 * 2 ^ k ≤ 1 * 2 ^ k := Nat.mul_le_mul_right _ (by omega)
      _ < 2 ^ 64 := by
        rw [Nat.one_mul]
        exact Nat.pow_lt_pow_right (by decide) (by omega)
  rw [UInt64.toNat_shiftLeft, UInt32.toNat_toUInt64, UInt32.toNat_and, UInt32.toNat_shiftRight,
    hone, hi', hk', Nat.mod_eq_of_lt hbit]

theorem gather_toNat (h : UInt64) {i k : ℕ} (hi : i < 64) (hk : k < 31) :
    (((h >>> i.toUInt64) &&& 1).toUInt32 <<< k.toUInt32).toNat = ((h.toNat >>> i) &&& 1) <<< k := by
  have hone : (1 : UInt64).toNat = 1 := rfl
  have hi' : i.toUInt64.toNat % 64 = i := by
    rw [UInt64.toNat_ofNat']
    omega
  have hk' : k.toUInt32.toNat % 32 = k := by
    rw [UInt32.toNat_ofNat']
    omega
  have hlow : ((h.toNat >>> i) &&& 1) % 2 ^ 32 = (h.toNat >>> i) &&& 1 := by
    rw [Nat.and_one_is_mod]
    omega
  have hbit : ((h.toNat >>> i) &&& 1) <<< k < 2 ^ 32 := by
    rw [Nat.shiftLeft_eq, Nat.and_one_is_mod]
    calc h.toNat >>> i % 2 * 2 ^ k ≤ 1 * 2 ^ k := Nat.mul_le_mul_right _ (by omega)
      _ < 2 ^ 32 := by
        rw [Nat.one_mul]
        exact Nat.pow_lt_pow_right (by decide) (by omega)
  rw [UInt32.toNat_shiftLeft, UInt64.toNat_toUInt32, UInt64.toNat_and, UInt64.toNat_shiftRight, hone,
    hi', hk', hlow, Nat.mod_eq_of_lt hbit]

theorem interleave_toNat (latInt lngInt : UInt32) :
    (interleave latInt lngInt).toNat = weave geoBits latInt.toNat lngInt.toNat := by
  -- the first `n` rounds of the loop
  have hloop : ∀ n ≤ geoBits, ((List.range n).foldl (fun result i =>
      let result := result ||| (((latInt >>> i.toUInt32) &&& 1).toUInt64 <<< (2 * i).toUInt64)
      result ||| (((lngInt >>> i.toUInt32) &&& 1).toUInt64 <<< (2 * i + 1).toUInt64)) (0 : UInt64)).toNat =
        weave n latInt.toNat lngInt.toNat := by
    intro n
    induction n with
    | zero => intro _; rfl
    | succ n ih =>
      intro hn
      have hn' : n < 26 := hn
      rw [List.range_succ, List.foldl_append, List.foldl_cons, List.foldl_nil, weave, ← ih (by omega)]
      simp only [UInt64.toNat_or]
      rw [spread_toNat latInt (by omega) (by omega), spread_toNat lngInt (by omega) (by omega)]
  exact hloop geoBits (Nat.le_refl _)

theorem deinterleave_toNat (hash : UInt64) :
    (deinterleave hash).1.toNat = unweave geoBits 0 hash.toNat ∧
      (deinterleave hash).2.toNat = unweave geoBits 1 hash.toNat := by
  have hloop : ∀ n ≤ geoBits, ∀ r, r = (List.range n).foldl (fun cells i =>
      (cells.1 ||| (((hash >>> (2 * i).toUInt64) &&& 1).toUInt32 <<< i.toUInt32),
        cells.2 ||| (((hash >>> (2 * i + 1).toUInt64) &&& 1).toUInt32 <<< i.toUInt32))) ((0 : UInt32),
          (0 : UInt32)) →
      r.1.toNat = unweave n 0 hash.toNat ∧ r.2.toNat = unweave n 1 hash.toNat := by
    intro n
    induction n with
    | zero =>
      rintro _ r rfl
      exact ⟨rfl, rfl⟩
    | succ n ih =>
      rintro hn r rfl
      have hn' : n < 26 := hn
      obtain ⟨hlat, hlng⟩ := ih (by omega) _ rfl
      rw [List.range_succ, List.foldl_append, List.foldl_cons, List.foldl_nil, unweave,
        unweave, ← hlat, ← hlng]
      simp only [UInt32.toNat_or]
      rw [gather_toNat hash (by omega) (by omega), gather_toNat hash (by omega) (by omega)]
      exact ⟨rfl, rfl⟩
  exact hloop geoBits (Nat.le_refl _) _ rfl

theorem interleave_lt (latInt lngInt : UInt32) : (interleave latInt lngInt).toNat < 2 ^ 52 := by
  rw [interleave_toNat]
  exact weave_lt geoBits _ _

theorem deinterleave_lt (hash : UInt64) :
    (deinterleave hash).1.toNat < 2 ^ 26 ∧ (deinterleave hash).2.toNat < 2 ^ 26 := by
  obtain ⟨hlat, hlng⟩ := deinterleave_toNat hash
  rw [hlat, hlng]
  exact ⟨unweave_lt geoBits 0 _, unweave_lt geoBits 1 _⟩

theorem deinterleave_interleave {latInt lngInt : UInt32} (hlat : latInt.toNat < 2 ^ 26)
    (hlng : lngInt.toNat < 2 ^ 26) :
    deinterleave (interleave latInt lngInt) = (latInt, lngInt) := by
  obtain ⟨h1, h2⟩ := deinterleave_toNat (interleave latInt lngInt)
  obtain ⟨h3, h4⟩ := unweave_weave (n := geoBits) hlat hlng
  rw [interleave_toNat, h3] at h1
  rw [interleave_toNat, h4] at h2
  exact Prod.ext (UInt32.toNat_inj.mp h1) (UInt32.toNat_inj.mp h2)

theorem interleave_deinterleave {hash : UInt64} (h : hash.toNat < 2 ^ 52) :
    interleave (deinterleave hash).1 (deinterleave hash).2 = hash := by
  obtain ⟨hlat, hlng⟩ := deinterleave_toNat hash
  apply UInt64.toNat_inj.mp
  rw [interleave_toNat, hlat, hlng, weave_unweave (n := geoBits) h]

/-! ## Cells -/

/-- The number of cells along an axis. -/
def cells : ℚ := 2 ^ 26

/-- Where a coordinate lies along its axis, in cells. -/
def axisCell (v lo hi : ℚ) : ℚ := (v - lo) / (hi - lo) * cells

/-- The cell of a coordinate; the upper end belongs to the last one. -/
def cellOf (v lo hi : ℚ) : ℕ := ⌊min (axisCell v lo hi) (cells - 1)⌋₊

def centreOf (cell : ℕ) (lo hi : ℚ) : ℚ := lo + (cell + 1 / 2) / cells * (hi - lo)

section Axis
variable {v lo hi : ℚ}

theorem axisCell_range (hlo : lo ≤ v) (hhi : v ≤ hi) (haxis : lo < hi) :
    0 ≤ axisCell v lo hi ∧ axisCell v lo hi ≤ cells := by
  have hwidth : 0 < hi - lo := sub_pos.mpr haxis
  have hcells : (0 : ℚ) ≤ cells := by unfold cells; positivity
  have hfrac : 0 ≤ (v - lo) / (hi - lo) := div_nonneg (sub_nonneg.mpr hlo) hwidth.le
  have hfrac' : (v - lo) / (hi - lo) ≤ 1 := (div_le_one hwidth).mpr (by linarith)
  refine ⟨mul_nonneg hfrac hcells, ?_⟩
  calc axisCell v lo hi ≤ 1 * cells := mul_le_mul_of_nonneg_right hfrac' hcells
    _ = cells := one_mul _

theorem cellOf_lt (v lo hi : ℚ) : cellOf v lo hi < 2 ^ 26 := by
  refine (Nat.floor_le_of_le (n := 2 ^ 26 - 1) ((min_le_right _ _).trans ?_)).trans_lt (by decide)
  unfold cells
  norm_num

/-- A coordinate is at most half a cell away from the centre of its cell. -/
theorem cellOf_error (hlo : lo ≤ v) (hhi : v ≤ hi) (haxis : lo < hi) :
    |(cellOf v lo hi : ℚ) + 1 / 2 - axisCell v lo hi| ≤ 1 / 2 := by
  obtain ⟨hnonneg, hle⟩ := axisCell_range hlo hhi haxis
  have hone : (1 : ℚ) ≤ cells := by unfold cells; norm_num
  have hmin : 0 ≤ min (axisCell v lo hi) (cells - 1) := le_min hnonneg (sub_nonneg.mpr hone)
  have hbelow : (cellOf v lo hi : ℚ) ≤ min (axisCell v lo hi) (cells - 1) := Nat.floor_le hmin
  have habove : min (axisCell v lo hi) (cells - 1) < (cellOf v lo hi : ℚ) + 1 := Nat.lt_floor_add_one _
  rw [abs_le]
  have hcell : (cellOf v lo hi : ℚ) ≤ axisCell v lo hi := hbelow.trans (min_le_left _ _)
  rcases le_total (axisCell v lo hi) (cells - 1) with hcase | hcase
  · rw [min_eq_left hcase] at habove
    constructor <;> linarith
  · -- the last cell reaches up to the end of the axis
    rw [min_eq_right hcase] at hbelow habove
    have hlast : cells - 1 ≤ (cellOf v lo hi : ℚ) := by
      have hcast : (cells - 1 : ℚ) = ((2 ^ 26 - 1 : ℕ) : ℚ) := by unfold cells; norm_num
      rw [hcast] at habove ⊢
      exact_mod_cast Nat.lt_succ_iff.mp (by exact_mod_cast habove)
    constructor <;> linarith

theorem centreOf_error (hlo : lo ≤ v) (hhi : v ≤ hi) (haxis : lo < hi) :
    |centreOf (cellOf v lo hi) lo hi - v| ≤ (hi - lo) / cells / 2 := by
  have hwidth : 0 < hi - lo := sub_pos.mpr haxis
  have hcells : (0 : ℚ) < cells := by unfold cells; positivity
  have hdiff : centreOf (cellOf v lo hi) lo hi - v =
      ((cellOf v lo hi : ℚ) + 1 / 2 - axisCell v lo hi) * ((hi - lo) / cells) := by
    unfold centreOf axisCell
    field_simp
    ring
  have hscale : 0 < (hi - lo) / cells := div_pos hwidth hcells
  rw [hdiff, abs_mul, abs_of_pos hscale]
  calc |(cellOf v lo hi : ℚ) + 1 / 2 - axisCell v lo hi| * ((hi - lo) / cells)
      ≤ 1 / 2 * ((hi - lo) / cells) := mul_le_mul_of_nonneg_right (cellOf_error hlo hhi haxis) hscale.le
    _ = (hi - lo) / cells / 2 := by ring

theorem cellOf_centreOf {cell : ℕ} (hcell : cell < 2 ^ 26) (haxis : lo < hi) :
    cellOf (centreOf cell lo hi) lo hi = cell := by
  have hwidth : hi - lo ≠ 0 := (sub_pos.mpr haxis).ne'
  have hcells : (cells : ℚ) ≠ 0 := by unfold cells; positivity
  have haxisCell : axisCell (centreOf cell lo hi) lo hi = cell + 1 / 2 := by
    unfold axisCell centreOf
    field_simp
    ring
  have hcell' : (cell : ℚ) ≤ cells - 1 := by
    have hcast : (cells - 1 : ℚ) = ((2 ^ 26 - 1 : ℕ) : ℚ) := by unfold cells; norm_num
    rw [hcast]
    exact_mod_cast Nat.le_sub_one_of_lt hcell
  unfold cellOf
  rw [haxisCell, Nat.floor_eq_iff (le_min (by positivity) ((Nat.cast_nonneg cell).trans hcell'))]
  refine ⟨le_min (by linarith) hcell', (min_le_left _ _).trans_lt (by linarith)⟩

theorem centreOf_range {cell : ℕ} (hcell : cell < 2 ^ 26) (haxis : lo < hi) :
    lo ≤ centreOf cell lo hi ∧ centreOf cell lo hi ≤ hi := by
  have hwidth : 0 < hi - lo := sub_pos.mpr haxis
  have hcells : (0 : ℚ) < cells := by unfold cells; positivity
  have hcell' : (cell : ℚ) + 1 ≤ cells := by
    unfold cells
    exact_mod_cast hcell
  have hfrac : 0 ≤ ((cell : ℚ) + 1 / 2) / cells := by positivity
  have hfrac' : ((cell : ℚ) + 1 / 2) / cells ≤ 1 := (div_le_one hcells).mpr (by linarith)
  have hle : ((cell : ℚ) + 1 / 2) / cells * (hi - lo) ≤ 1 * (hi - lo) :=
    mul_le_mul_of_nonneg_right hfrac' hwidth.le
  have hge : 0 ≤ ((cell : ℚ) + 1 / 2) / cells * (hi - lo) := mul_nonneg hfrac hwidth.le
  unfold centreOf
  exact ⟨by linarith, by linarith⟩

end Axis

/-! ## Hashes -/

def latMin : ℚ := decimalValue "-85.05112878"

def latMax : ℚ := decimalValue "85.05112878"

def lngMin : ℚ := decimalValue "-180.0"

def lngMax : ℚ := decimalValue "180.0"

theorem axes : latMin < latMax ∧ lngMin < lngMax := by decide +kernel

section Exact
variable {D : Type} [LinearOrder D] {libc : Libc D} {num : ℚ → D} (h : libc.Exact num)
include h

theorem geoCells_exact : geoCells libc = some (num cells) := by
  have hcells : (((67108864 : UInt64).toNat : ℕ) : ℚ) = cells := rfl
  rw [geoCells, h.ofUInt64 _ (by decide), hcells]

theorem quantise_exact {v lo hi : ℚ} (hlo : lo ≤ v) (hhi : v ≤ hi) (haxis : lo < hi) :
    quantise libc (some (num v)) (some (num lo)) (some (num hi)) = UInt32.ofNat (cellOf v lo hi) := by
  obtain ⟨hnonneg, -⟩ := axisCell_range hlo hhi haxis
  have hlast : (((67108863 : UInt64).toNat : ℕ) : ℚ) = cells - 1 := by
    rw [show (67108863 : UInt64).toNat = 67108863 from rfl, cells]
    norm_num
  have hone : (0 : ℚ) ≤ cells - 1 := by
    unfold cells
    norm_num
  have hcell : libc.mul (libc.div (libc.sub (some (num v)) (some (num lo)))
    (libc.sub (some (num hi)) (some (num lo))))
      (geoCells libc) = some (num (axisCell v lo hi)) := by
    rw [h.sub, h.sub, h.div _ _ (sub_pos.mpr haxis).ne', geoCells_exact h, h.mul]
    rfl
  have hclamp : (if Double.lt (some (num (cells - 1))) (some (num (axisCell v lo hi)))
      then some (num (cells - 1)) else some (num (axisCell v lo hi))) = some (num (min (axisCell v lo hi) (cells - 1))) := by
    rw [h.lt]
    by_cases hlt : cells - 1 < axisCell v lo hi
    · rw [if_pos (decide_eq_true hlt), min_eq_right hlt.le]
    · rw [if_neg (by rw [decide_eq_true_iff]; exact hlt), min_eq_left (not_lt.mp hlt)]
  have hnat : trunc (min (axisCell v lo hi) (cells - 1)) = (cellOf v lo hi : Int) := by
    rw [trunc_of_nonneg (le_min hnonneg hone), cellOf, Int.natCast_floor_eq_floor (le_min hnonneg hone)]
  have hlt := cellOf_lt v lo hi
  unfold quantise
  simp only
  rw [hcell, h.lit, h.ofUInt64 _ (by decide), hlast, decimalValue_zero, h.lt,
    decide_eq_false (not_lt.mpr hnonneg),
    if_neg Bool.false_ne_true, hclamp, h.toUInt32 _ (by omega) (by omega), hnat]
  rfl

theorem quantise_toNat {v lo hi : ℚ} (hlo : lo ≤ v) (hhi : v ≤ hi) (haxis : lo < hi) :
    (quantise libc (some (num v)) (some (num lo)) (some (num hi))).toNat = cellOf v lo hi := by
  have hlt := cellOf_lt v lo hi
  rw [quantise_exact h hlo hhi haxis, UInt32.toNat_ofNat']
  omega

theorem cellCentre_exact (cell : UInt32) (lo hi : ℚ) :
    cellCentre libc cell (some (num lo)) (some (num hi)) = some (num (centreOf cell.toNat lo hi)) := by
  have hhalf : decimalValue "0.5" = 1 / 2 := by decide +kernel
  have hcells : (cells : ℚ) ≠ 0 := by
    unfold cells
    norm_num
  have hsmall : cell.toUInt64.toNat ≤ 2 ^ 53 := by
    rw [UInt32.toNat_toUInt64]
    exact cell.toNat_lt.le.trans (by decide)
  rw [cellCentre, h.ofUInt64 _ hsmall, h.lit, hhalf, h.add, geoCells_exact h, h.div _ _ hcells, h.sub,
    h.mul, h.add, UInt32.toNat_toUInt64]
  rfl

theorem geoLatMin_exact : geoLatMin libc = some (num latMin) := congrArg some (h.lit _)

theorem geoLatMax_exact : geoLatMax libc = some (num latMax) := congrArg some (h.lit _)

theorem geoLngMin_exact : geoLngMin libc = some (num lngMin) := congrArg some (h.lit _)

theorem geoLngMax_exact : geoLngMax libc = some (num lngMax) := congrArg some (h.lit _)

theorem geoValid_exact {lat lng : ℚ} (hvalid : geoValid libc (num lat) (num lng) = true) :
    (latMin ≤ lat ∧ lat ≤ latMax) ∧ lngMin ≤ lng ∧ lng ≤ lngMax := by
  unfold geoValid at hvalid
  simp only [h.lit, h.le_iff, Bool.and_eq_true, decide_eq_true_eq] at hvalid
  exact ⟨hvalid.1.1, hvalid.1.2, hvalid.2⟩

theorem geoDecode_exact (hash : UInt64) : geoDecode libc hash =
    (some (num (centreOf (deinterleave hash).1.toNat latMin latMax)),
      some (num (centreOf (deinterleave hash).2.toNat lngMin lngMax))) := by
  unfold geoDecode
  rw [geoLatMin_exact h, geoLatMax_exact h, geoLngMin_exact h, geoLngMax_exact h]
  simp only [cellCentre_exact h]

theorem geoEncode_exact {lat lng : ℚ} (hlat : latMin ≤ lat ∧ lat ≤ latMax)
    (hlng : lngMin ≤ lng ∧ lng ≤ lngMax) :
    deinterleave (geoEncode libc (some (num lat)) (some (num lng))) =
      (UInt32.ofNat (cellOf lat latMin latMax), UInt32.ofNat (cellOf lng lngMin lngMax)) := by
  have hlat' := quantise_toNat h hlat.1 hlat.2 axes.1
  have hlng' := quantise_toNat h hlng.1 hlng.2 axes.2
  unfold geoEncode
  rw [geoLatMin_exact h, geoLatMax_exact h, geoLngMin_exact h, geoLngMax_exact h,
    deinterleave_interleave (hlat'.trans_lt (cellOf_lt _ _ _)) (hlng'.trans_lt (cellOf_lt _ _ _)),
    quantise_exact h hlat.1 hlat.2 axes.1, quantise_exact h hlng.1 hlng.2 axes.2]

theorem quantise_centreOf {cell : UInt32} (hcell : cell.toNat < 2 ^ 26) {lo hi : ℚ} (haxis : lo < hi) :
    quantise libc (some (num (centreOf cell.toNat lo hi))) (some (num lo)) (some (num hi)) = cell := by
  obtain ⟨hlo, hhi⟩ := centreOf_range hcell haxis
  apply UInt32.toNat_inj.mp
  rw [quantise_toNat h hlo hhi haxis, cellOf_centreOf hcell haxis]

theorem geoEncode_geoDecode {hash : UInt64} (hhash : hash.toNat < 2 ^ 52) :
    geoEncode libc (geoDecode libc hash).1 (geoDecode libc hash).2 = hash := by
  obtain ⟨hlat, hlng⟩ := deinterleave_lt hash
  unfold geoEncode
  rw [geoDecode_exact h, geoLatMin_exact h, geoLatMax_exact h, geoLngMin_exact h, geoLngMax_exact h,
    quantise_centreOf h hlat axes.1, quantise_centreOf h hlng axes.2, interleave_deinterleave hhash]

theorem geoDecode_geoEncode {lat lng : ℚ} (hlat : latMin ≤ lat ∧ lat ≤ latMax)
    (hlng : lngMin ≤ lng ∧ lng ≤ lngMax) :
    geoDecode libc (geoEncode libc (some (num lat)) (some (num lng))) =
      (some (num (centreOf (cellOf lat latMin latMax) latMin latMax)),
        some (num (centreOf (cellOf lng lngMin lngMax) lngMin lngMax))) := by
  have hlat' := quantise_toNat h hlat.1 hlat.2 axes.1
  have hlng' := quantise_toNat h hlng.1 hlng.2 axes.2
  rw [quantise_exact h hlat.1 hlat.2 axes.1] at hlat'
  rw [quantise_exact h hlng.1 hlng.2 axes.2] at hlng'
  rw [geoDecode_exact h, geoEncode_exact h hlat hlng, hlat', hlng']

end Exact

/-- Cells and hashes below their bounds are found again from each other; with exact numbers, the cells of
valid coordinates are below the bound, decoding their hash is off by at most half a cell along each axis, and
encoding what a hash decodes to gives the hash. -/
theorem geohash_round_trip {D : Type} [LinearOrder D] {libc : Libc D} {num : ℚ → D} (h : libc.Exact num) :
    (∀ latInt lngInt : UInt32, latInt.toNat < 2 ^ 26 → lngInt.toNat < 2 ^ 26 →
      deinterleave (interleave latInt lngInt) = (latInt, lngInt) ∧
      (interleave latInt lngInt).toNat < 2 ^ 52) ∧
    (∀ hash : UInt64, hash.toNat < 2 ^ 52 → interleave (deinterleave hash).1 (deinterleave hash).2 = hash) ∧
    (∀ lat lng : ℚ, geoValid libc (num lat) (num lng) = true →
      (quantise libc (some (num lat)) (geoLatMin libc) (geoLatMax libc)).toNat < 2 ^ 26 ∧
      (quantise libc (some (num lng)) (geoLngMin libc) (geoLngMax libc)).toNat < 2 ^ 26 ∧
      ∃ lat' lng', geoDecode libc (geoEncode libc (some (num lat)) (some (num lng))) =
        (some (num lat'), some (num lng')) ∧
        |lat' - lat| ≤ (latMax - latMin) / 2 ^ 26 / 2 ∧ |lng' - lng| ≤ (lngMax - lngMin) / 2 ^ 26 / 2) ∧
    ∀ hash : UInt64, hash.toNat < 2 ^ 52 →
      geoEncode libc (geoDecode libc hash).1 (geoDecode libc hash).2 = hash := by
  refine ⟨fun latInt lngInt hlat hlng => ⟨deinterleave_interleave hlat hlng, interleave_lt latInt lngInt⟩,
    fun hash hhash => interleave_deinterleave hhash, ?_, fun hash hhash => geoEncode_geoDecode h hhash⟩
  intro lat lng hvalid
  obtain ⟨hlat, hlng⟩ := geoValid_exact h hvalid
  rw [geoLatMin_exact h, geoLatMax_exact h, geoLngMin_exact h, geoLngMax_exact h,
    quantise_toNat h hlat.1 hlat.2 axes.1, quantise_toNat h hlng.1 hlng.2 axes.2]
  exact ⟨cellOf_lt _ _ _, cellOf_lt _ _ _, _, _, geoDecode_geoEncode h hlat hlng,
    centreOf_error hlat.1 hlat.2 axes.1, centreOf_error hlng.1 hlng.2 axes.2⟩

/-- The upper corner of the map stays in its last cell. -/
theorem geohash_round_trip_corner :
    (quantise Libc.rationals (some latMax) (geoLatMin Libc.rationals) (geoLatMax Libc.rationals)).toNat =
      2 ^ 26 - 1 ∧
    ∃ lat lng, geoDecode Libc.rationals (geoEncode Libc.rationals (some latMax) (some lngMax)) =
      (some lat, some lng) ∧
      |lat - latMax| ≤ (latMax - latMin) / 2 ^ 26 / 2 ∧ |lng - lngMax| ≤ (lngMax - lngMin) / 2 ^ 26 / 2 := by
  refine ⟨by decide +kernel, ?_⟩
  obtain ⟨-, -, hcoord, -⟩ := geohash_round_trip Libc.rationals_exact
  obtain ⟨-, -, hround⟩ := hcoord latMax lngMax (by decide +kernel)
  exact hround

end PulseDB
