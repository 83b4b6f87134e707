import PulseDB.Resp.Grammar
import Mathlib.Data.List.TakeWhile

/-!
# Printed numbers are read back

`parse_number` undoes the decimal text that `snprintf` prints, for every signed 64-bit integer: the digit loop
computes modulo `2^64`, so the digits of `INT64_MIN` are read as well.

* `dec_snoc` : the decimal text, digit by digit;
* `parseNumber_dec`, `parseNumber_decInt` : reading a printed number; `dec_inj`, `decInt_inj` : any size;
* `strtoll_eq` : `strtoll` behind the blanks and the sign; `parseInt64_decInt` : reading a printed number with
  it;
* `numberLine_dec`, `numberLine_decInt` : the number lines of the encoders.
-/

namespace PulseDB

/-! ## The digits -/

theorem dec_small {n : ℕ} (h : n < 10) : dec n = [UInt8.ofNat (48 + n)] := by
  unfold dec
  by_cases h0 : n = 0
  · rw [if_pos h0, h0]
    rfl
  · rw [if_neg h0, Nat.digits_of_lt 10 n h0 h]
    rfl

theorem dec_snoc {n : ℕ} (h : 10 ≤ n) : dec n = dec (n / 10) ++ [UInt8.ofNat (48 + n % 10)] := by
  have h1 : n ≠ 0 := by omega
  have h2 : n / 10 ≠ 0 := by omega
  rw [dec, if_neg h1, dec, if_neg h2, Nat.digits_def' (by decide) (by omega), List.reverse_cons,
    List.map_append]
  rfl

theorem dec_length_le : ∀ {k n : ℕ}, n < 10 ^ (k + 1) → (dec n).length ≤ k + 1
  | 0, n, h => by
    rw [dec_small (by omega)]
    exact Nat.le_refl _
  | k + 1, n, h => by
    by_cases h10 : n < 10
    · rw [dec_small h10, List.length_singleton]
      omega
    · have hdiv : n / 10 < 10 ^ (k + 1) := by
        rw [Nat.div_lt_iff_lt_mul (by decide), ← pow_succ]
        exact h
      rw [dec_snoc (by omega), List.length_append, List.length_singleton]
      exact Nat.succ_le_succ (dec_length_le hdiv)

theorem dec_ne_nil (n : ℕ) : dec n ≠ [] := by
  by_cases h : n < 10
  · rw [dec_small h]
    exact List.cons_ne_nil _ _
  · rw [dec_snoc (by omega)]
    exact List.append_ne_nil_of_right_ne_nil _ (List.cons_ne_nil _ _)

theorem digit_toNat {d : ℕ} (h : d < 10) : (UInt8.ofNat (48 + d)).toNat = 48 + d := by
  rw [UInt8.toNat_ofNat']
  omega

theorem dec_digits (n : ℕ) : ∀ c ∈ dec n, 48 ≤ c.toNat ∧ c.toNat ≤ 57 := by
  induction n using Nat.strong_induction_on with
  | _ n ih =>
    intro c hc
    by_cases h : n < 10
    · rw [dec_small h, List.mem_singleton] at hc
      rw [hc, digit_toNat h]
      omega
    · rw [dec_snoc (by omega), List.mem_append, List.mem_singleton] at hc
      rcases hc with hc | rfl
      · exact ih (n / 10) (by omega) c hc
      · rw [digit_toNat (Nat.mod_lt _ (by decide))]
        omega

/-! ## Reading them -/

theorem numberLoop_append : ∀ (as bs : Bytes) (v : Int),
    numberLoop v (as ++ bs) = (numberLoop v as).bind fun w => numberLoop w bs
  | [], _, _ => rfl
  | a :: as, bs, v => by
    rw [List.cons_append, numberLoop, numberLoop]
    split
    · rfl
    · exact numberLoop_append as bs _

theorem numberLoop_digit {d : ℕ} (h : d < 10) (v : Int) :
    numberLoop v [UInt8.ofNat (48 + d)] = some (wrap64 (v * 10 + d)) := by
  have hd := digit_toNat h
  have hrange : ¬ (UInt8.ofNat (48 + d) < 48 ∨ 57 < UInt8.ofNat (48 + d)) := by
    rw [UInt8.lt_iff_toNat_lt, UInt8.lt_iff_toNat_lt, hd]
    change ¬ (48 + d < 48 ∨ 57 < 48 + d)
    omega
  rw [numberLoop, if_neg hrange, hd, numberLoop]
  congr 3
  omega

theorem wrap64_step (x d : Int) : wrap64 (wrap64 x * 10 + d) = wrap64 (x * 10 + d) := by
  unfold wrap64
  rw [Int.bmod_add_cancel_right, Int.bmod_mul_bmod]

theorem wrap64_neg (x : Int) : wrap64 (-wrap64 x) = wrap64 (-x) := by
  unfold wrap64
  rw [Int.bmod_neg_bmod]

theorem numberLoop_dec (n : ℕ) : numberLoop 0 (dec n) = some (wrap64 n) := by
  induction n using Nat.strong_induction_on with
  | _ n ih =>
    by_cases h : n < 10
    · rw [dec_small h, numberLoop_digit h]
      congr 2
      omega
    · rw [dec_snoc (by omega), numberLoop_append, ih (n / 10) (by omega), Option.bind_some,
        numberLoop_digit (Nat.mod_lt _ (by decide)), wrap64_step]
      congr 2
      omega

theorem parseNumber_digits {ds : Bytes} (hne : ds ≠ []) (hlen : ds.length ≤ 20) (hd : ds.head? ≠ some 45) :
    parseNumber ds = numberLoop 0 ds := by
  unfold parseNumber
  rw [if_neg]
  · cases ds with
    | nil => exact absurd rfl hne
    | cons d ds =>
      split
      · rename_i heq
        cases heq
        exact absurd rfl hd
      · rfl
  · rintro (h | h)
    · exact hne (List.length_eq_zero_iff.mp h)
    · omega

theorem parseNumber_minus {ds : Bytes} (hlen : ds.length < 20) :
    parseNumber (45 :: ds) = if ds = [] then none else (numberLoop 0 ds).map fun v => wrap64 (-v) := by
  rw [parseNumber, if_neg (by rw [List.length_cons]; omega)]

theorem dec_head_ne (n : ℕ) : (dec n).head? ≠ some 45 := by
  intro h
  have hmem := dec_digits n 45 (List.mem_of_mem_head? h)
  exact absurd hmem.1 (by decide)

theorem parseNumber_dec {n : ℕ} (h : (n : Int) ≤ int64Max) : parseNumber (dec n) = some (n : Int) := by
  unfold int64Max at h
  have hlen : (dec n).length ≤ 18 + 1 := dec_length_le (by omega)
  have hwrap : wrap64 n = n := wrap64_of_range (by unfold int64Min; omega) h
  rw [parseNumber_digits (dec_ne_nil n) (by omega) (dec_head_ne n), numberLoop_dec, hwrap]

theorem parseNumber_decInt {i : Int} (h1 : int64Min ≤ i) (h2 : i ≤ int64Max) :
    parseNumber (decInt i) = some i := by
  unfold decInt
  by_cases hneg : i < 0
  · rw [if_pos hneg]
    unfold int64Min at h1
    have hlen : (dec i.natAbs).length ≤ 18 + 1 := dec_length_le (by omega)
    have habs : -(i.natAbs : Int) = i := by omega
    rw [parseNumber_minus (by omega), if_neg (dec_ne_nil _), numberLoop_dec, Option.map_some,
      wrap64_neg, habs, wrap64_of_range h1 h2]
  · rw [if_neg hneg, parseNumber_dec (by omega)]
    congr 1
    omega

/-! ## Reading them as C strings -/

theorem digitsVal_snoc (ds : Bytes) (c : UInt8) :
    digitsVal (ds ++ [c]) = digitsVal ds * 10 + (c.toNat - 48) := by
  unfold digitsVal
  rw [List.foldl_append, List.foldl_cons, List.foldl_nil]

theorem digitsVal_dec (n : ℕ) : digitsVal (dec n) = n := by
  induction n using Nat.strong_induction_on with
  | _ n ih =>
    by_cases h : n < 10
    · rw [dec_small h, ← List.nil_append [_], digitsVal_snoc, digit_toNat h]
      unfold digitsVal
      rw [List.foldl_nil]
      omega
    · rw [dec_snoc (by omega), digitsVal_snoc, ih (n / 10) (by omega), digit_toNat (Nat.mod_lt _ (by decide))]
      omega

theorem dec_isDigit (n : ℕ) : ∀ c ∈ dec n, isDigit c = true := by
  intro c hc
  obtain ⟨h1, h2⟩ := dec_digits n c hc
  unfold isDigit
  rw [Bool.and_eq_true, decide_eq_true_iff, decide_eq_true_iff, UInt8.le_iff_toNat_le, UInt8.le_iff_toNat_le]
  exact ⟨h1, h2⟩

theorem takeWhile_dec (n : ℕ) : (dec n).takeWhile isDigit = dec n :=
  List.takeWhile_eq_self_iff.mpr (dec_isDigit n)

/-- The sign of a number, and what follows it. -/
def signOf (t : Bytes) : Bool × Bytes :=
  match t with
  | 45 :: u => (true, u)
  | 43 :: u => (false, u)
  | _ => (false, t)

def signedVal (neg : Bool) (n : ℕ) : Int := if neg then -(n : Int) else n

theorem strtoll_eq {s u : Bytes} {neg : Bool} (hsign : signOf (s.dropWhile isSpace) = (neg, u)) :
    strtoll s =
      let ds := u.takeWhile isDigit
      let v := signedVal neg (digitsVal ds)
      if ds = [] then ⟨0, s, false⟩
      else if v < int64Min then ⟨int64Min, u.drop ds.length, true⟩
      else if int64Max < v then ⟨int64Max, u.drop ds.length, true⟩
      else ⟨v, u.drop ds.length, false⟩ := by
  have hneg : neg = (signOf (s.dropWhile isSpace)).1 := by rw [hsign]
  have hu : u = (signOf (s.dropWhile isSpace)).2 := by rw [hsign]
  rw [hneg, hu]
  rfl

theorem strtoll_printed {s : Bytes} {neg : Bool} {n : ℕ} (hsign : signOf (s.dropWhile isSpace) = (neg, dec n))
    (h1 : int64Min ≤ signedVal neg n) (h2 : signedVal neg n ≤ int64Max) : strtoll s = ⟨signedVal neg n, [],
      false⟩ := by
  rw [strtoll_eq hsign]
  simp only
  rw [takeWhile_dec, if_neg (dec_ne_nil n), digitsVal_dec, List.drop_length, if_neg (Int.not_lt.mpr h1),
    if_neg (Int.not_lt.mpr h2)]

theorem isSpace_of_isDigit {c : UInt8} (h : isDigit c = true) : isSpace c = false := by
  unfold isDigit at h
  unfold isSpace
  rw [Bool.and_eq_true, decide_eq_true_iff, decide_eq_true_iff, UInt8.le_iff_toNat_le,
    UInt8.le_iff_toNat_le] at h
  rw [Bool.or_eq_false_iff, Bool.and_eq_false_iff, beq_eq_false_iff_ne, decide_eq_false_iff_not,
    decide_eq_false_iff_not, UInt8.le_iff_toNat_le, UInt8.le_iff_toNat_le]
  refine ⟨?_, Or.inr fun hle => absurd (h.1.trans hle) (by decide)⟩
  rintro rfl
  exact absurd h.1 (by decide)

theorem signOf_digits {ds : Bytes} (hds : ∀ c ∈ ds, isDigit c = true) : signOf ds = (false, ds) := by
  unfold signOf
  split
  · exact absurd (hds 45 List.mem_cons_self) (by decide)
  · exact absurd (hds 43 List.mem_cons_self) (by decide)
  · rfl

theorem signOf_dec (n : ℕ) : signOf ((dec n).dropWhile isSpace) = (false, dec n) := by
  obtain ⟨c, ds, hcons⟩ := List.exists_cons_of_ne_nil (dec_ne_nil n)
  have hspace : isSpace c = false := isSpace_of_isDigit (dec_isDigit n c (hcons ▸ List.mem_cons_self))
  have hskip : (dec n).dropWhile isSpace = dec n := by
    rw [hcons, List.dropWhile_cons_of_neg (by rw [hspace]; exact Bool.false_ne_true)]
  rw [hskip, signOf_digits (dec_isDigit n)]

theorem parseInt64_decInt {i : Int} (h1 : int64Min ≤ i) (h2 : i ≤ int64Max) :
    parseInt64 (decInt i) = some i := by
  have hread : strtoll (decInt i) = ⟨i, [], false⟩ := by
    unfold decInt
    by_cases hneg : i < 0
    · have habs : signedVal true i.natAbs = i := by
        rw [signedVal, if_pos rfl]
        omega
      have hsign : signOf ((45 :: dec i.natAbs).dropWhile isSpace) = (true, dec i.natAbs) := by
        rw [List.dropWhile_cons_of_neg (by decide)]
        rfl
      rw [if_pos hneg, strtoll_printed hsign (by rw [habs]; exact h1) (by rw [habs]; exact h2), habs]
    · have habs : signedVal false i.natAbs = i := by
        rw [signedVal, if_neg Bool.false_ne_true]
        omega
      rw [if_neg hneg, strtoll_printed (signOf_dec _) (by rw [habs]; exact h1) (by rw [habs]; exact h2), habs]
  have hne : decInt i ≠ [] := by
    unfold decInt
    split
    · exact List.cons_ne_nil _ _
    · exact dec_ne_nil _
  unfold parseInt64
  rw [if_neg hne, hread]
  rfl

/-! ## The text determines the number -/

theorem digit_inj {a b : ℕ} (ha : a < 10) (hb : b < 10) (h : UInt8.ofNat (48 + a) = UInt8.ofNat (48 + b)) :
    a = b := by
  have hnat := congrArg UInt8.toNat h
  rw [digit_toNat ha, digit_toNat hb] at hnat
  omega

theorem dec_inj : ∀ {n m : ℕ}, dec n = dec m → n = m := by
  intro n
  induction n using Nat.strong_induction_on with
  | _ n ih =>
    intro m h
    have hpos : ∀ k, 0 < (dec k).length := fun k => List.length_pos_iff.mpr (dec_ne_nil k)
    have hlen := congrArg List.length h
    by_cases h1 : n < 10 <;> by_cases h2 : m < 10
    · rw [dec_small h1, dec_small h2] at h
      exact digit_inj h1 h2 (List.singleton_inj.mp h)
    · rw [dec_small h1, dec_snoc (by omega), List.length_append, List.length_singleton,
        List.length_singleton] at hlen
      have := hpos (m / 10)
      omega
    · rw [dec_small h2, dec_snoc (by omega), List.length_append, List.length_singleton,
        List.length_singleton] at hlen
      have := hpos (n / 10)
      omega
    · rw [dec_snoc (by omega), dec_snoc (n := m) (by omega)] at h
      obtain ⟨hdiv, hmod⟩ := List.append_inj' h rfl
      have hq := ih (n / 10) (by omega) hdiv
      have hr := digit_inj (Nat.mod_lt n (by decide)) (Nat.mod_lt m (by decide)) (List.singleton_inj.mp hmod)
      omega

theorem decInt_inj {i j : Int} (h : decInt i = decInt j) : i = j := by
  unfold decInt at h
  have hhead : ∀ n m : ℕ, 45 :: dec n ≠ dec m := fun n m heq => dec_head_ne m (heq ▸ rfl)
  split_ifs at h with hi hj hj
  · have := dec_inj (List.cons.inj h).2
    omega
  · exact absurd h (hhead _ _)
  · exact absurd h.symm (hhead _ _)
  · have := dec_inj h
    omega

theorem cr_not_mem_dec (n : ℕ) : cr ∉ dec n := fun hm => absurd (dec_digits n cr hm).1 (by decide)

theorem cr_not_mem_decInt (i : Int) : cr ∉ decInt i := by
  unfold decInt
  split
  · intro hm
    rcases List.mem_cons.mp hm with h | h
    · exact absurd h (by decide)
    · exact cr_not_mem_dec _ h
  · exact cr_not_mem_dec _

/-! ## Number lines -/

theorem numberLine_dec {n : ℕ} (h : (n : Int) ≤ int64Max) : NumberLine n (dec n ++ [cr, lf]) :=
  ⟨dec n, parseNumber_dec h, rfl⟩

theorem numberLine_decInt {i : Int} (h1 : int64Min ≤ i) (h2 : i ≤ int64Max) :
    NumberLine i (decInt i ++ [cr, lf]) :=
  ⟨decInt i, parseNumber_decInt h1 h2, rfl⟩

end PulseDB
