import PulseDB.Resp.ReplyCodec
import Mathlib.Data.List.TakeWhile

/-!
# Numbers in headers

`parse_number` bounds the length of the text and nothing else. The digits of a number beyond the 64-bit range
are read modulo `2^64`.

* `Numeral s v` : the text `s` is a decimal numeral with the value `v`;
* `numberLoopOverflows`, `parseNumberOverflows` : some operation of the source leaves the 64-bit range;
* `numberLoop_val`, `parseNumber_eq_some_iff` : what is read, for every text;
* `headers_exact_iff` : the texts that are read exactly.
-/

namespace PulseDB
open Lib

/-! ## Numerals -/

/-- A decimal numeral with its value. -/
inductive Numeral : Bytes → Int → Prop
  | pos {ds : Bytes} (hne : ds ≠ []) (hds : ∀ c ∈ ds, isDigit c = true) : Numeral ds (digitsVal ds)
  | neg {ds : Bytes} (hne : ds ≠ []) (hds : ∀ c ∈ ds, isDigit c = true) :
    Numeral (45 :: ds) (-(digitsVal ds : Int))

/-- The digits after the sign, up to the first byte that is none. -/
def digitRun (s : Bytes) : Bytes := (if s.head? = some 45 then s.tail else s).takeWhile isDigit

/-- A signed 64-bit operation with this exact result overflows. -/
def overflows64 (x : Int) : Bool := decide (x < int64Min ∨ int64Max < x)

/-- Some operation of the digit loop of `parse_number` overflows. -/
def numberLoopOverflows : Int → Bytes → Bool
  | _, [] => false
  | v, c :: cs =>
    if c < 48 ∨ 57 < c then false
    else overflows64 (v * 10) || overflows64 (v * 10 + ((c.toNat : Int) - 48)) ||
      numberLoopOverflows (wrap64 (v * 10 + ((c.toNat : Int) - 48))) cs

/-- Some operation of `parse_number` overflows. -/
def parseNumberOverflows (s : Bytes) : Bool :=
  if s.length = 0 ∨ 20 < s.length then false
  else
    match s with
    | 45 :: ds => if ds = [] then false
      else numberLoopOverflows 0 ds || (numberLoop 0 ds).any fun v => overflows64 (-v)
    | ds => numberLoopOverflows 0 ds

/-! ## The digit loop -/

/-- The value of some digits after those of `v`. -/
def digitsFrom (v : ℕ) (ds : Bytes) : ℕ := ds.foldl (fun v c => v * 10 + (c.toNat - 48)) v

theorem digitsFrom_cons (v : ℕ) (c : UInt8) (ds : Bytes) :
    digitsFrom v (c :: ds) = digitsFrom (v * 10 + (c.toNat - 48)) ds := List.foldl_cons ..

theorem le_digitsFrom : ∀ (ds : Bytes) (v : ℕ), v ≤ digitsFrom v ds
  | [], v => Nat.le_refl v
  | c :: ds, v => by
    rw [digitsFrom_cons]
    have hrest := le_digitsFrom ds (v * 10 + (c.toNat - 48))
    omega

theorem not_digit_iff (c : UInt8) : (c < 48 ∨ 57 < c) ↔ isDigit c = false := by
  unfold isDigit
  rw [Bool.and_eq_false_iff, decide_eq_false_iff_not, decide_eq_false_iff_not, UInt8.not_le, UInt8.not_le]

theorem digit_cast {c : UInt8} (h : isDigit c = true) (v : ℕ) :
    (v : Int) * 10 + ((c.toNat : Int) - 48) = ((v * 10 + (c.toNat - 48) : ℕ) : Int) := by
  unfold isDigit at h
  rw [Bool.and_eq_true, decide_eq_true_iff, decide_eq_true_iff, UInt8.le_iff_toNat_le,
    UInt8.le_iff_toNat_le] at h
  have h48 : 48 ≤ c.toNat := h.1
  omega

theorem numberLoop_val : ∀ {ds : Bytes} (v : ℕ), (∀ c ∈ ds, isDigit c = true) →
    numberLoop (wrap64 v) ds = some (wrap64 (digitsFrom v ds))
  | [], v, _ => rfl
  | c :: ds, v, h => by
    rw [List.forall_mem_cons] at h
    have hc : ¬ (c < 48 ∨ 57 < c) := by
      rw [not_digit_iff, h.1]
      exact Bool.noConfusion
    rw [numberLoop, if_neg hc, wrap64_step, digit_cast h.1, numberLoop_val _ h.2, digitsFrom_cons]

theorem numberLoop_eq_some_iff {ds : Bytes} {w : Int} :
    numberLoop 0 ds = some w ↔ (∀ c ∈ ds, isDigit c = true) ∧ w = wrap64 (digitsVal ds) := by
  have hval : (∀ c ∈ ds, isDigit c = true) → numberLoop 0 ds = some (wrap64 (digitsVal ds)) :=
    numberLoop_val 0
  constructor
  · intro h
    have hds : ∀ c ∈ ds, isDigit c = true := fun c hc => by
      rw [← Bool.not_eq_false, ← not_digit_iff, not_or, UInt8.not_lt, UInt8.not_lt]
      exact numberLoop_digits h c hc
    rw [hval hds] at h
    exact ⟨hds, (Option.some.inj h).symm⟩
  · intro h
    rw [h.2]
    exact hval h.1

/-- The loop overflows exactly when the value of the digits it reads is out of range. -/
theorem numberLoopOverflows_iff : ∀ {s : Bytes} {v : ℕ}, (v : Int) ≤ int64Max →
    (numberLoopOverflows v s = true ↔ int64Max < digitsFrom v (s.takeWhile isDigit))
  | [], v, hv => by
    rw [numberLoopOverflows, List.takeWhile_nil]
    exact iff_of_false Bool.false_ne_true (Int.not_lt.mpr hv)
  | c :: cs, v, hv => by
    rw [numberLoopOverflows]
    by_cases hc : isDigit c = true
    swap
    · rw [if_pos ((not_digit_iff c).mpr (Bool.eq_false_iff.mpr hc)), List.takeWhile_cons_of_neg hc]
      exact iff_of_false Bool.false_ne_true (Int.not_lt.mpr hv)
    have hdigit : ¬ (c < 48 ∨ 57 < c) := by
      rw [not_digit_iff, hc]
      exact Bool.noConfusion
    rw [if_neg hdigit, List.takeWhile_cons_of_pos hc, digitsFrom_cons, digit_cast hc, Bool.or_eq_true,
      Bool.or_eq_true]
    unfold overflows64
    rw [decide_eq_true_iff, decide_eq_true_iff]
    generalize hw : v * 10 + (c.toNat - 48) = w
    have hle := le_digitsFrom (cs.takeWhile isDigit) w
    by_cases hfits : (w : Int) ≤ int64Max
    · rw [wrap64_of_range (by unfold int64Min; omega) hfits, numberLoopOverflows_iff hfits]
      refine or_iff_right ?_
      unfold int64Min
      omega
    · exact iff_of_true (Or.inl (Or.inr (Or.inr (Int.lt_of_not_ge hfits)))) (by omega)

/-! ## The function -/

/-- What is read, for every text: the length is bounded, and the value is taken modulo `2^64`. -/
theorem parseNumber_eq_some_iff {s : Bytes} {w : Int} :
    parseNumber s = some w ↔ s.length ≤ 20 ∧ ∃ v, Numeral s v ∧ w = wrap64 v := by
  unfold parseNumber
  by_cases hlen : s.length = 0 ∨ 20 < s.length
  · rw [if_pos hlen]
    refine iff_of_false (by simp) ?_
    rintro ⟨hle, v, hv, -⟩
    cases hv with
    | pos hne => exact hne (List.length_eq_zero_iff.mp (by omega))
    | neg hne => rw [List.length_cons] at *; omega
  · rw [if_neg hlen, and_iff_right (show s.length ≤ 20 by omega)]
    split
    · rename_i ds
      constructor
      · intro h
        split at h
        · cases h
        · rename_i hne
          obtain ⟨u, hu, hw⟩ := Option.map_eq_some_iff.mp h
          obtain ⟨hds, hval⟩ := numberLoop_eq_some_iff.mp hu
          refine ⟨_, .neg hne hds, ?_⟩
          rw [← hw, hval, wrap64_neg]
      · rintro ⟨v, hv, rfl⟩
        cases hv with
        | pos _ hds => exact absurd (hds 45 List.mem_cons_self) (by decide)
        | neg hne hds =>
          rw [if_neg hne, numberLoop_eq_some_iff.mpr ⟨hds, rfl⟩, Option.map_some, wrap64_neg]
    · rename_i hminus
      rw [numberLoop_eq_some_iff]
      constructor
      · intro h
        exact ⟨_, .pos (fun hnil => hlen (Or.inl (List.length_eq_zero_iff.mpr hnil))) h.1, h.2⟩
      · rintro ⟨v, hv, hw⟩
        cases hv with
        | pos _ hds => exact ⟨hds, hw⟩
        | neg => exact absurd rfl (hminus _)

theorem Numeral.natAbs {s : Bytes} {v : Int} (h : Numeral s v) : v.natAbs = digitsVal (digitRun s) := by
  unfold digitRun
  cases h with
  | pos hne hds =>
    have hhead : s.head? ≠ some 45 := fun hh => absurd (hds 45 (List.mem_of_mem_head? hh)) (by decide)
    rw [if_neg hhead, List.takeWhile_eq_self_iff.mpr hds, Int.natAbs_natCast]
  | @neg ds hne hds =>
    rw [if_pos List.head?_cons, List.tail_cons, List.takeWhile_eq_self_iff.mpr hds, Int.natAbs_neg,
      Int.natAbs_natCast]

/-- An operation of `parse_number` overflows exactly when it reads digits whose value is out of range. -/
theorem parseNumberOverflows_iff (s : Bytes) :
    parseNumberOverflows s = true ↔ s.length ≤ 20 ∧ int64Max < digitsVal (digitRun s) := by
  have hloop : ∀ ds, numberLoopOverflows 0 ds = true ↔ int64Max < digitsVal (ds.takeWhile isDigit) :=
    fun ds =>
    numberLoopOverflows_iff (v := 0) (by decide)
  unfold parseNumberOverflows digitRun
  by_cases hlen : s.length = 0 ∨ 20 < s.length
  · rw [if_pos hlen]
    refine iff_of_false Bool.false_ne_true ?_
    rintro ⟨hle, hbig⟩
    have hnil : s = [] := List.length_eq_zero_iff.mp (by omega)
    rw [hnil] at hbig
    exact absurd hbig (by decide)
  · rw [if_neg hlen, and_iff_right (show s.length ≤ 20 by omega)]
    split
    · rename_i ds
      rw [if_pos (show (45 :: ds).head? = some 45 from List.head?_cons), List.tail_cons]
      by_cases hnil : ds = []
      · rw [if_pos hnil, hnil]
        decide
      rw [if_neg hnil, Bool.or_eq_true, hloop]
      refine or_iff_left_of_imp fun hover => ?_
      -- the loop leaves `INT64_MIN` behind only if it has overflown itself
      cases hu : numberLoop 0 ds with
      | none =>
        rw [hu] at hover
        exact absurd hover Bool.false_ne_true
      | some u =>
      rw [hu, Option.any_some] at hover
      obtain ⟨hds, hval⟩ := numberLoop_eq_some_iff.mp hu
      rw [List.takeWhile_eq_self_iff.mpr hds]
      by_contra hfits
      rw [hval, wrap64_of_range (by unfold int64Min; omega) (Int.not_lt.mp hfits)] at hover
      unfold overflows64 int64Min at hover
      rw [decide_eq_true_iff] at hover
      unfold int64Max at hover hfits
      omega
    · rename_i hminus
      have hhead : s.head? ≠ some 45 := by
        intro hh
        obtain ⟨ds, rfl⟩ := List.head?_eq_some_iff.mp hh
        exact hminus ds rfl
      rw [if_neg hhead, hloop]

/-! ## Headers -/

theorem Numeral.range {s : Bytes} {v : Int} (h : Numeral s v)
    (hrun : (digitsVal (digitRun s) : Int) ≤ int64Max) :
    int64Min ≤ v ∧ v ≤ int64Max := by
  have habs := h.natAbs
  unfold int64Min int64Max at *
  omega

theorem readNumberLine_text {buf s rest : Bytes} {pos next : ℕ} {n : Int} (hcr : cr ∉ s)
    (hbuf : buf.drop pos = s ++ cr :: lf :: rest) (h : readNumberLine buf pos = .ok (n, next)) :
      parseNumber s = some n := by
  obtain ⟨line, rest', ⟨text, htext, rfl⟩, hbuf', -⟩ := readNumberLine_ok_iff.mp h
  rw [hbuf, List.append_assoc] at hbuf'
  obtain ⟨rfl, -⟩ := line_inj hcr (parseNumber_some htext).1 hbuf'
  exact htext

theorem parseBulk_text {buf s rest : Bytes} {pos : ℕ} {r : RespValue × ℕ} (hcr : cr ∉ s)
    (hbuf : buf.drop pos = s ++ cr :: lf :: rest) (h : parseBulk buf pos = .ok r) :
    ∃ n, parseNumber s = some n ∧ -1 ≤ n ∧ n ≤ respMaxBulkLen := by
  obtain ⟨⟨n, p⟩, hline, h⟩ := Parse.bind_eq_ok.mp h
  refine ⟨n, readNumberLine_text hcr hbuf hline, ?_⟩
  simp only at h
  split_ifs at h with h1 h2
  · rw [h1]
    decide
  · omega

theorem parseArray_text {buf s rest : Bytes} {pos : ℕ} {child : ℕ → Parse (RespValue × ℕ)} {r : RespValue × ℕ}
    (hcr : cr ∉ s) (hbuf : buf.drop pos = s ++ cr :: lf :: rest) (h : parseArray buf child pos = .ok r) :
    ∃ n, parseNumber s = some n ∧ -1 ≤ n ∧ n ≤ respMaxArrayLen := by
  obtain ⟨⟨n, p⟩, hline, h⟩ := Parse.bind_eq_ok.mp h
  refine ⟨n, readNumberLine_text hcr hbuf hline, ?_⟩
  simp only at h
  split_ifs at h with h1 h2
  · rw [h1]
    decide
  · omega

/-- A text is read exactly when its value fits in 64 bits, no operation overflows on it, and no header that
spells it is accepted unless its value is in the limits: all this holds for exactly the texts that are too
long to be read or whose digits have a value in range. -/
theorem headers_exact_iff (s : Bytes) :
    ((∀ w, parseNumber s = some w ↔ Numeral s w ∧ s.length ≤ 20 ∧ int64Min ≤ w ∧ w ≤ int64Max) ∧
      parseNumberOverflows s = false ∧
      ∀ buf pos rest, cr ∉ s → buf.drop pos = s ++ cr :: lf :: rest →
        (∀ r, parseBulk buf pos = .ok r → ∃ v, Numeral s v ∧ -1 ≤ v ∧ v ≤ respMaxBulkLen) ∧
        ∀ child r, parseArray buf child pos = .ok r → ∃ v, Numeral s v ∧ -1 ≤ v ∧ v ≤ respMaxArrayLen) ↔
    20 < s.length ∨ (digitsVal (digitRun s) : Int) ≤ int64Max := by
  constructor
  · intro h
    have hover := h.2.1
    rw [← Bool.not_eq_true, parseNumberOverflows_iff] at hover
    omega
  · intro h
    have hexact : ∀ w, parseNumber s = some w ↔ Numeral s w ∧ s.length ≤ 20 ∧ int64Min ≤ w ∧
        w ≤ int64Max := by
      intro w
      rw [parseNumber_eq_some_iff]
      constructor
      · rintro ⟨hlen, v, hv, hw⟩
        have hrange := hv.range (by omega)
        rw [wrap64_of_range hrange.1 hrange.2] at hw
        exact hw ▸ ⟨hv, hlen, hrange⟩
      · rintro ⟨hw, hlen, h1, h2⟩
        exact ⟨hlen, w, hw, (wrap64_of_range h1 h2).symm⟩
    refine ⟨hexact, ?_, fun buf pos rest hcr hbuf => ⟨fun r hr => ?_, fun child r hr => ?_⟩⟩
    · rw [← Bool.not_eq_true, parseNumberOverflows_iff]
      omega
    · obtain ⟨n, hn, hlim⟩ := parseBulk_text hcr hbuf hr
      exact ⟨n, ((hexact n).mp hn).1, hlim⟩
    · obtain ⟨n, hn, hlim⟩ := parseArray_text hcr hbuf hr
      exact ⟨n, ((hexact n).mp hn).1, hlim⟩

/-- The length `2^64 - 1` is taken for the null bulk string, and a request with the count `2^64 + 1` for one
with a single element. -/
theorem headers_not_exact :
    parseNumber (ascii "18446744073709551615") = some (-1) ∧
    parseNumberOverflows (ascii "18446744073709551615") = true ∧
    Numeral (ascii "18446744073709551615") 18446744073709551615 ∧
    parseBulk (ascii "18446744073709551615\r\n") 0 = .ok (.null, 22) ∧
    respParseCommand (ascii "*18446744073709551617\r\n$4\r\nPING\r\n") =
      .ok (.request [ascii "PING"], 33) := by
  have hnull : NumberLine (-1) (ascii "18446744073709551615\r\n") :=
    ⟨ascii "18446744073709551615", by decide +kernel, by decide +kernel⟩
  have hone : NumberLine ([RespValue.bulk (ascii "PING")].length : ℕ) (ascii "18446744073709551617\r\n") :=
    ⟨ascii "18446744073709551617", by decide +kernel, by decide +kernel⟩
  have hping : NumberLine ((ascii "PING").length : ℕ) (ascii "4\r\n") :=
    ⟨ascii "4", by decide +kernel, by decide +kernel⟩
  have hwords : BulksBytes [RespValue.bulk (ascii "PING")] _ := .singleton (.bulk hping (by decide))
  have hval : digitsVal (ascii "18446744073709551615") = 18446744073709551615 := by decide +kernel
  refine ⟨by decide +kernel, by decide +kernel, ?_, ?_, ?_⟩
  · have hnum : Numeral (ascii "18446744073709551615") _ := .pos (by decide +kernel) (by decide +kernel)
    rw [hval] at hnum
    exact hnum
  · exact parseBulk_ok_iff.mpr ⟨_, [], .null hnull, (List.append_nil _).symm, by decide +kernel⟩
  · refine respParseCommand_ok_iff.mpr ⟨_, [], .array hone (by decide) hwords, ?_, ?_⟩
    · decide +kernel
    · decide +kernel

end PulseDB
