import Mathlib.Data.Nat.Digits.Defs
import Mathlib.Data.Int.Basic
import Mathlib.Data.List.Basic
import Mathlib.Order.Defs.Unbundled
import Mathlib.Tactic.Common

/-!
# Byte strings and numbers (`util.c` and the C library)

* `Bytes` : a byte string; a C string is modelled by the bytes before its terminator (`cstr`);
* `strcmp`, `strcaseEq` : the comparisons of the C library, in the C locale; `strcmp` orders the strings
  (`strcmp_eq_zero`, `strcmp_trans`);
* `dec`, `decInt` : what `%zu`, `%lld`, `PRIu64` and `PRId64` print;
* `wrap64` : signed 64-bit arithmetic, taken modulo `2^64`;
* `strtoll`, `parseInt64` : reading a signed 64-bit integer.
-/

namespace PulseDB

abbrev Bytes := List UInt8

/-- The bytes of a text of the source. -/
def ascii (s : String) : Bytes := s.toList.map Char.toUInt8

theorem ascii_length_le (chars : List Char) {n : ℕ} (h : chars.length ≤ n) :
    (ascii (String.ofList chars)).length ≤ n := by
  rw [ascii, String.toList_ofList, List.length_map]
  exact h

/-- The byte `'\r'`. -/
def cr : UInt8 := 13

/-- The byte `'\n'`. -/
def lf : UInt8 := 10

/-- The C string a buffer holds: its bytes up to the first NUL. -/
def cstr (b : Bytes) : Bytes := b.takeWhile (· != 0)

theorem cstr_eq_self_iff (b : Bytes) : (cstr b).length = b.length ↔ (0 : UInt8) ∉ b := by
  induction b with
  | nil => simp [cstr]
  | cons a b ih =>
    unfold cstr at ih ⊢
    by_cases ha : a = 0
    · simp [ha]
    · rw [List.takeWhile_cons_of_pos (by simpa using ha), List.length_cons, List.length_cons]
      simp only [Nat.add_right_cancel_iff, List.mem_cons, not_or, ih]
      exact ⟨fun h => ⟨fun h0 => ha h0.symm, h⟩, fun h => h.2⟩

theorem cstr_of_clean {b : Bytes} (h : (0 : UInt8) ∉ b) : cstr b = b := by
  have hl := (cstr_eq_self_iff b).mpr h
  have hfirst : cstr b <+: b := List.takeWhile_prefix _
  exact hfirst.eq_of_length hl

/-! ## Comparisons -/

/-- The sign of `strcmp`: the first differing bytes decide, as unsigned characters. -/
def strcmp : Bytes → Bytes → Int
  | [], [] => 0
  | [], _ :: _ => -1
  | _ :: _, [] => 1
  | a :: as, b :: bs => if a < b then -1 else if b < a then 1 else strcmp as bs

theorem uint8_eq_of_not_lt {a b : UInt8} (h1 : ¬ a < b) (h2 : ¬ b < a) : a = b := by
  rw [UInt8.lt_iff_toNat_lt] at h1 h2
  exact UInt8.toNat_inj.mp (by omega)

@[simp] theorem strcmp_self : ∀ a : Bytes, strcmp a a = 0
  | [] => rfl
  | a :: as => by
    rw [strcmp, if_neg (by simp), if_neg (by simp)]
    exact strcmp_self as

theorem strcmp_eq_zero {a b : Bytes} : strcmp a b = 0 ↔ a = b := by
  constructor
  · fun_induction strcmp a b with
    | case1 => simp
    | case2 => simp
    | case3 => simp
    | case4 => simp
    | case5 => simp
    | case6 a as b bs h1 h2 ih =>
      intro h
      rw [uint8_eq_of_not_lt h1 h2, ih h]
  · rintro rfl
    exact strcmp_self a

theorem strcmp_neg_iff (a b : Bytes) : strcmp a b < 0 ↔ 0 < strcmp b a := by
  fun_induction strcmp a b with
  | case1 => simp [strcmp]
  | case2 => simp [strcmp]
  | case3 => simp [strcmp]
  | case4 a as b bs h => simp [strcmp, h, UInt8.lt_asymm h]
  | case5 a as b bs h1 h2 => simp [strcmp, h2]
  | case6 a as b bs h1 h2 ih =>
    rw [ih, strcmp, if_neg h2, if_neg h1]

theorem strcmp_trans {a b c : Bytes} (h1 : strcmp a b < 0) (h2 : strcmp b c < 0) : strcmp a c < 0 := by
  induction a generalizing b c with
  | nil =>
    cases b with
    | nil => simp [strcmp] at h1
    | cons b bs => cases c with
      | nil => simp [strcmp] at h2
      | cons c cs => simp [strcmp]
  | cons a as ih =>
    cases b with
    | nil => simp [strcmp] at h1
    | cons b bs =>
      cases c with
      | nil => simp [strcmp] at h2
      | cons c cs =>
        simp only [strcmp] at h1 h2 ⊢
        simp only [UInt8.lt_iff_toNat_lt] at h1 h2 ⊢
        split_ifs at h1 h2 ⊢ <;> first | omega | exact ih h1 h2

/-- Lower case of an ASCII letter; every other byte is unchanged. -/
def toLower (c : UInt8) : UInt8 := if 65 ≤ c ∧ c ≤ 90 then c + 32 else c

/-- The test `strcasecmp(a, b) == 0`. -/
def strcaseEq (a b : Bytes) : Bool := a.map toLower == b.map toLower

/-! ## Printing numbers -/

/-- The decimal digits of `n`, most significant first. -/
def dec (n : ℕ) : Bytes :=
  if n = 0 then [48] else (Nat.digits 10 n).reverse.map fun d => UInt8.ofNat (48 + d)

def decInt (i : Int) : Bytes := if i < 0 then 45 :: dec i.natAbs else dec i.natAbs

/-! ## Signed 64-bit integers -/

def int64Max : Int := 9223372036854775807

def int64Min : Int := -9223372036854775808

/-- A result of signed 64-bit arithmetic, taken modulo `2^64`. -/
def wrap64 (x : Int) : Int := Int.bmod x 18446744073709551616

theorem wrap64_of_range {x : Int} (h1 : int64Min ≤ x) (h2 : x ≤ int64Max) : wrap64 x = x := by
  unfold int64Min int64Max at *
  exact Int.bmod_eq_of_le (by omega) (by omega)

theorem wrap64_le (x : Int) : wrap64 x ≤ int64Max := by
  have := Int.bmod_lt (x := x) (m := 18446744073709551616) (by decide)
  unfold wrap64 int64Max
  omega

theorem wrap64_ge (x : Int) : int64Min ≤ wrap64 x := by
  have := Int.le_bmod (x := x) (m := 18446744073709551616) (by decide)
  unfold wrap64 int64Min
  omega

/-! ## Reading numbers -/

/-- The test `isspace(c)` in the C locale. -/
def isSpace (c : UInt8) : Bool := c == 32 || (9 ≤ c && c ≤ 13)

def isDigit (c : UInt8) : Bool := 48 ≤ c && c ≤ 57

/-- The value of a run of decimal digits. -/
def digitsVal (ds : Bytes) : ℕ := ds.foldl (fun v c => v * 10 + (c.toNat - 48)) 0

/-- What `strtoll` leaves behind: the value, the text from `*end` on, and whether `errno` is `ERANGE`. -/
structure Strtoll where
  value : Int
  rest : Bytes
  erange : Bool

/-- The C function `strtoll(s, &end, 10)`: blanks, a sign, digits; saturating at the ends of the range. -/
def strtoll (s : Bytes) : Strtoll :=
  let t := s.dropWhile isSpace
  let signed : Bool × Bytes :=
    match t with
    | 45 :: u => (true, u)
    | 43 :: u => (false, u)
    | _ => (false, t)
  let ds := signed.2.takeWhile isDigit
  if ds = [] then ⟨0, s, false⟩
  else
    let rest := signed.2.drop ds.length
    let v : Int := if signed.1 then - (digitsVal ds : Int) else digitsVal ds
    if v < int64Min then ⟨int64Min, rest, true⟩
    else if int64Max < v then ⟨int64Max, rest, true⟩
    else ⟨v, rest, false⟩

/-- The function `parse_int64`. -/
def parseInt64 (s : Bytes) : Option Int :=
  if s = [] then none
  else
    let r := strtoll s
    if r.erange || r.rest != [] then none else some r.value

theorem strtoll_range (s : Bytes) : int64Min ≤ (strtoll s).value ∧ (strtoll s).value ≤ int64Max := by
  unfold strtoll
  simp only
  generalize (match s.dropWhile isSpace with | 45 :: u => (true, u) | 43 :: u => (false, u) | _ => (false, _)) = sg
  split_ifs <;> simp only [int64Min, int64Max] at * <;> omega

theorem parseInt64_range {s : Bytes} {v : Int} (h : parseInt64 s = some v) : int64Min ≤ v ∧ v ≤ int64Max := by
  unfold parseInt64 at h
  split at h
  · cases h
  · simp only at h
    split at h
    · cases h
    · cases h
      exact strtoll_range s

example : parseInt64 (ascii "-42") = some (-42) := by decide

end PulseDB
