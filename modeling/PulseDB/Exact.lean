import PulseDB.Libc
import Mathlib.Algebra.Order.Field.Basic
import Mathlib.Data.Rat.Floor

/-!
# Exact arithmetic

The library functions on doubles, taken as exact: the finite numbers are the rationals, and an operation on
them has the exact result. What C leaves undefined stays open. The laws are grouped, so that a result asks for
those it needs.

* `trunc` : a conversion to an integer cuts off the fraction;
* `decimalValue` : the value of a decimal constant of the source;
* `Libc.Conversions libc value` : what C says about the conversions from and to `uint64_t`, rounding or not;
* `Libc.Exact libc num` : the library computes exactly on the numbers `num q`, in its order, its arithmetic
  and its conversions;
* `Libc.rationals` : such a library, to evaluate programs with.
-/

namespace PulseDB

/-- The integer part, towards zero. -/
def trunc (q : ℚ) : Int := if 0 ≤ q then ⌊q⌋ else ⌈q⌉

theorem trunc_of_nonneg {q : ℚ} (h : 0 ≤ q) : trunc q = ⌊q⌋ := if_pos h

theorem trunc_natCast (n : ℕ) : trunc (n : ℚ) = n := by
  rw [trunc_of_nonneg (Nat.cast_nonneg n), Int.floor_natCast]

/-- A sign, digits and, after a point, more digits; the rest of the text is returned. -/
def readDecimal (s : Bytes) : ℚ × Bytes :=
  let t := if s.head? = some 45 then s.tail else s
  let whole := t.takeWhile isDigit
  let u := t.drop whole.length
  let frac := if u.head? = some 46 then u.tail.takeWhile isDigit else []
  let rest := if u.head? = some 46 then u.tail.drop frac.length else u
  let v : ℚ := digitsVal (whole ++ frac) / 10 ^ frac.length
  (if s.head? = some 45 then -v else v, rest)

/-- The value of a decimal constant. -/
def decimalValue (s : String) : ℚ := (readDecimal (ascii s)).1

theorem decimalValue_zero : decimalValue "0" = 0 := by decide +kernel

/-- The conversions between `uint64_t` and the numbers, where `value` is the value of a number that is finite:
an integer up to `2 ^ 53` is converted exactly, and a number whose integer part fits is converted to it. These
are the laws of C for its doubles. -/
structure Libc.Conversions {D : Type} (libc : Libc D) (value : D → Option ℚ) : Prop where
  ofUInt64 : ∀ n, n.toNat ≤ 2 ^ 53 → value (libc.ofUInt64 n) = some (n.toNat : ℚ)
  toUInt64 : ∀ d q, value d = some q → 0 ≤ trunc q → trunc q < 2 ^ 64 →
    libc.toUInt64 (some d) = UInt64.ofNat (trunc q).toNat

/-- The finite numbers are the rationals, in their order, and a number that is not finite is infinite. -/
structure Libc.ExactOrder {D : Type} [LinearOrder D] (libc : Libc D) (num : ℚ → D) : Prop where
  lt_iff : ∀ p q, num p < num q ↔ p < q
  isinf : ∀ d, libc.isinf d = false ↔ ∃ q, d = num q

structure Libc.ExactArithmetic {D : Type} (libc : Libc D) (num : ℚ → D) : Prop where
  lit : ∀ s, libc.lit s = num (decimalValue s)
  add : ∀ p q, libc.add (some (num p)) (some (num q)) = some (num (p + q))
  sub : ∀ p q, libc.sub (some (num p)) (some (num q)) = some (num (p - q))
  mul : ∀ p q, libc.mul (some (num p)) (some (num q)) = some (num (p * q))
  div : ∀ p q, q ≠ 0 → libc.div (some (num p)) (some (num q)) = some (num (p / q))

/-- A conversion to an integer type is exact whenever the integer part fits. -/
structure Libc.ExactConversions {D : Type} (libc : Libc D) (num : ℚ → D) : Prop where
  ofUInt64 : ∀ n, n.toNat ≤ 2 ^ 53 → libc.ofUInt64 n = num n.toNat
  toUInt32 : ∀ q, 0 ≤ trunc q → trunc q < 2 ^ 32 → libc.toUInt32 (some (num q)) = UInt32.ofNat (trunc q).toNat
  toInt64 : ∀ q, int64Min ≤ trunc q → trunc q ≤ int64Max → libc.toInt64 (some (num q)) = trunc q

/-- The library computes exactly on the rationals. -/
structure Libc.Exact {D : Type} [LinearOrder D] (libc : Libc D) (num : ℚ → D) : Prop extends
  Libc.ExactOrder libc num, Libc.ExactArithmetic libc num, Libc.ExactConversions libc num

section Order
variable {D : Type} [LinearOrder D] {libc : Libc D} {num : ℚ → D} (h : libc.ExactOrder num)
include h

theorem Libc.ExactOrder.le_iff (p q : ℚ) : num p ≤ num q ↔ p ≤ q := by
  rw [← not_lt, h.lt_iff, not_lt]

theorem Libc.ExactOrder.lt (p q : ℚ) : Double.lt (some (num p)) (some (num q)) = decide (p < q) := by
  rw [Double.lt, decide_eq_decide, h.lt_iff]

end Order

/-- The rationals as the numbers. A conversion that C leaves undefined gives what the instruction of a common
processor gives: the least integer. -/
def Libc.rationals : Libc ℚ where
  strtod s := if (readDecimal s).2 = [] then ⟨some (readDecimal s).1, [], false⟩ else ⟨some 0, s, false⟩
  lit := decimalValue
  add a b := return (← a) + (← b)
  sub a b := return (← a) - (← b)
  mul a b := return (← a) * (← b)
  div a b := return (← a) / (← b)
  sin _ := none
  cos _ := none
  sqrt _ := none
  atan2 _ _ := none
  isinf _ := false
  ofUInt64 n := n.toNat
  toUInt64 a := UInt64.ofNat (trunc (a.getD 0)).toNat
  toUInt32 a := UInt32.ofNat (trunc (a.getD 0)).toNat
  toInt64 a := a.elim int64Min fun q => if int64Min ≤ trunc q ∧ trunc q ≤ int64Max then trunc q else int64Min
  printf _ a := a.elim (ascii "nan") fun q => decInt (trunc q)
  fnmatch pattern s := pattern == ascii "*" || pattern == s

theorem Libc.rationals_exact : Libc.rationals.Exact id where
  lt_iff _ _ := Iff.rfl
  isinf d := ⟨fun _ => ⟨d, rfl⟩, fun _ => rfl⟩
  lit _ := rfl
  add _ _ := rfl
  sub _ _ := rfl
  mul _ _ := rfl
  div _ _ _ := rfl
  ofUInt64 _ _ := rfl
  toUInt32 _ _ _ := rfl
  toInt64 _ hmin hmax := if_pos ⟨hmin, hmax⟩

theorem Libc.rationals_conversions : Libc.rationals.Conversions some where
  ofUInt64 _ _ := rfl
  toUInt64 d q hd _ _ := by
    cases hd
    rfl

end PulseDB
