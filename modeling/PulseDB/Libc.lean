import PulseDB.Bytes
import Mathlib.Order.Defs.LinearOrder

/-!
# Floating point and pattern matching

The parts of the C library whose results the model leaves open. `D` is the type of the numbers among the
doubles, with the order the code compares them by; a double is a number or a NaN.

* `Libc` : the functions themselves, as parameters of every program;
* `parseDouble` : the checks `parse_double` makes around `strtod`.
-/

namespace PulseDB

/-- A C double: `none` is a NaN. -/
abbrev Double (D : Type) := Option D

/-- The comparison `a < b` of two doubles; it is false for a NaN. -/
def Double.lt {D : Type} [LinearOrder D] : Double D → Double D → Bool
  | some a, some b => decide (a < b)
  | _, _ => false

/-- What `strtod` leaves behind: the value, the text from `*end` on, and whether `errno` is `ERANGE`. -/
structure Strtod (D : Type) where
  value : Double D
  rest : Bytes
  erange : Bool

/-- The library functions. A conversion of a double to an integer type that cannot hold it, which C leaves
undefined, may give anything. -/
structure Libc (D : Type) where
  strtod : Bytes → Strtod D
  /-- the value of a decimal constant of the source -/
  lit : String → D
  add : Double D → Double D → Double D
  sub : Double D → Double D → Double D
  mul : Double D → Double D → Double D
  div : Double D → Double D → Double D
  sin : Double D → Double D
  cos : Double D → Double D
  sqrt : Double D → Double D
  atan2 : Double D → Double D → Double D
  isinf : D → Bool
  ofUInt64 : UInt64 → D
  toUInt64 : Double D → UInt64
  toUInt32 : Double D → UInt32
  toInt64 : Double D → Int
  /-- what `printf` writes for a double under a format -/
  printf : String → Double D → Bytes
  /-- the test `fnmatch(pattern, string, 0) == 0` -/
  fnmatch : Bytes → Bytes → Bool

/-- A library to evaluate programs with: the numbers are the integers, and a quotient is rounded down. -/
def Libc.integers : Libc Int where
  strtod s := (parseInt64 s).elim ⟨some 0, s, false⟩ fun n => ⟨some n, [], false⟩
  lit s := (parseInt64 (ascii s)).getD 0
  add a b := return (← a) + (← b)
  sub a b := return (← a) - (← b)
  mul a b := return (← a) * (← b)
  div a b := return (← a) / (← b)
  sin _ := none
  cos _ := none
  sqrt _ := none
  atan2 _ _ := none
  isinf _ := false
  ofUInt64 n := n.toNat
  toUInt64 a := UInt64.ofNat (a.getD 0).toNat
  toUInt32 a := UInt32.ofNat (a.getD 0).toNat
  toInt64 a := a.getD 0
  printf _ a := a.elim (ascii "nan") decInt
  fnmatch pattern s := pattern == ascii "*" || pattern == s

/-- The function `parse_double`; the number it gives is not a NaN. -/
def parseDouble {D : Type} [DecidableEq D] (libc : Libc D) (s : Bytes) : Option D :=
  if s = [] then none
  else
    let r := libc.strtod s
    if r.erange ∧ r.value ≠ some (libc.lit "0") then none
    else if r.rest ≠ [] then none
    else r.value

end PulseDB
