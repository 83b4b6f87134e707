import PulseDB.Lib.Restart
import Mathlib.Data.List.TakeWhile

/-!
# Parsers with checked steps

A parser that works on a buffer with explicit positions can step outside its bounds: read at or beyond the end
of the buffer, write at or beyond the capacity of a block, subtract below zero. Here such a step is a fault.

* `Bounded α` : a computation that may meet a fault; `readAt`, `readSlice`, `writeAt`, `subSize` : its steps;
* `scanWhile` : the loop `while (i < n && p(buf[i])) i++`;
* `Checked α` : a parser with such steps, which answers as `Parse` does;
* `Safe m x P` : `m` meets no fault and answers `x`, and a value that it answers satisfies `P`; its rules
  follow the program.
-/

namespace PulseDB.Lib

/-! ## Steps -/

/-- A step outside its bounds. -/
inductive BoundsFault where
  | read
  | write
  | underflow
  deriving DecidableEq, Repr

/-- A computation with checked steps. -/
abbrev Bounded := Except BoundsFault

section Steps
variable {τ : Type}

/-- The element `buf[i]`. -/
def readAt (buf : List τ) (i : ℕ) : Bounded τ :=
  match buf[i]? with
  | none => .error .read
  | some a => .ok a

/-- The `n` elements from `start` on. -/
def readSlice (buf : List τ) (start n : ℕ) : Bounded (List τ) :=
  if start + n ≤ buf.length then .ok ((buf.drop start).take n) else .error .read

/-- Write the element `i` of a block with room for `cap`. -/
def writeAt (cap i : ℕ) : Bounded Unit := if i < cap then .ok () else .error .write

/-- The unsigned subtraction `a - b`. -/
def subSize (a b : ℕ) : Bounded ℕ := if b ≤ a then .ok (a - b) else .error .underflow

/-- The loop `while (i < n && p(buf[i])) i++`. -/
def scanWhile (buf : List τ) (p : τ → Bool) (n i : ℕ) : Bounded ℕ :=
  if i < n then do
    let a ← readAt buf i
    if p a then scanWhile buf p n (i + 1) else return i
  else return i
termination_by n - i

theorem ok_bind {α β : Type} (a : α) (f : α → Bounded β) : ((Except.ok a : Bounded α) >>= f) = f a := rfl

theorem readAt_eq {buf : List τ} {i : ℕ} (h : i < buf.length) : readAt buf i = .ok buf[i] := by
  rw [readAt, List.getElem?_eq_getElem h]

theorem readSlice_eq {buf : List τ} {start n : ℕ} (h : start + n ≤ buf.length) :
    readSlice buf start n = .ok ((buf.drop start).take n) := if_pos h

theorem writeAt_eq {cap i : ℕ} (h : i < cap) : writeAt cap i = .ok () := if_pos h

theorem subSize_eq {a b : ℕ} (h : b ≤ a) : subSize a b = .ok (a - b) := if_pos h

theorem scanWhile_eq {buf : List τ} {p : τ → Bool} {n : ℕ} (hn : n ≤ buf.length) : ∀ i,
    scanWhile buf p n i = .ok (i + (((buf.take n).drop i).takeWhile p).length) := by
  intro i
  induction i using scanWhile.induct (n := n) with
  | case1 i hlt ih =>
    have hlen : i < (buf.take n).length := by rw [List.length_take]; omega
    have hget : (buf.take n)[i] = buf[i] := List.getElem_take
    rw [scanWhile, if_pos hlt, readAt_eq (by omega), ok_bind, List.drop_eq_getElem_cons hlen, hget]
    by_cases hp : p buf[i] = true
    · rw [if_pos hp, ih, List.takeWhile_cons_of_pos hp, List.length_cons, Nat.add_right_comm, Nat.add_assoc]
    · rw [if_neg hp, List.takeWhile_cons_of_neg hp]
      rfl
  | case2 i hge =>
    rw [scanWhile, if_neg hge, List.drop_eq_nil_of_le (by rw [List.length_take]; omega)]
    rfl

/-- The scan stops at an index up to `n`, behind the elements that pass the test. -/
theorem exists_scanWhile {buf : List τ} {n i : ℕ} (p : τ → Bool) (hn : n ≤ buf.length) (hi : i ≤ n) :
    ∃ j, scanWhile buf p n i = .ok j ∧ i ≤ j ∧ j ≤ n ∧
      ((buf.take n).drop i).takeWhile p = (buf.drop i).take (j - i) ∧
      ((buf.take n).drop i).dropWhile p = (buf.take n).drop j := by
  have hsplit := List.takeWhile_append_dropWhile (p := p) (l := (buf.take n).drop i)
  have hlen : ((buf.take n).drop i).length = n - i := by
    rw [List.length_drop, List.length_take]
    omega
  generalize htake : ((buf.take n).drop i).takeWhile p = a at hsplit
  generalize ((buf.take n).drop i).dropWhile p = b at hsplit
  have hle : a.length ≤ n - i := by
    rw [← hlen, ← hsplit, List.length_append]
    omega
  refine ⟨i + a.length, (scanWhile_eq hn i).trans (by rw [htake]), by omega, by omega, ?_, ?_⟩
  · have hpart := congrArg (List.take a.length) hsplit
    rw [List.take_left, List.drop_take, List.take_take, Nat.min_eq_left hle] at hpart
    rw [Nat.add_sub_cancel_left]
    exact hpart
  · rw [← List.drop_drop, ← hsplit, List.drop_left]

end Steps

/-! ## Parsers -/

/-- A parser with checked steps. -/
structure Checked (α : Type) where
  run : Bounded (Parse α)

namespace Checked
variable {α : Type}

instance : Monad Checked where
  pure a := ⟨.ok (.ok a)⟩
  bind m f :=
    match m.run with
    | .error fault => ⟨.error fault⟩
    | .ok (.ok a) => f a
    | .ok .incomplete => ⟨.ok .incomplete⟩
    | .ok .error => ⟨.ok .error⟩

instance : MonadLift Bounded Checked where
  monadLift m := ⟨m.map .ok⟩

/-- Answer `incomplete`. -/
def incomplete : Checked α := ⟨.ok .incomplete⟩

/-- Answer `error`. -/
def error : Checked α := ⟨.ok .error⟩

end Checked

/-- The parser meets no fault and answers `x`; a value that it answers satisfies `P`. -/
def Safe {α : Type} (m : Checked α) (x : Parse α) (P : α → Prop) : Prop :=
  m.run = .ok x ∧ ∀ a, x = .ok a → P a

namespace Safe
variable {α β : Type} {m : Checked α} {x : Parse α} {P Q : α → Prop}

theorem pure {a : α} (h : P a) : Safe (Pure.pure a) (Pure.pure a) P := ⟨rfl, fun b hb => by cases hb; exact h⟩

theorem incomplete : Safe Checked.incomplete Parse.incomplete P := ⟨rfl, fun a ha => by cases ha⟩

theorem error : Safe Checked.error Parse.error P := ⟨rfl, fun a ha => by cases ha⟩

theorem mono (h : Safe m x P) (hPQ : ∀ a, P a → Q a) : Safe m x Q := ⟨h.1, fun a ha => hPQ a (h.2 a ha)⟩

theorem bind {f : α → Checked β} {g : α → Parse β} {R : β → Prop} (h : Safe m x P)
    (hf : ∀ a, P a → Safe (f a) (g a) R) : Safe (m >>= f) (x >>= g) R := by
  obtain ⟨⟨b⟩⟩ := m
  · exact absurd h.1 (by rintro ⟨⟩)
  · obtain ⟨hb, hP⟩ := h
    cases hb
    cases x with
    | ok a => exact hf a (hP a rfl)
    | incomplete => exact incomplete
    | error => exact error

theorem step {s : Bounded β} {b : β} {f : β → Checked α} (hs : s = .ok b) (hf : Safe (f b) x P) :
    Safe (liftM s >>= f) x P := by
  rw [hs]
  exact hf

end Safe
end PulseDB.Lib
