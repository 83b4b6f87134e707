import Mathlib.Data.List.Basic
import Mathlib.Tactic.Common

/-!
# Readers of a finite stream

A reader takes an item from the front of a stream and leaves the rest, or fails.

* `Spelled R vs bs` : `bs` is a text of the items `vs`, one after the other;
* `Reader` : readers, with the monad in which a failed step ends the reading; `token`, `tokens` : the basic
  ones;
* `Reader.Exact r e R` : `r` reads exactly the texts that `R` spells, and fails with `e` on every text that is
  cut short. The rules `Exact.pure`, `Exact.bind`, `Exact.fail` follow the way a reader is written;
* `Reader.FailsWith r P` : `r` fails only with an error that satisfies `P`, with the same rules.
-/

namespace PulseDB.Lib

/-- Texts of some items, one after the other. -/
inductive Spelled {α τ : Type} (R : α → List τ → Prop) : List α → List τ → Prop
  | nil : Spelled R [] []
  | cons {v : α} {vs : List α} {b bs : List τ} (h : R v b) (hs : Spelled R vs bs) :
    Spelled R (v :: vs) (b ++ bs)

/-- A reader of a stream of tokens `τ`, which may fail with an `ε`. -/
abbrev Reader (ε τ : Type) := StateT (List τ) (Except ε)

namespace Reader
variable {ε τ α β : Type}

/-- Fail with `e`. -/
def fail (e : ε) : Reader ε τ α := fun _ => .error e

/-- Take one token; fail with `e` at the end of the stream. -/
def token (e : ε) : Reader ε τ τ
  | [] => .error e
  | t :: f => .ok (t, f)

/-- Take `n` tokens; fail with `e` if there are not so many. -/
def tokens (e : ε) (n : ℕ) : Reader ε τ (List τ) := fun f =>
  if n ≤ f.length then .ok (f.take n, f.drop n) else .error e

/-- The reader takes exactly the texts of `R`, and fails with `e` on every text of `R` that is cut short. -/
structure Exact (r : Reader ε τ α) (e : ε) (R : α → List τ → Prop) : Prop where
  ok_iff : ∀ {f a rest}, r f = .ok (a, rest) ↔ ∃ bs, R a bs ∧ f = bs ++ rest
  cut : ∀ {a p y}, R a (p ++ y) → y ≠ [] → r p = .error e

variable {e : ε} {R : α → List τ → Prop} {r : Reader ε τ α}

theorem Exact.congr {R' : α → List τ → Prop} (h : Exact r e R) (hR : ∀ a bs, R a bs ↔ R' a bs) :
    Exact r e R' := by
  obtain rfl : R = R' := by
    funext a bs
    exact propext (hR a bs)
  exact h

theorem Exact.pure (a : α) : Exact (pure a : Reader ε τ α) e fun b bs => b = a ∧ bs = [] where
  ok_iff {f b rest} := by
    constructor
    · rintro ⟨⟩
      exact ⟨[], ⟨rfl, rfl⟩, rfl⟩
    · rintro ⟨bs, ⟨rfl, rfl⟩, rfl⟩
      rfl
  cut h hy := absurd (List.append_eq_nil_iff.mp h.2).2 hy

theorem Exact.fail {e' : ε} : Exact (fail e' : Reader ε τ α) e fun _ _ => False where
  ok_iff {f b rest} := by
    constructor
    · rintro ⟨⟩
    · rintro ⟨bs, h, -⟩
      exact h.elim
  cut h := h.elim

theorem Exact.token : Exact (token e : Reader ε τ τ) e fun t bs => bs = [t] where
  ok_iff {f t rest} := by
    constructor
    · intro h
      cases f with
      | nil => cases h
      | cons t f =>
        cases h
        exact ⟨[t], rfl, rfl⟩
    · rintro ⟨bs, rfl, rfl⟩
      rfl
  cut {t p y} h hy := by
    cases p with
    | nil => rfl
    | cons t' p =>
      rw [List.cons_append, List.cons.injEq] at h
      exact absurd (List.append_eq_nil_iff.mp h.2).2 hy

theorem Exact.tokens (n : ℕ) : Exact (tokens e n : Reader ε τ (List τ)) e fun ts bs => bs = ts ∧
    ts.length = n where
  ok_iff {f ts rest} := by
    rw [Reader.tokens]
    constructor
    · intro h
      split at h
      · cases h
        exact ⟨f.take n, ⟨rfl, by rw [List.length_take]; omega⟩, (List.take_append_drop n f).symm⟩
      · cases h
    · rintro ⟨bs, ⟨rfl, rfl⟩, rfl⟩
      rw [if_pos (by rw [List.length_append]; omega), List.take_left, List.drop_left]
  cut {ts p y} h hy := by
    obtain ⟨rfl, rfl⟩ := h
    have := List.length_pos_iff.mpr hy
    rw [Reader.tokens, if_neg (by rw [List.length_append]; omega)]

theorem Exact.bind {g : α → Reader ε τ β} {S : α → β → List τ → Prop} (hr : Exact r e R)
    (hg : ∀ a, Exact (g a) e (S a)) :
    Exact (r >>= g) e fun b bs => ∃ a b₁ b₂, R a b₁ ∧ S a b b₂ ∧ bs = b₁ ++ b₂ where
  ok_iff {f b rest} := by
    show (r f >>= fun x => g x.1 x.2) = .ok (b, rest) ↔ _
    constructor
    · intro h
      cases hf : r f with
      | error e =>
        rw [hf] at h
        cases h
      | ok x =>
        rw [hf] at h
        obtain ⟨b₁, h₁, rfl⟩ := hr.ok_iff.mp (show r f = .ok (x.1, x.2) from hf)
        obtain ⟨b₂, h₂, hx⟩ := (hg x.1).ok_iff.mp h
        exact ⟨b₁ ++ b₂, ⟨x.1, b₁, b₂, h₁, h₂, rfl⟩, by rw [hx, List.append_assoc]⟩
    · rintro ⟨bs, ⟨a, b₁, b₂, h₁, h₂, rfl⟩, rfl⟩
      rw [hr.ok_iff.mpr ⟨b₁, h₁, List.append_assoc ..⟩]
      exact (hg a).ok_iff.mpr ⟨b₂, h₂, rfl⟩
  cut {b p y} h hy := by
    obtain ⟨a, b₁, b₂, h₁, h₂, heq⟩ := h
    show (r p >>= fun x => g x.1 x.2) = .error e
    -- the cut falls into the first text or behind it
    rcases List.append_eq_append_iff.mp heq with ⟨c, rfl, rfl⟩ | ⟨c, rfl, rfl⟩
    · by_cases hc : c = []
      · subst hc
        rw [List.append_nil] at h₁
        rw [hr.ok_iff.mpr ⟨p, h₁, (List.append_nil p).symm⟩]
        exact (hg a).cut (p := []) h₂ hy
      · rw [hr.cut h₁ hc]
        rfl
    · rw [hr.ok_iff.mpr ⟨b₁, h₁, rfl⟩]
      exact (hg a).cut h₂ hy

theorem Exact.map (hr : Exact r e R) (h : α → β) :
    Exact (do let a ← r; return h a) e fun b bs => ∃ a, R a bs ∧ b = h a := by
  refine (hr.bind fun a => Exact.pure (h a)).congr fun b bs => ?_
  constructor
  · rintro ⟨a, b₁, b₂, h₁, ⟨rfl, rfl⟩, rfl⟩
    exact ⟨a, by rwa [List.append_nil], rfl⟩
  · rintro ⟨a, h₁, rfl⟩
    exact ⟨a, bs, [], h₁, ⟨rfl, rfl⟩, (List.append_nil bs).symm⟩

/-- Two readers, one after the other, that do not depend on each other. -/
theorem Exact.map₂ {γ : Type} {r' : Reader ε τ β} {R' : β → List τ → Prop} (hr : Exact r e R)
    (hr' : Exact r' e R') (h : α → β → γ) : Exact (do let a ← r; let b ← r'; return h a b) e fun c bs =>
      ∃ a b b₁ b₂, R a b₁ ∧ R' b b₂ ∧ bs = b₁ ++ b₂ ∧ c = h a b := by
  refine (hr.bind fun a => hr'.map (h a)).congr fun c bs => ?_
  constructor
  · rintro ⟨a, b₁, b₂, h₁, ⟨b, h₂, rfl⟩, rfl⟩
    exact ⟨a, b, b₁, b₂, h₁, h₂, rfl, rfl⟩
  · rintro ⟨a, b, b₁, b₂, h₁, h₂, rfl, rfl⟩
    exact ⟨a, b₁, b₂, h₁, ⟨b, h₂, rfl⟩, rfl⟩

theorem Exact.token_bind {g : τ → Reader ε τ β} {S : β → List τ → Prop} (hnil : ∀ b, ¬ S b [])
    (hg : ∀ t, Exact (g t) e fun b bs => S b (t :: bs)) : Exact (Reader.token e >>= g) e S := by
  refine (Exact.token.bind hg).congr fun b bs => ?_
  constructor
  · rintro ⟨t, b₁, b₂, rfl, hs, rfl⟩
    exact hs
  · intro hs
    cases bs with
    | nil => exact absurd hs (hnil b)
    | cons t bs => exact ⟨t, [t], bs, rfl, hs, rfl⟩

/-! ## The ways to fail -/

/-- The reader fails only with an error that satisfies `P`. -/
def FailsWith (r : Reader ε τ α) (P : ε → Prop) : Prop := ∀ f e, r f = .error e → P e

variable {P : ε → Prop}

theorem FailsWith.pure (a : α) : FailsWith (pure a : Reader ε τ α) P := by
  rintro f e ⟨⟩

theorem FailsWith.fail (he : P e) : FailsWith (Reader.fail e : Reader ε τ α) P := by
  rintro f e' ⟨⟩
  exact he

theorem FailsWith.token (he : P e) : FailsWith (Reader.token e : Reader ε τ τ) P := by
  rintro f e' h
  cases f with
  | nil =>
    cases h
    exact he
  | cons t f => cases h

theorem FailsWith.tokens (n : ℕ) (he : P e) : FailsWith (Reader.tokens e n : Reader ε τ (List τ)) P := by
  rintro f e' h
  rw [Reader.tokens] at h
  split at h
  · cases h
  · cases h
    exact he

theorem FailsWith.bind {g : α → Reader ε τ β} (hr : FailsWith r P) (hg : ∀ a, FailsWith (g a) P) :
    FailsWith (r >>= g) P := by
  rintro f e' h
  replace h : (r f >>= fun x => g x.1 x.2) = .error e' := h
  cases hf : r f with
  | error e'' =>
    rw [hf] at h
    cases h
    exact hr f e' hf
  | ok x =>
    rw [hf] at h
    exact hg x.1 x.2 e' h

end Reader
end PulseDB.Lib
