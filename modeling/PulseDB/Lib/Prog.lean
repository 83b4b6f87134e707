import Mathlib.Tactic.Common
import Mathlib.Data.Nat.Notation

/-!
# Programs with a state, an environment and faults

* `Prog ρ σ φ α` : a computation that reads an environment `ρ`, updates a state `σ` and ends in a value or in
  a fault `φ` (a step the language leaves undefined);
* `wp m e s Q` : run from `s`, `m` meets no fault and ends in a value and a state that satisfy `Q`; `wp_pure`,
  `wp_bind` and `wp_mono` are its rules; `wlp` is the same for runs that may meet a fault;
* `forFrom lo hi b body` : the loop `for (i = lo; i < hi; ...)` with an early exit; `wp_forFrom` is its
  invariant rule.
-/

namespace PulseDB.Lib

/-- A computation over a state `σ` in an environment `ρ`, which may end in a fault `φ`. -/
def Prog (ρ σ φ α : Type) : Type := ρ → σ → Except φ (α × σ)

namespace Prog
variable {ρ σ φ α β γ : Type}

instance : Monad (Prog ρ σ φ) where
  pure a := fun _ s => .ok (a, s)
  bind m f := fun e s =>
    match m e s with
    | .ok (a, s') => f a e s'
    | .error x => .error x

/-- End in the fault `x`. -/
def fault (x : φ) : Prog ρ σ φ α := fun _ _ => .error x

def env : Prog ρ σ φ ρ := fun e s => .ok (e, s)

def get : Prog ρ σ φ σ := fun _ s => .ok (s, s)

def modify (f : σ → σ) : Prog ρ σ φ Unit := fun _ s => .ok ((), f s)

/-- A step that computes its value and the next state from the environment and the state. -/
def step (f : ρ → σ → α × σ) : Prog ρ σ φ α := fun e s => .ok (f e s)

/-! ## Weakest preconditions -/

/-- Run from `s`, `m` meets no fault and ends in a value and a state that satisfy `Q`. -/
def wp (m : Prog ρ σ φ α) (e : ρ) (s : σ) (Q : α → σ → Prop) : Prop :=
  match m e s with
  | .ok (a, s') => Q a s'
  | .error _ => False

variable {m : Prog ρ σ φ α} {e : ρ} {s : σ} {Q R : α → σ → Prop}

theorem wp_iff : wp m e s Q ↔ ∃ a s', m e s = .ok (a, s') ∧ Q a s' := by
  unfold wp
  cases h : m e s with
  | ok r => exact ⟨fun hq => ⟨r.1, r.2, rfl, hq⟩, fun ⟨a, s', hr, hq⟩ => by cases hr; exact hq⟩
  | error x => simp

theorem wp_of_ok {a : α} {s' : σ} (h : m e s = .ok (a, s')) : wp m e s Q ↔ Q a s' := by
  rw [wp, h]

theorem wp_mono (h : wp m e s Q) (hQ : ∀ a s', Q a s' → R a s') : wp m e s R := by
  rw [wp_iff] at h ⊢
  obtain ⟨a, s', hm, hq⟩ := h
  exact ⟨a, s', hm, hQ a s' hq⟩

theorem wp_post (h : wp m e s Q) {a : α} {s' : σ} (hm : m e s = .ok (a, s')) : Q a s' := by
  rwa [wp_of_ok hm] at h

@[simp] theorem wp_pure (a : α) : wp (pure a : Prog ρ σ φ α) e s Q ↔ Q a s := Iff.rfl

theorem wp_bind {f : α → Prog ρ σ φ β} {Q : β → σ → Prop} :
    wp (m >>= f) e s Q ↔ wp m e s (fun a s' => wp (f a) e s' Q) := by
  show (match (match m e s with | .ok (a, s') => f a e s' | .error x => .error x) with
    | .ok (b, s') => Q b s' | .error _ => False) ↔ _
  unfold wp
  cases m e s with
  | ok r => rfl
  | error x => rfl

theorem bind_of_ok {f : α → Prog ρ σ φ β} {a : α} {s' : σ} (h : m e s = .ok (a, s')) :
    (m >>= f) e s = f a e s' := by
  show (match m e s with | .ok (a, s') => f a e s' | .error x => .error x) = _
  rw [h]

theorem bind_of_error {f : α → Prog ρ σ φ β} {x : φ} (h : m e s = .error x) : (m >>= f) e s = .error x := by
  show (match m e s with | .ok (a, s') => f a e s' | .error x => .error x) = _
  rw [h]

theorem bind_of_eq {m' : Prog ρ σ φ α} (f : α → Prog ρ σ φ β) (h : m e s = m' e s) :
    (m >>= f) e s = (m' >>= f) e s := by
  show (match m e s with | .ok (a, s') => f a e s' | .error x => .error x) = _
  rw [h]
  rfl

@[simp] theorem wp_map {f : α → β} {Q : β → σ → Prop} :
    wp (f <$> m) e s Q ↔ wp m e s (fun a s' => Q (f a) s') := wp_bind

@[simp] theorem wp_env {Q : ρ → σ → Prop} : wp (env : Prog ρ σ φ ρ) e s Q ↔ Q e s := Iff.rfl

@[simp] theorem wp_get {Q : σ → σ → Prop} : wp (get : Prog ρ σ φ σ) e s Q ↔ Q s s := Iff.rfl

@[simp] theorem wp_modify {f : σ → σ} {Q : Unit → σ → Prop} :
    wp (modify f : Prog ρ σ φ Unit) e s Q ↔ Q () (f s) := Iff.rfl

@[simp] theorem wp_step {f : ρ → σ → α × σ} : wp (step f : Prog ρ σ φ α) e s Q ↔ Q (f e s).1 (f e s).2 :=
  Iff.rfl

@[simp] theorem wp_fault {x : φ} : wp (fault x : Prog ρ σ φ α) e s Q ↔ False := Iff.rfl

theorem ok_of_toOption {x : Except φ α} {f : α → β} {b : β} (h : x.toOption.map f = some b) :
    ∃ a, x = .ok a ∧ f a = b := by
  cases x with
  | ok a => exact ⟨a, rfl, Option.some.inj h⟩
  | error y => cases h

/-! ## Loops -/

/-- At most `rounds` rounds of a loop that runs while `i < hi`. A round either leaves the loop (`inl`) or
gives the next index and the next loop state (`inr`). -/
def loop (hi : ℕ) (body : ℕ → β → Prog ρ σ φ (γ ⊕ ℕ × β)) : ℕ → ℕ → β → Prog ρ σ φ (γ ⊕ β)
  | 0, _, b => pure (.inr b)
  | rounds + 1, i, b =>
    if i < hi then do
      match ← body i b with
      | .inl g => pure (.inl g)
      | .inr (i', b') => loop hi body rounds i' b'
    else pure (.inr b)

/-- The loop `for (i = lo; i < hi; ...) body` from the loop state `b`. A round raises `i`, so `hi - lo` rounds
are enough (`wp_forFrom`). -/
def forFrom (lo hi : ℕ) (b : β) (body : ℕ → β → Prog ρ σ φ (γ ⊕ ℕ × β)) : Prog ρ σ φ (γ ⊕ β) :=
  loop hi body (hi - lo) lo b

theorem wp_loop {hi : ℕ} {body : ℕ → β → Prog ρ σ φ (γ ⊕ ℕ × β)} {Q : γ ⊕ β → σ → Prop}
    (I : ℕ → β → σ → Prop)
    (hbody : ∀ i b s, I i b s → i < hi → wp (body i b) e s fun r s' =>
      match r with
      | .inl g => Q (.inl g) s'
      | .inr (i', b') => i < i' ∧ I i' b' s')
    (hexit : ∀ i b s, I i b s → hi ≤ i → Q (.inr b) s) :
    ∀ (rounds i : ℕ) (b : β) (s : σ), hi - i ≤ rounds → I i b s → wp (loop hi body rounds i b) e s Q
  | 0, i, b, s, hr, h => hexit i b s h (by omega)
  | rounds + 1, i, b, s, hr, h => by
    unfold loop
    split
    · rename_i hlt
      rw [wp_bind]
      refine wp_mono (hbody i b s h hlt) fun r s' hrs => ?_
      rcases r with g | ⟨i', b'⟩
      · exact hrs
      · exact wp_loop I hbody hexit rounds i' b' s' (by omega) hrs.2
    · exact hexit i b s h (by omega)

/-- The invariant rule: the invariant `I` holds at the start, every round keeps it and raises the index, and
it gives the postcondition once the index has reached `hi`. -/
theorem wp_forFrom {lo hi : ℕ} {b : β} {body : ℕ → β → Prog ρ σ φ (γ ⊕ ℕ × β)} {Q : γ ⊕ β → σ → Prop}
    (I : ℕ → β → σ → Prop) (hstart : I lo b s)
    (hbody : ∀ i b s, I i b s → i < hi → wp (body i b) e s fun r s' =>
      match r with
      | .inl g => Q (.inl g) s'
      | .inr (i', b') => i < i' ∧ I i' b' s')
    (hexit : ∀ i b s, I i b s → hi ≤ i → Q (.inr b) s) : wp (forFrom lo hi b body) e s Q :=
  wp_loop I hbody hexit (hi - lo) lo b s (Nat.le_refl _) hstart

/-! ## Weakest liberal preconditions -/

/-- If `m`, run from `s`, meets no fault, then it ends in a value and a state that satisfy `Q`. -/
def wlp (m : Prog ρ σ φ α) (e : ρ) (s : σ) (Q : α → σ → Prop) : Prop := ∀ a s', m e s = .ok (a, s') → Q a s'

theorem wlp_of_wp (h : wp m e s Q) : wlp m e s Q := fun _ _ hm => wp_post h hm

theorem wlp_mono (h : wlp m e s Q) (hQ : ∀ a s', Q a s' → R a s') : wlp m e s R :=
  fun a s' hm => hQ a s' (h a s' hm)

theorem wlp_pure (a : α) (h : Q a s) : wlp (pure a : Prog ρ σ φ α) e s Q := wlp_of_wp (show wp _ e s Q from h)

theorem wlp_fault (x : φ) : wlp (fault x : Prog ρ σ φ α) e s Q := fun _ _ h => nomatch h

theorem wlp_bind {f : α → Prog ρ σ φ β} {Q : β → σ → Prop} :
    wlp (m >>= f) e s Q ↔ wlp m e s (fun a s' => wlp (f a) e s' Q) := by
  have hdef : (m >>= f) e s = match m e s with
    | .ok (a, s') => f a e s'
    | .error x => .error x := rfl
  constructor
  · intro h a s' hm b s'' hf
    refine h b s'' ?_
    rw [hdef, hm]
    exact hf
  · intro h b s'' hb
    rw [hdef] at hb
    cases hm : m e s with
    | ok r =>
      rw [hm] at hb
      exact h r.1 r.2 hm b s'' hb
    | error x =>
      rw [hm] at hb
      cases hb

/-- Two programs that go on the same way from wherever the first part ends. -/
theorem bind_congr {f g : α → Prog ρ σ φ β} (h : wlp m e s fun a s' => f a e s' = g a e s') :
    (m >>= f) e s = (m >>= g) e s := by
  show (match m e s with | .ok (a, s') => f a e s' | .error x => .error x) =
    match m e s with | .ok (a, s') => g a e s' | .error x => .error x
  cases hm : m e s with
  | ok r => exact h r.1 r.2 hm
  | error x => rfl

theorem bind_congr_read {f g : α → Prog ρ σ φ β} {P : α → Prop} {Q : β → σ → Prop}
    (hm : wlp m e s fun a s' => s' = s ∧ P a) (h : ∀ a, P a → f a e s = g a e s ∧ wlp (f a) e s Q) :
    (m >>= f) e s = (m >>= g) e s ∧ wlp (m >>= f) e s Q := by
  constructor
  · refine bind_congr (wlp_mono hm fun a s' ha => ?_)
    rw [ha.1]
    exact (h a ha.2).1
  · rw [wlp_bind]
    refine wlp_mono hm fun a s' ha => ?_
    rw [ha.1]
    exact (h a ha.2).2

theorem wlp_loop {hi : ℕ} {body : ℕ → β → Prog ρ σ φ (γ ⊕ ℕ × β)} {Q : γ ⊕ β → σ → Prop}
    (I : ℕ → β → σ → Prop)
    (hbody : ∀ i b s, I i b s → i < hi → wlp (body i b) e s fun r s' =>
      match r with
      | .inl g => Q (.inl g) s'
      | .inr (i', b') => i < i' ∧ I i' b' s')
    (hexit : ∀ i b s, I i b s → hi ≤ i → Q (.inr b) s) :
    ∀ (rounds i : ℕ) (b : β) (s : σ), hi - i ≤ rounds → I i b s → wlp (loop hi body rounds i b) e s Q
  | 0, i, b, s, hr, h => wlp_pure _ (hexit i b s h (by omega))
  | rounds + 1, i, b, s, hr, h => by
    unfold loop
    split
    · rename_i hlt
      rw [wlp_bind]
      refine wlp_mono (hbody i b s h hlt) fun r s' hrs => ?_
      rcases r with g | ⟨i', b'⟩
      · exact wlp_pure _ hrs
      · exact wlp_loop I hbody hexit rounds i' b' s' (by omega) hrs.2
    · exact wlp_pure _ (hexit i b s h (by omega))

theorem wlp_forFrom {lo hi : ℕ} {b : β} {body : ℕ → β → Prog ρ σ φ (γ ⊕ ℕ × β)} {Q : γ ⊕ β → σ → Prop}
    (I : ℕ → β → σ → Prop) (hstart : I lo b s)
    (hbody : ∀ i b s, I i b s → i < hi → wlp (body i b) e s fun r s' =>
      match r with
      | .inl g => Q (.inl g) s'
      | .inr (i', b') => i < i' ∧ I i' b' s')
    (hexit : ∀ i b s, I i b s → hi ≤ i → Q (.inr b) s) : wlp (forFrom lo hi b body) e s Q :=
  wlp_loop I hbody hexit (hi - lo) lo b s (Nat.le_refl _) hstart

/-- Two loops whose rounds do the same as long as the invariant holds. -/
theorem loop_congr {hi : ℕ} {body body' : ℕ → β → Prog ρ σ φ (γ ⊕ ℕ × β)} (I : ℕ → β → σ → Prop)
    (hbody : ∀ i b s, I i b s → i < hi → body i b e s = body' i b e s ∧ wlp (body i b) e s fun r s' =>
      match r with
      | .inl _ => True
      | .inr (i', b') => I i' b' s') :
    ∀ (rounds i : ℕ) (b : β) (s : σ), I i b s → loop hi body rounds i b e s = loop hi body' rounds i b e s
  | 0, _, _, _, _ => rfl
  | rounds + 1, i, b, s, h => by
    rw [loop, loop]
    split
    · rename_i hlt
      obtain ⟨hsame, hkeep⟩ := hbody i b s h hlt
      rw [← bind_of_eq _ hsame]
      refine bind_congr (wlp_mono hkeep fun r s' hr => ?_)
      rcases r with g | ⟨i', b'⟩
      · rfl
      · exact loop_congr I hbody rounds i' b' s' hr
    · rfl

theorem forFrom_congr {lo hi : ℕ} {b : β} {body body' : ℕ → β → Prog ρ σ φ (γ ⊕ ℕ × β)} (I : ℕ → β → σ → Prop)
    (hstart : I lo b s)
    (hbody : ∀ i b s, I i b s → i < hi → body i b e s = body' i b e s ∧ wlp (body i b) e s fun r s' =>
      match r with
      | .inl _ => True
      | .inr (i', b') => I i' b' s') : forFrom lo hi b body e s = forFrom lo hi b body' e s :=
  loop_congr I hbody (hi - lo) lo b s hstart

end Prog
end PulseDB.Lib
