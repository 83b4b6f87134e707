import PulseDB.Lib.Prog

/-!
# Two programs side by side

* `rel m n e s t F Q` : run from `s` and from `t`, both programs end in values and states that `Q` relates, or
  both meet faults that `F` relates;
* `rel_pure`, `rel_bind`, `rel_mono` : the rules of programs that go step by step together;
* `rel_left`, `rel_right`, `rel_map_right` : a step that only one of them makes;
* `rel_and_wlp` : what one of them keeps by itself.
-/

namespace PulseDB.Lib.Prog

variable {ρ σ τ φ ψ α β γ δ : Type}

/-- Both programs end in values and states that `Q` relates, or both in faults that `F` relates. -/
def rel (m : Prog ρ σ φ α) (n : Prog ρ τ ψ β) (e : ρ) (s : σ) (t : τ) (F : φ → ψ → Prop)
    (Q : α → σ → β → τ → Prop) : Prop :=
  match m e s, n e t with
  | .ok (a, s'), .ok (b, t') => Q a s' b t'
  | .error x, .error y => F x y
  | _, _ => False

section Rules
variable {m : Prog ρ σ φ α} {n : Prog ρ τ ψ β} {e : ρ} {s s' : σ} {t t' : τ} {F : φ → ψ → Prop}
  {Q R : α → σ → β → τ → Prop}

theorem rel_iff : rel m n e s t F Q ↔
    (∃ a s' b t', m e s = .ok (a, s') ∧ n e t = .ok (b, t') ∧ Q a s' b t') ∨
      ∃ x y, m e s = .error x ∧ n e t = .error y ∧ F x y := by
  unfold rel
  cases hm : m e s <;> cases hn : n e t <;> simp [Prod.ext_iff]

theorem rel_of_ok {a : α} {b : β} (hm : m e s = .ok (a, s')) (hn : n e t = .ok (b, t')) (h : Q a s' b t') :
    rel m n e s t F Q := by
  rw [rel, hm, hn]
  exact h

theorem rel_ok {a : α} (h : rel m n e s t F Q) (hm : m e s = .ok (a, s')) :
    ∃ b t', n e t = .ok (b, t') ∧ Q a s' b t' := by
  rcases rel_iff.mp h with ⟨_, _, b, t', hms, hnt, hq⟩ | ⟨x, y, hms, -, -⟩
  · cases hm.symm.trans hms
    exact ⟨b, t', hnt, hq⟩
  · cases hm.symm.trans hms

theorem rel_mono (h : rel m n e s t F Q) (hQ : ∀ a s' b t', Q a s' b t' → R a s' b t') :
    rel m n e s t F R := by
  rw [rel_iff] at h ⊢
  apply h.imp_left
  rintro ⟨a, s', b, t', hm, hn, hq⟩
  exact ⟨a, s', b, t', hm, hn, hQ a s' b t' hq⟩

theorem rel_pure {a : α} {b : β} (h : Q a s b t) :
    rel (pure a : Prog ρ σ φ α) (pure b : Prog ρ τ ψ β) e s t F Q := h

theorem rel_fault {x : φ} {y : ψ} (h : F x y) :
    rel (fault x : Prog ρ σ φ α) (fault y : Prog ρ τ ψ β) e s t F Q := h

theorem rel_bind {f : α → Prog ρ σ φ γ} {g : β → Prog ρ τ ψ δ} {P : γ → σ → δ → τ → Prop}
    (h : rel m n e s t F Q) (hnext : ∀ a s' b t', Q a s' b t' → rel (f a) (g b) e s' t' F P) :
    rel (m >>= f) (n >>= g) e s t F P := by
  rcases rel_iff.mp h with ⟨a, s', b, t', hm, hn, hq⟩ | ⟨x, y, hm, hn, hf⟩
  · rw [rel, bind_of_ok hm, bind_of_ok hn]
    exact hnext a s' b t' hq
  · rw [rel, bind_of_error hm, bind_of_error hn]
    exact hf

theorem rel_left {f : α → Prog ρ σ φ γ} {P : γ → σ → β → τ → Prop} {a : α} (hm : m e s = .ok (a, s'))
    (h : rel (f a) n e s' t F P) : rel (m >>= f) n e s t F P := by
  rw [rel, bind_of_ok hm]
  exact h

theorem rel_right {g : β → Prog ρ τ ψ δ} {P : α → σ → δ → τ → Prop} {b : β} (hn : n e t = .ok (b, t'))
    (h : rel m (g b) e s t' F P) : rel m (n >>= g) e s t F P := by
  rw [rel, bind_of_ok hn]
  exact h

/-- The second program goes on to a value that it computes from its own. -/
theorem rel_map_right {g : β → δ} {P : α → σ → δ → τ → Prop} (h : rel m n e s t F Q)
    (hP : ∀ a s' b t', Q a s' b t' → P a s' (g b) t') : rel m (n >>= fun b => pure (g b)) e s t F P := by
  rcases rel_iff.mp h with ⟨a, s', b, t', hm, hn, hq⟩ | ⟨x, y, hm, hn, hf⟩
  · rw [rel, hm, bind_of_ok hn]
    exact hP a s' b t' hq
  · rw [rel, hm, bind_of_error hn]
    exact hf

/-- What the second program keeps by itself holds at the end of the pair as well. -/
theorem rel_and_wlp {W : β → τ → Prop} (h : rel m n e s t F Q) (hw : wlp n e t W) :
    rel m n e s t F fun a s' b t' => Q a s' b t' ∧ W b t' := by
  rw [rel_iff] at h ⊢
  apply h.imp_left
  rintro ⟨a, s', b, t', hm, hn, hq⟩
  exact ⟨a, s', b, t', hm, hn, hq, hw b t' hn⟩

end Rules
end PulseDB.Lib.Prog
