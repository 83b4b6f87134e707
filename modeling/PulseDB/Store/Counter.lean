import PulseDB.Resp.Decimal
import PulseDB.Store.Refinement
import Mathlib.Algebra.BigOperators.Group.List.Basic

/-!
# Counters

A string that `parse_int64` accepts is a counter, and so is a key that is absent.

* `counter` : the number a cell counts to; `addOverflows_iff` : the overflow test is exact;
* `incrby_step` : what an increment does to a cell;
* `Counted` : increments of a key among other operations; `Counted.cell` : what they leave under the key;
* `incrby_exact` : the increments of every reachable store.
-/

namespace PulseDB

variable {D : Type}

/-! ## One increment -/

/-- The number that a cell counts to. An absent key counts to 0. -/
def counter : Option (Cell D) → Option Int
  | none => some 0
  | some c => c.value.asStr.bind parseInt64

theorem counter_range {o : Option (Cell D)} {v : Int} (h : counter o = some v) :
    int64Min ≤ v ∧ v ≤ int64Max := by
  cases o with
  | none =>
    cases h
    decide
  | some c =>
    obtain ⟨text, -, htext⟩ := Option.bind_eq_some_iff.mp h
    exact parseInt64_range htext

theorem addOverflows_iff {v : Int} (h : int64Min ≤ v ∧ v ≤ int64Max) (delta : Int) :
    addOverflows v delta = false ↔ int64Min ≤ v + delta ∧ v + delta ≤ int64Max := by
  unfold addOverflows
  rw [Bool.or_eq_false_iff, Bool.and_eq_false_iff, Bool.and_eq_false_iff, decide_eq_false_iff_not,
    decide_eq_false_iff_not, decide_eq_false_iff_not, decide_eq_false_iff_not]
  omega

section Step
variable [LinearOrder D] {o : Option (Cell D)} {v : Int}

theorem incrby_refused (delta now' : Int) (h : counter o = none) :
    ∃ st, (StoreOp.incrby (D := D) delta).step now' o = (.error st, o) := by
  cases o with
  | none => cases h
  | some c =>
    rw [StoreOp.step]
    cases hc : c.value.asStr with
    | none => exact ⟨_, Cell.alter_wrongType hc⟩
    | some text =>
      rw [counter, hc, Option.bind_some] at h
      refine ⟨.notInteger, ?_⟩
      rw [Cell.alter_typed hc, incrSpec, Option.map_some, Option.getD_some, h]

theorem incrby_counted (delta now' : Int) (h : counter o = some v) :
    (StoreOp.incrby (D := D) delta).step now' o =
      if addOverflows v delta then (.error .overflow, o)
      else (.ok (v + delta), some ⟨.str (decInt (v + delta)), (o.map (·.expiresAt)).getD 0⟩) := by
  rw [StoreOp.step]
  cases o with
  | none =>
    cases h
    rw [Cell.alter_none, incrSpec, Option.map_none, Option.getD_none]
    simp only
    cases addOverflows 0 delta <;> rfl
  | some c =>
    obtain ⟨text, hc, htext⟩ := Option.bind_eq_some_iff.mp h
    rw [Cell.alter_typed hc, incrSpec, Option.map_some, Option.getD_some, htext]
    simp only
    cases addOverflows v delta <;> rfl

theorem incrby_step (o : Option (Cell D)) (delta now' : Int) :
    (∃ v, counter o = some v ∧ int64Min ≤ v + delta ∧ v + delta ≤ int64Max ∧
      (StoreOp.incrby (D := D) delta).step now' o =
        (.ok (v + delta), some ⟨.str (decInt (v + delta)), (o.map (·.expiresAt)).getD 0⟩)) ∨
    (∀ v, counter o = some v → ¬ (int64Min ≤ v + delta ∧ v + delta ≤ int64Max)) ∧
      ∃ st, (StoreOp.incrby (D := D) delta).step now' o = (.error st, o) := by
  cases hv : counter o with
  | none => exact Or.inr ⟨fun v h => (by cases h), incrby_refused delta now' hv⟩
  | some v =>
    have hrange := addOverflows_iff (counter_range hv) delta
    have hstep := incrby_counted delta now' hv
    cases hover : addOverflows v delta with
    | false =>
      rw [hover, if_neg Bool.false_ne_true] at hstep
      exact Or.inl ⟨v, rfl, (hrange.mp hover).1, (hrange.mp hover).2, hstep⟩
    | true =>
      rw [hover, if_pos rfl] at hstep
      refine Or.inr ⟨fun w hw hin => ?_, _, hstep⟩
      cases hw
      exact absurd (hover.symm.trans (hrange.mpr hin)) (by decide)

end Step

/-- A failed increment leaves the table as it is: the key is there, and it has not expired. -/
theorem storeIncrby_error {s : Store D} (h : s.Inv) {key : Bytes} {delta now now' : Int} {st : StoreStatus}
    (hdelta : int64Min ≤ delta ∧ delta ≤ int64Max) (hst : (storeIncrby s key delta now now').1 = .error st) :
    (storeIncrby s key delta now now').2 = s := by
  unfold storeIncrby at hst ⊢
  rcases lookupTyped_cases h key Value.asStr now with ⟨s', hl, -⟩ | ⟨e, hl, -⟩ | ⟨e, text, hl, -⟩
  · have hfits : addOverflows 0 delta = false := (addOverflows_iff (by decide) delta).mpr (by omega)
    rw [hl] at hst
    simp only [hfits] at hst
    cases hst
  · rw [hl]
  · rw [hl] at hst ⊢
    simp only at hst ⊢
    cases hparse : parseInt64 text with
    | none => rfl
    | some val =>
      rw [hparse] at hst
      simp only at hst ⊢
      split
      · rfl
      · rename_i hover
        rw [if_neg hover] at hst
        cases hst

/-! ## Many increments -/

/-- Some operations in which the key is only incremented: from the first store to the second, with the amounts
of the increments that succeeded. -/
inductive Counted [LinearOrder D] (key : Bytes) : Store D → List Int → Store D → Prop
  | nil (s : Store D) : Counted key s [] s
  | other {s s₁ : Store D} {deltas : List Int} (h : Counted key s deltas s₁) (c : Call D)
      (hkey : c.key ≠ key) :
      Counted key s deltas (c.exec s₁)
  | added {s s₁ : Store D} {deltas : List Int} (h : Counted key s deltas s₁) {delta now now' r : Int}
      (hr : (storeIncrby s₁ key delta now now').1 = .ok r) :
      Counted key s (deltas ++ [delta]) (storeIncrby s₁ key delta now now').2
  | failed {s s₁ : Store D} {deltas : List Int} (h : Counted key s deltas s₁) {delta now now' : Int}
      {st : StoreStatus} (hr : (storeIncrby s₁ key delta now now').1 = .error st) :
      Counted key s deltas (storeIncrby s₁ key delta now now').2

/-- What a counter with no expiry holds after some increments. -/
def countedCell (deltas : List Int) : Option (Cell D) :=
  if deltas = [] then none else some ⟨.str (decInt deltas.sum), 0⟩

section Counted
variable {deltas : List Int}

theorem live_countedCell (now : Int) :
    live now (countedCell deltas : Option (Cell D)) = countedCell deltas := by
  unfold countedCell
  split
  · rfl
  · exact live_eq_some.mpr ⟨rfl, fun h => h.1 rfl⟩

theorem counter_countedCell (h : int64Min ≤ deltas.sum ∧ deltas.sum ≤ int64Max) :
    counter (countedCell deltas : Option (Cell D)) = some deltas.sum := by
  unfold countedCell
  split
  · rename_i hnil
    rw [hnil]
    rfl
  · exact parseInt64_decInt h.1 h.2

theorem Counted.cell [LinearOrder D] {key : Bytes} {s s' : Store D} (hs : s.Inv) (hfresh : s.cells key = none)
    (h : Counted key s deltas s') :
    s'.Inv ∧ (int64Min ≤ deltas.sum ∧ deltas.sum ≤ int64Max) ∧ s'.cells key = countedCell deltas := by
  induction h with
  | nil => exact ⟨hs, by decide, hfresh⟩
  | other _ c hkey ih =>
    obtain ⟨hinv, hsum, hcell⟩ := ih
    have hdoes := exec_does hinv c.key c.now c.now' c.op
    refine ⟨hdoes.inv, hsum, ?_⟩
    rw [← hcell, Call.exec, hdoes.cells, Function.update_of_ne hkey.symm]
  | @added s₁ deltas _ delta now now' r hr ih =>
    obtain ⟨hinv, hsum, hcell⟩ := ih
    have hdoes := exec_does hinv key now now' (StoreOp.incrby delta)
    have hresult : (storeIncrby s₁ key delta now now').1 = _ := hdoes.result
    rw [hcell, live_countedCell] at hdoes hresult
    rcases incrby_step (D := D) (countedCell deltas) delta now' with ⟨v, hv, h1, h2, hstep⟩ | ⟨-, st, hstep⟩
    · rw [counter_countedCell hsum] at hv
      cases hv
      rw [hstep] at hdoes
      refine ⟨hdoes.inv, by rw [List.sum_append, List.sum_singleton]; exact ⟨h1, h2⟩, ?_⟩
      have hexpiry : ((countedCell deltas : Option (Cell D)).map (·.expiresAt)).getD 0 = 0 := by
        unfold countedCell
        split <;> rfl
      show (StoreOp.exec s₁ key now now' (.incrby delta)).2.cells key = _
      rw [hdoes.cells, Function.update_self, hexpiry, countedCell, if_neg (by simp), List.sum_append,
        List.sum_singleton]
    · rw [hstep] at hresult
      cases hr.symm.trans hresult
  | @failed s₁ deltas _ delta now now' st hr ih =>
    obtain ⟨hinv, hsum, hcell⟩ := ih
    have hdoes := exec_does hinv key now now' (StoreOp.incrby delta)
    have hresult : (storeIncrby s₁ key delta now now').1 = _ := hdoes.result
    rw [hcell, live_countedCell] at hdoes hresult
    rcases incrby_step (D := D) (countedCell deltas) delta now' with ⟨v, -, -, -, hstep⟩ | ⟨-, st', hstep⟩
    · rw [hstep] at hresult
      cases hr.symm.trans hresult
    · rw [hstep] at hdoes
      refine ⟨hdoes.inv, hsum, ?_⟩
      show (StoreOp.exec s₁ key now now' (.incrby delta)).2.cells key = _
      rw [hdoes.cells, Function.update_self]

end Counted

/-- In every reachable store, for every key and 64-bit amount and at all clock readings: an increment succeeds
exactly when the key is absent or a counter and the sum is in range; it then answers the sum, leaves a text
that reads as the sum, keeps the expiry of the key and changes nothing else; a failed increment changes
nothing. The overflow test stays in range itself. Increments of a fresh key, with any operations on other keys
between them, leave the sum of the amounts of those that succeeded. -/
theorem incrby_exact [LinearOrder D] {s : Store D} (hs : s.Reachable) (key : Bytes) {delta : Int}
    (hdelta : int64Min ≤ delta ∧ delta ≤ int64Max) :
    (∀ now now', ((∃ r, (storeIncrby s key delta now now').1 = .ok r) ↔
      ∃ v, counter (live now (s.cells key)) = some v ∧ int64Min ≤ v + delta ∧ v + delta ≤ int64Max) ∧
      (∀ r, (storeIncrby s key delta now now').1 = .ok r →
        counter (live now (s.cells key)) = some (r - delta) ∧ ∃ text, parseInt64 text = some r ∧
          (storeIncrby s key delta now now').2.cells = Function.update s.cells key
            (some ⟨.str text, ((live now (s.cells key)).map (·.expiresAt)).getD 0⟩)) ∧
      ∀ st, (storeIncrby s key delta now now').1 = .error st → (storeIncrby s key delta now now').2 = s) ∧
    ((0 < delta → int64Min ≤ int64Max - delta ∧ int64Max - delta ≤ int64Max) ∧
      (delta < 0 → int64Min ≤ int64Min - delta ∧ int64Min - delta ≤ int64Max)) ∧
    ∀ deltas s', s.cells key = none → Counted key s deltas s' →
      s'.cells key = if deltas = [] then none else some ⟨.str (decInt deltas.sum), 0⟩ := by
  refine ⟨fun now now' => ?_, ?_, fun deltas s' hfresh h => (h.cell hs.inv hfresh).2.2⟩
  · have hdoes := exec_does hs.inv key now now' (StoreOp.incrby delta)
    have hresult : (storeIncrby s key delta now now').1 = _ := hdoes.result
    have hcells : (storeIncrby s key delta now now').2.cells = _ := hdoes.cells
    refine ⟨?_, fun r hr => ?_, fun st hst => storeIncrby_error hs.inv hdelta hst⟩
    · rcases incrby_step (live now (s.cells key)) delta now' with ⟨v, hv, h1, h2, hstep⟩ | ⟨hnot, st, hstep⟩
      · exact iff_of_true ⟨_, hresult.trans (congrArg Prod.fst hstep)⟩ ⟨v, hv, h1, h2⟩
      · refine iff_of_false ?_ fun ⟨v, hv, hin⟩ => hnot v hv hin
        rintro ⟨r, hr⟩
        rw [hstep] at hresult
        cases hr.symm.trans hresult
    · rcases incrby_step (live now (s.cells key)) delta now' with ⟨v, hv, h1, h2, hstep⟩ | ⟨-, st, hstep⟩
      · rw [hstep] at hresult hcells
        cases hr.symm.trans hresult
        exact ⟨by rw [hv, Int.add_sub_cancel], _, parseInt64_decInt h1 h2, hcells⟩
      · rw [hstep] at hresult
        cases hr.symm.trans hresult
  · unfold int64Min int64Max at *
    omega

/-- A fresh key is incremented by 5 and by -7, with another key set between them. -/
theorem incrby_exact_fresh :
    let s₁ := (storeIncrby (storeCreate : Store ℕ) (ascii "k") 5 1 1).2
    let s₂ := (Call.exec ⟨.set (ascii "x") 0, ascii "other", 2, 2⟩ s₁)
    let s₃ := (storeIncrby s₂ (ascii "k") (-7) 3 3).2
    (storeIncrby (storeCreate : Store ℕ) (ascii "k") 5 1 1).1 = .ok 5 ∧
    s₃.cells (ascii "k") = some ⟨.str (ascii "-2"), 0⟩ := by
  intro s₁ s₂ s₃
  obtain ⟨h1, -, h3⟩ := incrby_exact (D := ℕ) .create (ascii "k") (show int64Min ≤ 5 ∧ 5 ≤ int64Max by decide)
  have hfirst : (storeIncrby (storeCreate : Store ℕ) (ascii "k") 5 1 1).1 = .ok 5 := by decide
  have hother : (⟨.set (ascii "x") 0, ascii "other", 2, 2⟩ : Call ℕ).key ≠ ascii "k" := by decide
  have hsecond : (storeIncrby s₂ (ascii "k") (-7) 3 3).1 = .ok (-2) := by decide
  have hcell := h3 _ _ (by rw [storeCreate_cells])
    ((((Counted.nil _).added hfirst).other _ hother).added hsecond)
  exact ⟨hfirst, hcell.trans (by decide)⟩

end PulseDB
