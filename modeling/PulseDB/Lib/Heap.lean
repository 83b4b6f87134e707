import Mathlib.Data.List.Nodup
import Mathlib.Data.List.Perm.Basic
import Mathlib.Logic.Function.Basic
import Mathlib.Tactic.Common

/-!
# Objects with one owner

Objects in a memory, addressed by numbers. An address is not used for a second object, so that a pointer to a
freed object stays one to no object.

* `Heap.alloc`, `Heap.set`, `Heap.free`, `Heap.freeAll` : a new object; an object that changes or goes, which
  fails if it has gone before;
* `Heap.readAll` : the objects behind some pointers;
* `Heap.Owned h ps` : the pointers `ps` name every object that has not been freed, each once;
* `Owned.alloc`, `Owned.set`, `Owned.free`, `Owned.freeAll`, `Owned.perm` : what the operations do to the
  pointers, and that the other objects stay as they are.
-/

namespace PulseDB.Lib

variable {α : Type}

/-- The objects that have not been freed, and the address of the next one. -/
structure Heap (α : Type) where
  cells : ℕ → Option α := fun _ => none
  next : ℕ := 0

namespace Heap

def alloc (h : Heap α) (a : α) : Heap α :=
  { cells := Function.update h.cells h.next (some a), next := h.next + 1 }

def free (h : Heap α) (p : ℕ) : Option (Heap α) :=
  (h.cells p).map fun _ => { h with cells := Function.update h.cells p none }

/-- Change an object; fails if it has gone. -/
def set (h : Heap α) (p : ℕ) (a : α) : Option (Heap α) :=
  (h.cells p).map fun _ => { h with cells := Function.update h.cells p (some a) }

/-- Free some objects, one after the other. -/
def freeAll : List ℕ → Heap α → Option (Heap α)
  | [], h => some h
  | p :: ps, h => (h.free p).bind (freeAll ps)

/-- The objects behind some pointers. -/
def readAll (h : Heap α) : List ℕ → Option (List α)
  | [] => some []
  | p :: ps => (h.cells p).bind fun a => (h.readAll ps).map (a :: ·)

theorem readAll_eq_some {h : Heap α} {ps : List ℕ} : ∀ {as : List α},
    h.readAll ps = some as ↔ ps.map h.cells = as.map some := by
  induction ps with
  | nil =>
    intro as
    cases as <;> simp [readAll]
  | cons p ps ih =>
    intro as
    cases as with
    | nil => cases hp : h.cells p <;> simp [readAll, hp]
    | cons a as => cases hp : h.cells p <;> simp [readAll, hp, ih, and_comm]

theorem readAll_length {h : Heap α} {ps : List ℕ} {as : List α} (hread : h.readAll ps = some as) :
    as.length = ps.length := by
  have hmap := congrArg List.length (readAll_eq_some.mp hread)
  rw [List.length_map, List.length_map] at hmap
  exact hmap.symm

theorem readAll_append (h : Heap α) (ps qs : List ℕ) :
    h.readAll (ps ++ qs) = (h.readAll ps).bind fun as => (h.readAll qs).map (as ++ ·) := by
  induction ps with
  | nil => simp [readAll]
  | cons p ps ih =>
    cases hp : h.cells p <;> simp [readAll, hp, ih, Option.map_bind, Option.bind_map, Function.comp_def]

theorem readAll_congr {h h' : Heap α} {ps : List ℕ} (heq : ∀ p ∈ ps, h'.cells p = h.cells p) :
    h'.readAll ps = h.readAll ps := by
  induction ps with
  | nil => rfl
  | cons p ps ih =>
    rw [readAll, readAll, heq p List.mem_cons_self, ih fun q hq => heq q (List.mem_cons_of_mem p hq)]

/-- The pointers `ps` name every object once. -/
structure Owned (h : Heap α) (ps : List ℕ) : Prop where
  nodup : ps.Nodup
  live : ∀ p, p ∈ ps ↔ h.cells p ≠ none
  fresh : ∀ p, h.next ≤ p → h.cells p = none

theorem owned_empty : ({} : Heap α).Owned [] := ⟨List.nodup_nil, by simp, fun _ _ => rfl⟩

namespace Owned
variable {h : Heap α} {p : ℕ} {ps qs : List ℕ}

theorem perm (ho : h.Owned ps) (hperm : ps.Perm qs) : h.Owned qs where
  nodup := hperm.nodup_iff.mp ho.nodup
  live p := hperm.mem_iff.symm.trans (ho.live p)
  fresh := ho.fresh

theorem next_notMem (ho : h.Owned ps) : h.next ∉ ps := by
  rw [ho.live, not_not]
  exact ho.fresh h.next (Nat.le_refl _)

theorem alloc (ho : h.Owned ps) (a : α) :
    (h.alloc a).Owned (h.next :: ps) ∧ ∀ q ∈ ps, (h.alloc a).cells q = h.cells q := by
  have hcells : ∀ q, q ≠ h.next → (h.alloc a).cells q = h.cells q := fun q hq => Function.update_of_ne hq _ _
  refine ⟨⟨List.nodup_cons.mpr ⟨ho.next_notMem, ho.nodup⟩, fun q => ?_, fun q hq => ?_⟩,
    fun q hq => hcells q ?_⟩
  · by_cases hq : q = h.next
    · subst hq
      simp [Heap.alloc]
    · rw [List.mem_cons, hcells q hq, ← ho.live]
      simp [hq]
  · have hlt : h.next + 1 ≤ q := hq
    rw [hcells q (by omega)]
    exact ho.fresh q (by omega)
  · exact ne_of_mem_of_not_mem hq ho.next_notMem

theorem free (ho : h.Owned (p :: ps)) :
    ∃ h', h.free p = some h' ∧ h'.Owned ps ∧ (∀ q ∈ ps, h'.cells q = h.cells q) ∧ h'.next = h.next := by
  obtain ⟨hp, hnodup⟩ := List.nodup_cons.mp ho.nodup
  obtain ⟨a, ha⟩ := Option.ne_none_iff_exists'.mp ((ho.live p).mp List.mem_cons_self)
  refine ⟨{ h with cells := Function.update h.cells p none }, by rw [Heap.free, ha]; rfl,
    ⟨hnodup, fun q => ?_, ?_⟩, ?_, rfl⟩
  · by_cases hq : q = p
    · subst hq
      simp [hp]
    · have hlive := ho.live q
      rw [List.mem_cons] at hlive
      simpa [Function.update_of_ne hq, hq] using hlive
  · intro q hq
    by_cases hqp : q = p
    · simp [hqp]
    · exact (Function.update_of_ne hqp _ _).trans (ho.fresh q hq)
  · intro q hq
    exact Function.update_of_ne (ne_of_mem_of_not_mem hq hp) _ _

theorem set (ho : h.Owned ps) (hp : p ∈ ps) (a : α) :
    ∃ h', h.set p a = some h' ∧ h'.Owned ps ∧ h'.cells p = some a ∧ ∀ q, q ≠ p → h'.cells q = h.cells q := by
  obtain ⟨b, hb⟩ := Option.ne_none_iff_exists'.mp ((ho.live p).mp hp)
  refine ⟨{ h with cells := Function.update h.cells p (some a) }, by rw [Heap.set, hb]; rfl,
    ⟨ho.nodup, fun q => ?_, fun q hq => ?_⟩, Function.update_self .., fun q hq => Function.update_of_ne hq ..⟩
  · by_cases hq : q = p
    · subst hq
      simp [hp]
    · simp [Function.update_of_ne hq, ho.live]
  · have hne : q ≠ p := by
      rintro rfl
      exact (ho.live q).mp hp (ho.fresh q hq)
    exact (Function.update_of_ne hne ..).trans (ho.fresh q hq)

theorem freeAll : ∀ {ps : List ℕ} {h : Heap α}, h.Owned (ps ++ qs) →
    ∃ h', Heap.freeAll ps h = some h' ∧ h'.Owned qs ∧ (∀ q ∈ qs, h'.cells q = h.cells q) ∧
      h'.next = h.next := by
  intro ps
  induction ps with
  | nil => exact fun {h} ho => ⟨h, rfl, ho, fun _ _ => rfl, rfl⟩
  | cons p ps ih =>
    intro h ho
    obtain ⟨h₁, hfree, ho₁, hsame₁, hnext₁⟩ := ho.free
    obtain ⟨h₂, hrest, ho₂, hsame₂, hnext₂⟩ := ih ho₁
    refine ⟨h₂, by rw [Heap.freeAll, hfree, Option.bind_some, hrest], ho₂, fun q hq => ?_,
      hnext₂.trans hnext₁⟩
    rw [hsame₂ q hq, hsame₁ q (List.mem_append_right ps hq)]

end Owned
end Heap
end PulseDB.Lib
