import Mathlib.Algebra.Order.Group.Multiset
import Mathlib.Data.Multiset.Range
import PulseDB.Lib.Heap
import PulseDB.Lib.Prog

/-!
# Programs on a memory of objects

The objects that a program may use are a finite multiset of cells, its footprint. What is not in the footprint
stays as it is, so that the footprints of the parts of a program are put together with `+`.

* `HeapProg β α` : a program on a memory of objects; `load`, `save`, `new`, `release` : its steps, which fail
  at an address without an object;
* `Heap.Holds h M` : the objects of `h` are the cells of `M`;
* `triple m M Q` : on the footprint `M` the program meets no fault and ends in a value and a footprint that
  satisfy `Q`, whatever other objects there are, and leaves these as they are; `triple_bind`, `triple_frame`,
  `bind_call`, ... : its rules;
* `chase` : a loop along links; `triple_chase` : its rule. The loop ends as soon as the nodes that are left
  are cells of the footprint.
-/

namespace PulseDB.Lib
open Prog

variable {α β γ δ ι : Type}

/-! ## Footprints -/

/-- The object `b` at the address `p`. -/
def cell (p : ℕ) (b : β) : Multiset (ℕ × β) := {(p, b)}

@[simp] theorem mem_cell {p q : ℕ} {a b : β} : (q, a) ∈ cell p b ↔ q = p ∧ a = b := by
  simp [cell]

@[simp] theorem map_fst_cell (p : ℕ) (b : β) : (cell p b).map Prod.fst = {p} := rfl

theorem map_fst_cell_add (p : ℕ) (b : β) (M : Multiset (ℕ × β)) :
    (cell p b + M).map Prod.fst = p ::ₘ M.map Prod.fst := by
  rw [Multiset.map_add, map_fst_cell, Multiset.singleton_add]

/-- The objects of the memory are the cells of `M`. -/
structure Heap.Holds (h : Heap β) (M : Multiset (ℕ × β)) : Prop where
  nodup : (M.map Prod.fst).Nodup
  live : ∀ p b, h.cells p = some b ↔ (p, b) ∈ M
  fresh : ∀ p, h.next ≤ p → h.cells p = none

namespace Heap.Holds
variable {h : Heap β} {M : Multiset (ℕ × β)} {p : ℕ} {b : β}

theorem lt_next (hh : h.Holds M) (hp : (p, b) ∈ M) : p < h.next := by
  by_contra hle
  have hnone := hh.fresh p (Nat.le_of_not_lt hle)
  rw [(hh.live p b).mpr hp] at hnone
  cases hnone

theorem notMem (hh : h.Holds (cell p b + M)) : p ∉ M.map Prod.fst := by
  have hnodup := hh.nodup
  rw [map_fst_cell_add, Multiset.nodup_cons] at hnodup
  exact hnodup.1

theorem alloc (hh : h.Holds M) (b : β) : (h.alloc b).Holds (cell h.next b + M) := by
  have hnew : h.next ∉ M.map Prod.fst := by
    intro hmem
    obtain ⟨⟨q, a⟩, hq, rfl⟩ := Multiset.mem_map.mp hmem
    exact absurd (hh.lt_next hq) (Nat.lt_irrefl _)
  refine ⟨?_, fun q a => ?_, fun q hq => ?_⟩
  · rw [map_fst_cell_add, Multiset.nodup_cons]
    exact ⟨hnew, hh.nodup⟩
  · rw [Multiset.mem_add, mem_cell]
    by_cases hq : q = h.next
    · subst hq
      have hno : (h.next, a) ∉ M := fun hmem => hnew (Multiset.mem_map_of_mem Prod.fst hmem)
      simp [Heap.alloc, hno, eq_comm]
    · simp [Heap.alloc, hq, hh.live]
  · have hlt : h.next + 1 ≤ q := hq
    exact (Function.update_of_ne (by omega) ..).trans (hh.fresh q (by omega))

theorem set (hh : h.Holds (cell p b + M)) (b' : β) :
    ∃ h', h.set p b' = some h' ∧ h'.Holds (cell p b' + M) := by
  have hp : h.cells p = some b := (hh.live p b).mpr (by simp)
  have hno := hh.notMem
  refine ⟨{ h with cells := Function.update h.cells p (some b') }, by rw [Heap.set, hp]; rfl, ?_,
    fun q a => ?_,
    fun q hq => ?_⟩
  · simpa using hh.nodup
  · rw [Multiset.mem_add, mem_cell]
    by_cases hq : q = p
    · subst hq
      have hnone : (q, a) ∉ M := fun hmem => hno (Multiset.mem_map_of_mem Prod.fst hmem)
      simp [hnone, eq_comm]
    · simp [hq, hh.live]
  · have hne : q ≠ p := by
      rintro rfl
      rw [hh.fresh q hq] at hp
      cases hp
    exact (Function.update_of_ne hne ..).trans (hh.fresh q hq)

theorem free (hh : h.Holds (cell p b + M)) : ∃ h', h.free p = some h' ∧ h'.Holds M := by
  have hp : h.cells p = some b := (hh.live p b).mpr (by simp)
  have hno := hh.notMem
  have hnodup := hh.nodup
  rw [map_fst_cell_add, Multiset.nodup_cons] at hnodup
  refine ⟨{ h with cells := Function.update h.cells p none }, by rw [Heap.free, hp]; rfl, hnodup.2,
    fun q a => ?_,
    fun q hq => ?_⟩
  · by_cases hq : q = p
    · subst hq
      have hnone : (q, a) ∉ M := fun hmem => hno (Multiset.mem_map_of_mem Prod.fst hmem)
      simp [hnone]
    · simp [hq, hh.live]
  · by_cases hqp : q = p
    · simp [hqp]
    · exact (Function.update_of_ne hqp ..).trans (hh.fresh q hq)

theorem card_le (hh : h.Holds M) {ps : Multiset ℕ} (hps : ps ≤ M.map Prod.fst) : ps.card ≤ h.next := by
  have hsub : ps ≤ Multiset.range h.next := by
    rw [Multiset.le_iff_subset (Multiset.nodup_of_le hps hh.nodup)]
    intro p hp
    obtain ⟨⟨q, b⟩, hq, rfl⟩ := Multiset.mem_map.mp (Multiset.mem_of_le hps hp)
    exact Multiset.mem_range.mpr (hh.lt_next hq)
  simpa using Multiset.card_le_card hsub

end Heap.Holds

theorem Heap.holds_empty : ({} : Heap β).Holds 0 := ⟨Multiset.nodup_zero, by simp, fun _ _ => rfl⟩

/-! ## Programs -/

/-- A program on a memory of objects. -/
abbrev HeapProg (β α : Type) : Type := Prog Unit (Heap β) Unit α

def load (p : ℕ) : HeapProg β β := fun _ h =>
  match h.cells p with
  | some b => .ok (b, h)
  | none => .error ()

def save (p : ℕ) (b : β) : HeapProg β Unit := fun _ h =>
  match h.set p b with
  | some h' => .ok ((), h')
  | none => .error ()

def release (p : ℕ) : HeapProg β Unit := fun _ h =>
  match h.free p with
  | some h' => .ok ((), h')
  | none => .error ()

def new (b : β) : HeapProg β ℕ := fun _ h => .ok (h.next, h.alloc b)

/-- The value of an option, or a fault. -/
def demand : Option α → HeapProg β α
  | some a => pure a
  | none => fault ()

/-- The body for each element, one after the other. -/
def forEach (body : ι → HeapProg β Unit) : List ι → HeapProg β Unit
  | [] => pure ()
  | i :: is => do
    body i
    forEach body is

/-- Follow links from `l` on for at most `fuel` rounds. A round either leaves the loop (`inl`) or gives the
next link and the next loop state (`inr`). -/
def walk (body : ℕ → δ → HeapProg β (γ ⊕ Option ℕ × δ)) : ℕ → Option ℕ → δ → HeapProg β (γ ⊕ δ)
  | _, none, d => pure (.inr d)
  | 0, some _, _ => fault ()
  | fuel + 1, some p, d => do
    match ← body p d with
    | .inl g => pure (.inl g)
    | .inr (l, d) => walk body fuel l d

/-- Follow links. A loop with more rounds than there have been objects comes back to a node and does not
end. -/
def chase (body : ℕ → δ → HeapProg β (γ ⊕ Option ℕ × δ)) (l : Option ℕ) (d : δ) : HeapProg β (γ ⊕ δ) :=
  fun e h => walk body h.next l d e h

/-! ## Triples -/

/-- On the footprint `M` the program meets no fault and ends in a value and a footprint that satisfy `Q`. -/
def triple (m : HeapProg β α) (M : Multiset (ℕ × β)) (Q : α → Multiset (ℕ × β) → Prop) : Prop :=
  ∀ F h, h.Holds (M + F) → wp m () h fun a h' => ∃ M', Q a M' ∧ h'.Holds (M' + F)

section Rules
variable {m : HeapProg β α} {f : α → HeapProg β γ} {M N F : Multiset (ℕ × β)} {p : ℕ} {b b' : β}
  {Q R : α → Multiset (ℕ × β) → Prop} {T : γ → Multiset (ℕ × β) → Prop}

theorem triple_pure {a : α} (h : Q a M) : triple (pure a : HeapProg β α) M Q := fun _ _ hh => ⟨M, h, hh⟩

theorem triple_mono (h : triple m M Q) (hQ : ∀ a M', Q a M' → R a M') : triple m M R := by
  intro F hp hh
  refine wp_mono (h F hp hh) fun a h' hq => ?_
  obtain ⟨M', hq, hh'⟩ := hq
  exact ⟨M', hQ a M' hq, hh'⟩

theorem triple_bind (h : triple m M Q) (hf : ∀ a M', Q a M' → triple (f a) M' T) : triple (m >>= f) M T := by
  intro F hp hh
  rw [wp_bind]
  refine wp_mono (h F hp hh) fun a h' hq => ?_
  obtain ⟨M', hq, hh'⟩ := hq
  exact hf a M' hq F h' hh'

theorem triple_then {m : HeapProg β Unit} {f : Unit → HeapProg β γ} (h : triple m M fun _ M' => M' = N)
    (hf : triple (f ()) N T) : triple (m >>= f) M T := by
  refine triple_bind h fun _ M' hM => ?_
  rw [hM]
  exact hf

theorem triple_end {m : HeapProg β Unit} {Q : Unit → Multiset (ℕ × β) → Prop}
    (h : triple m M fun _ M' => M' = N) (hQ : Q () N) : triple m M Q := by
  refine triple_mono h fun _ M' hM => ?_
  rw [hM]
  exact hQ

theorem triple_frame (h : triple m M Q) (F : Multiset (ℕ × β)) :
    triple m (M + F) fun a M' => ∃ N, Q a N ∧ M' = N + F := by
  intro G hp hh
  rw [add_assoc] at hh
  refine wp_mono (h (F + G) hp hh) fun a h' hq => ?_
  obtain ⟨M', hq, hh'⟩ := hq
  exact ⟨M' + F, ⟨M', hq, rfl⟩, by rwa [add_assoc]⟩

theorem triple_call (hN : N = M + F) (h : triple m M Q) (hR : ∀ a M', Q a M' → R a (M' + F)) :
    triple m N R := by
  rw [hN]
  refine triple_mono (triple_frame h F) fun a M' hq => ?_
  obtain ⟨N', hq, rfl⟩ := hq
  exact hR a N' hq

theorem bind_call (hN : N = M + F) (h : triple m M Q) (hf : ∀ a M', Q a M' → triple (f a) (M' + F) T) :
    triple (m >>= f) N T := by
  refine triple_bind (Q := fun a M' => ∃ N', Q a N' ∧ M' = N' + F) (triple_call hN h fun a M' hq =>
    ⟨M', hq, rfl⟩) fun a M' hq => ?_
  obtain ⟨N', hq, rfl⟩ := hq
  exact hf a N' hq

theorem triple_load (hp : (p, b) ∈ M) : triple (load p) M fun a M' => a = b ∧ M' = M := by
  intro F h hh
  have hcell : h.cells p = some b := (hh.live p b).mpr (Multiset.mem_add.mpr (Or.inl hp))
  have hrun : load p () h = .ok (b, h) := by rw [load, hcell]
  exact (wp_of_ok hrun).mpr ⟨M, ⟨rfl, rfl⟩, hh⟩

theorem bind_load {f : β → HeapProg β γ} (hp : (p, b) ∈ M) (h : triple (f b) M T) :
    triple (load p >>= f) M T := by
  refine triple_bind (triple_load hp) fun a M' hq => ?_
  obtain ⟨rfl, rfl⟩ := hq
  exact h

theorem triple_save {Q : Unit → Multiset (ℕ × β) → Prop} (hM : M = cell p b + N) (h : Q () (cell p b' + N)) :
    triple (save p b') M Q := by
  intro F hp hh
  rw [hM, add_assoc] at hh
  obtain ⟨h', hset, hh'⟩ := hh.set b'
  have hrun : save p b' () hp = .ok ((), h') := by rw [save, hset]
  exact (wp_of_ok hrun).mpr ⟨_, h, by rwa [add_assoc]⟩

theorem bind_save {f : Unit → HeapProg β γ} (hM : M = cell p b + N) (h : triple (f ()) (cell p b' + N) T) :
    triple (save p b' >>= f) M T := by
  refine triple_bind (Q := fun _ M' => M' = cell p b' + N) (triple_save hM rfl) fun _ M' hq => ?_
  rw [hq]
  exact h

theorem triple_release {Q : Unit → Multiset (ℕ × β) → Prop} (hM : M = cell p b + N) (h : Q () N) :
    triple (release p) M Q := by
  intro F hp hh
  rw [hM, add_assoc] at hh
  obtain ⟨h', hfree, hh'⟩ := hh.free
  have hrun : release p () hp = .ok ((), h') := by rw [release, hfree]
  exact (wp_of_ok hrun).mpr ⟨N, h, hh'⟩

theorem bind_release {f : Unit → HeapProg β γ} (hM : M = cell p b + N) (h : triple (f ()) N T) :
    triple (release p >>= f) M T := by
  refine triple_bind (Q := fun _ M' => M' = N) (triple_release hM rfl) fun _ M' hq => ?_
  rw [hq]
  exact h

theorem triple_new : triple (new b) M fun p M' => M' = cell p b + M := by
  intro F h hh
  have hrun : new b () h = .ok (h.next, h.alloc b) := rfl
  exact (wp_of_ok hrun).mpr ⟨_, rfl, by rw [add_assoc]; exact hh.alloc b⟩

theorem bind_new {f : ℕ → HeapProg β γ} (h : ∀ p, triple (f p) (cell p b + M) T) :
    triple (new b >>= f) M T := by
  refine triple_bind triple_new fun p M' hq => ?_
  subst hq
  exact h p

theorem triple_demand {o : Option α} {a : α} (ho : o = some a) (h : Q a M) :
    triple (demand o : HeapProg β α) M Q := by
  subst ho
  exact triple_pure h

theorem bind_demand {o : Option α} {a : α} (ho : o = some a) (h : triple (f a) M T) :
    triple (demand o >>= f) M T := by
  subst ho
  exact h

theorem triple.run (h : triple m M Q) {hp : Heap β} (hh : hp.Holds M) :
    ∃ a h' M', m () hp = .ok (a, h') ∧ Q a M' ∧ h'.Holds M' := by
  obtain ⟨a, h', hrun, M', hq, hh'⟩ := wp_iff.mp (h 0 hp (by rwa [add_zero]))
  exact ⟨a, h', M', hrun, hq, by rwa [add_zero] at hh'⟩

end Rules

/-! ## Loops -/

theorem triple_forEach {body : ι → HeapProg β Unit} {Q : Unit → Multiset (ℕ × β) → Prop}
    (I : List ι → Multiset (ℕ × β) → Prop)
    (hbody : ∀ i is M, I (i :: is) M → triple (body i) M fun _ M' => I is M') (hend : ∀ M, I [] M → Q () M) :
    ∀ (is : List ι) (M : Multiset (ℕ × β)), I is M → triple (forEach body is) M Q := by
  intro is
  induction is with
  | nil => exact fun M h => triple_pure (hend M h)
  | cons i is ih => exact fun M h => triple_bind (hbody i is M h) fun _ M' h' => ih M' h'

theorem triple_forRange {body : ℕ → HeapProg β Unit} (I : ℕ → Multiset (ℕ × β) → Prop) {n : ℕ}
    {M : Multiset (ℕ × β)} (hstart : I 0 M) (hbody : ∀ i M, i < n → I i M → triple (body i) M fun _ M' =>
      I (i + 1) M') :
    triple (forEach body (List.range n)) M fun _ M' => I n M' := by
  rw [List.range_eq_range']
  refine triple_forEach (fun is M => ∃ i, i ≤ n ∧ is = List.range' i (n - i) ∧ I i M) (fun i is M h => ?_)
    (fun M h => ?_) _ M ⟨0, Nat.zero_le n, rfl, hstart⟩
  · obtain ⟨j, hj, his, hI⟩ := h
    have hlt : j < n := by
      by_contra hge
      rw [Nat.sub_eq_zero_of_le (Nat.le_of_not_lt hge)] at his
      cases his
    rw [show n - j = n - (j + 1) + 1 by omega, List.range'_succ] at his
    obtain ⟨rfl, rfl⟩ := List.cons.inj his
    exact triple_mono (hbody i M hlt hI) fun _ M' h' => ⟨i + 1, hlt, rfl, h'⟩
  · obtain ⟨j, hj, his, hI⟩ := h
    have hlen := congrArg List.length his
    rw [List.length_nil, List.length_range'] at hlen
    rwa [show n = j by omega]

section Chase
variable {ν : Type} {addr : ν → ℕ} {body : ℕ → δ → HeapProg β (γ ⊕ Option ℕ × δ)}
  {Q : γ ⊕ δ → Multiset (ℕ × β) → Prop}

/-- The link to the first of some nodes; after the last one comes `l`. -/
def firstLink (addr : ν → ℕ) : List ν → Option ℕ → Option ℕ
  | [], l => l
  | n :: _, _ => some (addr n)

@[simp] theorem firstLink_nil (addr : ν → ℕ) (l : Option ℕ) : firstLink addr [] l = l := rfl

@[simp] theorem firstLink_cons (addr : ν → ℕ) (n : ν) (ns : List ν) (l : Option ℕ) :
    firstLink addr (n :: ns) l = some (addr n) := rfl

theorem firstLink_append (addr : ν → ℕ) (xs ys : List ν) (l : Option ℕ) :
    firstLink addr (xs ++ ys) l = firstLink addr xs (firstLink addr ys l) := by
  cases xs <;> rfl

theorem triple_walk (I : List ν → δ → Multiset (ℕ × β) → Prop)
    (hbody : ∀ n ns d M, I (n :: ns) d M → triple (body (addr n) d) M fun r M' =>
      (∃ g, r = .inl g ∧ Q (.inl g) M') ∨ ∃ d', r = .inr (firstLink addr ns none, d') ∧ I ns d' M')
    (hend : ∀ d M, I [] d M → Q (.inr d) M) :
    ∀ (ns : List ν) (fuel : ℕ) (d : δ) (M : Multiset (ℕ × β)), ns.length ≤ fuel → I ns d M →
      triple (walk body fuel (firstLink addr ns none) d) M Q := by
  intro ns
  induction ns with
  | nil =>
    intro fuel d M _ h
    rw [firstLink, walk]
    exact triple_pure (hend d M h)
  | cons n ns ih =>
    intro fuel d M hfuel h
    cases fuel with
    | zero => exact absurd hfuel (by simp)
    | succ fuel =>
      rw [firstLink, walk]
      refine triple_bind (hbody n ns d M h) fun r M' hr => ?_
      rcases hr with ⟨g, rfl, hg⟩ | ⟨d', rfl, h'⟩
      · exact triple_pure hg
      · exact ih fuel d' M' (Nat.le_of_succ_le_succ hfuel) h'

/-- The rule of the loop: the invariant `I` says what holds when the nodes `ns` are left. -/
theorem triple_chase (I : List ν → δ → Multiset (ℕ × β) → Prop) {ns : List ν} {d : δ} {M : Multiset (ℕ × β)}
    (hstart : I ns d M) (hnodes : (ns.map addr : Multiset ℕ) ≤ M.map Prod.fst)
    (hbody : ∀ n ns d M, I (n :: ns) d M → triple (body (addr n) d) M fun r M' =>
      (∃ g, r = .inl g ∧ Q (.inl g) M') ∨ ∃ d', r = .inr (firstLink addr ns none, d') ∧ I ns d' M')
    (hend : ∀ d M, I [] d M → Q (.inr d) M) : triple (chase body (firstLink addr ns none) d) M Q := by
  intro F h hh
  have hfuel : ns.length ≤ h.next := by
    have hle : (ns.map addr : Multiset ℕ) ≤ (M + F).map Prod.fst := by
      rw [Multiset.map_add]
      exact hnodes.trans (Multiset.le_add_right _ _)
    simpa using hh.card_le hle
  exact triple_walk I hbody hend ns h.next d M hfuel hstart F h hh

end Chase
end PulseDB.Lib
