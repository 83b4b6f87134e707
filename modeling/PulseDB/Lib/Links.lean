import Mathlib.Algebra.BigOperators.Group.List.Defs
import Mathlib.Data.List.Induction
import PulseDB.Lib.Chains
import PulseDB.Lib.Footprint

/-!
# Linked nodes and tables of chains in memory

* `Link`, `Slots` : how a node names the next one, and how an array of links is kept in an object;
* `search`, `setAt`, `pushSlot`, `moveTable`, `freeChain`, `freeTable`, `readChain` : the loops over chains,
  with the pointer to a link that `search` walks with as a `Cursor`;
* `Layout` : the nodes of a chain with their addresses and what else they own; `Layout.seg`, `Layout.table` :
  the footprint of some nodes in a row, and of an array of chains;
* `triple_search`, `triple_unlink`, `triple_pushSlot`, `triple_moveTable`, `triple_freeTable`, ... : what the
  loops do, in terms of the operations of `Lib.Chains` on the lists of nodes. The nodes keep their addresses;
* `link_map`, `unlink_map`, `amend_map`, `rehash_map` : what the operations do to what the nodes stand for.
-/

namespace PulseDB.Lib
open Prog Chains

variable {α β ν : Type}

/-! ## Programs -/

/-- The link to the next node in a node. -/
structure Link (β : Type) where
  next : β → Option (Option ℕ)
  relink : β → Option ℕ → Option β

/-- The array of links in an object. -/
structure Slots (β : Type) where
  slots : β → Option (List (Option ℕ))
  reslot : β → List (Option ℕ) → Option β

/-- A pointer to a link: the address of a slot, or of the link in the node `p`. -/
inductive Cursor where
  | slot (i : ℕ)
  | link (p : ℕ)

section Programs
variable (k : Link β) (s : Slots β)

def Link.set (p : ℕ) (l : Option ℕ) : HeapProg β Unit := do
  let b ← load p
  save p (← demand (k.relink b l))

def Slots.get (t i : ℕ) : HeapProg β (Option ℕ) := do
  let b ← load t
  let ls ← demand (s.slots b)
  demand ls[i]?

def Slots.set (t i : ℕ) (l : Option ℕ) : HeapProg β Unit := do
  let b ← load t
  let ls ← demand (s.slots b)
  if i < ls.length then save t (← demand (s.reslot b (ls.set i l))) else fault ()

/-- Write the link that a cursor points at. -/
def setAt (t : ℕ) : Cursor → Option ℕ → HeapProg β Unit
  | .slot i, l => s.set t i l
  | .link p, l => k.set p l

/-- Walk the chain of slot `i` up to the first node that passes the test; the node, and the pointer to the
link to it. -/
def search (t i : ℕ) (test : β → HeapProg β Bool) : HeapProg β (Option (Cursor × ℕ)) := do
  let l ← s.get t i
  let r ← chase (fun p curr => do
    let b ← load p
    if ← test b then return .inl (curr, p)
    return .inr (← demand (k.next b), .link p)) l (.slot i)
  return r.getLeft?

/-- Put the node `p` in front of the chain of slot `i`. -/
def pushSlot (t i p : ℕ) : HeapProg β Unit := do
  let l ← s.get t i
  k.set p l
  s.set t i (some p)

/-- Put every node of a chain in front of the chain that `slotOf` names for it. -/
def moveChain (t : ℕ) (slotOf : β → Option ℕ) (l : Option ℕ) : HeapProg β Unit := do
  let _ ← chase (γ := Empty) (fun p _ => do
    let b ← load p
    let next ← demand (k.next b)
    pushSlot k s t (← demand (slotOf b)) p
    return .inr (next, ())) l ()

/-- Move the chains of `size` slots. -/
def moveTable (t size t' : ℕ) (slotOf : β → Option ℕ) : HeapProg β Unit :=
  forEach (fun i => do
    let l ← s.get t i
    moveChain k s t' slotOf l) (List.range size)

/-- Free every node of a chain, after what it owns. -/
def freeChain (drop : β → HeapProg β Unit) (l : Option ℕ) : HeapProg β Unit := do
  let _ ← chase (γ := Empty) (fun p _ => do
    let b ← load p
    let next ← demand (k.next b)
    drop b
    release p
    return .inr (next, ())) l ()

/-- Free the chains of `size` slots. -/
def freeTable (t size : ℕ) (drop : β → HeapProg β Unit) : HeapProg β Unit :=
  forEach (fun i => do
    let l ← s.get t i
    freeChain k drop l) (List.range size)

/-- What `read` gives for every node of a chain. -/
def readChain (read : β → HeapProg β α) (l : Option ℕ) : HeapProg β (List α) := do
  let r ← chase (γ := Empty) (fun p seen => do
    let b ← load p
    let a ← read b
    return .inr (← demand (k.next b), seen ++ [a])) l []
  return r.getRight?.getD []

def readChains (read : β → HeapProg β α) : List (Option ℕ) → HeapProg β (List (List α))
  | [] => pure []
  | l :: ls => do
    let as ← readChain k read l
    let rest ← readChains read ls
    return as :: rest

end Programs

/-! ## Footprints -/

/-- Nodes with their addresses: the object of a node, given the link to the next one, and what else it
owns. -/
structure Layout (k : Link β) (ν : Type) where
  addr : ν → ℕ
  block : ν → Option ℕ → β
  own : ν → Multiset (ℕ × β)
  next_block : ∀ n l, k.next (block n l) = some l
  relink_block : ∀ n l l', k.relink (block n l) l' = some (block n l')

/-- Objects of the form `array ls` hold an array of links. -/
structure Slots.Of (s : Slots β) (array : List (Option ℕ) → β) : Prop where
  slots : ∀ ls, s.slots (array ls) = some ls
  reslot : ∀ ls ls', s.reslot (array ls) ls' = some (array ls')

namespace Layout
variable {k : Link β} (L : Layout k ν)

def head (ns : List ν) : Option ℕ := firstLink L.addr ns none

def node (n : ν) (l : Option ℕ) : Multiset (ℕ × β) := cell (L.addr n) (L.block n l) + L.own n

/-- Some nodes in a row, the last one with the link `l`. -/
def seg : List ν → Option ℕ → Multiset (ℕ × β)
  | [], _ => 0
  | n :: ns, l => L.node n (firstLink L.addr ns l) + seg ns l

/-- An array of chains at the address `t`. -/
def table (array : List (Option ℕ) → β) (t : ℕ) (ts : List (List ν)) : Multiset (ℕ × β) :=
  cell t (array (ts.map L.head)) + (ts.map fun ns => L.seg ns none).sum

/-- The pointer to the link behind some nodes of the chain of slot `i`. -/
def cursor (i : ℕ) (xs : List ν) : Cursor := (xs.getLast?).elim (.slot i) fun x => .link (L.addr x)

@[simp] theorem head_cons (n : ν) (ns : List ν) : L.head (n :: ns) = some (L.addr n) := rfl

@[simp] theorem seg_nil (l : Option ℕ) : L.seg [] l = 0 := rfl

theorem seg_cons (n : ν) (ns : List ν) (l : Option ℕ) :
    L.seg (n :: ns) l = L.node n (firstLink L.addr ns l) + L.seg ns l := rfl

theorem seg_append (xs ys : List ν) (l : Option ℕ) :
    L.seg (xs ++ ys) l = L.seg xs (firstLink L.addr ys l) + L.seg ys l := by
  induction xs with
  | nil => simp
  | cons x xs ih => rw [List.cons_append, seg_cons, seg_cons, ih, firstLink_append, add_assoc]

theorem seg_singleton (n : ν) (l : Option ℕ) : L.seg [n] l = L.node n l := add_zero _

theorem addr_le_seg (ns : List ν) (l : Option ℕ) :
    (ns.map L.addr : Multiset ℕ) ≤ (L.seg ns l).map Prod.fst := by
  induction ns with
  | nil => exact Multiset.zero_le _
  | cons n ns ih =>
    rw [seg_cons, node, add_assoc, map_fst_cell_add, Multiset.map_add, List.map_cons, ← Multiset.cons_coe]
    exact Multiset.cons_le_cons _ (ih.trans (Multiset.le_add_left _ _))

theorem mem_seg {ns : List ν} {n : ν} (hn : n ∈ ns) (l : Option ℕ) : ∃ l', L.node n l' ≤ L.seg ns l := by
  obtain ⟨xs, ys, rfl⟩ := List.append_of_mem hn
  refine ⟨firstLink L.addr ys l, ?_⟩
  rw [seg_append, seg_cons]
  exact (Multiset.le_add_right _ _).trans (Multiset.le_add_left _ _)

theorem exists_sum_rest {ts : List (List ν)} {i : ℕ} (hi : i < ts.length) :
    ∃ R, (ts.map fun ns => L.seg ns none).sum = L.seg (chain ts i) none + R ∧
      ∀ ns, ((ts.set i ns).map fun ns => L.seg ns none).sum = L.seg ns none + R := by
  refine ⟨((ts.take i).map fun ns => L.seg ns none).sum + ((ts.drop (i + 1)).map fun ns => L.seg ns none).sum,
    ?_, ?_⟩
  · have hsplit : ts = ts.take i ++ ts[i] :: ts.drop (i + 1) := by
      rw [← List.drop_eq_getElem_cons hi, List.take_append_drop]
    conv_lhs => rw [hsplit]
    rw [chain_eq hi, List.map_append, List.sum_append, List.map_cons, List.sum_cons]
    ac_rfl
  · intro ns
    rw [List.set_eq_take_append_cons_drop, if_pos hi, List.map_append, List.sum_append, List.map_cons,
      List.sum_cons]
    ac_rfl

theorem exists_table_rest (array : List (Option ℕ) → β) (t : ℕ) {ts : List (List ν)} {i : ℕ}
    (hi : i < ts.length) :
    ∃ R, L.table array t ts = cell t (array (ts.map L.head)) + (L.seg (chain ts i) none + R) ∧
      ∀ ns, L.table array t (ts.set i ns) =
        cell t (array ((ts.map L.head).set i (L.head ns))) + (L.seg ns none + R) := by
  obtain ⟨R, hsum, hset⟩ := L.exists_sum_rest hi
  exact ⟨R, by rw [table, hsum], fun ns => by rw [table, hset, List.map_set]⟩

theorem table_replicate (array : List (Option ℕ) → β) (t size : ℕ) :
    L.table array t (List.replicate size []) = cell t (array (List.replicate size none)) := by
  have hsum : ((List.replicate size []).map fun ns => L.seg ns none).sum = 0 := by
    rw [List.map_replicate, L.seg_nil, List.sum_replicate, nsmul_zero]
  rw [table, hsum, add_zero, List.map_replicate]
  rfl

end Layout

/-! ## Chains that are split at a node -/

section Split
variable {p : ν → Bool} {xs ys : List ν} {n : ν}

theorem modify_chain {ts : List (List ν)} {i : ℕ} (hi : i < ts.length) (f : List ν → List ν) :
    ts.modify i f = ts.set i (f (chain ts i)) := by
  rw [List.modify_eq_take_cons_drop hi, List.set_eq_take_append_cons_drop, if_pos hi, chain_eq hi]

theorem find?_split (hxs : ∀ x ∈ xs, p x = false) (hn : p n = true) : (xs ++ n :: ys).find? p = some n := by
  have hnone : xs.find? p = none := List.find?_eq_none.mpr fun x hx => by simp [hxs x hx]
  rw [List.find?_append, hnone, Option.none_or, List.find?_cons_of_pos hn]

theorem eraseP_split (hxs : ∀ x ∈ xs, p x = false) (hn : p n = true) :
    (xs ++ n :: ys).eraseP p = xs ++ ys := by
  rw [List.eraseP_append_right _ fun x hx => by simp [hxs x hx], List.eraseP_cons_of_pos hn]

theorem updateFirst_split (hxs : ∀ x ∈ xs, p x = false) (hn : p n = true) (f : ν → ν) :
    updateFirst p f (xs ++ n :: ys) = xs ++ f n :: ys := by
  induction xs with
  | nil => rw [List.nil_append, updateFirst, if_pos hn]; rfl
  | cons x xs ih =>
    obtain ⟨hx, hxs⟩ := List.forall_mem_cons.mp hxs
    rw [List.cons_append, updateFirst, if_neg (by simp [hx]), ih hxs]
    rfl

end Split

/-! ## Single steps -/

section Steps
variable {k : Link β} {s : Slots β} {L : Layout k ν} {array : List (Option ℕ) → β} {M N : Multiset (ℕ × β)}
  {ls : List (Option ℕ)} {l l' : Option ℕ} {t i : ℕ} {n : ν} {γ : Type} {T : γ → Multiset (ℕ × β) → Prop}

theorem triple_setLink (hM : M = L.node n l + N) :
    triple (k.set (L.addr n) l') M fun _ M' => M' = L.node n l' + N := by
  rw [hM, Layout.node, Layout.node, add_assoc, add_assoc]
  exact bind_load (by simp) (bind_demand (L.relink_block n l l') (triple_save rfl rfl))

theorem triple_getSlot (hs : s.Of array) (ht : (t, array ls) ∈ M) (hi : ls[i]? = some l) :
    triple (s.get t i) M fun r M' => r = l ∧ M' = M :=
  bind_load ht (bind_demand (hs.slots ls) (triple_demand hi ⟨rfl, rfl⟩))

theorem bind_getSlot (hs : s.Of array) (ht : (t, array ls) ∈ M) (hi : ls[i]? = some l)
    {f : Option ℕ → HeapProg β γ} (h : triple (f l) M T) : triple (s.get t i >>= f) M T := by
  refine triple_bind (triple_getSlot hs ht hi) fun r M' hr => ?_
  obtain ⟨rfl, rfl⟩ := hr
  exact h

theorem triple_setSlot (hs : s.Of array) (hi : i < ls.length) (hM : M = cell t (array ls) + N) :
    triple (s.set t i l) M fun _ M' => M' = cell t (array (ls.set i l)) + N := by
  rw [hM]
  refine bind_load (by simp) (bind_demand (hs.slots ls) ?_)
  rw [if_pos hi]
  exact bind_demand (hs.reslot ls _) (triple_save rfl rfl)

end Steps

/-! ## Loops -/

section Loops
variable {k : Link β} {s : Slots β} {L : Layout k ν} {array : List (Option ℕ) → β} {M N W : Multiset (ℕ × β)}
  {ts : List (List ν)} {ns xs ys : List ν} {n : ν} {t t' i : ℕ} {named : ν → Bool}

theorem getElem?_heads (hi : i < ts.length) : (ts.map L.head)[i]? = some (L.head (chain ts i)) := by
  rw [List.getElem?_map, List.getElem?_eq_getElem hi, chain_eq hi]
  rfl

theorem set_heads (hi : i < ts.length) : (ts.map L.head).set i (L.head (chain ts i)) = ts.map L.head := by
  rw [← List.map_set, chain_eq hi, List.set_getElem_self]

/-- A walk along a chain stops at the first node that passes the test. -/
theorem triple_search (L : Layout k ν) (named : ν → Bool) (hs : s.Of array) {test : β → HeapProg β Bool}
    {ls : List (Option ℕ)} (ht : (t, array ls) ∈ W)
    (hi : ls[i]? = some (L.head ns)) (hseg : L.seg ns none ≤ W)
    (htest : ∀ n ∈ ns, ∀ l, triple (test (L.block n l)) W fun r M' => r = named n ∧ M' = W) :
    triple (search k s t i test) W fun r M' => M' = W ∧ ((r = none ∧ ∀ n ∈ ns, named n = false) ∨
      ∃ xs n ys, ns = xs ++ n :: ys ∧ (∀ x ∈ xs, named x = false) ∧ named n = true ∧
        r = some (L.cursor i xs, L.addr n)) := by
  refine bind_getSlot hs ht hi ?_
  -- the nodes before those that are left did not pass, and the cursor is behind them
  let I : List ν → Cursor → Multiset (ℕ × β) → Prop := fun rest curr M => M = W ∧
    ∃ xs, ns = xs ++ rest ∧ (∀ x ∈ xs, named x = false) ∧ curr = L.cursor i xs
  refine triple_bind (Q := fun r M' => M' = W ∧ ((r.getLeft? = none ∧ ∀ n ∈ ns, named n = false) ∨
    ∃ xs n ys, ns = xs ++ n :: ys ∧ (∀ x ∈ xs, named x = false) ∧ named n = true ∧
      r.getLeft? = some (L.cursor i xs, L.addr n))) (triple_chase I ⟨rfl, [], rfl, by simp, rfl⟩ ?_ ?_ ?_) ?_
  · exact (L.addr_le_seg ns none).trans (Multiset.map_le_map hseg)
  · rintro n rest curr M ⟨rfl, xs, rfl, hxs, rfl⟩
    have hn : (L.addr n, L.block n (L.head rest)) ∈ M := by
      refine Multiset.mem_of_le hseg ?_
      rw [Layout.seg_append, Layout.seg_cons, Layout.node]
      simp [Layout.head]
    refine bind_load hn (triple_bind (htest n (by simp) _) fun r M' hr => ?_)
    obtain ⟨rfl, rfl⟩ := hr
    cases hnamed : named n with
    | true => exact triple_pure (Or.inl ⟨_, rfl, rfl, Or.inr ⟨xs, n, rest, rfl, hxs, hnamed, rfl⟩⟩)
    | false =>
      refine bind_demand (L.next_block n _)
        (triple_pure (Or.inr ⟨.link (L.addr n), rfl, rfl, xs ++ [n], by simp, ?_, ?_⟩))
      · exact List.forall_mem_append.mpr ⟨hxs, List.forall_mem_singleton.mpr hnamed⟩
      · simp [Layout.cursor]
  · rintro curr M ⟨rfl, xs, rfl, hxs, -⟩
    rw [List.append_nil]
    exact ⟨rfl, Or.inl ⟨rfl, hxs⟩⟩
  · exact fun r M' hr => triple_pure hr

theorem triple_unlink (hs : s.Of array) (hi : i < ts.length) (hsplit : chain ts i = xs ++ n :: ys)
    (hxs : ∀ x ∈ xs, named x = false) (hn : named n = true) :
    triple (setAt k s t (L.cursor i xs) (L.head ys)) (L.table array t ts) fun _ M' =>
      M' = L.table array t (unlink ts i named) + L.node n (L.head ys) := by
  obtain ⟨R, htable, hset⟩ := L.exists_table_rest array t hi
  rw [unlink, modify_chain hi, hsplit, eraseP_split hxs hn, hset, htable, hsplit]
  have hlen : i < (ts.map L.head).length := by simpa using hi
  cases xs using List.reverseRecOn with
  | nil =>
    refine triple_end (triple_setSlot hs hlen rfl) ?_
    rw [List.nil_append, Layout.seg_cons]
    simp only [List.nil_append, Layout.head]
    ac_rfl
  | append_singleton xs x =>
    have hcursor : L.cursor i (xs ++ [x]) = .link (L.addr x) := by simp [Layout.cursor]
    have hhead : L.head (xs ++ [x] ++ ys) = L.head (xs ++ [x] ++ n :: ys) := by
      rw [List.append_assoc, List.append_assoc]
      cases xs <;> rfl
    have hsame : (ts.map L.head).set i (L.head (xs ++ [x] ++ ys)) = ts.map L.head := by
      rw [hhead, ← hsplit, set_heads hi]
    have hbefore : cell t (array (ts.map L.head)) + (L.seg (xs ++ [x] ++ n :: ys) none + R) =
        L.node x (some (L.addr n)) + (cell t (array (ts.map L.head)) + (L.seg xs (some (L.addr x)) +
          (L.node n (L.head ys) + L.seg ys none) + R)) := by
      rw [Layout.seg_append, Layout.seg_append, Layout.seg_singleton, Layout.seg_cons]
      simp only [firstLink, Layout.head]
      ac_rfl
    rw [hcursor, hsame]
    refine triple_end (triple_setLink hbefore) ?_
    rw [Layout.seg_append, Layout.seg_append, Layout.seg_singleton]
    simp only [firstLink, Layout.head]
    ac_rfl

theorem Layout.exists_node_rest (L : Layout k ν) (array : List (Option ℕ) → β) (t : ℕ) (hi : i < ts.length)
    (hsplit : chain ts i = xs ++ n :: ys) (hxs : ∀ x ∈ xs, named x = false) (hn : named n = true) :
    ∃ R, L.table array t ts = L.node n (L.head ys) + R ∧ ∀ f, L.addr (f n) = L.addr n →
      L.table array t (amend ts i named f) = L.node (f n) (L.head ys) + R := by
  obtain ⟨R, htable, hset⟩ := L.exists_table_rest array t hi
  refine ⟨cell t (array (ts.map L.head)) + (L.seg xs (some (L.addr n)) + L.seg ys none + R), ?_,
    fun f hf => ?_⟩
  · rw [htable, hsplit, Layout.seg_append, Layout.seg_cons]
    simp only [firstLink, Layout.head]
    ac_rfl
  · have hhead : L.head (xs ++ f n :: ys) = L.head (xs ++ n :: ys) := by
      cases xs <;> simp [hf]
    have hsame : (ts.map L.head).set i (L.head (xs ++ f n :: ys)) = ts.map L.head := by
      rw [hhead, ← hsplit, set_heads hi]
    rw [amend, modify_chain hi, hsplit, updateFirst_split hxs hn, hset, hsame, Layout.seg_append,
      Layout.seg_cons]
    simp only [firstLink, Layout.head, hf]
    ac_rfl

theorem Layout.exists_link_rest (L : Layout k ν) (array : List (Option ℕ) → β) (t : ℕ)
    (hi : i < ts.length) (p : ℕ) :
    ∃ l R, ∀ n, L.addr n = p → L.table array t (link ts i n) = L.node n l + R := by
  obtain ⟨R, -, hset⟩ := L.exists_table_rest array t hi
  refine ⟨L.head (chain ts i), cell t (array ((ts.map L.head).set i (some p))) +
    (L.seg (chain ts i) none + R), fun n hn => ?_⟩
  rw [link, modify_chain hi, hset, Layout.seg_cons, head_cons, hn]
  simp only [Layout.head]
  ac_rfl

theorem triple_pushSlot (L : Layout k ν) (n : ν) (hs : s.Of array) (hi : i < ts.length) {l : Option ℕ}
    (hM : M = L.node n l + (L.table array t ts + N)) :
    triple (pushSlot k s t i (L.addr n)) M fun _ M' => M' = L.table array t (link ts i n) + N := by
  obtain ⟨R, htable, hset⟩ := L.exists_table_rest array t hi
  have hlen : i < (ts.map L.head).length := by simpa using hi
  rw [htable] at hM
  rw [link, modify_chain hi, hset]
  refine bind_getSlot hs (by simp [hM] : (t, array (ts.map L.head)) ∈ M) (getElem?_heads hi)
    (triple_then (triple_setLink hM) ?_)
  refine triple_end (triple_setSlot hs hlen
    (N := L.node n (L.head (chain ts i)) + L.seg (chain ts i) none + R + N) (by ac_rfl)) ?_
  rw [Layout.seg_cons]
  simp only [Layout.head]
  ac_rfl

theorem triple_setTail (L : Layout k ν) (xs : List ν) (x : ν) {l l' : Option ℕ}
    (hM : M = L.seg (xs ++ [x]) l + N) :
    triple (k.set (L.addr x) l') M fun _ M' => M' = L.seg (xs ++ [x]) l' + N := by
  rw [Layout.seg_append, Layout.seg_singleton] at hM ⊢
  simp only [firstLink] at hM ⊢
  refine triple_end (triple_setLink (N := L.seg xs (some (L.addr x)) + N) (by rw [hM]; ac_rfl)) ?_
  ac_rfl

/-- The nodes of a chain are put in front of the chains of a table, one after the other. -/
theorem triple_moveChain (hs : s.Of array) {ix : ν → ℕ} {slotOf : β → Option ℕ}
    (hslot : ∀ n ∈ ns, ∀ l, slotOf (L.block n l) = some (ix n)) (hix : ∀ n ∈ ns, ix n < ts.length) :
    triple (moveChain k s t slotOf (L.head ns)) (L.seg ns none + (L.table array t ts + M)) fun _ M' =>
      M' = L.table array t (linkAll ix ts ns) + M := by
  let I : List ν → Unit → Multiset (ℕ × β) → Prop := fun rest _ N =>
    ∃ ts', N = L.seg rest none + (L.table array t ts' + M) ∧
    ts'.length = ts.length ∧ linkAll ix ts' rest = linkAll ix ts ns ∧ ∀ n ∈ rest, n ∈ ns
  refine triple_bind (Q := fun _ M' => M' = L.table array t (linkAll ix ts ns) + M)
    (triple_chase I ⟨ts, rfl, rfl, rfl, fun _ h => h⟩ ?_ ?_ ?_) fun _ M' hM => triple_pure hM
  · rw [Multiset.map_add]
    exact (L.addr_le_seg ns none).trans (Multiset.le_add_right _ _)
  · rintro n rest - N ⟨ts', rfl, hlen, hall, hmem⟩
    obtain ⟨hn, hrest⟩ := List.forall_mem_cons.mp hmem
    rw [Layout.seg_cons]
    refine bind_load (b := L.block n (L.head rest)) (by simp [Layout.node, Layout.head])
      (bind_demand (L.next_block n _) (bind_demand (hslot n hn _) ?_))
    refine triple_then (triple_pushSlot L n hs (by rw [hlen]; exact hix n hn) (N := L.seg rest none + M)
      (by ac_rfl)) ?_
    refine triple_pure (Or.inr ⟨(), rfl, link ts' (ix n) n, by ac_rfl, ?_, hall, hrest⟩)
    rw [length_link, hlen]
  · rintro - N ⟨ts', rfl, -, hall, -⟩
    rw [Layout.seg_nil, zero_add, ← hall]
    rfl

/-- All chains of a table are moved to another one. The array of links that is left names their old heads. -/
theorem triple_moveTable (L : Layout k ν) (ix : ν → ℕ) (hs : s.Of array) {slotOf : β → Option ℕ}
    {nb : List (List ν)}
    (hslot : ∀ n ∈ ts.flatten, ∀ l, slotOf (L.block n l) = some (ix n))
      (hix : ∀ n ∈ ts.flatten, ix n < nb.length) :
    triple (moveTable k s t ts.length t' slotOf) (L.table array t ts + L.table array t' nb) fun _ M' =>
      M' = cell t (array (ts.map L.head)) + L.table array t' (linkAll ix nb ts.flatten) := by
  let I : ℕ → Multiset (ℕ × β) → Prop := fun j N => N = cell t (array (ts.map L.head)) +
    (((ts.drop j).map fun ns => L.seg ns none).sum + L.table array t' (linkAll ix nb (ts.take j).flatten))
  refine triple_mono (triple_forRange I (by simp [I, Layout.table, linkAll, add_assoc]) fun i N hi hN => ?_)
    fun _ M' hM => ?_
  · have hsub : ∀ n ∈ chain ts i, n ∈ ts.flatten := fun n hn => mem_flatten_iff.mpr ⟨i, hn⟩
    have hlen : (linkAll ix nb (ts.take i).flatten).length = nb.length := length_linkAll ..
    have hN' : N = L.seg (chain ts i) none + (L.table array t' (linkAll ix nb (ts.take i).flatten) +
        (cell t (array (ts.map L.head)) + ((ts.drop (i + 1)).map fun ns => L.seg ns none).sum)) := by
      rw [hN, List.drop_eq_getElem_cons hi, List.map_cons, List.sum_cons, chain_eq hi]
      ac_rfl
    refine bind_getSlot hs (by simp [hN'] : (t, array (ts.map L.head)) ∈ N) (getElem?_heads hi) ?_
    rw [hN']
    refine triple_mono (triple_moveChain hs (fun n hn => hslot n (hsub n hn)) fun n hn => ?_)
      fun _ M' hM => ?_
    · rw [hlen]
      exact hix n (hsub n hn)
    · have hnext : linkAll ix nb (ts.take (i + 1)).flatten =
          linkAll ix (linkAll ix nb (ts.take i).flatten) (chain ts i) := by
        rw [List.take_succ_eq_append_getElem hi, List.flatten_append, List.flatten_singleton,
          chain_eq hi, linkAll, List.foldl_append]
        rfl
      show M' = _
      rw [hM, hnext]
      ac_rfl
  · rw [hM, List.drop_length, List.take_length]
    simp

theorem triple_freeChain (L : Layout k ν) (ns : List ν) {drop : β → HeapProg β Unit}
    (hdrop : ∀ n ∈ ns, ∀ l, triple (drop (L.block n l)) (L.own n) fun _ M' => M' = 0) :
    triple (freeChain k drop (L.head ns)) (L.seg ns none) fun _ M' => M' = 0 := by
  let I : List ν → Unit → Multiset (ℕ × β) → Prop := fun rest _ N => N = L.seg rest none ∧ ∀ n ∈ rest, n ∈ ns
  refine triple_bind (Q := fun _ M' => M' = 0)
    (triple_chase I ⟨rfl, fun _ h => h⟩ (L.addr_le_seg ns none) ?_ fun _ _ h => h.1) fun _ M' hM =>
      triple_pure hM
  rintro n rest - N ⟨rfl, hmem⟩
  obtain ⟨hn, hrest⟩ := List.forall_mem_cons.mp hmem
  rw [Layout.seg_cons]
  refine bind_load (b := L.block n (L.head rest)) (by simp [Layout.node, Layout.head])
    (bind_demand (L.next_block n _) ?_)
  refine bind_call (F := cell (L.addr n) (L.block n (L.head rest)) + L.seg rest none) ?_ (hdrop n hn _)
    fun _ M' hM => ?_
  · rw [Layout.node, Layout.head]
    ac_rfl
  · rw [hM, zero_add]
    exact bind_release rfl (triple_pure (Or.inr ⟨(), rfl, rfl, hrest⟩))

theorem triple_freeTable (L : Layout k ν) (hs : s.Of array) {drop : β → HeapProg β Unit}
    (hdrop : ∀ n ∈ ts.flatten, ∀ l, triple (drop (L.block n l)) (L.own n) fun _ M' => M' = 0) :
    triple (freeTable k s t ts.length drop) (L.table array t ts) fun _ M' =>
      M' = cell t (array (ts.map L.head)) := by
  let I : ℕ → Multiset (ℕ × β) → Prop := fun j N => N = cell t (array (ts.map L.head)) +
    ((ts.drop j).map fun ns => L.seg ns none).sum
  refine triple_mono (triple_forRange I rfl fun i N hi hN => ?_) fun _ M' hM => ?_
  · have hsub : ∀ n ∈ chain ts i, n ∈ ts.flatten := fun n hn => mem_flatten_iff.mpr ⟨i, hn⟩
    have hN' : N = L.seg (chain ts i) none +
        (cell t (array (ts.map L.head)) + ((ts.drop (i + 1)).map fun ns => L.seg ns none).sum) := by
      rw [hN, List.drop_eq_getElem_cons hi, List.map_cons, List.sum_cons, chain_eq hi]
      ac_rfl
    refine bind_getSlot hs (by simp [hN'] : (t, array (ts.map L.head)) ∈ N) (getElem?_heads hi) ?_
    refine triple_call hN' (triple_freeChain L (chain ts i) fun n hn => hdrop n (hsub n hn)) fun _ M' hM => ?_
    show _ = _
    rw [hM, zero_add]
  · rw [hM, List.drop_length]
    simp

theorem triple_readChain (L : Layout k ν) (view : ν → α) {read : β → HeapProg β α} (hseg : L.seg ns none ≤ W)
    (hread : ∀ n ∈ ns, ∀ l, triple (read (L.block n l)) W fun a M' => a = view n ∧ M' = W) :
    triple (readChain k read (L.head ns)) W fun r M' => r = ns.map view ∧ M' = W := by
  let I : List ν → List α → Multiset (ℕ × β) → Prop := fun rest seen M => M = W ∧
    ∃ xs, ns = xs ++ rest ∧ seen = xs.map view
  refine triple_bind (Q := fun r M' => r = .inr (ns.map view) ∧ M' = W)
    (triple_chase I ⟨rfl, [], rfl, rfl⟩ ?_ ?_ ?_) ?_
  · exact (L.addr_le_seg ns none).trans (Multiset.map_le_map hseg)
  · rintro n rest seen M ⟨rfl, xs, rfl, rfl⟩
    have hn : (L.addr n, L.block n (L.head rest)) ∈ M := by
      refine Multiset.mem_of_le hseg ?_
      rw [Layout.seg_append, Layout.seg_cons, Layout.node]
      simp [Layout.head]
    refine bind_load hn (triple_bind (hread n (by simp) _) fun a M' ha => ?_)
    obtain ⟨rfl, rfl⟩ := ha
    exact bind_demand (L.next_block n _) (triple_pure (Or.inr ⟨_, rfl, rfl, xs ++ [n], by simp, by simp⟩))
  · rintro seen M ⟨rfl, xs, rfl, rfl⟩
    simp
  · rintro r M' ⟨rfl, rfl⟩
    exact triple_pure ⟨rfl, rfl⟩

theorem triple_readChains (L : Layout k ν) (view : ν → α) {read : β → HeapProg β α}
    (hsegs : ∀ ns ∈ ts, L.seg ns none ≤ W)
    (hread : ∀ n ∈ ts.flatten, ∀ l, triple (read (L.block n l)) W fun a M' => a = view n ∧ M' = W) :
    triple (readChains k read (ts.map L.head)) W fun r M' => r = ts.map (List.map view) ∧ M' = W := by
  induction ts with
  | nil => exact triple_pure ⟨rfl, rfl⟩
  | cons ns ts ih =>
    obtain ⟨hseg, hsegs⟩ := List.forall_mem_cons.mp hsegs
    rw [List.flatten_cons, List.forall_mem_append] at hread
    refine triple_bind (triple_readChain L view hseg hread.1) fun as M' has => ?_
    obtain ⟨rfl, rfl⟩ := has
    refine triple_bind (ih hsegs hread.2) fun rest M'' hrest => ?_
    obtain ⟨rfl, rfl⟩ := hrest
    exact triple_pure ⟨rfl, rfl⟩

theorem Layout.seg_le_table (L : Layout k ν) (array : List (Option ℕ) → β) (t : ℕ) (hns : ns ∈ ts) :
    L.seg ns none ≤ L.table array t ts := by
  obtain ⟨as, bs, rfl⟩ := List.append_of_mem hns
  apply le_trans _ (Multiset.le_add_left _ _)
  rw [List.map_append, List.sum_append, List.map_cons, List.sum_cons]
  exact (Multiset.le_add_right _ _).trans (Multiset.le_add_left _ _)

end Loops

/-! ## What the nodes stand for -/

section Views
variable {ε : Type} {ts : List (List ν)} {i : ℕ} {n : ν} (view : ν → ε)

theorem chain_map (ts : List (List ν)) (i : ℕ) :
    chain (ts.map (List.map view)) i = (chain ts i).map view := by
  simp [chain, List.getD_eq_getElem?_getD, List.getElem?_map]
  cases ts[i]? <;> rfl

theorem link_map (ts : List (List ν)) (i : ℕ) (n : ν) :
    (link ts i n).map (List.map view) = link (ts.map (List.map view)) i (view n) := by
  apply List.ext_getElem?
  intro j
  simp only [link, List.getElem?_map, List.getElem?_modify]
  cases ts[j]? with
  | none => rfl
  | some ns => by_cases hj : i = j <;> simp [hj]

theorem unlink_map (ts : List (List ν)) (i : ℕ) (p : ε → Bool) :
    (unlink ts i (p ∘ view)).map (List.map view) = unlink (ts.map (List.map view)) i p := by
  apply List.ext_getElem?
  intro j
  simp only [unlink, List.getElem?_map, List.getElem?_modify]
  cases ts[j]? with
  | none => rfl
  | some ns => by_cases hj : i = j <;> simp [hj, List.eraseP_map]

theorem amend_map {p : ε → Bool} (hfind : (chain ts i).find? (p ∘ view) = some n) {f : ν → ν} {g : ε → ε}
    (hg : view (f n) = g (view n)) :
    (amend ts i (p ∘ view) f).map (List.map view) = amend (ts.map (List.map view)) i p g := by
  have hi : i < ts.length := by
    by_contra hle
    rw [chain_of_le (Nat.le_of_not_lt hle)] at hfind
    cases hfind
  have hi' : i < (ts.map (List.map view)).length := by simpa using hi
  obtain ⟨hn, xs, ys, hsplit, hxs⟩ := List.find?_eq_some_iff_append.mp hfind
  have hxs' : ∀ x ∈ xs, (p ∘ view) x = false := fun x hx => by simpa using hxs x hx
  have hxs'' : ∀ y ∈ xs.map view, p y = false := by
    intro y hy
    obtain ⟨x, hx, rfl⟩ := List.mem_map.mp hy
    exact hxs' x hx
  rw [amend, amend, modify_chain hi, modify_chain hi', chain_map, hsplit, updateFirst_split hxs' hn,
    List.map_set,
    List.map_append, List.map_append, List.map_cons, List.map_cons, updateFirst_split hxs'' hn, hg]

theorem linkAll_map (ix : ε → ℕ) : ∀ (ns : List ν) (ts : List (List ν)),
    (linkAll (ix ∘ view) ts ns).map (List.map view) = linkAll ix (ts.map (List.map view)) (ns.map view) := by
  intro ns
  induction ns with
  | nil => exact fun _ => rfl
  | cons n ns ih =>
    intro ts
    have hstep := ih (link ts (ix (view n)) n)
    rw [link_map] at hstep
    exact hstep

theorem rehash_map (ix : ε → ℕ) (size : ℕ) (ts : List (List ν)) :
    (rehash (ix ∘ view) size ts).map (List.map view) = rehash ix size (ts.map (List.map view)) := by
  rw [rehash, linkAll_map, List.map_flatten, List.map_replicate]
  rfl

end Views
end PulseDB.Lib
