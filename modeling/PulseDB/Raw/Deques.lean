import PulseDB.Raw.Store
import PulseDB.Store.Deques

/-!
# The lists in memory as queues

* `prevLink`, `backNodes`, `seg_backNodes` : the nodes of a list, in the order of the links to the node
  before;
* `listLinks` : the record of a list, and what its links give in both directions; `triple_listLinks` : the
  elements, and their reverse;
* `onHeap`, `runLists` : calls of `store_list_push` and `store_list_pop` in memory; `triple_runLists` : they
  answer as the calls on the store;
* `lists_refine_deques` : the links of every list are those of a double-ended queue.
-/

namespace PulseDB.Raw
open Lib Lib.Prog

variable {D : Type}

/-! ## The links in both directions -/

def prevLink : Link (Object D) where
  next b := b.asListNode.map (·.prev)
  relink b l := b.asListNode.map fun r => .listNode { r with prev := l }

/-- A node with its link to the next one. -/
def backNodes : Layout (prevLink (D := D)) (NodeAt × Option ℕ) where
  addr n := n.1.addr
  block n l := .listNode ⟨n.1.ptr, l, n.2⟩
  own n := cell n.1.ptr (.text n.1.text)
  next_block _ _ := rfl
  relink_block _ _ _ := rfl

def withNext : List NodeAt → List (NodeAt × Option ℕ)
  | [] => []
  | n :: ns => (n, firstLink NodeAt.addr ns none) :: withNext ns

theorem map_fst_withNext (ns : List NodeAt) : (withNext ns).map Prod.fst = ns := by
  induction ns with
  | nil => rfl
  | cons n ns ih => rw [withNext, List.map_cons, ih]

/-- The same objects are a chain in the other direction. -/
theorem seg_backNodes {ns : List NodeAt} : ∀ {q : Option ℕ}, Prevs q ns →
    (backNodes.seg (withNext ns).reverse q : Multiset (ℕ × Object D)) = listNodes.seg ns none := by
  induction ns with
  | nil => exact fun _ => rfl
  | cons n ns ih =>
    intro q h
    obtain ⟨rfl, hns⟩ := h
    rw [withNext, List.reverse_cons, Layout.seg_append, Layout.seg_singleton, firstLink_cons,
      listNodes_seg_cons, add_comm]
    exact congrArg _ (ih hns)

theorem head_backNodes (ns : List NodeAt) :
    (backNodes (D := D)).head (withNext ns).reverse = (ns.map NodeAt.addr).getLast? := by
  have hfirst : ∀ xs : List (NodeAt × Option ℕ), (backNodes (D := D)).head xs =
      ((xs.map Prod.fst).map NodeAt.addr).head? := by
    intro xs
    cases xs with
    | nil => rfl
    | cons x xs => rfl
  rw [hfirst, List.map_reverse, List.map_reverse, List.head?_reverse, map_fst_withNext]

theorem ListAt.record_head_eq_none (L : ListAt) : L.record.head = none ↔ L.nodes = [] := by
  rw [ListAt.record]
  cases L.nodes with
  | nil => simp
  | cons n ns => simp

theorem ListAt.record_tail_eq_none (L : ListAt) : L.record.tail = none ↔ L.nodes = [] := by
  rw [ListAt.record, List.getLast?_eq_none_iff, List.map_eq_nil_iff]

/-- The record of the list under a key, an empty one if there is no list. -/
def listRecord (s : ℕ) (key : Bytes) (now : Int) : HeapProg (Object D) ListRec := do
  match ← storeGetValue s key .list now with
  | .error _ => return {}
  | .ok list => getAs Object.asList list

/-- Follow `next` from the head of a list and `prev` from its tail. -/
def listLinks (s : ℕ) (key : Bytes) (now : Int) :
    HeapProg (Object D) (ListRec × List Bytes × List Bytes) := do
  let r ← listRecord s key now
  let nexts ← readChain listLink nodeText r.head
  let prevs ← readChain prevLink nodeText r.tail
  return (r, nexts, prevs)

section Links
variable {S : StoreAt D} {s : ℕ} {key : Bytes}

theorem triple_listRecord (hS : S.WF) (now : Int) :
    triple (listRecord s key now) (S.cells s) fun r M' => ∃ L : ListAt, L.WF ∧ r = L.record ∧
      listNodes.seg L.nodes none ≤ M' ∧
      match (PulseDB.lookupTyped S.view key Value.asList now).1 with
      | .ok l => l = L.view
      | .error _ => L = {} := by
  refine triple_bind (triple_storeGetValue listKind hS now) fun r M' hr => ?_
  obtain ⟨S', hS', rfl, ⟨st, rfl, hlook⟩ | ⟨xs, e, ys, p, L, hfound, hv, hwf, rfl, hlook⟩⟩ := hr
  · refine triple_pure ⟨{}, trivial, rfl, Multiset.zero_le _, ?_⟩
    rw [show PulseDB.lookupTyped S.view key Value.asList now = _ from hlook]
  · have hle : L.cells p ≤ S'.cells s := hfound.cells_le hv
    refine triple_mono (triple_getAs (a := L.record) (Multiset.mem_of_le hle L.mem_cells) rfl)
      fun r M' hr => ?_
    obtain ⟨rfl, rfl⟩ := hr
    refine ⟨L, hwf, rfl, (Multiset.le_add_left _ _).trans hle, ?_⟩
    rw [show PulseDB.lookupTyped S.view key Value.asList now = _ from hlook]
    rfl

theorem triple_listLinks [LinearOrder D] (hS : S.WF) (hvalid : S.view.Valid) (now : Int) :
    triple (listLinks s key now) (S.cells s) fun x _ =>
      x.2 = (S.view.listAt key, (S.view.listAt key).reverse) ∧
      x.1.len = (S.view.listAt key).length ∧ (x.1.head = none ↔ S.view.listAt key = []) ∧
      (x.1.tail = none ↔ S.view.listAt key = []) := by
  refine triple_bind (triple_listRecord hS now) fun r M' hr => ?_
  obtain ⟨L, hL, rfl, hseg, hlook⟩ := hr
  have hlist : L.view.nodes = S.view.listAt key ∧ L.len = (S.view.listAt key).length := by
    have hat := lookupTyped_list hvalid key now
    generalize (PulseDB.lookupTyped S.view key Value.asList now).1 = x at hlook hat
    cases x with
    | ok l =>
      obtain rfl : l = L.view := hlook
      exact ⟨hat.1, hat.2.trans (congrArg List.length hat.1)⟩
    | error st =>
      obtain rfl : L = {} := hlook
      rw [show S.view.listAt key = [] from hat]
      exact ⟨rfl, rfl⟩
  have hback : backNodes.seg (withNext L.nodes).reverse none ≤ M' := (seg_backNodes hL).trans_le hseg
  refine triple_bind (triple_readChain listNodes NodeAt.text hseg
    fun n hn l => triple_nodeText hn hseg n.prev l) fun nexts M' hr => ?_
  obtain ⟨rfl, rfl⟩ := hr
  rw [show L.record.tail = _ from (head_backNodes L.nodes).symm]
  refine triple_bind (triple_readChain backNodes (NodeAt.text ∘ Prod.fst) hback fun n hn l => ?_)
    fun prevs M' hr => ?_
  · have hmem : n.1 ∈ L.nodes := by
      rw [← map_fst_withNext L.nodes]
      exact List.mem_map_of_mem (List.mem_reverse.mp hn)
    exact triple_nodeText hmem hseg l n.2
  · obtain ⟨rfl, rfl⟩ := hr
    refine triple_pure ⟨?_, hlist.2, ?_, ?_⟩
    · rw [← hlist.1, List.map_reverse, ← List.map_map, map_fst_withNext]
      rfl
    · rw [← hlist.1, ListAt.view, List.map_eq_nil_iff]
      exact L.record_head_eq_none
    · rw [← hlist.1, ListAt.view, List.map_eq_nil_iff]
      exact L.record_tail_eq_none

end Links

/-! ## Runs -/

def onHeap (s : ℕ) : ListOp → HeapProg (Object D) ListAnswer
  | .push key value atHead now => do
    let r ← storeListPush s key value atHead now
    return .pushed r
  | .pop key atHead now now' => do
    let r ← storeListPop s key atHead now now' >>= follow takeText
    return .popped r

/-- Some calls, one after the other, with their answers. -/
def runLists (s : ℕ) : List ListOp → HeapProg (Object D) (List ListAnswer)
  | [] => pure []
  | op :: ops => do
    let a ← onHeap s op
    let answers ← runLists s ops
    return a :: answers

/-- The key holds a value of another type. -/
def HoldsOther (s : ℕ) (h : Heap (Object D)) (key : Bytes) (now : Int) : Prop :=
  ∃ t h', storeType s key now () h = .ok (some t, h') ∧ t ≠ .list

/-- The list under a key is linked in both directions in the order of `q`, its record is right, and the key
holds a list exactly if there are elements: unless another value is there, it exists exactly then. -/
structure Links (s : ℕ) (h : Heap (Object D)) (key : Bytes) (now : Int) (q : List Bytes) : Prop where
  chains : ∃ r h', listLinks s key now () h = .ok ((r, q, q.reverse), h') ∧ r.len = q.length ∧
    (r.head = none ↔ q = []) ∧ (r.tail = none ↔ q = [])
  present : ∃ t h₁ h₂, storeType s key now () h = .ok (t, h₁) ∧
    storeExists s key now () h = .ok (t.isSome, h₂) ∧ (t = some .list ↔ q ≠ [])

section Runs
variable {S : StoreAt D} {s : ℕ}

theorem triple_onHeap (hS : S.WF) (op : ListOp) :
    triple (onHeap s op) (S.cells s) (Outcome s (op.onStore S.view)) := by
  cases op with
  | push key value atHead now =>
    refine triple_bind (triple_storeListPush hS value atHead now) fun r M' hr => ?_
    obtain ⟨S', hS', rfl, hx⟩ := hr
    exact triple_pure ⟨S', hS', rfl, by rw [ListOp.onStore, hx]; rfl⟩
  | pop key atHead now now' =>
    refine triple_bind (triple_storeListPop hS atHead now now') fun r M' hr => ?_
    obtain ⟨S', hS', rfl, hx⟩ := hr
    exact triple_pure ⟨S', hS', rfl, by rw [ListOp.onStore, hx]; rfl⟩

theorem triple_runLists (ops : List ListOp) : ∀ {S : StoreAt D}, S.WF →
    triple (runLists s ops) (S.cells s) fun answers M' => ∃ S' : StoreAt D, S'.WF ∧ M' = S'.cells s ∧
      answers.length = ops.length ∧ Run SequenceStep S.view (ops.zip answers) S'.view := by
  induction ops with
  | nil => exact fun {S} hS => triple_pure ⟨S, hS, rfl, rfl, .nil _⟩
  | cons op ops ih =>
    intro S hS
    refine triple_bind (triple_onHeap hS op) fun a M' ha => ?_
    obtain ⟨S₁, hS₁, rfl, hop⟩ := ha
    refine triple_bind (ih hS₁) fun answers M' hanswers => triple_pure ?_
    obtain ⟨S', hS', hcells, hlen, hrun⟩ := hanswers
    exact ⟨S', hS', hcells, congrArg (· + 1) hlen, Run.cons hop hrun⟩

/-- The answer of a call, from every memory with the objects of the store. -/
theorem Outcome.answer {α : Type} {m : HeapProg (Object D) α} {x : α × Store D} {h : Heap (Object D)}
    (hm : triple m (S.cells s) (Outcome s x)) (hh : h.Holds (S.cells s)) : ∃ h', m () h = .ok (x.1, h') := by
  obtain ⟨r, h', -, hrun, ⟨S', -, -, hx⟩, -⟩ := hm.run hh
  exact ⟨h', by rw [hx]; exact hrun⟩

variable [LinearOrder D] {h : Heap (Object D)} (hS : S.WF) (hvalid : S.view.Valid) (hh : h.Holds (S.cells s))
include hS hvalid hh

theorem links (key : Bytes) (now : Int) : Links s h key now (S.view.listAt key) := by
  obtain ⟨⟨r, q, q'⟩, h', -, hlinks, ⟨hq, hrecord⟩, -⟩ := (triple_listLinks hS hvalid now).run hh
  obtain ⟨rfl, rfl⟩ := Prod.mk.inj hq
  obtain ⟨h₁, htype⟩ := Outcome.answer (triple_storeType hS now) hh
  obtain ⟨h₂, hexists⟩ := Outcome.answer (triple_storeExists hS now) hh
  obtain ⟨hlist, hsome⟩ := storeType_list hvalid key now
  exact ⟨⟨r, h', hlinks, hrecord⟩, _, h₁, h₂, htype, hsome ▸ hexists, hlist⟩

theorem onHeap_ok (op : ListOp) :
    ∃ a h', onHeap s op () h = .ok (a, h') ∧ (a.refused = true → HoldsOther s h op.key op.now) := by
  obtain ⟨h', hrun⟩ := Outcome.answer (triple_onHeap hS op) hh
  refine ⟨_, h', hrun, fun hrefused => ?_⟩
  obtain ⟨t, ht, hne⟩ := op.refused_type hvalid hrefused
  obtain ⟨h'', htype⟩ := Outcome.answer (triple_storeType hS op.now) hh
  exact ⟨t, h'', ht ▸ htype, hne⟩

end Runs

/-- Whatever list operations are called on a store in memory, none meets a fault; the same calls on the
sequences give the same answers, the sequences change as double-ended queues do, and the links of every list
are those of its sequence. A call is refused only if its key holds a value of another type. -/
theorem lists_refine_deques [LinearOrder D] {S : StoreAt D} (hS : S.WF) (hstore : S.view.Reachable)
    {h : Heap (Object D)} {s : ℕ} (hh : h.Holds (S.cells s)) (ops : List ListOp) :
    ∃ answers h' store', runLists s ops () h = .ok (answers, h') ∧ answers.length = ops.length ∧
      Run SequenceStep S.view (ops.zip answers) store' ∧
      Run QueueStep S.view.listAt (ops.zip answers) store'.listAt ∧
      (∀ key now, Links s h' key now (store'.listAt key)) ∧
      ∀ op, ∃ a h'', onHeap s op () h' = .ok (a, h'') ∧
        (a.refused = true → HoldsOther s h' op.key op.now) := by
  obtain ⟨answers, h', -, hrun, ⟨S', hS', rfl, hlen, hseq⟩, hh'⟩ := (triple_runLists ops hS).run hh
  have hvalid := hstore.valid
  have hvalid' : S'.view.Valid := hseq.invariant Store.Valid (fun _ _ _ hs hstep => hstep.valid hs) hvalid
  exact ⟨answers, h', S'.view, hrun, hlen, hseq, runSequence_queues hvalid hseq, links hS' hvalid' hh',
    onHeap_ok hS' hvalid' hh'⟩

/-- Three calls on a new store: the element pushed first is popped from the tail, and one element is left. -/
theorem lists_refine_deques_both_ends :
    let key := ascii "k"
    let ops := [ListOp.push key (ascii "b") false 0, .push key (ascii "a") true 0, .pop key false 0 0]
    let answers := [ListAnswer.pushed (.ok 1), .pushed (.ok 2), .popped (.ok (ascii "b"))]
    ∃ (s : ℕ) (h h' : Heap (Object ℕ)) (store' : Store ℕ), storeCreate () {} = .ok (s, h) ∧
      runLists s ops () h = .ok (answers, h') ∧ Run QueueStep (fun _ => []) (ops.zip answers) store'.listAt ∧
      Links s h' key 0 (store'.listAt key) := by
  intro key ops answers
  have heval : ((storeCreate (D := ℕ) >>= fun s => runLists s ops) () {}).toOption.map Prod.fst =
      some answers := by
    decide +kernel
  obtain ⟨s, h, -, hcreate, ⟨S, hS, rfl, hview⟩, hh⟩ := (triple_storeCreate (D := ℕ)).run Heap.holds_empty
  obtain ⟨answers', h', store', hrun, -, -, hqueue, hlinks, -⟩ :=
    lists_refine_deques hS (hview ▸ Store.Reachable.create) hh ops
  rw [bind_of_ok hcreate, hrun] at heval
  obtain rfl : answers' = answers := Option.some.inj heval
  have hempty : S.view.listAt = fun _ => [] := by
    funext key
    rw [hview, Store.listAt, storeCreate_cells]
    rfl
  exact ⟨s, h, h', store', hcreate, hrun, hempty ▸ hqueue, hlinks key 0⟩

end PulseDB.Raw
