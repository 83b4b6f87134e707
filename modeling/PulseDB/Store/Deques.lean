import PulseDB.Lib.Deque
import PulseDB.Store.Lists
import PulseDB.Store.Refinement

/-!
# The list operations as operations on queues

* `ListOp`, `ListAnswer` : a call of `store_list_push` or `store_list_pop`, and its answer;
* `SequenceStep`, `QueueStep` : a call on the store, and the same on a double-ended queue under every key;
* `runSequence_queues` : the lists of the store change as the queues do;
* `storeType_list`, `lookupTyped_list`, `ListOp.refused_type` : what a key with elements answers, and which
  key refuses.
-/

namespace PulseDB
open Lib

/-- A call on a list, with the end and the clock readings. -/
inductive ListOp where
  | push (key value : Bytes) (atHead : Bool) (now : Int)
  | pop (key : Bytes) (atHead : Bool) (now now' : Int)

inductive ListAnswer where
  | pushed (r : Except StoreStatus ℕ)
  | popped (r : Except StoreStatus Bytes)
  deriving DecidableEq

namespace ListOp
variable {D : Type}

def key : ListOp → Bytes
  | push key _ _ _ => key
  | pop key _ _ _ => key

/-- The time at which the key is looked up. -/
def now : ListOp → Int
  | push _ _ _ now => now
  | pop _ _ now _ => now

def onStore (store : Store D) : ListOp → ListAnswer × Store D
  | push key value atHead now => Prod.map .pushed id (storeListPush store key value atHead now)
  | pop key atHead now now' => Prod.map .popped id (storeListPop store key atHead now now')

/-- The call on double-ended queues. -/
def onQueues (queues : Bytes → List Bytes) : ListOp → ListAnswer × (Bytes → List Bytes)
  | push key value atHead _ =>
    (.pushed (.ok ((queues key).length + 1)),
      Function.update queues key (pushAll atHead [value] (queues key)))
  | pop key atHead _ _ =>
    match if atHead then (queues key).head? else (queues key).getLast? with
    | none => (.popped (.error .notFound), queues)
    | some value =>
      (.popped (.ok value),
        Function.update queues key (if atHead then (queues key).tail else (queues key).dropLast))

end ListOp

/-- The key holds a value of another type. -/
def ListAnswer.refused : ListAnswer → Bool
  | pushed (.error .wrongType) => true
  | popped (.error .wrongType) => true
  | _ => false

section Steps
variable {D : Type}

def SequenceStep (store : Store D) (ev : ListOp × ListAnswer) (store' : Store D) : Prop :=
  ev.1.onStore store = (ev.2, store')

/-- A double-ended queue under every key; a call on a value of another type changes none. -/
def QueueStep (queues : Bytes → List Bytes) (ev : ListOp × ListAnswer) (queues' : Bytes → List Bytes) :
    Prop :=
  if ev.2.refused then queues' = queues else ev.1.onQueues queues = (ev.2, queues')

variable [LinearOrder D]

/-! ## One cell -/

section Cells
variable {o : Option (Cell D)} (ho : ∀ c ∈ o, c.Inv)
include ho

theorem listPush_queue (value : Bytes) (atHead : Bool) (now' : Int) :
    let r := (StoreOp.listPush (D := D) value atHead).step now' o
    (r.1 = .error .wrongType ∧ Cell.nodes r.2 = Cell.nodes o ∧ ¬ OfType .list o) ∨
      r.1 = .ok ((Cell.nodes o).length + 1) ∧ Cell.nodes r.2 = pushAll atHead [value] (Cell.nodes o) := by
  rcases o with _ | ⟨v, x⟩
  · refine Or.inr ⟨rfl, ?_⟩
    cases atHead with
    | true => rfl
    | false => rfl
  · cases v with
    | list l =>
      have hlen : l.len = l.nodes.length := (ho _ rfl).value.1
      refine Or.inr ⟨?_, ?_⟩
      · show Except.ok (l.len + 1) = _
        rw [hlen]
        rfl
      · cases atHead with
        | true => rfl
        | false => rfl
    | _ => exact Or.inl ⟨rfl, rfl, fun h => StoreType.noConfusion (h _ rfl)⟩

theorem listPop_queue (atHead : Bool) (now' : Int) :
    let r := (StoreOp.listPop (D := D) atHead).step now' o
    (r.1 = .error .wrongType ∧ Cell.nodes r.2 = Cell.nodes o ∧ ¬ OfType .list o) ∨
      (r.1 = .error .notFound ∧ Cell.nodes o = [] ∧ Cell.nodes r.2 = []) ∨
      ∃ value, r.1 = .ok value ∧ (if atHead then (Cell.nodes o).head? else (Cell.nodes o).getLast?) =
        some value ∧
        Cell.nodes r.2 = if atHead then (Cell.nodes o).tail else (Cell.nodes o).dropLast := by
  rcases o with _ | ⟨v, x⟩
  · exact Or.inr (Or.inl ⟨rfl, rfl, rfl⟩)
  · cases v with
    | list l =>
      have hne : l.nodes ≠ [] := (ho _ rfl).value.2
      obtain ⟨value, l', hp⟩ : ∃ value l', l.pop atHead = some (value, l') := by
        unfold ListValue.pop
        rw [List.head?_eq_some_head hne, List.getLast?_eq_some_getLast hne, ← apply_ite some, Option.map_some]
        exact ⟨_, _, rfl⟩
      have hr : ((StoreOp.listPop (D := D) atHead).step now' (some ⟨.list l, x⟩)).1 = .ok value := by
        rw [StoreOp.step, Cell.alter_typed (a := l) rfl, Option.bind_some, hp]
      have hnodes := listPop_nodes atHead now' ho
      simp only [hr] at hnodes
      refine Or.inr (Or.inr ⟨value, hr, ?_, ?_⟩)
      · rw [hnodes]
        cases atHead with
        | true => rfl
        | false => exact List.getLast?_concat
      · rw [hnodes]
        cases atHead with
        | true => rfl
        | false => exact (List.dropLast_concat).symm
    | _ => exact Or.inl ⟨rfl, rfl, fun h => StoreType.noConfusion (h _ rfl)⟩

theorem nodes_ne_nil_iff : o.map (·.value.type) = some .list ↔ Cell.nodes o ≠ [] := by
  rcases o with _ | ⟨v, x⟩
  · simp [Cell.nodes]
  · cases v with
    | list l =>
      have hne : l.nodes ≠ [] := (ho _ rfl).value.2
      simpa [Value.type, Cell.nodes] using hne
    | _ => simp [Value.type, Cell.nodes]

omit [LinearOrder D] ho in
theorem exists_type (h : ¬ OfType .list o) : ∃ t, o.map (·.value.type) = some t ∧ t ≠ .list := by
  rcases o with _ | c
  · exact absurd (fun c hc => absurd hc (Option.not_mem_none c)) h
  · refine ⟨c.value.type, rfl, fun htype => h fun c' hc' => ?_⟩
    cases hc'
    exact htype

end Cells

/-! ## The store -/

section Stores
variable {store : Store D} (hvalid : store.Valid)
include hvalid

theorem Store.Valid.nodes_live (key : Bytes) (now : Int) :
    Cell.nodes (live now (store.cells key)) = store.listAt key :=
  live_nodes (hvalid.cells key) now

omit [LinearOrder D] hvalid in
theorem Does.listAt {α : Type} {key : Bytes} {r : α × Store D} {r' : α × Option (Cell D)}
    (h : Does store key r r') :
    r.2.listAt = Function.update store.listAt key (Cell.nodes r'.2) := by
  funext key'
  rw [Store.listAt, h.cells, Function.update_apply, Function.update_apply]
  split
  · rfl
  · rfl

theorem ListOp.onStore_valid (op : ListOp) : (op.onStore store).2.Valid := by
  cases op with
  | push key value atHead now => exact StoreOp.exec_valid hvalid (.listPush value atHead) key now now
  | pop key atHead now now' => exact StoreOp.exec_valid hvalid (.listPop atHead) key now now'

/-- A call is refused at a value of another type and leaves the lists as they are, or it is served as by a
queue. -/
theorem ListOp.onStore_cases (op : ListOp) :
    let r := op.onStore store
    (r.1.refused = true ∧ r.2.listAt = store.listAt ∧ ¬ OfType .list (live op.now (store.cells op.key))) ∨
      r.1.refused = false ∧ op.onQueues store.listAt = (r.1, r.2.listAt) := by
  cases op with
  | push key value atHead now =>
    have hdoes := exec_does hvalid.inv key now now (.listPush value atHead)
    have hresult : (storeListPush store key value atHead now).1 = _ := hdoes.result
    have hlist : (storeListPush store key value atHead now).2.listAt = _ := hdoes.listAt
    simp only [ListOp.onStore, Prod.map_fst, Prod.map_snd, id_eq, hresult, hlist]
    rcases listPush_queue (hvalid.of_live now key) value atHead now with ⟨hr, hn, hother⟩ | ⟨hr, hn⟩
    · rw [hr, hn, hvalid.nodes_live, Function.update_eq_self]
      exact Or.inl ⟨rfl, rfl, hother⟩
    · rw [hr, hn, hvalid.nodes_live]
      exact Or.inr ⟨rfl, rfl⟩
  | pop key atHead now now' =>
    have hdoes := exec_does hvalid.inv key now now' (.listPop atHead)
    have hresult : (storeListPop store key atHead now now').1 = _ := hdoes.result
    have hlist : (storeListPop store key atHead now now').2.listAt = _ := hdoes.listAt
    simp only [ListOp.onStore, Prod.map_fst, Prod.map_snd, id_eq, hresult, hlist]
    rcases listPop_queue (hvalid.of_live now key) atHead now' with
      ⟨hr, hn, hother⟩ | ⟨hr, hnil, hn⟩ | ⟨value, hr, hend, hn⟩
    · rw [hr, hn, hvalid.nodes_live, Function.update_eq_self]
      exact Or.inl ⟨rfl, rfl, hother⟩
    · rw [hvalid.nodes_live] at hnil
      rw [hr, hn, ← hnil, Function.update_eq_self]
      refine Or.inr ⟨rfl, ?_⟩
      simp only [ListOp.onQueues, hnil, List.head?_nil, List.getLast?_nil, ite_self]
    · rw [hvalid.nodes_live] at hend hn
      rw [hr, hn]
      refine Or.inr ⟨rfl, ?_⟩
      simp only [ListOp.onQueues, hend]

theorem SequenceStep.valid {ev : ListOp × ListAnswer} {store' : Store D} (h : SequenceStep store ev store') :
    store'.Valid := by
  have hop := ev.1.onStore_valid hvalid
  rwa [h] at hop

theorem SequenceStep.queues {ev : ListOp × ListAnswer} {store' : Store D} (h : SequenceStep store ev store') :
    QueueStep store.listAt ev store'.listAt := by
  have hcases := ev.1.onStore_cases hvalid
  rw [h] at hcases
  rcases hcases with ⟨hrefused, hlist, -⟩ | ⟨hserved, hqueue⟩
  · rw [QueueStep, if_pos hrefused]
    exact hlist
  · rw [QueueStep, if_neg (Bool.eq_false_iff.mp hserved)]
    exact hqueue

/-- In every run the lists change as the queues do. -/
theorem runSequence_queues {evs : List (ListOp × ListAnswer)} {store' : Store D}
    (h : Run SequenceStep store evs store') :
    Run QueueStep store.listAt evs store'.listAt := by
  have hrun : Run (fun s ev s' => SequenceStep s ev s' ∧ s.Valid) store evs store' :=
    h.restrict fun _ _ _ _ _ _ hbefore _ => hbefore.invariant Store.Valid
      (fun _ _ _ hs hstep => hstep.valid hs) hvalid
  exact hrun.map Store.listAt fun _ _ _ hstep => hstep.1.queues hstep.2

theorem ListOp.refused_type (op : ListOp) (h : (op.onStore store).1.refused = true) :
    ∃ t, (storeType store op.key op.now).1 = some t ∧ t ≠ .list := by
  have htype : (storeType store op.key op.now).1 = _ := (exec_does hvalid.inv op.key op.now op.now .type).result
  rw [htype]
  rcases op.onStore_cases hvalid with ⟨-, -, hother⟩ | ⟨hserved, -⟩
  · exact exists_type hother
  · rw [hserved] at h
    cases h

theorem storeType_list (key : Bytes) (now : Int) :
    ((storeType store key now).1 = some .list ↔ store.listAt key ≠ []) ∧
      (storeExists store key now).1 = (storeType store key now).1.isSome := by
  have htype : (storeType store key now).1 = _ := (exec_does hvalid.inv key now now .type).result
  have hexists : (storeExists store key now).1 = _ := (exec_does hvalid.inv key now now .exists).result
  rw [htype, hexists, ← hvalid.nodes_live key now]
  exact ⟨nodes_ne_nil_iff (hvalid.of_live now key), Option.isSome_map.symm⟩

/-- The list that is found has the elements, and none is found if there are none. -/
theorem lookupTyped_list (key : Bytes) (now : Int) :
    match (lookupTyped store key Value.asList now).1 with
    | .ok l => l.nodes = store.listAt key ∧ l.len = l.nodes.length
    | .error _ => store.listAt key = [] := by
  have hfound : (lookupTyped store key Value.asList now).1 = _ :=
    (exec_does hvalid.inv key now now .getList).result
  have hinv := hvalid.of_live now key
  rw [hfound, ← hvalid.nodes_live key now]
  generalize live now (store.cells key) = o at hinv
  rcases o with _ | ⟨v, x⟩
  · rfl
  · cases v with
    | list l => exact ⟨rfl, (hinv _ rfl).value.1⟩
    | _ => rfl

end Stores
end Steps
end PulseDB
