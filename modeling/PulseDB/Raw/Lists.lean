import PulseDB.Raw.Objects
import PulseDB.Store.Hash

/-!
# Lists and hashes in memory

* `triple_getAs`, `triple_takeText` : reading an object, and a text that is freed;
* `ListAt`, `HashAt` : a list and a hash with the addresses of their nodes; `cells` is the footprint, `view`
  the value of `PulseDB.Store.Value` that it stands for;
* `triple_listPush`, `triple_listPop`, `triple_hashSet`, `triple_hashDel`, ... : the operations do to the
  objects what those of `PulseDB.Store.Value` do to the value; `triple_freeList`, `triple_freeHash` : nothing
  is left after the end of a value.
-/

namespace PulseDB.Raw
open Lib Lib.Chains Lib.Prog

variable {D : Type}

/-! ## Single objects -/

section Objects
variable {α γ : Type} {as : Object D → Option α} {p : ℕ} {a : α} {b : Object D} {M : Multiset (ℕ × Object D)}
  {T : γ → Multiset (ℕ × Object D) → Prop}

theorem triple_getAs (hp : (p, b) ∈ M) (ha : as b = some a) :
    triple (getAs as p) M fun r M' => r = a ∧ M' = M :=
  bind_load hp (triple_demand ha ⟨rfl, rfl⟩)

theorem bind_getAs (hp : (p, b) ∈ M) {f : α → HeapProg (Object D) γ} (h : triple (f a) M T)
    (ha : as b = some a := by rfl) : triple (getAs as p >>= f) M T := by
  refine triple_bind (triple_getAs hp ha) fun r M' hr => ?_
  obtain ⟨rfl, rfl⟩ := hr
  exact h

theorem triple_takeText {s : Bytes} :
    triple (takeText p) (cell p (.text s) + M) fun r M' => r = s ∧ M' = M := by
  refine bind_getAs (b := .text s) (a := s) (by simp) ?_
  exact bind_release rfl (triple_pure ⟨rfl, rfl⟩)

theorem triple_xfree (o : Option ℕ) (b : Object D) :
    triple (xfree o) (o.elim 0 (fun q => cell q b) + M) fun _ M' => M' = M := by
  cases o with
  | none => exact triple_pure (zero_add M)
  | some q => exact triple_release rfl rfl

end Objects

/-! ## Lists -/

/-- A node of a list. -/
structure NodeAt where
  addr : ℕ
  ptr : ℕ
  text : Bytes
  prev : Option ℕ

def listNodes : Layout (listLink (D := D)) NodeAt where
  addr := NodeAt.addr
  block n l := .listNode ⟨n.ptr, n.prev, l⟩
  own n := cell n.ptr (.text n.text)
  next_block _ _ := rfl
  relink_block _ _ _ := rfl

theorem listNodes_node (n : NodeAt) (l : Option ℕ) : (listNodes.node n l : Multiset (ℕ × Object D)) =
    cell n.addr (.listNode ⟨n.ptr, n.prev, l⟩) + cell n.ptr (.text n.text) := rfl

theorem listNodes_seg_cons (n : NodeAt) (ns : List NodeAt) (l : Option ℕ) :
    (listNodes.seg (n :: ns) l : Multiset (ℕ × Object D)) =
      listNodes.node n (firstLink NodeAt.addr ns l) + listNodes.seg ns l := rfl

/-- The node before each node is the one that its link names; `q` is the one before the first. -/
def Prevs : Option ℕ → List NodeAt → Prop
  | _, [] => True
  | q, n :: ns => n.prev = q ∧ Prevs (some n.addr) ns

theorem prevs_append : ∀ {xs ys : List NodeAt} {q : Option ℕ}, Prevs q (xs ++ ys) ↔
    Prevs q xs ∧ Prevs ((xs.map NodeAt.addr).getLast?.or q) ys := by
  intro xs
  induction xs with
  | nil => simp [Prevs]
  | cons x xs ih =>
    intro ys q
    rw [List.cons_append, Prevs, Prevs, ih, and_assoc]
    cases xs with
    | nil => rfl
    | cons y xs => simp [List.getLast?_cons]

/-- A list with its nodes. -/
structure ListAt where
  nodes : List NodeAt := []
  len : ℕ := 0

namespace ListAt

def record (L : ListAt) : ListRec :=
  ⟨firstLink NodeAt.addr L.nodes none, (L.nodes.map NodeAt.addr).getLast?, L.len⟩

def cells (L : ListAt) (p : ℕ) : Multiset (ℕ × Object D) :=
  cell p (.list L.record) + listNodes.seg L.nodes none

def view (L : ListAt) : ListValue := ⟨L.nodes.map NodeAt.text, L.len⟩

def WF (L : ListAt) : Prop := Prevs none L.nodes

end ListAt

section Lists
variable {L : ListAt} {p text : ℕ} {value : Bytes}

theorem ListAt.mem_cells : (p, Object.list L.record) ∈ (L.cells p : Multiset (ℕ × Object D)) := by
  simp [ListAt.cells]

theorem triple_freeList : triple (freeList p) (L.cells p : Multiset (ℕ × Object D)) fun _ M' => M' = 0 := by
  refine bind_getAs (a := L.record) L.mem_cells ?_
  refine bind_call (F := cell p (.list L.record)) (by rw [ListAt.cells, add_comm])
    (triple_freeChain listNodes L.nodes fun n _ l => ?_) fun _ M' hM => ?_
  · exact bind_demand (a := ⟨n.ptr, n.prev, l⟩) rfl (triple_release (add_zero _).symm rfl)
  · exact triple_release (N := 0) (by rw [hM, zero_add, add_zero]) rfl

theorem triple_setPrev {n : NodeAt} {l q : Option ℕ} {M N : Multiset (ℕ × Object D)}
    (hM : M = listNodes.node n l + N) :
    triple (setPrev n.addr q) M fun _ M' => M' = listNodes.node { n with prev := q } l + N := by
  rw [hM]
  refine bind_getAs (b := .listNode ⟨n.ptr, n.prev, l⟩) (a := ⟨n.ptr, n.prev, l⟩)
    (by simp [Layout.node, listNodes]) ?_
  rw [Layout.node, Layout.node, add_assoc, add_assoc]
  exact triple_save rfl rfl

theorem triple_listPushHead (hL : L.WF) :
    triple (listPushHead p text) (cell text (.text value) + L.cells p : Multiset (ℕ × Object D)) fun _ M' =>
      ∃ L' : ListAt, L'.WF ∧ M' = L'.cells p ∧ L'.view = L.view.push value true := by
  refine bind_getAs (b := .list L.record) (a := L.record) (by simp [ListAt.cells]) (bind_new fun node => ?_)
  obtain ⟨nodes, len⟩ := L
  let new : NodeAt := ⟨node, text, value, none⟩
  cases nodes with
  | nil =>
    refine triple_save (b := .list (ListAt.record ⟨[], len⟩)) (N := listNodes.seg [new] none) ?_
      ⟨⟨[new], len + 1⟩, ⟨rfl, trivial⟩, rfl, rfl⟩
    rw [ListAt.cells, Layout.seg_nil, Layout.seg_singleton, listNodes_node, add_zero]
    simp only [ListAt.record, firstLink_nil, new]
    ac_rfl
  | cons n nodes =>
    let n' : NodeAt := { n with prev := some node }
    refine triple_then (triple_setPrev (n := n) (l := firstLink NodeAt.addr nodes none)
      (N := cell p (.list (ListAt.record ⟨n :: nodes, len⟩)) +
        (listNodes.node new (some n.addr) + listNodes.seg nodes none))
      ?_) ?_
    · rw [ListAt.cells, listNodes_seg_cons, listNodes_node new]
      simp only [ListAt.record, firstLink_cons, new]
      ac_rfl
    · refine triple_save (b := .list (ListAt.record ⟨n :: nodes, len⟩))
        (N := listNodes.seg (new :: n' :: nodes) none) ?_
        ⟨⟨new :: n' :: nodes, len + 1⟩, ⟨rfl, rfl, hL.2⟩, ?_, rfl⟩
      · rw [listNodes_seg_cons, listNodes_seg_cons, firstLink_cons]
        ac_rfl
      · simp only [ListAt.cells, ListAt.record, firstLink_cons, List.map_cons, List.getLast?_cons_cons]
        rfl

theorem triple_listPushTail (hL : L.WF) :
    triple (listPushTail p text) (cell text (.text value) + L.cells p : Multiset (ℕ × Object D)) fun _ M' =>
      ∃ L' : ListAt, L'.WF ∧ M' = L'.cells p ∧ L'.view = L.view.push value false := by
  refine bind_getAs (b := .list L.record) (a := L.record) (by simp [ListAt.cells]) (bind_new fun node => ?_)
  obtain ⟨nodes, len⟩ := L
  rcases List.eq_nil_or_concat' nodes with rfl | ⟨nodes, x, rfl⟩
  · let new : NodeAt := ⟨node, text, value, none⟩
    refine triple_save (b := .list (ListAt.record ⟨[], len⟩)) (N := listNodes.seg [new] none) ?_
      ⟨⟨[new], len + 1⟩, ⟨rfl, trivial⟩, rfl, rfl⟩
    rw [ListAt.cells, Layout.seg_nil, Layout.seg_singleton, listNodes_node, add_zero]
    simp only [ListAt.record, List.map_nil, List.getLast?_nil, new]
    ac_rfl
  · let new : NodeAt := ⟨node, text, value, some x.addr⟩
    have htail : (ListAt.record ⟨nodes ++ [x], len⟩).tail = some x.addr := by simp [ListAt.record]
    have hrecord : ListAt.record ⟨nodes ++ [x] ++ [new], len + 1⟩ =
        ⟨(ListAt.record ⟨nodes ++ [x], len⟩).head, some node, len + 1⟩ := by
      simp [ListAt.record, firstLink_append, new]
    rw [htail]
    refine triple_then (triple_setTail listNodes nodes x (l := none)
      (N := cell p (.list (ListAt.record ⟨nodes ++ [x], len⟩)) + listNodes.node new none) ?_) ?_
    · rw [ListAt.cells, listNodes_node]
      simp only [new]
      ac_rfl
    · refine triple_save (b := .list (ListAt.record ⟨nodes ++ [x], len⟩))
        (N := listNodes.seg (nodes ++ [x] ++ [new]) none) ?_
        ⟨⟨nodes ++ [x] ++ [new], len + 1⟩, ?_, ?_, ?_⟩
      · rw [listNodes.seg_append (nodes ++ [x]) [new], Layout.seg_singleton, firstLink_cons]
        exact add_left_comm _ _ _
      · refine prevs_append.mpr ⟨hL, ?_, trivial⟩
        simp [new]
      · rw [ListAt.cells, hrecord]
        rfl
      · simp [ListAt.view, ListValue.push, new]

theorem triple_listPush (hL : L.WF) (atHead : Bool) :
    triple (listPush p value atHead) (L.cells p : Multiset (ℕ × Object D)) fun len M' =>
      ∃ L' : ListAt, L'.WF ∧ M' = L'.cells p ∧ L'.view = L.view.push value atHead ∧ len = L'.view.len := by
  have hrest : ∀ M : Multiset (ℕ × Object D), (∃ L' : ListAt, L'.WF ∧ M = L'.cells p ∧
    L'.view = L.view.push value atHead) →
      triple (do let r ← getAs Object.asList p; return r.len) M fun len M' =>
        ∃ L' : ListAt, L'.WF ∧ M' = L'.cells p ∧ L'.view = L.view.push value atHead ∧ len = L'.view.len := by
    rintro M ⟨L', hwf, rfl, hview⟩
    exact bind_getAs (a := L'.record) L'.mem_cells (triple_pure ⟨L', hwf, rfl, hview, rfl⟩)
  refine bind_new fun text => ?_
  cases atHead with
  | true => exact triple_bind (triple_listPushHead hL) fun _ M' hM => hrest M' hM
  | false => exact triple_bind (triple_listPushTail hL) fun _ M' hM => hrest M' hM

theorem triple_listUnlinkHead {n : NodeAt} {nodes : List NodeAt} {len : ℕ}
    (hL : ListAt.WF ⟨n :: nodes, len⟩) :
    triple (listUnlinkHead p n.addr) (ListAt.cells ⟨n :: nodes, len⟩ p : Multiset (ℕ × Object D)) fun _ M' =>
      ∃ L' : ListAt, L'.WF ∧ (∃ l, M' = listNodes.node n l + L'.cells p) ∧
        L'.view = ⟨nodes.map NodeAt.text, len - 1⟩ := by
  refine bind_getAs (a := ListAt.record ⟨n :: nodes, len⟩) (ListAt.mem_cells (L := ⟨n :: nodes, len⟩)) ?_
  refine bind_getAs (b := .listNode ⟨n.ptr, n.prev, firstLink NodeAt.addr nodes none⟩)
    (a := ⟨n.ptr, n.prev, firstLink NodeAt.addr nodes none⟩)
    (by simp [ListAt.cells, listNodes_seg_cons, listNodes_node]) ?_
  cases nodes with
  | nil =>
    refine triple_save (b := .list (ListAt.record ⟨[n], len⟩)) (N := listNodes.node n none) ?_
      ⟨⟨[], len - 1⟩, trivial, ⟨none, ?_⟩, rfl⟩
    · rw [ListAt.cells, Layout.seg_singleton]
    · rw [ListAt.cells, Layout.seg_nil, add_zero, add_comm]
      rfl
  | cons m nodes =>
    let m' : NodeAt := { m with prev := none }
    refine triple_then (triple_setPrev (n := m) (l := firstLink NodeAt.addr nodes none)
      (N := cell p (.list (ListAt.record ⟨n :: m :: nodes, len⟩)) +
        (listNodes.node n (some m.addr) + listNodes.seg nodes none)) ?_) ?_
    · rw [ListAt.cells, listNodes_seg_cons, listNodes_seg_cons, firstLink_cons]
      ac_rfl
    · refine triple_save (b := .list (ListAt.record ⟨n :: m :: nodes, len⟩))
        (N := listNodes.node n (some m.addr) + listNodes.seg (m' :: nodes) none) ?_
        ⟨⟨m' :: nodes, len - 1⟩, ⟨rfl, hL.2.2⟩, ⟨some m.addr, ?_⟩, rfl⟩
      · rw [listNodes_seg_cons]
        ac_rfl
      · simp only [ListAt.cells, ListAt.record, firstLink_cons, List.map_cons, List.getLast?_cons_cons]
        ac_rfl

theorem triple_listUnlinkTail {n : NodeAt} {nodes : List NodeAt} {len : ℕ}
    (hL : ListAt.WF ⟨nodes ++ [n], len⟩) :
    triple (listUnlinkTail p n.addr) (ListAt.cells ⟨nodes ++ [n], len⟩ p : Multiset (ℕ × Object D))
      fun _ M' =>
      ∃ L' : ListAt, L'.WF ∧ (∃ l, M' = listNodes.node n l + L'.cells p) ∧
        L'.view = ⟨nodes.map NodeAt.text, len - 1⟩ := by
  obtain ⟨hnodes, hprev, -⟩ := prevs_append.mp hL
  rw [Option.or_none] at hprev
  refine bind_getAs (a := ListAt.record ⟨nodes ++ [n], len⟩) (ListAt.mem_cells (L := ⟨nodes ++ [n], len⟩)) ?_
  refine bind_getAs (b := .listNode ⟨n.ptr, n.prev, none⟩) (a := ⟨n.ptr, n.prev, none⟩)
    (by simp [ListAt.cells, Layout.seg_append, listNodes_seg_cons, listNodes_node]) ?_
  rcases List.eq_nil_or_concat' nodes with rfl | ⟨nodes, x, rfl⟩
  · have hnone : n.prev = none := hprev
    rw [hnone]
    refine triple_save (b := .list (ListAt.record ⟨[] ++ [n], len⟩)) (N := listNodes.node n none) ?_
      ⟨⟨[], len - 1⟩, trivial, ⟨none, ?_⟩, rfl⟩
    · rw [ListAt.cells, List.nil_append, Layout.seg_singleton]
    · rw [ListAt.cells, Layout.seg_nil, add_zero, add_comm]
      rfl
  · have hsome : n.prev = some x.addr := by simpa using hprev
    rw [hsome]
    refine triple_then (triple_setTail listNodes nodes x (l := some n.addr)
      (N := cell p (.list (ListAt.record ⟨nodes ++ [x] ++ [n], len⟩)) + listNodes.node n none) ?_) ?_
    · rw [ListAt.cells, listNodes.seg_append (nodes ++ [x]) [n], Layout.seg_singleton, firstLink_cons]
      simp only [listNodes]
      ac_rfl
    · refine triple_save (b := .list (ListAt.record ⟨nodes ++ [x] ++ [n], len⟩))
        (N := listNodes.node n none + listNodes.seg (nodes ++ [x]) none) ?_
        ⟨⟨nodes ++ [x], len - 1⟩, hnodes, ⟨none, ?_⟩, rfl⟩
      · ac_rfl
      · have hrecord : ListAt.record ⟨nodes ++ [x], len - 1⟩ =
            ⟨(ListAt.record ⟨nodes ++ [x] ++ [n], len⟩).head, some x.addr, len - 1⟩ := by
          simp [ListAt.record, firstLink_append]
        rw [ListAt.cells, hrecord]
        simp only [ListAt.record]
        ac_rfl

theorem triple_popped {n : NodeAt} {l : Option ℕ} {L' : ListAt} :
    triple (do
      let node ← getAs Object.asListNode n.addr
      release n.addr
      let r ← getAs Object.asList p
      return some (node.value, r.len)) (listNodes.node n l + L'.cells p : Multiset (ℕ × Object D)) fun r M' =>
        r = some (n.ptr, L'.len) ∧ M' = cell n.ptr (.text n.text) + L'.cells p := by
  refine bind_getAs (b := .listNode ⟨n.ptr, n.prev, l⟩) (a := ⟨n.ptr, n.prev, l⟩)
    (by simp [listNodes_node]) ?_
  refine bind_release (N := cell n.ptr (.text n.text) + L'.cells p) (by rw [listNodes_node, add_assoc]) ?_
  exact bind_getAs (b := .list L'.record) (a := L'.record) (by simp [ListAt.cells]) (triple_pure ⟨rfl, rfl⟩)

/-- Nothing is popped from an empty list; otherwise the caller gets the text of the node at one end. -/
theorem triple_listPop (hL : L.WF) (atHead : Bool) :
    triple (listPop p atHead) (L.cells p : Multiset (ℕ × Object D)) fun r M' =>
      (r = none ∧ L.view.pop atHead = none ∧ M' = L.cells p) ∨
      ∃ (ptr : ℕ) (value : Bytes) (L' : ListAt), r = some (ptr, L'.len) ∧ L'.WF ∧
        L.view.pop atHead = some (value, L'.view) ∧ M' = cell ptr (.text value) + L'.cells p := by
  refine bind_getAs (a := L.record) L.mem_cells ?_
  obtain ⟨nodes, len⟩ := L
  cases atHead with
  | true =>
    cases nodes with
    | nil => exact triple_pure (Or.inl ⟨rfl, rfl, rfl⟩)
    | cons n nodes =>
      refine triple_bind (triple_listUnlinkHead hL) fun _ M' hM => ?_
      obtain ⟨L', hwf, ⟨l, rfl⟩, hview⟩ := hM
      refine triple_mono triple_popped fun r M' hr => ?_
      exact Or.inr ⟨n.ptr, n.text, L', hr.1, hwf, by rw [hview]; rfl, hr.2⟩
  | false =>
    rcases List.eq_nil_or_concat' nodes with rfl | ⟨nodes, n, rfl⟩
    · exact triple_pure (Or.inl ⟨rfl, rfl, rfl⟩)
    · have htail : (ListAt.record ⟨nodes ++ [n], len⟩).tail = some n.addr := by simp [ListAt.record]
      simp only [Bool.false_eq_true, if_false, htail]
      refine triple_bind (triple_listUnlinkTail hL) fun _ M' hM => ?_
      obtain ⟨L', hwf, ⟨l, rfl⟩, hview⟩ := hM
      refine triple_mono triple_popped fun r M' hr => ?_
      refine Or.inr ⟨n.ptr, n.text, L', hr.1, hwf, ?_, hr.2⟩
      rw [hview]
      simp [ListAt.view, ListValue.pop]

/-- What the walks along a list read at a node. -/
def nodeText (b : Object D) : HeapProg (Object D) Bytes := do
  let node ← demand b.asListNode
  getAs Object.asText node.value

theorem triple_nodeText {n : NodeAt} {nodes : List NodeAt} {W : Multiset (ℕ × Object D)} (hn : n ∈ nodes)
    (hW : listNodes.seg nodes none ≤ W) (q l : Option ℕ) :
    triple (nodeText (.listNode ⟨n.ptr, q, l⟩)) W fun r M' => r = n.text ∧ M' = W := by
  obtain ⟨l', hnode⟩ := listNodes.mem_seg hn none
  refine bind_demand (a := ⟨n.ptr, q, l⟩) rfl (triple_getAs (b := .text n.text) ?_ rfl)
  exact Multiset.mem_of_le (hnode.trans hW) (by simp [listNodes_node])

theorem triple_peekList {W : Multiset (ℕ × Object D)} (hW : L.cells p ≤ W) :
    triple (peekList p) W fun r M' => r = L.view ∧ M' = W := by
  refine bind_getAs (b := .list L.record) (a := L.record) (Multiset.mem_of_le hW L.mem_cells) ?_
  have hseg : listNodes.seg L.nodes none ≤ W := (Multiset.le_add_left _ _).trans hW
  refine triple_bind (triple_readChain listNodes NodeAt.text hseg
    fun n hn l => triple_nodeText hn hseg n.prev l) fun r M' hr => ?_
  obtain ⟨rfl, rfl⟩ := hr
  exact triple_pure ⟨rfl, rfl⟩

end Lists

/-! ## Hashes -/

/-- A field with its two texts. -/
structure FieldAt where
  addr : ℕ
  fieldPtr : ℕ
  field : Bytes
  valuePtr : ℕ
  value : Bytes

def FieldAt.record (n : FieldAt) (l : Option ℕ) : FieldRec := ⟨n.fieldPtr, n.valuePtr, l⟩

def FieldAt.texts (n : FieldAt) : Multiset (ℕ × Object D) :=
  cell n.fieldPtr (.text n.field) + cell n.valuePtr (.text n.value)

def hashFields : Layout (hashLink (D := D)) FieldAt where
  addr := FieldAt.addr
  block n l := .hashField (n.record l)
  own := FieldAt.texts
  next_block _ _ := rfl
  relink_block _ _ _ := rfl

theorem hashFields_node (n : FieldAt) (l : Option ℕ) : (hashFields.node n l : Multiset (ℕ × Object D)) =
    cell n.addr (.hashField (n.record l)) + (cell n.fieldPtr (.text n.field) + cell n.valuePtr
      (.text n.value)) := rfl

def FieldAt.view (n : FieldAt) : HashField := ⟨n.field, n.value⟩

/-- A hash with its fields. -/
structure HashAt where
  chains : List (List FieldAt) := List.replicate hashNumBuckets []
  len : ℕ := 0

namespace HashAt

/-- The record of a hash with `len` fields. -/
def array (len : ℕ) (ls : List (Option ℕ)) : Object D := .hash ⟨ls, len⟩

def cells (H : HashAt) (p : ℕ) : Multiset (ℕ × Object D) := hashFields.table (array H.len) p H.chains

def view (H : HashAt) : HashValue := ⟨H.chains.map (List.map FieldAt.view), H.len⟩

structure WF (H : HashAt) : Prop where
  size : H.chains.length = hashNumBuckets

end HashAt

theorem hashArray_of (len : ℕ) : (hashArray (D := D)).Of (HashAt.array len) := ⟨fun _ => rfl, fun _ _ => rfl⟩

section Hashes
variable {H : HashAt} {p : ℕ} {field value : Bytes} {W : Multiset (ℕ × Object D)}

theorem HashAt.WF.slot_lt (hH : H.WF) (field : Bytes) : HashValue.slot field < H.chains.length := by
  rw [hH.size]
  exact HashValue.slot_lt field

theorem HashAt.mem_cells :
    (p, Object.hash ⟨H.chains.map (hashFields (D := D)).head, H.len⟩) ∈
      (H.cells p : Multiset (ℕ × Object D)) := by
  simp [HashAt.cells, Layout.table, HashAt.array]

theorem triple_freeTexts {n : FieldAt} {M : Multiset (ℕ × Object D)} :
    triple (do release n.fieldPtr; release n.valuePtr) (n.texts + M) fun _ M' => M' = M := by
  refine bind_release (N := cell n.valuePtr (.text n.value) + M) (by rw [FieldAt.texts, add_assoc]) ?_
  exact triple_release rfl rfl

theorem triple_freeHash (hH : H.WF) :
    triple (freeHash p) (H.cells p : Multiset (ℕ × Object D)) fun _ M' => M' = 0 := by
  rw [freeHash, ← hH.size]
  refine triple_then (triple_freeTable hashFields (hashArray_of H.len) fun n _ l => ?_)
    (triple_release (add_zero _).symm rfl)
  refine bind_demand (a := n.record l) rfl ?_
  have htexts := triple_freeTexts (n := n) (M := (0 : Multiset (ℕ × Object D)))
  rwa [add_zero] at htexts

theorem triple_hashFind (hH : H.WF) (hW : H.cells p ≤ W) :
    triple (hashFind p field) W fun r M' => M' = W ∧
      ((r = none ∧ (chain H.chains (HashValue.slot field)).find? (HashField.named field ∘ FieldAt.view) =
        none) ∨
      ∃ xs n ys, chain H.chains (HashValue.slot field) = xs ++ n :: ys ∧
        (∀ x ∈ xs, (HashField.named field ∘ FieldAt.view) x = false) ∧
          (HashField.named field ∘ FieldAt.view) n = true ∧
        r = some ((hashFields (D := D)).cursor (HashValue.slot field) xs, n.addr)) := by
  have hi := hH.slot_lt field
  have hmem : chain H.chains (HashValue.slot field) ∈ H.chains := by
    rw [chain_eq hi]
    exact List.getElem_mem hi
  have hseg := (hashFields.seg_le_table (HashAt.array H.len) p hmem).trans hW
  refine triple_mono (triple_search hashFields (HashField.named field ∘ FieldAt.view) (hashArray_of H.len)
    (Multiset.mem_of_le hW HashAt.mem_cells) (getElem?_heads hi) hseg fun n hn l => ?_) fun r M' hr => ?_
  · obtain ⟨l', hnode⟩ := hashFields.mem_seg hn none
    refine bind_demand (a := n.record l) rfl (bind_getAs (b := .text n.field) (a := n.field) ?_ ?_)
    · exact Multiset.mem_of_le (hnode.trans hseg) (by simp [hashFields_node, FieldAt.record])
    · exact triple_pure ⟨rfl, rfl⟩
  · refine ⟨hr.1, hr.2.imp_left fun hnone => ⟨hnone.1, ?_⟩⟩
    rw [List.find?_eq_none]
    intro n hn
    rw [hnone.2 n hn]
    exact Bool.false_ne_true

theorem triple_hashSet (hH : H.WF) :
    triple (hashSet p field value) (H.cells p : Multiset (ℕ × Object D)) fun r M' =>
      ∃ H' : HashAt, H'.WF ∧ M' = H'.cells p ∧ H.view.set field value = (r, H'.view) := by
  have hi := hH.slot_lt field
  refine triple_bind (triple_hashFind hH (le_refl _)) fun r M' hr => ?_
  obtain ⟨rfl, ⟨rfl, hnone⟩ | ⟨xs, n, ys, hsplit, hxs, hn, rfl⟩⟩ := hr
  · refine bind_new fun fieldPtr => bind_new fun valuePtr => bind_new fun hf => ?_
    let n : FieldAt := ⟨hf, fieldPtr, field, valuePtr, value⟩
    refine triple_then (triple_pushSlot hashFields n (hashArray_of H.len) hi (l := none) (N := 0) ?_) ?_
    · rw [hashFields_node, ← HashAt.cells, add_zero]
      simp only [n]
      ac_rfl
    · rw [add_zero, Layout.table]
      let chains := link H.chains (HashValue.slot field) n
      refine bind_getAs (b := HashAt.array H.len (chains.map (hashFields (D := D)).head)) (by simp [chains])
        (bind_save rfl (triple_pure ?_))
      refine ⟨⟨chains, H.len + 1⟩, ⟨by rw [length_link]; exact hH.size⟩, rfl, ?_⟩
      rw [HashValue.set, HashAt.view]
      simp only [chain_map, List.find?_map, hnone, Option.map_none, HashAt.view, chains, link_map]
      rfl
  · obtain ⟨R, htable, hamend⟩ := hashFields.exists_node_rest (HashAt.array (D := D) H.len) p hi hsplit hxs hn
    have hfind : (chain H.chains (HashValue.slot field)).find? (HashField.named field ∘ FieldAt.view) =
        some n := by
      rw [hsplit, find?_split hxs hn]
    rw [HashAt.cells, htable, hashFields_node]
    let block := n.record ((hashFields (D := D)).head ys)
    refine bind_getAs (b := .hashField block) (a := block) (by simp [block]) ?_
    refine bind_release (b := .text n.value) (N := cell n.addr (.hashField block) +
      (cell n.fieldPtr (.text n.field) + R)) (by ac_rfl) (bind_new fun text => ?_)
    refine bind_save (b := .hashField block)
      (N := cell n.fieldPtr (.text n.field) + (cell text (.text value) + R)) (by ac_rfl) (triple_pure ?_)
    refine ⟨⟨amend H.chains (HashValue.slot field) (HashField.named field ∘ FieldAt.view)
      fun m => { m with valuePtr := text, value := value }, H.len⟩,
        ⟨by rw [length_amend]; exact hH.size⟩, ?_, ?_⟩
    · rw [HashAt.cells, hamend _ rfl, hashFields_node]
      simp only [block, FieldAt.record]
      ac_rfl
    · rw [HashValue.set, HashAt.view]
      simp only [chain_map, List.find?_map, hfind, Option.map_some, HashAt.view]
      rw [amend_map FieldAt.view hfind (g := fun hf => { hf with value := value }) rfl]

theorem triple_hashDel (hH : H.WF) :
    triple (hashDel p field) (H.cells p : Multiset (ℕ × Object D)) fun r M' =>
      ∃ H' : HashAt, H'.WF ∧ M' = H'.cells p ∧ H.view.del field = (r.1, H'.view) ∧ r.2 = H'.len := by
  have hi := hH.slot_lt field
  refine triple_bind (triple_hashFind hH (le_refl _)) fun r M' hr => ?_
  obtain ⟨rfl, ⟨rfl, hnone⟩ | ⟨xs, n, ys, hsplit, hxs, hn, rfl⟩⟩ := hr
  · refine bind_getAs (b := .hash ⟨_, H.len⟩) (a := ⟨_, H.len⟩) HashAt.mem_cells
      (triple_pure ⟨H, hH, rfl, ?_, rfl⟩)
    rw [HashValue.del, HashAt.view]
    simp only [chain_map, List.find?_map, hnone, Option.map_none]
  · obtain ⟨R, htable, -⟩ := hashFields.exists_node_rest (HashAt.array (D := D) H.len) p hi hsplit hxs hn
    have hfind : (chain H.chains (HashValue.slot field)).find? (HashField.named field ∘ FieldAt.view) =
        some n := by
      rw [hsplit, find?_split hxs hn]
    let block := n.record ((hashFields (D := D)).head ys)
    refine bind_getAs (b := .hashField block) (a := block)
      (by simp [HashAt.cells, htable, hashFields_node, block]) ?_
    refine triple_then (triple_unlink (hashArray_of H.len) hi hsplit hxs hn) ?_
    let chains := unlink H.chains (HashValue.slot field) (HashField.named field ∘ FieldAt.view)
    let table : Multiset (ℕ × Object D) := hashFields.table (HashAt.array H.len) p chains
    refine bind_release (b := .text n.field) (N := cell n.addr (.hashField block) +
      (cell n.valuePtr (.text n.value) + table)) ?_ ?_
    · rw [hashFields_node]
      simp only [block, FieldAt.record, table, chains]
      ac_rfl
    refine bind_release (b := .text n.value) (N := cell n.addr (.hashField block) +
      table) (by ac_rfl) (bind_release rfl ?_)
    refine bind_getAs (b := HashAt.array H.len (chains.map (hashFields (D := D)).head))
      (by simp [table, Layout.table]) (bind_save rfl (triple_pure ?_))
    refine ⟨⟨chains, H.len - 1⟩, ⟨by rw [length_unlink]; exact hH.size⟩, rfl, ?_, rfl⟩
    rw [HashValue.del, HashAt.view]
    simp only [chain_map, List.find?_map, hfind, Option.map_some, HashAt.view, chains, unlink_map]

theorem triple_peekHash (hW : H.cells p ≤ W) : triple (peekHash p) W fun r M' => r = H.view ∧ M' = W := by
  refine bind_getAs (a := ⟨H.chains.map (hashFields (D := D)).head, H.len⟩)
    (Multiset.mem_of_le hW HashAt.mem_cells) ?_
  have hsegs : ∀ ns ∈ H.chains, hashFields.seg ns none ≤ W := fun ns hns =>
    (hashFields.seg_le_table _ p hns).trans hW
  refine triple_bind (triple_readChains hashFields FieldAt.view hsegs fun n hn l => ?_) fun r M' hr => ?_
  · obtain ⟨ns, hns, hn⟩ := List.mem_flatten.mp hn
    obtain ⟨l', hnode⟩ := hashFields.mem_seg hn none
    have hle := hnode.trans (hsegs ns hns)
    refine bind_demand (a := n.record l) rfl (bind_getAs (b := .text n.field) (a := n.field) ?_
      (bind_getAs (b := .text n.value) (a := n.value) ?_ (triple_pure ⟨rfl, rfl⟩)))
    · exact Multiset.mem_of_le hle (by simp [hashFields_node, FieldAt.record])
    · exact Multiset.mem_of_le hle (by simp [hashFields_node, FieldAt.record])
  · obtain ⟨rfl, rfl⟩ := hr
    exact triple_pure ⟨rfl, rfl⟩

theorem HashAt.cells_empty : (HashAt.cells {} p : Multiset (ℕ × Object D)) = cell p (.hash {}) :=
  hashFields.table_replicate (HashAt.array 0) p hashNumBuckets

end Hashes
end PulseDB.Raw
