import PulseDB.Raw.Streams
import PulseDB.Raw.ZSets
import PulseDB.Store.Valid

/-!
# The keyspace in memory

* `ValueAt`, `EntryAt`, `StoreAt` : the values, the entries and the table with their addresses; `StoreAt.view`
  : the store of `PulseDB.Store.Keyspace` that the table stands for;
* `Found` : the entry that a walk has found; `Found.exists_rest` : the memory around it, in which another
  entry can be put in its place;
* `triple_lookup`, `triple_createEntry`, `triple_dropEntry`, `triple_storeDel`, `triple_storeDestroy`.
-/

namespace PulseDB.Raw
open Lib Lib.Chains Lib.Prog

variable {D : Type}

/-! ## Values -/

/-- A value with its objects. -/
inductive ValueAt (D : Type) where
  | str (p : ℕ) (s : Bytes)
  | list (p : ℕ) (L : ListAt)
  | hash (p : ℕ) (H : HashAt)
  | zset (p : ℕ) (Z : ZSetAt D)
  | stream (p : ℕ) (S : StreamAt)

namespace ValueAt

def ptr : ValueAt D → ℕ
  | .str p _ => p
  | .list p _ => p
  | .hash p _ => p
  | .zset p _ => p
  | .stream p _ => p

def cells : ValueAt D → Multiset (ℕ × Object D)
  | .str p s => cell p (.text s)
  | .list p L => L.cells p
  | .hash p H => H.cells p
  | .zset p Z => Z.cells p
  | .stream p S => S.cells p

def view : ValueAt D → Value D
  | .str _ s => .str s
  | .list _ L => .list L.view
  | .hash _ H => .hash H.view
  | .zset _ Z => .zset Z.view
  | .stream _ S => .stream S.view

def WF : ValueAt D → Prop
  | .str _ _ => True
  | .list _ L => L.WF
  | .hash _ H => H.WF
  | .zset _ Z => Z.WF
  | .stream _ _ => True

end ValueAt

theorem triple_freeValue {v : ValueAt D} (hv : v.WF) :
    triple (freeValue (some v.ptr) v.view.type) v.cells fun _ M' => M' = 0 := by
  cases v with
  | str p s => exact triple_release (add_zero _).symm rfl
  | list p L => exact triple_freeList
  | hash p H => exact triple_freeHash hv
  | zset p Z => exact triple_freeZset hv.toShaped
  | stream p S => exact triple_freeStream

/-! ## Entries -/

/-- An entry with its key and its value. While a value is replaced there is none. -/
structure EntryAt (D : Type) where
  addr : ℕ
  keyPtr : ℕ
  key : Bytes
  hash : UInt64
  type : StoreType
  expiresAt : Int := 0
  value : Option (ValueAt D) := none

namespace EntryAt

def record (e : EntryAt D) (l : Option ℕ) : EntryRec :=
  ⟨e.keyPtr, e.hash, e.type, e.expiresAt, l, e.value.map ValueAt.ptr⟩

def view (e : EntryAt D) : StoreEntry D := ⟨e.key, e.hash, e.value.elim (.str []) ValueAt.view, e.expiresAt⟩

def cleared (e : EntryAt D) : EntryAt D := { e with value := none }

/-- There is a value, and it has the type of the entry. -/
def WF (e : EntryAt D) : Prop := ∃ v, e.value = some v ∧ v.view.type = e.type ∧ v.WF

end EntryAt

def entries : Layout (entryLink (D := D)) (EntryAt D) where
  addr := EntryAt.addr
  block e l := .entry (e.record l)
  own e := cell e.keyPtr (.text e.key) + e.value.elim 0 ValueAt.cells
  next_block _ _ := rfl
  relink_block _ _ _ := rfl

theorem entries_node (e : EntryAt D) (l : Option ℕ) : entries.node e l =
    cell e.addr (.entry (e.record l)) + (cell e.keyPtr (.text e.key) + e.value.elim 0 ValueAt.cells) := rfl

section Entries
variable {e : EntryAt D} {l : Option ℕ} {N : Multiset (ℕ × Object D)}

theorem mem_node : (e.addr, Object.entry (e.record l)) ∈ entries.node e l + N := by
  simp [entries_node]

theorem triple_entryClearValue (he : e.WF) :
    triple (entryClearValue e.addr) (entries.node e l + N) fun _ M' => M' = entries.node e.cleared l + N := by
  obtain ⟨v, hv, htype, hwf⟩ := he
  have hnode : entries.node e l + N = v.cells +
      (cell e.addr (.entry (e.record l)) + (cell e.keyPtr (.text e.key) + N)) := by
    rw [entries_node, hv, Option.elim_some]
    ac_rfl
  refine bind_getAs (a := e.record l) mem_node ?_
  rw [hnode]
  have hfree : triple (freeValue (e.record l).v (e.record l).type) v.cells fun _ M' => M' = 0 := by
    simp only [EntryAt.record, hv, Option.map_some, ← htype]
    exact triple_freeValue hwf
  refine bind_call rfl hfree fun _ M' hM => ?_
  rw [hM, zero_add]
  refine triple_save rfl ?_
  rw [entries_node]
  simp only [EntryAt.record, EntryAt.cleared, Option.map_none, Option.elim_none]
  ac_rfl

theorem triple_entryFree (he : e.WF) :
    triple (entryFree e.addr) (entries.node e l + N) fun _ M' => M' = N := by
  refine triple_then (triple_entryClearValue he) ?_
  refine bind_getAs (a := e.cleared.record l) (mem_node (e := e.cleared)) ?_
  refine bind_release (b := .text e.key) (N := cell e.addr (.entry (e.cleared.record l)) + N) ?_
    (triple_release rfl rfl)
  rw [entries_node]
  simp only [EntryAt.record, EntryAt.cleared, Option.elim_none]
  ac_rfl

end Entries

/-! ## The table -/

/-- The store with its table. -/
structure StoreAt (D : Type) where
  buckets : ℕ
  chains : List (List (EntryAt D))
  count : ℕ := 0

namespace StoreAt

def record (S : StoreAt D) : StoreRec := ⟨S.buckets, S.chains.length, S.count⟩

def cells (S : StoreAt D) (s : ℕ) : Multiset (ℕ × Object D) :=
  cell s (.store S.record) + entries.table Object.slots S.buckets S.chains

def view (S : StoreAt D) : Store D := ⟨S.chains.map (List.map EntryAt.view), S.chains.length, S.count⟩

structure WF (S : StoreAt D) : Prop where
  size : 0 < S.chains.length
  entries : ∀ e ∈ S.chains.flatten, e.WF

def slot (S : StoreAt D) (key : Bytes) : ℕ := indexSlot (hash64 key) S.chains.length

def named (key : Bytes) : EntryAt D → Bool := StoreEntry.named key ∘ EntryAt.view

theorem WF.slot_lt {S : StoreAt D} (hS : S.WF) (key : Bytes) : S.slot key < S.chains.length :=
  indexSlot_lt _ hS.size

theorem mem_cells {S : StoreAt D} {s : ℕ} : (s, Object.store S.record) ∈ S.cells s := by
  simp [cells]

end StoreAt

/-- The entry `e` is the first of its chain with the key; it is behind the entries `xs` and before `ys`. -/
structure Found (S : StoreAt D) (key : Bytes) (xs : List (EntryAt D)) (e : EntryAt D)
    (ys : List (EntryAt D)) : Prop where
  split : chain S.chains (S.slot key) = xs ++ e :: ys
  before : ∀ x ∈ xs, StoreAt.named key x = false
  named : StoreAt.named key e = true

namespace Found
variable {S : StoreAt D} {s : ℕ} {key : Bytes} {xs ys : List (EntryAt D)} {e : EntryAt D}

theorem find? (h : Found S key xs e ys) :
    (chain S.chains (S.slot key)).find? (StoreAt.named key) = some e := by
  rw [h.split, find?_split h.before h.named]

theorem walk (h : Found S key xs e ys) : S.view.walk key = some e.view := by
  have hfind := h.find?
  rw [StoreAt.named] at hfind
  rw [Store.walk, StoreAt.view, chain_map, List.find?_map, Store.slot]
  exact congrArg (Option.map EntryAt.view) hfind

theorem mem (h : Found S key xs e ys) : e ∈ S.chains.flatten := by
  refine mem_flatten_iff.mpr ⟨S.slot key, ?_⟩
  rw [h.split]
  simp

theorem slot_lt (h : Found S key xs e ys) : S.slot key < S.chains.length := by
  by_contra hle
  have hsplit := h.split
  rw [chain_of_le (Nat.le_of_not_lt hle)] at hsplit
  simp at hsplit

theorem exists_rest (h : Found S key xs e ys) (s : ℕ) : ∃ l R, S.cells s = entries.node e l + R ∧
    ∀ e' g, e'.addr = e.addr → (S.WF → e'.WF) → e'.view = g e.view →
      ∃ S' : StoreAt D, (S.WF → S'.WF) ∧ S'.cells s = entries.node e' l + R ∧
        S'.view = S.view.update key g := by
  obtain ⟨R, htable, hamend⟩ := entries.exists_node_rest Object.slots S.buckets h.slot_lt h.split
    h.before h.named
  refine ⟨entries.head ys, cell s (.store S.record) + R, ?_, fun e' g haddr hwf hview => ?_⟩
  · rw [StoreAt.cells, htable]
    ac_rfl
  let chains := amend S.chains (S.slot key) (StoreAt.named key) fun _ => e'
  have hlen : chains.length = S.chains.length := length_amend ..
  refine ⟨{ S with chains := chains }, fun hS => ⟨by rw [hlen]; exact hS.size, fun x hx => ?_⟩, ?_, ?_⟩
  · have hmem := (amend_perm (fun _ => e') h.slot_lt h.find?).mem_iff.mp hx
    rcases List.mem_cons.mp hmem with rfl | hrest
    · exact hwf hS
    · exact hS.entries x ((unlink_perm h.slot_lt h.find?).mem_iff.mpr (List.mem_cons_of_mem e hrest))
  · rw [StoreAt.cells, hamend (fun _ => e') haddr]
    simp only [StoreAt.record, hlen]
    ac_rfl
  · have hmap := amend_map EntryAt.view h.find? (f := fun _ => e') hview
    simp only [StoreAt.view, Store.update, hlen]
    exact congrArg (fun b => (⟨b, S.chains.length, S.count⟩ : Store D)) hmap

end Found

section Table
variable {S : StoreAt D} {s : ℕ} {key : Bytes} {W : Multiset (ℕ × Object D)} {xs ys : List (EntryAt D)}
  {e : EntryAt D}

theorem triple_storeWalk (hS : S.WF) (hW : S.cells s ≤ W) :
    triple (walk S.record key) W fun r M' => M' = W ∧ ((r = none ∧ S.view.walk key = none) ∨
      ∃ xs e ys, Found S key xs e ys ∧ r = some ((entries (D := D)).cursor (S.slot key) xs, e.addr)) := by
  have hi := hS.slot_lt key
  have hmem : chain S.chains (S.slot key) ∈ S.chains := by
    rw [chain_eq hi]
    exact List.getElem_mem hi
  have htable : entries.table Object.slots S.buckets S.chains ≤ W := (Multiset.le_add_left _ _).trans hW
  have hseg := (entries.seg_le_table Object.slots S.buckets hmem).trans htable
  have hslots : (S.buckets, Object.slots (S.chains.map (entries (D := D)).head)) ∈ W :=
    Multiset.mem_of_le htable (by simp [Layout.table])
  refine triple_mono (triple_search entries (StoreAt.named key) slotArray_of hslots (getElem?_heads hi) hseg
    fun e he l => ?_) fun r M' hr => ?_
  · obtain ⟨l', hnode⟩ := entries.mem_seg he none
    refine bind_demand (a := e.record l) rfl ?_
    by_cases hhash : e.hash = hash64 key
    · rw [if_pos (by simp [EntryAt.record, hhash])]
      refine bind_getAs (b := .text e.key) (a := e.key) (Multiset.mem_of_le (hnode.trans hseg) ?_)
        (triple_pure ⟨?_, rfl⟩)
      · simp [entries_node, EntryAt.record]
      · simp [StoreAt.named, StoreEntry.named, EntryAt.view, hhash]
    · rw [if_neg (by simp [EntryAt.record, hhash])]
      exact triple_pure ⟨by simp [StoreAt.named, StoreEntry.named, EntryAt.view, hhash], rfl⟩
  · obtain ⟨rfl, ⟨rfl, hnone⟩ | ⟨xs, e, ys, hsplit, hxs, he, rfl⟩⟩ := hr
    · refine ⟨rfl, Or.inl ⟨rfl, ?_⟩⟩
      rw [Store.walk, StoreAt.view, chain_map, List.find?_map, Option.map_eq_none_iff, List.find?_eq_none]
      intro e he
      rw [show (StoreEntry.named key ∘ EntryAt.view) e = false from hnone e he]
      exact Bool.false_ne_true
    · exact ⟨rfl, Or.inr ⟨xs, e, ys, ⟨hsplit, hxs, he⟩, rfl⟩⟩

/-- The entry that has been found is taken out of its chain and freed. -/
theorem triple_dropEntry (hS : S.WF) (h : Found S key xs e ys) :
    triple (dropEntry s ((entries (D := D)).cursor (S.slot key) xs) e.addr) (S.cells s) fun _ M' =>
      ∃ S' : StoreAt D, S'.WF ∧ M' = S'.cells s ∧ S'.view = S.view.unlink key := by
  let chains := unlink S.chains (S.slot key) (StoreAt.named key)
  have hlen : chains.length = S.chains.length := length_unlink ..
  obtain ⟨R, htable, -⟩ := entries.exists_node_rest Object.slots S.buckets h.slot_lt h.split h.before h.named
  have hblock : (e.addr, Object.entry (e.record ((entries (D := D)).head ys))) ∈ S.cells s := by
    simp [StoreAt.cells, htable, entries_node]
  refine bind_getAs (a := S.record) S.mem_cells
    (bind_getAs (a := e.record ((entries (D := D)).head ys)) hblock ?_)
  refine bind_call (add_comm _ _) (triple_unlink slotArray_of h.slot_lt h.split h.before h.named)
    fun _ M' hM => ?_
  have hM' : M' + cell s (.store S.record) =
      entries.node e (entries.head ys) +
        (cell s (.store S.record) + entries.table Object.slots S.buckets chains) := by
    rw [hM]
    ac_rfl
  rw [hM']
  refine triple_then (triple_entryFree (hS.entries e h.mem)) (triple_save rfl ?_)
  refine ⟨⟨S.buckets, chains, S.count - 1⟩, ⟨by rw [hlen]; exact hS.size, fun x hx => ?_⟩, ?_, ?_⟩
  · exact hS.entries x ((unlink_perm h.slot_lt h.find?).mem_iff.mpr (List.mem_cons_of_mem e hx))
  · rw [StoreAt.cells]
    simp only [StoreAt.record, hlen]
  · simp only [StoreAt.view, Store.unlink, hlen]
    exact congrArg (fun b => (⟨b, S.chains.length, S.count - 1⟩ : Store D))
      (unlink_map EntryAt.view S.chains (S.slot key) (StoreEntry.named key))

theorem triple_lookup (hS : S.WF) (now : Int) :
    triple (lookup s key now) (S.cells s) fun r M' => ∃ S' : StoreAt D, S'.WF ∧ M' = S'.cells s ∧
      ((r = none ∧ PulseDB.lookup S.view key now = (none, S'.view)) ∨
      ∃ xs e ys, Found S' key xs e ys ∧ r = some e.addr ∧ PulseDB.lookup S.view key now =
        (some e.view, S'.view)) := by
  refine bind_getAs (a := S.record) S.mem_cells
    (triple_bind (triple_storeWalk hS (le_refl _)) fun r M' hr => ?_)
  obtain ⟨rfl, ⟨rfl, hnone⟩ | ⟨xs, e, ys, hfound, rfl⟩⟩ := hr
  · exact triple_pure ⟨S, hS, rfl, Or.inl ⟨rfl, by rw [PulseDB.lookup, hnone]⟩⟩
  · obtain ⟨l, R, hcells, -⟩ := hfound.exists_rest s
    refine bind_getAs (b := .entry (e.record l)) (a := e.record l) (by rw [hcells]; exact mem_node) ?_
    have htest : ((e.record l).expiresAt != 0 && isExpired (e.record l) now) =
        (e.view.expiresAt != 0 && entryIsExpired e.view now) := rfl
    rw [htest]
    have hlookup : PulseDB.lookup S.view key now =
        if e.view.expiresAt != 0 && entryIsExpired e.view now then (none, S.view.unlink key)
        else (some e.view, S.view) := by
      rw [PulseDB.lookup, hfound.walk]
    rw [hlookup]
    split
    · refine triple_bind (triple_dropEntry hS hfound) fun _ M' hM => ?_
      obtain ⟨S', hS', rfl, hview⟩ := hM
      exact triple_pure ⟨S', hS', rfl, Or.inl ⟨rfl, by rw [hview]⟩⟩
    · exact triple_pure ⟨S, hS, rfl, Or.inr ⟨xs, e, ys, hfound, rfl, rfl⟩⟩

theorem triple_storeDel (hS : S.WF) (now : Int) :
    triple (storeDel s key now) (S.cells s) fun r M' => ∃ S' : StoreAt D, S'.WF ∧ M' = S'.cells s ∧
      PulseDB.storeDel S.view key now = (r, S'.view) := by
  refine bind_getAs (a := S.record) S.mem_cells
    (triple_bind (triple_storeWalk hS (le_refl _)) fun r M' hr => ?_)
  obtain ⟨rfl, ⟨rfl, hnone⟩ | ⟨xs, e, ys, hfound, rfl⟩⟩ := hr
  · exact triple_pure ⟨S, hS, rfl, by rw [PulseDB.storeDel, hnone]⟩
  · obtain ⟨l, R, hcells, -⟩ := hfound.exists_rest s
    refine bind_getAs (b := .entry (e.record l)) (a := e.record l) (by rw [hcells]; exact mem_node) ?_
    refine triple_bind (triple_dropEntry hS hfound) fun _ M' hM => ?_
    obtain ⟨S', hS', rfl, hview⟩ := hM
    refine triple_pure ⟨S', hS', rfl, ?_⟩
    rw [PulseDB.storeDel, hfound.walk, hview]
    rfl

theorem triple_storeGrow (hS : S.WF) : triple (storeGrow s) (S.cells s) fun _ M' =>
    ∃ S' : StoreAt D, S'.WF ∧ M' = S'.cells s ∧ S'.view = PulseDB.storeGrow S.view := by
  have hpos := hS.size
  refine bind_getAs (a := S.record) S.mem_cells (bind_new fun nb => ?_)
  let size := S.chains.length * 2
  have hsize : 0 < size := by omega
  let chains := rehash (fun e : EntryAt D => indexSlot e.hash size) size S.chains
  have hlen : chains.length = size := length_rehash ..
  refine bind_call (M := entries.table Object.slots S.buckets S.chains + entries.table Object.slots nb
    (List.replicate size []))
    (F := cell s (.store S.record)) ?_ (triple_moveTable entries (fun e => indexSlot e.hash size) slotArray_of
      (fun e _ l => rfl) fun e _ => ?_) fun _ M' hM => ?_
  · rw [entries.table_replicate, StoreAt.cells]
    simp only [StoreAt.record, size]
    ac_rfl
  · rw [List.length_replicate]
    exact indexSlot_lt _ hsize
  · refine bind_release (b := .slots (S.chains.map (entries (D := D)).head))
      (N := cell s (.store S.record) + entries.table Object.slots nb chains) ?_ (triple_save rfl ?_)
    · rw [hM]
      simp only [chains, rehash, StoreAt.record]
      ac_rfl
    · refine ⟨⟨nb, chains, S.count⟩, ⟨hsize.trans_eq hlen.symm, fun e he => ?_⟩, ?_, ?_⟩
      · exact hS.entries e ((rehash_perm _ _ _ fun e _ => indexSlot_lt _ hsize).mem_iff.mp he)
      · rw [StoreAt.cells]
        simp only [StoreAt.record, hlen, size]
      · simp only [StoreAt.view, hlen, PulseDB.storeGrow, ← rehash_map EntryAt.view]
        rfl

/-- The table that a new entry is linked into. -/
def grown (store : Store D) : Store D := if store.count ≥ store.size then PulseDB.storeGrow store else store

theorem triple_storeReserve (hS : S.WF) : triple (storeReserve s) (S.cells s) fun _ M' =>
    ∃ S' : StoreAt D, S'.WF ∧ M' = S'.cells s ∧ S'.view = grown S.view := by
  refine bind_getAs (a := S.record) S.mem_cells ?_
  rw [grown]
  by_cases hfull : S.count ≥ S.chains.length
  · rw [if_pos (show S.record.count ≥ S.record.size from hfull),
      if_pos (show S.view.count ≥ S.view.size from hfull)]
    exact triple_storeGrow hS
  · rw [if_neg (show ¬ S.record.count ≥ S.record.size from hfull),
      if_neg (show ¬ S.view.count ≥ S.view.size from hfull)]
    exact triple_pure ⟨S, hS, rfl, rfl⟩

/-- A new entry without a value, in whose place an entry with a value can be put. -/
theorem triple_createEntry (hS : S.WF) (type : StoreType) :
    triple (createEntry s key type) (S.cells s) fun addr M' => ∃ keyPtr l R,
      M' = entries.node ⟨addr, keyPtr, key, hash64 key, type, 0, none⟩ l + R ∧
      ∀ e : EntryAt D, e.addr = addr → e.WF → e.key = key → e.hash = hash64 key →
        ∃ S' : StoreAt D, S'.WF ∧ S'.cells s = entries.node e l + R ∧
          S'.view = PulseDB.createEntry S.view key e.view.value e.expiresAt := by
  refine triple_bind (triple_storeReserve hS) fun _ M' hM => ?_
  obtain ⟨T, hT, rfl, hview⟩ := hM
  refine bind_new fun keyPtr => bind_new fun addr => ?_
  have hi := hT.slot_lt key
  let e₀ : EntryAt D := ⟨addr, keyPtr, key, hash64 key, type, 0, none⟩
  obtain ⟨l, R, hplace⟩ := entries.exists_link_rest Object.slots T.buckets hi addr
  -- the table with an entry in front of the chain of its key
  let pushed : EntryAt D → StoreAt D := fun e => ⟨T.buckets, link T.chains (T.slot key) e, T.count + 1⟩
  have hcells : ∀ e, e.addr = addr → (pushed e).cells s =
      entries.node e l + (cell s (.store { T.record with count := T.count + 1 }) + R) := fun e he => by
    rw [StoreAt.cells, hplace e he]
    simp only [StoreAt.record, pushed, length_link]
    ac_rfl
  refine bind_getAs (b := .store T.record) (a := T.record) (by simp [StoreAt.cells]) ?_
  refine triple_then (triple_pushSlot entries e₀ slotArray_of hi (l := none)
    (N := cell s (.store T.record)) ?_) ?_
  · rw [StoreAt.cells, entries_node, Option.elim_none, add_zero]
    simp only [e₀, EntryAt.record, Option.map_none]
    ac_rfl
  · have hnew : entries.table Object.slots T.record.buckets
      (link T.chains (indexSlot (hash64 key) T.record.size) e₀) =
        entries.node e₀ l + R := hplace e₀ rfl
    refine bind_save (b := .store T.record) (N := entries.node e₀ l + R) (by rw [hnew]; ac_rfl)
      (triple_pure ?_)
    refine ⟨keyPtr, l, cell s (.store { T.record with count := T.count + 1 }) + R, by ac_rfl,
      fun e haddr hwf hkey hhash => ?_⟩
    refine ⟨pushed e, ⟨?_, fun x hx => ?_⟩, hcells e haddr, ?_⟩
    · rw [length_link]
      exact hT.size
    · rcases List.mem_cons.mp ((link_perm hi e).mem_iff.mp hx) with rfl | hold
      · exact hwf
      · exact hT.entries x hold
    · have hentry : e.view = ⟨key, hash64 key, e.view.value, e.expiresAt⟩ := by
        rw [← hhash, ← hkey]
        rfl
      have hcreate : ∀ (v : Value D) (at' : Int), PulseDB.createEntry S.view key v at' = { grown S.view with
          buckets := link (grown S.view).buckets ((grown S.view).slot key) ⟨key, hash64 key, v, at'⟩
          count := (grown S.view).count + 1 } := fun _ _ => rfl
      rw [hcreate, ← hentry, ← hview]
      simp only [StoreAt.view, pushed, link_map, length_link]
      rfl

end Table

/-! ## The life of a store -/

theorem triple_storeCreate : triple (storeCreate (D := D)) 0 fun s M' =>
    ∃ S : StoreAt D, S.WF ∧ M' = S.cells s ∧ S.view = PulseDB.storeCreate := by
  refine bind_new fun buckets => ?_
  refine triple_mono triple_new fun s M' hM => ⟨⟨buckets, List.replicate storeInitialBuckets [], 0⟩,
    ⟨?_, ?_⟩, ?_, ?_⟩
  · exact (Nat.zero_lt_succ 15).trans_eq List.length_replicate.symm
  · intro e he
    simp at he
  · rw [hM, StoreAt.cells, entries.table_replicate, add_zero, StoreAt.record, List.length_replicate]
  · simp [StoreAt.view, PulseDB.storeCreate]

section Destroy
variable {S : StoreAt D} {s : ℕ} {N : Multiset (ℕ × Object D)}

theorem triple_freeEntries {es : List (EntryAt D)} (hes : ∀ e ∈ es, e.WF) :
    triple (chase (γ := Empty) (fun e _ => do
      let entry ← getAs Object.asEntry e
      entryFree e
      return .inr (entry.next, ())) (entries.head es) ()) (entries.seg es none + N) fun _ M' => M' = N := by
  let I : List (EntryAt D) → Unit → Multiset (ℕ × Object D) → Prop := fun rest _ M =>
    M = entries.seg rest none + N ∧ ∀ e ∈ rest, e.WF
  refine triple_chase I ⟨rfl, hes⟩ ?_ ?_ fun _ M hM => by rw [hM.1, Layout.seg_nil, zero_add]
  · rw [Multiset.map_add]
    exact (entries.addr_le_seg es none).trans (Multiset.le_add_right _ _)
  · rintro e rest - M ⟨rfl, hwf⟩
    obtain ⟨he, hrest⟩ := List.forall_mem_cons.mp hwf
    rw [Layout.seg_cons, add_assoc]
    refine bind_getAs (a := e.record (entries.head rest)) mem_node ?_
    exact triple_then (triple_entryFree he) (triple_pure (Or.inr ⟨(), rfl, rfl, hrest⟩))

theorem triple_storeDestroy (hS : S.WF) : triple (storeDestroy s) (S.cells s) fun _ M' => M' = 0 := by
  refine bind_getAs (a := S.record) S.mem_cells ?_
  -- the chains from `i` on are left
  let I : ℕ → Multiset (ℕ × Object D) → Prop :=
    fun i M => M = ((S.chains.drop i).map fun es => entries.seg es none).sum +
    (cell S.buckets (.slots (S.chains.map (entries (D := D)).head)) + cell s (.store S.record))
  have hstart : I 0 (S.cells s) := by
    simp only [I, StoreAt.cells, Layout.table, List.drop_zero]
    ac_rfl
  refine triple_bind (triple_forRange I hstart fun i M hi hM => ?_) fun _ M' hM => ?_
  · have hi' : i < S.chains.length := hi
    have hwf : ∀ e ∈ chain S.chains i, e.WF := fun e he => hS.entries e (mem_flatten_iff.mpr ⟨i, he⟩)
    have hslots : (S.buckets, Object.slots (S.chains.map (entries (D := D)).head)) ∈ M := by
      rw [show M = _ from hM]
      simp
    refine bind_getSlot slotArray_of hslots (getElem?_heads hi') ?_
    rw [hM, List.drop_eq_getElem_cons hi', List.map_cons, List.sum_cons, add_assoc, ← chain_eq hi']
    exact triple_bind (triple_freeEntries hwf) fun _ M' hM' => triple_pure hM'
  · refine bind_release (b := .slots (S.chains.map (entries (D := D)).head)) (N := cell s (.store S.record))
      (hM.trans ?_) (triple_release (add_zero _).symm rfl)
    rw [show S.record.size = S.chains.length from rfl, List.drop_length]
    simp [StoreAt.record]

end Destroy
end PulseDB.Raw
