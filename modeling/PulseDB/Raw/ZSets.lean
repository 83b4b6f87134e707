import Mathlib.Algebra.BigOperators.Group.List.Basic
import PulseDB.Raw.Lists
import PulseDB.Store.ZSet

/-!
# Sorted sets in memory

The array of a sorted set owns the texts of its members. The nodes of the index point at the same texts and do
not own them.

* `ZSetAt` : a sorted set with its array and its index; `ZSetAt.Shaped`, `ZSetAt.WF` : the array holds the
  members at its front, and every node of the index points at the text of a member;
* `triple_zsetLowerBound`, `triple_zindexFind` : the two searches; `IndexFound` : what the second one has
  found;
* `triple_zsetInsert`, `triple_zsetRemove`, `triple_zindexAdd` : the steps of an addition, between which the
  index points at a text that the array does not have;
* `triple_zsetAdd`, `triple_peekZset`, `triple_freeZset`.
-/

namespace PulseDB.Raw
open Lib Lib.Chains Lib.Prog Lib.SortedArray

variable {D : Type}

/-! ## Layout -/

/-- A pair of the array, with the text that it owns. -/
structure MemberAt (D : Type) where
  ptr : ℕ
  member : Bytes
  score : D

namespace MemberAt

def pair (m : MemberAt D) : Option (ℕ × D) := some (m.ptr, m.score)

def text (m : MemberAt D) : Multiset (ℕ × Object D) := cell m.ptr (.text m.member)

def view (m : MemberAt D) : ZSetEntry D := ⟨m.member, m.score⟩

end MemberAt

/-- A node of the index, with the text that it points at. -/
structure IndexAt (D : Type) where
  addr : ℕ
  ptr : ℕ
  member : Bytes
  hash : UInt64
  score : D

def IndexAt.view (n : IndexAt D) : ZIndexNode D := ⟨n.member, n.hash, n.score⟩

def IndexAt.record (n : IndexAt D) (l : Option ℕ) : ZIndexRec D := ⟨n.ptr, n.hash, n.score, l⟩

def indexNodes : Layout (zindexLink (D := D)) (IndexAt D) where
  addr := IndexAt.addr
  block n l := .zindexNode (n.record l)
  own _ := 0
  next_block _ _ := rfl
  relink_block _ _ _ := rfl

theorem indexNodes_node (n : IndexAt D) (l : Option ℕ) :
    indexNodes.node n l = cell n.addr (.zindexNode (n.record l)) :=
  add_zero _

theorem slotArray_of : (slotArray (D := D)).Of Object.slots := ⟨fun _ => rfl, fun _ _ => rfl⟩

/-- A sorted set with its array and its index. -/
structure ZSetAt (D : Type) where
  array : Option ℕ := none
  data : List (Option (ℕ × D)) := []
  ents : List (MemberAt D) := []
  index : Option ℕ := none
  chains : List (List (IndexAt D)) := []

namespace ZSetAt

def record (Z : ZSetAt D) : ZSetRec := ⟨Z.array, Z.ents.length, Z.data.length, Z.index, Z.chains.length⟩

def arrayCells (Z : ZSetAt D) : Multiset (ℕ × Object D) := Z.array.elim 0 fun a => cell a (.zentries Z.data)

def texts (Z : ZSetAt D) : Multiset (ℕ × Object D) := (Z.ents.map MemberAt.text).sum

def indexCells (Z : ZSetAt D) : Multiset (ℕ × Object D) :=
  Z.index.elim 0 fun t => indexNodes.table Object.slots t Z.chains

def cells (Z : ZSetAt D) (p : ℕ) : Multiset (ℕ × Object D) :=
  cell p (.zset Z.record) + (Z.arrayCells + Z.texts + Z.indexCells)

def view (Z : ZSetAt D) : ZSet D :=
  ⟨Z.ents.map MemberAt.view, Z.ents.length, Z.data.length, Z.chains.map (List.map IndexAt.view),
    Z.chains.length⟩

/-- The members are at the front of the array, and there are no cells and chains without memory. -/
structure Shaped (Z : ZSetAt D) : Prop where
  front : Z.data.take Z.ents.length = Z.ents.map MemberAt.pair
  noArray : Z.array = none → Z.data = []
  noIndex : Z.index = none → Z.chains = []

/-- The nodes of the index point at the texts of members. -/
structure WF (Z : ZSetAt D) : Prop extends Shaped Z where
  borrowed : ∀ n ∈ Z.chains.flatten, ∃ m ∈ Z.ents, m.ptr = n.ptr ∧ m.member = n.member

theorem wf_empty : ({} : ZSetAt D).WF := ⟨⟨rfl, fun _ => rfl, fun _ => rfl⟩, by simp⟩

section Shape
variable {Z : ZSetAt D} {p i : ℕ} {m : MemberAt D}

theorem mem_cells : (p, Object.zset Z.record) ∈ Z.cells p := by
  simp [cells]

theorem Shaped.length_le (hZ : Z.Shaped) : Z.ents.length ≤ Z.data.length := by
  have hlen := congrArg List.length hZ.front
  rw [List.length_take, List.length_map] at hlen
  omega

theorem Shaped.getElem? (hZ : Z.Shaped) (hi : Z.ents[i]? = some m) : Z.data[i]? = some m.pair := by
  obtain ⟨hlt, -⟩ := List.getElem?_eq_some_iff.mp hi
  rw [← List.getElem?_take_of_lt hlt, hZ.front, List.getElem?_map, hi]
  rfl

theorem Shaped.exists_array (hZ : Z.Shaped) (hdata : Z.data ≠ []) :
    ∃ a, Z.array = some a ∧ Z.arrayCells = cell a (.zentries Z.data) := by
  obtain ⟨a, ha⟩ := Option.ne_none_iff_exists'.mp fun hnone => hdata (hZ.noArray hnone)
  exact ⟨a, ha, by rw [arrayCells, ha]; rfl⟩

theorem Shaped.exists_index (hZ : Z.Shaped) (hchains : Z.chains.length ≠ 0) :
    ∃ t, Z.index = some t ∧ Z.indexCells = indexNodes.table Object.slots t Z.chains := by
  obtain ⟨t, ht⟩ := Option.ne_none_iff_exists'.mp fun hnone => hchains (by rw [hZ.noIndex hnone]; rfl)
  exact ⟨t, ht, by rw [indexCells, ht]; rfl⟩

theorem text_le_texts (hm : m ∈ Z.ents) : m.text ≤ Z.texts := by
  obtain ⟨as, bs, hsplit⟩ := List.append_of_mem hm
  rw [texts, hsplit, List.map_append, List.sum_append, List.map_cons, List.sum_cons]
  exact (Multiset.le_add_right _ _).trans (Multiset.le_add_left _ _)

theorem arrayCells_le : Z.arrayCells ≤ Z.cells p := by
  rw [cells, add_assoc]
  exact (Multiset.le_add_right _ _).trans (Multiset.le_add_left _ _)

theorem texts_le : Z.texts ≤ Z.cells p := by
  rw [cells, add_comm Z.arrayCells, add_assoc]
  exact (Multiset.le_add_right _ _).trans (Multiset.le_add_left _ _)

theorem indexCells_le : Z.indexCells ≤ Z.cells p :=
  (Multiset.le_add_left _ _).trans (Multiset.le_add_left _ _)

end Shape
end ZSetAt

/-! ## The binary search -/

theorem triple_lowerBoundLoop {below : ℕ → HeapProg (Object D) Bool} {b : ℕ → Bool}
    {W : Multiset (ℕ × Object D)}
    (rounds : ℕ) : ∀ {lo hi : ℕ}, (∀ mid, mid < hi → triple (below mid) W fun r M' => r = b mid ∧ M' = W) →
      triple (lowerBoundLoop below rounds lo hi) W fun r M' => r = lowerBound b rounds lo hi ∧ M' = W := by
  induction rounds with
  | zero => exact fun _ => triple_pure ⟨rfl, rfl⟩
  | succ rounds ih =>
    intro lo hi hbelow
    rw [lowerBoundLoop, lowerBound]
    by_cases hlt : lo < hi
    · rw [if_pos hlt, if_pos hlt]
      refine triple_bind (hbelow _ (by omega)) fun r M' hr => ?_
      obtain ⟨rfl, rfl⟩ := hr
      dsimp only
      split
      · exact ih hbelow
      · exact ih fun mid hmid => hbelow mid (by omega)
    · rw [if_neg hlt, if_neg hlt]
      exact triple_pure ⟨rfl, rfl⟩

section Array
variable {Z : ZSetAt D} {p i : ℕ} {m : MemberAt D} {W : Multiset (ℕ × Object D)}

theorem triple_entryAt (hZ : Z.Shaped) (hW : Z.arrayCells ≤ W) (hi : Z.ents[i]? = some m) :
    triple (entryAt Z.record i) W fun r M' => r = (m.ptr, m.score) ∧ M' = W := by
  have hdata := hZ.getElem? hi
  obtain ⟨a, ha, hcells⟩ := hZ.exists_array fun hnil => by simp [hnil] at hdata
  refine bind_demand ha (bind_getAs (b := .zentries Z.data) (a := Z.data)
    (Multiset.mem_of_le hW (by simp [hcells])) ?_)
  exact triple_demand (by rw [hdata]; rfl) ⟨rfl, rfl⟩

variable [LinearOrder D]

theorem triple_cmpAt {score : D} {member : Bytes} (hZ : Z.Shaped) (harray : Z.arrayCells ≤ W)
    (htexts : Z.texts ≤ W) (hi : Z.ents[i]? = some m) :
    triple (cmpAt Z.record score member i) W fun r M' => r = decide (0 < zsetCmp score member m.view) ∧
      M' = W := by
  refine triple_bind (triple_entryAt hZ harray hi) fun r M' hr => ?_
  obtain ⟨rfl, rfl⟩ := hr
  have htext := (ZSetAt.text_le_texts (List.mem_of_getElem? hi)).trans htexts
  refine bind_getAs (b := .text m.member) (a := m.member)
    (Multiset.mem_of_le htext (by simp [MemberAt.text])) ?_
  exact triple_pure ⟨rfl, rfl⟩

theorem triple_zsetLowerBound {score : D} {member : Bytes} (hZ : Z.Shaped) (harray : Z.arrayCells ≤ W)
    (htexts : Z.texts ≤ W) :
    triple (zsetLowerBound Z.record score member) W fun r M' =>
      r = PulseDB.zsetLowerBound Z.view score member ∧ M' = W := by
  refine triple_lowerBoundLoop _ fun mid hmid => ?_
  have hm : Z.ents[mid]? = some Z.ents[mid] := List.getElem?_eq_getElem hmid
  refine triple_mono (triple_cmpAt hZ harray htexts hm) fun r M' hr => ⟨?_, hr.2⟩
  simp [hr.1, ZSetAt.view, hm]

/-! ## The array -/

omit [LinearOrder D] in
theorem triple_readArray (hZ : Z.Shaped) (hW : Z.arrayCells ≤ W) :
    triple (match Z.record.entries with
      | some a => getAs Object.asZentries a
      | none => pure []) W fun r M' => r = Z.data ∧ M' = W := by
  cases harray : Z.array with
  | none =>
    simp only [ZSetAt.record, harray]
    exact triple_pure ⟨(hZ.noArray harray).symm, rfl⟩
  | some a =>
    simp only [ZSetAt.record, harray]
    refine triple_getAs (b := .zentries Z.data) (Multiset.mem_of_le hW ?_) rfl
    simp [ZSetAt.arrayCells, harray]

omit [LinearOrder D] in
theorem triple_zsetReserve (hZ : Z.Shaped) : triple (zsetReserve p) (Z.cells p) fun _ M' => ∃ a data,
    ZSetAt.Shaped { Z with array := some a, data := data } ∧ Z.ents.length < data.length ∧
    data.length = (if Z.ents.length = Z.data.length then (if Z.data.length ≠ 0 then Z.data.length * 2 else 8)
      else Z.data.length) ∧
    M' = ZSetAt.cells { Z with array := some a, data := data } p := by
  have hle := hZ.length_le
  refine bind_getAs (a := Z.record) Z.mem_cells ?_
  by_cases hfull : Z.ents.length = Z.data.length
  · rw [if_pos (show Z.record.len = Z.record.cap from hfull), if_pos hfull]
    refine triple_bind (triple_readArray hZ Z.arrayCells_le) fun r M' hr => ?_
    obtain ⟨rfl, rfl⟩ := hr
    generalize hnew : (if Z.record.cap ≠ 0 then Z.record.cap * 2 else 8) = cap
    have hcap : cap = if Z.data.length ≠ 0 then Z.data.length * 2 else 8 := hnew.symm
    have hroom : Z.data.length < cap := by
      rw [hcap]
      split <;> omega
    let data := resize Z.data cap fun _ => none
    have hdata : data.length = cap := length_resize ..
    refine bind_new fun a => ?_
    have hshaped : ZSetAt.Shaped { Z with array := some a, data := data } :=
      ⟨(take_resize _ hle hroom.le).trans hZ.front, fun hnone => absurd hnone (Option.some_ne_none a),
        hZ.noIndex⟩
    have hbefore : cell a (.zentries data) + Z.cells p =
        Z.arrayCells + (cell p (.zset Z.record) + (cell a (.zentries data) + Z.texts + Z.indexCells)) := by
      rw [ZSetAt.cells]
      ac_rfl
    rw [hbefore]
    refine triple_then (triple_xfree Z.array (.zentries Z.data)) (triple_save rfl ?_)
    refine ⟨a, data, hshaped, by omega, hdata.trans hcap, ?_⟩
    simp only [ZSetAt.cells, ZSetAt.record, hdata]
    rfl
  · rw [if_neg (show ¬ Z.record.len = Z.record.cap from hfull), if_neg hfull]
    obtain ⟨a, ha, -⟩ := hZ.exists_array fun hnil => hfull (by rw [hnil] at hle ⊢; simpa using hle)
    have hsame : { Z with array := some a } = Z := by rw [← ha]
    exact triple_pure ⟨a, Z.data, by rw [hsame]; exact hZ, by omega, rfl, by rw [hsame]⟩

omit [LinearOrder D] in
theorem triple_moveCells {a dst src n : ℕ} {data data' moved : List (Option (ℕ × D))}
    {N : Multiset (ℕ × Object D)}
    (hslice : slice data src n = some moved) (hcopy : copyTo data dst moved = some data') :
    triple (moveCells a dst src n) (cell a (.zentries data) + N) fun _ M' =>
      M' = cell a (.zentries data') + N := by
  refine bind_getAs (b := .zentries data) (a := data) (by simp) ?_
  exact bind_demand hslice (bind_demand hcopy (triple_save rfl rfl))

omit [LinearOrder D] in
theorem triple_setCell {a : ℕ} {x : ℕ × D} {data data' : List (Option (ℕ × D))} {N : Multiset (ℕ × Object D)}
    (hcopy : copyTo data i [some x] = some data') :
    triple (setCell a i x) (cell a (.zentries data) + N) fun _ M' => M' = cell a (.zentries data') + N := by
  refine bind_getAs (b := .zentries data) (a := data) (by simp) ?_
  exact bind_demand hcopy (triple_save rfl rfl)

def ZSetAt.insert (Z : ZSetAt D) (a : ℕ) (data : List (Option (ℕ × D))) (m : MemberAt D) : ZSetAt D :=
  { Z with
    array := some a
    data := data
    ents := insertAt Z.ents (PulseDB.zsetLowerBound Z.view m.score m.member) m }

theorem ZSetAt.texts_insert (Z : ZSetAt D) (a : ℕ) (data : List (Option (ℕ × D))) (m : MemberAt D) :
    (Z.insert a data m).texts = m.text + Z.texts := by
  rw [texts, texts, insert, ((insertAt_perm _ _ m).map MemberAt.text).sum_eq, List.map_cons, List.sum_cons]

theorem zsetLowerBound_le {score : D} {member : Bytes} :
    PulseDB.zsetLowerBound Z.view score member ≤ Z.ents.length :=
  lowerBound_le _ _ (Nat.zero_le _)

theorem triple_zsetInsert (hZ : Z.Shaped) :
    triple (zsetInsert p m.score m.ptr) (m.text + Z.cells p) fun _ M' =>
      ∃ a data, (Z.insert a data m).Shaped ∧
      (Z.insert a data m).view = PulseDB.zsetInsert Z.view m.score m.member ∧
      M' = (Z.insert a data m).cells p := by
  refine bind_call (add_comm _ _) (triple_zsetReserve hZ) fun _ M' hM => ?_
  obtain ⟨a, data, hshaped, hroom, hcap, rfl⟩ := hM
  let Z₁ : ZSetAt D := { Z with array := some a, data := data }
  have harray : Z₁.arrayCells ≤ Z₁.cells p + m.text := Z₁.arrayCells_le.trans (Multiset.le_add_right _ _)
  have htexts : Z₁.texts ≤ Z₁.cells p + m.text := Z₁.texts_le.trans (Multiset.le_add_right _ _)
  refine bind_getAs (b := .zset Z₁.record) (a := Z₁.record) (Multiset.mem_add.mpr (Or.inl Z₁.mem_cells)) ?_
  refine bind_getAs (b := .text m.member) (a := m.member) (by simp [MemberAt.text]) ?_
  refine triple_bind (triple_zsetLowerBound hshaped harray htexts) fun lo M' hlo => ?_
  obtain ⟨hlo, rfl⟩ := hlo
  have hle : lo ≤ Z.ents.length := by
    rw [hlo]
    exact zsetLowerBound_le
  have hlo' : lo = PulseDB.zsetLowerBound Z.view m.score m.member := hlo
  obtain ⟨moved, data₁, data₂, hslice, hcopy₁, hcopy₂, hlen, htake⟩ := exists_insert_cells m.pair hle hroom
  have hents : (Z.insert a data₂ m).ents.length = Z.ents.length + 1 := length_insertAt zsetLowerBound_le m
  refine bind_demand (a := a) rfl ?_
  have hbefore : Z₁.cells p + m.text =
      cell a (.zentries data) + (cell p (.zset Z₁.record) + (Z₁.texts + Z₁.indexCells + m.text)) := by
    rw [ZSetAt.cells]
    simp only [ZSetAt.arrayCells]
    ac_rfl
  rw [hbefore]
  refine triple_then (triple_moveCells hslice hcopy₁) (triple_then (triple_setCell hcopy₂) ?_)
  refine triple_save (b := .zset Z₁.record)
    (N := cell a (.zentries data₂) + (Z₁.texts + Z₁.indexCells + m.text)) (by ac_rfl) ?_
  refine ⟨a, data₂, ⟨?_, fun hnone => absurd hnone (Option.some_ne_none a), hZ.noIndex⟩, ?_, ?_⟩
  · rw [hents]
    show data₂.take _ = (insertAt _ _ _).map _
    rw [htake, hshaped.front, hlo', map_insertAt]
    rfl
  · simp only [ZSetAt.view, PulseDB.zsetInsert, hents]
    simp only [ZSetAt.insert, map_insertAt, hlen, hcap]
    rfl
  · have hrecord : (Z.insert a data₂ m).record = { Z₁.record with len := Z.ents.length + 1 } := by
      simp only [ZSetAt.record, hents]
      simp only [ZSetAt.insert, hlen, Z₁]
    rw [ZSetAt.cells, hrecord, ZSetAt.texts_insert]
    show _ = cell p _ + (cell a (.zentries data₂) + (m.text + Z₁.texts) + Z₁.indexCells)
    simp only [Z₁, ZSetAt.record]
    ac_rfl

omit [LinearOrder D] in
theorem triple_zsetRemove (hZ : Z.Shaped) (hi : Z.ents[i]? = some m) :
    triple (zsetRemove p i) (Z.cells p) fun r M' => r = m.ptr ∧ ∃ data,
      ZSetAt.Shaped { Z with data := data, ents := Z.ents.eraseIdx i } ∧ data.length = Z.data.length ∧
      M' = m.text + ZSetAt.cells { Z with data := data, ents := Z.ents.eraseIdx i } p := by
  obtain ⟨hlt, -⟩ := List.getElem?_eq_some_iff.mp hi
  have hle := hZ.length_le
  obtain ⟨a, ha, harray⟩ := hZ.exists_array fun hnil => by
    rw [hnil, List.length_nil] at hle
    omega
  obtain ⟨moved, data, hslice, hcopy, hlen, htake⟩ := exists_remove_cells hlt hle
  have hents : (Z.ents.eraseIdx i).length = Z.ents.length - 1 := List.length_eraseIdx_of_lt hlt
  refine bind_getAs (a := Z.record) Z.mem_cells (triple_bind (triple_entryAt hZ Z.arrayCells_le hi)
    fun r M' hr => ?_)
  obtain ⟨rfl, rfl⟩ := hr
  refine bind_demand ha ?_
  have hbefore : Z.cells p = cell a (.zentries Z.data) +
      (cell p (.zset Z.record) + (Z.texts + Z.indexCells)) := by
    rw [ZSetAt.cells, harray]
    ac_rfl
  rw [hbefore]
  refine triple_then (triple_moveCells hslice hcopy) ?_
  refine bind_save (b := .zset Z.record) (N := cell a (.zentries data) + (Z.texts + Z.indexCells)) (by ac_rfl)
    (triple_pure ⟨rfl, data, ⟨?_, fun hnone => ?_, hZ.noIndex⟩, hlen, ?_⟩)
  · show data.take (Z.ents.eraseIdx i).length = _
    rw [hents, htake, hZ.front, List.eraseIdx_map]
  · have hnone' : Z.array = none := hnone
    rw [ha] at hnone'
    cases hnone'
  · have htexts : Z.texts = m.text + ((Z.ents.eraseIdx i).map MemberAt.text).sum := by
      rw [ZSetAt.texts, ((eraseIdx_perm hi).map MemberAt.text).sum_eq, List.map_cons, List.sum_cons]
    have hrecord : ZSetAt.record { Z with data := data, ents := Z.ents.eraseIdx i } =
        { Z.record with len := Z.record.len - 1 } := by
      simp only [ZSetAt.record, hents, hlen]
    rw [ZSetAt.cells, hrecord, htexts]
    simp only [ZSetAt.arrayCells, ZSetAt.texts, ZSetAt.indexCells, ha, Option.elim_some]
    ac_rfl

end Array

/-! ## The index -/

section Index
variable {Z : ZSetAt D} {p : ℕ} {member : Bytes} {h : UInt64} {W : Multiset (ℕ × Object D)}

/-- The node `n` is the first one of its chain that the walk for a member stops at. -/
structure IndexFound (Z : ZSetAt D) (member : Bytes) (h : UInt64) (xs : List (IndexAt D)) (n : IndexAt D)
    (ys : List (IndexAt D)) :
    Prop where
  lt : indexSlot h Z.chains.length < Z.chains.length
  split : chain Z.chains (indexSlot h Z.chains.length) = xs ++ n :: ys
  before : ∀ x ∈ xs, (ZIndexNode.named member h ∘ IndexAt.view) x = false
  named : (ZIndexNode.named member h ∘ IndexAt.view) n = true

/-- The set with another score in the index node of a member. -/
def ZSetAt.setScore (Z : ZSetAt D) (member : Bytes) (h : UInt64) (score : D) : ZSetAt D :=
  { Z with
    chains := amend Z.chains (indexSlot h Z.chains.length) (ZIndexNode.named member h ∘ IndexAt.view)
      fun n => { n with score := score } }

namespace IndexFound
variable {xs ys : List (IndexAt D)} {n : IndexAt D} {score : D}

theorem find?_eq (hf : IndexFound Z member h xs n ys) :
    (chain Z.chains (indexSlot h Z.chains.length)).find? (ZIndexNode.named member h ∘ IndexAt.view) =
      some n := by
  rw [hf.split, find?_split hf.before hf.named]

theorem zindexFind_eq (hf : IndexFound Z member h xs n ys) :
    PulseDB.zindexFind Z.view member h = some n.view := by
  rw [PulseDB.zindexFind, if_neg (show ¬ Z.view.indexSize = 0 from Nat.ne_of_gt (Nat.zero_lt_of_lt hf.lt))]
  simp only [ZSetAt.view, chain_map, List.find?_map, hf.find?_eq, Option.map_some]

/-- The node within the index, in whose place it can be put with another score. -/
theorem exists_rest (hZ : Z.Shaped) (hf : IndexFound Z member h xs n ys) :
    ∃ R, Z.indexCells = cell n.addr (.zindexNode (n.record ((indexNodes (D := D)).head ys))) + R ∧
      ∀ score, (Z.setScore member h score).indexCells =
        cell n.addr (.zindexNode { n.record ((indexNodes (D := D)).head ys) with score := score }) + R := by
  obtain ⟨t, ht, hindex⟩ := hZ.exists_index (Nat.ne_of_gt (Nat.zero_lt_of_lt hf.lt))
  obtain ⟨R, htable, hamend⟩ := indexNodes.exists_node_rest Object.slots t hf.lt hf.split hf.before hf.named
  refine ⟨R, ?_, fun score => ?_⟩
  · rw [hindex, htable, indexNodes_node]
  · rw [ZSetAt.indexCells, show (Z.setScore member h score).index = some t from ht, Option.elim_some]
    exact hamend (fun n => { n with score := score }) rfl

theorem mem_indexCells (hZ : Z.Shaped) (hf : IndexFound Z member h xs n ys) :
    (n.addr, Object.zindexNode (n.record ((indexNodes (D := D)).head ys))) ∈ Z.indexCells := by
  obtain ⟨R, hcells, -⟩ := hf.exists_rest hZ
  simp [hcells]

theorem shaped_setScore (hZ : Z.Shaped) (hf : IndexFound Z member h xs n ys) :
    (Z.setScore member h score).Shaped :=
  ⟨hZ.front, hZ.noArray, fun hnone => absurd (hZ.noIndex hnone)
    (List.ne_nil_of_length_pos (Nat.zero_lt_of_lt hf.lt))⟩

theorem cells_setScore (p : ℕ) {R : Multiset (ℕ × Object D)}
    (hR : (Z.setScore member h score).indexCells = R) :
    (Z.setScore member h score).cells p = cell p (.zset Z.record) + (Z.arrayCells + Z.texts + R) := by
  have hrecord : (Z.setScore member h score).record = Z.record := by
    simp only [ZSetAt.record, ZSetAt.setScore, length_amend]
  rw [ZSetAt.cells, hrecord, hR]
  rfl

theorem view_setScore (hf : IndexFound Z member h xs n ys) : (Z.setScore member h score).view =
    { Z.view with
      index := amend Z.view.index (indexSlot h Z.view.indexSize) (ZIndexNode.named member h) fun n =>
        { n with score := score } } := by
  have hmap := amend_map IndexAt.view hf.find?_eq (f := fun n => { n with score := score })
    (g := fun n => { n with score := score }) rfl
  simp only [ZSetAt.view, ZSetAt.setScore, length_amend, hmap]

theorem exists_node (hf : IndexFound Z member h xs n ys) {n' : IndexAt D}
    (hn' : n' ∈ (Z.setScore member h score).chains.flatten) : ∃ n₀ ∈ Z.chains.flatten, n₀.ptr = n'.ptr ∧
      n₀.member = n'.member := by
  rcases List.mem_cons.mp ((amend_perm _ hf.lt hf.find?_eq).mem_iff.mp hn') with rfl | hrest
  · exact ⟨n, (unlink_perm hf.lt hf.find?_eq).mem_iff.mpr List.mem_cons_self, rfl, rfl⟩
  · exact ⟨n', (unlink_perm hf.lt hf.find?_eq).mem_iff.mpr (List.mem_cons_of_mem n hrest), rfl, rfl⟩

end IndexFound

theorem triple_zindexFind (hZ : Z.WF) (hW : Z.cells p ≤ W) :
    triple (zindexFind Z.record member h) W fun r M' => M' = W ∧
      ((r = none ∧ PulseDB.zindexFind Z.view member h = none) ∨
      ∃ xs n ys, IndexFound Z member h xs n ys ∧ r = some n.addr) := by
  rw [zindexFind]
  by_cases hsize : Z.chains.length = 0
  · rw [if_pos (show Z.record.indexSize = 0 from hsize)]
    exact triple_pure ⟨rfl, Or.inl ⟨rfl, if_pos hsize⟩⟩
  · rw [if_neg (show ¬ Z.record.indexSize = 0 from hsize)]
    obtain ⟨t, ht, hcells⟩ := hZ.exists_index hsize
    have hi : indexSlot h Z.chains.length < Z.chains.length := indexSlot_lt _ (Nat.pos_of_ne_zero hsize)
    have hmem : chain Z.chains (indexSlot h Z.chains.length) ∈ Z.chains := by
      rw [chain_eq hi]
      exact List.getElem_mem hi
    have htable : indexNodes.table Object.slots t Z.chains ≤ W := hcells ▸ Z.indexCells_le.trans hW
    have hseg := (indexNodes.seg_le_table Object.slots t hmem).trans htable
    have hslots : (t, Object.slots (Z.chains.map (indexNodes (D := D)).head)) ∈ W :=
      Multiset.mem_of_le htable (by simp [Layout.table])
    refine bind_demand ht (triple_bind
      (triple_search indexNodes (ZIndexNode.named member h ∘ IndexAt.view) slotArray_of hslots
      (getElem?_heads hi) hseg fun n hn l => ?_) fun r M' hr => ?_)
    · refine bind_demand (a := n.record l) rfl ?_
      by_cases hhash : n.hash = h
      · obtain ⟨m, hm, hptr, hmember⟩ := hZ.borrowed n (mem_flatten_iff.mpr ⟨_, hn⟩)
        have htext := (ZSetAt.text_le_texts hm).trans (Z.texts_le.trans hW)
        rw [if_pos (by simp [IndexAt.record, hhash])]
        refine bind_getAs (b := .text n.member) (a := n.member) (Multiset.mem_of_le htext ?_)
          (triple_pure ⟨?_, rfl⟩)
        · simp [MemberAt.text, IndexAt.record, hptr, hmember]
        · simp [ZIndexNode.named, IndexAt.view, hhash]
      · rw [if_neg (by simp [IndexAt.record, hhash])]
        exact triple_pure ⟨by simp [ZIndexNode.named, IndexAt.view, hhash], rfl⟩
    · obtain ⟨rfl, ⟨rfl, hnone⟩ | ⟨xs, n, ys, hsplit, hxs, hn, rfl⟩⟩ := hr
      · refine triple_pure ⟨rfl, Or.inl ⟨rfl, ?_⟩⟩
        rw [PulseDB.zindexFind, if_neg (show ¬ Z.view.indexSize = 0 from hsize)]
        simp only [ZSetAt.view, chain_map, List.find?_map, Option.map_eq_none_iff, List.find?_eq_none]
        intro n hn
        rw [hnone n hn]
        exact Bool.false_ne_true
      · exact triple_pure ⟨rfl, Or.inr ⟨xs, n, ys, ⟨hi, hsplit, hxs, hn⟩, rfl⟩⟩

/-- The nodes of the index are moved to a new array. The old one is left, if there was one. -/
theorem triple_moveIndex (hZ : Z.Shaped) {nb size : ℕ} (hsize : 0 < size) (N : Multiset (ℕ × Object D)) :
    triple (moveIndex Z.record nb size) (Z.indexCells + (cell nb (.slots (List.replicate size none)) + N))
      fun _ M' =>
      M' = Z.index.elim 0 (fun t => cell t (.slots (Z.chains.map (indexNodes (D := D)).head))) +
          (indexNodes.table Object.slots nb (rehash (fun n : IndexAt D => indexSlot n.hash size) size
            Z.chains) + N) := by
  rw [← indexNodes.table_replicate Object.slots nb size]
  cases hindex : Z.index with
  | none =>
    simp only [moveIndex, ZSetAt.record, ZSetAt.indexCells, hindex, hZ.noIndex hindex]
    exact triple_pure rfl
  | some t =>
    simp only [moveIndex, ZSetAt.record, ZSetAt.indexCells, hindex, Option.elim_some]
    refine triple_call (F := N) (add_assoc _ _ _).symm
      (triple_moveTable indexNodes (fun n => indexSlot n.hash size) slotArray_of
      (fun n _ l => rfl) fun n _ => ?_) fun _ M' hM => ?_
    · rw [List.length_replicate]
      exact indexSlot_lt _ hsize
    · rw [hM, add_assoc]
      rfl

theorem triple_zindexGrow (hZ : Z.Shaped) : triple (zindexGrow p) (Z.cells p) fun _ M' => ∃ t chains,
    ZSetAt.view { Z with index := some t, chains := chains } = PulseDB.zindexGrow Z.view ∧ chains.length ≠ 0 ∧
    (∀ n ∈ chains.flatten, n ∈ Z.chains.flatten) ∧
      M' = ZSetAt.cells { Z with index := some t, chains := chains } p := by
  refine bind_getAs (a := Z.record) Z.mem_cells ?_
  by_cases hfull : Z.ents.length ≥ Z.chains.length
  · rw [if_pos (show Z.record.len ≥ Z.record.indexSize from hfull)]
    generalize hnew : (if Z.record.indexSize ≠ 0 then Z.record.indexSize * 2 else 8) = size
    have hsize : size = if Z.chains.length ≠ 0 then Z.chains.length * 2 else 8 := hnew.symm
    have hpos : 0 < size := by
      rw [hsize]
      split <;> omega
    let chains := rehash (fun n : IndexAt D => indexSlot n.hash size) size Z.chains
    have hlen : chains.length = size := length_rehash ..
    refine bind_new fun nb => ?_
    have hbefore : cell nb (.slots (List.replicate size none)) + Z.cells p = Z.indexCells +
        (cell nb (.slots (List.replicate size none)) +
          (cell p (.zset Z.record) + (Z.arrayCells + Z.texts))) := by
      rw [ZSetAt.cells]
      ac_rfl
    rw [hbefore]
    refine triple_then (triple_moveIndex hZ hpos _) ?_
    refine triple_then (triple_xfree Z.index (.slots (Z.chains.map (indexNodes (D := D)).head))) ?_
    refine triple_save (b := .zset Z.record) (N := indexNodes.table Object.slots nb chains +
      (Z.arrayCells + Z.texts)) (by ac_rfl) ⟨nb, chains, ?_, by omega, fun n hn => ?_, ?_⟩
    · have hgrow : PulseDB.zindexGrow Z.view =
          { Z.view with
            index := rehash (fun n => indexSlot n.hash size) size Z.view.index, indexSize := size } := by
        rw [hsize]
        exact if_pos hfull
      rw [hgrow]
      simp only [ZSetAt.view, hlen, ← rehash_map IndexAt.view]
      rfl
    · exact (rehash_perm _ _ _ fun n _ => indexSlot_lt _ hpos).mem_iff.mp hn
    · simp only [ZSetAt.cells, ZSetAt.record, hlen, ZSetAt.indexCells, Option.elim_some]
      simp only [ZSetAt.arrayCells, ZSetAt.texts]
      ac_rfl
  · rw [if_neg (show ¬ Z.record.len ≥ Z.record.indexSize from hfull)]
    have hne : Z.chains.length ≠ 0 := by omega
    obtain ⟨t, ht, -⟩ := hZ.exists_index hne
    have hsame : { Z with index := some t } = Z := by rw [← ht]
    refine triple_pure ⟨t, Z.chains, ?_, hne, fun n hn => hn, by rw [hsame]⟩
    rw [hsame, PulseDB.zindexGrow, if_neg (show ¬ Z.view.len ≥ Z.view.indexSize from hfull)]

/-- The set with one more node in its index. -/
def ZSetAt.addNode (Z : ZSetAt D) (t : ℕ) (chains : List (List (IndexAt D))) (n : IndexAt D) : ZSetAt D :=
  { Z with index := some t, chains := link chains (indexSlot n.hash chains.length) n }

theorem triple_zindexAdd (hZ : Z.Shaped) (ptr : ℕ) (member : Bytes) (h : UInt64) (score : D) :
    triple (zindexAdd p ptr h score) (Z.cells p) fun _ M' => ∃ t chains n,
      (Z.addNode t chains n).view = PulseDB.zindexAdd Z.view member h score ∧
      (∀ n' ∈ (Z.addNode t chains n).chains.flatten, n' = n ∨ n' ∈ Z.chains.flatten) ∧ n.ptr = ptr ∧
        n.member = member ∧
      M' = (Z.addNode t chains n).cells p := by
  refine triple_bind (triple_zindexGrow hZ) fun _ M' hM => ?_
  obtain ⟨t, chains, hview, hne, hsub, rfl⟩ := hM
  let Z₁ : ZSetAt D := { Z with index := some t, chains := chains }
  have hi : indexSlot h chains.length < chains.length := indexSlot_lt _ (Nat.pos_of_ne_zero hne)
  refine bind_getAs (a := Z₁.record) Z₁.mem_cells (bind_new fun addr => bind_demand (a := t) rfl ?_)
  let n : IndexAt D := ⟨addr, ptr, member, h, score⟩
  refine triple_end (triple_pushSlot indexNodes n slotArray_of hi (l := none)
    (N := cell p (.zset Z₁.record) + (Z₁.arrayCells + Z₁.texts)) ?_) ⟨t, chains, n, ?_, fun n' hn' => ?_,
      rfl, rfl, ?_⟩
  · rw [ZSetAt.cells, indexNodes_node]
    simp only [ZSetAt.indexCells, Option.elim_some, n, IndexAt.record, Z₁]
    ac_rfl
  · rw [PulseDB.zindexAdd, ← hview]
    simp only [ZSetAt.view, ZSetAt.addNode, link_map, length_link]
    rfl
  · rcases List.mem_cons.mp ((link_perm hi n).mem_iff.mp hn') with rfl | hmem
    · exact Or.inl rfl
    · exact Or.inr (hsub n' hmem)
  · have hrecord : (Z.addNode t chains n).record = Z₁.record := by
      simp only [ZSetAt.record, ZSetAt.addNode, length_link, Z₁]
    rw [ZSetAt.cells, hrecord]
    simp only [ZSetAt.indexCells, ZSetAt.addNode, Option.elim_some, ZSetAt.arrayCells, ZSetAt.texts, Z₁, n]
    ac_rfl

end Index

/-! ## Additions -/

section Add
variable [LinearOrder D] {Z : ZSetAt D} {p : ℕ} {score : D} {member : Bytes}

/-- A new member: until the array has the text, only the index points at it. -/
theorem triple_addMember (hZ : Z.WF) (hnone : PulseDB.zindexFind Z.view member (hash64 member) = none) :
    triple (do
      let owned ← xstrdup member
      zindexAdd p owned (hash64 member) score
      zsetInsert p score owned
      return true) (Z.cells p) fun r M' =>
        ∃ Z' : ZSetAt D, Z'.WF ∧ M' = Z'.cells p ∧ Z.view.add score member = (r, Z'.view) := by
  refine bind_new fun owned => ?_
  refine bind_call (add_comm _ _) (triple_zindexAdd hZ.toShaped owned member (hash64 member) score)
    fun _ M' hM => ?_
  obtain ⟨t, chains, n, hview, hnodes, hptr, hmember, rfl⟩ := hM
  let Z₁ := Z.addNode t chains n
  have hshaped : Z₁.Shaped := ⟨hZ.front, hZ.noArray, fun hnone => absurd hnone (Option.some_ne_none t)⟩
  let m : MemberAt D := ⟨owned, member, score⟩
  rw [add_comm]
  refine triple_bind (triple_zsetInsert (m := m) hshaped) fun _ M' hM => ?_
  obtain ⟨a, data, hshaped', hview', rfl⟩ := hM
  refine triple_pure ⟨Z₁.insert a data m, ⟨hshaped', fun n' hn' => ?_⟩, rfl, ?_⟩
  · have hents : ∀ m', m' ∈ (Z₁.insert a data m).ents ↔ m' = m ∨ m' ∈ Z.ents := fun m' => by
      rw [← List.mem_cons]
      exact (insertAt_perm _ _ _).mem_iff
    rcases hnodes n' hn' with rfl | hold
    · exact ⟨m, (hents m).mpr (Or.inl rfl), hptr.symm, hmember.symm⟩
    · obtain ⟨m', hm', hsame⟩ := hZ.borrowed n' hold
      exact ⟨m', (hents m').mpr (Or.inr hm'), hsame⟩
  · rw [hview', hview, ZSet.add]
    simp only [hnone, m]

theorem triple_moveMember (hZ : Z.WF) (hinv : Z.view.Inv) {xs ys : List (IndexAt D)} {n : IndexAt D}
    (hf : IndexFound Z member (hash64 member) xs n ys) :
    triple (do
      let node ← getAs Object.asZindexNode n.addr
      if node.score = score then return false
      let i ← zsetLowerBound Z.record node.score member
      let owned ← zsetRemove p i
      zsetInsert p score owned
      save n.addr (.zindexNode { node with score := score })
      return false) (Z.cells p) fun r M' =>
        ∃ Z' : ZSetAt D, Z'.WF ∧ M' = Z'.cells p ∧ Z.view.add score member = (r, Z'.view) := by
  have hfind := hf.zindexFind_eq
  obtain ⟨hnode, hmember⟩ := hinv.zindexFind_eq_some.mp hfind
  let block := n.record ((indexNodes (D := D)).head ys)
  have hblock : (n.addr, Object.zindexNode block) ∈ Z.cells p :=
    Multiset.mem_of_le Z.indexCells_le (hf.mem_indexCells hZ.toShaped)
  refine bind_getAs (b := .zindexNode block) (a := block) hblock ?_
  by_cases hscore : n.score = score
  · rw [if_pos (show block.score = score from hscore)]
    refine triple_pure ⟨Z, hZ, rfl, ?_⟩
    rw [ZSet.add]
    simp only [hfind, show n.view.score = score from hscore, if_true]
  rw [if_neg (show ¬ block.score = score from hscore)]
  refine triple_bind (triple_zsetLowerBound hZ.toShaped Z.arrayCells_le Z.texts_le) fun i M' hlo => ?_
  obtain ⟨hlo, rfl⟩ := hlo
  -- the search for the old score ends at the pair of the member
  have hentry : Z.view.entries[i]? = some ⟨member, n.score⟩ := by
    have hmoved := (hinv.add_moved hnode score).1
    rw [hmember] at hmoved
    rw [hlo]
    exact hmoved
  obtain ⟨m, hm, hmview⟩ := Option.map_eq_some_iff.mp ((List.getElem?_map ..).symm.trans hentry)
  have hmmember : m.member = member := congrArg ZSetEntry.member hmview
  refine triple_bind (triple_zsetRemove hZ.toShaped hm) fun owned M' hM => ?_
  obtain ⟨rfl, data₁, hshaped₁, hlen₁, rfl⟩ := hM
  let Z₁ : ZSetAt D := { Z with data := data₁, ents := Z.ents.eraseIdx i }
  let m' : MemberAt D := { m with score := score }
  refine triple_bind (triple_zsetInsert (m := m') hshaped₁) fun _ M' hM => ?_
  obtain ⟨a, data₂, hshaped₂, hview₂, rfl⟩ := hM
  let Z₂ := Z₁.insert a data₂ m'
  have hf₂ : IndexFound Z₂ member (hash64 member) xs n ys := ⟨hf.lt, hf.split, hf.before, hf.named⟩
  obtain ⟨R, hindex, hamend⟩ := hf₂.exists_rest hshaped₂
  refine bind_save (b := .zindexNode block)
    (N := cell p (.zset Z₂.record) + (Z₂.arrayCells + Z₂.texts + R)) ?_
    (triple_pure ⟨Z₂.setScore member (hash64 member) score, ⟨hf₂.shaped_setScore hshaped₂, fun n' hn' => ?_⟩,
      ?_, ?_⟩)
  · rw [ZSetAt.cells, hindex]
    ac_rfl
  · -- the node keeps its text, and so does the pair
    obtain ⟨n₀, hn₀, hptr, hname⟩ := hf₂.exists_node hn'
    obtain ⟨m₀, hm₀, hptr₀, hname₀⟩ := hZ.borrowed n₀ hn₀
    have hents : ∀ m₁, m₁ = m' ∨ m₁ ∈ Z.ents.eraseIdx i → m₁ ∈ Z₂.ents := fun m₁ hm₁ =>
      (insertAt_perm _ _ _).mem_iff.mpr (List.mem_cons.mpr hm₁)
    rcases List.mem_cons.mp ((eraseIdx_perm hm).mem_iff.mp hm₀) with rfl | hrest
    · exact ⟨m', hents m' (Or.inl rfl), hptr₀.trans hptr, hname₀.trans hname⟩
    · exact ⟨m₀, hents m₀ (Or.inr hrest), hptr₀.trans hptr, hname₀.trans hname⟩
  · rw [IndexFound.cells_setScore p (hamend score)]
    ac_rfl
  · obtain ⟨hlt, -⟩ := List.getElem?_eq_some_iff.mp hm
    have hview₁ : Z₁.view = { Z.view with entries := Z.view.entries.eraseIdx i, len := Z.view.len - 1 } := by
      simp only [ZSetAt.view, Z₁, List.eraseIdx_map, List.length_eraseIdx_of_lt hlt, hlen₁]
    have howned : (Z.view.entries[i]?.map (·.member)).getD [] = m.member := by
      rw [hentry, hmmember]
      rfl
    rw [ZSet.add]
    simp only [hfind, show ¬ n.view.score = score from hscore, if_false]
    rw [show PulseDB.zsetLowerBound Z.view n.view.score member = i from hlo.symm, howned, ← hview₁,
      hf₂.view_setScore, hview₂]

theorem triple_zsetAdd (hZ : Z.WF) (hinv : Z.view.Inv) :
    triple (zsetAdd p score member) (Z.cells p) fun r M' =>
      ∃ Z' : ZSetAt D, Z'.WF ∧ M' = Z'.cells p ∧ Z.view.add score member = (r, Z'.view) := by
  refine bind_getAs (a := Z.record) Z.mem_cells
    (triple_bind (triple_zindexFind hZ (le_refl _)) fun r M' hr => ?_)
  obtain ⟨rfl, ⟨rfl, hnone⟩ | ⟨xs, n, ys, hf, rfl⟩⟩ := hr
  · exact triple_addMember hZ hnone
  · exact triple_moveMember hZ hinv hf

end Add

/-! ## Reading and freeing -/

section Whole
variable {Z : ZSetAt D} {p : ℕ} {W : Multiset (ℕ × Object D)}

theorem triple_peekCells : ∀ {ms : List (MemberAt D)}, (∀ m ∈ ms, m.text ≤ W) →
    triple (peekCells (ms.map MemberAt.pair)) W fun r M' => r = ms.map MemberAt.view ∧ M' = W := by
  intro ms
  induction ms with
  | nil => exact fun _ => triple_pure ⟨rfl, rfl⟩
  | cons m ms ih =>
    intro htexts
    obtain ⟨hm, hms⟩ := List.forall_mem_cons.mp htexts
    refine bind_demand (a := (m.ptr, m.score)) rfl (bind_getAs (b := .text m.member) (a := m.member) ?_ ?_)
    · exact Multiset.mem_of_le hm (by simp [MemberAt.text])
    · refine triple_bind (ih hms) fun r M' hr => ?_
      obtain ⟨rfl, rfl⟩ := hr
      exact triple_pure ⟨rfl, rfl⟩

theorem triple_readIndex (hZ : Z.Shaped) (hW : Z.indexCells ≤ W) :
    triple (match Z.record.index with
      | some t => getAs Object.asSlots t
      | none => pure []) W fun r M' => r = Z.chains.map (indexNodes (D := D)).head ∧ M' = W := by
  cases hindex : Z.index with
  | none =>
    simp only [ZSetAt.record, hindex]
    exact triple_pure ⟨by rw [hZ.noIndex hindex]; rfl, rfl⟩
  | some t =>
    simp only [ZSetAt.record, hindex]
    refine triple_getAs (b := .slots (Z.chains.map (indexNodes (D := D)).head)) (Multiset.mem_of_le hW ?_) rfl
    simp [ZSetAt.indexCells, hindex, Layout.table]

theorem triple_peekZset (hZ : Z.WF) (hW : Z.cells p ≤ W) :
    triple (peekZset p) W fun r M' => r = Z.view ∧ M' = W := by
  refine bind_getAs (a := Z.record) (Multiset.mem_of_le hW Z.mem_cells) ?_
  refine triple_bind (triple_readArray hZ.toShaped (Z.arrayCells_le.trans hW)) fun data M' hr => ?_
  obtain ⟨rfl, rfl⟩ := hr
  have hslice : slice Z.data 0 Z.record.len = some (Z.ents.map MemberAt.pair) := by
    rw [slice_eq (by rw [Nat.zero_add]; exact hZ.length_le), List.drop_zero]
    exact congrArg some hZ.front
  have htexts : ∀ m ∈ Z.ents, m.text ≤ M' := fun m hm => (ZSetAt.text_le_texts hm).trans (Z.texts_le.trans hW)
  refine bind_demand hslice (triple_bind (triple_peekCells htexts) fun entries M' hr => ?_)
  obtain ⟨rfl, rfl⟩ := hr
  refine triple_bind (triple_readIndex hZ.toShaped (Z.indexCells_le.trans hW)) fun slots M' hr => ?_
  obtain ⟨rfl, rfl⟩ := hr
  have hsegs : ∀ ns ∈ Z.chains, indexNodes.seg ns none ≤ M' := fun ns hns => by
    obtain ⟨t, -, hindex⟩ := hZ.exists_index (List.ne_nil_of_mem hns ∘ List.length_eq_zero_iff.mp)
    exact (indexNodes.seg_le_table Object.slots t hns).trans (hindex ▸ Z.indexCells_le.trans hW)
  refine triple_bind (triple_readChains indexNodes IndexAt.view hsegs fun n hn l => ?_) fun index M' hr => ?_
  · obtain ⟨m, hm, hptr, hmember⟩ := hZ.borrowed n hn
    refine bind_demand (a := n.record l) rfl (bind_getAs (b := .text n.member) (a := n.member) ?_
      (triple_pure ⟨rfl, rfl⟩))
    exact Multiset.mem_of_le (htexts m hm) (by simp [MemberAt.text, IndexAt.record, hptr, hmember])
  · obtain ⟨rfl, rfl⟩ := hr
    exact triple_pure ⟨rfl, rfl⟩

theorem triple_freeIndex (hZ : Z.Shaped) (N : Multiset (ℕ × Object D)) :
    triple (freeIndex Z.record) (Z.indexCells + N) fun _ M' => M' = N := by
  cases hindex : Z.index with
  | none =>
    simp only [freeIndex, ZSetAt.record, ZSetAt.indexCells, hindex, hZ.noIndex hindex]
    exact triple_pure (zero_add N)
  | some t =>
    simp only [freeIndex, ZSetAt.record, ZSetAt.indexCells, hindex]
    refine bind_call rfl (triple_freeTable indexNodes slotArray_of fun n _ l => triple_pure rfl)
      fun _ M' hM => ?_
    exact triple_release (by rw [hM]) rfl

theorem triple_freeMembers (hZ : Z.Shaped) (N : Multiset (ℕ × Object D)) :
    triple (freeMembers Z.record) (Z.arrayCells + Z.texts + N) fun _ M' => M' = N := by
  cases harray : Z.array with
  | none =>
    have hlen := hZ.length_le
    rw [hZ.noArray harray, List.length_nil, Nat.le_zero, List.length_eq_zero_iff] at hlen
    simp only [freeMembers, ZSetAt.record, ZSetAt.arrayCells, ZSetAt.texts, harray, hlen]
    exact triple_pure (by simp)
  | some a =>
    simp only [freeMembers, ZSetAt.record, ZSetAt.arrayCells, harray, Option.elim_some]
    refine bind_getAs (b := .zentries Z.data) (a := Z.data) (by simp) ?_
    -- the texts from `i` on are left
    let I : ℕ → Multiset (ℕ × Object D) → Prop := fun i M =>
      M = cell a (.zentries Z.data) + (((Z.ents.drop i).map MemberAt.text).sum + N)
    refine triple_bind (triple_forRange I (by simp [I, ZSetAt.texts, add_assoc]) fun i M hi hM => ?_)
      fun _ M' hM => ?_
    · have hm : Z.ents[i]? = some Z.ents[i] := List.getElem?_eq_getElem hi
      refine bind_demand (a := (Z.ents[i].ptr, Z.ents[i].score)) (by rw [hZ.getElem? hm]; rfl) ?_
      refine triple_release (b := .text Z.ents[i].member) ?_ (rfl : I (i + 1) _)
      rw [hM, List.drop_eq_getElem_cons hi, List.map_cons, List.sum_cons, MemberAt.text]
      ac_rfl
    · exact triple_release (b := .zentries Z.data) (hM.trans (by simp)) rfl

theorem triple_freeZset (hZ : Z.Shaped) : triple (freeZset p) (Z.cells p) fun _ M' => M' = 0 := by
  refine bind_getAs (a := Z.record) Z.mem_cells ?_
  have hbefore : Z.cells p = Z.indexCells + (Z.arrayCells + Z.texts + (cell p (.zset Z.record) + 0)) := by
    rw [ZSetAt.cells]
    ac_rfl
  rw [hbefore]
  exact triple_then (triple_freeIndex hZ _) (triple_then (triple_freeMembers hZ _) (triple_release rfl rfl))

end Whole
end PulseDB.Raw
