import PulseDB.Store.Valid
import Mathlib.Data.Finmap

/-!
# Hashes as finite maps

* `FieldMap` : a finite map from fields to values; `HashValue.fields`, `fieldMap` : the map that a table, or a
  key, holds;
* `FieldWrite`, `HashOp` : setting, deleting and reading a field, on the map and in the store;
* `Hashed.write` : a write does to the cell of a key what it does to the map;
* `hashCalls_run` : the same for any sequence of calls on a key.
-/

namespace PulseDB
open Lib.Chains

abbrev FieldMap := Finmap fun _ : Bytes => Bytes

/-! ## Tables -/

def HashValue.fields (hash : HashValue) : FieldMap :=
  (hash.buckets.flatten.map fun hf => (⟨hf.field, hf.value⟩ : Σ _ : Bytes, Bytes)).toFinmap

theorem HashValue.get_find (hash : HashValue) (field : Bytes) :
    hash.get field = (find HashValue.slot HashField.field hash.buckets field).map (·.value) := by
  rw [HashValue.get, HashField.named_fun]
  rfl

section Fields
variable {hash : HashValue} (h : hash.Inv)
include h

theorem HashValue.Inv.lookup_fields {field value : Bytes} :
    hash.fields.lookup field = some value ↔ (⟨field, value⟩ : HashField) ∈ hash.buckets.flatten := by
  have hnodup : (hash.buckets.flatten.map fun hf => (⟨hf.field, hf.value⟩ : Σ _ : Bytes,
      Bytes)).NodupKeys := by
    rw [List.NodupKeys, List.keys, List.map_map]
    exact h.keyed.nodup
  rw [HashValue.fields, Finmap.dlookup_list_toFinmap, ← Option.mem_def, List.mem_dlookup_iff hnodup,
    List.mem_map]
  constructor
  · rintro ⟨hf, hmem, heq⟩
    cases heq
    exact hmem
  · exact fun hmem => ⟨_, hmem, rfl⟩

theorem HashValue.Inv.get_eq (field : Bytes) : hash.get field = hash.fields.lookup field := by
  refine Option.ext fun value => ?_
  rw [h.lookup_fields, HashValue.get_find, Option.map_eq_some_iff]
  constructor
  · rintro ⟨hf, hfind, rfl⟩
    obtain ⟨hmem, rfl⟩ := h.keyed.find_eq_some.mp hfind
    exact hmem
  · exact fun hmem => ⟨_, h.keyed.find_eq_some.mpr ⟨hmem, rfl⟩, rfl⟩

theorem HashValue.Inv.card_keys : hash.fields.keys.card = hash.len := by
  have hkeys : hash.fields.keys = (hash.buckets.flatten.map HashField.field).toFinset := by
    refine Finset.ext fun field => ?_
    rw [Finmap.mem_keys, Finmap.mem_iff, List.mem_toFinset, List.mem_map]
    constructor
    · rintro ⟨value, hvalue⟩
      exact ⟨_, h.lookup_fields.mp hvalue, rfl⟩
    · rintro ⟨hf, hmem, rfl⟩
      exact ⟨hf.value, h.lookup_fields.mpr hmem⟩
  rw [hkeys, List.toFinset_card_of_nodup h.keyed.nodup, List.length_map, h.len]

theorem HashValue.Inv.fields_empty (hlen : hash.len = 0) : hash.fields = ∅ := by
  have hnil : hash.buckets.flatten = [] := List.eq_nil_of_length_eq_zero (h.len.symm.trans hlen)
  rw [HashValue.fields, hnil]
  rfl

theorem HashValue.Inv.get_set (field value : Bytes) : (hash.set field value).1 = (hash.get field).isNone ∧
    ∀ k, (hash.set field value).2.get k = if k = field then some value else hash.get k := by
  simp only [HashValue.get_find]
  unfold HashValue.set
  simp only
  rw [HashField.named_fun, find]
  cases hf : (chain hash.buckets (HashValue.slot field)).find? fun hf => decide (hf.field = field) with
  | none =>
    refine ⟨rfl, fun k => ?_⟩
    show (find _ _ (link hash.buckets _ (⟨field, value⟩ : HashField)) k).map _ = _
    rw [h.keyed.find_link ⟨field, value⟩ k, apply_ite (Option.map _)]
    simp only [eq_comm]
    rfl
  | some old =>
    refine ⟨rfl, fun k => ?_⟩
    have hamend := h.keyed.find_amend hf (f := fun hf => { hf with value := value }) (fun _ => rfl) k
    show (find _ _ (amend hash.buckets _ _ _) k).map _ = _
    rw [hamend, apply_ite (Option.map _)]
    rfl

theorem HashValue.Inv.get_del (field : Bytes) : (hash.del field).1 = (hash.get field).isSome ∧
    ∀ k, (hash.del field).2.get k = if k = field then none else hash.get k := by
  simp only [HashValue.get_find]
  unfold HashValue.del
  simp only
  rw [HashField.named_fun, find]
  cases hf : (chain hash.buckets (HashValue.slot field)).find? fun hf => decide (hf.field = field) with
  | none =>
    refine ⟨rfl, fun k => ?_⟩
    show (find _ _ hash.buckets k).map _ = _
    split
    · rename_i hk
      rw [hk, show find HashValue.slot HashField.field hash.buckets field = none from hf]
      rfl
    · rfl
  | some old =>
    refine ⟨rfl, fun k => ?_⟩
    show (find _ _ (unlink hash.buckets _ _) k).map _ = _
    rw [h.keyed.find_unlink hf k, apply_ite (Option.map _)]
    rfl

theorem HashValue.Inv.fields_set (field value : Bytes) :
    (hash.set field value).1 = (hash.fields.lookup field).isNone ∧
      (hash.set field value).2.fields = hash.fields.insert field value := by
  obtain ⟨hnew, hget⟩ := h.get_set field value
  refine ⟨by rw [hnew, h.get_eq], Finmap.ext_lookup fun k => ?_⟩
  rw [← (h.set field value).1.get_eq, hget]
  split
  · rename_i hk
    rw [hk, Finmap.lookup_insert]
  · rename_i hk
    rw [Finmap.lookup_insert_of_ne _ hk, h.get_eq]

theorem HashValue.Inv.fields_del (field : Bytes) :
    (hash.del field).1 = (hash.fields.lookup field).isSome ∧ (hash.del field).2.fields =
      hash.fields.erase field := by
  obtain ⟨hold, hget⟩ := h.get_del field
  refine ⟨by rw [hold, h.get_eq], Finmap.ext_lookup fun k => ?_⟩
  rw [← (h.del field).get_eq, hget]
  split
  · rename_i hk
    rw [hk, Finmap.lookup_erase]
  · rename_i hk
    rw [Finmap.lookup_erase_ne hk, h.get_eq]

end Fields

/-! ## Keys -/

variable {D : Type}

def fieldMap : Option (Cell D) → FieldMap
  | some ⟨.hash hash, _⟩ => hash.fields
  | _ => ∅

/-- Setting or deleting a field. -/
inductive FieldWrite where
  | set (field value : Bytes)
  | del (field : Bytes)

/-- The answer of a write, and the map after it. -/
def FieldWrite.run (m : FieldMap) : FieldWrite → Bool × FieldMap
  | .set field value => ((m.lookup field).isNone, m.insert field value)
  | .del field => ((m.lookup field).isSome, m.erase field)

def FieldWrite.op : FieldWrite → StoreOp D (Except StoreStatus Bool)
  | .set field value => .hashSet field value
  | .del field => .hashDel field

/-- A key that holds a hash in good order, or nothing. -/
structure Hashed [LinearOrder D] (o : Option (Cell D)) : Prop where
  inv : ∀ c ∈ o, c.Inv
  type : OfType .hash o

theorem Hashed.cases [LinearOrder D] {o : Option (Cell D)} (h : Hashed o) :
    o = none ∨ ∃ hash : HashValue, o = some ⟨.hash hash, 0⟩ ∧ hash.Inv ∧ hash.len ≠ 0 := by
  cases o with
  | none => exact Or.inl rfl
  | some c =>
    obtain ⟨hvalue, hexpiry⟩ := h.inv c rfl
    have htype := h.type c rfl
    obtain ⟨v, t⟩ := c
    cases v with
    | hash hash =>
      obtain rfl : t = 0 := hexpiry (by simp [Value.type])
      exact Or.inr ⟨hash, rfl, hvalue⟩
    | _ => cases htype

section Step
variable [LinearOrder D] {o : Option (Cell D)} (h : Hashed o)
include h

theorem Hashed.live (now : Int) : live now o = o := by
  rcases h.cases with rfl | ⟨hash, rfl, -⟩
  · rfl
  · exact live_eq_some.mpr ⟨rfl, fun hx => hx.1 rfl⟩

theorem Hashed.none_iff : o = none ↔ fieldMap o = ∅ := by
  rcases h.cases with rfl | ⟨hash, rfl, hinv, hlen⟩
  · exact iff_of_true rfl rfl
  · refine iff_of_false (nomatch ·) fun hempty => hlen ?_
    rw [← hinv.card_keys, show hash.fields = ∅ from hempty, Finmap.keys_empty, Finset.card_empty]

theorem Hashed.write (w : FieldWrite) (now' : Int) :
    (w.op.step now' o).1 = .ok (w.run (fieldMap o)).1 ∧ fieldMap (w.op.step now' o).2 =
      (w.run (fieldMap o)).2 ∧ Hashed (w.op.step now' o).2 := by
  have hw : (w.op : StoreOp D _).Writes .hash := by
    cases w with
    | set field value => exact hashSet_writes field value
    | del field => exact hashDel_writes field
  obtain ⟨b, hb⟩ := @StoreOp.Writes.ok D _ _ _ _ hw now' o h.type
  have hhashed : Hashed (w.op.step now' o).2 := ⟨w.op.step_inv now' h.inv, hw.typed hb⟩
  rw [← and_assoc]
  refine ⟨?_, hhashed⟩
  cases w with
  | set field value =>
    rcases h.cases with rfl | ⟨hash, rfl, hinv, -⟩
    · obtain ⟨hnew, hmap⟩ := HashValue.inv_empty.fields_set field value
      exact ⟨congrArg _ hnew, hmap⟩
    · obtain ⟨hnew, hmap⟩ := hinv.fields_set field value
      exact ⟨congrArg _ hnew, hmap⟩
  | del field =>
    rcases h.cases with rfl | ⟨hash, rfl, hinv, -⟩
    · exact ⟨rfl, rfl⟩
    · obtain ⟨hold, hmap⟩ := hinv.fields_del field
      refine ⟨congrArg _ hold, ?_⟩
      show fieldMap (Option.map _ (if (hash.del field).2.len = 0 then none else some (hash.del field).2)) = _
      rw [FieldWrite.run, show fieldMap (some (⟨.hash hash, 0⟩ : Cell D)) = hash.fields from rfl, ← hmap]
      split
      · rename_i hlen
        exact ((hinv.del field).fields_empty hlen).symm
      · rfl

theorem Hashed.read (field : Bytes) (now' : Int) : (StoreOp.hashGet (D := D) field).step now' o =
    (((fieldMap o).lookup field).elim (.error .notFound) .ok, o) := by
  rcases h.cases with rfl | ⟨hash, rfl, hinv, -⟩
  · rfl
  · show ((hash.get field).elim _ _, _) = _
    rw [hinv.get_eq]
    rfl

end Step

/-! ## Sequences of calls -/

inductive HashOp where
  | write (w : FieldWrite)
  | get (field : Bytes)

/-- What a call answers: whether a field was created or deleted, or its value. -/
inductive HashAnswer where
  | flag (r : Except StoreStatus Bool)
  | value (r : Except StoreStatus Bytes)
  deriving DecidableEq

def HashOp.run (m : FieldMap) : HashOp → HashAnswer × FieldMap
  | .write w => (.flag (.ok (w.run m).1), (w.run m).2)
  | .get field => (.value ((m.lookup field).elim (.error .notFound) .ok), m)

/-- An operation with the clock readings of its call. -/
structure HashCall where
  op : HashOp
  now : Int
  now' : Int

section Calls
variable [LinearOrder D]

/-- A call of `store_hash_set`, `store_hash_del` or `store_hash_get`. -/
def HashCall.exec (c : HashCall) (s : Store D) (key : Bytes) : HashAnswer × Store D :=
  match c.op with
  | .write w => ((w.op.exec s key c.now c.now').map .flag id)
  | .get field => ((storeHashGet s key field c.now).map .value id)

/-- The calls on one key, in order. -/
def hashCalls (key : Bytes) : List HashCall → Store D → List HashAnswer × Store D
  | [], s => ([], s)
  | c :: calls, s =>
    let r := c.exec s key
    let rest := hashCalls key calls r.2
    (r.1 :: rest.1, rest.2)

omit [LinearOrder D] in
/-- The same operations on the map. -/
def mapCalls : List HashCall → FieldMap → List HashAnswer × FieldMap
  | [], m => ([], m)
  | c :: calls, m =>
    let r := c.op.run m
    let rest := mapCalls calls r.2
    (r.1 :: rest.1, rest.2)

variable {s : Store D} {key : Bytes}

theorem Store.Valid.hashed (h : s.Valid) (ht : OfType .hash (s.cells key)) : Hashed (s.cells key) :=
  ⟨h.cells key, ht⟩

theorem Hashed.exec (hh : Hashed (s.cells key)) (h : s.Valid) {α : Type} (op : StoreOp D α) (now now' : Int) :
    (op.exec s key now now').1 = (op.step now' (s.cells key)).1 ∧
      (op.exec s key now now').2.cells key = (op.step now' (s.cells key)).2 := by
  have hd := exec_does h.inv key now now' op
  rw [hd.result, hd.cells, Function.update_self, hh.live]
  exact ⟨rfl, rfl⟩

theorem HashCall.exec_run (c : HashCall) (h : s.Valid) (ht : OfType .hash (s.cells key)) :
    (c.exec s key).1 = (c.op.run (fieldMap (s.cells key))).1 ∧
      fieldMap ((c.exec s key).2.cells key) = (c.op.run (fieldMap (s.cells key))).2 ∧
      (c.exec s key).2.Valid ∧ OfType .hash ((c.exec s key).2.cells key) := by
  have hh := h.hashed ht
  obtain ⟨op, now, now'⟩ := c
  cases op with
  | write w =>
    obtain ⟨hresult, hcell⟩ := hh.exec h w.op now now'
    obtain ⟨hflag, hmap, hh'⟩ := hh.write w now'
    exact ⟨congrArg HashAnswer.flag (hresult.trans hflag), (congrArg fieldMap hcell).trans hmap,
      w.op.exec_valid h key now now', hcell ▸ hh'.type⟩
  | get field =>
    obtain ⟨hresult, hcell⟩ := hh.exec h (.hashGet field) now now'
    rw [hh.read] at hresult hcell
    exact ⟨congrArg HashAnswer.value hresult, congrArg fieldMap hcell,
      (StoreOp.hashGet field).exec_valid h key now now', hcell ▸ ht⟩

/-- Any sequence of calls on a key answers as the map does, and leaves the map in the key. -/
theorem hashCalls_run (key : Bytes) :
    ∀ (calls : List HashCall) {s : Store D}, s.Valid → OfType .hash (s.cells key) →
    (hashCalls key calls s).1 = (mapCalls calls (fieldMap (s.cells key))).1 ∧
      fieldMap ((hashCalls key calls s).2.cells key) = (mapCalls calls (fieldMap (s.cells key))).2 ∧
      Hashed ((hashCalls key calls s).2.cells key)
  | [], _, h, ht => ⟨rfl, rfl, h.hashed ht⟩
  | c :: calls, s, h, ht => by
    obtain ⟨hanswer, hmap, h', ht'⟩ := c.exec_run h ht
    obtain ⟨hanswers, hmaps, hh⟩ := hashCalls_run key calls h' ht'
    rw [hmap] at hanswers hmaps
    refine ⟨?_, hmaps, hh⟩
    rw [hashCalls, mapCalls, hanswer, hanswers]

end Calls

/-! ## Several writes -/

/-- Some writes, one after the other: how many of them answer 1, and the map after them. -/
def writeAll (m : FieldMap) (ws : List FieldWrite) : ℕ × FieldMap :=
  ws.foldl (fun r w => (r.1 + (w.run r.2).1.toNat, (w.run r.2).2)) (0, m)

theorem writeAll_snoc (m : FieldMap) (ws : List FieldWrite) (w : FieldWrite) : writeAll m (ws ++ [w]) =
    ((writeAll m ws).1 + (w.run (writeAll m ws).2).1.toNat, (w.run (writeAll m ws).2).2) := by
  rw [writeAll, List.foldl_append]
  rfl

end PulseDB
