import PulseDB.Raw.Lists

/-!
# Streams in memory

* `StreamAt` : a stream with its entries, each with the nodes of its fields;
* `triple_addFields`, `triple_streamAppend` : the fields of a new entry are linked one behind the other, then
  the entry is;
* `triple_peekStream`, `triple_freeStream`.
-/

namespace PulseDB.Raw
open Lib Lib.Prog

variable {D : Type}

/-! ## Layout -/

def streamFields : Layout (fieldLink (D := D)) FieldAt where
  addr := FieldAt.addr
  block n l := .streamField (n.record l)
  own := FieldAt.texts
  next_block _ _ := rfl
  relink_block _ _ _ := rfl

theorem streamFields_node (n : FieldAt) (l : Option ℕ) :
    (streamFields.node n l : Multiset (ℕ × Object D)) = cell n.addr (.streamField (n.record l)) +
      n.texts := rfl

def FieldAt.pair (n : FieldAt) : StreamField := ⟨n.field, n.value⟩

/-- An entry with its fields. -/
structure StreamEntryAt where
  addr : ℕ
  id : StreamId
  fields : List FieldAt
  numFields : ℕ

namespace StreamEntryAt

def record (n : StreamEntryAt) (l : Option ℕ) : StreamEntryRec :=
  ⟨n.id, firstLink FieldAt.addr n.fields none, n.numFields, l⟩

def view (n : StreamEntryAt) : StreamEntry := ⟨n.id, n.fields.map FieldAt.pair, n.numFields⟩

end StreamEntryAt

def streamEntries : Layout (streamLink (D := D)) StreamEntryAt where
  addr := StreamEntryAt.addr
  block n l := .streamEntry (n.record l)
  own n := streamFields.seg n.fields none
  next_block _ _ := rfl
  relink_block _ _ _ := rfl

theorem streamEntries_node (n : StreamEntryAt) (l : Option ℕ) :
    (streamEntries.node n l : Multiset (ℕ × Object D)) =
    cell n.addr (.streamEntry (n.record l)) + streamFields.seg n.fields none := rfl

/-- A stream with its entries. -/
structure StreamAt where
  entries : List StreamEntryAt := []
  len : ℕ := 0
  lastId : StreamId := ⟨0, 0⟩

namespace StreamAt

def record (S : StreamAt) : StreamRec :=
  ⟨firstLink StreamEntryAt.addr S.entries none, (S.entries.map StreamEntryAt.addr).getLast?, S.len, S.lastId⟩

def cells (S : StreamAt) (p : ℕ) : Multiset (ℕ × Object D) :=
  cell p (.stream S.record) + streamEntries.seg S.entries none

def view (S : StreamAt) : Stream := ⟨S.entries.map StreamEntryAt.view, S.len, S.lastId⟩

end StreamAt

section Streams
variable {S : StreamAt} {p : ℕ} {W : Multiset (ℕ × Object D)}

theorem StreamAt.mem_cells : (p, Object.stream S.record) ∈ (S.cells p : Multiset (ℕ × Object D)) := by
  simp [StreamAt.cells]

theorem triple_freeStream : triple (freeStream p) (S.cells p : Multiset (ℕ × Object D)) fun _ M' =>
    M' = 0 := by
  refine bind_getAs (a := S.record) S.mem_cells ?_
  refine bind_call (F := cell p (.stream S.record)) (by rw [StreamAt.cells, add_comm])
    (triple_freeChain streamEntries S.entries fun n _ l => ?_) fun _ M' hM => ?_
  · refine bind_demand (a := n.record l) rfl (triple_freeChain streamFields n.fields fun f _ l => ?_)
    refine bind_demand (a := f.record l) rfl ?_
    have htexts := triple_freeTexts (n := f) (M := (0 : Multiset (ℕ × Object D)))
    rwa [add_zero] at htexts
  · exact triple_release (N := 0) (by rw [hM, zero_add, add_zero]) rfl

/-- The loop over the fields: those so far are linked, and the last of them is the one behind which the next
one is put. -/
theorem triple_addFields (n : StreamEntryAt) : ∀ {fs : List StreamField} (fields : List FieldAt),
    triple (addFields n.addr (fields.map FieldAt.addr).getLast? fs)
      (streamEntries.node { n with fields := fields } none : Multiset (ℕ × Object D)) fun _ M' =>
        ∃ fields' : List FieldAt,
        fields'.map FieldAt.pair = fields.map FieldAt.pair ++ fs ∧
        M' = streamEntries.node { n with fields := fields' } none := by
  intro fs
  induction fs with
  | nil => exact fun fields => triple_pure ⟨fields, by simp, rfl⟩
  | cons f fs ih =>
    intro fields
    refine bind_new fun fieldPtr => bind_new fun valuePtr => bind_new fun sf => ?_
    let new : FieldAt := ⟨sf, fieldPtr, f.field, valuePtr, f.value⟩
    have hlast : some sf = ((fields ++ [new]).map FieldAt.addr).getLast? := by simp [new]
    have hnext : triple (addFields n.addr (some sf) fs)
        (streamEntries.node { n with fields := fields ++ [new] } none :
        Multiset (ℕ × Object D)) fun _ M' => ∃ fields' : List FieldAt,
          fields'.map FieldAt.pair = fields.map FieldAt.pair ++ f :: fs ∧
          M' = streamEntries.node { n with fields := fields' } none := by
      rw [hlast]
      refine triple_mono (ih _) fun _ M' hM => ?_
      obtain ⟨fields', hfields, rfl⟩ := hM
      exact ⟨fields', by rw [hfields]; simp [new, FieldAt.pair], rfl⟩
    rcases List.eq_nil_or_concat' fields with rfl | ⟨fields, x, rfl⟩
    · let record : StreamEntryRec := StreamEntryAt.record { n with fields := [] } none
      refine bind_getAs (b := .streamEntry record) (a := record) (by simp [streamEntries_node, record]) ?_
      refine bind_save (b := .streamEntry record) (N := streamFields.node new none) ?_ ?_
      · rw [streamEntries_node, streamFields_node, Layout.seg_nil, FieldAt.texts]
        simp only [new, record, FieldAt.record]
        ac_rfl
      · have hafter : (streamEntries.node { n with fields := [] ++ [new] } none : Multiset (ℕ × Object D)) =
            cell n.addr (.streamEntry { record with fields := some sf }) + streamFields.node new none := by
          rw [streamEntries_node, List.nil_append, Layout.seg_singleton]
          rfl
        rw [hafter] at hnext
        exact hnext
    · have htail : ((fields ++ [x]).map FieldAt.addr).getLast? = some x.addr := by simp
      rw [htail]
      refine triple_then (triple_setTail streamFields fields x (l := none)
        (N := cell n.addr (.streamEntry (StreamEntryAt.record { n with fields := fields ++ [x] } none)) +
          streamFields.node new none) ?_) ?_
      · rw [streamEntries_node, streamFields_node, FieldAt.texts]
        simp only [new, FieldAt.record]
        ac_rfl
      · have hrecord : StreamEntryAt.record { n with fields := fields ++ [x] ++ [new] } none =
            StreamEntryAt.record { n with fields := fields ++ [x] } none := by
          simp [StreamEntryAt.record, firstLink_append]
        have hafter : (streamEntries.node { n with fields := fields ++ [x] ++ [new] } none : Multiset
          (ℕ × Object D)) =
            streamFields.seg (fields ++ [x]) (some sf) +
              (cell n.addr (.streamEntry (StreamEntryAt.record { n with fields := fields ++ [x] } none)) +
                streamFields.node new none) := by
          rw [streamEntries_node, hrecord, streamFields.seg_append (fields ++ [x]) [new],
            Layout.seg_singleton, firstLink_cons]
          simp only [streamFields, new]
          ac_rfl
        rw [hafter] at hnext
        exact hnext

theorem triple_streamAppend {id : StreamId} {fs : List StreamField} :
    triple (streamAppend p id fs) (S.cells p : Multiset (ℕ × Object D)) fun _ M' =>
      ∃ S' : StreamAt, M' = S'.cells p ∧ S'.view = S.view.append id fs := by
  refine bind_new fun addr => ?_
  let n : StreamEntryAt := ⟨addr, id, [], fs.length⟩
  refine bind_call (F := S.cells p) ?_ (triple_addFields n []) fun _ M' hM => ?_
  · rw [streamEntries_node, Layout.seg_nil, add_zero]
    rfl
  obtain ⟨fields, hfields, rfl⟩ := hM
  let new : StreamEntryAt := { n with fields := fields }
  have hview : (⟨S.entries ++ [new], S.len + 1, id⟩ : StreamAt).view = S.view.append id fs := by
    simp [StreamAt.view, Stream.append, StreamEntryAt.view, new, hfields, n]
  refine bind_getAs (b := .stream S.record) (a := S.record) (by simp [StreamAt.cells]) ?_
  obtain ⟨entries, len, lastId⟩ := S
  rcases List.eq_nil_or_concat' entries with rfl | ⟨entries, x, rfl⟩
  · refine triple_save (b := .stream (StreamAt.record ⟨[], len, lastId⟩))
      (N := streamEntries.seg [new] none) ?_ ⟨⟨[new], len + 1, id⟩, rfl, hview⟩
    rw [StreamAt.cells, Layout.seg_nil, Layout.seg_singleton, add_zero, add_comm]
  · have htail : (StreamAt.record ⟨entries ++ [x], len, lastId⟩).tail = some x.addr := by
      simp [StreamAt.record]
    have hrecord : StreamAt.record ⟨entries ++ [x] ++ [new], len + 1, id⟩ =
        ⟨(StreamAt.record ⟨entries ++ [x], len, lastId⟩).head, some addr, len + 1, id⟩ := by
      simp [StreamAt.record, firstLink_append, new, n]
    simp only [htail]
    refine triple_then (triple_setTail streamEntries entries x (l := none)
      (N := cell p (.stream (StreamAt.record ⟨entries ++ [x], len, lastId⟩)) +
        streamEntries.node new none) ?_) ?_
    · rw [StreamAt.cells]
      ac_rfl
    · refine triple_save (b := .stream (StreamAt.record ⟨entries ++ [x], len, lastId⟩))
        (N := streamEntries.seg (entries ++ [x] ++ [new]) none) ?_
          ⟨⟨entries ++ [x] ++ [new], len + 1, id⟩, ?_, hview⟩
      · rw [streamEntries.seg_append (entries ++ [x]) [new], Layout.seg_singleton, firstLink_cons]
        exact add_left_comm _ _ _
      · rw [StreamAt.cells, hrecord]
        rfl

theorem triple_peekStream (hW : S.cells p ≤ W) : triple (peekStream p) W fun r M' => r = S.view ∧ M' = W := by
  refine bind_getAs (b := .stream S.record) (a := S.record) (Multiset.mem_of_le hW S.mem_cells) ?_
  have hseg : streamEntries.seg S.entries none ≤ W := (Multiset.le_add_left _ _).trans hW
  refine triple_bind (triple_readChain streamEntries StreamEntryAt.view hseg fun n hn l => ?_)
    fun r M' hr => ?_
  · obtain ⟨l', hnode⟩ := streamEntries.mem_seg hn none
    have hfields : streamFields.seg n.fields none ≤ W := (Multiset.le_add_left _ _).trans (hnode.trans hseg)
    refine bind_demand (a := n.record l) rfl
      (triple_bind (triple_readChain streamFields FieldAt.pair hfields fun f hf l => ?_) fun r M' hr => ?_)
    · obtain ⟨l', hfield⟩ := streamFields.mem_seg hf none
      have hle := hfield.trans hfields
      refine bind_demand (a := f.record l) rfl (bind_getAs (b := .text f.field) (a := f.field) ?_
        (bind_getAs (b := .text f.value) (a := f.value) ?_ (triple_pure ⟨rfl, rfl⟩)))
      · exact Multiset.mem_of_le hle (by simp [streamFields_node, FieldAt.texts, FieldAt.record])
      · exact Multiset.mem_of_le hle (by simp [streamFields_node, FieldAt.texts, FieldAt.record])
    · obtain ⟨rfl, rfl⟩ := hr
      exact triple_pure ⟨rfl, rfl⟩
  · obtain ⟨rfl, rfl⟩ := hr
    exact triple_pure ⟨rfl, rfl⟩

end Streams
end PulseDB.Raw
