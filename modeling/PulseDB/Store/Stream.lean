import PulseDB.Store.Value

/-!
# Streams: IDs only grow

* `StreamId.Lt` : the order of `stream_id_cmp`;
* `Stream.Inv` : IDs strictly increase from head to tail, none is `0-0`, `lastId` is the ID of the tail;
* `resolveNewId_gt` : every ID the four forms resolve to is greater than the last one, whatever the clock
  says;
* `Stream.Inv.append` : so an appended entry keeps the invariant.
-/

namespace PulseDB

/-- By milliseconds, then by sequence number. -/
def StreamId.Lt (a b : StreamId) : Prop := a.ms < b.ms ∨ (a.ms = b.ms ∧ a.seq < b.seq)

instance : DecidableRel StreamId.Lt := fun a b => by
  unfold StreamId.Lt
  infer_instance

theorem StreamId.Lt.trans {a b c : StreamId} (h1 : a.Lt b) (h2 : b.Lt c) : a.Lt c := by
  rcases h1 with h1 | ⟨e1, h1⟩
  · rcases h2 with h2 | ⟨e2, -⟩
    · exact Or.inl (UInt64.lt_trans h1 h2)
    · exact Or.inl (e2 ▸ h1)
  · rcases h2 with h2 | ⟨e2, h2⟩
    · exact Or.inl (e1 ▸ h2)
    · exact Or.inr ⟨e1.trans e2, UInt64.lt_trans h1 h2⟩

theorem streamIdCmp_pos (a b : StreamId) : 0 < streamIdCmp a b ↔ b.Lt a := by
  unfold streamIdCmp StreamId.Lt
  split_ifs <;> grind

theorem streamIdCmp_neg (a b : StreamId) : streamIdCmp a b < 0 ↔ a.Lt b := by
  unfold streamIdCmp StreamId.Lt
  split_ifs <;> grind

theorem StreamId.Lt.ne_zero {a b : StreamId} (h : a.Lt b) : b ≠ ⟨0, 0⟩ := by
  rintro rfl
  rcases h with h | ⟨-, h⟩
  · exact UInt64.not_lt_zero h
  · exact UInt64.not_lt_zero h

theorem StreamId.zero_lt {a : StreamId} (h : a ≠ ⟨0, 0⟩) : StreamId.Lt ⟨0, 0⟩ a := by
  obtain ⟨ms, seq⟩ := a
  by_cases hms : ms = 0
  · subst hms
    exact Or.inr ⟨rfl, UInt64.pos_iff_ne_zero.mpr fun hseq => h (congrArg (StreamId.mk 0) hseq)⟩
  · exact Or.inl (UInt64.pos_iff_ne_zero.mpr hms)

/-- The invariant of a stream. -/
structure Stream.Inv (stream : Stream) : Prop where
  increasing : stream.entries.Pairwise fun a b => a.id.Lt b.id
  nonzero : ∀ e ∈ stream.entries, e.id ≠ ⟨0, 0⟩
  last : stream.lastId = (stream.entries.getLast?.map (·.id)).getD ⟨0, 0⟩
  len : stream.len = stream.entries.length
  fields : ∀ e ∈ stream.entries, e.numFields = e.fields.length

theorem Stream.inv_empty : ({} : Stream).Inv where
  increasing := List.Pairwise.nil
  nonzero e he := by simp at he
  last := rfl
  len := rfl
  fields e he := by simp at he

theorem Stream.Inv.le_last {stream : Stream} (h : stream.Inv) {e : StreamEntry} (he : e ∈ stream.entries) :
    e.id.Lt stream.lastId ∨ e.id = stream.lastId := by
  have hinc := h.increasing
  rw [h.last]
  rcases List.eq_nil_or_concat stream.entries with h0 | ⟨es, t, ht⟩
  · rw [h0] at he
    simp at he
  · rw [ht, List.concat_eq_append] at he hinc ⊢
    rw [List.getLast?_concat]
    rcases List.mem_append.mp he with he | he
    · exact Or.inl ((List.pairwise_append.mp hinc).2.2 e he t (by simp))
    · exact Or.inr (by rw [List.mem_singleton.mp he]; rfl)

/-- The last ID of a stream, `0-0` when there is none. -/
def lastIdOf (stream : Option Stream) : StreamId := (stream.map (·.lastId)).getD ⟨0, 0⟩

theorem lastIdOf_empty {stream : Option Stream} (hs : ∀ s ∈ stream, s.Inv)
    (h0 : (stream.any fun s => decide (s.len > 0)) = false) : lastIdOf stream = ⟨0, 0⟩ := by
  cases stream with
  | none => rfl
  | some s =>
    have hinv := hs s rfl
    have hlen := hinv.len
    simp only [Option.any_some, gt_iff_lt, decide_eq_false_iff_not, Nat.not_lt, Nat.le_zero] at h0
    have hnil : s.entries = [] := List.length_eq_zero_iff.mp (by omega)
    show s.lastId = _
    rw [hinv.last, hnil]
    rfl

theorem lt_succ_of_ne_uint64Max {x : UInt64} (h : x ≠ uint64Max) : x < x + 1 := by
  unfold uint64Max at h
  grind

/-- A new ID is greater than the last one. For the form `<ms>-*` with the last `ms` this needs that an empty
stream has the last ID `0-0`. -/
theorem resolveNewId_gt {stream : Option Stream} (hs : ∀ s ∈ stream, s.Inv) {spec : Bytes} {now : Int}
    {id : StreamId} (h : resolveNewId stream spec now = .ok id) : (lastIdOf stream).Lt id := by
  have hempty := lastIdOf_empty hs
  unfold resolveNewId at h
  rw [show (stream.map (·.lastId)).getD ⟨0, 0⟩ = lastIdOf stream from rfl] at h
  simp only at h
  generalize lastIdOf stream = last at h hempty ⊢
  split at h
  · -- `*`
    split at h
    · rename_i hms
      cases h
      exact Or.inl hms
    · split at h
      · cases h
      · rename_i hne
        cases h
        exact Or.inr ⟨rfl, lt_succ_of_ne_uint64Max hne⟩
  · split at h
    · -- `<ms>-*`
      split at h
      · cases h
      · rename_i ms _
        split at h
        · cases h
        · rename_i hge
          split at h
          · rename_i hsame
            split at h
            · cases h
            · rename_i hne
              cases h
              exact Or.inr ⟨hsame.1.symm, lt_succ_of_ne_uint64Max hne⟩
          · rename_i hother
            cases h
            unfold StreamId.Lt
            by_cases heq : ms = last.ms
            · have h0 := hempty (Bool.eq_false_iff.mpr fun ht => hother ⟨heq, ht⟩)
              rw [h0] at heq ⊢
              simp [heq]
            · exact Or.inl (by grind)
    · -- an explicit ID
      split at h
      · cases h
      · split at h
        · cases h
        · split at h
          · cases h
          · rename_i hpos
            cases h
            exact (streamIdCmp_pos _ _).mp (by omega)

theorem Stream.Inv.append {stream : Stream} (h : stream.Inv) {id : StreamId} (hid : stream.lastId.Lt id)
    (fields : List StreamField) : (stream.append id fields).Inv where
  increasing := by
    refine List.pairwise_append.mpr ⟨h.increasing, List.pairwise_singleton _ _, fun e he x hx => ?_⟩
    rw [List.mem_singleton.mp hx]
    rcases h.le_last he with hlt | heq
    · exact hlt.trans hid
    · exact heq ▸ hid
  nonzero e he := by
    rcases List.mem_append.mp he with he | he
    · exact h.nonzero e he
    · rw [List.mem_singleton.mp he]
      exact hid.ne_zero
  last := by simp [Stream.append]
  len := by simp [Stream.append, h.len]
  fields e he := by
    rcases List.mem_append.mp he with he | he
    · exact h.fields e he
    · rw [List.mem_singleton.mp he]

end PulseDB
