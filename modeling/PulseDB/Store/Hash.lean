import PulseDB.Store.Value

/-!
# Hashes

* `HashValue.Inv` : every field sits in the chain `hash_key` selects, no field occurs twice, `len` counts the
  fields;
* `HashValue.Inv.set`, `HashValue.Inv.del` : both operations keep it.
-/

namespace PulseDB
open Lib.Chains

/-- The invariant of a hash. -/
structure HashValue.Inv (hash : HashValue) : Prop where
  keyed : Keyed HashValue.slot HashField.field hash.buckets
  len : hash.len = hash.buckets.flatten.length

theorem HashField.named_eq (field : Bytes) (hf : HashField) : hf.named field = decide (hf.field = field) := by
  unfold HashField.named
  by_cases h : hf.field = field
  · simp [h]
  · have : strcmp hf.field field ≠ 0 := fun h0 => h (strcmp_eq_zero.mp h0)
    simp [h, this]

theorem HashField.named_fun (field : Bytes) : HashField.named field = fun hf => decide (hf.field = field) :=
  funext (HashField.named_eq field)

theorem HashValue.slot_lt (field : Bytes) : HashValue.slot field < hashNumBuckets := by
  unfold HashValue.slot hashKey hashNumBuckets
  simp only [UInt32.toNat_mod]
  exact Nat.mod_lt _ (by decide)

theorem HashValue.inv_empty : ({} : HashValue).Inv where
  keyed := keyed_replicate HashValue.slot_lt
  len := by simp

section Ops
variable {hash : HashValue}

theorem HashValue.Inv.set (h : hash.Inv) (field value : Bytes) :
    (hash.set field value).2.Inv ∧ (hash.set field value).2.len ≠ 0 := by
  unfold HashValue.set
  simp only
  rw [HashField.named_fun]
  cases hf : (chain hash.buckets (HashValue.slot field)).find? fun hf => decide (hf.field = field) with
  | none =>
    have hp := link_perm (h.keyed.slot field) (⟨field, value⟩ : HashField)
    refine ⟨⟨h.keyed.link (e := ⟨field, value⟩) hf, ?_⟩, Nat.succ_ne_zero _⟩
    rw [hp.length_eq, List.length_cons, h.len]
  | some old =>
    have hp := amend_perm (fun hf : HashField => { hf with value := value }) (h.keyed.slot field) hf
    have hq := unlink_perm (h.keyed.slot field) hf
    refine ⟨⟨h.keyed.amend hf fun _ => rfl, ?_⟩, ?_⟩
    · show hash.len = _
      rw [hp.length_eq, h.len, hq.length_eq]
      rfl
    · show hash.len ≠ 0
      rw [h.len, hq.length_eq]
      exact Nat.succ_ne_zero _

theorem HashValue.Inv.del (h : hash.Inv) (field : Bytes) : (hash.del field).2.Inv := by
  unfold HashValue.del
  simp only
  rw [HashField.named_fun]
  cases hf : (chain hash.buckets (HashValue.slot field)).find? fun hf => decide (hf.field = field) with
  | none => exact h
  | some old =>
    have hq := unlink_perm (h.keyed.slot field) hf
    refine ⟨h.keyed.unlink hf, ?_⟩
    show hash.len - 1 = _
    rw [h.len, hq.length_eq]
    rfl

end Ops
end PulseDB
