import PulseDB.Resp.Parse
import PulseDB.Store.Lists

/-!
# Stores that a client can read

The limits of `resp_parse_reply` on strings and arrays, as limits on what the store holds. Nothing in the
store keeps them: a dump file may hold longer strings, and a collection grows with every command that adds to
it.

* `Value.Fits`, `Cell.Fits` : what a reply can show of the value is within the limits;
* `Store.CellsFit`, `Store.Fits` : the same for every key, and for the number of keys;
* `incrby_range`, `getExpiry_range`, `listPush_len`, `listPop_mem`, `ZSet.Inv.rank_le` : bounds on what the
  operations answer.
-/

namespace PulseDB
open Lib.Chains Lib.SortedArray

variable {D : Type}

def StreamEntry.Fits (entry : StreamEntry) : Prop :=
  entry.fields.length * 2 ≤ respMaxArrayLen ∧
    ∀ f ∈ entry.fields, f.field.length ≤ respMaxBulkLen ∧ f.value.length ≤ respMaxBulkLen

/-- The value can be written as one reply. A hash and a sorted set are written with two values for each
element. -/
def Value.Fits : Value D → Prop
  | .str s => s.length ≤ respMaxBulkLen
  | .list l => l.nodes.length ≤ respMaxArrayLen ∧ ∀ node ∈ l.nodes, node.length ≤ respMaxBulkLen
  | .hash h => h.buckets.flatten.length * 2 ≤ respMaxArrayLen ∧
      ∀ f ∈ h.buckets.flatten, f.field.length ≤ respMaxBulkLen ∧ f.value.length ≤ respMaxBulkLen
  | .zset z => z.entries.length * 2 ≤ respMaxArrayLen ∧ ∀ x ∈ z.entries, x.member.length ≤ respMaxBulkLen
  | .stream t => t.entries.length ≤ respMaxArrayLen ∧ ∀ entry ∈ t.entries, entry.Fits

/-- The expiry is a number of its C type. -/
structure Cell.Fits (c : Cell D) : Prop where
  value : c.value.Fits
  expiry : int64Min ≤ c.expiresAt ∧ c.expiresAt ≤ int64Max

def Store.CellsFit (s : Store D) : Prop :=
  ∀ key c, s.cells key = some c → key.length ≤ respMaxBulkLen ∧ c.Fits

structure Store.Fits (s : Store D) : Prop where
  cells : s.CellsFit
  count : s.count ≤ respMaxArrayLen

theorem Store.CellsFit.listAt {s : Store D} (h : s.CellsFit) (key : Bytes) :
    (s.listAt key).length ≤ respMaxArrayLen ∧ ∀ node ∈ s.listAt key, node.length ≤ respMaxBulkLen := by
  unfold Store.listAt
  cases hc : s.cells key with
  | none => exact ⟨Nat.zero_le _, fun _ hnode => absurd hnode List.not_mem_nil⟩
  | some c =>
    have hfits := (h key c hc).2.value
    obtain ⟨v, x⟩ := c
    cases v with
    | list l => exact hfits
    | _ => exact ⟨Nat.zero_le _, fun _ hnode => absurd hnode List.not_mem_nil⟩

/-! ## What the operations answer -/

theorem Cell.alter_ok {α β : Type} {as : Value D → Option α} {wrap : α → Value D}
    {f : Option α → Except StoreStatus (β × Option α)} {o : Option (Cell D)} {b : β}
    (h : (Cell.alter as wrap f o).1 = .ok b) : ∃ old new, f old = .ok (b, new) := by
  unfold Cell.alter at h
  split at h
  · cases h
  · cases hf : f (Cell.read as o).toOption with
    | error st =>
      rw [hf] at h
      cases h
    | ok r =>
      rw [hf] at h
      cases h
      exact ⟨_, r.2, hf⟩

theorem HashValue.get_mem {hash : HashValue} {field value : Bytes} (h : hash.get field = some value) :
    ∃ f ∈ hash.buckets.flatten, f.value = value := by
  obtain ⟨f, hf, hvalue⟩ := Option.map_eq_some_iff.mp h
  exact ⟨f, mem_flatten_iff.mpr ⟨_, List.mem_of_find?_eq_some hf⟩, hvalue⟩

variable [LinearOrder D]

theorem ZSet.Inv.rank_le {z : ZSet D} (h : z.Inv) {member : Bytes} {rank : ℕ}
    (hr : z.rank member = some rank) :
    rank ≤ z.entries.length := by
  obtain ⟨node, -, rfl⟩ := Option.map_eq_some_iff.mp hr
  rw [zsetLowerBound_eq h.len]
  exact (slotOf_spec (r := ZSetEntry.Lt) h.sorted _).1

section Step
variable {now' : Int} {o : Option (Cell D)}

theorem incrby_range {delta result : Int} (h : ((StoreOp.incrby (D := D) delta).step now' o).1 = .ok result) :
    int64Min ≤ result ∧ result ≤ int64Max := by
  obtain ⟨old, new, hf⟩ := Cell.alter_ok h
  unfold incrSpec at hf
  split at hf
  · cases hf
  · rename_i val hval
    split at hf
    · cases hf
    · rename_i hover
      cases hf
      have hrange : int64Min ≤ val ∧ val ≤ int64Max := by
        cases old with
        | none =>
          cases hval
          decide
        | some text => exact parseInt64_range hval
      simp only [addOverflows, Bool.or_eq_true, Bool.and_eq_true, decide_eq_true_eq, not_or, not_and] at hover
      omega

theorem getExpiry_range (ho : ∀ c ∈ o, c.Fits) : int64Min ≤ ((StoreOp.getExpiry (D := D)).step now' o).1 ∧
    ((StoreOp.getExpiry (D := D)).step now' o).1 ≤ int64Max := by
  rw [StoreOp.step]
  cases o with
  | none => exact show int64Min ≤ -2 ∧ -2 ≤ int64Max by decide
  | some c =>
    simp only [Option.elim_some]
    split
    · decide
    · exact (ho c rfl).expiry

theorem listPush_len (ho : ∀ c ∈ o, c.Inv) {value : Bytes} {atHead : Bool} {n : ℕ}
    (h : ((StoreOp.listPush (D := D) value atHead).step now' o).1 = .ok n) :
      n = (Cell.nodes o).length + 1 := by
  cases o with
  | none =>
    cases h
    rfl
  | some c =>
    obtain ⟨v, x⟩ := c
    cases v with
    | list l =>
      cases h
      exact congrArg (· + 1) (ho _ rfl).value.1
    | _ => cases h

theorem listPop_mem (ho : ∀ c ∈ o, c.Inv) {value : Bytes} {atHead : Bool}
    (h : ((StoreOp.listPop (D := D) atHead).step now' o).1 = .ok value) : value ∈ Cell.nodes o := by
  have hnodes := listPop_nodes atHead now' ho
  rw [h] at hnodes
  rw [hnodes]
  cases atHead with
  | true => exact List.mem_cons_self
  | false => exact List.mem_append_right _ (List.mem_singleton_self value)

end Step
end PulseDB
