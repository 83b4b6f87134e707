import PulseDB.Store.Valid

/-!
# What the cells hold of one type

* `Part D β` : what a reader sees of the values of one type that does not expire;
* `Part.live` : expiry does not change it; `Part.alter` : nor does a change under another type;
* `StoreOp.spares t` : the operations that leave the values of the type `t` as they are; `Part.step` : they
  do.
-/

namespace PulseDB

variable {D β : Type}

/-- A view of the values of one type, other than strings: a cell with a value of another type is seen as no
cell. -/
structure Part (D β : Type) where
  type : StoreType
  read : Option (Cell D) → β
  lasting : type ≠ .string
  other : ∀ c : Cell D, c.value.type ≠ type → read (some c) = read none

/-- The operation leaves the values of the type `t` as they are. -/
def StoreOp.spares {α : Type} (t : StoreType) : StoreOp D α → Bool
  | .del => false
  | .set _ _ => false
  | .incrby _ => t ≠ .string
  | .listPush _ _ => t ≠ .list
  | .listPop _ => t ≠ .list
  | .hashSet _ _ => t ≠ .hash
  | .hashDel _ => t ≠ .hash
  | .zsetAdd _ _ => t ≠ .zset
  | .streamAdd _ _ => t ≠ .stream
  | _ => true

namespace Part

theorem alter (p : Part D β) {α γ : Type} {as : Value D → Option α} {wrap : α → Value D} {t : StoreType}
    {f : Option α → Except StoreStatus (γ × Option α)} (has : ∀ v a, as v = some a → v = wrap a)
    (hwrap : ∀ a, (wrap a).type = t) (ht : p.type ≠ t) (o : Option (Cell D)) :
    p.read (Cell.alter as wrap f o).2 = p.read o := by
  have hother : ∀ (a : α) (x : Int), p.read (some ⟨wrap a, x⟩) = p.read none :=
    fun a x => p.other ⟨wrap a, x⟩ fun h => ht (h.symm.trans (hwrap a))
  have hnew : ∀ (x : Int) (new : Option α), p.read (new.map fun a => ⟨wrap a, x⟩) = p.read none := by
    intro x new
    cases new with
    | none => rfl
    | some a => exact hother a x
  cases o with
  | none =>
    rw [Cell.alter_none]
    cases f none with
    | error st => rfl
    | ok r => exact hnew 0 r.2
  | some c =>
    cases ha : as c.value with
    | none => rw [Cell.alter_wrongType ha]
    | some a =>
      have hc : p.read (some c) = p.read none := p.other c fun h => ht (by rw [← h, has _ _ ha, hwrap])
      rw [Cell.alter_typed ha, hc]
      cases f (some a) with
      | error st => exact hc
      | ok r => exact hnew c.expiresAt r.2

variable [LinearOrder D]

theorem live (p : Part D β) {o : Option (Cell D)} (h : ∀ c ∈ o, c.Inv) (now : Int) :
    p.read (PulseDB.live now o) = p.read o := by
  cases o with
  | none => rfl
  | some c =>
    rw [PulseDB.live]
    split
    · rename_i hexp
      refine (p.other c fun ht => hexp.1 ((h c rfl).expiry ?_)).symm
      rw [ht]
      exact p.lasting
    · rfl

theorem step (p : Part D β) {α : Type} {op : StoreOp D α} (h : op.spares p.type = true) (now' : Int)
    (o : Option (Cell D)) : p.read (op.step now' o).2 = p.read o := by
  cases op with
  | del => cases h
  | set => cases h
  | incrby => exact p.alter (fun _ _ => Value.eq_of_asStr) (fun _ => rfl) (of_decide_eq_true h) o
  | listPush => exact p.alter (fun _ _ => Value.eq_of_asList) (fun _ => rfl) (of_decide_eq_true h) o
  | listPop => exact p.alter (fun _ _ => Value.eq_of_asList) (fun _ => rfl) (of_decide_eq_true h) o
  | hashSet => exact p.alter (fun _ _ => Value.eq_of_asHash) (fun _ => rfl) (of_decide_eq_true h) o
  | hashDel => exact p.alter (fun _ _ => Value.eq_of_asHash) (fun _ => rfl) (of_decide_eq_true h) o
  | zsetAdd => exact p.alter (fun _ _ => Value.eq_of_asZset) (fun _ => rfl) (of_decide_eq_true h) o
  | streamAdd => exact p.alter (fun _ _ => Value.eq_of_asStream) (fun _ => rfl) (of_decide_eq_true h) o
  | _ => rfl

end Part

/-- The entries of the streams, as a part of the cells. -/
def streamPart (D : Type) : Part D (List StreamEntry) where
  type := .stream
  read := streamEntries
  lasting := by decide
  other c h := by
    obtain ⟨v, x⟩ := c
    cases v with
    | stream stream => exact absurd rfl h
    | _ => rfl

end PulseDB
