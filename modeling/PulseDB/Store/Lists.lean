import PulseDB.Store.Part

/-!
# The lists in the store

* `Store.listAt` : the elements of the list under a key, none if the key holds no list;
* `listPush_nodes`, `listPop_nodes` : what the two list operations do to the elements.
-/

namespace PulseDB

variable {D : Type}

/-- The elements of the list in a cell. -/
def Cell.nodes : Option (Cell D) → List Bytes
  | some ⟨.list l, _⟩ => l.nodes
  | _ => []

/-- The elements of the list under a key. -/
def Store.listAt (store : Store D) (key : Bytes) : List Bytes := Cell.nodes (store.cells key)

/-- The elements of the lists, as a part of the cells. -/
def listPart (D : Type) : Part D (List Bytes) where
  type := .list
  read := Cell.nodes
  lasting := by decide
  other c h := by
    obtain ⟨v, x⟩ := c
    cases v with
    | list l => exact absurd rfl h
    | _ => rfl

theorem live_nodes [LinearOrder D] {o : Option (Cell D)} (h : ∀ c ∈ o, c.Inv) (now : Int) :
    Cell.nodes (live now o) = Cell.nodes o := (listPart D).live h now

variable [LinearOrder D]

/-- A push that succeeds adds the element at its end of the list; one that fails adds nothing. -/
theorem listPush_nodes (value : Bytes) (atHead : Bool) (now' : Int) (o : Option (Cell D)) :
    Cell.nodes ((StoreOp.listPush value atHead).step now' o).2 =
      match ((StoreOp.listPush (D := D) value atHead).step now' o).1 with
      | .ok _ => if atHead then value :: Cell.nodes o else Cell.nodes o ++ [value]
      | .error _ => Cell.nodes o := by
  cases o with
  | none => cases atHead <;> rfl
  | some c =>
    obtain ⟨v, x⟩ := c
    cases v with
    | list l => cases atHead <;> rfl
    | _ => rfl

omit [LinearOrder D] in
theorem ListValue.pop_nodes {l l' : ListValue} {atHead : Bool} {value : Bytes}
    (h : l.pop atHead = some (value, l')) :
    l.nodes = if atHead then value :: l'.nodes else l'.nodes ++ [value] := by
  obtain ⟨v, hv, heq⟩ := Option.map_eq_some_iff.mp h
  cases heq
  cases atHead with
  | true => exact (List.cons_head?_tail hv).symm
  | false => exact (List.dropLast_append_getLast? value hv).symm

/-- A pop that succeeds removes the element it answers from its end of the list; one that fails removes
nothing. -/
theorem listPop_nodes (atHead : Bool) (now' : Int) {o : Option (Cell D)} (h : ∀ c ∈ o, c.Inv) :
    Cell.nodes o =
      match ((StoreOp.listPop (D := D) atHead).step now' o).1 with
      | .ok value =>
        if atHead then value :: Cell.nodes ((StoreOp.listPop atHead).step now' o).2
        else Cell.nodes ((StoreOp.listPop atHead).step now' o).2 ++ [value]
      | .error _ => Cell.nodes ((StoreOp.listPop atHead).step now' o).2 := by
  cases o with
  | none => rfl
  | some c =>
    obtain ⟨v, x⟩ := c
    cases v with
    | list l =>
      rw [StoreOp.step, Cell.alter_typed (a := l) rfl, Option.bind_some]
      cases hp : l.pop atHead with
      | none => rfl
      | some r =>
        obtain ⟨value, l'⟩ := r
        -- a list that has become empty is removed with its key
        have hrest : Cell.nodes ((if l'.len = 0 then none else some l').map fun a =>
          (⟨.list a, x⟩ : Cell D)) =
            l'.nodes := by
          split
          · rename_i h0
            have hlen := ListValue.pop_inv (h _ rfl).value.1 hp
            exact (List.eq_nil_of_length_eq_zero (hlen.symm.trans h0)).symm
          · rfl
        simp only
        rw [hrest]
        exact ListValue.pop_nodes hp
    | _ => rfl

end PulseDB
