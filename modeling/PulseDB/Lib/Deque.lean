import PulseDB.Lib.Trace
import Mathlib.Data.List.Perm.Basic

/-!
# Double-ended queues under keys

The history of one queue among many: what was pushed is what was popped and what is still there.

* `DequeOp` : some values pushed at one end of the queue under a key, or one value popped from one end;
* `DequeOp.At k` : what an operation does to the queue under the key `k`;
* `deque_perm` : nothing is lost and nothing is delivered twice, whatever ends are used;
* `deque_fifo` : if values are only pushed at the tail and popped from the head, they are popped in the order
  they were pushed.
-/

namespace PulseDB.Lib

variable {κ ν : Type} [DecidableEq κ]

inductive DequeOp (κ ν : Type) where
  | push (key : κ) (values : List ν) (atHead : Bool)
  | pop (key : κ) (value : ν) (atHead : Bool)
  | idle

/-- The queue after the values have been pushed, one after the other. -/
def pushAll (atHead : Bool) (values q : List ν) : List ν :=
  if atHead then values.reverse ++ q else q ++ values

theorem pushAll_nil (atHead : Bool) (q : List ν) : pushAll atHead [] q = q := by
  cases atHead <;> simp [pushAll]

theorem pushAll_snoc (atHead : Bool) (values : List ν) (value : ν) (q : List ν) :
    pushAll atHead (values ++ [value]) q = pushAll atHead [value] (pushAll atHead values q) := by
  cases atHead <;> simp [pushAll]

theorem pushAll_perm (atHead : Bool) (values q : List ν) : (q ++ values).Perm (pushAll atHead values q) := by
  cases atHead with
  | true => exact (List.perm_append_comm).trans ((List.reverse_perm values).symm.append_right q)
  | false => exact .refl _

namespace DequeOp
variable (k : κ)

/-- The queue under `k` before and after the operation: a pop undoes the push of its value. -/
def At : List ν → DequeOp κ ν → List ν → Prop
  | q, .push key values atHead, q' => q' = if key = k then pushAll atHead values q else q
  | q, .pop key value atHead, q' => q = if key = k then pushAll atHead [value] q' else q'
  | q, .idle, q' => q' = q

/-- The values the operation pushes under `k`. -/
def pushed : DequeOp κ ν → List ν
  | .push key values _ => if key = k then values else []
  | .pop _ _ _ => []
  | .idle => []

/-- The values the operation pops under `k`. -/
def popped : DequeOp κ ν → List ν
  | .push _ _ _ => []
  | .pop key value _ => if key = k then [value] else []
  | .idle => []

/-- Under `k`, the operation pushes at the tail or pops from the head. -/
def Fifo : DequeOp κ ν → Prop
  | .push key _ atHead => key = k → atHead = false
  | .pop key _ atHead => key = k → atHead = true
  | .idle => True

variable {k} {q q' : List ν} {op : DequeOp κ ν}

theorem At.perm (h : At k q op q') : (q ++ op.pushed k).Perm (op.popped k ++ q') := by
  cases op with
  | push key values atHead =>
    change q' = if key = k then pushAll atHead values q else q at h
    rw [h, pushed, popped, List.nil_append]
    split
    · exact pushAll_perm atHead values q
    · rw [List.append_nil]
  | pop key value atHead =>
    change q = if key = k then pushAll atHead [value] q' else q' at h
    rw [h, pushed, popped, List.append_nil]
    split
    · exact (pushAll_perm atHead [value] q').symm.trans List.perm_append_comm
    · rw [List.nil_append]
  | idle =>
    obtain rfl : q' = q := h
    rw [pushed, popped, List.append_nil, List.nil_append]

theorem At.eq (h : At k q op q') (hf : op.Fifo k) : q ++ op.pushed k = op.popped k ++ q' := by
  cases op with
  | push key values atHead =>
    change q' = if key = k then pushAll atHead values q else q at h
    rw [h, pushed, popped, List.nil_append]
    split
    · rename_i hk
      rw [hf hk]
      rfl
    · rw [List.append_nil]
  | pop key value atHead =>
    change q = if key = k then pushAll atHead [value] q' else q' at h
    rw [h, pushed, popped, List.append_nil]
    split
    · rename_i hk
      rw [hf hk]
      rfl
    · rw [List.nil_append]
  | idle =>
    obtain rfl : q' = q := h
    rw [pushed, popped, List.append_nil, List.nil_append]

end DequeOp

section Runs
variable {k : κ} {q q' : List ν} {ops : List (DequeOp κ ν)}

/-- The values pushed, and those there at the start, are the values popped and those there at the end. -/
theorem deque_perm (h : Run (DequeOp.At k) q ops q') :
    (q ++ ops.flatMap (DequeOp.pushed k)).Perm (ops.flatMap (DequeOp.popped k) ++ q') := by
  induction h with
  | nil => simp
  | @snoc q₁ q₂ ops op _ hop ih =>
    rw [List.flatMap_append, List.flatMap_append, List.flatMap_singleton,
      List.flatMap_singleton, ← List.append_assoc, List.append_assoc (ops.flatMap _)]
    refine (ih.append_right _).trans ?_
    rw [List.append_assoc]
    exact hop.perm.append_left _

theorem deque_fifo (h : Run (DequeOp.At k) q ops q') (hf : ∀ op ∈ ops, op.Fifo k) :
    q ++ ops.flatMap (DequeOp.pushed k) = ops.flatMap (DequeOp.popped k) ++ q' := by
  induction h with
  | nil => simp
  | @snoc q₁ q₂ ops op _ hop ih =>
    have hop' := hop.eq (hf op (List.mem_append_right _ (List.mem_singleton_self op)))
    rw [List.flatMap_append, List.flatMap_append, List.flatMap_singleton,
      List.flatMap_singleton, ← List.append_assoc,
      ih fun op' hmem => hf op' (List.mem_append_left _ hmem), List.append_assoc, hop', List.append_assoc]

end Runs
end PulseDB.Lib
