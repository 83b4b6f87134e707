import Mathlib.Order.Defs.Unbundled
import Mathlib.Data.List.Basic

/-!
# A log and its reader

The entries of a log are sorted by a key. A reader holds a cursor, the key of the last entry it was given, and
is given entries from the first one behind the cursor on.

* `ReadTo lt key bottom c seen rest` : the reader at `c` has been given `seen`, and `rest` is left of the log;
* `ReadTo.start` : a reader at the bottom; `ReadTo.extend` : the log grows; `ReadTo.advance` : the reader is
  given more;
* `ReadTo.unread` : the entries behind the cursor are those it has not been given.
-/

namespace PulseDB.Lib

variable {ε κ : Type}

/-- A reader whose cursor is `c` has been given `seen` of the log `seen ++ rest`. -/
structure ReadTo (lt : κ → κ → Prop) (key : ε → κ) (bottom c : κ) (seen rest : List ε) : Prop where
  sorted : (seen ++ rest).Pairwise fun a b => lt (key a) (key b)
  above : ∀ a ∈ seen ++ rest, lt bottom (key a)
  past : ∀ a ∈ seen, ¬ lt c (key a)
  ahead : ∀ b ∈ rest, lt c (key b)
  cursor : c = bottom ∨ ∃ a ∈ seen, key a = c

namespace ReadTo
variable {lt : κ → κ → Prop} {key : ε → κ} {bottom c : κ} {seen rest : List ε}

theorem start (hsorted : rest.Pairwise fun a b => lt (key a) (key b))
    (habove : ∀ a ∈ rest, lt bottom (key a)) :
    ReadTo lt key bottom bottom [] rest :=
  ⟨hsorted, habove, fun _ ha => absurd ha List.not_mem_nil, habove, Or.inl rfl⟩

theorem extend (h : ReadTo lt key bottom c seen rest) {more : List ε}
    (hsorted : (seen ++ rest ++ more).Pairwise fun a b => lt (key a) (key b))
      (habove : ∀ a ∈ more, lt bottom (key a)) :
    ReadTo lt key bottom c seen (rest ++ more) := by
  have hmore := (List.pairwise_append.mp hsorted).2.2
  rw [List.append_assoc] at hsorted
  refine ⟨hsorted, ?_, h.past, List.forall_mem_append.mpr ⟨h.ahead, fun b hb => ?_⟩, h.cursor⟩
  · rw [← List.append_assoc]
    exact List.forall_mem_append.mpr ⟨h.above, habove⟩
  · rcases h.cursor with rfl | ⟨a, ha, rfl⟩
    · exact habove b hb
    · exact hmore a (List.mem_append_left _ ha) b hb

variable [IsStrictOrder κ lt]

theorem advance {batch : List ε} (h : ReadTo lt key bottom c seen (batch ++ rest)) :
    ReadTo lt key bottom ((batch.getLast?.map key).getD c) (seen ++ batch) rest := by
  have hsorted := h.sorted
  have habove := h.above
  rw [← List.append_assoc] at hsorted habove
  rcases List.eq_nil_or_concat batch with rfl | ⟨init, last, rfl⟩
  · rw [List.append_nil]
    exact h
  · rw [List.concat_eq_append, List.getLast?_concat] at *
    have hlast : last ∈ seen ++ (init ++ [last]) :=
      List.mem_append_right _ (List.mem_append_right _ (List.mem_singleton_self _))
    obtain ⟨hgiven, -, hrest⟩ := List.pairwise_append.mp hsorted
    refine ⟨hsorted, habove, fun a ha => ?_, fun b hb => hrest last hlast b hb, Or.inr ⟨last, hlast, rfl⟩⟩
    rw [← List.append_assoc] at ha hgiven
    rcases List.mem_append.mp ha with ha | ha
    · exact asymm_of lt ((List.pairwise_append.mp hgiven).2.2 a ha last (List.mem_singleton_self _))
    · rw [List.mem_singleton.mp ha]
      exact irrefl_of lt _

omit [IsStrictOrder κ lt] in
theorem unread (h : ReadTo lt key bottom c seen rest) {p : ε → Bool} (hp : ∀ a, p a = true ↔ ¬ lt c (key a)) :
    (seen ++ rest).dropWhile p = rest := by
  rw [List.dropWhile_append_of_pos fun a ha => (hp a).mpr (h.past a ha)]
  cases rest with
  | nil => rfl
  | cons b rest => exact List.dropWhile_cons_of_neg fun hb => (hp b).mp hb (h.ahead b List.mem_cons_self)

end ReadTo
end PulseDB.Lib
