import PulseDB.Lib.Restart

/-!
# Streams of frames

* `Frame p a b` : the tokens `b` are one item `a` for the parser, whatever follows them, and a part of them is
  neither an item nor an error. A stream of frames is `xs.flatMap g`, where `g x` is a frame for the item
  `f x`;
* `exists_reaches_frames` : from a part of such a stream the parser reads the first items, and then waits for
  more tokens;
* `Reaches.of_frames` : what it reads on its way; `frames_next` : how it goes on;
* `feedAll_frames` : a reader that is fed a part of the stream, in any chunks.
-/

namespace PulseDB.Lib

variable {α β τ : Type} {p : List τ → Parse (α × ℕ)}

structure Frame (p : List τ → Parse (α × ℕ)) (a : α) (b : List τ) : Prop where
  whole : ∀ x, p (b ++ x) = .ok (a, b.length)
  part : ∀ q y, y ≠ [] → b = q ++ y → p q = .incomplete

/-- A part of two streams in a row ends in the first one, or holds it and a part of the second. -/
theorem prefix_append_cases {part b rest : List τ} (h : part <+: b ++ rest) :
    (∃ y, y ≠ [] ∧ b = part ++ y) ∨ ∃ part', part = b ++ part' ∧ part' <+: rest := by
  obtain ⟨y, hy⟩ := h
  rcases List.append_eq_append_iff.mp hy with ⟨c, rfl, hc⟩ | ⟨c, rfl, hc⟩
  · by_cases hnil : c = []
    · subst hnil
      exact Or.inr ⟨[], by simp, List.nil_prefix⟩
    · exact Or.inl ⟨c, hnil, rfl⟩
  · exact Or.inr ⟨c, rfl, y, hc.symm⟩

section Frames
variable {f : β → α} {g : β → List τ} {xs : List β} {part left : List τ} {read : List α}

theorem frames_next (hp : Resumable p) (h : ∀ x ∈ xs, Frame p (f x) (g x)) (hpart : part <+: xs.flatMap g) :
    p part = .incomplete ∨ ∃ x rest part', xs = x :: rest ∧ part = g x ++ part' ∧ part' <+: rest.flatMap g ∧
      p part = .ok (f x, (g x).length) := by
  cases xs with
  | nil =>
    obtain rfl := List.prefix_nil.mp hpart
    exact Or.inl hp.nil
  | cons x rest =>
    have hx := h x List.mem_cons_self
    rcases prefix_append_cases hpart with ⟨y, hy, hfirst⟩ | ⟨part', rfl, hpart'⟩
    · exact Or.inl (hx.part part y hy hfirst)
    · exact Or.inr ⟨x, rest, part', rfl, rfl, hpart', hx.whole part'⟩

theorem Reaches.of_frames (hp : Resumable p) (hreads : Reaches p part read left) : ∀ {xs : List β},
    (∀ x ∈ xs, Frame p (f x) (g x)) → part <+: xs.flatMap g →
    ∃ k ≤ xs.length, read = (xs.take k).map f ∧ part = (xs.take k).flatMap g ++ left ∧
      left <+: (xs.drop k).flatMap g := by
  induction hreads with
  | done b => exact fun _ hpart => ⟨0, Nat.zero_le _, rfl, rfl, hpart⟩
  | item hok _ ih =>
    intro xs h hpart
    rcases frames_next hp h hpart with hwaits | ⟨x, rest, part', rfl, rfl, hpart', hok'⟩
    · cases hok.symm.trans hwaits
    · cases hok.symm.trans hok'
      rw [List.drop_left] at ih
      obtain ⟨k, hk, rfl, rfl, hleft⟩ := ih (fun y hy => h y (List.mem_cons_of_mem _ hy)) hpart'
      exact ⟨k + 1, Nat.succ_le_succ hk, rfl, by simp, hleft⟩

/-- The parser reads the first items from a part of the stream, and then waits. -/
theorem exists_reaches_frames (hp : Resumable p) :
    ∀ {xs : List β} {part : List τ}, (∀ x ∈ xs, Frame p (f x) (g x)) →
    part <+: xs.flatMap g → ∃ k ≤ xs.length, ∃ left, Reaches p part ((xs.take k).map f) left ∧
    p left = .incomplete ∧
      (part = xs.flatMap g → k = xs.length) := by
  intro xs
  induction xs with
  | nil =>
    intro part _ hpart
    obtain rfl := List.prefix_nil.mp hpart
    exact ⟨0, Nat.le_refl _, [], .done _, hp.nil, fun _ => rfl⟩
  | cons x rest ih =>
    intro part h hpart
    obtain ⟨hx, hrest⟩ := List.forall_mem_cons.mp h
    rcases prefix_append_cases hpart with ⟨y, hy, hfirst⟩ | ⟨part', rfl, hpart'⟩
    · refine ⟨0, Nat.zero_le _, part, .done _, hx.part part y hy hfirst, fun hall => ?_⟩
      rw [List.flatMap_cons, hfirst, List.append_assoc, List.self_eq_append_right] at hall
      exact absurd (List.append_eq_nil_iff.mp hall).1 hy
    · obtain ⟨k, hk, left, hreads, hwaits, hall⟩ := ih hrest hpart'
      refine ⟨k + 1, Nat.succ_le_succ hk, left, .item (hx.whole part') ?_, hwaits, fun heq => ?_⟩
      · rwa [List.drop_left]
      · rw [hall (List.append_cancel_left heq), List.length_cons]

/-- A reader that is fed a part of the stream, in any chunks, reads the first items and meets no error; if it
is the whole stream, it reads them all. -/
theorem feedAll_frames (hp : Resumable p) (h : ∀ x ∈ xs, Frame p (f x) (g x)) {chunks : List (List τ)}
    (hpart : chunks.flatten <+: xs.flatMap g) : (feedAll p chunks).failed = false ∧
      ∃ k ≤ xs.length, (feedAll p chunks).items = (xs.take k).map f ∧
        (chunks.flatten = xs.flatMap g → k = xs.length) := by
  rcases feedAll_cases hp chunks with ⟨hok, hreads, hwaits⟩ | ⟨-, cs, ds, r, rfl, hreads, herror⟩
  · obtain ⟨k, hk, left, hreads', hwaits', hall⟩ := exists_reaches_frames hp h hpart
    obtain ⟨heq, -⟩ := hreads.unique hreads' (by simp [hwaits]) (by simp [hwaits'])
    exact ⟨hok, k, hk, heq, hall⟩
  · -- at a cut the parser waits as well
    have hcut : cs.flatten <+: xs.flatMap g := by
      rw [List.flatten_append] at hpart
      exact (List.prefix_append _ _).trans hpart
    obtain ⟨_, -, left, hreads', hwaits', -⟩ := exists_reaches_frames hp h hcut
    obtain ⟨-, rfl⟩ := hreads.unique hreads' (by simp [herror]) (by simp [hwaits'])
    rw [herror] at hwaits'
    cases hwaits'

end Frames
end PulseDB.Lib
