import Mathlib.Data.List.Basic
import Mathlib.Data.List.Induction
import Mathlib.Tactic.Common

/-!
# Restartable parsers

A parser that reads one item from the front of a buffer answers `ok` with the item and the number of tokens
used, `incomplete` when more tokens are needed, or `error`.

* `Parse` : the answers, with the monad in which a step that is not `ok` ends the parse;
* `OkStable f` : an `ok` answer is kept by every extension of the buffer;
* `drain p b` : read items until the parser does not answer `ok`; `feed p s chunk` : append a chunk to what is
  left and drain again;
* `Reaches p b items r` : the parser reads `items` from `b` and `r` is left;
* `Resumable p`, `Restartable p` : what a reader needs of its parser, and what it needs not to take an error
  back;
* `feedAll_agrees_iff` : feeding a stream in chunks gives what feeding it at once gives, unless the parser
  answers `error` at some cut and takes it back to `incomplete` on the rest of the stream;
* `feedAll_items_iff` : the same for the items alone, and a parser that may take an error back to `ok`.
-/

namespace PulseDB.Lib

/-- The answer of a parser. -/
inductive Parse (α : Type) where
  | ok (a : α)
  | incomplete
  | error
  deriving DecidableEq, Repr

namespace Parse
variable {α β τ : Type}

/-- The answer is `error`. -/
def isError : Parse α → Bool
  | .error => true
  | _ => false

@[simp] theorem isError_ok (a : α) : (Parse.ok a).isError = false := rfl

@[simp] theorem isError_incomplete : (Parse.incomplete : Parse α).isError = false := rfl

@[simp] theorem isError_error : (Parse.error : Parse α).isError = true := rfl

instance : Monad Parse where
  pure := .ok
  bind m f :=
    match m with
    | .ok a => f a
    | .incomplete => .incomplete
    | .error => .error

@[simp] theorem pure_eq (a : α) : (pure a : Parse α) = .ok a := rfl

@[simp] theorem ok_bind (a : α) (f : α → Parse β) : (Parse.ok a >>= f) = f a := rfl

@[simp] theorem incomplete_bind (f : α → Parse β) : ((Parse.incomplete : Parse α) >>= f) = .incomplete := rfl

@[simp] theorem error_bind (f : α → Parse β) : ((Parse.error : Parse α) >>= f) = .error := rfl

theorem bind_assoc {γ : Type} (m : Parse α) (f : α → Parse β) (g : β → Parse γ) :
    (m >>= f) >>= g = m >>= fun a => f a >>= g := by
  cases m <;> rfl

theorem bind_eq_ok {m : Parse α} {f : α → Parse β} {b : β} :
    m >>= f = .ok b ↔ ∃ a, m = .ok a ∧ f a = .ok b := by
  cases m <;> simp

theorem bind_eq_error {m : Parse α} {f : α → Parse β} :
    m >>= f = .error ↔ m = .error ∨ ∃ a, m = .ok a ∧ f a = .error := by
  cases m <;> simp

/-- An `ok` answer is kept by every extension of the buffer. -/
def OkStable (f : List τ → Parse α) : Prop := ∀ b x a, f b = .ok a → f (b ++ x) = .ok a

end Parse

/-! ## Draining a buffer -/

section Feed
variable {α τ : Type}

/-- A reader of a stream: the items read so far, the tokens left over, and whether it met an error. -/
structure Feed (α τ : Type) where
  items : List α
  rest : List τ
  failed : Bool

/-- Read at most `rounds` items from the front of the buffer. -/
def drainLoop (p : List τ → Parse (α × ℕ)) : ℕ → List τ → Feed α τ
  | 0, b => ⟨[], b, false⟩
  | rounds + 1, b =>
    match p b with
    | .incomplete => ⟨[], b, false⟩
    | .error => ⟨[], b, true⟩
    | .ok (a, used) =>
      let d := drainLoop p rounds (b.drop used)
      { d with items := a :: d.items }

/-- Read items until the parser needs more tokens or answers `error`. Every item uses a token, so a round for
each token is enough (`drain_of_reaches`). -/
def drain (p : List τ → Parse (α × ℕ)) (b : List τ) : Feed α τ := drainLoop p (b.length + 1) b

/-- Append a chunk to what is left and drain. A reader that met an error only collects. -/
def feed (p : List τ → Parse (α × ℕ)) (s : Feed α τ) (chunk : List τ) : Feed α τ :=
  if s.failed then { s with rest := s.rest ++ chunk }
  else
    let d := drain p (s.rest ++ chunk)
    { d with items := s.items ++ d.items }

/-- Feed the chunks one after the other. -/
def feedAll (p : List τ → Parse (α × ℕ)) (chunks : List (List τ)) : Feed α τ :=
  chunks.foldl (feed p) ⟨[], [], false⟩

/-- The same items and the same final status: an error, or the same tokens left over. -/
def Feed.Agrees (s s' : Feed α τ) : Prop :=
  s.items = s'.items ∧ s.failed = s'.failed ∧ (s.failed = false → s.rest = s'.rest)

/-- The parser reads `items` from the front of the buffer and `r` is left. -/
inductive Reaches (p : List τ → Parse (α × ℕ)) : List τ → List α → List τ → Prop
  | done (b : List τ) : Reaches p b [] b
  | item {b r : List τ} {a : α} {used : ℕ} {items : List α} (h : p b = .ok (a, used))
      (hr : Reaches p (b.drop used) items r) : Reaches p b (a :: items) r

/-- What a request parser promises, errors aside. -/
structure Restartable (p : List τ → Parse (α × ℕ)) : Prop where
  progress : ∀ {b a used}, p b = .ok (a, used) → 0 < used ∧ used ≤ b.length
  ok_stable : Parse.OkStable p
  error_not_ok : ∀ {b x a}, p b = .error → p (b ++ x) ≠ .ok a
  nil : p [] = .incomplete

/-- What any reader of a stream needs of its parser. -/
structure Resumable (p : List τ → Parse (α × ℕ)) : Prop where
  progress : ∀ {b a used}, p b = .ok (a, used) → 0 < used ∧ used ≤ b.length
  ok_stable : Parse.OkStable p
  nil : p [] = .incomplete

variable {p : List τ → Parse (α × ℕ)}

theorem Restartable.resumable (hp : Restartable p) : Resumable p := ⟨hp.progress, hp.ok_stable, hp.nil⟩

theorem Reaches.trans {b r r' : List τ} {xs ys : List α} (h : Reaches p b xs r) (h' : Reaches p r ys r') :
    Reaches p b (xs ++ ys) r' := by
  induction h with
  | done b => exact h'
  | item ha _ ih => exact .item ha (ih h')

theorem Reaches.append (hp : Resumable p) {b r : List τ} {xs : List α} (h : Reaches p b xs r) (x : List τ) :
    Reaches p (b ++ x) xs (r ++ x) := by
  induction h with
  | done b => exact .done _
  | @item b r a used items ha _ ih =>
    refine .item (hp.ok_stable b x _ ha) ?_
    rw [List.drop_append_of_le_length (hp.progress ha).2]
    exact ih

theorem Reaches.extends {b r r' : List τ} {xs ys : List α} (h : Reaches p b xs r) (h' : Reaches p b ys r')
    (hr' : ∀ a, p r' ≠ .ok a) : ∃ zs, Reaches p r zs r' ∧ ys = xs ++ zs := by
  induction h generalizing ys with
  | done b => exact ⟨ys, h', rfl⟩
  | item ha _ ih =>
    cases h' with
    | done => exact absurd ha (hr' _)
    | item ha' h' =>
      rw [ha] at ha'
      cases ha'
      obtain ⟨zs, hzs, rfl⟩ := ih h'
      exact ⟨zs, hzs, rfl⟩

/-- The tokens left when the parser stops, and the items read before, are determined by the buffer. -/
theorem Reaches.unique {b r r' : List τ} {xs ys : List α} (h : Reaches p b xs r) (h' : Reaches p b ys r')
    (hr : ∀ a, p r ≠ .ok a) (hr' : ∀ a, p r' ≠ .ok a) : xs = ys ∧ r = r' := by
  obtain ⟨zs, hzs, rfl⟩ := h.extends h' hr'
  cases hzs with
  | done => exact ⟨(List.append_nil xs).symm, rfl⟩
  | item ha _ => exact absurd ha (hr _)

theorem drainLoop_of_reaches (hp : Resumable p) {b r : List τ} {xs : List α} (h : Reaches p b xs r)
    (hr : ∀ a, p r ≠ .ok a) : ∀ rounds, b.length < rounds →
      drainLoop p rounds b = ⟨xs, r, (p r).isError⟩ := by
  induction h with
  | done b =>
    intro rounds hl
    obtain ⟨n, rfl⟩ : ∃ n, rounds = n + 1 := ⟨rounds - 1, by omega⟩
    unfold drainLoop
    cases hb : p b with
    | ok a => exact absurd hb (hr a)
    | incomplete => simp
    | error => simp
  | @item b r a used items ha _ ih =>
    intro rounds hl
    obtain ⟨n, rfl⟩ : ∃ n, rounds = n + 1 := ⟨rounds - 1, by omega⟩
    obtain ⟨hpos, hle⟩ := hp.progress ha
    unfold drainLoop
    rw [ha]
    simp only
    rw [ih hr n (by rw [List.length_drop]; omega)]

theorem drain_of_reaches (hp : Resumable p) {b r : List τ} {xs : List α} (h : Reaches p b xs r)
    (hr : ∀ a, p r ≠ .ok a) : drain p b = ⟨xs, r, (p r).isError⟩ :=
  drainLoop_of_reaches hp h hr _ (by omega)

theorem exists_reaches (hp : Resumable p) : ∀ (n : ℕ) (b : List τ), b.length ≤ n →
    ∃ xs r, Reaches p b xs r ∧ ∀ a, p r ≠ .ok a
  | 0, b, hb => by
    obtain rfl : b = [] := List.eq_nil_of_length_eq_zero (by omega)
    exact ⟨[], [], .done _, by simp [hp.nil]⟩
  | n + 1, b, hb => by
    cases h : p b with
    | ok a =>
      obtain ⟨hpos, hle⟩ := hp.progress (show p b = .ok (a.1, a.2) from h)
      obtain ⟨xs, r, hr, hs⟩ := exists_reaches hp n (b.drop a.2) (by rw [List.length_drop]; omega)
      exact ⟨a.1 :: xs, r, .item h hr, hs⟩
    | incomplete => exact ⟨[], b, .done _, by simp [h]⟩
    | error => exact ⟨[], b, .done _, by simp [h]⟩

/-- What the parser reads on its way is the beginning of what draining reads. -/
theorem Reaches.isPrefix (hp : Resumable p) {b r : List τ} {xs : List α} (h : Reaches p b xs r) :
    xs <+: (drain p b).items := by
  obtain ⟨ys, r', hys, hstop⟩ := exists_reaches hp _ b (Nat.le_refl _)
  obtain ⟨zs, -, rfl⟩ := h.extends hys hstop
  rw [drain_of_reaches hp hys hstop]
  exact ⟨zs, rfl⟩

theorem drain_stop (hp : Resumable p) {b : List τ} (hb : ∀ a, p b ≠ .ok a) :
    drain p b = ⟨[], b, (p b).isError⟩ :=
  drain_of_reaches hp (.done b) hb

/-- Draining a buffer that starts with an item drains what follows the item. -/
theorem drain_ok (hp : Resumable p) {b : List τ} {a : α} {used : ℕ} (hb : p b = .ok (a, used)) :
    drain p b = { drain p (b.drop used) with items := a :: (drain p (b.drop used)).items } := by
  obtain ⟨xs, r, hxs, hstop⟩ := exists_reaches hp _ (b.drop used) (Nat.le_refl _)
  rw [drain_of_reaches hp hxs hstop, drain_of_reaches hp (.item hb hxs) hstop]

theorem foldl_feed_items (a : α) : ∀ (chunks : List (List τ)) (s : Feed α τ),
    (chunks.foldl (feed p) { s with items := a :: s.items }).items = a :: (chunks.foldl (feed p) s).items
  | [], _ => rfl
  | c :: chunks, s => by
    have hfeed : feed p { s with items := a :: s.items } c =
        { feed p s c with items := a :: (feed p s c).items } := by
      unfold feed
      cases s.failed <;> rfl
    rw [List.foldl_cons, List.foldl_cons, hfeed]
    exact foldl_feed_items a chunks _

theorem feedAll_snoc (chunks : List (List τ)) (c : List τ) :
    feedAll p (chunks ++ [c]) = feed p (feedAll p chunks) c := by
  simp [feedAll]

/-- Where a reader stands after any chunks: it has read all it can, or it met an error at some cut. -/
theorem feedAll_cases (hp : Resumable p) (chunks : List (List τ)) :
    ((feedAll p chunks).failed = false ∧
        Reaches p chunks.flatten (feedAll p chunks).items (feedAll p chunks).rest ∧
        p (feedAll p chunks).rest = .incomplete) ∨
      ((feedAll p chunks).failed = true ∧ ∃ cs ds r, chunks = cs ++ ds ∧
        Reaches p cs.flatten (feedAll p chunks).items r ∧ p r = .error) := by
  induction chunks using List.reverseRecOn with
  | nil => exact Or.inl ⟨rfl, .done _, hp.nil⟩
  | append_singleton chunks c ih =>
    rw [feedAll_snoc]
    generalize feedAll p chunks = s at ih
    rcases ih with ⟨hf, hr, -⟩ | ⟨hf, cs, ds, r, rfl, hr, he⟩
    · obtain ⟨xs, r, hxs, hstop⟩ := exists_reaches hp _ (s.rest ++ c) (Nat.le_refl _)
      have hall : Reaches p (chunks ++ [c]).flatten (s.items ++ xs) r := by
        have := (hr.append hp c).trans hxs
        simpa using this
      rw [feed, if_neg (by simp [hf]), drain_of_reaches hp hxs hstop]
      cases hpr : p r with
      | ok a => exact absurd hpr (hstop a)
      | incomplete => exact Or.inl ⟨rfl, hall, rfl⟩
      | error => exact Or.inr ⟨rfl, chunks ++ [c], [], r, by simp, hall, hpr⟩
    · rw [feed, if_pos hf]
      exact Or.inr ⟨hf, cs, ds ++ [c], r, by simp, hr, he⟩

theorem feedAll_singleton (b : List τ) : feedAll p [b] = drain p b := by
  simp [feedAll, feed]

theorem feedAll_eq_foldl_drain (hp : Resumable p) (chunks : List (List τ)) :
    feedAll p chunks = chunks.foldl (feed p) (drain p []) := by
  rw [drain_stop hp (by simp [hp.nil]), hp.nil]
  rfl

theorem foldl_feed_failed : ∀ (ds : List (List τ)) (s : Feed α τ), s.failed = true →
    (ds.foldl (feed p) s).failed = true ∧ (ds.foldl (feed p) s).items = s.items
  | [], _, hs => ⟨hs, rfl⟩
  | d :: ds, s, hs => by
    have hfeed : feed p s d = { s with rest := s.rest ++ d } := by rw [feed, if_pos hs]
    rw [List.foldl_cons, hfeed]
    exact foldl_feed_failed ds _ hs

theorem feedAll_failed (hp : Resumable p) {cs : List (List τ)} {items : List α} {r : List τ}
    (hr : Reaches p cs.flatten items r) (he : p r = .error) (ds : List (List τ)) :
    (feedAll p (cs ++ ds)).failed = true ∧ ∃ ys, items = (feedAll p (cs ++ ds)).items ++ ys := by
  have hall : feedAll p (cs ++ ds) = ds.foldl (feed p) (feedAll p cs) := by
    rw [feedAll, List.foldl_append]
    rfl
  have hstop : ∀ a, p r ≠ .ok a := by simp [he]
  rw [hall]
  rcases feedAll_cases hp cs with ⟨-, hr', hi'⟩ | ⟨hf, cs', ds', r', rfl, hr', -⟩
  · obtain ⟨-, rfl⟩ := hr.unique hr' hstop (by simp [hi'])
    rw [he] at hi'
    cases hi'
  · obtain ⟨hfailed, hitems⟩ := foldl_feed_failed (p := p) ds (feedAll p (cs' ++ ds')) hf
    have hwhole := hr'.append hp ds'.flatten
    rw [← List.flatten_append] at hwhole
    obtain ⟨zs, -, hzs⟩ := hwhole.extends hr hstop
    exact ⟨hfailed, zs, by rw [hitems]; exact hzs⟩

/-- Feeding a stream in chunks gives what feeding it at once gives, unless at some cut the parser answers
`error` on the tokens left and `incomplete` once the rest of the stream is there. -/
theorem feedAll_agrees_iff (hp : Restartable p) (chunks : List (List τ)) :
    (feedAll p chunks).Agrees (feedAll p [chunks.flatten]) ↔
      ¬ ∃ cs ds items r, chunks = cs ++ ds ∧ Reaches p cs.flatten items r ∧ p r = .error ∧
        p (r ++ ds.flatten) = .incomplete := by
  rw [feedAll_singleton]
  constructor
  · rintro ⟨-, hfail, -⟩ ⟨cs, ds, items, r, rfl, hr, he, hi⟩
    have hwhole : Reaches p (cs ++ ds).flatten items (r ++ ds.flatten) := by
      rw [List.flatten_append]; exact hr.append hp.resumable _
    rw [drain_of_reaches hp.resumable hwhole (by simp [hi]), hi] at hfail
    rw [(feedAll_failed hp.resumable hr he ds).1] at hfail
    cases hfail
  · intro hno
    rcases feedAll_cases hp.resumable chunks with ⟨hf, hr, hi⟩ | ⟨hf, cs, ds, r, rfl, hr, he⟩
    · rw [drain_of_reaches hp.resumable hr (by simp [hi]), hi]
      exact ⟨rfl, by simp [hf], fun _ => rfl⟩
    · have hwhole : Reaches p (cs ++ ds).flatten (feedAll p (cs ++ ds)).items (r ++ ds.flatten) := by
        rw [List.flatten_append]; exact hr.append hp.resumable _
      have herr : p (r ++ ds.flatten) = .error := by
        cases hpe : p (r ++ ds.flatten) with
        | ok a => exact absurd hpe (hp.error_not_ok he)
        | incomplete => exact absurd ⟨cs, ds, _, r, rfl, hr, he, hpe⟩ hno
        | error => rfl
      rw [drain_of_reaches hp.resumable hwhole (by simp [herr]), herr]
      exact ⟨rfl, by simp [hf], fun h => by rw [hf] at h; cases h⟩

/-- The chunks give the items of the whole stream, unless at some cut the parser answers `error` on the tokens
left and reads an item once the rest of the stream is there. -/
theorem feedAll_items_iff (hp : Resumable p) (chunks : List (List τ)) :
    (feedAll p chunks).items = (feedAll p [chunks.flatten]).items ↔
      ¬ ∃ cs ds items r a, chunks = cs ++ ds ∧ Reaches p cs.flatten items r ∧ p r = .error ∧
        p (r ++ ds.flatten) = .ok a := by
  rw [feedAll_singleton]
  constructor
  · rintro hitems ⟨cs, ds, items, r, a, rfl, hr, he, hok⟩
    obtain ⟨xs, r', hxs, hstop⟩ := exists_reaches hp _ ((r ++ ds.flatten).drop a.2) (Nat.le_refl _)
    have hwhole : Reaches p (cs ++ ds).flatten (items ++ a.1 :: xs) r' := by
      rw [List.flatten_append]
      exact (hr.append hp ds.flatten).trans (.item hok hxs)
    obtain ⟨-, ys, hys⟩ := feedAll_failed hp hr he ds
    rw [drain_of_reaches hp hwhole hstop, hys] at hitems
    simpa using congrArg List.length hitems
  · intro hno
    rcases feedAll_cases hp chunks with ⟨-, hr, hi⟩ | ⟨-, cs, ds, r, rfl, hr, he⟩
    · rw [drain_of_reaches hp hr (by simp [hi])]
    · have hwhole : Reaches p (cs ++ ds).flatten (feedAll p (cs ++ ds)).items (r ++ ds.flatten) := by
        rw [List.flatten_append]
        exact hr.append hp _
      rw [drain_of_reaches hp hwhole fun a hok => hno ⟨cs, ds, _, r, a, rfl, hr, he, hok⟩]

end Feed
end PulseDB.Lib
