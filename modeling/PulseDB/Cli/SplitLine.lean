import PulseDB.Bytes
import Mathlib.Data.List.TakeWhile

/-!
# Splitting a line into words (`tools/cli.c`)

The prompt reads a line with `fgets` and splits it in place of a shell: `split_line` copies the words, each
with a terminator behind it, into a block as large as the line, and their addresses into an array.

* `splitLine` : the function, with what it has written when it returns; `Split.words` : the strings in `argv`;
* `wordLoop_stops` : a word is copied to at most as many bytes as it is written with, and ends before a
  separator;
* `splitLoop_fits` : the terminators fit as well, since a separator stands between two words;
* `split_line_fits` : the block and the array are never overrun.
-/

namespace PulseDB.Cli

/-! ## The function -/

def maxLine : ℕ := 65536

def maxArgs : ℕ := 1024

/-- The bytes between words: blank, tab, carriage return, newline. -/
def isSeparator (c : UInt8) : Bool := c == 32 || c == 9 || c == 13 || c == 10

/-- What a backslash makes of the byte behind it. -/
def unescape (c : UInt8) : UInt8 := if c = 110 then 10 else if c = 116 then 9 else if c = 114 then 13 else c

/-- Where the loop over a word stops: the quote that is open or 0, the rest of the line, the bytes written. -/
structure WordEnd where
  quote : UInt8
  p : Bytes
  out : Bytes
  deriving DecidableEq, Repr

/-- The loop of `split_line` over one word. -/
def wordLoop : (quote : UInt8) → (p out : Bytes) → WordEnd
  | quote, [], out => ⟨quote, [], out⟩
  | quote, c :: p, out =>
    if quote ≠ 0 then
      if c = quote then wordLoop 0 p out
      else
        match p with
        | [] => wordLoop quote [] (out ++ [c])
        | d :: p =>
          if quote = 34 ∧ c = 92 then wordLoop quote p (out ++ [unescape d])
          else wordLoop quote (d :: p) (out ++ [c])
    else if isSeparator c then ⟨quote, c :: p, out⟩
    else if c = 34 ∨ c = 39 then wordLoop c p out
    else wordLoop quote p (out ++ [c])

/-- What `split_line` leaves: its result, the bytes written to the block, the entries written to `argv` as
offsets. -/
structure Split where
  result : Int
  store : Bytes
  argv : List ℕ
  deriving DecidableEq, Repr

/-- The line is at its end or at a separator. -/
def AtGap (p : Bytes) : Prop := ∀ c ∈ p.head?, isSeparator c = true

theorem atGap_nil : AtGap [] := fun c h => by cases h

theorem atGap_cons {c : UInt8} {p : Bytes} : AtGap (c :: p) ↔ isSeparator c = true :=
  ⟨fun h => h c rfl, fun h d hd => by cases hd; exact h⟩

theorem wordLoop_unquoted (c : UInt8) (p out : Bytes) :
    wordLoop 0 (c :: p) out =
      if isSeparator c then ⟨0, c :: p, out⟩
      else if c = 34 ∨ c = 39 then wordLoop c p out
      else wordLoop 0 p (out ++ [c]) := by
  cases p <;> rfl

/-- The loop over a word copies at most as many bytes as it uses, and stops at the end or at a separator. -/
theorem wordLoop_stops (quote : UInt8) (p out : Bytes) :
    out.length ≤ (wordLoop quote p out).out.length ∧
      (wordLoop quote p out).out.length + (wordLoop quote p out).p.length ≤ out.length + p.length ∧
      AtGap (wordLoop quote p out).p := by
  have hcopy : ∀ c : UInt8, ∀ out : Bytes, (out ++ [c]).length = out.length + 1 := fun c out => by
    rw [List.length_append, List.length_singleton]
  fun_induction wordLoop quote p out with
  | case1 quote out => exact ⟨Nat.le_refl _, Nat.le_refl _, atGap_nil⟩
  | case2 c p out _ ih =>
    -- the closing quote
    rw [List.length_cons]
    exact ⟨by omega, by omega, ih.2.2⟩
  | case3 quote c out _ _ ih =>
    rw [hcopy, List.length_nil] at ih
    rw [List.length_singleton]
    exact ⟨by omega, by omega, ih.2.2⟩
  | case4 quote c out _ _ d p _ ih =>
    -- an escaped byte
    rw [hcopy] at ih
    rw [List.length_cons, List.length_cons]
    exact ⟨by omega, by omega, ih.2.2⟩
  | case5 quote c out _ _ d p _ ih =>
    rw [hcopy] at ih
    rw [List.length_cons (a := c)]
    exact ⟨by omega, by omega, ih.2.2⟩
  | case6 quote c p out hquote hsep => exact ⟨Nat.le_refl _, Nat.le_refl _, atGap_cons.mpr hsep⟩
  | case7 quote c p out _ _ _ ih =>
    -- an opening quote
    rw [List.length_cons]
    exact ⟨by omega, by omega, ih.2.2⟩
  | case8 quote c p out _ _ _ ih =>
    rw [hcopy] at ih
    rw [List.length_cons]
    exact ⟨by omega, by omega, ih.2.2⟩

theorem wordLoop_shrinks {p out : Bytes} (h : p.dropWhile isSeparator ≠ []) :
    (wordLoop 0 (p.dropWhile isSeparator) out).p.length < p.length := by
  have hle := (List.dropWhile_sublist isSeparator (l := p)).length_le
  have hhead := List.head?_dropWhile_not isSeparator p
  obtain ⟨c, rest, hrest⟩ := List.exists_cons_of_ne_nil h
  rw [hrest] at hhead hle ⊢
  have hc : ¬ isSeparator c = true := by
    rw [show isSeparator c = false from hhead]
    exact Bool.false_ne_true
  have hshort : ∀ (quote : UInt8) (out : Bytes), (wordLoop quote rest out).p.length ≤ rest.length := by
    intro quote out
    have hstops := wordLoop_stops quote rest out
    omega
  rw [List.length_cons] at hle
  rw [wordLoop_unquoted, if_neg hc]
  split
  · have := hshort c out
    omega
  · have := hshort 0 (out ++ [c])
    omega

/-- The loop of `split_line`: the rest of the line, the bytes and the entries written so far. -/
def splitLoop (maxArgs : ℕ) (p out : Bytes) (argv : List ℕ) : Split :=
  let word := p.dropWhile isSeparator
  if hword : word = [] then ⟨argv.length, out, argv⟩
  else if argv.length = maxArgs then ⟨-1, out, argv⟩
  else
    let argv := argv ++ [out.length]
    let stop := wordLoop 0 word out
    if stop.quote ≠ 0 then ⟨-1, stop.out, argv⟩
    else splitLoop maxArgs stop.p (stop.out ++ [0]) argv
termination_by p.length
decreasing_by exact wordLoop_shrinks hword

/-- The function `split_line`. -/
def splitLine (line : Bytes) (maxArgs : ℕ) : Split := splitLoop maxArgs (cstr line) [] []

/-- The strings that the entries of `argv` point to. -/
def Split.words (r : Split) : List Bytes := r.argv.map fun start => cstr (r.store.drop start)

/-- The function `fgets(line, size, stdin)`: the line, and what is left to read. -/
def fgets (size : ℕ) (stdin : Bytes) : Option (Bytes × Bytes) :=
  if stdin = [] then none
  else
    let room := stdin.take (size - 1)
    let n := if lf ∈ room then room.idxOf lf + 1 else room.length
    some (stdin.take n, stdin.drop n)

/-! ## The block and the array -/

theorem dropWhile_atGap {p : Bytes} (h : AtGap p) (hne : p ≠ []) :
    (p.dropWhile isSeparator).length < p.length := by
  cases p with
  | nil => exact absurd rfl hne
  | cons c p =>
    rw [List.dropWhile_cons_of_pos (atGap_cons.mp h)]
    exact Nat.lt_succ_of_le (List.dropWhile_sublist isSeparator).length_le

theorem length_snoc_le {argv : List ℕ} {n m : ℕ} (h : argv.length ≤ n) (hne : argv.length ≠ n) :
    (argv ++ [m]).length ≤ n := by
  rw [List.length_append, List.length_singleton]
  omega

/-- What is written behind the bytes so far fits in the rest of the line and one byte more; from a gap, in the
rest of the line: the separator pays for the terminator of the next word. -/
theorem splitLoop_fits (maxArgs : ℕ) (p out : Bytes) (argv : List ℕ) :
    (splitLoop maxArgs p out argv).store.length ≤ out.length + p.length + 1 ∧
      (AtGap p → (splitLoop maxArgs p out argv).store.length ≤ out.length + p.length) ∧
      (argv.length ≤ maxArgs → (splitLoop maxArgs p out argv).argv.length ≤ maxArgs) := by
  fun_induction splitLoop maxArgs p out argv with
  | case1 p out argv => exact ⟨Nat.le_succ_of_le (Nat.le_add_right _ _), fun _ => Nat.le_add_right _ _, id⟩
  | case2 p out argv => exact ⟨Nat.le_succ_of_le (Nat.le_add_right _ _), fun _ => Nat.le_add_right _ _, id⟩
  | case3 p out argv word hword hroom argv' stop hquote =>
    have hskip : word.length ≤ p.length := (List.dropWhile_sublist isSeparator).length_le
    have hused : stop.out.length + stop.p.length ≤ out.length + word.length := (wordLoop_stops 0 word out).2.1
    have hstore : stop.out.length ≤ out.length + p.length := by omega
    exact ⟨Nat.le_succ_of_le hstore, fun _ => hstore, fun h => length_snoc_le h hroom⟩
  | case4 p out argv word hword hroom argv' stop hquote ih =>
    have hskip : word.length ≤ p.length := (List.dropWhile_sublist isSeparator).length_le
    have hused : stop.out.length + stop.p.length ≤ out.length + word.length := (wordLoop_stops 0 word out).2.1
    -- the bytes of this word, its terminator and all that follows
    have hstore := ih.2.1 (wordLoop_stops 0 word out).2.2
    rw [List.length_append, List.length_singleton] at hstore
    refine ⟨by omega, fun hp => ?_, fun h => ih.2.2 (length_snoc_le h hroom)⟩
    have hpaid : word.length < p.length := by
      refine dropWhile_atGap hp ?_
      rintro rfl
      exact hword rfl
    omega

theorem fgets_length {size : ℕ} {stdin line rest : Bytes} (h : fgets size stdin = some (line, rest)) :
    line.length ≤ size - 1 := by
  unfold fgets at h
  split at h
  · cases h
  · simp only [Option.some.injEq, Prod.mk.injEq] at h
    rw [← h.1, List.length_take]
    have hroom : (stdin.take (size - 1)).length ≤ size - 1 := List.length_take_le _ _
    split
    · rename_i hlf
      have := List.idxOf_lt_length_iff.mpr hlf
      omega
    · omega

/-- Whatever the line is and whatever `split_line` returns, it has written at most one byte more than the line
has to the block, and no entry of `argv` at `max_args` or beyond. So the block of the prompt, as long as its
line buffer, holds the words of every line that `fgets` returns. -/
theorem split_line_fits (line : Bytes) (slots : ℕ) :
    (splitLine line slots).store.length ≤ (cstr line).length + 1 ∧
      (∀ i < (splitLine line slots).argv.length, i < slots) ∧
      ∀ stdin read rest, fgets maxLine stdin = some (read, rest) →
        (splitLine read maxArgs).store.length ≤ maxLine ∧ (splitLine read maxArgs).argv.length ≤ maxArgs := by
  have hfits : ∀ line slots, (splitLine line slots).store.length ≤ (cstr line).length + 1 ∧
      (splitLine line slots).argv.length ≤ slots := by
    intro line slots
    obtain ⟨hstore, -, hargv⟩ := splitLoop_fits slots (cstr line) [] []
    rw [List.length_nil, Nat.zero_add] at hstore
    exact ⟨hstore, hargv (Nat.zero_le _)⟩
  refine ⟨(hfits line slots).1, fun i hi => hi.trans_le (hfits line slots).2, fun stdin read rest hread => ?_⟩
  have hread := fgets_length hread
  have hstr : (cstr read).length ≤ read.length := (List.takeWhile_sublist _).length_le
  have hstore := (hfits read maxArgs).1
  unfold maxLine at hread ⊢
  exact ⟨by omega, (hfits read maxArgs).2⟩

/-- The bound is attained by a word at the end of a line. -/
example : (splitLine (ascii "get k") 2).store.length = (cstr (ascii "get k")).length + 1 := by decide +kernel

end PulseDB.Cli
