import PulseDB.Cli.SplitLine

/-!
# The words of a line

What `split_line` takes a line for, byte by byte: words with separators between them, quotes that may open and
close anywhere in a word, and a backslash that stands for the byte behind it within double quotes.

* `Scan`, `Scan.step` : the reader; `Scan.words` : the words it has begun; `Scan.Open` : a quote is open;
* `wordLoop_scans`, `splitLoop_scans` : the loops of `split_line` follow the reader;
* `Stored` : words with their terminators in a block; `Stored.words` : the strings in `argv` are the words;
* `QuotedText`, `Written` : words between double quotes, and lines of such words; `Written.scans` : they are
  read back;
* `split_line_words` : the round trip, and the lines that are refused.
-/

namespace PulseDB.Cli

/-! ## The reader -/

/-- Where in a line the reader is. -/
inductive Mode where
  | between
  | plain
  | single
  | double
  | escaped
  deriving DecidableEq, Repr

/-- The reader: its mode, the complete words, the bytes of the word that is being read. -/
structure Scan where
  mode : Mode
  ready : List Bytes
  word : Bytes
  deriving DecidableEq, Repr

namespace Scan

/-- A byte of a word outside quotes. -/
def inWord (s : Scan) (c : UInt8) : Scan :=
  if c = 34 then { s with mode := .double }
  else if c = 39 then { s with mode := .single }
  else ⟨.plain, s.ready, s.word ++ [c]⟩

def step (s : Scan) (c : UInt8) : Scan :=
  match s.mode with
  | .between => if isSeparator c then s else s.inWord c
  | .plain => if isSeparator c then ⟨.between, s.ready ++ [s.word], []⟩ else s.inWord c
  | .single => if c = 39 then { s with mode := .plain } else { s with word := s.word ++ [c] }
  | .double =>
    if c = 34 then { s with mode := .plain }
    else if c = 92 then { s with mode := .escaped }
    else { s with word := s.word ++ [c] }
  | .escaped => ⟨.double, s.ready, s.word ++ [unescape c]⟩

def run (s : Scan) (line : Bytes) : Scan := line.foldl step s

def words (s : Scan) : List Bytes := if s.mode = .between then s.ready else s.ready ++ [s.word]

def Open (s : Scan) : Prop := s.mode = .single ∨ s.mode = .double ∨ s.mode = .escaped

instance (s : Scan) : Decidable s.Open := inferInstanceAs (Decidable (_ ∨ _))

end Scan

def scan (line : Bytes) : Scan := Scan.run ⟨.between, [], []⟩ line

namespace Scan

theorem run_nil (s : Scan) : s.run [] = s := rfl

theorem run_cons (s : Scan) (c : UInt8) (line : Bytes) : s.run (c :: line) = (s.step c).run line := rfl

theorem run_append (s : Scan) (as bs : Bytes) : s.run (as ++ bs) = (s.run as).run bs := List.foldl_append ..

theorem step_between (ready : List Bytes) (word : Bytes) (c : UInt8) :
    step ⟨.between, ready, word⟩ c =
      if isSeparator c then ⟨.between, ready, word⟩ else inWord ⟨.between, ready, word⟩ c := rfl

theorem step_word (ready : List Bytes) (word : Bytes) (c : UInt8) :
    step ⟨.plain, ready, word⟩ c =
      if isSeparator c then ⟨.between, ready ++ [word], []⟩ else inWord ⟨.plain, ready, word⟩ c := rfl

theorem step_single (ready : List Bytes) (word : Bytes) (c : UInt8) :
    step ⟨.single, ready, word⟩ c = if c = 39 then ⟨.plain, ready, word⟩ else ⟨.single, ready, word ++ [c]⟩ :=
      rfl

theorem step_double (ready : List Bytes) (word : Bytes) (c : UInt8) :
    step ⟨.double, ready, word⟩ c =
      if c = 34 then ⟨.plain, ready, word⟩
      else if c = 92 then ⟨.escaped, ready, word⟩
      else ⟨.double, ready, word ++ [c]⟩ := rfl

theorem run_escaped (ready : List Bytes) (word : Bytes) (c : UInt8) (line : Bytes) :
    run ⟨.double, ready, word⟩ (92 :: c :: line) = run ⟨.double, ready, word ++ [unescape c]⟩ line := rfl

theorem run_separators (ready : List Bytes) : ∀ {blanks : Bytes}, (∀ c ∈ blanks, isSeparator c = true) →
    run ⟨.between, ready, []⟩ blanks = ⟨.between, ready, []⟩
  | [], _ => rfl
  | c :: blanks, h => by
    rw [List.forall_mem_cons] at h
    rw [run_cons, step_between, if_pos h.1, run_separators ready h.2]

theorem run_dropWhile (ready : List Bytes) (p : Bytes) :
    run ⟨.between, ready, []⟩ (p.dropWhile isSeparator) = run ⟨.between, ready, []⟩ p := by
  have hall : ∀ c ∈ p.takeWhile isSeparator, isSeparator c = true := fun c hc => List.mem_takeWhile_imp hc
  conv_rhs => rw [← List.takeWhile_append_dropWhile (p := isSeparator) (l := p), run_append,
    run_separators ready hall]

theorem run_start (ready : List Bytes) {c : UInt8} (hc : ¬ isSeparator c = true) (p : Bytes) :
    run ⟨.between, ready, []⟩ (c :: p) = run ⟨.plain, ready, []⟩ (c :: p) := by
  rw [run_cons, run_cons, step_between, step_word, if_neg hc, if_neg hc]
  rfl

theorem run_gap (ready : List Bytes) (word : Bytes) {p : Bytes} (h : AtGap p) :
    (run ⟨.plain, ready, word⟩ p).words = (run ⟨.between, ready ++ [word], []⟩ p).words ∧
      ((run ⟨.plain, ready, word⟩ p).Open ↔ (run ⟨.between, ready ++ [word], []⟩ p).Open) := by
  cases p with
  | nil => exact ⟨rfl, by simp [run_nil, Open]⟩
  | cons c p =>
    have hc := atGap_cons.mp h
    have heq : run ⟨.plain, ready, word⟩ (c :: p) = run ⟨.between, ready ++ [word], []⟩ (c :: p) := by
      rw [run_cons, run_cons, step_word, step_between, if_pos hc, if_pos hc]
    exact ⟨congrArg words heq, by rw [heq]⟩

theorem inWord_words (s : Scan) (c : UInt8) : (s.inWord c).words.length = s.ready.length + 1 := by
  unfold inWord
  split_ifs <;> simp [words]

theorem words_length_step (s : Scan) (c : UInt8) : s.words.length ≤ (s.step c).words.length := by
  obtain ⟨mode, ready, word⟩ := s
  cases mode with
  | between =>
    rw [step_between]
    split
    · exact Nat.le_refl _
    · rw [inWord_words]
      exact Nat.le_succ _
  | plain =>
    rw [step_word]
    split
    · exact Nat.le_refl _
    · rw [inWord_words]
      simp [words]
  | single => rw [step_single]; split <;> simp [words]
  | double => rw [step_double]; split_ifs <;> simp [words]
  | escaped => simp [step, words]

theorem words_length_run (p : Bytes) : ∀ s : Scan, s.words.length ≤ (s.run p).words.length := by
  induction p with
  | nil => exact fun s => Nat.le_refl _
  | cons c p ih => exact fun s => (words_length_step s c).trans (ih _)

theorem words_length_start (ready : List Bytes) {c : UInt8} (hc : ¬ isSeparator c = true) (p : Bytes) :
    ready.length < (run ⟨.between, ready, []⟩ (c :: p)).words.length := by
  rw [run_cons, step_between, if_neg hc]
  refine Nat.lt_of_lt_of_le ?_ (words_length_run p _)
  rw [inWord_words]
  exact Nat.lt_succ_self _

end Scan

/-! ## The loop over a word -/

def modeOf (quote : UInt8) : Mode := if quote = 34 then .double else if quote = 39 then .single else .plain

def IsQuote (quote : UInt8) : Prop := quote = 0 ∨ quote = 34 ∨ quote = 39

section Steps
variable {quote c : UInt8} (ready : List Bytes) (word : Bytes)

theorem step_close (hq : IsQuote quote) (h : quote ≠ 0) :
    Scan.step ⟨modeOf quote, ready, word⟩ quote = ⟨.plain, ready, word⟩ := by
  rcases hq with rfl | rfl | rfl
  · exact absurd rfl h
  · rfl
  · rfl

theorem step_quoted (hq : IsQuote quote) (h : quote ≠ 0) (hc : c ≠ quote) (hesc : ¬ (quote = 34 ∧ c = 92)) :
    Scan.step ⟨modeOf quote, ready, word⟩ c = ⟨modeOf quote, ready, word ++ [c]⟩ := by
  rcases hq with rfl | rfl | rfl
  · exact absurd rfl h
  · have hback : c ≠ 92 := fun h => hesc ⟨rfl, h⟩
    rw [show modeOf 34 = .double from rfl, Scan.step_double, if_neg hc, if_neg hback]
  · rw [show modeOf 39 = .single from rfl, Scan.step_single, if_neg hc]

theorem step_open (hc : c = 34 ∨ c = 39) : Scan.step ⟨.plain, ready, word⟩ c = ⟨modeOf c, ready, word⟩ := by
  rcases hc with rfl | rfl
  · rfl
  · rfl

theorem step_plain (hsep : ¬ isSeparator c = true) (hc : ¬ (c = 34 ∨ c = 39)) :
    Scan.step ⟨.plain, ready, word⟩ c = ⟨.plain, ready, word ++ [c]⟩ := by
  rw [not_or] at hc
  rw [Scan.step_word, if_neg hsep, Scan.inWord, if_neg hc.1, if_neg hc.2]

theorem open_modeOf (hq : IsQuote quote) (h : quote ≠ 0) : Scan.Open ⟨modeOf quote, ready, word⟩ := by
  rcases hq with rfl | rfl | rfl
  · exact absurd rfl h
  · exact Or.inr (Or.inl rfl)
  · exact Or.inl rfl

theorem open_step (hq : IsQuote quote) (h : quote ≠ 0) (hc : c ≠ quote) :
    Scan.Open (Scan.step ⟨modeOf quote, ready, word⟩ c) := by
  by_cases hesc : quote = 34 ∧ c = 92
  · obtain ⟨rfl, rfl⟩ := hesc
    exact Or.inr (Or.inr rfl)
  · rw [step_quoted ready word hq h hc hesc]
    exact open_modeOf ready _ hq h

end Steps

/-- Where the loop over a word stops, seen from the reader, which ends as `s`: with a quote open, or at the
end of a word of which `word` has been read and the rest is copied behind `out`. -/
def Follows (ready : List Bytes) (word out : Bytes) (stop : WordEnd) (s : Scan) : Prop :=
  (stop.quote ≠ 0 → s.Open) ∧
    (stop.quote = 0 → ∃ copied, stop.out = out ++ copied ∧
      s = Scan.run ⟨.plain, ready, word ++ copied⟩ stop.p)

theorem Follows.copy {ready : List Bytes} {word out : Bytes} {stop : WordEnd} {s : Scan} {c : UInt8}
    (h : Follows ready (word ++ [c]) (out ++ [c]) stop s) : Follows ready word out stop s := by
  refine ⟨h.1, fun hclosed => ?_⟩
  obtain ⟨copied, hout, hrun⟩ := h.2 hclosed
  refine ⟨c :: copied, ?_, ?_⟩
  · rw [hout, List.append_assoc, List.singleton_append]
  · rw [hrun, List.append_assoc, List.singleton_append]

theorem wordLoop_scans (ready : List Bytes) (quote : UInt8) (p out : Bytes) (hq : IsQuote quote)
    (word : Bytes) :
    Follows ready word out (wordLoop quote p out) (Scan.run ⟨modeOf quote, ready, word⟩ p) := by
  fun_induction wordLoop quote p out generalizing word with
  | case1 quote out =>
    refine ⟨open_modeOf ready word hq, ?_⟩
    rintro rfl
    exact ⟨[], (List.append_nil _).symm, by rw [List.append_nil]; rfl⟩
  | case2 c p out hne ih =>
    rw [Scan.run_cons, step_close ready word hq hne]
    exact ih (Or.inl rfl) word
  | case3 quote c out hne hc ih => exact ⟨fun _ => open_step ready word hq hne hc, fun h => absurd h hne⟩
  | case4 quote c out hne hc d p hesc ih =>
    obtain ⟨rfl, rfl⟩ := hesc
    rw [show modeOf 34 = .double from rfl, Scan.run_escaped]
    exact (ih hq (word ++ [unescape d])).copy
  | case5 quote c out hne hc d p hesc ih =>
    rw [Scan.run_cons, step_quoted ready word hq hne hc hesc]
    exact (ih hq (word ++ [c])).copy
  | case6 quote c p out hquote hsep =>
    obtain rfl := not_not.mp hquote
    exact ⟨fun h => absurd rfl h, fun _ => ⟨[], (List.append_nil _).symm, by rw [List.append_nil]; rfl⟩⟩
  | case7 quote c p out hquote hsep hc ih =>
    obtain rfl := not_not.mp hquote
    rw [Scan.run_cons, show modeOf 0 = .plain from rfl, step_open ready word hc]
    exact ih (Or.inr hc) word
  | case8 quote c p out hquote hsep hc ih =>
    obtain rfl := not_not.mp hquote
    rw [Scan.run_cons, show modeOf 0 = .plain from rfl, step_plain ready word hsep hc]
    exact (ih hq (word ++ [c])).copy

/-! ## The block of words -/

/-- Words one behind the other, each with its terminator. -/
def layout (words : List Bytes) : Bytes := words.flatMap (· ++ [0])

/-- Where each word starts, the first at `k`. -/
def starts : ℕ → List Bytes → List ℕ
  | _, [] => []
  | k, w :: words => k :: starts (k + w.length + 1) words

/-- The block holds the words, and the entries point to them. -/
structure Stored (words : List Bytes) (store : Bytes) (argv : List ℕ) : Prop where
  store_eq : store = layout words
  argv_eq : argv = starts 0 words

theorem starts_length : ∀ (words : List Bytes) (k : ℕ), (starts k words).length = words.length
  | [], _ => rfl
  | w :: words, k => by rw [starts, List.length_cons, List.length_cons, starts_length words]

theorem starts_snoc (w : Bytes) : ∀ (words : List Bytes) (k : ℕ),
    starts k (words ++ [w]) = starts k words ++ [k + (layout words).length]
  | [], _ => rfl
  | v :: words, k => by
    rw [List.cons_append, starts, starts, starts_snoc w words, List.cons_append, layout, layout,
      List.flatMap_cons,
      List.length_append, List.length_append, List.length_singleton, Nat.add_assoc, Nat.add_assoc,
      Nat.add_assoc]

theorem Stored.snoc {words : List Bytes} {store : Bytes} {argv : List ℕ} (h : Stored words store argv)
    (w : Bytes) :
    Stored (words ++ [w]) (store ++ w ++ [0]) (argv ++ [store.length]) where
  store_eq := by
    rw [h.store_eq, layout, layout, List.flatMap_append, List.flatMap_singleton, List.append_assoc]
  argv_eq := by rw [h.argv_eq, h.store_eq, starts_snoc, Nat.zero_add]

theorem cstr_terminated {w : Bytes} (h : (0 : UInt8) ∉ w) (rest : Bytes) : cstr (w ++ 0 :: rest) = w := by
  have hall : ∀ c ∈ w, (c != 0) = true := by
    intro c hc
    rw [bne_iff_ne]
    rintro rfl
    exact h hc
  rw [cstr, List.takeWhile_append_of_pos hall, List.takeWhile_cons_of_neg (by decide), List.append_nil]

theorem starts_words (before : Bytes) : ∀ {words : List Bytes}, (∀ w ∈ words, (0 : UInt8) ∉ w) →
    (starts before.length words).map (fun start => cstr ((before ++ layout words).drop start)) = words
  | [], _ => rfl
  | w :: words, h => by
    rw [List.forall_mem_cons] at h
    have hlen : before.length + w.length + 1 = (before ++ (w ++ [0])).length := by
      rw [List.length_append, List.length_append, List.length_singleton, Nat.add_assoc]
    have hlayout : before ++ layout (w :: words) = before ++ (w ++ [0]) ++ layout words := by
      rw [layout, List.flatMap_cons, ← List.append_assoc]
      rfl
    rw [starts, List.map_cons, hlayout, hlen, starts_words _ h.2, List.append_assoc, List.drop_left,
      List.append_assoc, List.singleton_append, cstr_terminated h.1]

theorem Stored.words {words : List Bytes} {r : Split} (h : Stored words r.store r.argv)
    (hclean : ∀ w ∈ words, (0 : UInt8) ∉ w) : r.words = words := by
  rw [Split.words, h.argv_eq, h.store_eq]
  exact starts_words [] hclean

/-! ## The loop over the line -/

/-- The words that the reader has are free of zero bytes. -/
def Scan.Clean (s : Scan) : Prop := (∀ w ∈ s.ready, (0 : UInt8) ∉ w) ∧ (0 : UInt8) ∉ s.word

theorem unescape_ne_zero {c : UInt8} (h : c ≠ 0) : unescape c ≠ 0 := by
  unfold unescape
  split_ifs
  · decide
  · decide
  · decide
  · exact h

namespace Scan

theorem Clean.snoc {s : Scan} (h : s.Clean) {c : UInt8} (hc : c ≠ 0) (mode : Mode) :
    Clean ⟨mode, s.ready, s.word ++ [c]⟩ := by
  refine ⟨h.1, fun hmem => ?_⟩
  rcases List.mem_append.mp hmem with hw | hw
  · exact h.2 hw
  · exact hc (List.mem_singleton.mp hw).symm

theorem Clean.step {s : Scan} (h : s.Clean) {c : UInt8} (hc : c ≠ 0) : (s.step c).Clean := by
  have hword : (s.inWord c).Clean := by
    unfold inWord
    split_ifs
    · exact h
    · exact h
    · exact h.snoc hc .plain
  obtain ⟨mode, ready, word⟩ := s
  cases mode with
  | between =>
    rw [step_between]
    split
    · exact h
    · exact hword
  | plain =>
    rw [step_word]
    split
    · refine ⟨fun w hw => ?_, List.not_mem_nil⟩
      rcases List.mem_append.mp hw with hw | hw
      · exact h.1 w hw
      · exact (List.mem_singleton.mp hw) ▸ h.2
    · exact hword
  | single =>
    rw [step_single]
    split
    · exact h
    · exact h.snoc hc .single
  | double =>
    rw [step_double]
    split_ifs
    · exact h
    · exact h
    · exact h.snoc hc .double
  | escaped => exact h.snoc (unescape_ne_zero hc) .double

theorem Clean.run : ∀ {line : Bytes} {s : Scan}, s.Clean → (0 : UInt8) ∉ line → (s.run line).Clean
  | [], _, h, _ => h
  | c :: line, s, h, hline => by
    rw [List.mem_cons, not_or] at hline
    rw [run_cons]
    exact Clean.run (h.step (Ne.symm hline.1)) hline.2

theorem Clean.words {s : Scan} (h : s.Clean) : ∀ w ∈ s.words, (0 : UInt8) ∉ w := by
  intro w hw
  unfold Scan.words at hw
  split at hw
  · exact h.1 w hw
  · rcases List.mem_append.mp hw with hw | hw
    · exact h.1 w hw
    · exact (List.mem_singleton.mp hw) ▸ h.2

end Scan

theorem word_starts {p : Bytes} (h : p.dropWhile isSeparator ≠ []) :
    ∃ c rest, p.dropWhile isSeparator = c :: rest ∧ ¬ isSeparator c = true := by
  obtain ⟨c, rest, hrest⟩ := List.exists_cons_of_ne_nil h
  have hhead := List.head?_dropWhile_not isSeparator p
  rw [hrest] at hhead
  have hc : isSeparator c = false := hhead
  exact ⟨c, rest, hrest, by rw [hc]; exact Bool.false_ne_true⟩

/-- The reader is in trouble at the end of the line: a quote is open, or there are too many words. -/
def Refused (s : Scan) (maxArgs : ℕ) : Prop := s.Open ∨ maxArgs < s.words.length

/-- The loop of `split_line` follows the reader: it returns -1 when the reader has a quote open at the end or
too many words, and else the number of its words, which are in the block. -/
theorem splitLoop_scans (maxArgs : ℕ) (p out : Bytes) (argv : List ℕ) :
    ∀ ready : List Bytes, Stored ready out argv → ready.length ≤ maxArgs →
      (Refused (Scan.run ⟨.between, ready, []⟩ p) maxArgs → (splitLoop maxArgs p out argv).result = -1) ∧
      (¬ Refused (Scan.run ⟨.between, ready, []⟩ p) maxArgs →
        (splitLoop maxArgs p out argv).result = (Scan.run ⟨.between, ready, []⟩ p).words.length ∧
        Stored (Scan.run ⟨.between, ready, []⟩ p).words (splitLoop maxArgs p out argv).store
          (splitLoop maxArgs p out argv).argv) := by
  fun_induction splitLoop maxArgs p out argv with
  | case1 p out argv word hword =>
    intro ready hstored hroom
    have hcount : argv.length = ready.length := by rw [hstored.argv_eq, starts_length]
    rw [← Scan.run_dropWhile, show p.dropWhile isSeparator = [] from hword, Scan.run_nil]
    refine ⟨?_, fun _ => ⟨congrArg Nat.cast hcount, hstored⟩⟩
    rintro (hopen | hmany)
    · simp [Scan.Open] at hopen
    · exact absurd hroom (Nat.not_le.mpr hmany)
  | case2 p out argv word hword hfull =>
    intro ready hstored hroom
    have hcount : argv.length = ready.length := by rw [hstored.argv_eq, starts_length]
    refine ⟨fun _ => rfl, fun h => absurd (Or.inr ?_) h⟩
    obtain ⟨c, rest, hrest, hc⟩ := word_starts hword
    rw [← Scan.run_dropWhile, hrest, ← hfull, hcount]
    exact Scan.words_length_start ready hc rest
  | case3 p out argv word hword hfull argv' stop hquote =>
    intro ready hstored hroom
    refine ⟨fun _ => rfl, fun h => absurd (Or.inl ?_) h⟩
    obtain ⟨c, rest, hrest, hc⟩ := word_starts hword
    rw [← Scan.run_dropWhile, hrest, Scan.run_start ready hc, ← hrest]
    exact (wordLoop_scans ready 0 word out (Or.inl rfl) []).1 hquote
  | case4 p out argv word hword hfull argv' stop hquote ih =>
    intro ready hstored hroom
    have hcount : argv.length = ready.length := by rw [hstored.argv_eq, starts_length]
    obtain ⟨c, rest, hrest, hc⟩ := word_starts hword
    obtain ⟨copied, hout, hrun⟩ := (wordLoop_scans ready 0 word out (Or.inl rfl) []).2 (not_not.mp hquote)
    -- the word is complete at the gap behind it
    obtain ⟨hwords, hopen⟩ := Scan.run_gap ready copied (wordLoop_stops 0 word out).2.2
    have hreader : Scan.run ⟨.between, ready, []⟩ p = Scan.run ⟨.plain, ready, copied⟩ stop.p := by
      rw [← Scan.run_dropWhile, hrest, Scan.run_start ready hc, ← hrest]
      exact hrun
    have hstored' : Stored (ready ++ [copied]) (stop.out ++ [0]) argv' := by
      rw [show stop.out = out ++ copied from hout]
      exact hstored.snoc copied
    have hrefused : Refused (Scan.run ⟨.between, ready, []⟩ p) maxArgs ↔
        Refused (Scan.run ⟨.between, ready ++ [copied], []⟩ stop.p) maxArgs := by
      rw [Refused, Refused, hreader, hwords, hopen]
    rw [hrefused, hreader, hwords]
    exact ih _ hstored' (by rw [List.length_append, List.length_singleton]; omega)

/-! ## Lines of quoted words -/

/-- A word and a text between double quotes that stands for it: a quote and a backslash behind a backslash; a
newline, a tab and a carriage return as they are or as `\n`, `\t`, `\r`; any other byte as it is. -/
inductive QuotedText : Bytes → Bytes → Prop
  | nil : QuotedText [] []
  | plain {c : UInt8} {word text : Bytes} (hc : c ≠ 34 ∧ c ≠ 92) (h : QuotedText word text) :
      QuotedText (c :: word) (c :: text)
  | escaped {c : UInt8} {word text : Bytes} (hc : c = 34 ∨ c = 92) (h : QuotedText word text) :
      QuotedText (c :: word) (92 :: c :: text)
  | newline {word text : Bytes} (h : QuotedText word text) : QuotedText (10 :: word) (92 :: 110 :: text)
  | tab {word text : Bytes} (h : QuotedText word text) : QuotedText (9 :: word) (92 :: 116 :: text)
  | carriage {word text : Bytes} (h : QuotedText word text) : QuotedText (13 :: word) (92 :: 114 :: text)

/-- Some words and a line of them: each between double quotes, with separators before, between and behind
them. -/
inductive Written : List Bytes → Bytes → Prop
  | nil {blanks : Bytes} (h : ∀ c ∈ blanks, isSeparator c = true) : Written [] blanks
  | cons {blanks word text line : Bytes} {words : List Bytes} (hblanks : ∀ c ∈ blanks, isSeparator c = true)
      (hword : QuotedText word text) (h : Written words line) (hgap : AtGap line) :
      Written (word :: words) (blanks ++ 34 :: (text ++ 34 :: line))

theorem QuotedText.scans (ready : List Bytes) {word text : Bytes} (h : QuotedText word text) : ∀ before,
    Scan.run ⟨.double, ready, before⟩ text = ⟨.double, ready, before ++ word⟩ := by
  induction h with
  | nil =>
    intro before
    rw [List.append_nil, Scan.run_nil]
  | @plain c word text hc _ ih =>
    intro before
    rw [Scan.run_cons, Scan.step_double, if_neg hc.1, if_neg hc.2, ih, List.append_assoc,
      List.singleton_append]
  | @escaped c word text hc _ ih =>
    intro before
    have hsame : unescape c = c := by
      rcases hc with rfl | rfl
      · rfl
      · rfl
    rw [Scan.run_escaped, hsame, ih, List.append_assoc, List.singleton_append]
  | newline _ ih =>
    intro before
    rw [Scan.run_escaped, ih, List.append_assoc]
    rfl
  | tab _ ih =>
    intro before
    rw [Scan.run_escaped, ih, List.append_assoc]
    rfl
  | carriage _ ih =>
    intro before
    rw [Scan.run_escaped, ih, List.append_assoc]
    rfl

theorem Written.scans {words : List Bytes} {line : Bytes} (h : Written words line) : ∀ ready,
    (Scan.run ⟨.between, ready, []⟩ line).words = ready ++ words ∧
    ¬ (Scan.run ⟨.between, ready, []⟩ line).Open := by
  induction h with
  | nil hblanks =>
    intro ready
    rw [Scan.run_separators ready hblanks, List.append_nil]
    exact ⟨rfl, by simp [Scan.Open]⟩
  | @cons blanks word text line words hblanks hword _ hgap ih =>
    intro ready
    have hquoted : Scan.run ⟨.between, ready, []⟩ (blanks ++ 34 :: (text ++ 34 :: line)) =
        Scan.run ⟨.plain, ready, word⟩ line := by
      rw [Scan.run_append, Scan.run_separators ready hblanks, Scan.run_start ready (by decide), Scan.run_cons,
        step_open ready [] (Or.inl rfl), show modeOf 34 = .double from rfl, Scan.run_append, hword.scans,
        Scan.run_cons, Scan.step_double, if_pos rfl, List.nil_append]
    obtain ⟨hwords, hopen⟩ := Scan.run_gap ready word hgap
    obtain ⟨hih, hclosed⟩ := ih (ready ++ [word])
    rw [hquoted, hwords, hopen, hih, List.append_assoc]
    exact ⟨rfl, hclosed⟩

theorem isSeparator_ne_zero {c : UInt8} (h : isSeparator c = true) : c ≠ 0 := by
  rintro rfl
  exact absurd h (by decide)

theorem clean_escaped {c : UInt8} {text : Bytes} (hc : c ≠ 0) (h : (0 : UInt8) ∉ text) :
    (0 : UInt8) ∉ 92 :: c :: text := by
  rw [List.mem_cons, List.mem_cons, not_or, not_or]
  exact ⟨by decide, hc.symm, h⟩

theorem QuotedText.clean {word text : Bytes} (h : QuotedText word text) (hword : (0 : UInt8) ∉ word) :
    (0 : UInt8) ∉ text := by
  induction h with
  | nil => exact hword
  | plain _ _ ih =>
    rw [List.mem_cons, not_or] at hword ⊢
    exact ⟨hword.1, ih hword.2⟩
  | escaped _ _ ih =>
    rw [List.mem_cons, not_or] at hword
    exact clean_escaped (Ne.symm hword.1) (ih hword.2)
  | newline _ ih =>
    rw [List.mem_cons, not_or] at hword
    exact clean_escaped (by decide) (ih hword.2)
  | tab _ ih =>
    rw [List.mem_cons, not_or] at hword
    exact clean_escaped (by decide) (ih hword.2)
  | carriage _ ih =>
    rw [List.mem_cons, not_or] at hword
    exact clean_escaped (by decide) (ih hword.2)

theorem Written.clean {words : List Bytes} {line : Bytes} (h : Written words line)
    (hwords : ∀ w ∈ words, (0 : UInt8) ∉ w) : (0 : UInt8) ∉ line := by
  induction h with
  | nil hblanks => exact fun hmem => isSeparator_ne_zero (hblanks 0 hmem) rfl
  | cons hblanks hword _ _ ih =>
    rw [List.forall_mem_cons] at hwords
    rw [List.mem_append, List.mem_cons, List.mem_append, List.mem_cons, not_or, not_or, not_or, not_or]
    exact ⟨fun hmem => isSeparator_ne_zero (hblanks 0 hmem) rfl, by decide, hword.clean hwords.1, by decide,
      ih hwords.2⟩

/-! ## The function -/

theorem scan_clean (line : Bytes) : (scan (cstr line)).Clean := by
  refine Scan.Clean.run ⟨fun w hw => absurd hw List.not_mem_nil, List.not_mem_nil⟩ fun hmem => ?_
  exact absurd (List.mem_takeWhile_imp hmem) (by decide)

theorem splitLine_accepted {line : Bytes} {slots : ℕ} (h : ¬ Refused (scan (cstr line)) slots) :
    (splitLine line slots).result = (scan (cstr line)).words.length ∧
      Stored (scan (cstr line)).words (splitLine line slots).store (splitLine line slots).argv ∧
      (splitLine line slots).words = (scan (cstr line)).words := by
  obtain ⟨hresult, hstored⟩ := (splitLoop_scans slots (cstr line) [] [] [] ⟨rfl, rfl⟩ (Nat.zero_le _)).2 h
  exact ⟨hresult, hstored, hstored.words (scan_clean line).words⟩

theorem splitLine_refused {line : Bytes} {slots : ℕ} (h : Refused (scan (cstr line)) slots) :
    (splitLine line slots).result = -1 :=
  (splitLoop_scans slots (cstr line) [] [] [] ⟨rfl, rfl⟩ (Nat.zero_le _)).1 h

theorem splitLine_written {words : List Bytes} {line : Bytes} {slots : ℕ}
    (hclean : ∀ w ∈ words, (0 : UInt8) ∉ w) (hroom : words.length ≤ slots) (h : Written words line) :
    (splitLine line slots).result = words.length ∧ (splitLine line slots).words = words := by
  have hline : cstr line = line := cstr_of_clean (h.clean hclean)
  obtain ⟨hwords, hclosed⟩ := h.scans []
  have hread : (scan (cstr line)).words = words := by
    rw [hline]
    exact hwords
  have haccepted : ¬ Refused (scan (cstr line)) slots := by
    rintro (hopen | hmany)
    · rw [hline] at hopen
      exact hclosed hopen
    · rw [hread] at hmany
      exact absurd hroom (Nat.not_le.mpr hmany)
  obtain ⟨hresult, -, hsplit⟩ := splitLine_accepted haccepted
  rw [hread] at hresult hsplit
  exact ⟨hresult, hsplit⟩

/-- Words without zero bytes, no more of them than there is room for, written between double quotes with
separators between them, are split into these words in their order. A line is refused exactly when a quote is
open at its end or it has more words than there is room for. -/
theorem split_line_words (slots : ℕ) :
    (∀ (words : List Bytes) (line : Bytes), (∀ w ∈ words, (0 : UInt8) ∉ w) → words.length ≤ slots →
      Written words line →
      (splitLine line slots).result = words.length ∧ (splitLine line slots).words = words) ∧
    ∀ line, (splitLine line slots).result = -1 ↔
      (scan (cstr line)).Open ∨ slots < (scan (cstr line)).words.length := by
  refine ⟨fun words line hclean hroom hwritten => splitLine_written hclean hroom hwritten,
    fun line => ⟨fun hresult => ?_, splitLine_refused⟩⟩
  by_contra haccepted
  have hcount := (splitLine_accepted haccepted).1
  rw [hresult] at hcount
  omega

/-- A quote, the empty word and a word with an escaped newline; a line with an open quote; three words where
there is room for two. -/
theorem split_line_words_three :
    (splitLine (ascii "\"\\\"\" \"\"\t\"a\\n\"") 3).words = [ascii "\"", [], ascii "a\n"] ∧
      (splitLine (ascii "set k \"v") 3).result = -1 ∧ (splitLine (ascii "set k v") 2).result = -1 := by
  obtain ⟨hwords, -⟩ := split_line_words 3
  have hwritten : Written [ascii "\"", [], ascii "a\n"] (ascii "\"\\\"\" \"\"\t\"a\\n\"") := by
    have hnone : ∀ c ∈ ([] : Bytes), isSeparator c = true := fun c hc => absurd hc List.not_mem_nil
    have hlast : Written [[97, 10]] (9 :: 34 :: ([97, 92, 110] ++ 34 :: [])) :=
      @Written.cons [9] _ _ _ _ (List.forall_mem_singleton.mpr rfl) (.plain (by decide) (.newline .nil))
        (.nil hnone) atGap_nil
    have hrest : Written [[], [97, 10]] (32 :: 34 :: ([] ++ 34 :: 9 :: 34 :: ([97, 92, 110] ++ 34 :: []))) :=
      @Written.cons [32] _ _ _ _ (List.forall_mem_singleton.mpr rfl) .nil hlast (atGap_cons.mpr rfl)
    exact @Written.cons [] _ _ _ _ hnone (.escaped (Or.inl rfl) .nil) hrest (atGap_cons.mpr rfl)
  refine ⟨(hwords _ _ (by decide) (by decide) hwritten).2, ?_, ?_⟩
  · exact ((split_line_words 3).2 _).mpr (Or.inl (by decide +kernel))
  · exact ((split_line_words 2).2 _).mpr (Or.inr (by decide +kernel))

end PulseDB.Cli
