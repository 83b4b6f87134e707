import PulseDB.Cli.Words
import PulseDB.Resp.Cli

/-!
# The prompt (`main` of `tools/cli.c`)

Lines from the standard input become requests: `fgets`, `split_line`, `send_command`.

* `lineAction` : what the prompt does with a line; `promptLoop` : the loop, with the requests it sends;
* `lineAction_request`, `promptLoop_requests` : the words of a request fit in what the server accepts;
* `prompt_requests_read` : whatever is typed, the server reads the words that the prompt has sent;
* `Typed`, `promptLoop_typed` : lines of quoted words, one command each, are sent as these commands.
-/

namespace PulseDB.Cli

/-! ## The loop -/

/-- What the prompt does with a line: complain, read on, leave, explain itself, send a request. -/
inductive Action where
  | invalid
  | nothing
  | quit
  | help
  | request (argv : List Bytes)

def lineAction (line : Bytes) : Action :=
  let r := splitLine line maxArgs
  if r.result < 0 then .invalid
  else if r.result = 0 then .nothing
  else
    let first := r.words.headD []
    if strcaseEq first (ascii "quit") || strcaseEq first (ascii "exit") then .quit
    else if strcaseEq first (ascii "help") && decide (r.result = 1) then .help
    else .request r.words

theorem fgets_shrinks {stdin line rest : Bytes} (h : fgets maxLine stdin = some (line, rest)) :
    rest.length < stdin.length := by
  unfold fgets at h
  split at h
  · cases h
  · rename_i hne
    have hpos := List.length_pos_iff.mpr hne
    simp only [Option.some.injEq, Prod.mk.injEq] at h
    rw [← h.2, List.length_drop, List.length_take, maxLine]
    split <;> omega

/-- The loop of the prompt: the requests it sends, and the exit status. The request number `k` is answered by
the server if `answered k` says so; otherwise the connection is lost. -/
def promptLoop (answered : ℕ → Bool) (k : ℕ) (stdin : Bytes) : List (List Bytes) × ℕ :=
  match _hread : fgets maxLine stdin with
  | none => ([], 0)
  | some (line, rest) =>
    match lineAction line with
    | .quit => ([], 0)
    | .request argv =>
      if answered k then
        let later := promptLoop answered (k + 1) rest
        (argv :: later.1, later.2)
      else ([argv], 1)
    | _ => promptLoop answered k rest
termination_by stdin.length
decreasing_by
  · exact fgets_shrinks _hread
  · exact fgets_shrinks _hread

/-! ## Requests -/

theorem length_le_layout {w : Bytes} : ∀ {words : List Bytes}, w ∈ words → w.length < (layout words).length
  | v :: words, h => by
    rw [layout, List.flatMap_cons, List.length_append, List.length_append, List.length_singleton]
    rcases List.mem_cons.mp h with rfl | h
    · omega
    · have := length_le_layout h
      rw [layout] at this
      omega

theorem lineAction_request {stdin line rest : Bytes} {argv : List Bytes}
    (hread : fgets maxLine stdin = some (line, rest)) (h : lineAction line = .request argv) :
      Sendable argv := by
  unfold lineAction at h
  simp only at h
  split_ifs at h with hneg hzero hquit hhelp
  cases h
  have haccepted : ¬ Refused (scan (cstr line)) maxArgs :=
    fun href => hneg (by rw [splitLine_refused href]; decide)
  obtain ⟨hresult, hstored, hwords⟩ := splitLine_accepted haccepted
  have hstore := (splitLoop_fits maxArgs (cstr line) [] []).1
  have hline := fgets_length hread
  have hstr : (cstr line).length ≤ line.length := (List.takeWhile_sublist _).length_le
  have hcount : (scan (cstr line)).words.length ≤ maxArgs := Nat.not_lt.mp fun hmany =>
    haccepted (Or.inr hmany)
  have hargs : maxArgs ≤ respMaxArrayLen := by decide
  have hroom : maxLine ≤ respMaxBulkLen := by decide
  rw [hwords]
  refine ⟨?_, hcount.trans hargs, fun w hw => ⟨(scan_clean line).words w hw, ?_⟩⟩
  · intro hnil
    rw [hresult, hnil] at hzero
    exact hzero rfl
  · have hfits : (layout (scan (cstr line)).words).length ≤ (cstr line).length + 1 := by
      rw [← hstored.store_eq]
      rw [List.length_nil, Nat.zero_add] at hstore
      exact hstore
    have := length_le_layout hw
    unfold maxLine at hline hroom
    omega

theorem promptLoop_requests (answered : ℕ → Bool) (k : ℕ) (stdin : Bytes) :
    ∀ argv ∈ (promptLoop answered k stdin).1, Sendable argv := by
  fun_induction promptLoop answered k stdin with
  | case1 k stdin hread => exact fun argv h => absurd h List.not_mem_nil
  | case2 k stdin line rest hread hquit => exact fun argv h => absurd h List.not_mem_nil
  | case3 k stdin line rest hread argv haction hanswered later ih =>
    exact List.forall_mem_cons.mpr ⟨lineAction_request hread haction, ih⟩
  | case4 k stdin line rest hread argv haction hlost =>
    exact List.forall_mem_singleton.mpr (lineAction_request hread haction)
  | case5 k stdin line rest hread hquit hrequest ih => exact ih

/-- Whatever is typed: the server reads the words that the prompt has sent, whatever follows them. -/
theorem prompt_requests_read (answered : ℕ → Bool) (stdin : Bytes) {argv : List Bytes}
    (h : argv ∈ (promptLoop answered 0 stdin).1) (x : Bytes) :
    respParseCommand (sendCommand argv ++ x) = .ok (.request argv, (sendCommand argv).length) := by
  have hsend := promptLoop_requests answered 0 stdin argv h
  exact respParseCommand_ok_iff.mpr ⟨_, x, sendCommand_spelled hsend.words hsend.count, rfl, rfl⟩

/-! ## Typed commands -/

/-- The words are those of a command: not none, and none that the prompt takes for itself. -/
def IsCommand (words : List Bytes) : Prop :=
  words ≠ [] ∧ strcaseEq (words.headD []) (ascii "quit") = false ∧
    strcaseEq (words.headD []) (ascii "exit") = false ∧
    (strcaseEq (words.headD []) (ascii "help") && decide (words.length = 1)) = false

/-- A command and a line that it is typed with. -/
structure Typed (words : List Bytes) (line : Bytes) : Prop where
  written : Written words line
  command : IsCommand words
  clean : ∀ w ∈ words, (0 : UInt8) ∉ w
  count : words.length ≤ maxArgs
  oneLine : lf ∉ line
  short : line.length + 1 < maxLine

theorem Written.newline {words : List Bytes} {line : Bytes} (h : Written words line) :
    Written words (line ++ [lf]) := by
  induction h with
  | nil hblanks =>
    refine .nil fun c hc => ?_
    rcases List.mem_append.mp hc with hc | hc
    · exact hblanks c hc
    · rw [List.mem_singleton.mp hc]
      rfl
  | @cons blanks word text line words hblanks hword _ hgap ih =>
    have hgap' : AtGap (line ++ [lf]) := by
      cases line with
      | nil => exact atGap_cons.mpr rfl
      | cons c line => exact atGap_cons.mpr (atGap_cons.mp hgap)
    have hcons := Written.cons hblanks hword ih hgap'
    simpa only [List.append_assoc, List.cons_append] using hcons

theorem fgets_line {size : ℕ} {line : Bytes} (rest : Bytes) (hlf : lf ∉ line)
    (hlen : line.length + 1 < size) :
    fgets size (line ++ [lf] ++ rest) = some (line ++ [lf], rest) := by
  have hroom : (line ++ [lf] ++ rest).take (size - 1) = line ++ [lf] ++ rest.take
      (size - 1 - (line.length + 1)) := by
    rw [List.take_append, List.length_append, List.length_singleton,
      List.take_of_length_le (by rw [List.length_append, List.length_singleton]; omega)]
  have hmem : lf ∈ line ++ [lf] ++ rest.take (size - 1 - (line.length + 1)) := by simp
  have hidx : (line ++ [lf] ++ rest.take (size - 1 - (line.length + 1))).idxOf lf = line.length := by
    rw [List.append_assoc, List.idxOf_append_of_notMem hlf, List.singleton_append, List.idxOf_cons_self,
      Nat.add_zero]
  have hn : line.length + 1 = (line ++ [lf]).length := by rw [List.length_append, List.length_singleton]
  rw [fgets, if_neg (by simp)]
  simp only [hroom, if_pos hmem, hidx]
  rw [hn, List.take_left, List.drop_left]

theorem lineAction_typed {words : List Bytes} {line : Bytes} (h : Typed words line) :
    lineAction (line ++ [lf]) = .request words := by
  obtain ⟨hresult, hwords⟩ := splitLine_written h.clean h.count h.written.newline
  obtain ⟨hne, hquit, hexit, hhelp⟩ := h.command
  have hpos := List.length_pos_iff.mpr hne
  have hone : decide ((words.length : Int) = 1) = decide (words.length = 1) := by
    rw [decide_eq_decide]
    omega
  unfold lineAction
  simp only [hresult, hwords, hquit, hexit, hone, hhelp]
  rw [if_neg (by omega), if_neg (by omega)]
  rfl

theorem promptLoop_sends {answered : ℕ → Bool} {k : ℕ} {stdin line rest : Bytes} {argv : List Bytes}
    (hread : fgets maxLine stdin = some (line, rest)) (haction : lineAction line = .request argv)
    (hanswered : answered k = true) : promptLoop answered k stdin =
      (argv :: (promptLoop answered (k + 1) rest).1, (promptLoop answered (k + 1) rest).2) := by
  rw [promptLoop]
  split
  · rename_i hnone
    cases hread.symm.trans hnone
  · rename_i hsome
    cases hread.symm.trans hsome
    rw [haction]
    exact if_pos hanswered

/-- Commands that are typed one to a line are sent as they are, as long as the server answers. -/
theorem promptLoop_typed : ∀ (typed : List (List Bytes × Bytes)) (k : ℕ), (∀ t ∈ typed, Typed t.1 t.2) →
    promptLoop (fun _ => true) k (typed.flatMap fun t => t.2 ++ [lf]) = (typed.map Prod.fst, 0)
  | [], k, _ => by
    rw [List.flatMap_nil, promptLoop]
    rfl
  | t :: typed, k, h => by
    rw [List.forall_mem_cons] at h
    have hread := fgets_line (typed.flatMap fun t => t.2 ++ [lf]) h.1.oneLine h.1.short
    rw [List.flatMap_cons, promptLoop_sends hread (lineAction_typed h.1) rfl,
      promptLoop_typed typed (k + 1) h.2]
    rfl

/-- A command of two words, typed with a blank between them. -/
example : Typed [ascii "DEL", ascii "\""] (ascii "\"DEL\" \"\\\"\"") where
  written := by
    have hnone : ∀ c ∈ ([] : Bytes), isSeparator c = true := fun c hc => absurd hc List.not_mem_nil
    have hkey : Written [[34]] (32 :: 34 :: ([92, 34] ++ 34 :: [])) :=
      @Written.cons [32] _ _ _ _ (List.forall_mem_singleton.mpr rfl) (.escaped (Or.inl rfl) .nil) (.nil hnone)
        atGap_nil
    have hname : QuotedText [68, 69, 76] [68, 69, 76] :=
      .plain (by decide) (.plain (by decide) (.plain (by decide) .nil))
    exact @Written.cons [] _ _ _ _ hnone hname hkey (atGap_cons.mpr rfl)
  command := ⟨by decide, by decide, by decide, by decide⟩
  clean := by decide
  count := by decide
  oneLine := by decide
  short := by decide

end PulseDB.Cli
