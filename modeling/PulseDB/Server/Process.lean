import PulseDB.Resp.Bounds
import PulseDB.Server.Runs
import Mathlib.Data.List.Infix

/-!
# The input of a client (`server.c`)

* `processInput` : execute as many complete requests as the input buffer holds; `serveChunks` : read some
  chunks, with the input processed after each;
* `processInput_drain`, `serveChunks_feed` : the requests taken from the buffer, the bytes left and the error
  flag are those of `drain` and `feedAll` of the request parser;
* `requests_are_bulk_arrays` : no null string is used, unless a request has an element header that reads `-1`;
* `request_stream_cut` : how the stream is cut does not matter, unless a cut falls before the CR of a header
  of 33 bytes.
-/

namespace PulseDB
open Lib Lib.Prog

variable {D : Type} [LinearOrder D]

/-! ## The functions -/

def clientMaxQueryBuf : ℕ := 256 * 1024 * 1024

/-- Write an error and close the connection once it has been sent. -/
def condemn (msg : Bytes) : Cmd D Unit := do
  reply (replyError msg)
  Prog.modify fun s => { s with client := { s.client with closeAfterReply := true } }

/-- Process a parsed request; a blank inline line is skipped. -/
def processRequest (req : RespValue) : Cmd D Unit := do
  if req.count = 0 then return ()
  else do
    let r ← commandProcess req
    Prog.modify fun s => { s with client := s.client.processed req r }

/-- The loop of `process_input` from `pos` on, at most `rounds` times. It answers the new `pos`, and with it
the requests taken from the buffer, which the source does not collect. A request uses at least one byte, so as
many rounds as there are bytes are enough (`processLoop_wlp`). -/
def processLoop : ℕ → ℕ → Cmd D (ℕ × List RespValue)
  | 0, pos => return (pos, [])
  | rounds + 1, pos => do
    let s ← Prog.get
    if s.client.blockedReq.isSome || s.client.closeAfterReply || decide (s.client.inBuf.length ≤ pos) then
      return (pos, [])
    else
      match respParseCommand (s.client.inBuf.drop pos) with
      | .incomplete => return (pos, [])
      | .error => do
        condemn (ascii "ERR Protocol error")
        return (pos, [])
      | .ok (req, used) => do
        processRequest req
        let (pos', reqs) ← processLoop rounds (pos + used)
        return (pos', req :: reqs)

/-- Execute the requests in the buffer; answers the requests taken from it. -/
def processInput : Cmd D (List RespValue) := do
  let s ← Prog.get
  let (pos, reqs) ← processLoop (s.client.inBuf.length + 1) 0
  Prog.modify fun s => { s with client := { s.client with inBuf := s.client.inBuf.drop pos } }
  let s ← Prog.get
  if s.client.inBuf.length > clientMaxQueryBuf then do
    condemn (ascii "ERR Protocol error: request too large")
    return reqs
  else return reqs

/-- Read a chunk and process the input. -/
def readChunk (chunk : Bytes) : Cmd D (List RespValue) := do
  Prog.modify fun s => { s with client := { s.client with inBuf := s.client.inBuf ++ chunk } }
  processInput

/-- Read some chunks, one after the other. -/
def serveChunks : List Bytes → Cmd D (List RespValue)
  | [] => return []
  | chunk :: chunks => do
    let reqs ← readChunk chunk
    return reqs ++ (← serveChunks chunks)

/-! ## Requests as the parser gives them -/

/-- An array whose elements are bulk strings or null. -/
structure RespValue.IsParsed (req : RespValue) : Prop where
  type : req.type = .array
  elements : ∀ e ∈ req.elements, e.IsBulk ∨ e.str = none

section Parsed
variable {e : Env D} {s s' : Sess D} {req : RespValue}

theorem respParseCommand_parsed {buf : Bytes} {used : ℕ} (h : respParseCommand buf = .ok (req, used)) :
    req.IsParsed := by
  obtain ⟨bs, rest, hreq, -, -⟩ := respParseCommand_ok_iff.mp h
  obtain ⟨htype, hel⟩ := hreq.elements
  refine ⟨htype, fun x hx => ?_⟩
  rcases hel x hx with hb | ⟨rfl, -⟩
  · exact Or.inl hb
  · exact Or.inr rfl

theorem RespValue.IsParsed.isRequest (h : req.IsParsed) (hcount : req.count ≠ 0)
    (hstr : ∀ x ∈ req.elements, x.str ≠ none) : req.IsRequest :=
  ⟨h.type, fun hnil => hcount (by rw [RespValue.count, hnil]; rfl),
    fun x hx => (h.elements x hx).resolve_right (hstr x hx)⟩

omit [LinearOrder D] in
theorem noNul_wlp : wlp (noNul req) e s fun r s' => s' = s ∧
    (r = true → ∀ x ∈ req.elements, x.str ≠ none) := by
  unfold noNul
  rw [wlp_bind]
  refine wlp_forFrom (fun i _ s' => s' = s ∧ ∀ x ∈ req.elements.take i, x.str ≠ none)
    ⟨rfl, fun x hx => by simp at hx⟩ (fun i _ s' h hi => ?_) fun i _ s' h hi => ?_
  · obtain ⟨rfl, hall⟩ := h
    have hi' : i < req.elements.length := hi
    rw [wlp_bind]
    refine wlp_of_wp ((wp_element hi').mpr ?_)
    rw [wlp_bind]
    cases hstr : (req.elements[i]).str with
    | none =>
      rw [strOf, hstr]
      exact wlp_fault _
    | some str =>
      rw [strOf, hstr]
      refine wlp_pure _ ?_
      split
      · exact wlp_pure _ (wlp_pure _ ⟨rfl, Bool.noConfusion⟩)
      · refine wlp_pure _ ⟨Nat.lt_succ_self i, rfl, fun x hx => ?_⟩
        rw [List.take_succ_eq_append_getElem hi', List.mem_append, List.mem_singleton] at hx
        rcases hx with hx | rfl
        · exact hall x hx
        · rw [hstr]
          exact Option.some_ne_none str
  · obtain ⟨rfl, hall⟩ := h
    refine wlp_pure _ ⟨rfl, fun _ x hx => hall x ?_⟩
    rwa [List.take_of_length_le hi]

omit [LinearOrder D] in
theorem firstStr_wlp : wlp (firstStr req) e s fun _ s' => s' = s := by
  unfold firstStr
  rw [wlp_bind]
  have hel : wlp (element req 0) e s fun _ s' => s' = s := by
    unfold element
    split
    · exact wlp_fault _
    · exact wlp_pure _ rfl
  refine wlp_mono hel fun x s' hs => ?_
  unfold strOf
  split
  · exact wlp_fault _
  · exact wlp_pure _ hs

/-- If `validate` does not meet a null string, it accepts only requests without one, and answers the others
with a short error. -/
theorem validate_wlp : wlp (validate req) e s fun r s' =>
    match r with
    | some _ => s' = s ∧ ∀ x ∈ req.elements, x.str ≠ none
    | none => ∃ msg, msg.length ≤ respMaxInlineLen ∧
        s' = { s with client := { s.client with out := s.client.out ++ replyError msg } } := by
  have hshort : ∀ text : Bytes, (text.take 511).length ≤ respMaxInlineLen :=
    fun text => (List.length_take_le 511 text).trans (by decide)
  unfold validate
  rw [wlp_bind]
  refine wlp_mono firstStr_wlp fun name s₁ hs₁ => ?_
  subst hs₁
  cases commandLookup (D := D) name with
  | none => exact wlp_of_wp ⟨_, hshort _, rfl⟩
  | some spec =>
    simp only
    split
    · exact wlp_of_wp ⟨_, hshort _, rfl⟩
    · rw [wlp_bind]
      refine wlp_mono noNul_wlp fun r s₂ ⟨hs₂, hr⟩ => ?_
      subst hs₂
      split
      · rename_i hclean
        exact wlp_pure _ ⟨rfl, hr hclean⟩
      · exact wlp_of_wp ⟨_, ascii_length_le _ (by decide), rfl⟩

theorem validate_found (hp : req.IsParsed) (hcount : req.count ≠ 0) : wlp (validate req) e s fun r s' =>
    ∀ spec : CommandSpec D, r = some spec → s' = s ∧ Accepted req spec := by
  rintro r s' hrun spec rfl
  obtain ⟨rfl, hstr⟩ := validate_wlp (e := e) (s := s) _ s' hrun
  exact ⟨rfl, (wp_post (validate_wp (hp.isRequest hcount hstr)) hrun).2⟩

/-- A parsed request that is not one of non-null strings is answered with a short error, if it meets no
fault. -/
theorem commandProcess_refused (hp : req.IsParsed) (hcount : req.count ≠ 0) (hreq : ¬ req.IsRequest) :
    wlp (commandProcess req) e s fun r s' => r = .done ∧ ∃ msg, msg.length ≤ respMaxInlineLen ∧
      s' = s.answered (replyError msg)
        (if s.client.txn.active then { s.client.txn with error := true } else s.client.txn) := by
  unfold commandProcess
  rw [wlp_bind]
  refine wlp_mono validate_wlp fun found s₁ hv => ?_
  cases found with
  | some spec => exact absurd (hp.isRequest hcount hv.2) hreq
  | none =>
    obtain ⟨msg, hmsg, rfl⟩ := hv
    exact wlp_of_wp ⟨rfl, msg, hmsg, rfl⟩

theorem commandProcess_wlp (hs : s.Inv) (hp : req.IsParsed) (hcount : req.count ≠ 0) :
    wlp (commandProcess req) e s fun r s' => s'.Inv ∧ s.client.Framed s'.client ∧
      (r = .blocked → Runnable D req) := by
  by_cases hreq : req.IsRequest
  · refine wlp_of_wp (wp_mono (commandProcess_wp hs hreq) fun r s' h => ?_)
    exact ⟨h.inv hs, h.framed, fun hr => (hr ▸ h).blocked⟩
  · refine wlp_mono (commandProcess_refused hp hcount hreq) fun r s' ⟨hr, msg, _, hs'⟩ => ?_
    subst hr hs'
    refine ⟨⟨hs.store, ?_, hs.client.blocked⟩, ⟨rfl, rfl, rfl, rfl⟩, CommandResult.noConfusion⟩
    show Txn.Inv D (if s.client.txn.active then { s.client.txn with error := true } else s.client.txn)
    split
    · rename_i ha
      exact hs.client.txn.error ha
    · exact hs.client.txn

end Parsed

/-! ## The requests taken from the buffer -/

section Drain
variable {e : Env D} {s s' : Sess D}

/-- The session before a round of the loop: the client is neither parked nor condemned. -/
structure Sess.Open (s : Sess D) : Prop where
  inv : s.Inv
  free : s.client.blockedReq = none
  live : s.client.closeAfterReply = false

omit [LinearOrder D] in
theorem drop_parsed {buf : Bytes} {pos used : ℕ} {req : RespValue}
    (h : respParseCommand (buf.drop pos) = .ok (req, used)) : 0 < used ∧ pos + used ≤ buf.length := by
  obtain ⟨h0, hle⟩ := respParseCommand_restartable.progress h
  rw [List.length_drop] at hle
  omega

/-- The test of the loop: the client is neither parked nor condemned, and there is something left to parse. -/
theorem Client.goes_on {c : Client} {pos : ℕ}
    (hgo : ¬ (c.blockedReq.isSome || c.closeAfterReply || decide (c.inBuf.length ≤ pos)) = true) :
    c.blockedReq = none ∧ c.closeAfterReply = false ∧ pos < c.inBuf.length := by
  rw [Bool.or_eq_true, Bool.or_eq_true, not_or, not_or, Bool.not_eq_true, Bool.not_eq_true,
    Option.isSome_eq_false_iff, Option.isNone_iff_eq_none, decide_eq_true_iff] at hgo
  exact ⟨hgo.1.1, hgo.1.2, Nat.lt_of_not_le hgo.2⟩

theorem Sess.Inv.open (hs : s.Inv) {pos : ℕ}
    (hgo : ¬ (s.client.blockedReq.isSome || s.client.closeAfterReply || decide
      (s.client.inBuf.length ≤ pos)) = true) :
    s.Open ∧ pos < s.client.inBuf.length := by
  obtain ⟨hfree, hopen, hleft⟩ := s.client.goes_on hgo
  exact ⟨⟨hs, hfree, hopen⟩, hleft⟩

theorem processLoop_stopped (h : s.client.blockedReq.isSome ∨ s.client.closeAfterReply = true) :
    ∀ rounds pos : ℕ, processLoop rounds pos e s = .ok ((pos, []), s)
  | 0, _ => rfl
  | rounds + 1, pos => by
    have hcond : (s.client.blockedReq.isSome || s.client.closeAfterReply || decide
      (s.client.inBuf.length ≤ pos)) =
        true := by
      rcases h with h | h <;> simp [h]
    show (if _ then _ else _ : Cmd D (ℕ × List RespValue)) e s = _
    rw [if_pos hcond]
    rfl

/-- A request that was processed leaves the session open, unless it blocks. -/
theorem processRequest_wlp {req : RespValue} (hs : s.Open) (hp : req.IsParsed) :
    wlp (processRequest req) e s fun _ s' =>
      s'.Inv ∧ s'.client.inBuf = s.client.inBuf ∧ (s'.client.blockedReq = none → s'.Open) := by
  unfold processRequest
  split
  · exact wlp_pure _ ⟨hs.inv, rfl, fun _ => hs⟩
  · rename_i hcount
    rw [wlp_bind]
    refine wlp_mono (commandProcess_wlp hs.inv hp hcount) fun r s' ⟨hinv, hframe, hblocked⟩ => ?_
    have hclient := hinv.client.processed hblocked
    refine wlp_of_wp ⟨⟨hinv.store, hclient⟩, ?_, fun hfree => ⟨⟨hinv.store, hclient⟩, hfree, ?_⟩⟩
    · rw [← hframe.inBuf]
      exact Client.processed_inBuf ..
    · rw [← hs.live, ← hframe.closeAfterReply]
      exact Client.processed_closeAfterReply ..

/-- The loop takes from the buffer what draining it takes, unless a request blocks. -/
theorem processLoop_wlp {buf : Bytes} :
    ∀ {rounds pos : ℕ} {s : Sess D}, buf.length < pos + rounds → pos ≤ buf.length →
    s.Open → s.client.inBuf = buf →
    wlp (processLoop rounds pos) e s fun r s' => s'.Inv ∧ s'.client.inBuf = buf ∧
      (s'.client.blockedReq = none → r.2 = (drainLoop respParseCommand rounds (buf.drop pos)).items ∧
        buf.drop r.1 = (drainLoop respParseCommand rounds (buf.drop pos)).rest ∧
        s'.client.closeAfterReply = (drainLoop respParseCommand rounds (buf.drop pos)).failed)
  | 0, pos, s, hr, hpos, _, _ => absurd hr (by omega)
  | rounds + 1, pos, s, hr, hpos, hs, hbuf => by
    unfold processLoop
    rw [wlp_bind]
    refine wlp_of_wp (wp_get.mpr ?_)
    rw [hs.free, hs.live, hbuf, Option.isSome_none, Bool.false_or, Bool.false_or]
    by_cases hend : buf.length ≤ pos
    · have hnil : buf.drop pos = [] := List.drop_eq_nil_of_le hend
      rw [if_pos (decide_eq_true hend), hnil, drainLoop, respParseCommand_restartable.nil]
      exact wlp_pure _ ⟨hs.inv, hbuf, fun _ => ⟨rfl, hnil, hs.live⟩⟩
    · rw [if_neg (by simpa using hend), drainLoop]
      cases hparse : respParseCommand (buf.drop pos) with
      | incomplete => exact wlp_pure _ ⟨hs.inv, hbuf, fun _ => ⟨rfl, rfl, hs.live⟩⟩
      | error =>
        exact wlp_of_wp ⟨⟨hs.inv.store, hs.inv.client.txn, hs.inv.client.blocked⟩, hbuf,
          fun _ => ⟨rfl, rfl, rfl⟩⟩
      | ok item =>
        obtain ⟨req, used⟩ := item
        obtain ⟨hused, hle⟩ := drop_parsed hparse
        simp only [List.drop_drop]
        rw [wlp_bind]
        refine wlp_mono (processRequest_wlp hs (respParseCommand_parsed hparse)) fun _ s₁ ⟨hinv₁, hbuf₁,
          hopen₁⟩ => ?_
        rw [hbuf] at hbuf₁
        rw [wlp_bind]
        cases hfree : s₁.client.blockedReq with
        | some q =>
          -- a parked client: the loop ends here
          intro r s₂ hloop
          have hparked : s₁.client.blockedReq.isSome := by rw [hfree]; rfl
          rw [processLoop_stopped (Or.inl hparked)] at hloop
          cases hloop
          refine wlp_pure _ ⟨hinv₁, hbuf₁, fun hnone => ?_⟩
          rw [hfree] at hnone
          cases hnone
        | none =>
          refine wlp_mono (processLoop_wlp (by omega) hle (hopen₁ hfree) hbuf₁) fun r s₂ ⟨hinv₂, hbuf₂,
            hdrain⟩ => ?_
          refine wlp_pure _ ⟨hinv₂, hbuf₂, fun hnone => ?_⟩
          obtain ⟨h1, h2, h3⟩ := hdrain hnone
          exact ⟨by rw [h1], h2, h3⟩

theorem processLoop_progress : ∀ {rounds pos : ℕ} {s : Sess D}, s.Inv → pos ≤ s.client.inBuf.length →
    wlp (processLoop rounds pos) e s fun r _ => pos + r.2.length ≤ r.1 ∧ r.1 ≤ s.client.inBuf.length
  | 0, pos, s, _, hpos => wlp_pure _ ⟨Nat.le_refl pos, hpos⟩
  | rounds + 1, pos, s, hs, hpos => by
    unfold processLoop
    rw [wlp_bind]
    refine wlp_of_wp (wp_get.mpr ?_)
    have hnone : pos + ([] : List RespValue).length ≤ pos ∧ pos ≤ s.client.inBuf.length :=
      ⟨Nat.le_refl pos, hpos⟩
    split
    · exact wlp_pure _ hnone
    rename_i hgo
    cases hparse : respParseCommand (s.client.inBuf.drop pos) with
    | incomplete => exact wlp_pure _ hnone
    | error => exact wlp_of_wp hnone
    | ok item =>
      obtain ⟨req, used⟩ := item
      obtain ⟨hused, hle⟩ := drop_parsed hparse
      simp only
      rw [wlp_bind]
      refine wlp_mono (processRequest_wlp (hs.open hgo).1 (respParseCommand_parsed hparse)) fun _ s₁ h₁ => ?_
      obtain ⟨hinv₁, hbuf₁, -⟩ := h₁
      rw [← hbuf₁] at hle ⊢
      rw [wlp_bind]
      refine wlp_mono (processLoop_progress hinv₁ hle) fun r _ hr => wlp_pure _ ⟨?_, hr.2⟩
      rw [List.length_cons]
      omega

theorem processLoop_ended {pos : ℕ} (h : s.client.inBuf.length ≤ pos) :
    ∀ rounds : ℕ, processLoop rounds pos e s = .ok ((pos, []), s)
  | 0 => rfl
  | rounds + 1 => by
    show (if _ then _ else _ : Cmd D (ℕ × List RespValue)) e s = _
    rw [decide_eq_true h, Bool.or_true, if_pos rfl]
    rfl

/-- As many rounds as there are bytes left are enough: the loop has then ended by itself. -/
theorem processLoop_rounds (more : ℕ) : ∀ (rounds pos : ℕ) {s : Sess D}, s.Inv →
    s.client.inBuf.length ≤ pos + rounds → processLoop (rounds + more) pos e s = processLoop rounds pos e s
  | 0, pos, s, _, hend => (processLoop_ended hend _).trans (processLoop_ended hend _).symm
  | rounds + 1, pos, s, hs, hend => by
    rw [Nat.add_right_comm]
    refine bind_congr (wlp_of_wp (wp_get.mpr ?_))
    split
    · rfl
    rename_i hgo
    cases hparse : respParseCommand (s.client.inBuf.drop pos) with
    | incomplete => rfl
    | error => rfl
    | ok item =>
      obtain ⟨req, used⟩ := item
      obtain ⟨hused, -⟩ := drop_parsed hparse
      refine bind_congr (wlp_mono (processRequest_wlp (hs.open hgo).1 (respParseCommand_parsed hparse))
        fun _ s₁ h₁ => ?_)
      obtain ⟨hinv₁, hbuf₁, -⟩ := h₁
      have hrest := processLoop_rounds more rounds (pos + used) hinv₁ (by rw [hbuf₁]; omega)
      exact bind_of_eq _ hrest

/-- What processing the input amounts to: nothing for a condemned client, else draining the buffer. -/
def Client.drained (c : Client) : Feed RespValue UInt8 :=
  if c.closeAfterReply then ⟨[], c.inBuf, true⟩ else drain respParseCommand c.inBuf

theorem processLoop_drained (hs : s.Inv) :
    wlp (processLoop (s.client.inBuf.length + 1) 0) e s fun r s' => s'.Inv ∧
      s'.client.inBuf = s.client.inBuf ∧
      (s'.client.blockedReq = none → s.client.blockedReq = none ∧ r.2 = s.client.drained.items ∧
        s.client.inBuf.drop r.1 = s.client.drained.rest ∧ s'.client.closeAfterReply =
          s.client.drained.failed) := by
  unfold Client.drained
  by_cases hstop : s.client.blockedReq.isSome ∨ s.client.closeAfterReply = true
  · intro r s' hloop
    rw [processLoop_stopped hstop] at hloop
    cases hloop
    refine ⟨hs, rfl, fun hnone => ⟨hnone, ?_⟩⟩
    have hclose : s.client.closeAfterReply = true := by
      rw [hnone] at hstop
      exact hstop.resolve_left (by decide)
    rw [if_pos hclose]
    exact ⟨rfl, rfl, hclose⟩
  · rw [not_or, Bool.not_eq_true, Option.isSome_eq_false_iff, Option.isNone_iff_eq_none,
      Bool.not_eq_true] at hstop
    rw [hstop.2, if_neg (by decide)]
    refine wlp_mono (processLoop_wlp (by omega) (Nat.zero_le _) ⟨hs, hstop.1, hstop.2⟩ rfl) fun r s' ⟨h1,
      h2, h3⟩ => ?_
    exact ⟨h1, h2, fun hnone => ⟨hstop.1, h3 hnone⟩⟩

/-- The requests taken from the buffer, the bytes left and the error flag are those of draining, if no request
blocks and the bytes left are not too many. -/
theorem processInput_drain (hs : s.Inv) :
    wlp processInput e s fun reqs s' => s'.Inv ∧ (s'.client.blockedReq = none → s.client.blockedReq = none ∧
      (s.client.drained.rest.length ≤ clientMaxQueryBuf → reqs = s.client.drained.items ∧
        s'.client.inBuf = s.client.drained.rest ∧ s'.client.closeAfterReply = s.client.drained.failed)) := by
  unfold processInput
  rw [wlp_bind]
  refine wlp_of_wp (wp_get.mpr ?_)
  rw [wlp_bind]
  refine wlp_mono (processLoop_drained hs) fun r s₁ ⟨hinv, hbuf, hdrain⟩ => ?_
  rw [wlp_bind]
  refine wlp_of_wp (wp_modify.mpr ?_)
  rw [wlp_bind]
  refine wlp_of_wp (wp_get.mpr ?_)
  have hinv' : ∀ c : Client, c.txn = s₁.client.txn → c.blockedReq = s₁.client.blockedReq → c.Inv D :=
    fun c ht hb => ⟨ht ▸ hinv.client.txn, fun q hq => hinv.client.blocked q (hb ▸ hq)⟩
  split
  · rename_i hlong
    refine wlp_of_wp ⟨⟨hinv.store, hinv' _ rfl rfl⟩, fun hnone => ⟨(hdrain hnone).1, fun hle => ?_⟩⟩
    have hrest := (hdrain hnone).2.2.1
    rw [← hrest, ← hbuf] at hle
    exact absurd hle (Nat.not_le_of_lt hlong)
  · refine wlp_pure _ ⟨⟨hinv.store, hinv' _ rfl rfl⟩, fun hnone => ⟨(hdrain hnone).1, fun _ => ?_⟩⟩
    obtain ⟨-, h1, h2, h3⟩ := hdrain hnone
    refine ⟨h1, ?_, h3⟩
    rw [← h2, ← hbuf]

/-- After reading a chunk the client stands where `feed` stands: the same requests, bytes left and error
flag. -/
theorem readChunk_wlp {f : Feed RespValue UInt8} {chunk : Bytes} (hs : s.Inv)
    (hrest : s.client.inBuf = f.rest) (hfailed : s.client.closeAfterReply = f.failed)
    (hsize : (feed respParseCommand f chunk).rest.length ≤ clientMaxQueryBuf) :
    wlp (readChunk chunk) e s fun reqs s' => s'.Inv ∧
      (s'.client.blockedReq = none → s.client.blockedReq = none ∧
      f.items ++ reqs = (feed respParseCommand f chunk).items ∧
      s'.client.inBuf = (feed respParseCommand f chunk).rest ∧
      s'.client.closeAfterReply = (feed respParseCommand f chunk).failed) := by
  unfold readChunk
  rw [wlp_bind]
  refine wlp_of_wp (wp_modify.mpr ?_)
  refine wlp_mono (processInput_drain ⟨hs.store, hs.client.txn, hs.client.blocked⟩) fun reqs s' ⟨hinv,
    hdrain⟩ => ?_
  refine ⟨hinv, fun hnone => ?_⟩
  obtain ⟨hfree, hdrain⟩ := hdrain hnone
  unfold Client.drained at hdrain
  simp only [hrest, hfailed] at hdrain
  unfold feed at hsize ⊢
  cases hf : f.failed with
  | true =>
    rw [hf] at hdrain hsize
    obtain ⟨h1, h2, h3⟩ := hdrain hsize
    exact ⟨hfree, by rw [h1]; exact List.append_nil _, h2, h3⟩
  | false =>
    rw [hf] at hdrain hsize
    obtain ⟨h1, h2, h3⟩ := hdrain hsize
    exact ⟨hfree, by rw [h1]; rfl, h2, h3⟩

theorem serveChunks_free : ∀ {chunks : List Bytes} {s : Sess D}, s.Inv →
    wlp (serveChunks chunks) e s fun _ s' => s'.client.blockedReq = none → s.client.blockedReq = none
  | [], _, _ => wlp_pure _ id
  | chunk :: chunks, s, hs => by
    unfold serveChunks readChunk
    rw [wlp_bind, wlp_bind]
    refine wlp_of_wp (wp_modify.mpr ?_)
    refine wlp_mono (processInput_drain ⟨hs.store, hs.client.txn, hs.client.blocked⟩)
      fun reqs s₁ ⟨hinv₁, h₁⟩ => ?_
    rw [wlp_bind]
    exact wlp_mono (serveChunks_free hinv₁) fun _ s₂ h₂ => wlp_pure _ fun hnone => (h₁ (h₂ hnone)).1

theorem serveChunks_wlp : ∀ {chunks : List Bytes} {f : Feed RespValue UInt8} {s : Sess D}, s.Inv →
    s.client.inBuf = f.rest → s.client.closeAfterReply = f.failed →
    (∀ cs, cs <+: chunks → (cs.foldl (feed respParseCommand) f).rest.length ≤ clientMaxQueryBuf) →
    wlp (serveChunks chunks) e s fun reqs s' => s'.client.blockedReq = none → s.client.blockedReq = none ∧
      f.items ++ reqs = (chunks.foldl (feed respParseCommand) f).items ∧
      s'.client.inBuf = (chunks.foldl (feed respParseCommand) f).rest ∧
      s'.client.closeAfterReply = (chunks.foldl (feed respParseCommand) f).failed
  | [], f, s, _, hrest, hfailed, _ => wlp_pure _ fun hnone => ⟨hnone, List.append_nil _, hrest, hfailed⟩
  | chunk :: chunks, f, s, hs, hrest, hfailed, hsize => by
    have hfirst : (feed respParseCommand f chunk).rest.length ≤ clientMaxQueryBuf :=
      hsize [chunk] (List.cons_prefix_cons.mpr ⟨rfl, List.nil_prefix⟩)
    unfold serveChunks
    rw [wlp_bind]
    refine wlp_mono (readChunk_wlp hs hrest hfailed hfirst) fun reqs s₁ ⟨hinv₁, h₁⟩ => ?_
    rw [wlp_bind]
    intro reqs' s₂ hserve
    refine wlp_pure _ fun hnone => ?_
    obtain ⟨hfree, hitems, hrest₁, hfailed₁⟩ := h₁ (serveChunks_free hinv₁ reqs' s₂ hserve hnone)
    have hsize₁ : ∀ cs, cs <+: chunks →
      (cs.foldl (feed respParseCommand) (feed respParseCommand f chunk)).rest.length ≤
        clientMaxQueryBuf := fun cs hcs => hsize (chunk :: cs) (List.cons_prefix_cons.mpr ⟨rfl, hcs⟩)
    obtain ⟨-, hitems₂, hrest₂, hfailed₂⟩ :=
      serveChunks_wlp hinv₁ hrest₁ hfailed₁ hsize₁ reqs' s₂ hserve hnone
    refine ⟨hfree, ?_, hrest₂, hfailed₂⟩
    rw [← List.append_assoc, hitems]
    exact hitems₂

/-- A new client that reads chunks stands where feeding the chunks to the parser stands. -/
theorem serveChunks_feed {chunks : List Bytes} {reqs : List RespValue} (hs : s.Inv)
    (hin : s.client.inBuf = []) (hlive : s.client.closeAfterReply = false)
    (hsize : ∀ cs, cs <+: chunks → (feedAll respParseCommand cs).rest.length ≤ clientMaxQueryBuf)
    (hserve : serveChunks chunks e s = .ok (reqs, s')) (hfree : s'.client.blockedReq = none) :
    reqs = (feedAll respParseCommand chunks).items ∧
      s'.client.inBuf = (feedAll respParseCommand chunks).rest ∧
      s'.client.closeAfterReply = (feedAll respParseCommand chunks).failed :=
  (serveChunks_wlp (f := ⟨[], [], false⟩) hs hin hlive hsize reqs s' hserve hfree).2

/-! ## Cut streams -/

/-- A client's stream in chunks: the cut falls in a header of 33 bytes, before a CR that ends the stream. -/
def CutBeforeCr (chunks : List Bytes) : Prop :=
  ∃ cs ds items r, chunks = cs ++ ds ∧ Reaches respParseCommand cs.flatten items r ∧ LongHeader r ∧
    ds.flatten = [cr]

theorem feedAll_agrees_iff_cut (chunks : List Bytes) :
    (feedAll respParseCommand chunks).Agrees (feedAll respParseCommand [chunks.flatten]) ↔
      ¬ CutBeforeCr chunks := by
  rw [feedAll_agrees_iff respParseCommand_restartable]
  simp only [respParseCommand_error_incomplete_iff]
  rfl

end Drain

/-- Request parsing does not depend on how the stream is cut, except before the CR after a header of 33 bytes:
the requests taken from the chunks and the final status are those of the whole stream if and only if there is
no such cut. This holds for the parser by itself and for a client that reads the chunks, if no request blocks
and the bytes left are never too many. An answer `OK` is kept by every extension of the buffer, and an answer
`ERROR` by every other extension. -/
theorem request_stream_cut :
    (∀ chunks : List Bytes,
      (feedAll respParseCommand chunks).Agrees (feedAll respParseCommand [chunks.flatten]) ↔
        ¬ CutBeforeCr chunks) ∧
    (∀ (e : Env D) (s s₁ s₂ : Sess D) (chunks : List Bytes) (reqs₁ reqs₂ : List RespValue), s.Inv →
      s.client.inBuf = [] → s.client.closeAfterReply = false →
      (∀ cs, cs <+: chunks → (feedAll respParseCommand cs).rest.length ≤ clientMaxQueryBuf) →
      (feedAll respParseCommand [chunks.flatten]).rest.length ≤ clientMaxQueryBuf →
      serveChunks chunks e s = .ok (reqs₁, s₁) → serveChunks [chunks.flatten] e s = .ok (reqs₂, s₂) →
      s₁.client.blockedReq = none → s₂.client.blockedReq = none →
      ((reqs₁ = reqs₂ ∧ s₁.client.closeAfterReply = s₂.client.closeAfterReply ∧
        (s₁.client.closeAfterReply = false → s₁.client.inBuf = s₂.client.inBuf)) ↔ ¬ CutBeforeCr chunks)) ∧
    (∀ (b x : Bytes) (v : RespValue) (used : ℕ), respParseCommand b = .ok (v, used) →
      respParseCommand (b ++ x) = .ok (v, used)) ∧
    (∀ b x : Bytes, respParseCommand b = .error →
      (respParseCommand (b ++ x) = .error ↔ ¬ (LongHeader b ∧ x = [cr]))) := by
  refine ⟨feedAll_agrees_iff_cut, fun e s s₁ s₂ chunks reqs₁ reqs₂ hs hin hlive hsize hsize' h₁ h₂ hf₁ hf₂ =>
    ?_,
    fun b x v used h => respParseCommand_okStable b x _ h, fun b x h => respParseCommand_error_iff h x⟩
  have hsize₂ : ∀ cs, cs <+: [chunks.flatten] → (feedAll respParseCommand cs).rest.length ≤
      clientMaxQueryBuf := by
    intro cs hcs
    rcases List.prefix_cons_iff.mp hcs with rfl | ⟨ds, rfl, hds⟩
    · exact Nat.zero_le _
    · rw [List.prefix_nil.mp hds]
      exact hsize'
  obtain ⟨rfl, hrest₁, hclose₁⟩ := serveChunks_feed hs hin hlive hsize h₁ hf₁
  obtain ⟨rfl, hrest₂, hclose₂⟩ := serveChunks_feed hs hin hlive hsize₂ h₂ hf₂
  rw [hrest₁, hrest₂, hclose₁, hclose₂, ← feedAll_agrees_iff_cut]
  rfl

/-- A request in three pieces. -/
theorem request_stream_cut_ping :
    let chunks := [ascii "*1\r\n$4", ascii "\r\nPING\r", ascii "\n"]
    let e := Env.integers (fun n => n) fun n => n
    let s := (Server.joined (storeCreate : Store Int)).sess {}
    ∃ reqs s₁ s₂, serveChunks chunks e s = .ok (reqs, s₁) ∧
      serveChunks [chunks.flatten] e s = .ok (reqs, s₂) ∧
      reqs.length = 1 ∧ s₁.client.inBuf = s₂.client.inBuf := by
  intro chunks e s
  have hreach : (Server.joined (storeCreate : Store Int)).Reachable e := Server.joined_reachable e .create
  have hs : s.Inv := hreach.inv.sess (i := 0) rfl
  have hcut : ¬ CutBeforeCr chunks := by
    rintro ⟨cs, ds, -, -, hcs, -, -, hds⟩
    have hlast : chunks.flatten.getLast? = some cr := by
      rw [hcs, List.flatten_append, hds, List.getLast?_concat]
    exact absurd hlast (by decide)
  have hsize : ∀ cs ∈ [chunks.flatten] :: chunks.inits,
      (feedAll respParseCommand cs).rest.length ≤ clientMaxQueryBuf := by
    decide +kernel
  have hend : ∀ cs ∈ [chunks, [chunks.flatten]], (serveChunks cs e s).toOption.map (fun p =>
      (p.1.length, p.2.client.blockedReq.isNone, p.2.client.closeAfterReply)) = some (1, true, false) := by
    decide +kernel
  obtain ⟨⟨reqs₁, s₁⟩, h₁, hend₁⟩ := ok_of_toOption (hend chunks (by simp))
  obtain ⟨⟨reqs₂, s₂⟩, h₂, hend₂⟩ := ok_of_toOption (hend [chunks.flatten] (by simp))
  simp only [Prod.mk.injEq, Option.isNone_iff_eq_none] at hend₁ hend₂
  obtain ⟨rfl, -, hrest⟩ := (request_stream_cut.2.1 e s s₁ s₂ chunks reqs₁ reqs₂ hs rfl rfl
    (fun cs hcs => hsize cs (List.mem_cons_of_mem _ ((List.mem_inits cs chunks).mpr hcs)))
    (hsize _ List.mem_cons_self) h₁ h₂ hend₁.2.1 hend₂.2.1).mpr hcut
  exact ⟨reqs₁, s₁, s₂, h₁, h₂, hend₁.1, hrest hend₁.2.2⟩

/-- A header of 33 digits, and then the CR. -/
theorem request_stream_cut_long_header :
    let header : Bytes := 42 :: List.replicate 33 49
    let e := Env.integers (fun n => n) fun n => n
    let s := (Server.joined (storeCreate : Store Int)).sess {}
    respParseCommand header = .error ∧ respParseCommand (header ++ [cr]) = .incomplete ∧
    (serveChunks [header, [cr]] e s).toOption.map (·.2.client.closeAfterReply) = some true ∧
    (serveChunks [header ++ [cr]] e s).toOption.map (·.2.client.closeAfterReply) = some false := by
  refine ⟨rfl, rfl, ?_, ?_⟩ <;> decide +kernel

/-! ## Null arguments -/

section Null
variable {e : Env D} {srv : Server D} {i : ℕ} {c : Client}

omit [LinearOrder D] in
theorem Server.put_put (srv : Server D) (i : ℕ) (s s' : Sess D) (o o' : Option Client) :
    (srv.put i s o).put i s' o' = srv.put i s' o' := by
  unfold Server.put
  rw [Function.update_idem]

omit [LinearOrder D] in
theorem Server.put_same (hi : srv.clients i = some c) : srv.put i (srv.sess c) (some c) = srv := by
  unfold Server.put
  rw [← hi, Function.update_eq_self]
  rfl

/-- No request from this place of the buffer on has a null element. -/
def NoNullBulk (buf : Bytes) : Prop := ∀ items r, Reaches respParseCommand buf items r → ¬ HasNullBulk r

theorem NoNullBulk.next {buf : Bytes} {req : RespValue} {used : ℕ} (h : NoNullBulk buf)
    (hparse : respParseCommand buf = .ok (req, used)) : NoNullBulk (buf.drop used) :=
  fun items r hr => h (req :: items) r (.item hparse hr)

theorem NoNullBulk.isRequest {buf : Bytes} {req : RespValue} {used : ℕ} (h : NoNullBulk buf)
    (hparse : respParseCommand buf = .ok (req, used)) (hcount : req.count ≠ 0) : req.IsRequest := by
  obtain ⟨-, htype, hbulks⟩ := (respParseCommand_bulk_iff buf).mpr (h [] buf (.done buf)) req used hparse
  exact ⟨htype, fun hnil => hcount (by rw [RespValue.count, hnil]; rfl), hbulks⟩

/-- Without null elements the loop meets no fault, and is a run of the server. -/
theorem processLoop_run : ∀ {rounds pos : ℕ} {srv : Server D} {c : Client}, srv.Inv → srv.clients i = some c →
    NoNullBulk (c.inBuf.drop pos) →
    wp (processLoop rounds pos) e (srv.sess c) fun _ s' => ∃ evs, Run (Step e) srv evs
      (srv.put i s' (some s'.client))
  | 0, pos, srv, c, _, hi, _ => ⟨[], show Run _ srv [] (srv.put i (srv.sess c) (some c)) by
      rw [srv.put_same hi]
      exact .nil srv⟩
  | rounds + 1, pos, srv, c, hinv, hi, hnull => by
    have hstay : Run (Step e) srv [] (srv.put i (srv.sess c) (some c)) := by
      rw [srv.put_same hi]
      exact .nil srv
    unfold processLoop
    rw [wp_bind, wp_get]
    split
    · exact ⟨[], hstay⟩
    · rename_i hgo
      obtain ⟨hfree, hopen, -⟩ := c.goes_on hgo
      rw [show (srv.sess c).client.inBuf = c.inBuf from rfl]
      cases hparse : respParseCommand (c.inBuf.drop pos) with
      | incomplete => exact ⟨[], hstay⟩
      | error => exact ⟨[_], .one (.buffers hi c.inBuf _ true c.closed)⟩
      | ok item =>
        obtain ⟨req, used⟩ := item
        have hnull' : NoNullBulk (c.inBuf.drop (pos + used)) := by
          rw [← List.drop_drop]
          exact hnull.next hparse
        simp only
        rw [wp_bind]
        by_cases hcount : req.count = 0
        · rw [processRequest, if_pos hcount, wp_pure, wp_bind]
          exact processLoop_run hinv hi hnull'
        · have hreq := hnull.isRequest hparse hcount
          obtain ⟨r, s₁, hrun, hp⟩ := wp_iff.mp (commandProcess_wp (e := e) (hinv.sess hi) hreq)
          have hstep := Step.request hi hfree hopen hreq hrun
          have hbuf : (s₁.client.processed req r).inBuf = c.inBuf := by
            rw [Client.processed_inBuf, hp.framed.inBuf]
            rfl
          rw [processRequest, if_neg hcount, wp_bind, wp_of_ok hrun, wp_modify, wp_bind]
          rw [← hbuf] at hnull'
          refine wp_mono (processLoop_run (hstep.inv hinv) (Server.put_self ..) hnull') fun _ s' ⟨evs,
            hrest⟩ => ?_
          rw [Server.put_put] at hrest
          exact ⟨_, (Run.one hstep).trans hrest⟩

/-- Without null elements `process_input` meets no fault, and is a run of the server. -/
theorem processInput_run (hinv : srv.Inv) (hi : srv.clients i = some c) (hnull : NoNullBulk c.inBuf) :
    wp processInput e (srv.sess c) fun _ s' => ∃ evs, Run (Step e) srv evs
      (srv.put i s' (some s'.client)) := by
  unfold processInput
  rw [wp_bind, wp_get, wp_bind]
  refine wp_mono (processLoop_run hinv hi hnull) fun r s₁ ⟨evs, hrun⟩ => ?_
  have hself := Server.put_self srv i s₁ (some s₁.client)
  rw [wp_bind, wp_modify, wp_bind, wp_get]
  split
  · have hstep := Step.buffers (e := e) hself (s₁.client.inBuf.drop r.1)
      (s₁.client.out ++ replyError (ascii "ERR Protocol error: request too large")) true s₁.client.closed
    rw [Server.put_put] at hstep
    exact ⟨_, hrun.snoc hstep⟩
  · have hstep := Step.buffers (e := e) hself (s₁.client.inBuf.drop r.1) s₁.client.out
      s₁.client.closeAfterReply
      s₁.client.closed
    rw [Server.put_put] at hstep
    exact ⟨_, hrun.snoc hstep⟩

end Null

/-- For every buffer, neither entry point of the parser reads a byte beyond it, writes an element beyond its
block or computes a negative length, and a value that is parsed takes at least one byte and at most all of
them. So the loop of `process_input` ends by itself within as many rounds as there are bytes, and a request
that it takes is one byte of the buffer at least. -/
theorem parser_in_bounds (buf : Bytes) :
    ((Bounds.respParseCommand buf).run = .ok (respParseCommand buf) ∧
      ∀ v used, respParseCommand buf = .ok (v, used) → 1 ≤ used ∧ used ≤ buf.length) ∧
    ((Bounds.respParseReply buf).run = .ok (respParseReply buf) ∧
      ∀ v used, respParseReply buf = .ok (v, used) → 1 ≤ used ∧ used ≤ buf.length) ∧
    (∀ lineLen rounds, lineLen ≤ buf.length → lineLen ≤ rounds →
      Bounds.inlineWords buf lineLen rounds [] 0 0 = Bounds.inlineWords buf lineLen lineLen [] 0 0) ∧
    ∀ (e : Env D) (s : Sess D), s.Inv → s.client.inBuf = buf →
      (∀ more, processLoop (buf.length + more) 0 e s = processLoop buf.length 0 e s) ∧
      ∀ rounds r s', processLoop rounds 0 e s = .ok (r, s') → r.2.length ≤ r.1 ∧ r.1 ≤ buf.length := by
  have hcommand := Bounds.respParseCommand_safe buf
  have hreply := Bounds.respParseReply_safe buf
  refine ⟨⟨hcommand.1, fun v used h => hcommand.2 _ h⟩, ⟨hreply.1, fun v used h => hreply.2 _ h⟩,
    fun lineLen rounds hline hrounds => Bounds.inlineWords_rounds hline hrounds, fun e s hs hbuf => ?_⟩
  subst hbuf
  refine ⟨fun more => processLoop_rounds more _ 0 hs (Nat.le_of_eq (Nat.zero_add _).symm),
    fun rounds r s' hrun => ?_⟩
  obtain ⟨hcount, hle⟩ := processLoop_progress hs (Nat.zero_le _) r s' hrun
  exact ⟨by omega, hle⟩

/-- A request the parser accepts is an array of non-null bulk strings, if and only if no element header reads
`-1`. If no request in the buffer of a client has such an element, then processing the input uses no null
string, in every reachable state; nor does processing a request of non-null bulk strings. -/
theorem requests_are_bulk_arrays :
    (∀ buf : Bytes, (∀ v used, respParseCommand buf = .ok (v, used) →
      RequestBytes v (buf.take used) ∧ v.type = .array ∧ ∀ x ∈ v.elements, x.IsBulk) ↔ ¬ HasNullBulk buf) ∧
    (∀ (e : Env D) (srv : Server D) (i : ℕ) (c : Client), srv.Reachable e → srv.clients i = some c →
      (NoNullBulk c.inBuf → ∃ reqs s, processInput e (srv.sess c) = .ok (reqs, s)) ∧
      (∀ req : RespValue, req.IsRequest → (∃ found s, validate req e (srv.sess c) = .ok (found, s)) ∧
        ∃ r s, commandProcess req e (srv.sess c) = .ok (r, s))) := by
  refine ⟨respParseCommand_bulk_iff, fun e srv i c h hi => ⟨fun hnull => ?_, fun req hreq => ⟨?_, ?_⟩⟩⟩
  · obtain ⟨reqs, s, hrun, -⟩ := wp_iff.mp (processInput_run (e := e) h.inv hi hnull)
    exact ⟨reqs, s, hrun⟩
  · obtain ⟨found, s, hrun, -⟩ := wp_iff.mp (validate_wp (e := e) (s := srv.sess c) hreq)
    exact ⟨found, s, hrun⟩
  · obtain ⟨r, s, hrun, -⟩ := wp_iff.mp (commandProcess_wp (e := e) (h.inv.sess hi) hreq)
    exact ⟨r, s, hrun⟩

/-- A request without null elements. -/
theorem requests_are_bulk_arrays_ping :
    let e := Env.integers (fun n => n) fun n => n
    let c : Client := { inBuf := ascii "*1\r\n$4\r\nPING\r\n" }
    let srv := (Server.joined (storeCreate : Store Int)).put 0 ((Server.joined storeCreate).sess {}) (some c)
    (∃ v used, respParseCommand c.inBuf = .ok (v, used) ∧ ∀ x ∈ v.elements, x.IsBulk) ∧
      ∃ reqs s, processInput e (srv.sess c) = .ok (reqs, s) := by
  intro e c srv
  have hparse : respParseCommand c.inBuf = .ok (.request [ascii "PING"], 14) := rfl
  have hreach : srv.Reachable e :=
    (Server.joined_reachable e .create).run (.one (.buffers rfl c.inBuf [] false false))
  have hfirst : ¬ HasNullBulk c.inBuf := by
    intro h
    obtain ⟨v, used, hp, hnull⟩ := h.parsed
    cases hparse.symm.trans hp
    cases List.mem_singleton.mp hnull
  have hnull : NoNullBulk c.inBuf := by
    rintro items r (_ | ⟨hp, hr⟩)
    · exact hfirst
    · cases hparse.symm.trans hp
      rcases hr with _ | ⟨hp', -⟩
      · intro h
        obtain ⟨v, used, hp, -⟩ := h.parsed
        cases hp
      · cases hp'
  obtain ⟨hbulk, hrun⟩ := requests_are_bulk_arrays (D := Int)
  exact ⟨⟨_, _, hparse, ((hbulk c.inBuf).mpr hfirst _ _ hparse).2.2⟩, (hrun e srv 0 c hreach rfl).1 hnull⟩

/-- A request whose only element is a null bulk string. -/
theorem requests_are_bulk_arrays_null :
    let buf := ascii "*1\r\n$-1\r\n"
    let s := (Server.joined (storeCreate : Store Int)).sess {}
    (∃ v used, respParseCommand buf = .ok (v, used) ∧ ∃ x ∈ v.elements, x.str = none) ∧
      (match readChunk buf (Env.integers (fun n => n) fun n => n) s with
        | .ok _ => none
        | .error fault => some fault) = some Fault.nullStr := by
  refine ⟨⟨_, _, rfl, _, List.mem_singleton_self _, rfl⟩, ?_⟩
  decide +kernel

end PulseDB
