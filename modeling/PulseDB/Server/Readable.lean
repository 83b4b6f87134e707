import PulseDB.Rdb.Served
import PulseDB.Resp.Inline
import PulseDB.Server.Pipeline

/-!
# Replies that a client can read

`resp_parse_reply` refuses lines, strings and arrays above the limits of `resp.h`. The commands do not look at
these limits, but a reply shows little more than what the store and the request hold.

* `respParseCommand_fits` : what is parsed as a request is within the limits;
* `Executes.adds` : so is what processing a request writes, if the stores are in which handlers are called;
* `FittingMoves` : a move in which they are; `CallsFit`, `serverRun_fitting` : when turns of the loop are such
  moves; `FittingMoves.adds` : what such a move writes for a client;
* `replies_readable` : in every run of such moves a client is sent nothing but replies that it can read.
-/

namespace PulseDB
open Lib Lib.Prog

variable {D : Type} [LinearOrder D]

/-! ## Requests -/

section Requests

theorem BulksBytes.short {vs : List RespValue} {bs : Bytes} (h : BulksBytes vs bs) :
    ∀ v ∈ vs, ∀ str ∈ v.str, str.length ≤ respMaxBulkLen := by
  induction h with
  | nil => exact fun v hv => absurd hv List.not_mem_nil
  | cons hb _ ih =>
    refine List.forall_mem_cons.mpr ⟨fun str hstr => ?_, ih⟩
    cases hb with
    | null => cases hstr
    | bulk _ hs =>
      cases hstr
      exact hs

theorem respParseCommand_fits {buf : Bytes} {req : RespValue} {used : ℕ}
    (h : respParseCommand buf = .ok (req, used)) :
    req.Fits := by
  obtain ⟨bs, rest, hreq, -, -⟩ := respParseCommand_ok_iff.mp h
  cases hreq with
  | array _ hlen hvs => exact ⟨hlen, hvs.short⟩
  | @inline line _ hlen _ =>
    let text := if line.getLast? = some cr then line.dropLast else line
    have htext : text.length ≤ respMaxInlineLen := by
      refine le_trans ?_ hlen
      unfold text
      split
      · rw [List.length_dropLast]
        omega
      · exact Nat.le_refl _
    refine ⟨?_, fun x hx str hstr => ?_⟩
    · have hcount : ((inlineWords text.length text).map RespValue.bulk).length ≤ text.length := by
        rw [List.length_map]
        exact inlineWords_length _ _
      exact (hcount.trans htext).trans (by decide)
    · obtain ⟨w, hw, rfl⟩ := List.mem_map.mp hx
      cases hstr
      exact ((inlineWords_word hw).trans htext).trans (by decide)

end Requests

/-! ## Calls of handlers -/

section Calls
variable {e : Env D} {s s' : Sess D} {x : Execution} {xs : List Execution} {canBlock timedOut : Bool}

theorem Runs.writes (hv : s.store.Valid) (h : Runs e canBlock timedOut s x s') : s'.store.Valid ∧
    match x.reply with
    | some v => s'.client.out = s.client.out ++ v.enc
    | none => canBlock = true ∧ s'.client.out = s.client.out := by
  cases h with
  | done hreq hrun _ hout => exact ⟨(wp_post (runFound_wp hreq hv canBlock timedOut) hrun).1, hout⟩
  | block hreq hrun =>
    obtain ⟨hvalid, -, hblock, -, -, d, hclient⟩ := wp_post (runFound_wp hreq hv canBlock timedOut) hrun
    exact ⟨hvalid, hblock, by rw [hclient]⟩

/-- The reply of a call is within the limits if all that the handler can write is. -/
theorem Runs.within (hv : s.store.Valid) (h : Runs e canBlock timedOut s x s')
    (hl : Limited e ⟨x.req, canBlock, timedOut⟩ s) : ∀ v ∈ x.reply, v.Within replyDepth := by
  cases h with
  | @done req v s' hreq hrun hwf hout =>
    obtain ⟨-, hdelivers⟩ := wp_post (runFound_delivers hreq hv canBlock timedOut) hrun
    obtain ⟨w, hw, hout', hwithin⟩ := hdelivers rfl
    have henc : v.enc = w.enc := List.append_cancel_left (hout.symm.trans hout')
    intro v' hv'
    cases hv'
    rw [Reply.eq_of_enc hwf hw henc]
    exact hwithin hl
  | block =>
    intro v hv
    cases hv

/-- Some requests run one after the other, each in a store within the limits. -/
theorem runs_within (hcfg : e.cfg.Fits) (h : Run (Runs e false false) s xs s') (hv : s.store.Valid)
    (hreqs : ∀ x ∈ xs, x.req.Fits)
    (hstores : ∀ ys zs s₁, xs = ys ++ zs → zs ≠ [] → Run (Runs e false false) s ys s₁ → s₁.store.Fits) :
    s'.store.Valid ∧ ∃ vs : List Reply, vs.length = xs.length ∧ (∀ v ∈ vs, v.Within replyDepth) ∧
      s'.client.out = s.client.out ++ Reply.encs vs := by
  induction h with
  | nil => exact ⟨hv, [], rfl, fun v hv => absurd hv List.not_mem_nil, by rw [Reply.encs, List.append_nil]⟩
  | @snoc s₁ s₂ xs x hrun hx ih =>
    obtain ⟨hreqs₁, hreq⟩ := List.forall_mem_append.mp hreqs
    obtain ⟨hv₁, vs, hlen, hvs, hout⟩ := ih hreqs₁ fun ys zs t hxs hzs =>
      hstores ys (zs ++ [x]) t (by rw [hxs, List.append_assoc]) (List.append_ne_nil_of_left_ne_nil hzs _)
    have hfits : s₁.store.Fits := hstores xs [x] s₁ rfl (List.cons_ne_nil _ _) hrun
    obtain ⟨hv₂, hwrites⟩ := hx.writes hv₁
    have hwithin := hx.within hv₁ ⟨hcfg, hreq x (List.mem_singleton_self x), hfits⟩
    obtain ⟨req, reply⟩ := x
    cases reply with
    | none => exact absurd hwrites.1 (by decide)
    | some v =>
      refine ⟨hv₂, vs ++ [v], by rw [List.length_append, List.length_append, hlen]; rfl, ?_, ?_⟩
      · exact List.forall_mem_append.mpr ⟨hvs, List.forall_mem_singleton.mpr (hwithin v rfl)⟩
      · rw [show s₂.client.out = s₁.client.out ++ v.enc from hwrites, hout, Reply.encs_snoc,
          List.append_assoc]

end Calls

/-! ## Processing a request -/

/-- What is written when a request ends with the result `r`: nothing if it is parked, otherwise a value that a
client can read. -/
def Adds (r : CommandResult) (out out' : Bytes) : Prop :=
  if r = .blocked then out' = out else ∃ v : Reply, v.Within respMaxDepth ∧ out' = out ++ v.enc

theorem Adds.value {r : CommandResult} {out out' : Bytes} {d : ℕ} {v : Reply} (hr : r ≠ .blocked)
    (hv : v.Within d) (hd : d ≤ respMaxDepth) (hout : out' = out ++ v.enc) : Adds r out out' := by
  unfold Adds
  rw [if_neg hr]
  exact ⟨v, hv.mono hd, hout⟩

/-- A handler called while a request is processed finds this store: the calls before it lead to it. Only the
handlers of a queue are called after others. -/
def Finds (e : Env D) (s : Sess D) (xs : List Execution) (store : Store D) : Prop :=
  ∃ ys zs s', xs = ys ++ zs ∧ zs ≠ [] ∧
    Run (Runs e false false) (s.answered (replyArray s.client.txn.cmds.length) s.client.txn) ys s' ∧
    s'.store = store

section Process
variable {e : Env D} {s s' : Sess D} {req : RespValue} {r : CommandResult} {xs : List Execution}

theorem Runs.adds {x : Execution} {canBlock timedOut : Bool} (hcfg : e.cfg.Fits) (hv : s.store.Valid)
    (hreq : x.req.Fits) (hstore : s.store.Fits) (h : Runs e canBlock timedOut s x s') :
      Adds x.result s.client.out s'.client.out := by
  obtain ⟨-, hwrites⟩ := h.writes hv
  have hwithin := h.within hv ⟨hcfg, hreq, hstore⟩
  obtain ⟨q, reply⟩ := x
  cases reply with
  | none => exact hwrites.2
  | some v =>
    have hdone : CommandResult.done ≠ .blocked := by decide
    exact .value hdone (hwithin v rfl) (by decide) hwrites

/-- Whether a parsed request is accepted is what `validate` finds out, if it meets no fault. -/
theorem validate_parsed (hp : req.IsParsed) (hcount : req.count ≠ 0) : wlp (validate req) e s fun found s' =>
    match found with
    | some spec => s' = s ∧ Accepted req spec
    | none => ∃ msg, msg.length ≤ respMaxInlineLen ∧
        s' = { s with client := { s.client with out := s.client.out ++ replyError msg } } := by
  intro found s' hrun
  have hv := validate_wlp found s' hrun
  cases found with
  | none => exact hv
  | some spec => exact wp_post (validate_wp (hp.isRequest hcount hv.2)) hrun

theorem commandProcess_line (hp : req.IsParsed) (hcount : req.count ≠ 0)
    (hown : Runnable D req → s.client.txn.active = true)
    (hqueue : ∀ spec : CommandSpec D, Accepted req spec → spec.kind = .exec → s.client.txn.active = true →
      s.client.txn.error = true) :
    wlp (commandProcess req) e s fun _ s' => ∃ v : Reply, v.Within 0 ∧ s'.client.out = s.client.out ++
      v.enc := by
  have herror : ∀ {msg : Bytes}, msg.length ≤ respMaxInlineLen →
      ∃ v : Reply, v.Within 0 ∧ s.client.out ++ replyError msg = s.client.out ++ v.enc :=
    fun {msg} h => ⟨.error (errorLine msg), Reply.within_error h, by rw [replyError_eq]⟩
  have hsimple : ∀ {msg : Bytes}, Reply.Line msg → msg.length ≤ respMaxInlineLen →
      ∃ v : Reply, v.Within 0 ∧ s.client.out ++ replySimple msg = s.client.out ++ v.enc :=
    fun {msg} hm h => ⟨.simple msg, ⟨⟨hm, h⟩, Nat.le_refl _⟩, by rw [replySimple_eq]⟩
  unfold commandProcess
  rw [wlp_bind]
  refine wlp_mono (validate_parsed hp hcount) fun found s₁ hfound => ?_
  cases found with
  | none =>
    obtain ⟨msg, hmsg, rfl⟩ := hfound
    exact wlp_of_wp (herror hmsg)
  | some spec =>
    obtain ⟨rfl, hacc⟩ := hfound
    simp only
    rw [wlp_bind]
    refine wlp_of_wp (wp_get.mpr ?_)
    cases hkind : spec.kind with
    | multi =>
      simp only
      split
      · exact wlp_of_wp (herror (ascii_length_le _ (by decide)))
      · exact wlp_of_wp (hsimple (by decide) (ascii_length_le _ (by decide)))
    | exec =>
      simp only
      split
      · exact wlp_of_wp (herror (ascii_length_le _ (by decide)))
      · rename_i hactive
        rw [Bool.not_eq_true', Bool.not_eq_false] at hactive
        rw [wlp_bind]
        unfold execTransaction
        rw [wlp_bind]
        refine wlp_of_wp (wp_get.mpr ?_)
        rw [if_pos (hqueue spec hacc hkind hactive)]
        refine wlp_of_wp ?_
        rw [wp_bind]
        exact wlp_pure CommandResult.done (herror (ascii_length_le _ (by decide)))
    | discard =>
      simp only
      split
      · exact wlp_of_wp (herror (ascii_length_le _ (by decide)))
      · exact wlp_of_wp (hsimple (by decide) (ascii_length_le _ (by decide)))
    | normal =>
      simp only
      rw [if_pos (hown ⟨spec, hacc, hkind⟩)]
      split
      · exact wlp_of_wp (herror (ascii_length_le _ (by decide)))
      · exact wlp_of_wp (hsimple (by decide) (ascii_length_le _ (by decide)))

/-- What processing a request writes, if the handlers it calls find stores within the limits. -/
theorem Executes.adds (hcfg : e.cfg.Fits) (hs : s.Inv) (hp : req.IsParsed) (hcount : req.count ≠ 0)
    (hreq : req.Fits)
    (hcmds : ∀ q ∈ s.client.txn.cmds, q.Fits) (hstores : ∀ store, Finds e s xs store → store.Fits)
    (hrun : commandProcess req e s = .ok (r, s')) (h : Executes e req s r s' xs) :
    Adds r s.client.out s'.client.out := by
  cases h with
  | @own x s' hactive hx hruns =>
    have hstore : s.store.Fits := hstores s.store ⟨[], [x], _, rfl, List.cons_ne_nil _ _, .nil _, rfl⟩
    exact hruns.adds hcfg hs.store (hx.symm ▸ hreq) hstore
  | @queue spec xs s₁ hacc hkind hactive herror hreqs hxs =>
    have hfit : ∀ x ∈ xs, x.req.Fits := fun x hx => hcmds _ (hreqs ▸ List.mem_map_of_mem hx)
    obtain ⟨-, vs, hlen, hvs, hout⟩ := runs_within hcfg hxs hs.store hfit fun ys zs t hyz hzs hys =>
      hstores t.store ⟨ys, zs, t, hyz, hzs, hys, rfl⟩
    have hcount : vs.length = s.client.txn.cmds.length := by rw [hlen, ← hreqs, List.length_map]
    have hmax : vs.length ≤ respMaxArrayLen := by
      rw [hcount]
      exact hs.client.txn.length.trans (by decide)
    refine .value (v := .array vs) (by decide) (Reply.within_array hmax hvs) (by decide) ?_
    rw [← replyArray_append, hcount, ← List.append_assoc]
    exact hout
  | nothing hown hqueue hr hstore =>
    obtain ⟨v, hv, hout⟩ := commandProcess_line hp hcount hown hqueue _ _ hrun
    exact .value hr hv (Nat.zero_le _) hout

theorem Processed.cmds (h : Processed e req s r s') :
    ∀ q ∈ s'.client.txn.cmds, q ∈ s.client.txn.cmds ∨ q = req := by
  cases h with
  | rejected _ msg =>
    intro q hq
    change q ∈ (if s.client.txn.active then { s.client.txn with error := true } else s.client.txn).cmds at hq
    split at hq <;> exact Or.inl hq
  | multi => exact fun q hq => Or.inl hq
  | nested => exact fun q hq => Or.inl hq
  | outside => exact fun q hq => Or.inl hq
  | aborted => exact fun q hq => absurd hq List.not_mem_nil
  | executed => exact fun q hq => absurd hq List.not_mem_nil
  | discarded => exact fun q hq => absurd hq List.not_mem_nil
  | full => exact fun q hq => Or.inl hq
  | queued => exact fun q hq => (List.mem_append.mp hq).imp id List.mem_singleton.mp
  | ran _ _ _ _ hanswers =>
    intro q hq
    rw [hanswers.kept.1] at hq
    exact Or.inl hq

theorem commandProcess_cmds (hs : s.Inv) (hp : req.IsParsed) (hcount : req.count ≠ 0) :
    wlp (commandProcess req) e s fun _ s' => ∀ q ∈ s'.client.txn.cmds, q ∈ s.client.txn.cmds ∨ q = req := by
  by_cases hreq : req.IsRequest
  · exact wlp_of_wp (wp_mono (commandProcess_wp hs hreq) fun r s' h => h.cmds)
  · refine wlp_mono (commandProcess_refused hp hcount hreq) fun r s' ⟨_, msg, _, hs'⟩ q hq => ?_
    subst hs'
    change q ∈ (if s.client.txn.active then { s.client.txn with error := true } else s.client.txn).cmds at hq
    split at hq <;> exact Or.inl hq

end Process

/-! ## Moves -/

/-- The requests that a client has waiting are within the limits. -/
structure Client.RequestsFit (c : Client) : Prop where
  queued : ∀ req ∈ c.txn.cmds, req.Fits
  parked : ∀ req ∈ c.blockedReq, req.Fits

def EventLoop.RequestsFit (l : EventLoop D) : Prop := ∀ i c, l.clients i = some c → c.RequestsFit

/-- A handler called in the move finds this store. -/
def FoundBy (e : Env D) (l : EventLoop D) (mv : Move) (store : Store D) : Prop :=
  ∃ i c buf, mv.client = some i ∧ l.clients i = some c ∧ c.inBuf <:+ buf ∧
    Finds e (l.sess { c with inBuf := buf }) mv.runs store

/-- A move in which every handler that is called finds a store within the limits. -/
def FittingMoves (e : Env D) (l : EventLoop D) (mv : Move) (l' : EventLoop D) : Prop :=
  Moves e l mv l' ∧ ∀ store, FoundBy e l mv store → store.Fits

/-- Every handler that is called in the moves finds a store within the limits, where `store` is the one they
start with. -/
def CallsFit (e : Env D) (store : Store D) (evs : List Move) : Prop :=
  ∀ xs ys store', calls evs = xs ++ ys → ys ≠ [] → Run (Serves e) store xs store' → store'.Fits

theorem CallsFit.fitting {e : Env D} {l l' : EventLoop D} {evs : List Move} (h : CallsFit e l.store evs)
    (hrun : Run (Moves e) l evs l') : Run (FittingMoves e) l evs l' := by
  refine hrun.restrict fun evs₁ mv evs₂ l₁ l₂ hevs hbefore _ store hfound => ?_
  obtain ⟨i, c, buf, -, -, -, ys, zs, s', hruns, hzs, hcalls, rfl⟩ := hfound
  -- the calls of the moves before, and those of the same move before this one
  have hserves : Run (Serves e) l.store (calls evs₁ ++ ys) s'.store := (runMoves_serves hbefore).trans
    (runs_serve hcalls)
  refine h _ (zs ++ calls evs₂) _ ?_ (List.append_ne_nil_of_left_ne_nil hzs _) hserves
  rw [hevs, calls, List.flatMap_append, List.flatMap_cons, hruns]
  simp [calls]

theorem serverRun_fitting {e : Env D} {l l' : EventLoop D} {polls : List Poll} (hl : l.Inv)
    (h : serverRun polls e l = .ok ((), l')) : ∃ evs, Run (Moves e) l evs l' ∧
      (∀ i, traffic i evs = serverTraffic e polls l i) ∧
        (CallsFit e l.store evs → Run (FittingMoves e) l evs l') := by
  obtain ⟨evs, hrun, htraffic⟩ := serverRun_moves hl h
  exact ⟨evs, hrun, htraffic, fun hfit => hfit.fitting hrun⟩

/-- The bytes are one reply, and `resp_parse_reply` accepts it. -/
def Readable (b : Bytes) : Prop := ∃ v, respParseReply b = .ok (v, b.length)

/-- The output `before`, of which `out` is sent, grows by replies that can be read, among them those that
complete `done`. -/
def AddsReplies (done : List (RespValue × Bytes)) (out before after : Bytes) : Prop :=
  ∃ bs : List Bytes, (∀ b ∈ bs, Readable b) ∧ (done.map Prod.snd).Sublist bs ∧
    out ++ after = before ++ bs.flatten

section AddsReplies
variable {done : List (RespValue × Bytes)} {out out' : Bytes}

theorem addsReplies_send (out : Bytes) (n : ℕ) : AddsReplies [] (out.take n) out (out.drop n) := by
  refine ⟨[], fun b hb => absurd hb List.not_mem_nil, List.Sublist.refl _, ?_⟩
  rw [List.take_append_drop]
  exact (List.append_nil _).symm

theorem addsReplies_error {msg : Bytes} (out : Bytes) (hmsg : msg.length ≤ respMaxInlineLen) :
    AddsReplies [] [] out (out ++ replyError msg) := by
  have hread := ((Reply.within_error hmsg).mono (Nat.zero_le respMaxDepth)).accepted
  refine ⟨[(Reply.error (errorLine msg)).enc], List.forall_mem_singleton.mpr ⟨_, hread⟩,
    List.nil_sublist _, ?_⟩
  rw [replyError_eq, List.flatten_singleton]
  rfl

/-- What is written when a request ends is the reply that completes it. -/
theorem Adds.replies {r : CommandResult} (h : Adds r out out') (i : ℕ) (req : RespValue) :
    AddsReplies (if i = i ∧ r ≠ .blocked then [(req, out'.drop out.length)] else []) [] out out' := by
  unfold Adds at h
  by_cases hr : r = .blocked
  · rw [if_pos hr] at h
    rw [if_neg fun hx => hx.2 hr, h]
    exact addsReplies_send out 0
  · rw [if_neg hr] at h
    obtain ⟨v, hv, rfl⟩ := h
    rw [if_pos ⟨rfl, hr⟩, List.drop_left]
    exact ⟨[v.enc], List.forall_mem_singleton.mpr ⟨_, hv.accepted⟩, List.Sublist.refl _, by simp⟩

end AddsReplies

section Moves
variable {e : Env D} {l l' : EventLoop D} {mv : Move} {i : ℕ} {c : Client}

omit [LinearOrder D] in
theorem EventLoop.RequestsFit.put (h : l.RequestsFit) {o : Option Client}
    (ho : ∀ c ∈ o, c.RequestsFit) (i : ℕ) (s : Sess D) : (l.put i s o).RequestsFit := by
  intro j c hc
  by_cases hj : j = i
  · rw [hj, EventLoop.put_self] at hc
    exact ho c hc
  · rw [EventLoop.put_other l hj] at hc
    exact h j c hc

omit [LinearOrder D] in
theorem EventLoop.RequestsFit.buffers (h : l.RequestsFit) (hi : l.clients i = some c) {d : Client}
    (ht : d.txn = c.txn) (hb : d.blockedReq = c.blockedReq) : (l.put i (l.sess c) (some d)).RequestsFit := by
  refine h.put (fun d' hd => ?_) i _
  cases hd
  exact ⟨ht ▸ (h i c hi).queued, hb ▸ (h i c hi).parked⟩

theorem Moves.requestsFit (hl : l.Inv) (h : l.RequestsFit) (hmv : Moves e l mv l') : l'.RequestsFit := by
  cases hmv with
  | join =>
    refine h.put (fun c hc => ?_) l.accepted (l.sess {})
    cases hc
    exact ⟨fun req hreq => absurd hreq List.not_mem_nil, fun req hreq => by cases hreq⟩
  | receive hi => exact h.buffers hi rfl rfl
  | blank hi => exact h.buffers hi rfl rfl
  | @request i c req used buf r s runs hi hfree hopen hparse hcount hbuf hrun hruns =>
    have hparsed := respParseCommand_parsed hparse
    have hreq := respParseCommand_fits hparse
    obtain ⟨-, hframe, -⟩ := commandProcess_wlp (hl.sess hi buf) hparsed hcount r s hrun
    have hcmds := commandProcess_cmds (hl.sess hi buf) hparsed hcount r s hrun
    refine h.put (fun d hd => ?_) i s
    cases hd
    refine ⟨fun q hq => ?_, fun q hq => ?_⟩
    · rw [show ({ s.client.processed req r with inBuf := c.inBuf.drop used } : Client).txn = s.client.txn from
        Client.processed_txn ..] at hq
      rcases hcmds q hq with hq | rfl
      · exact (h i c hi).queued q hq
      · exact hreq
    · change q ∈ (s.client.processed req r).blockedReq at hq
      unfold Client.processed at hq
      split at hq
      · cases hq
        exact hreq
      · rw [hframe.blockedReq] at hq
        exact (h i c hi).parked q hq
  | @retry i c x timedOut s hi hparked hopen hrun hx =>
    obtain ⟨st, -, hans⟩ := hl.server.retried hi hparked hrun
    obtain ⟨ht, hframe⟩ := hans.kept
    refine h.put (fun d hd => ?_) i s
    cases hd
    unfold Client.retried
    split
    · exact ⟨ht ▸ (h i c hi).queued, fun q hq => by cases hq⟩
    · exact ⟨ht ▸ (h i c hi).queued, hframe.blockedReq ▸ (h i c hi).parked⟩
  | refuse hi => exact h.buffers hi rfl rfl
  | overflow hi => exact h.buffers hi rfl rfl
  | finish hi => exact h.buffers hi rfl rfl
  | close hi => exact h.buffers hi rfl rfl
  | send hi => exact h.buffers hi rfl rfl
  | leave hi => exact h.put (fun c hc => by cases hc) _ _
  | clock n => exact h

omit [LinearOrder D] in
theorem addsReplies_put {s : Sess D} {d : Client} {done : List (RespValue × Bytes)} {out : Bytes}
    (hdone : mv.completes i = done) (hout : mv.departs i = out) (h : AddsReplies done out c.out d.out) :
    (∀ d', (l.put i s (some d)).clients i = some d' → AddsReplies (mv.completes i)
      (mv.departs i) c.out d'.out) ∧
      ((l.put i s (some d)).clients i = none → mv.completes i = [] ∧ mv.departs i = []) := by
  rw [EventLoop.put_self, hdone, hout]
  refine ⟨fun d' hd => ?_, fun hd => by cases hd⟩
  cases hd
  exact h

/-- What a move adds to the output of a client: the replies that it completes requests with, and the errors
that end a connection. -/
theorem FittingMoves.adds (hcfg : e.cfg.Fits) (hl : l.Inv) (hfit : l.RequestsFit)
    (hmv : FittingMoves e l mv l') (hi : l.clients i = some c) :
    (∀ d, l'.clients i = some d → AddsReplies (mv.completes i) (mv.departs i) c.out d.out) ∧
      (l'.clients i = none → mv.completes i = [] ∧ mv.departs i = []) := by
  obtain ⟨hmv, hstores⟩ := hmv
  by_cases hclient : mv.client = some i
  swap
  · obtain ⟨-, h2, h3⟩ := Move.others hclient
    rw [h2, h3, hmv.others hclient, hi]
    refine ⟨fun d hd => ?_, fun hd => by cases hd⟩
    cases hd
    exact addsReplies_send c.out 0
  cases hmv with
  | join =>
    obtain rfl : l.accepted = i := Option.some.inj hclient
    rw [hl.fresh _ (Nat.le_refl _)] at hi
    cases hi
  | @request j c' req used buf r s runs hj hfree hopen hparse hcount hbuf hrun hruns =>
    obtain rfl : j = i := Option.some.inj hclient
    cases hi.symm.trans hj
    have hadds := hruns.adds hcfg (hl.sess hi buf) (respParseCommand_parsed hparse) hcount
      (respParseCommand_fits hparse) (hfit j c hi).queued
      (fun store hfinds => hstores store ⟨j, c, buf, rfl, hi, hbuf, hfinds⟩) hrun
    obtain ⟨parked, hparked⟩ := s.client.processed_eq req r
    rw [hparked]
    exact addsReplies_put rfl rfl (hadds.replies j req)
  | @retry j c' x timedOut s hj hparked hopen hrun hx =>
    obtain rfl : j = i := Option.some.inj hclient
    cases hi.symm.trans hj
    have hstore : l.store.Fits := hstores l.store
      ⟨j, c, c.inBuf, rfl, hi, List.suffix_refl _, [], [x], _, rfl, List.cons_ne_nil _ _, .nil _, rfl⟩
    have hadds : Adds x.result c.out s.client.out :=
      hx.adds hcfg hl.server.store ((hfit j c hi).parked _ hparked) hstore
    obtain ⟨parked, hretried⟩ := s.client.retried_eq x.result
    rw [hretried]
    exact addsReplies_put rfl rfl (hadds.replies j x.req)
  | receive hj | blank hj | finish hj | close hj =>
    obtain rfl := Option.some.inj hclient
    cases hi.symm.trans hj
    exact addsReplies_put rfl rfl (addsReplies_send c.out 0)
  | refuse hj | overflow hj =>
    obtain rfl := Option.some.inj hclient
    cases hi.symm.trans hj
    exact addsReplies_put rfl rfl (addsReplies_error c.out (ascii_length_le _ (by decide)))
  | send hj n =>
    obtain rfl := Option.some.inj hclient
    cases hi.symm.trans hj
    exact addsReplies_put rfl (if_pos rfl) (addsReplies_send c.out n)
  | leave hj =>
    obtain rfl := Option.some.inj hclient
    refine ⟨fun d hd => ?_, fun _ => ⟨rfl, rfl⟩⟩
    rw [EventLoop.put_self] at hd
    cases hd
  | clock n => cases hclient

end Moves

/-! ## Runs -/

/-- The bytes for client `i`, sent or to be sent, are replies that it can read, among them those of the
completed requests in their order. -/
structure Delivered (i : ℕ) (evs : List Move) (l : EventLoop D) : Prop where
  fresh : l.accepted ≤ i → sent i evs = [] ∧ completed i evs = []
  replies : ∃ bs : List Bytes, (∀ b ∈ bs, Readable b) ∧ ((completed i evs).map Prod.snd).Sublist bs ∧
    sent i evs <+: bs.flatten ∧ ∀ c, l.clients i = some c → sent i evs ++ c.out = bs.flatten

section Runs
variable {e : Env D} {l l' : EventLoop D} {evs : List Move} {mv : Move} {i : ℕ}

omit [LinearOrder D] in
theorem delivered_fresh (hsent : sent i evs = []) (hdone : completed i evs = [])
    (hout : ∀ c, l.clients i = some c → c.out = []) : Delivered i evs l := by
  refine ⟨fun _ => ⟨hsent, hdone⟩, [], fun b hb => absurd hb List.not_mem_nil, ?_, ?_, fun c hc => ?_⟩
  · rw [hdone]
    exact List.Sublist.refl _
  · rw [hsent]
    exact List.prefix_refl _
  · rw [hsent, hout c hc]
    rfl

omit [LinearOrder D] in
theorem Delivered.gone (h : Delivered i evs l) (hle : l.accepted ≤ l'.accepted) (hdone : mv.completes i = [])
    (hout : mv.departs i = []) (hnone : l'.clients i = none) : Delivered i (evs ++ [mv]) l' := by
  obtain ⟨bs, hread, hsub, hpre, -⟩ := h.replies
  constructor
  all_goals rw [sent_snoc, completed_snoc, hdone, hout, List.append_nil, List.append_nil]
  · exact fun hfresh => h.fresh (hle.trans hfresh)
  · refine ⟨bs, hread, hsub, hpre, fun c hc => ?_⟩
    cases hnone.symm.trans hc

theorem Delivered.step (hcfg : e.cfg.Fits) (hl : l.Inv) (hfit : l.RequestsFit) (h : Delivered i evs l)
    (hmv : FittingMoves e l mv l') : Delivered i (evs ++ [mv]) l' := by
  have hle := hmv.1.accepted_le
  cases hc : l.clients i with
  | some c =>
    obtain ⟨hstays, hgone⟩ := hmv.adds hcfg hl hfit hc
    cases hd : l'.clients i with
    | some d =>
      obtain ⟨bs, hread, hsub, -, hout⟩ := h.replies
      obtain ⟨bs', hread', hsub', hout'⟩ := hstays d hd
      have hwritten : sent i (evs ++ [mv]) ++ d.out = (bs ++ bs').flatten := by
        rw [sent_snoc, List.append_assoc, hout', ← List.append_assoc, hout c hc, List.flatten_append]
      refine ⟨fun hfresh => absurd (hl.lt hc) (Nat.not_lt_of_le (hle.trans hfresh)), bs ++ bs',
        List.forall_mem_append.mpr ⟨hread, hread'⟩, ?_, ⟨d.out, hwritten⟩, fun d' hd' => ?_⟩
      · rw [completed_snoc, List.map_append]
        exact hsub.append hsub'
      · cases hd.symm.trans hd'
        exact hwritten
    | none => exact h.gone hle (hgone hd).1 (hgone hd).2 hd
  | none =>
    rcases hmv.1.newcomer hc with ⟨hnext, rfl, hnew⟩ | ⟨hclient, hnone⟩
    · obtain ⟨hsent, hdone⟩ := h.fresh (Nat.le_of_eq hnext)
      refine delivered_fresh ?_ ?_ fun d hd => ?_
      · rw [sent_snoc, hsent]
        rfl
      · rw [completed_snoc, hdone]
        rfl
      · cases hnew.symm.trans hd
        rfl
    · obtain ⟨-, hout, hdone⟩ := Move.others hclient
      exact h.gone hle hdone hout hnone

theorem delivered_of_run (hcfg : e.cfg.Fits) {store : Store D} (hstore : store.Valid)
    (hrun : Run (FittingMoves e) (.start store) evs l) (i : ℕ) : Delivered i evs l := by
  have hstart : Delivered i [] (EventLoop.start store) := delivered_fresh rfl rfl fun c hc => by cases hc
  have hnone : (EventLoop.start store).RequestsFit := by
    intro j c hc
    cases hc
  have hall : l.Inv ∧ l.RequestsFit ∧ Delivered i evs l := by
    refine hrun.history (P := fun _ => True) (fun evs l => l.Inv ∧ l.RequestsFit ∧ Delivered i evs l)
      (fun evs l mv l' ih _ hmv => ?_) (fun _ _ => trivial)
      ⟨EventLoop.inv_start hstore, hnone, hstart⟩
    obtain ⟨hl, hfit, hdel⟩ := ih
    exact ⟨hmv.1.inv hl, hmv.1.requestsFit hl hfit, hdel.step hcfg hl hfit hmv⟩
  exact hall.2.2

end Runs

/-- The server starts with any dump file. Every run of its event loop is a run of moves with its traffic, and
one of `FittingMoves` if each handler finds a store within the limits. In every run of these, the reply of
each completed request is accepted by `resp_parse_reply` as one value, and all that a client is sent is a
sequence of such replies. -/
theorem replies_readable (e : Env D) (hcfg : e.cfg.Fits) (clock : ℕ → Int) (file : Option Bytes) :
    (∀ polls l, serverRun polls e (.start (startupStore clock file)) = .ok ((), l) →
      ∃ evs, Run (Moves e) (.start (startupStore clock file)) evs l ∧
        (∀ i, traffic i evs = serverTraffic e polls (.start (startupStore clock file)) i) ∧
        (CallsFit e (startupStore clock file) evs →
          Run (FittingMoves e) (.start (startupStore clock file)) evs l)) ∧
    ∀ evs l, Run (FittingMoves e) (.start (startupStore clock file)) evs l → ∀ i,
      (∀ x ∈ completed i evs, ∃ v, respParseReply x.2 = .ok (v, x.2.length)) ∧
      ∃ bs : List Bytes, (∀ b ∈ bs, ∃ v, respParseReply b = .ok (v, b.length)) ∧
        ((completed i evs).map Prod.snd).Sublist bs ∧ sent i evs <+: bs.flatten ∧
        ∀ c, l.clients i = some c → sent i evs ++ c.out = bs.flatten := by
  have hvalid : (startupStore clock file : Store D).Valid := (startupStore_reachable clock file).valid
  refine ⟨fun polls l hrun => serverRun_fitting (EventLoop.inv_start hvalid) hrun, fun evs l hrun i => ?_⟩
  obtain ⟨bs, hread, hsub, hpre, hout⟩ := (delivered_of_run hcfg hvalid hrun i).replies
  exact ⟨fun x hx => hread _ (hsub.subset (List.mem_map_of_mem hx)), bs, hread, hsub, hpre, hout⟩

section Samples
variable {e : Env D} {l l' : EventLoop D} {mv : Move} {s s' : Sess D}

omit [LinearOrder D] in
theorem storeCreate_fits : (storeCreate : Store D).Fits := by
  refine ⟨fun key c hc => ?_, Nat.zero_le _⟩
  rw [storeCreate_cells] at hc
  cases hc

theorem fittingMoves_of_none (hmv : Moves e l mv l') (hruns : mv.runs = []) : FittingMoves e l mv l' := by
  refine ⟨hmv, fun store hfound => ?_⟩
  obtain ⟨i, c, buf, -, -, -, ys, zs, s', hxs, hzs, -⟩ := hfound
  rw [hruns] at hxs
  exact absurd (List.append_eq_nil_iff.mp hxs.symm).2 hzs

/-- A move with one call. The handler finds the store there is before the move. -/
theorem fittingMoves_of_one (hmv : Moves e l mv l') {x : Execution} (hruns : mv.runs = [x])
    (hstore : l.store.Fits) :
    FittingMoves e l mv l' := by
  refine ⟨hmv, fun store hfound => ?_⟩
  obtain ⟨i, c, buf, -, -, -, ys, zs, s', hxs, hzs, hrun, rfl⟩ := hfound
  rw [hruns] at hxs
  obtain ⟨rfl, -⟩ | ⟨-, rfl⟩ := List.append_eq_singleton_iff.mp hxs.symm
  · rw [hrun.eq_of_nil]
    exact hstore
  · exact absurd rfl hzs

end Samples

/-- A client of a server without a dump file is sent back its text. -/
theorem replies_readable_echo :
    let e := Env.integers (fun n => n) fun n => n
    let req := RespValue.request [ascii "echo", ascii "hello"]
    ∃ evs l, Run (FittingMoves e) (.start (startupStore (fun _ => 0) none)) evs l ∧
      completed 0 evs = [(req, ascii "$5\r\nhello\r\n")] ∧
      ∃ v, respParseReply (ascii "$5\r\nhello\r\n") = .ok (v, 11) := by
  intro e req
  let bytes := ascii "echo hello\r\n"
  have hparse : respParseCommand bytes = .ok (req, 12) := rfl
  have hacc : Accepted (D := Int) req ⟨ascii "echo", 2, some cmdEcho, .normal⟩ :=
    accepted_request (List.mem_of_getElem? (rfl : commandTable[1]? = _)) rfl (by decide)
  obtain ⟨x, s, hx, hruns, l₁, l₂, l, hjoin, hreceive, hrequest, hstore, -⟩ :=
    exists_first e storeCreate_valid hparse ⟨_, hacc, rfl⟩
  have hout : x.result = .done ∧ s.client.out = ascii "$5\r\nhello\r\n" := by
    have hrun : (runFound req true false e
        { store := storeCreate, client := { inBuf := bytes } }).toOption.map
        (fun p => (p.1, p.2.client.out)) = some (.done, ascii "$5\r\nhello\r\n") := by decide +kernel
    obtain ⟨⟨st, s₁⟩, hok, hend⟩ := ok_of_toOption hrun
    obtain ⟨rfl, hbytes⟩ := Prod.mk.inj hend
    obtain ⟨hresult, rfl⟩ := hruns.ended hx hok
    exact ⟨hresult, hbytes⟩
  rw [hout.1, hout.2] at hrequest
  let evs : List Move := [.join 0, .receive 0 bytes, .request 0 req .done (ascii "$5\r\nhello\r\n") [x]]
  have hrun : Run (FittingMoves e) (.start (startupStore (fun _ => 0) none)) evs l :=
    .cons (fittingMoves_of_none hjoin rfl) (.cons (fittingMoves_of_none hreceive rfl)
      (.one (fittingMoves_of_one hrequest rfl (hstore ▸ storeCreate_fits))))
  have hread := ((replies_readable e configCreateDefault_fits (fun _ => 0) none).2 evs l hrun 0).1
  exact ⟨evs, l, hrun, rfl, hread _ (List.mem_singleton_self _)⟩

/-! ## A value that is too long -/

theorem respParseReply_long {b : Bytes} (h : respMaxBulkLen < b.length) (hmax : (b.length : Int) ≤ int64Max) :
    respParseReply (Reply.bulk b).enc = .error := by
  have henc : (Reply.bulk b).enc = 36 :: (dec b.length ++ [cr, lf] ++ (b ++ [cr, lf])) := by
    rw [Reply.enc, List.append_assoc]
    rfl
  have hline : readNumberLine (Reply.bulk b).enc 1 = .ok ((b.length : Int),
      1 + (dec b.length ++ [cr, lf]).length) :=
    readNumberLine_ok_iff.mpr ⟨_, b ++ [cr, lf], numberLine_dec hmax, by rw [henc]; rfl, rfl⟩
  have hfirst : (Reply.bulk b).enc[0]? = some 36 := by
    rw [henc]
    rfl
  rw [respParseReply, parseValue, hfirst]
  show parseBulk _ 1 = .error
  rw [parseBulk, hline, Parse.ok_bind]
  simp only
  rw [if_neg (by omega), if_pos (Or.inr (by omega))]

theorem cmdGet_wp {ctx : CommandCtx} {e : Env D} {s : Sess D} (hc : ctx.req.Clean) (hn : 2 ≤ ctx.argc)
    (hv : s.store.Valid) {value : Bytes} {expiresAt : Int}
    (hcell : live (e.clock s.tick) (s.store.cells (ctx.argv 1)) = some ⟨.str value, expiresAt⟩) :
    wp (cmdGet ctx) e s fun st s' => st = .done ∧ s'.client.out = s.client.out ++ (Reply.bulk value).enc := by
  unfold cmdGet
  rw [wp_bind, wp_arg hc (by omega), wp_bind]
  refine wp_call hv fun r s' hcall => ?_
  have hr : r = .ok value := by
    rw [hcall.result, hcell]
    rfl
  subst hr
  refine wp_answer.mpr ⟨rfl, ?_⟩
  rw [hcall.client, replyBulkCstr_eq]

theorem exists_refused {store : Store Int} (hvalid : store.Valid) {value : Bytes}
    (hcell : store.cells (ascii "k") = some ⟨.str value, 0⟩) (hlong : respMaxBulkLen < value.length)
    (hmax : (value.length : Int) ≤ int64Max) :
    ∃ evs l b, Run (Moves (Env.integers (fun n => n) fun n => n)) (.start store) evs l ∧
      (RespValue.request [ascii "get", ascii "k"], b) ∈ completed 0 evs ∧ respParseReply b = .error := by
  let req := RespValue.request [ascii "get", ascii "k"]
  let bytes := ascii "get k\r\n"
  have hparse : respParseCommand bytes = .ok (req, 7) := rfl
  let spec : CommandSpec Int := ⟨ascii "get", 2, some cmdGet, .normal⟩
  have hacc : Accepted req spec :=
    accepted_request (List.mem_of_getElem? (rfl : commandTable[5]? = _)) rfl (by decide)
  obtain ⟨x, s, hx, hruns, l₁, l₂, l, hjoin, hreceive, hrequest, -⟩ :=
    exists_first (Env.integers (fun n => n) fun n => n) hvalid hparse ⟨_, hacc, rfl⟩
  have hlive : live 0 (store.cells (ascii "k")) = some ⟨.str value, 0⟩ := by
    rw [hcell]
    rfl
  have hargc : 2 ≤ (⟨req, true, false⟩ : CommandCtx).argc := Nat.le_refl 2
  have hget : wp (run spec req true false) (Env.integers (fun n => n) fun n => n)
      { store := store, client := { inBuf := bytes } } fun st s' =>
        st = .done ∧ s'.client.out = (Reply.bulk value).enc := cmdGet_wp hacc.clean hargc hvalid hlive
  have hout : x.result = .done ∧ s.client.out = (Reply.bulk value).enc := by
    obtain ⟨st, s₁, hrun, rfl, hbytes⟩ := wp_iff.mp hget
    rw [← runFound_of_accepted hacc] at hrun
    obtain ⟨hresult, rfl⟩ := hruns.ended hx hrun
    exact ⟨hresult, hbytes⟩
  rw [hout.1, hout.2] at hrequest
  exact ⟨_, l, _, .cons hjoin (.cons hreceive (.one hrequest)), List.mem_singleton_self _,
    respParseReply_long hlong hmax⟩

/-- A string one byte longer than a client reads. -/
def longValue : Bytes := List.replicate (respMaxBulkLen + 1) 97

/-- A dump file with that string under the key `k`. -/
def longFile : Bytes := ascii "REDIS0011" ++
    (rdbTypeString :: ([1, 107] ++ ([0x80, 4, 0, 0, 1] ++ longValue)))

theorem longValue_length : longValue.length = respMaxBulkLen + 1 := List.length_replicate

theorem longFile_bytes : FileBytes [.string (ascii "k") longValue] longFile := by
  have hlen : littleEndian [1, 0, 0, 4] = respMaxBulkLen + 1 := by decide +kernel
  have hbytes : LengthBytes longValue.length [0x80, 4, 0, 0, 1] := by
    rw [longValue_length, ← hlen]
    exact .thirtyTwo (b := [4, 0, 0, 1]) rfl
  have hvalue : StringBytes longValue ([0x80, 4, 0, 0, 1] ++ longValue) :=
    .raw hbytes (by rw [longValue_length]; decide)
  have hrecord := RecordBytes.string (@StringBytes.short (ascii "k") 1 rfl (by decide)) hvalue
  refine ⟨ascii "0011", _, rfl, .cons hrecord .nil, ?_⟩
  rw [List.append_nil]
  rfl

/-- The server starts with a dump file that holds the string, and a client asks for it. -/
theorem replies_not_readable :
    let e := Env.integers (fun n => n) fun n => n
    ∃ evs l b, Run (Moves e) (.start (startupStore (fun _ => 0) (some (longFile ++ [rdbOpEof])))) evs l ∧
      (RespValue.request [ascii "get", ascii "k"], b) ∈ completed 0 evs ∧ respParseReply b = .error := by
  have hclean : cstr longValue = longValue := cstr_of_clean fun hz => absurd (List.eq_of_mem_replicate hz)
    (by decide)
  have hcell : (startupStore (fun _ => 0) (some (longFile ++ [rdbOpEof])) : Store Int).cells (ascii "k") =
      some ⟨.str longValue, 0⟩ := by
    rw [startupStore, rdbLoad_of_file longFile_bytes]
    refine ((loaded_spec _ _).cells _ _).mpr ⟨[], ascii "k", longValue, [], rfl, rfl, fun _ _ h => ?_, ?_⟩
    · exact absurd h List.not_mem_nil
    · rw [hclean]
      rfl
  refine exists_refused (startupStore_reachable _ _).valid hcell ?_ ?_
  · rw [longValue_length]
    exact Nat.lt_succ_self _
  · rw [longValue_length]
    decide

end PulseDB
