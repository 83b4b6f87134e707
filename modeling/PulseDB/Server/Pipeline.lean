import PulseDB.Server.Moves

/-!
# Requests and replies of one connection

The history of a connection is read off the moves: the bytes that arrived, the bytes that were sent, and the
requests that were completed with their replies.

* `received`, `sent`, `completed` : the history; `requests` : the non-blank requests of a byte stream;
* `InOrder` : how the history and the state of the client fit together; `InOrder.step` : every move keeps it.
-/

namespace PulseDB
open Lib Lib.Prog

variable {D : Type} [LinearOrder D]

/-! ## The history of a connection -/

/-- The request of client `i` that a move completes, and its reply. -/
def Move.completes (i : ℕ) : Move → List (RespValue × Bytes)
  | .request j req r reply _ => if j = i ∧ r ≠ .blocked then [(req, reply)] else []
  | .retry j req r reply _ => if j = i ∧ r ≠ .blocked then [(req, reply)] else []
  | _ => []

def completed (i : ℕ) (evs : List Move) : List (RespValue × Bytes) := evs.flatMap (Move.completes i)

/-- The requests of a byte stream; a blank line is none. -/
def requests (stream : Bytes) : List RespValue :=
  (drain respParseCommand stream).items.filter fun req => req.count ≠ 0

section History
variable (i : ℕ) (evs : List Move) (mv : Move)

@[simp] theorem received_snoc : received i (evs ++ [mv]) = received i evs ++ mv.arrives i := by
  simp [received]

@[simp] theorem sent_snoc : sent i (evs ++ [mv]) = sent i evs ++ mv.departs i := by
  simp [sent]

@[simp] theorem completed_snoc : completed i (evs ++ [mv]) = completed i evs ++ mv.completes i := by
  simp [completed]

end History

theorem Move.others {i : ℕ} {mv : Move} (h : mv.client ≠ some i) :
    mv.arrives i = [] ∧ mv.departs i = [] ∧ mv.completes i = [] := by
  cases mv <;> simp_all [Move.client, Move.arrives, Move.departs, Move.completes]

/-! ## History and state -/

/-- A client with the history of bytes `inp` and `out` and of completed requests `done`: what has been parsed
are the completed requests and the one that is parked, and what has been written are the replies. -/
def Progress (inp out : Bytes) (done : List (RespValue × Bytes)) (c : Client) : Prop :=
  ∃ items, Reaches respParseCommand inp items c.inBuf ∧
    items.filter (fun req => req.count ≠ 0) = done.map Prod.fst ++ c.blockedReq.toList ∧
    out ++ c.out = (done.map Prod.snd).flatten

section Progress
variable {inp out : Bytes} {done : List (RespValue × Bytes)} {c d : Client} {req : RespValue} {used : ℕ}

theorem Progress.congr (h : Progress inp out done c) (hin : d.inBuf = c.inBuf) (hout : d.out = c.out)
    (hblocked : d.blockedReq = c.blockedReq) : Progress inp out done d := by
  unfold Progress
  rw [hin, hout, hblocked]
  exact h

theorem Progress.receive (h : Progress inp out done c) (bytes : Bytes) :
    Progress (inp ++ bytes) out done { c with inBuf := c.inBuf ++ bytes } := by
  obtain ⟨items, hr, hitems, hout⟩ := h
  exact ⟨items, hr.append respParseCommand_restartable.resumable bytes, hitems, hout⟩

theorem Progress.blank (h : Progress inp out done c) (hparse : respParseCommand c.inBuf = .ok (req, used))
    (hcount : req.count = 0) : Progress inp out done { c with inBuf := c.inBuf.drop used } := by
  obtain ⟨items, hr, hitems, hout⟩ := h
  refine ⟨items ++ [req], hr.trans (.item hparse (.done _)), ?_, hout⟩
  rw [List.filter_append, hitems, List.filter_singleton]
  simp [hcount]

theorem Progress.park (h : Progress inp out done c) (hfree : c.blockedReq = none)
    (hparse : respParseCommand c.inBuf = .ok (req, used)) (hcount : req.count ≠ 0)
      (hin : d.inBuf = c.inBuf.drop used)
    (hout : d.out = c.out) (hblocked : d.blockedReq = some req) : Progress inp out done d := by
  obtain ⟨items, hr, hitems, hwritten⟩ := h
  refine ⟨items ++ [req], hin ▸ hr.trans (.item hparse (.done _)), ?_, hout ▸ hwritten⟩
  rw [List.filter_append, hitems, List.filter_singleton, hfree, hblocked]
  simp [hcount]

theorem Progress.complete (h : Progress inp out done c) (hparked : c.blockedReq = some req)
    (hin : d.inBuf = c.inBuf) {b : Bytes} (hout : d.out = c.out ++ b) (hblocked : d.blockedReq = none) :
    Progress inp out (done ++ [(req, b)]) d := by
  obtain ⟨items, hr, hitems, hwritten⟩ := h
  refine ⟨items, hin ▸ hr, ?_, ?_⟩
  · rw [hitems, hparked, hblocked]
    simp
  · rw [hout, ← List.append_assoc, hwritten]
    simp

theorem Progress.send (h : Progress inp out done c) (n : ℕ) :
    Progress inp (out ++ c.out.take n) done { c with out := c.out.drop n } := by
  obtain ⟨items, hr, hitems, hwritten⟩ := h
  exact ⟨items, hr, hitems, by rw [List.append_assoc, List.take_append_drop, hwritten]⟩

/-- The completed requests, and then the parked one, come first among those of the stream. -/
theorem Progress.isPrefix (h : Progress inp out done c) :
    done.map Prod.fst ++ c.blockedReq.toList <+: requests inp := by
  obtain ⟨items, hr, hitems, -⟩ := h
  rw [← hitems]
  exact (hr.isPrefix respParseCommand_restartable.resumable).filter _

theorem Progress.parked (h : Progress inp out done c) (hparked : c.blockedReq = some req) :
    (requests inp)[done.length]? = some req := by
  obtain ⟨rest, hrest⟩ := h.isPrefix
  rw [← hrest, hparked, List.append_assoc, List.getElem?_append_right (by rw [List.length_map]),
    List.length_map, Nat.sub_self]
  rfl

theorem Progress.front (h : Progress inp out done c) (hfree : c.blockedReq = none)
    (hparse : respParseCommand c.inBuf = .ok (req, used)) (hcount : req.count ≠ 0) :
    (requests inp)[done.length]? = some req :=
  (h.park (d := { c with inBuf := c.inBuf.drop used, blockedReq := some req }) hfree hparse hcount rfl rfl
    rfl).parked rfl

end Progress

/-- How the history of client `i` and its state fit together. -/
structure InOrder (i : ℕ) (evs : List Move) (l : EventLoop D) : Prop where
  fresh : l.accepted ≤ i → received i evs = [] ∧ sent i evs = [] ∧ completed i evs = []
  progress : ∀ c, l.clients i = some c → Progress (received i evs) (sent i evs) (completed i evs) c
  done : (completed i evs).map Prod.fst <+: requests (received i evs)
  output : sent i evs <+: ((completed i evs).map Prod.snd).flatten
  replies : ∀ x ∈ completed i evs, ∃ v : Reply, v.WF ∧ x.2 = v.enc

section InOrder
variable {e : Env D} {i : ℕ} {evs : List Move} {l l' : EventLoop D} {mv : Move}

omit [LinearOrder D] in
theorem inOrder_start (i : ℕ) (store : Store D) : InOrder i [] (EventLoop.start store) :=
  ⟨fun _ => ⟨rfl, rfl, rfl⟩, fun c hc => (by cases hc), List.nil_prefix, List.nil_prefix,
    fun x hx => (by cases hx)⟩

theorem Moves.accepted_le (hmv : Moves e l mv l') : l.accepted ≤ l'.accepted := by
  cases hmv with
  | join => exact Nat.le_succ _
  | _ => exact Nat.le_refl _

theorem Moves.others (hmv : Moves e l mv l') (h : mv.client ≠ some i) : l'.clients i = l.clients i := by
  have hput : ∀ {j : ℕ} (s : Sess D) (o : Option Client), j ≠ i → (l.put j s o).clients i = l.clients i :=
    fun s o hj => EventLoop.put_other l (Ne.symm hj) s o
  cases hmv with
  | join => exact hput _ _ fun hj => h (congrArg some hj)
  | clock => rfl
  | _ => exact hput _ _ fun hj => h (congrArg some hj)

theorem Moves.newcomer (hmv : Moves e l mv l') (hi : l.clients i = none) :
    (l.accepted = i ∧ mv = .join i ∧ l'.clients i = some {}) ∨
      (mv.client ≠ some i ∧ l'.clients i = none) := by
  by_cases hclient : mv.client = some i
  · left
    cases hmv with
    | join =>
      obtain rfl : l.accepted = i := Option.some.inj hclient
      exact ⟨rfl, rfl, EventLoop.put_self ..⟩
    | clock n => cases hclient
    | receive hj | blank hj | request hj | retry hj | refuse hj | overflow hj | finish hj | close hj | send hj
    | leave hj =>
      obtain rfl := Option.some.inj hclient
      cases hi.symm.trans hj
  · exact Or.inr ⟨hclient, (hmv.others hclient).trans hi⟩

omit [LinearOrder D] in
theorem InOrder.others (h : InOrder i evs l) (hmv : mv.client ≠ some i) (hi : l'.clients i = l.clients i)
    (hle : l'.accepted ≤ i → l.accepted ≤ i) : InOrder i (evs ++ [mv]) l' := by
  obtain ⟨h1, h2, h3⟩ := Move.others hmv
  constructor
  all_goals simp only [received_snoc, sent_snoc, completed_snoc, h1, h2, h3, List.append_nil]
  · exact fun hfresh => h.fresh (hle hfresh)
  · exact fun c hc => h.progress c (hi ▸ hc)
  · exact h.done
  · exact h.output
  · exact h.replies

omit [LinearOrder D] in
theorem InOrder.of_progress (h : InOrder i evs l) {c : Client} (hc : l'.clients i = some c)
    (hlt : i < l'.accepted)
    {inp out : Bytes} {done : List (RespValue × Bytes)} (hin : mv.arrives i = inp) (hout : mv.departs i = out)
    (hdone : mv.completes i = done) (hp : Progress (received i evs ++ inp) (sent i evs ++ out)
      (completed i evs ++ done) c)
    (hv : ∀ x ∈ done, ∃ v : Reply, v.WF ∧ x.2 = v.enc) : InOrder i (evs ++ [mv]) l' := by
  subst hin hout hdone
  constructor
  all_goals simp only [received_snoc, sent_snoc, completed_snoc]
  · exact fun hle => absurd hlt (Nat.not_lt_of_le hle)
  · intro d hd
    cases hc.symm.trans hd
    exact hp
  · exact (List.prefix_append _ _).trans hp.isPrefix
  · obtain ⟨items, -, -, hout⟩ := hp
    exact ⟨c.out, hout⟩
  · intro x hx
    rcases List.mem_append.mp hx with hx | hx
    · exact h.replies x hx
    · exact hv x hx

omit [LinearOrder D] in
theorem InOrder.going (h : InOrder i evs l) {c : Client} (hc : l'.clients i = some c) (hlt : i < l'.accepted)
    {inp out : Bytes} (hin : mv.arrives i = inp) (hout : mv.departs i = out) (hdone : mv.completes i = [])
    (hp : Progress (received i evs ++ inp) (sent i evs ++ out) (completed i evs) c) :
      InOrder i (evs ++ [mv]) l' :=
  h.of_progress hc hlt hin hout hdone (by rwa [List.append_nil]) fun x hx => by cases hx

omit [LinearOrder D] in
theorem InOrder.silent (h : InOrder i evs l) {c : Client} (hc : l'.clients i = some c) (hlt : i < l'.accepted)
    (hin : mv.arrives i = []) (hout : mv.departs i = []) {done : List (RespValue × Bytes)}
    (hdone : mv.completes i = done) (hp : Progress (received i evs) (sent i evs) (completed i evs ++ done) c)
    (hv : ∀ x ∈ done, ∃ v : Reply, v.WF ∧ x.2 = v.enc) : InOrder i (evs ++ [mv]) l' :=
  h.of_progress hc hlt hin hout hdone (by rwa [List.append_nil, List.append_nil]) hv

/-- The request at the front of the buffer has no null element, if the stream has none. -/
theorem Progress.isRequest {inp out : Bytes} {done : List (RespValue × Bytes)} {c : Client}
    {req : RespValue} {used : ℕ}
    (h : Progress inp out done c) (hnull : NoNullBulk inp) (hparse : respParseCommand c.inBuf =
      .ok (req, used))
    (hcount : req.count ≠ 0) : req.IsRequest := by
  obtain ⟨items, hr, -, -⟩ := h
  have hrest : NoNullBulk c.inBuf := fun items' r hr' => hnull _ r (hr.trans hr')
  exact hrest.isRequest hparse hcount

theorem Progress.processed {inp out buf : Bytes} {done : List (RespValue × Bytes)} {c : Client}
    {req : RespValue}
    {used : ℕ} {r : CommandResult} {s : Sess D} (h : Progress inp out done c) (hfree : c.blockedReq = none)
    (hparse : respParseCommand c.inBuf = .ok (req, used)) (hcount : req.count ≠ 0)
    (hp : Processed e req (l.sess { c with inBuf := buf }) r s) :
    ∃ new : List (RespValue × Bytes), (Move.request i req r (s.client.out.drop c.out.length) []).completes i =
      new ∧
      Progress inp out (done ++ new) { s.client.processed req r with inBuf := c.inBuf.drop used } ∧
      ∀ x ∈ new, ∃ v : Reply, v.WF ∧ x.2 = v.enc := by
  have hframe := hp.framed
  by_cases hr : r = .blocked
  · subst hr
    refine ⟨[], if_neg fun hne => hne.2 rfl, ?_, fun x hx => by cases hx⟩
    rw [List.append_nil]
    exact h.park hfree hparse hcount rfl hp.outcome.1 rfl
  · obtain ⟨v, hv, hout⟩ := hp.outcome.value hr
    have hdrop : s.client.out.drop c.out.length = v.enc := by
      rw [hout]
      exact List.drop_left
    have hparked := h.park (d := { c with inBuf := c.inBuf.drop used, blockedReq := some req }) hfree
      hparse hcount rfl
      rfl rfl
    refine ⟨[(req, v.enc)], ?_, ?_, fun x hx => ?_⟩
    · rw [hdrop]
      exact if_pos ⟨rfl, hr⟩
    · refine hparked.complete rfl ?_ ?_ ?_
      · rfl
      · unfold Client.processed
        rw [if_neg hr]
        exact hout
      · unfold Client.processed
        rw [if_neg hr]
        exact hframe.blockedReq.trans hfree
    · rw [List.mem_singleton.mp hx]
      exact ⟨v, hv, rfl⟩

theorem Progress.retried {inp out : Bytes} {done : List (RespValue × Bytes)} {c : Client} {req : RespValue}
    {timedOut : Bool} {st : CmdStatus} {s : Sess D} (h : Progress inp out done c)
      (hparked : c.blockedReq = some req)
    (hans : Answers e ⟨req, true, timedOut⟩ (l.sess c) st s) :
    ∃ new : List (RespValue × Bytes),
      (Move.retry i req st.result (s.client.out.drop c.out.length) []).completes i = new ∧
      Progress inp out (done ++ new) (s.client.retried st.result) ∧ ∀ x ∈ new, ∃ v : Reply, v.WF ∧
      x.2 = v.enc := by
  have hframe := hans.kept.2
  cases st with
  | block =>
    refine ⟨[], if_neg fun hne => hne.2 rfl, ?_, fun x hx => by cases hx⟩
    rw [List.append_nil]
    exact h.congr hframe.inBuf hans.outcome.1 hframe.blockedReq
  | done =>
    obtain ⟨v, hv, hout⟩ := hans.outcome.value (r := .done) (by decide)
    have hdrop : s.client.out.drop c.out.length = v.enc := by
      rw [hout]
      exact List.drop_left
    refine ⟨[(req, v.enc)], ?_, h.complete (d := { s.client with blockedReq := none }) hparked
      hframe.inBuf hout rfl,
      fun x hx => ?_⟩
    · rw [hdrop]
      exact if_pos ⟨rfl, by decide⟩
    · rw [List.mem_singleton.mp hx]
      exact ⟨v, hv, rfl⟩

/-- Every move keeps the relation between history and state, unless it is the end of the connection for an
error. -/
theorem InOrder.step (hl : l.Inv) (h : InOrder i evs l) (hnull : NoNullBulk (received i evs))
    (hok : mv ≠ .condemn i) (hmv : Moves e l mv l') : InOrder i (evs ++ [mv]) l' := by
  by_cases hclient : mv.client = some i
  swap
  · exact h.others hclient (hmv.others hclient) (Nat.le_trans hmv.accepted_le)
  have hquiet : ∀ {c : Client}, Progress (received i evs) (sent i evs) (completed i evs) c →
      Progress (received i evs ++ []) (sent i evs ++ []) (completed i evs) c := fun h => by
    rwa [List.append_nil, List.append_nil]
  cases hmv with
  | join =>
    obtain rfl : l.accepted = i := Option.some.inj hclient
    obtain ⟨h1, h2, h3⟩ := h.fresh (Nat.le_refl _)
    refine h.going (c := {}) (EventLoop.put_self ..) (Nat.lt_succ_self _) rfl rfl rfl (hquiet ?_)
    rw [h1, h2, h3]
    exact ⟨[], .done _, rfl, rfl⟩
  | @receive j c hi bytes =>
    obtain rfl : j = i := Option.some.inj hclient
    have hp := (h.progress c hi).receive bytes
    rw [← List.append_nil (sent j evs)] at hp
    exact h.going (EventLoop.put_self ..) (hl.lt hi) (if_pos rfl) rfl rfl hp
  | @blank j c req used hi hfree hopen hparse hcount =>
    obtain rfl : j = i := Option.some.inj hclient
    exact h.going (EventLoop.put_self ..) (hl.lt hi) rfl rfl rfl
      (hquiet ((h.progress c hi).blank hparse hcount))
  | @request j c req used buf r s runs hi hfree hopen hparse hcount hbuf hrun hruns =>
    obtain rfl : j = i := Option.some.inj hclient
    have hprog := h.progress c hi
    have hp := wp_post (commandProcess_wp (hl.sess hi buf) (hprog.isRequest hnull hparse hcount)) hrun
    obtain ⟨new, hnew, hprog', hv⟩ := hprog.processed (i := j) hfree hparse hcount hp
    exact h.silent (EventLoop.put_self ..) (hl.lt hi) rfl rfl hnew hprog' hv
  | @retry j c x timedOut s hi hparked hopen hrun hx =>
    obtain rfl : j = i := Option.some.inj hclient
    obtain ⟨st, hst, hans⟩ := hl.server.retried hi hparked hrun
    obtain ⟨new, hnew, hprog', hv⟩ := (h.progress c hi).retried (i := j) hparked hans
    rw [← hst] at hnew hprog'
    exact h.silent (EventLoop.put_self ..) (hl.lt hi) rfl rfl hnew hprog' hv
  | refuse | overflow =>
    obtain rfl := Option.some.inj hclient
    exact absurd rfl hok
  | finish hi | close hi =>
    obtain rfl := Option.some.inj hclient
    exact h.going (EventLoop.put_self ..) (hl.lt hi) rfl rfl rfl
      (hquiet ((h.progress _ hi).congr rfl rfl rfl))
  | @send j c hi n =>
    obtain rfl : j = i := Option.some.inj hclient
    have hp := (h.progress c hi).send n
    rw [← List.append_nil (received j evs)] at hp
    exact h.going (EventLoop.put_self ..) (hl.lt hi) rfl (if_pos rfl) rfl hp
  | @leave j c hi =>
    obtain rfl : j = i := Option.some.inj hclient
    have hsame : received j (evs ++ [.leave j]) = received j evs ∧ sent j (evs ++ [.leave j]) = sent j evs ∧
        completed j (evs ++ [.leave j]) = completed j evs := by
      simp [Move.arrives, Move.departs, Move.completes]
    obtain ⟨h1, h2, h3⟩ := hsame
    refine ⟨fun hle => absurd (hl.lt hi) (Nat.not_lt_of_le hle), fun d hd => ?_, ?_, ?_, ?_⟩
    · rw [EventLoop.put_self] at hd
      cases hd
    · rw [h1, h3]
      exact h.done
    · rw [h2, h3]
      exact h.output
    · rw [h3]
      exact h.replies
  | clock n => cases hclient

theorem NoNullBulk.of_append {a b : Bytes} (h : NoNullBulk (a ++ b)) : NoNullBulk a := fun items r hr hnull =>
  h items (r ++ b) (hr.append respParseCommand_restartable.resumable b) (hnull.append b)

/-- History and state fit together in every run in which the connection does not end for an error. -/
theorem inOrder_of_run {store : Store D} (hstore : store.Valid) (hrun : Run (Moves e) (.start store) evs l)
    (hnull : NoNullBulk (received i evs)) (hok : ∀ mv ∈ evs, mv ≠ .condemn i) : l.Inv ∧ InOrder i evs l := by
  refine hrun.history (fun evs l => NoNullBulk (received i evs) → l.Inv ∧ InOrder i evs l)
    (fun evs l mv l' ih hmv hstep hnull => ?_) hok
    (fun _ => ⟨EventLoop.inv_start hstore, inOrder_start i store⟩) hnull
  rw [received_snoc] at hnull
  obtain ⟨hl, h⟩ := ih hnull.of_append
  exact ⟨hstep.inv hl, h.step hl hnull.of_append hmv hstep⟩

theorem InOrder.takes (h : InOrder i evs l) {req : RespValue} (hmv : Moves e l mv l')
    (htakes : mv.takes i = some req) :
    (requests (received i evs))[(completed i evs).length]? = some req := by
  cases hmv with
  | @request j c req' used buf r s runs hi hfree hopen hparse hcount =>
    obtain ⟨rfl, hreq⟩ := Option.ite_some_none_eq_some.mp htakes
    rw [← hreq]
    exact (h.progress c hi).front hfree hparse hcount
  | @retry j c x timedOut s hi hparked =>
    obtain ⟨rfl, hreq⟩ := Option.ite_some_none_eq_some.mp htakes
    rw [← hreq]
    exact (h.progress c hi).parked hparked
  | _ => cases htakes

end InOrder
end PulseDB
