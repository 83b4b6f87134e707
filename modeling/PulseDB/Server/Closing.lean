import PulseDB.Rdb.Served
import PulseDB.Server.Pipeline

/-!
# The end of a connection

A connection is condemned when its requests are refused or the peer has finished sending
(`close_after_reply`), it is marked closed once nothing is left to send, and is then removed.

* `Changes i c mv o` : what a move does to client `i`; `Moves.changes` : it does nothing else;
* `appends i`, `appended` : the bytes that moves append to the output of client `i`; `Account` : they have
  been sent or are still in the buffer;
* `HealthyMoves e i`, `CalmMoves e i` : the moves in which the socket of client `i` reports no error, and
  those in which it is condemned only while it is neither parked nor condemned;
* `closed_delivered_iff` : when all has been sent before a client is marked closed;
* `condemned_silent` : a condemned client has no more requests executed and no more bytes appended.
-/

namespace PulseDB
open Lib Lib.Prog

variable {D : Type} [LinearOrder D]

/-! ## What a move does to one client -/

/-- What a move does to a client with the number `i`; none is left after it leaves. -/
inductive Changes (i : ℕ) (c : Client) : Move → Option Client → Prop
  | other {mv : Move} (hother : mv.client ≠ some i) : Changes i c mv (some c)
  | receive (bytes : Bytes) : Changes i c (.receive i bytes) (some { c with inBuf := c.inBuf ++ bytes })
  | blank (used : ℕ) : Changes i c (.blank i) (some { c with inBuf := c.inBuf.drop used })
  | request {req : RespValue} {r : CommandResult} {b : Bytes} {runs : List Execution} {d : Client}
      (hopen : c.closeAfterReply = false) (hout : d.out = c.out ++ b) (hopen' : d.closeAfterReply = false)
      (hclosed : d.closed = c.closed) (hin : d.inBuf <:+ c.inBuf) :
        Changes i c (.request i req r b runs) (some d)
  | retry {req : RespValue} {r : CommandResult} {b : Bytes} {runs : List Execution} {d : Client}
      (hparked : c.blockedReq = some req) (hlive : c.closed = false) (hout : d.out = c.out ++ b)
      (hcondemned : d.closeAfterReply = c.closeAfterReply) (hclosed : d.closed = c.closed)
        (hin : d.inBuf = c.inBuf) :
      Changes i c (.retry i req r b runs) (some d)
  | condemn (msg : Bytes) :
      Changes i c (.condemn i) (some { c with out := c.out ++ replyError msg, closeAfterReply := true })
  | finish : Changes i c (.finish i) (some { c with
      closeAfterReply := true, closed := c.closed || c.blockedReq.isSome || decide (c.out.length = 0) })
  | close : Changes i c (.close i) (some { c with closed := true })
  | send (n : ℕ) : Changes i c (.send i (c.out.take n)) (some { c with out := c.out.drop n })
  | leave (hclosed : c.closed = true) : Changes i c (.leave i) none

section Changes
variable {e : Env D} {l l' : EventLoop D} {mv : Move} {i : ℕ} {c d : Client} {req : RespValue} {s : Sess D}

omit [LinearOrder D] in
theorem Outcome.out {r : CommandResult} {s' : Sess D} (h : Outcome e s r s') :
    s.client.out <+: s'.client.out := by
  by_cases hr : r = .blocked
  · subst hr
    rw [h.1]
  · obtain ⟨v, -, hout⟩ := h.value hr
    exact ⟨v.enc, hout.symm⟩

theorem commandProcess_out (hs : s.Inv) (hp : req.IsParsed) (hcount : req.count ≠ 0) :
    wlp (commandProcess req) e s fun _ s' => s.client.out <+: s'.client.out := by
  by_cases hreq : req.IsRequest
  · refine wlp_of_wp (wp_mono (commandProcess_wp hs hreq) fun _ _ h => h.outcome.out)
  · refine wlp_mono (commandProcess_refused hp hcount hreq) fun r s' ⟨_, msg, _, hs'⟩ => ?_
    rw [hs']
    exact ⟨replyError msg, rfl⟩

theorem Moves.changes (hl : l.Inv) (hmv : Moves e l mv l') (hc : l.clients i = some c) :
    Changes i c mv (l'.clients i) := by
  by_cases hclient : mv.client = some i
  swap
  · rw [hmv.others hclient, hc]
    exact .other hclient
  cases hmv with
  | join =>
    obtain rfl : l.accepted = i := Option.some.inj hclient
    rw [hl.fresh _ (Nat.le_refl _)] at hc
    cases hc
  | @request j c' req used buf r s runs hj hfree hopen hparse hcount hbuf hrun hruns =>
    obtain rfl : j = i := Option.some.inj hclient
    cases hc.symm.trans hj
    have hparsed := respParseCommand_parsed hparse
    obtain ⟨-, hframe, -⟩ := commandProcess_wlp (hl.sess hj buf) hparsed hcount r s hrun
    obtain ⟨b, hb⟩ := commandProcess_out (hl.sess hj buf) hparsed hcount r s hrun
    obtain ⟨parked, hparked⟩ := s.client.processed_eq req r
    rw [EventLoop.put_self, hparked]
    refine .request hopen ?_ (hframe.closeAfterReply.trans hopen) hframe.closed (List.drop_suffix used _)
    rw [← hb]
    exact congrArg (c.out ++ ·) List.drop_left.symm
  | @retry j c' x timedOut s hj hparked hopen hrun hx =>
    obtain rfl : j = i := Option.some.inj hclient
    cases hc.symm.trans hj
    obtain ⟨st, hst, hans⟩ := hl.server.retried hj hparked hrun
    obtain ⟨b, hb⟩ := hans.outcome.out
    obtain ⟨-, hframe⟩ := hans.kept
    obtain ⟨parked, hretried⟩ := s.client.retried_eq x.result
    rw [EventLoop.put_self, hretried]
    refine .retry hparked hopen ?_ hframe.closeAfterReply hframe.closed hframe.inBuf
    rw [← hb]
    exact congrArg (c.out ++ ·) List.drop_left.symm
  | clock n => cases hclient
  | receive hj | blank hj | refuse hj | overflow hj | finish hj | close hj | send hj | leave hj =>
    obtain rfl := Option.some.inj hclient
    cases hc.symm.trans hj
    rw [EventLoop.put_self]
    first
    | exact .receive _
    | exact .blank _
    | exact .condemn _
    | exact .finish
    | exact .close
    | exact .send _
    | exact .leave ‹_›

end Changes

/-! ## The bytes that are appended -/

/-- What is waiting to be sent to client `i`. -/
def EventLoop.output (l : EventLoop D) (i : ℕ) : Bytes := (l.clients i).elim [] Client.out

/-- What a move appends to the output of client `i`; no move both appends to it and sends from it. -/
def appends (i : ℕ) (l l' : EventLoop D) : Bytes := (l'.output i).drop (l.output i).length

/-- What some moves append, one after the other. -/
def appended (obs : List (Move × Bytes)) : Bytes := obs.flatMap Prod.snd

/-- What has been appended to the output of client `i` has been sent or is still there. -/
structure Account (i : ℕ) (obs : List (Move × Bytes)) (l : EventLoop D) : Prop where
  fresh : l.accepted ≤ i → sent i (obs.map Prod.fst) = [] ∧ appended obs = []
  kept : ∀ c, l.clients i = some c → sent i (obs.map Prod.fst) ++ c.out = appended obs

@[simp] theorem appended_snoc (obs : List (Move × Bytes)) (mv : Move) (b : Bytes) :
    appended (obs ++ [(mv, b)]) = appended obs ++ b := by
  simp [appended]

section Account
variable {e : Env D} {l l' : EventLoop D} {mv : Move} {i : ℕ} {c d : Client} {obs : List (Move × Bytes)}

omit [LinearOrder D] in
theorem EventLoop.output_of_some (hi : l.clients i = some c) : l.output i = c.out := by
  rw [EventLoop.output, hi]
  rfl

omit [LinearOrder D] in
theorem EventLoop.output_of_none (hi : l.clients i = none) : l.output i = [] := by
  rw [EventLoop.output, hi]
  rfl

omit [LinearOrder D] in
theorem appends_of_none (hi : l'.clients i = none) : appends i l l' = [] := by
  rw [appends, EventLoop.output_of_none hi, List.drop_nil]

theorem Changes.out (h : Changes i c mv (some d)) :
    mv.departs i ++ d.out = c.out ++ d.out.drop c.out.length := by
  cases h with
  | other hother => rw [(Move.others hother).2.1, List.drop_length, List.append_nil, List.nil_append]
  | request _ hout | retry _ _ hout =>
    rw [hout, List.drop_left]
    rfl
  | condemn msg =>
    show c.out ++ replyError msg = c.out ++ (c.out ++ replyError msg).drop c.out.length
    rw [List.drop_left]
  | send n =>
    rw [show (Move.send i (c.out.take n)).departs i = c.out.take n from if_pos rfl, List.take_append_drop,
      List.drop_drop, List.drop_of_length_le (Nat.le_add_left _ _), List.append_nil]
  | receive | blank | finish | close =>
    show c.out = c.out ++ c.out.drop c.out.length
    rw [List.drop_length, List.append_nil]

omit [LinearOrder D] in
theorem account_start (i : ℕ) (store : Store D) : Account i [] (EventLoop.start store) :=
  ⟨fun _ => ⟨rfl, rfl⟩, fun c hc => by cases hc⟩

omit [LinearOrder D] in
/-- A move that neither appends to the output of the client nor sends from it. -/
theorem Account.idle (h : Account i obs l) {b : Bytes} (hout : mv.departs i = []) (hb : b = [])
    (hle : l'.accepted ≤ i → l.accepted ≤ i)
    (hkept : ∀ d, l'.clients i = some d → sent i (obs.map Prod.fst) ++ d.out = appended obs) :
    Account i (obs ++ [(mv, b)]) l' := by
  subst hb
  constructor
  all_goals simp only [sent_snoc, appended_snoc, List.map_append, List.map_singleton, hout, List.append_nil]
  · exact fun hfresh => h.fresh (hle hfresh)
  · exact hkept

theorem Account.step (h : Account i obs l) (hl : l.Inv) (hmv : Moves e l mv l') :
    Account i (obs ++ [(mv, appends i l l')]) l' := by
  have hle (hfresh : l'.accepted ≤ i) : l.accepted ≤ i := Nat.le_trans hmv.accepted_le hfresh
  cases hi : l.clients i with
  | none =>
    rcases hmv.newcomer hi with ⟨hnext, rfl, hnew⟩ | ⟨hclient, hnone⟩
    · refine h.idle rfl ?_ hle fun d hd => ?_
      · rw [appends, EventLoop.output_of_some hnew, List.drop_nil]
      · cases hnew.symm.trans hd
        rw [(h.fresh (Nat.le_of_eq hnext)).1, (h.fresh (Nat.le_of_eq hnext)).2]
        rfl
    · refine h.idle (Move.others hclient).2.1 (appends_of_none hnone) hle fun d hd => ?_
      cases hnone.symm.trans hd
  | some c =>
    refine ⟨fun hfresh => absurd (hl.lt hi) (Nat.not_lt_of_le (hle hfresh)), fun d hd => ?_⟩
    have hchange := hmv.changes hl hi
    rw [hd] at hchange
    rw [List.map_append, List.map_singleton, sent_snoc, appended_snoc, appends, EventLoop.output_of_some hi,
      EventLoop.output_of_some hd, List.append_assoc, hchange.out, ← List.append_assoc, h.kept c hi]

end Account

/-! ## Delivery before the end -/

/-- A move in which the socket of client `i` reports no error: it is closed outside `read_from_client` only
once it is condemned and all has been sent. -/
def HealthyMoves (e : Env D) (i : ℕ) (l : EventLoop D) (mv : Move) (l' : EventLoop D) : Prop :=
  Moves e l mv l' ∧ (mv = .close i → ∀ c, l.clients i = some c → c.closeAfterReply = true ∧ c.out = [])

section Delivered
variable {e : Env D} {l l' : EventLoop D} {mv : Move} {i : ℕ} {c d : Client} {obs : List (Move × Bytes)}

theorem LoopMoves.healthy {p p' : EventLoop D × Int} (h : LoopMoves e (· ≠ i) p mv p') :
    HealthyMoves e i p.1 mv p'.1 := by
  refine ⟨h.moves, fun hclose c hc => ?_⟩
  cases h with
  | pass => cases hclose
  | retry => cases hclose
  | close hj hend =>
    cases hclose
    cases hc.symm.trans hj
    exact hend.resolve_left fun hne => hne rfl
  | plain hmv hplain =>
    subst hclose
    exact absurd hplain id

theorem serverRun_healthy {polls : List Poll} (hpolls : ∀ poll ∈ polls, poll.Healthy i) (hl : l.Inv)
    (h : serverRun polls e l = .ok ((), l')) :
    ∃ obs, Run (Observed (appends i) (HealthyMoves e i)) l obs l' ∧
      ∀ j, traffic j (obs.map Prod.fst) = serverTraffic e polls l j := by
  have hothers : ∀ poll ∈ polls, ∀ j, ¬ j ≠ i → poll.Healthy j := fun poll hpoll j hj =>
    not_not.mp hj ▸ hpolls poll hpoll
  obtain ⟨now, evs, hrun, htraffic⟩ := serverRun_follows 0 hothers hl () l' h
  obtain ⟨obs, hobs, rfl⟩ := (hrun.map Prod.fst fun _ _ _ hmv => hmv.healthy).observe (appends i)
  exact ⟨obs, hobs, htraffic⟩

/-- A client is marked closed at the end of its stream or as a move of its own. -/
theorem Changes.closes (h : Changes i c mv (some d)) (hc : c.closed = false) (hd : d.closed = true) :
    d.out = c.out ∧ (mv = .close i ∨ mv = .finish i ∧ (c.blockedReq = none → c.out = [])) := by
  cases h with
  | finish =>
    refine ⟨rfl, Or.inr ⟨rfl, fun hfree => ?_⟩⟩
    simpa [hc, hfree] using hd
  | close => exact ⟨rfl, Or.inl rfl⟩
  | request _ _ _ hclosed => exact absurd (hd.symm.trans (hclosed.trans hc)) (by decide)
  | retry _ _ _ _ hclosed => exact absurd (hd.symm.trans (hclosed.trans hc)) (by decide)
  | _ => exact absurd (hd.symm.trans hc) (by decide)

theorem healthy_account (hl : l.Inv) (hrun : Run (Observed (appends i) (HealthyMoves e i)) l obs l')
    (hstart : Account i [] l) : l'.Inv ∧ Account i obs l' := by
  refine hrun.history (fun obs l => l.Inv ∧ Account i obs l) (P := fun _ => True) ?_ (fun _ _ => trivial)
    ⟨hl, hstart⟩
  rintro obs l ⟨mv, b⟩ l' ⟨hl, hacc⟩ - ⟨⟨hmv, -⟩, rfl⟩
  exact ⟨hmv.inv hl, hacc.step hl hmv⟩

end Delivered

/-- If no socket call of client `i` fails, the turns of the loop are a run of moves in which its socket
reports no error, and which send what the sockets have taken. In every such run, when the client is marked
closed, all bytes appended to its output have been sent, unless it is closed for the end of its stream while
it is parked and its output is not empty; then they have not. -/
theorem closed_delivered_iff (e : Env D) (clock : ℕ → Int) (file : Option Bytes) (i : ℕ) :
    (∀ polls l, (∀ poll ∈ polls, poll.Healthy i) →
      serverRun polls e (.start (startupStore clock file)) = .ok ((), l) →
      ∃ obs, Run (Observed (appends i) (HealthyMoves e i)) (.start (startupStore clock file)) obs l ∧
        ∀ j, traffic j (obs.map Prod.fst) = serverTraffic e polls (.start (startupStore clock file)) j) ∧
    ∀ obs l mv b l' c d, Run (Observed (appends i) (HealthyMoves e i))
      (.start (startupStore clock file)) obs l → Observed (appends i) (HealthyMoves e i) l (mv, b) l' →
      l.clients i = some c → c.closed = false → l'.clients i = some d → d.closed = true →
      (sent i ((obs ++ [(mv, b)]).map Prod.fst) = appended (obs ++ [(mv, b)]) ↔
        (mv = .finish i → c.blockedReq = none ∨ c.out = [])) := by
  have hstart : (EventLoop.start (startupStore clock file : Store D)).Inv :=
    EventLoop.inv_start (startupStore_reachable clock file).valid
  refine ⟨fun polls l hpolls hrun => serverRun_healthy hpolls hstart hrun,
    fun obs l mv b l' c d hrun hstep hc hopen hd hclosed => ?_⟩
  obtain ⟨hl, hacc⟩ := healthy_account hstart hrun (account_start i _)
  obtain ⟨⟨hmv, hhealthy⟩, rfl⟩ := hstep
  have hchange := hmv.changes hl hc
  rw [hd] at hchange
  obtain ⟨hout, hclose⟩ := hchange.closes hopen hclosed
  have hall := (hacc.step hl hmv).kept d hd
  rw [← hall, List.self_eq_append_right, hout]
  rcases hclose with rfl | ⟨rfl, hend⟩
  · exact ⟨fun _ hfinish => Move.noConfusion hfinish, fun _ => (hhealthy rfl c hc).2⟩
  · exact ⟨fun hempty _ => Or.inr hempty, fun hcond => (hcond rfl).elim hend id⟩

/-- A turn in which one connection is made. -/
def Poll.connect : Poll := ⟨fun _ => none, 1, fun _ => []⟩

/-- A turn in which every client is ready to read, and none can write. -/
def Poll.reading (results : List ReadResult) : Poll := ⟨fun _ => some results, 0, fun _ => [.wouldBlock]⟩

theorem Poll.connect_healthy (i : ℕ) : Poll.connect.Healthy i :=
  ⟨fun _ hresults => (by cases hresults), fun _ hresult => absurd hresult List.not_mem_nil⟩

theorem Poll.reading_healthy {results : List ReadResult} (h : .failed ∉ results) (i : ℕ) :
    (Poll.reading results).Healthy i := by
  refine ⟨fun _ hresults => ?_, fun _ hresult => ?_⟩
  · cases hresults
    exact h
  · rw [List.mem_singleton.mp hresult]
    exact ⟨WriteResult.noConfusion, WriteResult.noConfusion⟩

/-- A client sends `PING` and a `BLPOP` that blocks, and then finishes sending, before its socket can take the
reply to `PING`: the connection is dropped with the reply still to be sent. -/
theorem closed_not_delivered :
    let e := Env.integers (fun n => n) fun n => n
    let start : EventLoop Int := .start (startupStore (fun _ => 0) none)
    let polls := [.connect, .reading [.bytes (ascii "ping\r\nblpop k 0\r\n")]]
    let last := Poll.reading [.bytes []]
    let eof : Move × Bytes := (.finish 0, [])
    (∀ poll ∈ polls ++ [last], poll.Healthy 0) ∧
    (serverRun (polls ++ [last]) e start).toOption.map (fun p => (p.2.clients 0).isSome) = some false ∧
    (serverTraffic e (polls ++ [last]) start 0).written = [] ∧
    ∃ l obs l' c d, serverRun polls e start = .ok ((), l) ∧
      Run (Observed (appends 0) (HealthyMoves e 0)) start obs l ∧
      Observed (appends 0) (HealthyMoves e 0) l eof l' ∧
      l.clients 0 = some c ∧ c.closed = false ∧ l'.clients 0 = some d ∧ d.closed = true ∧
      appended (obs ++ [eof]) = sent 0 ((obs ++ [eof]).map Prod.fst) ++ ascii "+PONG\r\n" := by
  intro e start polls last eof
  have hhealthy : ∀ poll ∈ polls ++ [last], poll.Healthy 0 := by
    intro poll hpoll
    simp only [polls, last, List.cons_append, List.nil_append, List.mem_cons, List.not_mem_nil,
      or_false] at hpoll
    rcases hpoll with rfl | rfl | rfl
    · exact Poll.connect_healthy 0
    · exact Poll.reading_healthy (by simp) 0
    · exact Poll.reading_healthy (by simp) 0
  refine ⟨hhealthy, by decide +kernel, by decide +kernel, ?_⟩
  have hparked : (serverRun polls e start).toOption.map
      (fun p => (p.2.clients 0).map fun c => (c.out, c.blockedReq.isSome, c.closed)) =
      some (some (ascii "+PONG\r\n", true, false)) := by decide +kernel
  obtain ⟨⟨⟨⟩, l⟩, hrun, hclient⟩ := ok_of_toOption hparked
  obtain ⟨c, hc, hfields⟩ := Option.map_eq_some_iff.mp hclient
  obtain ⟨hout, hfields⟩ := Prod.mk.inj hfields
  obtain ⟨hblocked, hopen⟩ := Prod.mk.inj hfields
  have hstart : start.Inv := EventLoop.inv_start storeCreate_valid
  have hbefore : ∀ poll ∈ polls, poll.Healthy 0 := fun poll hpoll => hhealthy poll
    (List.mem_append_left _ hpoll)
  obtain ⟨obs, hobs, -⟩ := serverRun_healthy hbefore hstart hrun
  let d : Client := { c with
    closeAfterReply := true, closed := c.closed || c.blockedReq.isSome || decide (c.out.length = 0) }
  have hd : (l.put 0 (l.sess c) (some d)).clients 0 = some d := EventLoop.put_self ..
  have heof : Observed (appends 0) (HealthyMoves e 0) l eof (l.put 0 (l.sess c) (some d)) := by
    refine ⟨⟨.finish hc, Move.noConfusion⟩, ?_⟩
    rw [appends, EventLoop.output_of_some hd, EventLoop.output_of_some hc]
    exact List.drop_length.symm
  obtain ⟨-, hacc⟩ := healthy_account hstart (hobs.snoc heof) (account_start 0 _)
  refine ⟨l, obs, _, c, d, hrun, hobs, heof, hc, hopen, hd, ?_, ?_⟩
  · show (c.closed || c.blockedReq.isSome || decide (c.out.length = 0)) = true
    rw [hblocked, Bool.or_true, Bool.true_or]
  · rw [← hacc.kept d hd, ← hout]

/-! ## Silence after the sentence -/

/-- A move in which client `i` is condemned for its input only while it is neither parked nor condemned. -/
def CalmMoves (e : Env D) (i : ℕ) (l : EventLoop D) (mv : Move) (l' : EventLoop D) : Prop :=
  Moves e l mv l' ∧
    (mv = .condemn i → ∀ c, l.clients i = some c → c.blockedReq = none ∧ c.closeAfterReply = false)

/-- The client is condemned, and no parked request of it will be retried. -/
def Client.Ending (c : Client) : Prop := c.closeAfterReply = true ∧ (c.blockedReq = none ∨ c.closed = true)

section Ending
variable {i : ℕ} {c d : Client} {mv : Move} {o : Option Client}

theorem Client.Ending.not_retried (h : c.Ending) {req : RespValue} (hparked : c.blockedReq = some req) :
    c.closed ≠ false := by
  rcases h.2 with hfree | hclosed
  · rw [hparked] at hfree
    cases hfree
  · rw [hclosed]
    decide

theorem Changes.ending (h : Changes i c mv (some d))
    (hcalm : mv = .condemn i → c.blockedReq = none ∧ c.closeAfterReply = false)
    (hc : c.closeAfterReply = true → c.Ending) (hd : d.closeAfterReply = true) : d.Ending := by
  cases h with
  | other => exact hc hd
  | receive | blank | send => exact ⟨hd, (hc hd).2⟩
  | request _ _ hopen => exact absurd (hopen.symm.trans hd) (by decide)
  | retry hparked hlive _ hcondemned => exact absurd hlive ((hc (hcondemned ▸ hd)).not_retried hparked)
  | condemn => exact ⟨rfl, Or.inl (hcalm rfl).1⟩
  | finish =>
    refine ⟨rfl, ?_⟩
    cases hparked : c.blockedReq with
    | none => exact Or.inl rfl
    | some req => simp
  | close => exact ⟨hd, Or.inr rfl⟩

theorem Changes.condemned (h : Changes i c mv (some d)) (hc : c.closeAfterReply = true) :
    d.closeAfterReply = true := by
  cases h with
  | request hopen => exact absurd (hopen.symm.trans hc) (by decide)
  | retry _ _ _ hcondemned => exact hcondemned.trans hc
  | condemn | finish => rfl
  | _ => exact hc

theorem Changes.silent (h : Changes i c mv o)
    (hcalm : mv = .condemn i → c.blockedReq = none ∧ c.closeAfterReply = false) (hc : c.Ending) :
    mv.takes i = none ∧ (mv.client = some i → mv.runs = []) ∧ ∀ d, o = some d →
      d.out.drop c.out.length = [] := by
  cases h with
  | other hother =>
    refine ⟨Move.takes_other hother, fun h => absurd h hother, fun d hd => ?_⟩
    cases hd
    exact List.drop_length
  | request hopen => exact absurd (hopen.symm.trans hc.1) (by decide)
  | retry hparked hlive => exact absurd hlive (hc.not_retried hparked)
  | condemn => exact absurd ((hcalm rfl).2.symm.trans hc.1) (by decide)
  | send n =>
    refine ⟨rfl, fun _ => rfl, fun d hd => ?_⟩
    cases hd
    rw [List.drop_drop]
    exact List.drop_of_length_le (Nat.le_add_left _ _)
  | receive | blank | finish | close =>
    refine ⟨rfl, fun _ => rfl, fun d hd => ?_⟩
    cases hd
    exact List.drop_length
  | leave => exact ⟨rfl, fun _ => rfl, fun d hd => by cases hd⟩

end Ending

/-- Client `i` has been condemned, and may have left. -/
structure Condemned (i : ℕ) (l : EventLoop D) : Prop where
  inv : l.Inv
  known : i < l.accepted
  ending : ∀ c, l.clients i = some c → c.Ending

section Condemned
variable {e : Env D} {i : ℕ} {l l' : EventLoop D} {mv : Move} {c d : Client}

theorem CalmMoves.calm (hmv : CalmMoves e i l mv l') (hc : l.clients i = some c) :
    mv = .condemn i → c.blockedReq = none ∧ c.closeAfterReply = false := fun h => hmv.2 h c hc

theorem CalmMoves.ending (hl : l.Inv) (h : ∀ c, l.clients i = some c → c.closeAfterReply = true → c.Ending)
    (hmv : CalmMoves e i l mv l') : ∀ d, l'.clients i = some d → d.closeAfterReply = true → d.Ending := by
  intro d hd hcondemned
  cases hi : l.clients i with
  | none =>
    rcases hmv.1.newcomer hi with ⟨-, -, hnew⟩ | ⟨-, hnone⟩
    · cases hnew.symm.trans hd
      cases hcondemned
    · cases hnone.symm.trans hd
  | some c =>
    have hchange := hmv.1.changes hl hi
    rw [hd] at hchange
    exact hchange.ending (hmv.calm hi) (h c hi) hcondemned

theorem Condemned.step (h : Condemned i l) (hmv : CalmMoves e i l mv l') : Condemned i l' := by
  refine ⟨hmv.1.inv h.inv, Nat.lt_of_lt_of_le h.known hmv.1.accepted_le, fun d hd => ?_⟩
  refine hmv.ending h.inv (fun c hc _ => h.ending c hc) d hd ?_
  cases hi : l.clients i with
  | none =>
    rcases hmv.1.newcomer hi with ⟨hnext, -⟩ | ⟨-, hnone⟩
    · exact absurd h.known (hnext ▸ Nat.lt_irrefl _)
    · cases hnone.symm.trans hd
  | some c =>
    have hchange := hmv.1.changes h.inv hi
    rw [hd] at hchange
    exact hchange.condemned (h.ending c hi).1

theorem Condemned.silent (h : Condemned i l) (hmv : CalmMoves e i l mv l') :
    mv.takes i = none ∧ (mv.client = some i → l'.store = l.store) ∧ appends i l l' = [] := by
  have hstore (hruns : mv.runs = []) : l'.store = l.store := by
    have hserves := hmv.1.serves
    rw [hruns] at hserves
    exact hserves.eq_of_nil
  cases hi : l.clients i with
  | none =>
    rcases hmv.1.newcomer hi with ⟨hnext, -⟩ | ⟨hother, hnone⟩
    · exact absurd h.known (hnext ▸ Nat.lt_irrefl _)
    · exact ⟨Move.takes_other hother, fun hclient => absurd hclient hother, appends_of_none hnone⟩
  | some c =>
    obtain ⟨htakes, hruns, hout⟩ := (hmv.1.changes h.inv hi).silent (hmv.calm hi) (h.ending c hi)
    refine ⟨htakes, fun hclient => hstore (hruns hclient), ?_⟩
    cases hd : l'.clients i with
    | none => exact appends_of_none hd
    | some d =>
      rw [appends, EventLoop.output_of_some hi, EventLoop.output_of_some hd]
      exact hout d hd

/-- A client is condemned for its input while it is neither parked nor condemned, or for the size of it. -/
theorem Moves.condemns (h : Moves e l (.condemn i) l') (hc : l.clients i = some c) :
    (c.blockedReq = none ∧ c.closeAfterReply = false) ∨ clientMaxQueryBuf < c.inBuf.length := by
  cases h with
  | refuse hi hfree hopen =>
    cases hc.symm.trans hi
    exact Or.inl ⟨hfree, hopen⟩
  | overflow hi hlong =>
    cases hc.symm.trans hi
    exact Or.inr hlong

theorem Changes.inBuf_le (h : Changes i c mv (some d)) :
    d.inBuf.length ≤ c.inBuf.length + (mv.arrives i).length := by
  cases h with
  | other => exact Nat.le_add_right _ _
  | receive bytes => simp [Move.arrives]
  | blank used => exact Nat.le_trans (List.drop_suffix used c.inBuf).length_le (Nat.le_add_right _ _)
  | request _ _ _ _ hin => exact Nat.le_trans hin.length_le (Nat.le_add_right _ _)
  | retry _ _ _ _ _ hin => exact Nat.le_trans (Nat.le_of_eq (congrArg List.length hin)) (Nat.le_add_right _ _)
  | condemn | finish | close | send => exact Nat.le_add_right _ _

theorem inBuf_le_received {evs : List Move} (hl : l.Inv) (hfresh : l.clients i = none)
    (h : Run (Moves e) l evs l') (hc : l'.clients i = some c) : c.inBuf.length ≤ (received i evs).length := by
  let I (evs : List Move) (l : EventLoop D) : Prop :=
    l.Inv ∧ ∀ c, l.clients i = some c → c.inBuf.length ≤ (received i evs).length
  refine (h.history I (P := fun _ => True) ?_ (fun _ _ => trivial) ⟨hl, fun c hc => ?_⟩).2 c hc
  swap
  · cases hfresh.symm.trans hc
  rintro evs l mv l' ⟨hl, hle⟩ - hmv
  refine ⟨hmv.inv hl, fun d hd => ?_⟩
  rw [received_snoc, List.length_append]
  cases hi : l.clients i with
  | none =>
    rcases hmv.newcomer hi with ⟨-, -, hnew⟩ | ⟨-, hnone⟩
    · cases hnew.symm.trans hd
      exact Nat.zero_le _
    · cases hnone.symm.trans hd
  | some c =>
    have hchange := hmv.changes hl hi
    rw [hd] at hchange
    exact Nat.le_trans hchange.inBuf_le (Nat.add_le_add_right (hle c hi) _)

/-- A client that has sent no more than its buffer may hold is condemned at most once. -/
theorem runMoves_calm {evs : List Move} (hl : l.Inv) (hfresh : l.clients i = none)
    (h : Run (Moves e) l evs l')
    (hshort : (received i evs).length ≤ clientMaxQueryBuf) : Run (CalmMoves e i) l evs l' := by
  refine h.restrict fun evs₁ mv evs₂ l₁ l₂ hevs hbefore hmv hcondemn c hc => ?_
  subst hevs hcondemn
  refine (hmv.condemns hc).resolve_right (Nat.not_lt_of_le ?_)
  have hle := inBuf_le_received hl hfresh hbefore hc
  rw [received, List.flatMap_append, List.length_append] at hshort
  exact Nat.le_trans hle (Nat.le_trans (Nat.le_add_right _ _) hshort)

end Condemned

/-- Every run of the event loop is a run of moves with its traffic. If client `i` is condemned for its input
only while it is neither parked nor condemned, it is one of `CalmMoves`, and so it is if it has sent no more
than its buffer may hold. In every such run, once the client is condemned, no move executes a request of it, a
move of it leaves the store as it is, and no move appends to its output. -/
theorem condemned_silent (e : Env D) (clock : ℕ → Int) (file : Option Bytes) (i : ℕ) :
    (∀ polls l, serverRun polls e (.start (startupStore clock file)) = .ok ((), l) →
      ∃ evs, Run (Moves e) (.start (startupStore clock file)) evs l ∧
        (∀ j, traffic j evs = serverTraffic e polls (.start (startupStore clock file)) j) ∧
        ((∀ evs₁ evs₂ l₁ c, evs = evs₁ ++ .condemn i :: evs₂ →
          Run (Moves e) (.start (startupStore clock file)) evs₁ l₁ →
            l₁.clients i = some c → c.blockedReq = none ∧ c.closeAfterReply = false) →
          Run (CalmMoves e i) (.start (startupStore clock file)) evs l) ∧
        ((serverTraffic e polls (.start (startupStore clock file)) i).read.length ≤ clientMaxQueryBuf →
          Run (CalmMoves e i) (.start (startupStore clock file)) evs l)) ∧
    ∀ evs l c, Run (CalmMoves e i) (.start (startupStore clock file)) evs l → l.clients i = some c →
      c.closeAfterReply = true → ∀ evs' l₁ mv l₂, Run (CalmMoves e i) l evs' l₁ → CalmMoves e i l₁ mv l₂ →
        mv.takes i = none ∧ (mv.client = some i → l₂.store = l₁.store) ∧ appends i l₁ l₂ = [] := by
  have hstart : (EventLoop.start (startupStore clock file : Store D)).Inv :=
    EventLoop.inv_start (startupStore_reachable clock file).valid
  refine ⟨fun polls l hrun => ?_, fun evs l c hrun hc hcondemned evs' l₁ mv l₂ hrun' hmv => ?_⟩
  · obtain ⟨evs, hmoves, htraffic⟩ := serverRun_moves hstart hrun
    refine ⟨evs, hmoves, htraffic, fun hcalm => ?_, fun hshort => ?_⟩
    · refine hmoves.restrict fun evs₁ mv evs₂ l₁ l₂ hevs hbefore _ hcondemn c hc => ?_
      exact hcalm evs₁ evs₂ l₁ c (hcondemn ▸ hevs) hbefore hc
    · rw [← htraffic] at hshort
      exact runMoves_calm hstart rfl hmoves hshort
  let I (l : EventLoop D) : Prop := l.Inv ∧ ∀ c, l.clients i = some c → c.closeAfterReply = true → c.Ending
  have hreached : I l := hrun.invariant I (fun _ _ _ h hmv => ⟨hmv.1.inv h.1, hmv.ending h.1 h.2⟩)
    ⟨hstart, fun c hc => by cases hc⟩
  have hstays : Condemned i l := by
    refine ⟨hreached.1, hreached.1.lt hc, fun d hd => ?_⟩
    cases hc.symm.trans hd
    exact hreached.2 c hc hcondemned
  exact (hrun'.invariant (Condemned i) (fun _ _ _ h hmv => h.step hmv) hstays).silent hmv

section Flood
variable {e : Env D} {l : EventLoop D} {c : Client} {s : Sess D} {results : List ReadResult}

theorem processInput_condemned (hcondemned : s.client.closeAfterReply = true)
    (hlong : clientMaxQueryBuf < s.client.inBuf.length) :
    wp processInput e s fun _ s' => s'.client = { s.client with
      out := s.client.out ++ replyError (ascii "ERR Protocol error: request too large") } := by
  have hloop : processLoop (s.client.inBuf.length + 1) 0 e s = .ok ((0, []), s) := by
    unfold processLoop
    have hget : (Prog.get : Cmd D (Sess D)) e s = .ok (s, s) := rfl
    rw [bind_of_ok hget, if_pos (by rw [hcondemned, Bool.or_true, Bool.true_or])]
    rfl
  unfold processInput
  rw [wp_bind, wp_get, wp_bind, wp_of_ok hloop]
  simp only
  rw [wp_bind, wp_modify, wp_bind, wp_get, List.drop_zero, if_pos hlong, wp_bind]
  show ({ s.client with closeAfterReply := true, out := _ } : Client) = _
  rw [← hcondemned]

theorem readFromClient_condemned (hcondemned : s.client.closeAfterReply = true)
    (hread : (readLoop results).2 = .later)
    (hlong : clientMaxQueryBuf < (readLoop results).1.length) :
    wp (readFromClient results) e s fun _ s' => s'.client = { s.client with
      inBuf := s.client.inBuf ++ (readLoop results).1,
      out := s.client.out ++ replyError (ascii "ERR Protocol error: request too large") } := by
  unfold readFromClient
  rw [wp_bind]
  refine wp_modify.mpr ?_
  rw [hread, if_neg ReadEnd.noConfusion, wp_bind]
  refine wp_mono (processInput_condemned hcondemned ?_) fun _ s' hs' => ?_
  · rw [List.length_append]
    exact Nat.lt_of_lt_of_le hlong (Nat.le_add_left _ _)
  · rw [if_neg ReadEnd.noConfusion]
    exact hs'

omit [LinearOrder D] in
theorem wp_forClient {m : Cmd D Unit} {i : ℕ} {Q : Unit → EventLoop D → Prop} (hi : l.clients i = some c)
    (h : wp m e (l.sess c) fun _ s => Q () (l.put i s (some s.client))) : wp (forClient m i) e l Q := by
  obtain ⟨u, s, hrun, hq⟩ := wp_iff.mp h
  refine wp_iff.mpr ⟨(), _, ?_, hq⟩
  simp only [forClient, hi, hrun]

omit [LinearOrder D] in
theorem flush_wouldBlock (hopen : s.client.closed = false) (hout : s.client.out ≠ []) :
    wp (do
      let s ← Prog.get
      if !s.client.closed && decide (s.client.out.length ≠ 0) then writeToClient [.wouldBlock]
      else return ()) e s
      fun _ s' => s' = s := by
  have hlen : s.client.out.length ≠ 0 := mt List.eq_nil_of_length_eq_zero hout
  have hloop : writeLoop s.client.out.length [.wouldBlock] 0 = (0, false) := by
    rw [writeLoop, if_neg (mt Nat.le_zero.mp hlen)]
  rw [wp_bind, wp_get, hopen, decide_eq_true hlen, Bool.not_false, Bool.true_and, if_pos rfl,
    writeToClient, wp_bind, wp_get, hloop, wp_bind]
  refine wp_modify.mpr (wp_modify.mpr ?_)
  show ({ s with client := { s.client with
    closed := s.client.closed || false || (s.client.closeAfterReply && decide (s.client.out.length = 0)) }
      } : Sess D) = s
  rw [decide_eq_false hlen, Bool.and_false, Bool.or_false, Bool.or_false]

/-- A turn in which the only client is condemned and sends more than its buffer may hold. -/
theorem serverTurn_condemned (hone : l.accepted = 1) (hc : l.clients 0 = some c)
    (hcondemned : c.closeAfterReply = true) (hopen : c.closed = false) (hfree : c.blockedReq = none)
    (hread : (readLoop results).2 = .later)
    (hlong : clientMaxQueryBuf < (readLoop results).1.length) :
    wp (serverTurn (.reading results)) e l fun _ l' => l'.output 0 =
      l.output 0 ++ replyError (ascii "ERR Protocol error: request too large") := by
  have hblocked : l.anyBlocked = false := by simp [EventLoop.anyBlocked, hone, hc, hfree]
  unfold serverTurn
  rw [wp_bind, wp_get, hone, hblocked, wp_bind]
  refine wp_bind.mpr (wp_forClient hc (wp_mono (readFromClient_condemned hcondemned hread hlong)
    fun _ s₁ hs₁ => ?_))
  have hc₁ : (l.put 0 s₁ (some s₁.client)).clients 0 = some s₁.client := EventLoop.put_self ..
  have hone₁ : (l.put 0 s₁ (some s₁.client)).accepted = 1 := hone
  have hopen₁ : s₁.client.closed = false := by
    rw [hs₁]
    exact hopen
  have hout₁ : s₁.client.out ≠ [] := by
    rw [hs₁]
    exact List.append_ne_nil_of_right_ne_nil _ (List.cons_ne_nil _ _)
  generalize l.put 0 s₁ (some s₁.client) = l₁ at hc₁ hone₁
  simp only [Poll.reading, eachClient, acceptClients, wp_bind, wp_pure, wp_get, Bool.false_eq_true, if_false]
  rw [hone₁]
  refine wp_bind.mpr (wp_forClient hc₁ (wp_mono (flush_wouldBlock hopen₁ hout₁) fun _ s₂ hs₂ => ?_))
  rw [hs₂, show (l₁.sess s₁.client).client = s₁.client from rfl, EventLoop.put_same hc₁, eachClient, wp_pure,
    removeClosedClients, wp_bind, wp_get, wp_modify, hone₁]
  have hstays : l₁.clientFree 0 = l₁ := by simp [EventLoop.clientFree, hc₁, hopen₁]
  show (l₁.clientFree 0).output 0 = _
  rw [hstays, EventLoop.output_of_some hc₁, EventLoop.output_of_some hc, hs₁]
  rfl

end Flood

theorem readLoop_replicate {chunk : Bytes} (h : chunk.length = readChunkSize) : ∀ n : ℕ,
    (readLoop (List.replicate n (.bytes chunk))).2 = .later ∧
      (readLoop (List.replicate n (.bytes chunk))).1.length = n * readChunkSize
  | 0 => ⟨rfl, (Nat.zero_mul _).symm⟩
  | n + 1 => by
    obtain ⟨hend, hlen⟩ := readLoop_replicate h n
    have hne : chunk ≠ [] := fun hnil => absurd (hnil ▸ h) (by decide)
    rw [List.replicate_succ, readLoop, if_neg hne, if_neg (Nat.not_lt_of_le (Nat.le_of_eq h.symm)),
      List.length_append, hlen, h, Nat.succ_mul, Nat.add_comm]
    exact ⟨hend, rfl⟩

/-- A client is refused for a protocol error and sends 16385 chunks more, before its socket can take the
error: another error is appended. -/
theorem condemned_not_silent :
    let e := Env.integers (fun n => n) fun n => n
    let start : EventLoop Int := .start (startupStore (fun _ => 0) none)
    let chunk : Bytes := List.replicate readChunkSize 120
    ∃ l c l', serverRun [.connect, .reading [.bytes (ascii "*1\r\n:5\r\n")]] e start = .ok ((), l) ∧
      l.clients 0 = some c ∧ c.closeAfterReply = true ∧ c.closed = false ∧
      serverTurn (.reading (List.replicate 16385 (.bytes chunk))) e l = .ok ((), l') ∧
      appends 0 l l' = replyError (ascii "ERR Protocol error: request too large") := by
  intro e start chunk
  have hrefused : (serverRun [.connect, .reading [.bytes (ascii "*1\r\n:5\r\n")]] e start).toOption.map
    (fun p =>
      (p.2.accepted, (p.2.clients 0).map fun c => (c.closeAfterReply, c.closed, c.blockedReq.isNone))) =
      some (1, some (true, false, true)) := by decide +kernel
  obtain ⟨⟨⟨⟩, l⟩, hrun, hend⟩ := ok_of_toOption hrefused
  obtain ⟨hone, hclient⟩ := Prod.mk.inj hend
  obtain ⟨c, hc, hfields⟩ := Option.map_eq_some_iff.mp hclient
  obtain ⟨hcondemned, hfields⟩ := Prod.mk.inj hfields
  obtain ⟨hopen, hfree⟩ := Prod.mk.inj hfields
  obtain ⟨hread, hlen⟩ := readLoop_replicate (List.length_replicate : chunk.length = readChunkSize) 16385
  have hlong : clientMaxQueryBuf < (readLoop (List.replicate 16385 (.bytes chunk))).1.length := by
    rw [hlen]
    decide
  obtain ⟨⟨⟩, l', hturn, hout⟩ := wp_iff.mp (serverTurn_condemned (e := e) hone hc hcondemned hopen
    (Option.isNone_iff_eq_none.mp hfree) hread hlong)
  refine ⟨l, c, l', hrun, hc, hcondemned, hopen, hturn, ?_⟩
  rw [appends, hout, List.drop_left]

end PulseDB
