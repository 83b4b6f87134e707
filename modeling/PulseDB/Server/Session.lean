import Mathlib.Data.Set.List
import PulseDB.Resp.Frames
import PulseDB.Server.Readable

/-!
# A session from end to end

A client sends commands with `send_command` and reads the replies with `read_reply`. Between the two are the
network, which cuts both streams anywhere, and the event loop with the other clients.

* `Windowed` : the client is never further ahead than the server buffers;
* `Progress.words` : the requests that are parsed are the first commands, and what is buffered is a part of
  the others; `Moves.not_condemn` : such a client is not cut off for an error;
* `InSession` : what holds of a session after every move;
* `session_answered` : the commands are completed in their order, and the values that the client reads are
  those of their replies.
-/

namespace PulseDB
open Lib Lib.Prog

variable {D : Type} [LinearOrder D]

/-! ## What is parsed -/

section Words
variable {argvs : List (List Bytes)} {inp out : Bytes} {done : List (RespValue × Bytes)} {c : Client}

theorem filter_requests (h : ∀ argv ∈ argvs, Sendable argv) :
    (argvs.map RespValue.request).filter (fun req => req.count ≠ 0) = argvs.map RespValue.request := by
  apply List.filter_eq_self.mpr
  intro req hreq
  obtain ⟨argv, hargv, rfl⟩ := List.mem_map.mp hreq
  have hlen : argv.length ≠ 0 := fun hzero => (h argv hargv).nonempty (List.length_eq_zero_iff.mp hzero)
  simpa [RespValue.request, RespValue.count] using hlen

theorem noNullBulk_words (h : ∀ argv ∈ argvs, Sendable argv) (hinp : inp <+: argvs.flatMap sendCommand) :
    NoNullBulk inp := by
  have hframes : ∀ argv ∈ argvs, Frame respParseCommand (.request argv) (sendCommand argv) :=
    fun argv hargv => sendCommand_frame (h argv hargv)
  intro items left hreads hnull
  obtain ⟨k, -, -, -, hleft⟩ := hreads.of_frames respParseCommand_restartable.resumable hframes hinp
  obtain ⟨v, used, hparse, hmem⟩ := hnull.parsed
  rcases frames_next respParseCommand_restartable.resumable
    (fun argv hargv => hframes argv (List.mem_of_mem_drop hargv))
    hleft with hwaits | ⟨argv, _, _, -, -, -, hok⟩
  · cases hparse.symm.trans hwaits
  · cases hparse.symm.trans hok
    obtain ⟨word, -, hword⟩ := List.mem_map.mp hmem
    exact RespValue.not_isBulk_null (hword ▸ RespValue.isBulk_bulk word)

/-- The completed requests and the parked one are the first commands, and a part of the others is buffered. -/
theorem Progress.words (h : Progress inp out done c) (hargvs : ∀ argv ∈ argvs, Sendable argv)
    (hinp : inp <+: argvs.flatMap sendCommand) :
    ∃ k ≤ argvs.length, done.map Prod.fst ++ c.blockedReq.toList = (argvs.take k).map RespValue.request ∧
      inp = (argvs.take k).flatMap sendCommand ++ c.inBuf ∧
      c.inBuf <+: (argvs.drop k).flatMap sendCommand := by
  obtain ⟨items, hreads, hitems, -⟩ := h
  obtain ⟨k, hk, rfl, hsplit, hrest⟩ := hreads.of_frames respParseCommand_restartable.resumable
    (fun argv hargv => sendCommand_frame (hargvs argv hargv)) hinp
  rw [filter_requests fun argv hargv => hargvs argv (List.mem_of_mem_take hargv)] at hitems
  exact ⟨k, hk, hitems.symm, hsplit, hrest⟩

theorem requests_words (h : ∀ argv ∈ argvs, Sendable argv) (hinp : inp <+: argvs.flatMap sendCommand) :
    requests inp <+: argvs.map RespValue.request := by
  obtain ⟨k, -, left, hreads, hwaits, -⟩ := exists_reaches_frames respParseCommand_restartable.resumable
    (fun argv hargv => sendCommand_frame (h argv hargv)) hinp
  rw [requests, drain_of_reaches respParseCommand_restartable.resumable hreads (by simp [hwaits]),
    filter_requests fun argv hargv => h argv (List.mem_of_mem_take hargv)]
  have hfirst := List.take_prefix k argvs
  exact hfirst.map _

/-- When nothing is buffered that could be parsed and nothing is parked, all commands have been completed. -/
theorem Progress.all_words (h : Progress (argvs.flatMap sendCommand) out done c)
    (hargvs : ∀ argv ∈ argvs, Sendable argv)
    (hwaits : respParseCommand c.inBuf = .incomplete) (hfree : c.blockedReq = none) :
    done.map Prod.fst = argvs.map RespValue.request := by
  obtain ⟨items, hreads, hitems, -⟩ := h
  have hwhole := List.prefix_refl (argvs.flatMap sendCommand)
  obtain ⟨k, -, left, hreads', hwaits', hall⟩ := exists_reaches_frames respParseCommand_restartable.resumable
    (fun argv hargv => sendCommand_frame (hargvs argv hargv)) hwhole
  obtain ⟨rfl, -⟩ := hreads.unique hreads' (by simp [hwaits]) (by simp [hwaits'])
  rw [hall rfl, List.take_length, filter_requests hargvs, hfree, Option.toList_none,
    List.append_nil] at hitems
  exact hitems.symm

end Words

/-! ## The moves of a session -/

/-- The client has never sent more than `CLIENT_MAX_QUERY_BUF` bytes beyond the commands that were
completed. -/
def Windowed (i : ℕ) (argvs : List (List Bytes)) (evs : List Move) : Prop :=
  ∀ now, now <+: evs →
    (received i now).length ≤ ((argvs.take (completed i now).length).flatMap sendCommand).length +
      clientMaxQueryBuf

section Moves
variable {e : Env D} {i : ℕ} {argvs : List (List Bytes)} {evs : List Move} {l l' : EventLoop D} {mv : Move}

theorem Moves.not_condemn (hargvs : ∀ argv ∈ argvs, Sendable argv) (h : InOrder i evs l)
    (hinp : received i evs <+: argvs.flatMap sendCommand) (hwindow : Windowed i argvs evs)
      (hmv : Moves e l mv l') :
    mv ≠ .condemn i := by
  rintro rfl
  cases hmv with
  | @refuse _ c hi _ _ hparse =>
    obtain ⟨k, -, -, -, hrest⟩ := (h.progress c hi).words hargvs hinp
    rcases frames_next respParseCommand_restartable.resumable
      (fun argv hargv => sendCommand_frame (hargvs argv (List.mem_of_mem_drop hargv))) hrest with
      hwaits | ⟨_, _, _, -, -, -, hok⟩
    · cases hparse.symm.trans hwaits
    · cases hparse.symm.trans hok
  | @overflow _ c hi hlong =>
    obtain ⟨k, hk, hdone, hsplit, -⟩ := (h.progress c hi).words hargvs hinp
    have hcount : (completed i evs).length ≤ k := by
      have hlen := congrArg List.length hdone
      simp only [List.length_append, List.length_map, List.length_take] at hlen
      omega
    -- the parsed commands have at least the bytes of the completed ones
    have hbytes : ((argvs.take (completed i evs).length).flatMap sendCommand).length ≤
        ((argvs.take k).flatMap sendCommand).length := by
      have hpart : (argvs.take (completed i evs).length).flatMap sendCommand <+:
          (argvs.take k).flatMap sendCommand :=
        (List.take_prefix_take_left hcount).flatMap sendCommand
      exact hpart.length_le
    have hroom := hwindow evs List.prefix_rfl
    rw [hsplit, List.length_append] at hroom
    omega

/-- The replies of completed requests are within the limits of the client. -/
theorem FittingMoves.completes_within (hcfg : e.cfg.Fits) (hl : l.Inv) (hfit : l.RequestsFit)
    (hmv : FittingMoves e l mv l') : ∀ x ∈ mv.completes i, ∃ v : Reply, v.Within respMaxDepth ∧
      x.2 = v.enc := by
  obtain ⟨hmv, hstores⟩ := hmv
  have hreply : ∀ {req : RespValue} {r : CommandResult} {before after : Bytes} {j : ℕ}, Adds r before after →
      ∀ x ∈ (if j = i ∧ r ≠ .blocked then [(req, after.drop before.length)] else []),
        ∃ v : Reply, v.Within respMaxDepth ∧ x.2 = v.enc := by
    intro req r before after j hadds x hx
    split at hx
    case isTrue hr =>
      rw [Adds, if_neg hr.2] at hadds
      obtain ⟨v, hv, rfl⟩ := hadds
      rw [List.drop_left, List.mem_singleton] at hx
      exact ⟨v, hv, by rw [hx]⟩
    case isFalse => exact absurd hx List.not_mem_nil
  cases hmv with
  | @request j c req used buf r s runs hj hfree hopen hparse hcount hbuf hrun hruns =>
    exact hreply (hruns.adds hcfg (hl.sess hj buf) (respParseCommand_parsed hparse) hcount
      (respParseCommand_fits hparse) (hfit j c hj).queued
      (fun store hfinds => hstores store ⟨j, c, buf, rfl, hj, hbuf, hfinds⟩) hrun)
  | @retry j c x timedOut s hj hparked hopen hrun hx =>
    have hstore : l.store.Fits := hstores l.store
      ⟨j, c, c.inBuf, rfl, hj, List.suffix_refl _, [], [x], _, rfl, List.cons_ne_nil _ _, .nil _, rfl⟩
    exact hreply (hx.adds hcfg hl.server.store ((hfit j c hj).parked _ hparked) hstore)
  | _ => exact fun x hx => absurd hx List.not_mem_nil

/-- What holds of a session after every move. -/
structure InSession (i : ℕ) (evs : List Move) (l : EventLoop D) : Prop where
  spared : .condemn i ∉ evs
  inv : l.Inv
  fits : l.RequestsFit
  order : InOrder i evs l
  within : ∀ x ∈ completed i evs, ∃ v : Reply, v.Within respMaxDepth ∧ x.2 = v.enc

theorem inSession_start {store : Store D} (hstore : store.Valid) (i : ℕ) : InSession i [] (.start store) where
  spared := List.not_mem_nil
  inv := EventLoop.inv_start hstore
  fits j c hc := by cases hc
  order := inOrder_start i store
  within x hx := absurd hx List.not_mem_nil

theorem InSession.step (hcfg : e.cfg.Fits) (hargvs : ∀ argv ∈ argvs, Sendable argv) (h : InSession i evs l)
    (hinp : received i evs <+: argvs.flatMap sendCommand) (hwindow : Windowed i argvs evs)
    (hmv : FittingMoves e l mv l') : InSession i (evs ++ [mv]) l' := by
  have hspared := hmv.1.not_condemn hargvs h.order hinp hwindow
  refine ⟨?_, hmv.1.inv h.inv, hmv.1.requestsFit h.inv h.fits,
    h.order.step h.inv (noNullBulk_words hargvs hinp) hspared hmv.1, ?_⟩
  · rw [List.mem_append, List.mem_singleton]
    exact not_or.mpr ⟨h.spared, hspared.symm⟩
  · rw [completed_snoc]
    exact List.forall_mem_append.mpr ⟨h.within, hmv.completes_within hcfg h.inv h.fits⟩

theorem inSession_of_run (hcfg : e.cfg.Fits) {store : Store D} (hstore : store.Valid)
    (hargvs : ∀ argv ∈ argvs, Sendable argv) (hrun : Run (FittingMoves e) (.start store) evs l)
    (hinp : received i evs <+: argvs.flatMap sendCommand) (hwindow : Windowed i argvs evs) :
      InSession i evs l := by
  have hall := hrun.history (P := fun _ => True)
    (fun evs l => received i evs <+: argvs.flatMap sendCommand → Windowed i argvs evs → InSession i evs l)
    (fun evs l mv l' ih _ hmv hinp hwindow => ?_) (fun _ _ => trivial) (fun _ _ => inSession_start hstore i)
  · exact hall hinp hwindow
  · -- a part of the moves so far has received a part of the bytes
    have hinp' : received i evs <+: argvs.flatMap sendCommand := by
      rw [received_snoc] at hinp
      exact List.IsPrefix.trans ⟨_, rfl⟩ hinp
    have hwindow' : Windowed i argvs evs := fun now hnow => hwindow now (hnow.trans ⟨_, rfl⟩)
    exact (ih hinp' hwindow').step hcfg hargvs hinp' hwindow' hmv

theorem InSession.replies (h : InSession i evs l) : ∃ replies : List Reply,
    (∀ v ∈ replies, v.Within respMaxDepth) ∧ (completed i evs).map Prod.snd = replies.map Reply.enc := by
  have hrange : (completed i evs).map Prod.snd ∈
      Set.range (List.map fun v : { v : Reply // v.Within respMaxDepth } => v.1.enc) := by
    rw [Set.range_list_map]
    intro b hb
    obtain ⟨x, hx, rfl⟩ := List.mem_map.mp hb
    obtain ⟨v, hv, heq⟩ := h.within x hx
    exact ⟨⟨v, hv⟩, heq.symm⟩
  obtain ⟨vs, hvs⟩ := hrange
  refine ⟨vs.map Subtype.val, fun v hv => ?_, ?_⟩
  · obtain ⟨w, -, rfl⟩ := List.mem_map.mp hv
    exact w.2
  · rw [← hvs, List.map_map]
    rfl

end Moves

/-! ## What the client reads -/

theorem InSession.sent_prefix {i : ℕ} {evs : List Move} {l : EventLoop D} (h : InSession i evs l)
    {replies : List Reply}
    (hreplies : (completed i evs).map Prod.snd = replies.map Reply.enc) :
      sent i evs <+: replies.flatMap Reply.enc := by
  rw [List.flatMap_def, ← hreplies]
  exact h.order.output

theorem readReplies_part {replies : List Reply} (hreplies : ∀ v ∈ replies, v.Within respMaxDepth)
    {chunks : List Bytes} (hchunks : chunks.flatten <+: replies.flatMap Reply.enc) (calls : ℕ) :
    readReplies calls chunks [] <+: replies.map Reply.value := by
  obtain ⟨-, k, -, hitems, -⟩ :=
    feedAll_frames respParseReply_resumable (fun v hv => Reply.frame (hreplies v hv)) hchunks
  rw [readReplies_eq, repliesLeft_nil, hitems]
  have hread := List.take_prefix calls ((replies.take k).map Reply.value)
  have hfirst := List.take_prefix k replies
  exact hread.trans (hfirst.map _)

theorem readReplies_all {replies : List Reply} (hreplies : ∀ v ∈ replies, v.Within respMaxDepth)
    {chunks : List Bytes} (hchunks : chunks.flatten = replies.flatMap Reply.enc) :
    readReplies replies.length chunks [] = replies.map Reply.value := by
  have hpart : chunks.flatten <+: replies.flatMap Reply.enc := by rw [hchunks]
  obtain ⟨-, k, -, hitems, hall⟩ :=
    feedAll_frames respParseReply_resumable (fun v hv => Reply.frame (hreplies v hv)) hpart
  rw [readReplies_eq, repliesLeft_nil, hitems, hall hchunks, List.take_length, ← List.length_map
    (f := Reply.value), List.take_length]

/-- Every run of the event loop is a run of moves that receive what the sockets gave and send what they took,
and one of `FittingMoves` if each handler finds a store within the limits. In every run of these, let a client
send the commands `argvs` and stay within the window: it is not cut off for an error, the completed requests
are the first commands, in their order, each with one reply, and whatever part of the stream the client has
read, in whatever chunks, gives the values of the first replies. When all has arrived and the server has
nothing left to do for the client, every command has its reply, and the client reads them all. -/
theorem session_answered {e : Env D} (hcfg : e.cfg.Fits) {store : Store D} (hstore : store.Valid)
    {argvs : List (List Bytes)} (hargvs : ∀ argv ∈ argvs, Sendable argv) :
    (∀ polls l, serverRun polls e (.start store) = .ok ((), l) → ∃ evs, Run (Moves e) (.start store) evs l ∧
      (∀ i, traffic i evs = serverTraffic e polls (.start store) i) ∧
      (CallsFit e store evs → Run (FittingMoves e) (.start store) evs l)) ∧
    ∀ evs l i, Run (FittingMoves e) (.start store) evs l → received i evs <+: argvs.flatMap sendCommand →
      Windowed i argvs evs → .condemn i ∉ evs ∧ ∃ replies : List Reply, replies.length ≤ argvs.length ∧
        (completed i evs).map Prod.fst = (argvs.take replies.length).map RespValue.request ∧
        (completed i evs).map Prod.snd = replies.map Reply.enc ∧
        (∀ calls chunks, chunks.flatten <+: sent i evs →
          readReplies calls chunks [] <+: replies.map Reply.value) ∧
        ∀ c, l.clients i = some c → received i evs = argvs.flatMap sendCommand →
          respParseCommand c.inBuf = .incomplete → c.blockedReq = none → c.out = [] →
          replies.length = argvs.length ∧
            ∀ chunks, chunks.flatten = sent i evs →
              readReplies argvs.length chunks [] = replies.map Reply.value := by
  refine ⟨fun polls l h => serverRun_fitting (EventLoop.inv_start hstore) h,
    fun evs l i hrun hinp hwindow => ?_⟩
  have hsession := inSession_of_run hcfg hstore hargvs hrun hinp hwindow
  refine ⟨hsession.spared, ?_⟩
  obtain ⟨replies, hwithin, hencs⟩ := hsession.replies
  have hlen : (completed i evs).length = replies.length := by
    simpa using congrArg List.length hencs
  have hwords : (completed i evs).map Prod.fst <+: argvs.map RespValue.request :=
    hsession.order.done.trans (requests_words hargvs hinp)
  refine ⟨replies, ?_, ?_, hencs, fun calls chunks hchunks => ?_, fun c hi hall hwaits hfree hout => ?_⟩
  · simpa [hlen] using hwords.length_le
  · rw [List.prefix_iff_eq_take.mp hwords, List.length_map, hlen, List.map_take]
  · exact readReplies_part hwithin (hchunks.trans (hsession.sent_prefix hencs)) calls
  · have hprogress := hsession.order.progress c hi
    obtain ⟨_, -, -, hwritten⟩ := hsession.order.progress c hi
    rw [hall] at hprogress
    have hcount : replies.length = argvs.length := by
      rw [← hlen, ← List.length_map (f := Prod.fst), hprogress.all_words hargvs hwaits hfree, List.length_map]
    refine ⟨hcount, fun chunks hchunks => ?_⟩
    rw [← hcount]
    apply readReplies_all hwithin
    rw [hchunks, List.flatMap_def, ← hencs, ← hwritten, hout, List.append_nil]

/-- A client that has sent no more than the window in all is within it. -/
theorem windowed_of_short {i : ℕ} {evs : List Move} (argvs : List (List Bytes))
    (h : (received i evs).length ≤ clientMaxQueryBuf) : Windowed i argvs evs := by
  intro now hnow
  have hpart : received i now <+: received i evs := hnow.flatMap _
  have hle := hpart.length_le
  omega

/-- One `ECHO`: the client reads its text in every cutting of the reply. -/
theorem session_answered_echo :
    let e := Env.integers (fun n => n) fun n => n
    let argv := [ascii "echo", ascii "hello"]
    ∃ evs l c, Run (FittingMoves e) (.start (storeCreate : Store Int)) evs l ∧ l.clients 0 = some c ∧
      received 0 evs = sendCommand argv ∧ c.inBuf = [] ∧ c.blockedReq = none ∧ c.out = [] ∧
      ∃ v : Reply, v.enc = ascii "$5\r\nhello\r\n" ∧
        ∀ chunks : List Bytes, chunks.flatten = ascii "$5\r\nhello\r\n" →
          readReplies 1 chunks [] = [v.value] := by
  intro e argv
  let bytes := sendCommand argv
  let reply := ascii "$5\r\nhello\r\n"
  have hargv : Sendable argv := ⟨by decide, by decide, by decide +kernel⟩
  have hparse : respParseCommand bytes = .ok (.request argv, bytes.length) := by
    simpa using (sendCommand_frame hargv).whole []
  have hacc : Accepted (D := Int) (.request argv) ⟨ascii "echo", 2, some cmdEcho, .normal⟩ :=
    accepted_request (List.mem_of_getElem? (rfl : commandTable[1]? = _)) rfl (by decide)
  obtain ⟨x, s, hx, hruns, l₁, l₂, l, hjoin, hreceive, hrequest, hstore, -, hclient⟩ :=
    exists_first e storeCreate_valid hparse ⟨_, hacc, rfl⟩
  have hended : x.result = .done ∧ s.client.out = reply ∧ s.client.blockedReq.isNone = true := by
    have hrun : (runFound (.request argv) true false e
        { store := storeCreate, client := { inBuf := bytes } }).toOption.map
        (fun p => (p.1, p.2.client.out, p.2.client.blockedReq.isNone)) = some (.done, reply, true) := by
          decide +kernel
    obtain ⟨⟨st, s₁⟩, hok, hend⟩ := ok_of_toOption hrun
    obtain ⟨rfl, hrest⟩ := Prod.mk.inj hend
    obtain ⟨hout, hnone⟩ := Prod.mk.inj hrest
    obtain ⟨hresult, rfl⟩ := hruns.ended hx hok
    exact ⟨hresult, hout, hnone⟩
  obtain ⟨hresult, hout, hnone⟩ := hended
  rw [hresult, hout] at hrequest
  rw [hresult, List.drop_length] at hclient
  have hsend := Moves.send (e := e) hclient reply.length
  have hsent : ({ s.client.processed (.request argv) .done with inBuf := [] } : Client).out = reply := hout
  rw [hsent, List.take_length] at hsend
  let evs : List Move := [.join 0, .receive 0 bytes, .request 0 (.request argv) .done reply [x],
    .send 0 reply]
  have hrun : Run (FittingMoves e) (.start (storeCreate : Store Int)) evs _ :=
    .cons (fittingMoves_of_none hjoin rfl) (.cons (fittingMoves_of_none hreceive rfl)
      (.cons (fittingMoves_of_one hrequest rfl (hstore ▸ storeCreate_fits))
        (.one (fittingMoves_of_none hsend rfl))))
  have hinp : received 0 evs = [argv].flatMap sendCommand := by simp [received, evs, Move.arrives, bytes]
  have hshort : (received 0 evs).length ≤ clientMaxQueryBuf := by
    rw [hinp]
    decide +kernel
  obtain ⟨-, hsession⟩ :=
    session_answered (e := e) configCreateDefault_fits storeCreate_valid (List.forall_mem_singleton.mpr hargv)
  obtain ⟨-, replies, -, -, hencs, -, hall⟩ :=
    hsession evs _ 0 hrun (hinp ▸ List.prefix_refl _) (windowed_of_short [argv] hshort)
  have hfree := Option.isNone_iff_eq_none.mp hnone
  obtain ⟨hone, hread⟩ := hall _ (EventLoop.put_self ..) hinp rfl hfree List.drop_length
  obtain ⟨v, rfl⟩ := List.length_eq_one_iff.mp hone
  have hsame : sent 0 evs = reply := by simp [sent, evs, Move.departs]
  have henc : v.enc = reply := by simpa [completed, evs, Move.completes] using hencs.symm
  exact ⟨evs, _, _, hrun, EventLoop.put_self .., by simpa using hinp, rfl, hfree, List.drop_length, v, henc,
    fun chunks hchunks => hread chunks (hchunks.trans hsame.symm)⟩

end PulseDB
