import PulseDB.Lib.Trace
import PulseDB.Server.Command

/-!
# Runs of the server

The server as a state machine over all its clients. An event is one request processed, one retry of a parked
request, a connection made or lost, or a change of a client's buffers; the event loop of the source makes
these steps in some order and every order is a run here.

* `Step`, `Server.Reachable` : the machine, over any readings of the clocks;
* `Server.Reachable.inv` : what holds in every reachable state;
* `one_reply_per_request`, `errors_change_nothing` : replies in every reachable state.
-/

namespace PulseDB
open Lib Lib.Prog

variable {D : Type} [LinearOrder D]

/-! ## The machine -/

/-- The server: the store, the clients by number, and how many readings of the two clocks have been made. -/
structure Server (D : Type) where
  store : Store D
  clients : ℕ → Option Client
  tick : ℕ := 0
  monoTick : ℕ := 0

/-- The session in which a program of client `c` runs. -/
def Server.sess (srv : Server D) (c : Client) : Sess D := ⟨srv.store, c, srv.tick, srv.monoTick⟩

/-- The server after a program of client `i` has ended in session `s`, and the client is `c`. -/
def Server.put (srv : Server D) (i : ℕ) (s : Sess D) (c : Option Client) : Server D :=
  ⟨s.store, Function.update srv.clients i c, s.tick, s.monoTick⟩

omit [LinearOrder D] in
@[simp] theorem Server.put_self (srv : Server D) (i : ℕ) (s : Sess D) (c : Option Client) :
    (srv.put i s c).clients i = c := Function.update_self ..

omit [LinearOrder D] in
theorem Server.put_other (srv : Server D) {i j : ℕ} (hij : j ≠ i) (s : Sess D) (c : Option Client) :
    (srv.put i s c).clients j = srv.clients j := Function.update_of_ne hij ..

inductive Event where
  | connect (i : ℕ)
  | request (i : ℕ) (req : RespValue) (r : CommandResult)
  | retry (i : ℕ) (timedOut : Bool) (r : CommandResult)
  | buffers (i : ℕ)
  | clock
  | disconnect (i : ℕ)

/-- What `service_blocked` does with the parked request after a retry. -/
def Client.retried (c : Client) (r : CommandResult) : Client :=
  if r = .done then { c with blockedReq := none } else c

theorem Client.retried_eq (c : Client) (r : CommandResult) :
    ∃ parked, c.retried r = { c with blockedReq := parked } := by
  unfold Client.retried
  split
  · exact ⟨_, rfl⟩
  · exact ⟨_, rfl⟩

/-- One step of the server. Requests are processed only for a client that is neither parked nor condemned;
whether a retry comes after the deadline is left open. -/
inductive Step (e : Env D) (srv : Server D) : Event → Server D → Prop
  | connect {i : ℕ} (hi : srv.clients i = none) : Step e srv (.connect i) (srv.put i (srv.sess {}) (some {}))
  | request {i : ℕ} {c : Client} {req : RespValue} {r : CommandResult} {s : Sess D}
      (hi : srv.clients i = some c)
      (hfree : c.blockedReq = none) (hopen : c.closeAfterReply = false) (hreq : req.IsRequest)
      (hrun : commandProcess req e (srv.sess c) = .ok (r, s)) :
      Step e srv (.request i req r) (srv.put i s (some (s.client.processed req r)))
  | retry {i : ℕ} {c : Client} {req : RespValue} {timedOut : Bool} {r : CommandResult} {s : Sess D}
      (hi : srv.clients i = some c) (hparked : c.blockedReq = some req) (hopen : c.closed = false)
      (hrun : commandRetryBlocked req timedOut e (srv.sess c) = .ok (r, s)) :
      Step e srv (.retry i timedOut r) (srv.put i s (some (s.client.retried r)))
  | buffers {i : ℕ} {c : Client} (hi : srv.clients i = some c) (inBuf out : Bytes)
      (closeAfterReply closed : Bool) :
      Step e srv (.buffers i) (srv.put i (srv.sess c)
        (some { c with inBuf := inBuf, out := out, closeAfterReply := closeAfterReply, closed := closed }))
  | clock (n : ℕ) : Step e srv .clock { srv with monoTick := srv.monoTick + n }
  | disconnect {i : ℕ} {c : Client} (hi : srv.clients i = some c) :
    Step e srv (.disconnect i) (srv.put i (srv.sess c) none)

/-- Reachable from a server without clients, with any store the store operations can build. -/
def Server.Reachable (e : Env D) (srv : Server D) : Prop :=
  ∃ (store : Store D) (tick monoTick : ℕ) (evs : List Event), store.Reachable ∧
    Run (Step e) ⟨store, fun _ => none, tick, monoTick⟩ evs srv

/-! ## What holds in every reachable state -/

structure Server.Inv (srv : Server D) : Prop where
  store : srv.store.Valid
  clients : ∀ i c, srv.clients i = some c → c.Inv D

section Inv
variable {e : Env D} {srv srv' : Server D} {ev : Event} {i : ℕ} {c : Client}

theorem Server.Inv.sess (h : srv.Inv) (hi : srv.clients i = some c) : (srv.sess c).Inv :=
  ⟨h.store, h.clients i c hi⟩

theorem Server.Inv.put (h : srv.Inv) {s : Sess D} (hs : s.store.Valid) {o : Option Client}
    (ho : ∀ c ∈ o, c.Inv D) (i : ℕ) :
    (srv.put i s o).Inv := by
  refine ⟨hs, fun j d hj => ?_⟩
  by_cases hij : j = i
  · subst hij
    rw [Server.put_self] at hj
    exact ho d hj
  · rw [Server.put_other srv hij] at hj
    exact h.clients j d hj

theorem Client.inv_init : ({} : Client).Inv D where
  txn := Txn.inv_init
  blocked req hreq := by cases hreq

theorem Client.Inv.processed {req : RespValue} {r : CommandResult} (h : c.Inv D)
    (hr : r = .blocked → Runnable D req) :
    (c.processed req r).Inv D := by
  unfold Client.processed
  split
  · rename_i hb
    refine ⟨h.txn, fun q hq => ?_⟩
    cases hq
    exact hr hb
  · exact h

theorem Client.Inv.retried {r : CommandResult} (h : c.Inv D) : (c.retried r).Inv D := by
  unfold Client.retried
  split
  · exact ⟨h.txn, fun q hq => by cases hq⟩
  · exact h

theorem Server.Inv.processed (h : srv.Inv) (hi : srv.clients i = some c) {req : RespValue} {r : CommandResult}
    {s : Sess D} (hreq : req.IsRequest) (hrun : commandProcess req e (srv.sess c) = .ok (r, s)) :
    Processed e req (srv.sess c) r s :=
  wp_post (commandProcess_wp (h.sess hi) hreq) hrun

theorem Server.Inv.retried (h : srv.Inv) (hi : srv.clients i = some c) {req : RespValue} {timedOut : Bool}
    {r : CommandResult} {s : Sess D} (hparked : c.blockedReq = some req)
    (hrun : commandRetryBlocked req timedOut e (srv.sess c) = .ok (r, s)) :
    ∃ st, r = st.result ∧ Answers e ⟨req, true, timedOut⟩ (srv.sess c) st s :=
  wp_post (commandRetryBlocked_wp (h.sess hi).store ((h.clients i c hi).blocked req hparked) timedOut) hrun

theorem Step.inv (h : srv.Inv) (hstep : Step e srv ev srv') : srv'.Inv := by
  cases hstep with
  | connect hi => exact h.put h.store (fun c hc => by cases hc; exact Client.inv_init) _
  | @request i c req r s hi hfree hopen hreq hrun =>
    have hp := h.processed hi hreq hrun
    have hs := hp.inv (h.sess hi)
    refine h.put hs.store (fun d hd => ?_) _
    cases hd
    exact hs.client.processed fun hr => (hr ▸ hp).blocked
  | @retry i c req timedOut r s hi hparked hopen hrun =>
    obtain ⟨st, -, hans⟩ := h.retried hi hparked hrun
    refine h.put hans.1 (fun d hd => ?_) _
    cases hd
    obtain ⟨ht, hframe⟩ := hans.kept
    have hc := h.clients i c hi
    exact Client.Inv.retried ⟨ht ▸ hc.txn, fun q hq => hc.blocked q (hframe.blockedReq ▸ hq)⟩
  | @buffers i c hi =>
    refine h.put h.store (fun d hd => ?_) _
    cases hd
    exact ⟨(h.clients i c hi).txn, (h.clients i c hi).blocked⟩
  | clock n => exact ⟨h.store, h.clients⟩
  | disconnect hi => exact h.put h.store (fun c hc => by cases hc) _

theorem Server.Reachable.inv (h : srv.Reachable e) : srv.Inv := by
  obtain ⟨store, tick, monoTick, evs, hstore, hrun⟩ := h
  exact hrun.invariant Server.Inv (fun _ _ _ h hstep => hstep.inv h) ⟨hstore.valid, fun i c hc => by cases hc⟩

theorem Server.Reachable.run (h : srv.Reachable e) {evs : List Event} (hrun : Run (Step e) srv evs srv') :
    srv'.Reachable e := by
  obtain ⟨store, tick, monoTick, evs₀, hstore, hrun₀⟩ := h
  exact ⟨store, tick, monoTick, evs₀ ++ evs, hstore, hrun₀.trans hrun⟩

/-- A client that is neither parked nor condemned can have any request processed. -/
theorem Server.Inv.request_step (h : srv.Inv) (hi : srv.clients i = some c) (hfree : c.blockedReq = none)
    (hopen : c.closeAfterReply = false) {req : RespValue} (hreq : req.IsRequest) :
    ∃ r s, Step e srv (.request i req r) (srv.put i s (some (s.client.processed req r))) ∧
      Processed e req (srv.sess c) r s := by
  obtain ⟨r, s, hrun, hp⟩ := wp_iff.mp (commandProcess_wp (e := e) (h.sess hi) hreq)
  exact ⟨r, s, .request hi hfree hopen hreq hrun, hp⟩

/-- The server with one new client. -/
def Server.joined (store : Store D) : Server D := ⟨store, Function.update (fun _ => none) 0 (some {}), 0, 0⟩

theorem Server.joined_reachable (e : Env D) {store : Store D} (h : store.Reachable) :
    (Server.joined store).Reachable e :=
  ⟨store, 0, 0, [.connect 0], h, .one (.connect rfl)⟩

theorem accepted_multi : Accepted (D := D) (.request [ascii "multi"]) ⟨ascii "multi", 1, none, .multi⟩ :=
  accepted_request (List.mem_of_getElem? (rfl : commandTable[40]? = _)) rfl (by simp)

theorem accepted_exec : Accepted (D := D) (.request [ascii "exec"]) ⟨ascii "exec", 1, none, .exec⟩ :=
  accepted_request (List.mem_of_getElem? (rfl : commandTable[41]? = _)) rfl (by simp)

theorem accepted_ping : Accepted (D := D) (.request [ascii "ping"]) ⟨ascii "ping", -1, some cmdPing,
    .normal⟩ :=
  accepted_request (List.mem_of_getElem? (rfl : commandTable[0]? = _)) rfl (by simp)

theorem exists_queued (e : Env D) :
    ∃ srv₁ srv₂ : Server D, ∃ c, Step e (.joined storeCreate)
      (.request 0 (.request [ascii "multi"]) .done) srv₁ ∧
      Step e srv₁ (.request 0 (.request [ascii "ping"]) .queued) srv₂ ∧ srv₂.clients 0 = some c ∧
      c.txn = { cmds := [.request [ascii "ping"]], active := true } ∧ c.blockedReq = none ∧
      c.closeAfterReply = false := by
  have hinv := (Server.joined_reachable e Store.Reachable.create).inv
  obtain ⟨r₁, s₁, hstep₁, hp₁⟩ := hinv.request_step (e := e) (i := 0) (c := {}) rfl rfl rfl
    (accepted_multi (D := D)).request
  obtain ⟨rfl, rfl⟩ := hp₁.by_kind (accepted_multi (D := D))
  obtain ⟨r₂, s₂, hstep₂, hp₂⟩ := (hstep₁.inv hinv).request_step (e := e) (Server.put_self ..) rfl rfl
    (accepted_ping (D := D)).request
  obtain ⟨hfull, -⟩ | ⟨-, rfl, rfl⟩ := hp₂.by_kind (accepted_ping (D := D))
  · exact absurd (show txnMaxCmds ≤ 0 from hfull) (by decide)
  · exact ⟨_, _, _, hstep₁, hstep₂, Server.put_self .., rfl, rfl, rfl⟩

/-! ## Replies -/

/-- Every request is answered with exactly one value, unless it blocks. `EXEC` answers with the array of the
replies of the queued requests. -/
theorem one_reply_per_request (h : srv.Reachable e) (hi : srv.clients i = some c) :
    (∀ req : RespValue, req.IsRequest → ∃ r s, commandProcess req e (srv.sess c) = .ok (r, s) ∧
      (r = .blocked → s.client.out = c.out) ∧
      (r ≠ .blocked → ∃ v : Reply, v.WF ∧ s.client.out = c.out ++ v.enc)) ∧
    (∀ (req : RespValue) (timedOut : Bool), c.blockedReq = some req →
      ∃ r s, commandRetryBlocked req timedOut e (srv.sess c) = .ok (r, s) ∧
        (r = .blocked → s.client.out = c.out) ∧
        (r ≠ .blocked → r = .done ∧ ∃ v : Reply, v.WF ∧ s.client.out = c.out ++ v.enc)) ∧
    (∀ (req : RespValue) (spec : CommandSpec D), Accepted req spec → spec.kind = .exec → c.txn.active = true →
      c.txn.error = false → ∃ vs s s', commandProcess req e (srv.sess c) = .ok (.done, s) ∧
        s.client.out = c.out ++ (Reply.array vs).enc ∧ Reply.WFs vs ∧ vs.length = c.txn.cmds.length ∧
        Serial e c.txn.cmds ((srv.sess c).answered (replyArray c.txn.cmds.length) c.txn) vs s' ∧
        s.store = s'.store) := by
  have hinv := h.inv
  refine ⟨fun req hreq => ?_, fun req timedOut hparked => ?_, fun req spec hacc hkind hactive herror => ?_⟩
  · obtain ⟨r, s, hrun, hp⟩ := wp_iff.mp (commandProcess_wp (e := e) (hinv.sess hi) hreq)
    have hout := hp.outcome
    refine ⟨r, s, hrun, fun hr => ?_, fun hr => hout.value hr⟩
    subst hr
    exact hout.1
  · have hwp := commandRetryBlocked_wp (e := e) (hinv.sess hi).store
      ((hinv.clients i c hi).blocked req hparked) timedOut
    obtain ⟨r, s, hrun, st, rfl, hans⟩ := wp_iff.mp hwp
    refine ⟨st.result, s, hrun, fun hr => ?_, fun hr => ⟨?_, hans.outcome.value hr⟩⟩
    · have hout := hans.outcome
      rw [hr] at hout
      exact hout.1
    · cases st with
      | done => rfl
      | block => exact absurd rfl hr
  · obtain ⟨r, s, hrun, hp⟩ := wp_iff.mp (commandProcess_wp (e := e) (hinv.sess hi) hacc.request)
    have hcase := hp.by_kind hacc
    rw [hkind, show (srv.sess c).client.txn.active = true from hactive] at hcase
    obtain ⟨rfl, ⟨herror', -⟩ | ⟨-, vs, s₁, hserial, rfl⟩⟩ := hcase
    · exact absurd (herror.symm.trans herror') (by decide)
    · refine ⟨vs, _, s₁, hrun, ?_, hserial.wfs, hserial.length, hserial, rfl⟩
      rw [← replyArray_append, hserial.length, ← List.append_assoc]
      exact congrArg Client.out hserial.client

/-- An `EXEC` with a queued request, and a retry of a parked `BLPOP`. -/
theorem one_reply_per_request_exec_retry :
    let e := Env.integers (fun n => n) fun n => n
    (∃ (srv : Server Int) (c : Client) (vs : List Reply) (s : Sess Int), srv.clients 0 = some c ∧
      commandProcess (.request [ascii "exec"]) e (srv.sess c) = .ok (.done, s) ∧
      s.client.out = c.out ++ (Reply.array vs).enc ∧ vs.length = 1) ∧
    (∃ (srv : Server Int) (c : Client) (req : RespValue), srv.clients 0 = some c ∧ c.blockedReq = some req ∧
      ∃ r s, commandRetryBlocked req true e (srv.sess c) = .ok (r, s) ∧
        (r = .blocked → s.client.out = c.out) ∧
        (r ≠ .blocked → r = .done ∧ ∃ v : Reply, v.WF ∧ s.client.out = c.out ++ v.enc)) := by
  intro e
  have hjoined := Server.joined_reachable e (Store.Reachable.create (D := Int))
  constructor
  · obtain ⟨srv₁, srv₂, c, hstep₁, hstep₂, hc, htxn, -, -⟩ := exists_queued e
    have hreach : srv₂.Reachable e := (hjoined.run (.one hstep₁)).run (.one hstep₂)
    obtain ⟨vs, s, -, hrun, hout, -, hlen, -⟩ :=
      (one_reply_per_request hreach hc).2.2 _ _ accepted_exec rfl (by rw [htxn]) (by rw [htxn])
    exact ⟨srv₂, c, vs, s, hc, hrun, hout, by rw [hlen, htxn]; rfl⟩
  · have hblocks : (commandProcess (.request [ascii "blpop", ascii "k", ascii "1"]) e
        ((Server.joined storeCreate).sess {})).toOption.map Prod.fst = some .blocked := by decide +kernel
    obtain ⟨⟨r, s⟩, hrun, rfl⟩ := ok_of_toOption hblocks
    have hreq : (RespValue.request [ascii "blpop", ascii "k", ascii "1"]).IsRequest :=
      RespValue.isRequest_request (by simp)
    have hstep : Step e (Server.joined storeCreate) (.request 0 _ .blocked) _ :=
      .request rfl rfl rfl hreq hrun
    have hreach := hjoined.run (.one hstep)
    have hclient := Server.put_self (Server.joined storeCreate) 0 s
      (some (s.client.processed (.request [ascii "blpop", ascii "k", ascii "1"]) .blocked))
    exact ⟨_, _, _, hclient, rfl, (one_reply_per_request hreach hclient).2.1 _ true rfl⟩

/-- A command whose reply is an error leaves every cell as it is, except that cells whose expiry has passed
may be gone: for a request, for a retry, and for a command run in any context on any store. -/
theorem errors_change_nothing (h : srv.Reachable e) (hi : srv.clients i = some c) :
    (∀ (req : RespValue) (r : CommandResult) (s : Sess D), req.IsRequest →
      commandProcess req e (srv.sess c) = .ok (r, s) → (s.client.out.drop c.out.length).head? = some 45 →
      Purged e (srv.sess c) s) ∧
    (∀ (req : RespValue) (timedOut : Bool) (r : CommandResult) (s : Sess D), c.blockedReq = some req →
      commandRetryBlocked req timedOut e (srv.sess c) = .ok (r, s) →
      (s.client.out.drop c.out.length).head? = some 45 → Purged e (srv.sess c) s) ∧
    (∀ (s₀ : Sess D) (req : RespValue) (canBlock timedOut : Bool) (st : CmdStatus) (s : Sess D),
      s₀.store.Reachable → Runnable D req → runFound req canBlock timedOut e s₀ = .ok (st, s) →
      (s.client.out.drop s₀.client.out.length).head? = some 45 → Purged e s₀ s) := by
  have hinv := h.inv
  refine ⟨fun req r s hreq hrun hb => ?_, fun req timedOut r s hparked hrun hb => ?_,
    fun s₀ req canBlock timedOut st s hs₀ hreq hrun hb => ?_⟩
  · exact (hinv.processed hi hreq hrun).outcome.purged hb
  · obtain ⟨st, rfl, hans⟩ := hinv.retried hi hparked hrun
    exact hans.outcome.purged hb
  · exact (wp_post (runFound_wp hreq hs₀.valid canBlock timedOut) hrun).outcome.purged hb

/-- The command `INCR` of a text. -/
theorem errors_change_nothing_incr :
    let e := Env.integers (fun n => n) fun n => n
    let srv := Server.joined (StoreOp.exec (storeCreate : Store Int) (ascii "a") 0 0 (.set (ascii "x") 5)).2
    ∃ r s, commandProcess (.request [ascii "incr", ascii "a"]) e (srv.sess {}) = .ok (r, s) ∧
      s.client.out.head? = some 45 ∧ Purged e (srv.sess {}) s := by
  intro e srv
  have hout : (commandProcess (.request [ascii "incr", ascii "a"]) e (srv.sess {})).toOption.map
      (fun p => p.2.client.out.head?) = some (some 45) := by decide +kernel
  obtain ⟨⟨r, s⟩, hrun, hhead⟩ := ok_of_toOption hout
  have hreach : srv.Reachable e := Server.joined_reachable e (Store.Reachable.create.exec _ _ _ _)
  refine ⟨r, s, hrun, hhead, ?_⟩
  have hi : srv.clients 0 = some {} := rfl
  exact (errors_change_nothing hreach hi).1 _ r s (RespValue.isRequest_request (by simp)) hrun hhead

end Inv
end PulseDB
