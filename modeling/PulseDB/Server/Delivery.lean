import PulseDB.Cmd.Queue
import PulseDB.Server.Pipeline
import Mathlib.Data.Multiset.AddSub

/-!
# Delivery of list elements

The calls of handlers in a run of the event loop are, seen from the lists, operations on double-ended queues.

* `Execution.deque` : the operation a call has made; `Runs.deque` : it has made it;
* `serves_deques` : the lists over a sequence of calls;
* `list_elements_conserved` : no element is lost and none is delivered twice;
* `pipeline_in_order` : the replies of a client come in the order of its requests, also around a parked one.
-/

namespace PulseDB
open Lib Lib.Prog

variable {D : Type} [LinearOrder D]

/-! ## The calls as operations on queues -/

/-- What the command of a request does to lists. -/
def RespValue.action (req : RespValue) : ListAction := listAction (req.name.map toLower)

/-- The operation on the lists that a call has made. -/
def Execution.deque (x : Execution) : DequeOp Bytes Bytes := dequeOp x.req.action x.req.args x.reply

/-- The call is one of `DEL` or `SET` with the key among those it replaces. -/
def Execution.Overwrites (x : Execution) (k : Bytes) : Prop := PulseDB.Overwrites x.req.action x.req.args k

/-- The call is one of `LPUSH` or `RPOP` on the key. -/
def Execution.OtherEnd (x : Execution) (k : Bytes) : Prop :=
  (x.req.action = .push true ∨ x.req.action = .pop false) ∧ x.req.args.getD 1 [] = k

section Deque
variable {e : Env D} {canBlock timedOut : Bool} {s s' : Sess D} {x : Execution} {k : Bytes}

theorem Execution.fifo (h : ¬ x.OtherEnd k) : x.deque.Fifo k := by
  unfold Execution.OtherEnd at h
  unfold Execution.deque dequeOp
  split
  · rename_i atHead n haction hreply
    intro hk
    cases atHead with
    | false => rfl
    | true => exact absurd ⟨Or.inl haction, hk⟩ h
  · rename_i atHead value haction hreply
    intro hk
    cases atHead with
    | false => exact absurd ⟨Or.inr haction, hk⟩ h
    | true => rfl
  · exact fun _ => rfl
  · trivial

/-- What the handler of the command guarantees of the reply it writes, if any, holds of the reply of the
call. -/
theorem Runs.told {Q : Option Reply → Sess D → Prop} (hv : s.store.Valid)
    (h : Runs e canBlock timedOut s x s')
    (hproc : ∀ (spec : CommandSpec D) (proc : CommandCtx → Cmd D CmdStatus), spec ∈ commandTable →
      spec.kind = .normal →
      spec.name = x.req.name.map toLower → spec.proc = some proc → x.req.Clean →
      spec.arity.natAbs ≤ x.req.count →
      wp (proc ⟨x.req, canBlock, timedOut⟩) e s fun st s' => ∃ o, Wrote s st o s' ∧ Q o s') :
    s'.store.Valid ∧ Q x.reply s' := by
  obtain ⟨spec, hacc, hkind⟩ := h.runnable
  obtain ⟨hmem, hname⟩ := commandLookup_some hacc.found
  obtain ⟨proc, hp, -⟩ := commandTable_serving spec hmem hkind
  have hwp := hproc spec proc hmem hkind hname hp hacc.clean (arityOk_le hacc.arity)
  have hpost : ∀ st, runFound x.req canBlock timedOut e s = .ok (st, s') →
      s'.store.Valid ∧ ∃ o, Wrote s st o s' ∧ Q o s' := by
    intro st hst
    have hvalid := (wp_post (runFound_wp h.runnable hv canBlock timedOut) hst).1
    rw [runFound_of_accepted hacc, run, hp] at hst
    exact ⟨hvalid, wp_post hwp hst⟩
  cases h with
  | @done req v s' hreq hrun hwf hout =>
    obtain ⟨hvalid, o, hwrote, hQ⟩ := hpost .done hrun
    cases o with
    | none => exact absurd hwrote id
    | some w =>
      have henc : v.enc = w.enc := List.append_cancel_left (hout.symm.trans hwrote.2)
      rw [← Reply.eq_of_enc hwf hwrote.1 henc] at hQ
      exact ⟨hvalid, hQ⟩
  | block hreq hrun =>
    obtain ⟨hvalid, o, hwrote, hQ⟩ := hpost .block hrun
    cases o with
    | none => exact ⟨hvalid, hQ⟩
    | some w => exact absurd hwrote id

theorem Runs.deque (hv : s.store.Valid) (h : Runs e canBlock timedOut s x s') :
    s'.store.Valid ∧ ∀ k, ¬ x.Overwrites k → x.deque.At k (s.store.listAt k) (s'.store.listAt k) := by
  refine h.told (Q := fun o s' => ∀ k, ¬ x.Overwrites k →
    (dequeOp x.req.action x.req.args o).At k (s.store.listAt k) (s'.store.listAt k)) hv
    fun spec proc hmem hkind hname hproc hclean harity => ?_
  obtain ⟨proc', hproc', hacts⟩ := commandTable_acts spec hmem hkind
  obtain rfl : proc = proc' := Option.some.inj (hproc.symm.trans hproc')
  rw [hname] at hacts
  exact hacts ⟨x.req, canBlock, timedOut⟩ e s hclean harity hv

/-- The list under a key over a sequence of calls that do not overwrite it. -/
theorem serves_deques {store store' : Store D} {xs : List Execution} (h : Run (Serves e) store xs store')
    (hv : store.Valid) (hk : ∀ x ∈ xs, ¬ x.Overwrites k) :
    store'.Valid ∧ Run (DequeOp.At k) (store.listAt k) (xs.map Execution.deque) (store'.listAt k) := by
  induction h with
  | nil => exact ⟨hv, .nil _⟩
  | @snoc store₁ store₂ xs x _ hx ih =>
    obtain ⟨hv₁, hrun₁⟩ := ih fun x hx => hk x (List.mem_append_left _ hx)
    obtain ⟨canBlock, timedOut, s, s', rfl, rfl, hruns⟩ := hx
    obtain ⟨hv₂, hat⟩ := hruns.deque hv₁
    rw [List.map_append]
    exact ⟨hv₂, hrun₁.snoc (hat k (hk x (List.mem_append_right _ (List.mem_singleton_self x))))⟩

end Deque

/-! ## Conservation -/

/-- The values pushed under a key, in the order of the calls. -/
def pushed (k : Bytes) (evs : List Move) : List Bytes := (calls evs).flatMap fun x => x.deque.pushed k

/-- The values written into replies as popped under a key, in the order of the calls. -/
def popped (k : Bytes) (evs : List Move) : List Bytes := (calls evs).flatMap fun x => x.deque.popped k

/-- Every run of the event loop is a run of moves with its traffic. In every run of moves, for a key that no
call of `DEL` or `SET` touches: the values that were pushed, with those there at the start, are the values written into pop
replies and those still in the list, each as often; and if no call of `LPUSH` or `RPOP` is on the key, the
values are popped in the order in which they were pushed. -/
theorem list_elements_conserved (e : Env D) {store : Store D} (hstore : store.Reachable) :
    (∀ polls l, serverRun polls e (.start store) = .ok ((), l) → ∃ evs, Run (Moves e) (.start store) evs l ∧
      ∀ i, traffic i evs = serverTraffic e polls (.start store) i) ∧
    ∀ evs l, Run (Moves e) (.start store) evs l → ∀ k : Bytes, (∀ x ∈ calls evs, ¬ x.Overwrites k) →
      (store.listAt k : Multiset Bytes) + (pushed k evs : Multiset Bytes) =
        (popped k evs : Multiset Bytes) + (l.store.listAt k : Multiset Bytes) ∧
      ((∀ x ∈ calls evs, ¬ x.OtherEnd k) →
        store.listAt k ++ pushed k evs = popped k evs ++ l.store.listAt k) := by
  have hinv := EventLoop.inv_start hstore.valid
  refine ⟨fun polls l hrun => serverRun_moves hinv hrun, fun evs l hrun k hk => ?_⟩
  obtain ⟨-, hdeques⟩ := serves_deques (runMoves_serves hrun) hstore.valid hk
  refine ⟨?_, fun hends => ?_⟩
  · have hperm := deque_perm hdeques
    rw [List.flatMap_map, List.flatMap_map] at hperm
    exact Multiset.coe_eq_coe.mpr hperm
  · have hfifo := deque_fifo hdeques fun op hop => ?_
    · rw [List.flatMap_map, List.flatMap_map] at hfifo
      exact hfifo
    · obtain ⟨x, hx, rfl⟩ := List.mem_map.mp hop
      exact x.fifo (hends x hx)

/-- A client pushes two values and pops one. -/
theorem list_elements_conserved_lpop :
    let e := Env.integers (fun n => n) fun n => n
    ∃ evs l, Run (Moves e) (.start storeCreate) evs l ∧ pushed (ascii "k") evs = [ascii "a", ascii "b"] ∧
      popped (ascii "k") evs = [ascii "a"] ∧ l.store.listAt (ascii "k") = [ascii "b"] := by
  intro e
  let push := RespValue.request [ascii "rpush", ascii "k", ascii "a", ascii "b"]
  let pop := RespValue.request [ascii "lpop", ascii "k"]
  let bytes := ascii "rpush k a b\r\nlpop k\r\n"
  have hpush : respParseCommand bytes = .ok (push, 13) := rfl
  have hpop : respParseCommand (ascii "lpop k\r\n") = .ok (pop, 8) := rfl
  have hpushes : Accepted (D := Int) push ⟨ascii "rpush", -3, some cmdRpush, .normal⟩ :=
    accepted_request (List.mem_of_getElem? (rfl : commandTable[16]? = _)) rfl (by decide)
  have hpops : Accepted (D := Int) pop ⟨ascii "lpop", 2, some cmdLpop, .normal⟩ :=
    accepted_request (List.mem_of_getElem? (rfl : commandTable[17]? = _)) rfl (by decide)
  obtain ⟨x, s, hx, hruns, l₁, l₂, l, hjoin, hreceive, hrequest, -, hsess, hc⟩ :=
    exists_first e storeCreate_valid hpush ⟨_, hpushes, rfl⟩
  -- the two calls, one after the other
  have hcalls : (runFound push true false e
      { store := storeCreate, client := { inBuf := bytes } }).toOption.map (fun p =>
      (p.1, p.2.client.out,
        p.2.client.blockedReq.isNone && !p.2.client.closeAfterReply && !p.2.client.txn.active,
        (runFound pop true false e
          { p.2 with client := { p.2.client with inBuf := ascii "lpop k\r\n" } }).toOption.map
          fun q => (q.1, q.2.client.out))) =
      some (.done, (Reply.integer 2).enc, true,
        some (.done, (Reply.integer 2).enc ++ (Reply.bulk (ascii "a")).enc)) := by decide +kernel
  obtain ⟨⟨_, s₁⟩, hfirst, hleft⟩ := ok_of_toOption hcalls
  obtain ⟨rfl, hout, hidle, hnext⟩ := by simpa only [Prod.mk.injEq] using hleft
  obtain ⟨⟨_, s₂⟩, hsecond, hlast⟩ := ok_of_toOption hnext
  obtain ⟨rfl, hout₂⟩ := Prod.mk.inj hlast
  obtain ⟨hresult, rfl⟩ := hruns.ended hx hfirst
  have hreply : x.reply = some (.integer 2) := hruns.replied hx hfirst trivial hout
  simp only [Bool.and_eq_true, Bool.not_eq_true', Option.isNone_iff_eq_none] at hidle
  obtain ⟨⟨hfree, hopen⟩, hinactive⟩ := hidle
  rw [hresult, Client.processed, if_neg (by decide)] at hc
  have hinv := hrequest.inv (hreceive.inv (hjoin.inv (EventLoop.inv_start storeCreate_valid)))
  obtain ⟨y, s₃, hy, hyruns, hrequest₂⟩ := exists_request (e := e) hinv hc hfree hopen hinactive hpop
    ⟨_, hpops, rfl⟩
  rw [hsess] at hyruns
  have hreply₂ : y.reply = some (.bulk (ascii "a")) :=
    hyruns.replied hy hsecond trivial (hout₂.trans (congrArg (· ++ _) hout.symm))
  have haction : x.req.action = .push false := by
    rw [hx]
    decide
  have haction₂ : y.req.action = .pop true := by
    rw [hy]
    decide
  have hdeque : x.deque = .push (ascii "k") [ascii "a", ascii "b"] false := by
    rw [Execution.deque, haction, hreply, hx]
    rfl
  have hdeque₂ : y.deque = .pop (ascii "k") (ascii "a") true := by
    rw [Execution.deque, haction₂, hreply₂, hy]
    rfl
  let evs : List Move := [.join 0, .receive 0 bytes, .request 0 push x.result s.client.out [x],
    .request 0 pop y.result (s₃.client.out.drop s.client.out.length) [y]]
  have hrun : Run (Moves e) (.start storeCreate) evs _ :=
    .cons hjoin (.cons hreceive (.cons hrequest (.one hrequest₂)))
  have hpushed : pushed (ascii "k") evs = [ascii "a", ascii "b"] := by
    show x.deque.pushed (ascii "k") ++ (y.deque.pushed (ascii "k") ++ []) = _
    rw [hdeque, hdeque₂]
    rfl
  have hpopped : popped (ascii "k") evs = [ascii "a"] := by
    show x.deque.popped (ascii "k") ++ (y.deque.popped (ascii "k") ++ []) = _
    rw [hdeque, hdeque₂]
    rfl
  have hthese : ∀ z ∈ calls evs, ¬ z.Overwrites (ascii "k") ∧ ¬ z.OtherEnd (ascii "k") := by
    have hboth : calls evs = [x, y] := rfl
    rw [hboth, List.forall_mem_cons, List.forall_mem_singleton]
    unfold Execution.Overwrites Execution.OtherEnd
    rw [haction, haction₂]
    exact ⟨⟨id, fun h => absurd h.1 (by decide)⟩, ⟨id, fun h => absurd h.1 (by decide)⟩⟩
  obtain ⟨-, hfifo⟩ := (list_elements_conserved e Store.Reachable.create).2 evs _ hrun (ascii "k") fun z hz =>
    (hthese z hz).1
  have hlist := hfifo fun z hz => (hthese z hz).2
  rw [hpushed, hpopped] at hlist
  exact ⟨evs, _, hrun, hpushed, hpopped, (List.cons.inj hlist).2.symm⟩

/-! ## Order around a parked request -/

/-- At most one element has been popped, from the head of one list, and the other lists are as they were. -/
def PopsAtMostOne (store store' : Store D) : Prop :=
  ∃ k, (∀ k', k' ≠ k → store'.listAt k' = store.listAt k') ∧
    (store'.listAt k = store.listAt k ∨ ∃ v, store.listAt k = v :: store'.listAt k)

omit [LinearOrder D] in
theorem PopsAtMostOne.of_same {store store' : Store D} (h : ∀ k, store'.listAt k = store.listAt k) :
    PopsAtMostOne store store' :=
  ⟨[], fun k _ => h k, .inl (h [])⟩

section Order
variable {e : Env D} {s s' : Sess D} {x : Execution} {req : RespValue} {r : CommandResult}
  {xs : List Execution}

theorem Runs.blocked {canBlock timedOut : Bool} (hv : s.store.Valid) (h : Runs e canBlock timedOut s x s')
    (hx : x.result = .blocked) (k : Bytes) : s'.store.listAt k = s.store.listAt k := by
  cases h with
  | done => cases hx
  | block hreq hrun =>
    obtain ⟨-, -, -, -, hpurged, -⟩ := wp_post (runFound_wp hreq hv canBlock timedOut) hrun
    exact hpurged.listAt hv k

theorem Runs.blpop {canBlock timedOut : Bool} (hv : s.store.Valid) (h : Runs e canBlock timedOut s x s')
    (hx : x.req.action = .blpop) : PopsAtMostOne s.store s'.store := by
  obtain ⟨-, hat⟩ := h.deque hv
  unfold Execution.Overwrites Execution.deque at hat
  rw [hx] at hat
  have hat' := fun k => hat k id
  unfold dequeOp at hat'
  split at hat'
  · rename_i haction hreply
    cases haction
  · rename_i haction hreply
    cases haction
  · rename_i key value haction hreply
    refine ⟨key, fun k hk => ?_, Or.inr ⟨value, ?_⟩⟩
    · have hpop := hat' k
      change s.store.listAt k = if key = k then _ else _ at hpop
      rw [if_neg fun heq => hk heq.symm] at hpop
      exact hpop.symm
    · have hpop := hat' key
      change s.store.listAt key = if key = key then _ else _ at hpop
      rw [if_pos rfl] at hpop
      exact hpop
  · exact .of_same hat'

/-- The commands of kind `KIND_EXEC` do nothing to lists by themselves. -/
theorem exec_action : ∀ spec ∈ commandTable (D := D), spec.kind = .exec → listAction spec.name = .other := by
  simp only [commandTable, List.forall_mem_cons, List.not_mem_nil, false_imp_iff, implies_true,
    and_true, true_and, reduceCtorEq, true_imp_iff]
  decide

theorem Executes.blocked (hv : s.store.Valid) (h : Executes e req s r s' xs) (hr : r = .blocked) (k : Bytes) :
    s'.store.listAt k = s.store.listAt k := by
  cases h with
  | own _ _ hx => exact hx.blocked hv hr k
  | queue => cases hr
  | nothing _ _ hne => exact absurd hr hne

theorem Executes.blpop (hv : s.store.Valid) (h : Executes e req s r s' xs) (haction : req.action = .blpop) :
    PopsAtMostOne s.store s'.store := by
  cases h with
  | own _ hreq hx => exact hx.blpop hv (hreq ▸ haction)
  | @queue spec _ _ hacc hkind =>
    obtain ⟨hmem, hname⟩ := commandLookup_some hacc.found
    have hother := exec_action spec hmem hkind
    rw [hname] at hother
    exact absurd (haction.symm.trans hother) (by decide)
  | nothing _ _ _ hstore => exact .of_same fun k => by rw [hstore]

variable {l l' : EventLoop D} {mv : Move} {i : ℕ}

theorem Moves.takes_lists (hl : l.Inv) (hmv : Moves e l mv l') (htakes : mv.takes i = some req) :
    (mv.completes i = [] → ∀ k, l'.store.listAt k = l.store.listAt k) ∧
      (req.action = .blpop → PopsAtMostOne l.store l'.store) := by
  cases hmv with
  | @request j c req' used buf r s runs hi hfree hopen hparse hcount hbuf hrun hruns =>
    obtain ⟨rfl, rfl⟩ := Option.ite_some_none_eq_some.mp htakes
    refine ⟨fun hnone k => hruns.blocked hl.server.store ?_ k, fun haction =>
      hruns.blpop hl.server.store haction⟩
    by_contra hr
    change (if j = j ∧ r ≠ .blocked then _ else _) = _ at hnone
    rw [if_pos ⟨rfl, hr⟩] at hnone
    cases hnone
  | @retry j c x timedOut s hi hparked hopen hrun hx =>
    obtain ⟨rfl, rfl⟩ := Option.ite_some_none_eq_some.mp htakes
    refine ⟨fun hnone k => hx.blocked hl.server.store ?_ k, fun haction => hx.blpop hl.server.store haction⟩
    by_contra hr
    change (if j = j ∧ x.result ≠ .blocked then _ else _) = _ at hnone
    rw [if_pos ⟨rfl, hr⟩] at hnone
    cases hnone
  | _ => cases htakes

end Order

/-- Every run of the event loop is a run of moves with its traffic. In every run of moves, for a client that
sends no null bulk string and whose connection does not end for an error:

* the requests completed so far come first among those received, in their order, each with one reply;
* the bytes sent are the beginning of the replies of the completed requests, one after the other, and what is
  left of them is in the output buffer;
* a parked request is the first that is not completed, and only it can be executed;
* each request is executed when it is the first that is not completed, and an execution that does not complete
  it leaves the lists as they are; one of `BLPOP` pops at most one element. -/
theorem pipeline_in_order (e : Env D) {store : Store D} (hstore : store.Reachable) :
    (∀ polls l, serverRun polls e (.start store) = .ok ((), l) → ∃ evs, Run (Moves e) (.start store) evs l ∧
      ∀ i, traffic i evs = serverTraffic e polls (.start store) i) ∧
    ∀ evs l, Run (Moves e) (.start store) evs l → ∀ i, NoNullBulk (received i evs) →
      (∀ mv ∈ evs, mv ≠ .condemn i) →
      ((completed i evs).map Prod.fst <+: requests (received i evs) ∧
        ∀ x ∈ completed i evs, ∃ v : Reply, v.WF ∧ x.2 = v.enc) ∧
      (sent i evs <+: ((completed i evs).map Prod.snd).flatten ∧
        ∀ c, l.clients i = some c → sent i evs ++ c.out = ((completed i evs).map Prod.snd).flatten) ∧
      (∀ c req, l.clients i = some c → c.blockedReq = some req →
        (requests (received i evs))[(completed i evs).length]? = some req ∧
        ∀ mv l' req', Moves e l mv l' → mv.takes i = some req' → req' = req) ∧
      ∀ evs₁ mv evs₂ req, evs = evs₁ ++ mv :: evs₂ → mv.takes i = some req →
        (requests (received i evs₁))[(completed i evs₁).length]? = some req ∧
        ∃ l₁ l₂, Run (Moves e) (.start store) evs₁ l₁ ∧ Moves e l₁ mv l₂ ∧ Run (Moves e) l₂ evs₂ l ∧
          (mv.completes i = [] → ∀ k, l₂.store.listAt k = l₁.store.listAt k) ∧
          (req.action = .blpop → PopsAtMostOne l₁.store l₂.store) := by
  have hinv := EventLoop.inv_start hstore.valid
  refine ⟨fun polls l hrun => serverRun_moves hinv hrun, fun evs l hrun i hnull hok => ?_⟩
  obtain ⟨-, horder⟩ := inOrder_of_run hstore.valid hrun hnull hok
  refine ⟨⟨horder.done, horder.replies⟩, ⟨horder.output, fun c hc => ?_⟩, fun c req hc hparked => ?_,
    fun evs₁ mv evs₂ req hevs htakes => ?_⟩
  · obtain ⟨items, -, -, hout⟩ := horder.progress c hc
    exact hout
  · have hnext := (horder.progress c hc).parked hparked
    refine ⟨hnext, fun mv l' req' hmv htakes => ?_⟩
    exact Option.some.inj ((horder.takes hmv htakes).symm.trans hnext)
  · subst hevs
    obtain ⟨l₁, l₂, hrun₁, hmv, hrun₂⟩ := hrun.split
    have hrecv : received i (evs₁ ++ mv :: evs₂) = received i evs₁ ++ received i (mv :: evs₂) :=
      List.flatMap_append
    rw [hrecv] at hnull
    obtain ⟨hl₁, horder₁⟩ := inOrder_of_run hstore.valid hrun₁ hnull.of_append fun mv' hmem =>
      hok mv' (List.mem_append_left _ hmem)
    exact ⟨horder₁.takes hmv htakes, l₁, l₂, hrun₁, hmv, hrun₂, hmv.takes_lists hl₁ htakes⟩

/-- A `BLPOP` on an empty list, and a `PING` behind it. -/
theorem pipeline_in_order_parked :
    let e := Env.integers (fun n => n) fun n => n
    let blpop := RespValue.request [ascii "blpop", ascii "k", ascii "0"]
    ∃ evs l c, Run (Moves e) (.start storeCreate) evs l ∧ received 0 evs = ascii "blpop k 0\r\nping\r\n" ∧
      l.clients 0 = some c ∧ c.inBuf = ascii "ping\r\n" ∧ (requests (received 0 evs))[0]? = some blpop ∧
      sent 0 evs ++ c.out = [] ∧ ∀ mv l' req, Moves e l mv l' → mv.takes 0 = some req → req = blpop := by
  intro e blpop
  let bytes := ascii "blpop k 0\r\nping\r\n"
  have hparse : respParseCommand bytes = .ok (blpop, 11) := rfl
  have hping : respParseCommand (ascii "ping\r\n") = .ok (.request [ascii "ping"], 6) := rfl
  have hacc : Accepted (D := Int) blpop ⟨ascii "blpop", -3, some cmdBlpop, .normal⟩ :=
    accepted_request (List.mem_of_getElem? (rfl : commandTable[21]? = _)) rfl (by decide)
  obtain ⟨x, s, hx, hruns, l₁, l₂, l, hjoin, hreceive, hrequest, -, -, hc⟩ :=
    exists_first e storeCreate_valid hparse ⟨_, hacc, rfl⟩
  -- the call blocks
  have hblocked : x.result = .blocked := by
    have hout : (runFound blpop true false e
        { store := storeCreate, client := { inBuf := bytes } }).toOption.map
        Prod.fst = some .block := by decide +kernel
    obtain ⟨⟨st, s₁⟩, hok, rfl⟩ := ok_of_toOption hout
    exact (hruns.ended hx hok).1
  rw [hblocked] at hrequest hc
  let evs : List Move := [.join 0, .receive 0 bytes, .request 0 blpop .blocked s.client.out [x]]
  have hrun : Run (Moves e) (.start storeCreate) evs l := .cons hjoin (.cons hreceive (.one hrequest))
  have hnull : NoNullBulk bytes := by
    have hinline : ∀ r : Bytes, r.head? ≠ some 42 → ¬ HasNullBulk r := by
      rintro r hr ⟨vs, ws, header, before, nullLine, after, rest, -, -, -, -, -, rfl⟩
      exact hr rfl
    rintro items r (_ | ⟨hp, hr⟩)
    · exact hinline _ (by decide)
    · cases hparse.symm.trans hp
      rcases hr with _ | ⟨hp', hr'⟩
      · exact hinline _ (by decide)
      · cases hping.symm.trans hp'
        rcases hr' with _ | ⟨hp'', -⟩
        · exact hinline _ (by decide)
        · cases hp''
  have hok : ∀ mv ∈ evs, mv ≠ .condemn 0 := by
    intro mv hmv hcondemn
    subst hcondemn
    simp [evs] at hmv
  obtain ⟨-, ⟨-, hout⟩, hparked, -⟩ := (pipeline_in_order e Store.Reachable.create).2 evs l hrun 0 hnull hok
  obtain ⟨hnext, hmoves⟩ := hparked _ blpop hc rfl
  exact ⟨evs, l, _, hrun, rfl, hc, rfl, hnext, hout _ hc, hmoves⟩

end PulseDB
