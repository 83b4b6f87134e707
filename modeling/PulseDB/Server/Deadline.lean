import PulseDB.Exact
import PulseDB.Server.Closing
import PulseDB.Server.Delivery

/-!
# The deadline of a parked request

`cmd_blpop` sets the deadline when it asks for the client to be parked, and keeps it in every retry;
`service_blocked` compares it with the time of its pass.

* `cmdBlpop_wlp` : what `cmd_blpop` does to the deadline, and when it writes a null array;
* `Clocked` : the moves of the loop, where a retry heeds the deadline at the time of its pass;
* `Waiting` : a client that is parked keeps its request and its deadline;
* `blpop_deadline_iff` : a `BLPOP` never times out early exactly if its deadline is an `int64_t`.
-/

namespace PulseDB
open Lib Lib.Prog

variable {D : Type} [LinearOrder D]

/-! ## The command -/

section Blpop
variable {e : Env D} {ctx : CommandCtx} {s : Sess D}

/-- The key loop writes no null array; if it writes nothing, it changes neither the client nor the clock. -/
theorem blpopKeys_wlp : wlp (blpopKeys ctx) e s fun r s' =>
    match r with
    | .inl st => st = .done ∧ ∃ b, b ≠ replyNullArray ∧ s'.client.out = s.client.out ++ b
    | .inr _ => s'.client = s.client ∧ s'.monoTick = s.monoTick := by
  unfold blpopKeys
  refine wlp_forFrom (fun _ _ s' => s'.client = s.client ∧ s'.monoTick = s.monoTick) ⟨rfl, rfl⟩
    (fun i _ s₁ h₁ _ => ?_) fun _ _ _ h _ => h
  obtain ⟨hclient, hmono⟩ := h₁
  rw [wlp_bind]
  refine wlp_mono arg_wlp fun key s₂ ⟨hs₂, _⟩ => ?_
  subst hs₂
  rw [wlp_bind]
  refine wlp_of_wp (wp_step.mpr ?_)
  split
  · refine wlp_of_wp ⟨rfl, replyError errWrongtype, by decide, ?_⟩
    rw [← hclient]
  · rename_i value _
    refine wlp_of_wp ⟨rfl, replyArray 2 ++ replyBulkCstr key ++ replyBulkCstr value, fun hnull => ?_, ?_⟩
    · have hsecond : (replyArray 2)[1]? = replyNullArray[1]? := by
        rw [← hnull, List.append_assoc, List.getElem?_append_left (by decide)]
      exact absurd hsecond (by decide)
    · rw [← hclient]
  · exact wlp_pure _ ⟨Nat.lt_succ_self i, hclient, hmono⟩

/-- A null array is written only by a call that may not block or has timed out; a call that blocks sets the
deadline of a client that is not parked. -/
theorem cmdBlpop_wlp : wlp (cmdBlpop ctx) e s fun st s' =>
    match st with
    | .done => ∃ b, s'.client.out = s.client.out ++ b ∧
        (b = replyNullArray → (!ctx.canBlock || ctx.timedOut) = true)
    | .block => ∃ text timeout, ctx.argStr (ctx.argc - 1) = some text ∧
        parseDouble e.libc text = some timeout ∧ ¬ timeout < e.libc.lit "0" ∧
        s'.client = { s.client with
          blockDeadline :=
            if s.client.blockedReq.isSome then s.client.blockDeadline
            else e.deadline timeout (e.mono s.monoTick) } := by
  unfold cmdBlpop
  rw [wlp_bind]
  refine wlp_of_wp (wp_env.mpr ?_)
  simp only
  rw [wlp_bind]
  refine wlp_mono arg_wlp fun text s₁ ⟨hs₁, htext⟩ => ?_
  subst hs₁
  split
  · exact wlp_of_wp ⟨_, rfl, fun hnull => absurd hnull (by decide)⟩
  · rename_i timeout hparse
    split
    · exact wlp_of_wp ⟨_, rfl, fun hnull => absurd hnull (by decide)⟩
    · rename_i haccept
      rw [wlp_bind]
      refine wlp_mono blpopKeys_wlp fun r s₂ h₂ => ?_
      rcases r with st | ⟨⟩
      · obtain ⟨rfl, b, hb, hout⟩ := h₂
        exact wlp_pure _ ⟨b, hout, fun hnull => absurd hnull hb⟩
      · obtain ⟨hclient, hmono⟩ := h₂
        simp only
        split
        · rename_i htimeout
          refine wlp_of_wp ⟨replyNullArray, ?_, fun _ => htimeout⟩
          rw [← hclient]
        · refine wlp_of_wp (wp_mono (park_wp timeout) fun st s₃ hpark => ?_)
          obtain ⟨rfl, -, -, hs₃⟩ := hpark
          rw [hclient, hmono] at hs₃
          exact ⟨text, timeout, htext, hparse, fun hneg => haccept (Or.inl hneg), hs₃⟩

theorem Runs.cmdBlpop {canBlock timedOut : Bool} {x : Execution} {s' : Sess D}
    (h : Runs e canBlock timedOut s x s') (hname : x.req.name.map toLower = ascii "blpop") : x.req.Clean ∧
    ∃ st : CmdStatus, st.result = x.result ∧ PulseDB.cmdBlpop ⟨x.req, canBlock, timedOut⟩ e s =
      .ok (st, s') := by
  obtain ⟨spec, hacc, -⟩ := h.runnable
  obtain ⟨hmem, hspec⟩ := commandLookup_some hacc.found
  have hentry : (⟨ascii "blpop", -3, some PulseDB.cmdBlpop, .normal⟩ : CommandSpec D) ∈ commandTable :=
    List.mem_of_getElem? (rfl : commandTable[21]? = _)
  obtain rfl := commandTable_eq hmem hentry (hspec.trans hname)
  refine ⟨hacc.clean, ?_⟩
  cases h with
  | done _ hrun =>
    rw [runFound_of_accepted hacc, run] at hrun
    exact ⟨.done, rfl, hrun⟩
  | block _ hrun =>
    rw [runFound_of_accepted hacc, run] at hrun
    exact ⟨.block, rfl, hrun⟩

end Blpop

/-! ## Moves that heed the deadline -/

/-- The moves of the loop with the time of its passes, whatever the sockets report. -/
abbrev Clocked (e : Env D) : EventLoop D × Int → Move → EventLoop D × Int → Prop := LoopMoves e fun _ => True

section Clocked
variable {e : Env D} {l : EventLoop D} {p p' : EventLoop D × Int} {mv : Move} {i : ℕ} {req : RespValue}

/-- Client `i` has left, or still waits for the request with the deadline `d`. -/
def Waiting (i : ℕ) (req : RespValue) (d : Int) (l : EventLoop D) : Prop :=
  i < l.accepted ∧ ∀ c, l.clients i = some c → c.blockedReq = some req ∧ c.blockDeadline = d

/-- A retry that does not complete the request leaves the client as it was. -/
theorem Runs.still_blocked {timedOut : Bool} {x : Execution} {s s' : Sess D} (h : Runs e true timedOut s x s')
    (hname : x.req.name.map toLower = ascii "blpop") (hparked : s.client.blockedReq = some x.req)
    (hx : x.result = .blocked) : s'.client = s.client := by
  obtain ⟨-, st, hst, hrun⟩ := h.cmdBlpop hname
  cases st with
  | done => cases hst.trans hx
  | block =>
    obtain ⟨_, _, _, _, _, hclient⟩ := cmdBlpop_wlp .block s' hrun
    rw [hparked] at hclient
    exact hclient

/-- A client that is parked keeps its request and its deadline until the request is completed. -/
theorem Waiting.step {d : Int} (hname : req.name.map toLower = ascii "blpop") (h : Waiting i req d p.1)
    (hmv : Clocked e p mv p') (hwait : mv.completes i = []) : Waiting i req d p'.1 := by
  obtain ⟨hlt, hc⟩ := h
  refine ⟨Nat.lt_of_lt_of_le hlt hmv.moves.accepted_le, ?_⟩
  by_cases hclient : mv.client = some i
  swap
  · rw [hmv.moves.others hclient]
    exact hc
  intro c' hc'
  cases hmv with
  | pass => cases hclient
  | @retry l now j c x s hj hparked hopen hrun hx =>
    obtain rfl : j = i := Option.some.inj hclient
    obtain ⟨hreq, hd⟩ := hc c hj
    cases hparked.symm.trans hreq
    have hblocked : x.result = .blocked := by
      by_contra hne
      rw [Move.completes, if_pos ⟨rfl, hne⟩] at hwait
      cases hwait
    rw [EventLoop.put_self, hblocked] at hc'
    cases hc'
    rw [Client.retried, if_neg (by decide), hx.still_blocked hname hparked hblocked]
    exact ⟨hreq, hd⟩
  | close hj hend =>
    obtain rfl := Option.some.inj hclient
    rw [EventLoop.put_self] at hc'
    cases hc'
    obtain ⟨hreq, hd⟩ := hc _ hj
    exact ⟨hreq, hd⟩
  | plain hmv hplain =>
    cases hmv with
    | join => exact absurd (Option.some.inj hclient) (Nat.ne_of_gt hlt)
    | clock | retry | close => exact absurd hplain id
    | blank hj hfree | request hj hfree | refuse hj hfree =>
      obtain rfl := Option.some.inj hclient
      cases hfree.symm.trans (hc _ hj).1
    | leave hj =>
      obtain rfl := Option.some.inj hclient
      rw [EventLoop.put_self] at hc'
      cases hc'
    | receive hj | overflow hj | finish hj | send hj =>
      obtain rfl := Option.some.inj hclient
      rw [EventLoop.put_self] at hc'
      cases hc'
      obtain ⟨hreq, hd⟩ := hc _ hj
      exact ⟨hreq, hd⟩

theorem Waiting.run {d : Int} {evs : List Move} (hname : req.name.map toLower = ascii "blpop")
    (h : Waiting i req d p.1) (hrun : Run (Clocked e) p evs p') (hwait : ∀ mv ∈ evs, mv.completes i = []) :
    Waiting i req d p'.1 :=
  hrun.history (P := fun mv => mv.completes i = []) (fun _ p => Waiting i req d p.1)
    (fun _ _ _ _ h hmv hstep => h.step hname hstep hmv) hwait h

theorem Waiting.null {d : Int} {runs : List Execution} (hname : req.name.map toLower = ascii "blpop")
    (h : Waiting i req d p.1) (hmv : Clocked e p (.retry i req .done replyNullArray runs) p') : d ≠ 0 ∧
      d ≤ p.2 := by
  generalize hev : Move.retry i req .done replyNullArray runs = mv at hmv
  cases hmv with
  | pass => cases hev
  | close => cases hev
  | @retry l now j c x s hj hparked hopen hrun hx =>
    obtain ⟨rfl, rfl, hdone, hnull, -⟩ := Move.retry.inj hev
    obtain ⟨-, hd⟩ := h.2 c hj
    obtain ⟨-, st, hst, hcall⟩ := hx.cmdBlpop hname
    have htimeout : c.timedOut now = true := by
      cases st with
      | block => cases hst.trans hdone.symm
      | done =>
        obtain ⟨b, hout, hb⟩ := cmdBlpop_wlp .done s hcall
        rw [hout] at hnull
        exact hb (List.drop_left.symm.trans hnull.symm)
    rw [← hd]
    exact of_decide_eq_true htimeout
  | plain hmv hplain =>
    subst hev
    exact absurd hplain id

/-- A request that is parked waits for the deadline that `cmd_blpop` has set. -/
theorem LoopMoves.parked {b : Bytes} {runs : List Execution} (hl : p.1.Inv)
    (h : Clocked e p (.request i req .blocked b runs) p') (hname : req.name.map toLower = ascii "blpop") :
    ∃ timeout, parseDouble e.libc (req.args.getD (req.count - 1) []) = some timeout ∧
      ¬ timeout < e.libc.lit "0" ∧
      Waiting i req (e.deadline timeout (e.mono p.1.monoTick)) p'.1 ∧ p'.1.clients i ≠ none := by
  cases h with
  | @plain l l' now _ hmv hplain =>
    cases hmv with
    | @request _ c _ used buf _ s _ hi hfree hopen hparse hcount hbuf hrun hruns =>
      generalize hr : CommandResult.blocked = r at hruns
      cases hruns with
      | queue => cases hr
      | nothing _ _ hne => exact absurd hr.symm hne
      | @own x _ _ hreq hx =>
        subst hreq
        obtain ⟨hclean, st, hst, hcall⟩ := hx.cmdBlpop hname
        cases st with
        | done => cases hst.trans hr.symm
        | block =>
          obtain ⟨text, timeout, htext, htimeout, hneg, hclient⟩ := cmdBlpop_wlp .block s hcall
          have hlast : x.req.args.getD (x.req.count - 1) [] = text :=
            (RespValue.args_getD ..).trans (hclean.argStr htext).2
          have hidle : ¬ c.blockedReq.isSome = true := by
            rw [hfree]
            exact Bool.false_ne_true
          have hset : s.client.blockDeadline = e.deadline timeout (e.mono l.monoTick) :=
            (congrArg Client.blockDeadline hclient).trans (if_neg hidle)
          refine ⟨timeout, hlast ▸ htimeout, hneg, ⟨hl.lt hi, fun c' hc' => ?_⟩, ?_⟩
          · rw [EventLoop.put_self, ← hr] at hc'
            cases hc'
            exact ⟨rfl, hset⟩
          · rw [EventLoop.put_self]
            exact Option.some_ne_none _

end Clocked

/-! ## The promise -/

/-- The deadline that has been set for client `i` is the time of `T` seconds after `t`. -/
def DeadlineExact (i : ℕ) (T : ℚ) (t : Int) (l : EventLoop D) : Prop :=
  0 < T → ∀ c, l.clients i = some c → c.blockDeadline = t + ⌊1000 * T⌋

/-- In every run from `p` on in which the request of client `i` is not completed, a retry can answer null only
if `T` is positive and `T` seconds have passed from `t` to the time of the pass. -/
def NeverEarly (e : Env D) (i : ℕ) (req : RespValue) (T : ℚ) (t : Int) (p : EventLoop D × Int) : Prop :=
  ∀ evs l now runs p', Run (Clocked e) p evs (l, now) → (∀ mv ∈ evs, mv.completes i = []) →
    Clocked e (l, now) (.retry i req .done replyNullArray runs) p' → 0 < T ∧ t + ⌊1000 * T⌋ ≤ now

section Exact
variable {e : Env D} {num : ℚ → D} (hexact : e.libc.Exact num) {T : ℚ} {t : Int}
include hexact

theorem lit_zero : e.libc.lit "0" = num 0 := by
  rw [hexact.lit, decimalValue_zero]

theorem deadline_le (h : 0 < T) : e.deadline (num T) t ≤ int64Max := by
  rw [Env.deadline, lit_zero hexact, if_pos ((hexact.lt_iff 0 T).mpr h)]
  exact wrap64_le _

theorem deadline_zero (h : ¬ 0 < T) : e.deadline (num T) t = 0 := by
  rw [Env.deadline, lit_zero hexact, if_neg fun hpos => h ((hexact.lt_iff 0 T).mp hpos)]

theorem deadline_exact (h : 0 < T) (ht : 0 ≤ t) (hfit : t + ⌊1000 * T⌋ ≤ int64Max) :
    e.deadline (num T) t = t + ⌊1000 * T⌋ := by
  have hthousand : e.libc.lit "1000" = num 1000 := by
    rw [hexact.lit]
    exact congrArg num (by decide +kernel)
  have hnonneg : 0 ≤ 1000 * T := by positivity
  have hfloor : 0 ≤ ⌊1000 * T⌋ := Int.floor_nonneg.mpr hnonneg
  have htrunc : trunc (T * 1000) = ⌊1000 * T⌋ := by
    rw [mul_comm]
    exact trunc_of_nonneg hnonneg
  have hmin : int64Min ≤ 0 := by decide
  rw [Env.deadline, lit_zero hexact, if_pos ((hexact.lt_iff 0 T).mpr h), hthousand, hexact.mul,
    hexact.toInt64 _ (by omega) (by omega), htrunc, wrap64_of_range (by omega) hfit]

end Exact

/-- The turns of the loop are a run of moves, in which a retry heeds the deadline at the time that its pass
has read from the clock. In every such run, if a `BLPOP` with a timeout of `T` seconds is parked: its deadline
is computed exactly and no retry answers null before it, or at all if `T` is zero, exactly if the deadline is
an `int64_t`. -/
theorem blpop_deadline_iff {e : Env D} {num : ℚ → D} (hexact : e.libc.Exact num) {store : Store D}
    (hstore : store.Reachable) :
    (∀ polls l, serverRun polls e (.start store) = .ok ((), l) → ∃ evs now, Run (Clocked e) (.start store,
      0) evs (l, now) ∧
      ∀ i, traffic i evs = serverTraffic e polls (.start store) i) ∧
    ∀ evs l now i req b runs p T, Run (Clocked e) (.start store, 0) evs (l, now) →
      Clocked e (l, now) (.request i req .blocked b runs) p → req.name.map toLower = ascii "blpop" →
      parseDouble e.libc (req.args.getD (req.count - 1) []) = some (num T) → 0 ≤ e.mono l.monoTick →
      (DeadlineExact i T (e.mono l.monoTick) p.1 ∧ NeverEarly e i req T (e.mono l.monoTick) p ↔
        (0 < T → e.mono l.monoTick + ⌊1000 * T⌋ ≤ int64Max)) := by
  have hstart := EventLoop.inv_start hstore.valid
  refine ⟨fun polls l h => ?_, fun evs l now i req b runs p T hrun hpark hname htimeout ht => ?_⟩
  · have hall : ∀ poll ∈ polls, ∀ i, ¬ True → poll.Healthy i := fun _ _ _ hi => absurd trivial hi
    obtain ⟨now, evs, hrun, htraffic⟩ := serverRun_follows 0 hall hstart () l h
    exact ⟨evs, now, hrun, htraffic⟩
  have hl := runLoop_inv hrun hstart
  obtain ⟨timeout, hparse, -, hwaiting, hclient⟩ := hpark.parked hl hname
  obtain rfl : timeout = num T := Option.some.inj (hparse.symm.trans htimeout)
  obtain ⟨c, hc⟩ := Option.ne_none_iff_exists'.mp hclient
  have hdeadline := (hwaiting.2 c hc).2
  refine ⟨fun ⟨hset, _⟩ hpos => ?_, fun hfit =>
    ⟨fun hpos c' hc' => ?_, fun evs l₁ now runs p' hrun hwait hnull => ?_⟩⟩
  · rw [← hset hpos c hc, hdeadline]
    exact deadline_le hexact hpos
  · rw [(hwaiting.2 c' hc').2]
    exact deadline_exact hexact hpos ht (hfit hpos)
  · obtain ⟨hne, hle⟩ := (hwaiting.run hname hrun hwait).null hname hnull
    by_cases hpos : 0 < T
    · rw [deadline_exact hexact hpos ht (hfit hpos)] at hle
      exact ⟨hpos, hle⟩
    · exact absurd (deadline_zero hexact hpos) hne

/-- Half a second. -/
theorem blpop_deadline_iff_half :
    let e : Env ℚ := ⟨.rationals, configCreateDefault, fun _ => 0, fun _ => 7⟩
    let blpop := RespValue.request [ascii "blpop", ascii "k", ascii "0.5"]
    ∃ evs l p b runs, Run (Clocked e) (.start storeCreate, 0) evs (l, 0) ∧
      Clocked e (l, 0) (.request 0 blpop .blocked b runs) p ∧ DeadlineExact 0 (1 / 2) 7 p.1 ∧
      NeverEarly e 0 blpop (1 / 2) 7 p := by
  intro e blpop
  let bytes := ascii "blpop k 0.5\r\n"
  have hparse : respParseCommand bytes = .ok (blpop, 13) := rfl
  have hacc : Accepted (D := ℚ) blpop ⟨ascii "blpop", -3, some cmdBlpop, .normal⟩ :=
    accepted_request (List.mem_of_getElem? (rfl : commandTable[21]? = _)) rfl (by decide)
  obtain ⟨x, s, hx, hruns, l₁, l₂, l, hjoin, hreceive, hrequest, -, -, -⟩ :=
    exists_first e storeCreate_valid hparse ⟨_, hacc, rfl⟩
  have hblocked : x.result = .blocked := by
    have hout : (runFound blpop true false e
        { store := storeCreate, client := { inBuf := bytes } }).toOption.map
        Prod.fst = some .block := by decide +kernel
    obtain ⟨⟨st, s₁⟩, hok, rfl⟩ := ok_of_toOption hout
    exact (hruns.ended hx hok).1
  rw [hblocked] at hrequest
  have hrun : Run (Clocked e) (.start storeCreate, 0) [.join 0, .receive 0 bytes] (l₂, 0) :=
    .cons (.plain hjoin trivial) (.one (.plain hreceive trivial))
  have hpark : Clocked e (l₂, 0) (.request 0 blpop .blocked s.client.out [x]) (l, 0) :=
    .plain hrequest trivial
  have hexact : e.libc.Exact id := Libc.rationals_exact
  have htimeout : parseDouble Libc.rationals (blpop.args.getD (blpop.count - 1) []) = some (id (1 / 2)) := by
    decide +kernel
  have hfit : (7 : Int) + ⌊1000 * (1 / 2 : ℚ)⌋ ≤ int64Max := by decide +kernel
  have hnow : (0 : Int) ≤ 7 := by decide
  obtain ⟨-, hparked⟩ := blpop_deadline_iff hexact .create
  obtain ⟨hset, hnever⟩ := (hparked _ l₂ 0 0 blpop _ _ _ _ hrun hpark (by decide) htimeout hnow).mpr
    fun _ => hfit
  exact ⟨_, l₂, _, _, _, hrun, hpark, hset, hnever⟩

/-- The same for a timeout whose conversion to milliseconds is undefined: the client is parked at time 0, and
at time 1 it is told that the timeout has passed. -/
theorem blpop_deadline_overflow :
    let e : Env ℚ := ⟨.rationals, configCreateDefault, fun _ => 0, fun n => n⟩
    let polls := [Poll.connect, Poll.reading [.bytes (ascii "blpop k 10000000000000000\r\n")]]
    let T : ℚ := 10 ^ 16
    parseDouble Libc.rationals (ascii "10000000000000000") = some T ∧ e.mono 0 = 0 ∧
      e.mono 1 < 0 + ⌊1000 * T⌋ ∧
    (serverRun polls e (.start storeCreate)).toOption.map
      (fun p => (p.2.monoTick, (p.2.clients 0).map fun c => (c.blockedReq.isSome, c.out))) =
        some (1, some (true, [])) ∧
    (serverRun (polls ++ [.reading [.wouldBlock]]) e (.start storeCreate)).toOption.map
      (fun p => (p.2.monoTick, (p.2.clients 0).map fun c => (c.blockedReq.isSome, c.out))) =
        some (2, some (false, replyNullArray)) := by
  decide +kernel

end PulseDB
