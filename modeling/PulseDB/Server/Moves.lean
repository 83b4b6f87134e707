import PulseDB.Server.Traffic

/-!
# Runs of the event loop

What the event loop does is cut into moves, each for one client: bytes arrive, a request at the front of the
buffer is processed, a parked request is retried, bytes are sent. A move of a request carries what it appended
to the output and the calls of handlers it made. The moves may come in any order; the turns of the loop are
some of these orders.

* `Moves` : the moves; `Moves.inv` : what they keep;
* `received`, `sent`, `executed` : the bytes and the requests of a client in a run; `traffic` : all three;
* `LoopMoves e fails` : the moves as the loop makes them if only the sockets of the clients in `fails` report
  errors, with the time of the pass over the parked clients; `Poll.Healthy` : a turn in which a socket reports
  none;
* `serverRun_follows`, `serverRun_moves` : some turns of the loop are a run of these moves, with the traffic
  that the turns have for each client;
* `runMoves_serves` : what a run does to the store is what the calls do, one after the other.
-/

namespace PulseDB
open Lib Lib.Prog

variable {D : Type} [LinearOrder D]

/-! ## The moves -/

inductive Move where
  | join (i : ℕ)
  | receive (i : ℕ) (bytes : Bytes)
  | blank (i : ℕ)
  | request (i : ℕ) (req : RespValue) (r : CommandResult) (reply : Bytes) (runs : List Execution)
  | retry (i : ℕ) (req : RespValue) (r : CommandResult) (reply : Bytes) (runs : List Execution)
  | condemn (i : ℕ)
  | finish (i : ℕ)
  | close (i : ℕ)
  | send (i : ℕ) (bytes : Bytes)
  | leave (i : ℕ)
  | clock

/-- The calls of handlers in a move. -/
def Move.runs : Move → List Execution
  | .request _ _ _ _ runs => runs
  | .retry _ _ _ _ runs => runs
  | _ => []

/-- One move. A request is processed with the whole buffer in place, of which the client keeps what has not
been parsed; a command does not look at it. -/
inductive Moves (e : Env D) (l : EventLoop D) : Move → EventLoop D → Prop
  | join : Moves e l (.join l.accepted) l.clientAdd
  | receive {i : ℕ} {c : Client} (hi : l.clients i = some c) (bytes : Bytes) :
      Moves e l (.receive i bytes) (l.put i (l.sess c) (some { c with inBuf := c.inBuf ++ bytes }))
  | blank {i : ℕ} {c : Client} {req : RespValue} {used : ℕ} (hi : l.clients i = some c)
      (hfree : c.blockedReq = none)
      (hopen : c.closeAfterReply = false) (hparse : respParseCommand c.inBuf = .ok (req, used))
      (hcount : req.count = 0) :
      Moves e l (.blank i) (l.put i (l.sess c) (some { c with inBuf := c.inBuf.drop used }))
  | request {i : ℕ} {c : Client} {req : RespValue} {used : ℕ} {buf : Bytes} {r : CommandResult} {s : Sess D}
      {runs : List Execution} (hi : l.clients i = some c) (hfree : c.blockedReq = none)
      (hopen : c.closeAfterReply = false) (hparse : respParseCommand c.inBuf = .ok (req, used))
      (hcount : req.count ≠ 0) (hbuf : c.inBuf <:+ buf)
      (hrun : commandProcess req e (l.sess { c with inBuf := buf }) = .ok (r, s))
      (hruns : Executes e req (l.sess { c with inBuf := buf }) r s runs) :
      Moves e l (.request i req r (s.client.out.drop c.out.length) runs)
        (l.put i s (some { s.client.processed req r with inBuf := c.inBuf.drop used }))
  | retry {i : ℕ} {c : Client} {x : Execution} {timedOut : Bool} {s : Sess D} (hi : l.clients i = some c)
      (hparked : c.blockedReq = some x.req) (hopen : c.closed = false)
      (hrun : commandRetryBlocked x.req timedOut e (l.sess c) = .ok (x.result, s))
      (hx : Runs e true timedOut (l.sess c) x s) :
      Moves e l (.retry i x.req x.result (s.client.out.drop c.out.length) [x])
        (l.put i s (some (s.client.retried x.result)))
  | refuse {i : ℕ} {c : Client} (hi : l.clients i = some c) (hfree : c.blockedReq = none)
      (hopen : c.closeAfterReply = false) (hparse : respParseCommand c.inBuf = .error) :
      Moves e l (.condemn i) (l.put i (l.sess c) (some { c with
        out := c.out ++ replyError (ascii "ERR Protocol error"), closeAfterReply := true }))
  | overflow {i : ℕ} {c : Client} (hi : l.clients i = some c) (hlong : clientMaxQueryBuf < c.inBuf.length) :
      Moves e l (.condemn i) (l.put i (l.sess c) (some { c with
        out := c.out ++ replyError (ascii "ERR Protocol error: request too large"),
          closeAfterReply := true }))
  | finish {i : ℕ} {c : Client} (hi : l.clients i = some c) :
      Moves e l (.finish i) (l.put i (l.sess c) (some { c with
        closeAfterReply := true, closed := c.closed || c.blockedReq.isSome || decide (c.out.length = 0) }))
  | close {i : ℕ} {c : Client} (hi : l.clients i = some c) :
      Moves e l (.close i) (l.put i (l.sess c) (some { c with closed := true }))
  | send {i : ℕ} {c : Client} (hi : l.clients i = some c) (n : ℕ) :
      Moves e l (.send i (c.out.take n)) (l.put i (l.sess c) (some { c with out := c.out.drop n }))
  | leave {i : ℕ} {c : Client} (hi : l.clients i = some c) (hclosed : c.closed = true) :
      Moves e l (.leave i) (l.put i (l.sess c) none)
  | clock (n : ℕ) : Moves e l .clock { l with monoTick := l.monoTick + n }

/-! ## What the moves keep -/

structure EventLoop.Inv (l : EventLoop D) : Prop where
  server : l.toServer.Inv
  fresh : ∀ i, l.accepted ≤ i → l.clients i = none

section Inv
variable {e : Env D} {l l' : EventLoop D} {i : ℕ} {c : Client}

omit [LinearOrder D] in
@[simp] theorem EventLoop.put_self (l : EventLoop D) (i : ℕ) (s : Sess D) (o : Option Client) :
    (l.put i s o).clients i = o := Server.put_self ..

omit [LinearOrder D] in
theorem EventLoop.put_other (l : EventLoop D) {i j : ℕ} (hij : j ≠ i) (s : Sess D) (o : Option Client) :
    (l.put i s o).clients j = l.clients j := Server.put_other _ hij ..

omit [LinearOrder D] in
theorem EventLoop.put_put (l : EventLoop D) (i : ℕ) (s s' : Sess D) (o o' : Option Client) :
    (l.put i s o).put i s' o' = l.put i s' o' := by
  unfold EventLoop.put
  rw [Server.put_put]

omit [LinearOrder D] in
theorem EventLoop.put_same (hi : l.clients i = some c) : l.put i (l.sess c) (some c) = l := by
  unfold EventLoop.put
  rw [Server.put_same hi]

theorem EventLoop.Inv.lt (h : l.Inv) (hi : l.clients i = some c) : i < l.accepted := by
  by_contra hle
  rw [h.fresh i (Nat.le_of_not_lt hle)] at hi
  cases hi

theorem EventLoop.Inv.put (h : l.Inv) (hi : l.clients i = some c) {s : Sess D} (hs : s.store.Valid)
    {o : Option Client} (ho : ∀ c ∈ o, c.Inv D) : (l.put i s o).Inv := by
  refine ⟨h.server.put hs ho i, fun j hj => ?_⟩
  have hij : j ≠ i := fun hji => absurd (h.lt hi) (Nat.not_lt_of_le (hji ▸ hj))
  rw [EventLoop.put_other l hij]
  exact h.fresh j hj

theorem EventLoop.Inv.buffers (h : l.Inv) (hi : l.clients i = some c) {d : Client} (ht : d.txn = c.txn)
    (hb : d.blockedReq = c.blockedReq) : (l.put i (l.sess c) (some d)).Inv := by
  refine h.put hi h.server.store fun d' hd => ?_
  cases hd
  exact ⟨ht ▸ (h.server.clients i c hi).txn, hb ▸ (h.server.clients i c hi).blocked⟩

theorem EventLoop.Inv.sess (h : l.Inv) (hi : l.clients i = some c) (buf : Bytes) :
    (l.sess { c with inBuf := buf }).Inv :=
  ⟨h.server.store, (h.server.clients i c hi).txn, (h.server.clients i c hi).blocked⟩

theorem EventLoop.inv_start {store : Store D} (h : store.Valid) : (EventLoop.start store).Inv :=
  ⟨⟨h, fun i c hc => by cases hc⟩, fun _ _ => rfl⟩

theorem Moves.inv {mv : Move} (h : l.Inv) (hmv : Moves e l mv l') : l'.Inv := by
  cases hmv with
  | join =>
    refine ⟨h.server.put h.server.store (fun c hc => by cases hc; exact Client.inv_init) _, fun i hi => ?_⟩
    have hlt : l.accepted + 1 ≤ i := hi
    exact (EventLoop.put_other l (by omega) ..).trans (h.fresh i (by omega))
  | receive hi => exact h.buffers hi rfl rfl
  | blank hi => exact h.buffers hi rfl rfl
  | @request i c req used buf r s runs hi hfree hopen hparse hcount hbuf hrun hruns =>
    obtain ⟨hinv, -, hblocked⟩ :=
      commandProcess_wlp (h.sess hi buf) (respParseCommand_parsed hparse) hcount r s hrun
    have hc := hinv.client.processed hblocked
    refine h.put hi hinv.store fun d hd => ?_
    cases hd
    exact ⟨hc.txn, hc.blocked⟩
  | @retry i c x timedOut s hi hparked hopen hrun hx =>
    obtain ⟨st, -, hans⟩ := h.server.retried hi hparked hrun
    refine h.put hi hans.1 fun d hd => ?_
    cases hd
    obtain ⟨ht, hframe⟩ := hans.kept
    have hc := h.server.clients i c hi
    exact Client.Inv.retried ⟨ht ▸ hc.txn, fun q hq => hc.blocked q (hframe.blockedReq ▸ hq)⟩
  | refuse hi => exact h.buffers hi rfl rfl
  | overflow hi => exact h.buffers hi rfl rfl
  | finish hi => exact h.buffers hi rfl rfl
  | close hi => exact h.buffers hi rfl rfl
  | send hi => exact h.buffers hi rfl rfl
  | leave hi => exact h.put hi h.server.store fun c hc => by cases hc
  | clock n => exact ⟨⟨h.server.store, h.server.clients⟩, h.fresh⟩

theorem runMoves_inv {evs : List Move} (hrun : Run (Moves e) l evs l') (h : l.Inv) : l'.Inv :=
  hrun.invariant EventLoop.Inv (fun _ _ _ h hmv => hmv.inv h) h

end Inv

/-! ## What passes with the moves -/

def Move.client : Move → Option ℕ
  | .join i => some i
  | .receive i _ => some i
  | .blank i => some i
  | .request i _ _ _ _ => some i
  | .retry i _ _ _ _ => some i
  | .condemn i => some i
  | .finish i => some i
  | .close i => some i
  | .send i _ => some i
  | .leave i => some i
  | .clock => none

/-- The bytes of client `i` that arrive with a move. -/
def Move.arrives (i : ℕ) : Move → Bytes
  | .receive j bytes => if j = i then bytes else []
  | _ => []

/-- The bytes that are sent to client `i` with a move. -/
def Move.departs (i : ℕ) : Move → Bytes
  | .send j bytes => if j = i then bytes else []
  | _ => []

/-- The request of client `i` that a move executes. -/
def Move.takes (i : ℕ) : Move → Option RespValue
  | .request j req _ _ _ => if j = i then some req else none
  | .retry j req _ _ _ => if j = i then some req else none
  | _ => none

def received (i : ℕ) (evs : List Move) : Bytes := evs.flatMap (Move.arrives i)

def sent (i : ℕ) (evs : List Move) : Bytes := evs.flatMap (Move.departs i)

def executed (i : ℕ) (evs : List Move) : List RespValue := evs.filterMap (Move.takes i)

/-- The traffic of client `i` in some moves. -/
def traffic (i : ℕ) (evs : List Move) : Traffic := ⟨received i evs, sent i evs, executed i evs⟩

section Traffic
variable {i : ℕ} {evs evs' : List Move} {mv : Move}

theorem traffic_append : traffic i (evs ++ evs') = traffic i evs ++ traffic i evs' := by
  simp [traffic, received, sent, executed, Traffic.append_def]

theorem Move.takes_other (h : mv.client ≠ some i) : mv.takes i = none := by
  cases mv with
  | request j | retry j => exact if_neg fun hj => h (congrArg some hj)
  | _ => rfl

theorem Move.passes_other (h : mv.client ≠ some i) : mv.arrives i = [] ∧ mv.departs i = [] := by
  cases mv with
  | receive j => exact ⟨if_neg fun hj => h (congrArg some hj), rfl⟩
  | send j => exact ⟨rfl, if_neg fun hj => h (congrArg some hj)⟩
  | _ => exact ⟨rfl, rfl⟩

@[simp] theorem traffic_receive (i : ℕ) (bytes : Bytes) :
    traffic i [.receive i bytes] = { read := bytes } := by
  simp [traffic, received, sent, executed, Move.arrives, Move.departs, Move.takes]

@[simp] theorem traffic_send (i : ℕ) (bytes : Bytes) : traffic i [.send i bytes] = { written := bytes } := by
  simp [traffic, received, sent, executed, Move.arrives, Move.departs, Move.takes]

@[simp] theorem traffic_request (i : ℕ) (req : RespValue) (r : CommandResult) (b : Bytes)
    (runs : List Execution) :
    traffic i [.request i req r b runs] = { ran := [req] } := by
  simp [traffic, received, sent, executed, Move.arrives, Move.departs, Move.takes]

@[simp] theorem traffic_retry (i : ℕ) (req : RespValue) (r : CommandResult) (b : Bytes)
    (runs : List Execution) :
    traffic i [.retry i req r b runs] = { ran := [req] } := by
  simp [traffic, received, sent, executed, Move.arrives, Move.departs, Move.takes]

theorem traffic_other (h : ∀ mv ∈ evs, mv.client ≠ some i) : traffic i evs = {} := by
  induction evs with
  | nil => rfl
  | cons mv evs ih =>
    obtain ⟨hmv, hevs⟩ := List.forall_mem_cons.mp h
    obtain ⟨harrives, hdeparts⟩ := Move.passes_other hmv
    have hone : traffic i [mv] = {} := by
      simp [traffic, received, sent, executed, harrives, hdeparts, Move.takes_other hmv]
    rw [← List.singleton_append, traffic_append, hone, ih hevs]
    rfl

end Traffic

/-! ## The moves of the loop -/

/-- A move that is neither a retry, nor the close of a connection, nor a reading of the clock. -/
def Move.Plain : Move → Prop
  | .retry .. => False
  | .close _ => False
  | .clock => False
  | _ => True

/-- The moves as the loop makes them, if only the sockets of the clients in `fails` report errors. The state
is that of the loop and the time of the last pass of `service_blocked`, which it reads from the clock. A
parked request is retried as one that has timed out if its deadline has passed at that time. A connection
whose socket works is closed only once it is condemned and all has been sent. -/
inductive LoopMoves (e : Env D) (fails : ℕ → Prop) : EventLoop D × Int → Move → EventLoop D × Int → Prop
  | pass (l : EventLoop D) (now : Int) :
      LoopMoves e fails (l, now) .clock ({ l with monoTick := l.monoTick + 1 }, e.mono l.monoTick)
  | retry {l : EventLoop D} {now : Int} {i : ℕ} {c : Client} {x : Execution} {s : Sess D}
      (hi : l.clients i = some c) (hparked : c.blockedReq = some x.req) (hopen : c.closed = false)
      (hrun : commandRetryBlocked x.req (c.timedOut now) e (l.sess c) = .ok (x.result, s))
      (hx : Runs e true (c.timedOut now) (l.sess c) x s) :
      LoopMoves e fails (l, now) (.retry i x.req x.result (s.client.out.drop c.out.length) [x])
        (l.put i s (some (s.client.retried x.result)), now)
  | close {l : EventLoop D} {now : Int} {i : ℕ} {c : Client} (hi : l.clients i = some c)
      (hend : fails i ∨ c.closeAfterReply = true ∧ c.out = []) :
      LoopMoves e fails (l, now) (.close i) (l.put i (l.sess c) (some { c with closed := true }), now)
  | plain {l l' : EventLoop D} {now : Int} {mv : Move} (hmv : Moves e l mv l') (hplain : mv.Plain) :
      LoopMoves e fails (l, now) mv (l', now)

section LoopMoves
variable {e : Env D} {fails : ℕ → Prop} {p p' : EventLoop D × Int} {evs : List Move}

theorem LoopMoves.moves {mv : Move} (h : LoopMoves e fails p mv p') : Moves e p.1 mv p'.1 := by
  cases h with
  | pass l now => exact .clock 1
  | retry hi hparked hopen hrun hx => exact .retry hi hparked hopen hrun hx
  | close hi hend => exact .close hi
  | plain hmv hplain => exact hmv

theorem runLoop_moves (h : Run (LoopMoves e fails) p evs p') : Run (Moves e) p.1 evs p'.1 :=
  h.map Prod.fst fun _ _ _ hmv => hmv.moves

theorem runLoop_inv (h : Run (LoopMoves e fails) p evs p') (hl : p.1.Inv) : p'.1.Inv :=
  runMoves_inv (runLoop_moves h) hl

end LoopMoves

/-! ## The programs of a client -/

/-- Some moves of client `i`, with the traffic `T`, lead from `l` to `l'` within one pass. -/
def Leads (e : Env D) (fails : ℕ → Prop) (i : ℕ) (l : EventLoop D) (now : Int) (T : Traffic)
    (l' : EventLoop D) : Prop :=
  ∃ evs, Run (LoopMoves e fails) (l, now) evs (l', now) ∧ (∀ mv ∈ evs, mv.client = some i) ∧ traffic i evs = T

/-- Run for client `i` in a pass at time `now`, the program is a run of its moves, whose traffic `observe`
tells from the session in which it starts. -/
def Follows {α : Type} (e : Env D) (fails : ℕ → Prop) (now : Int) (i : ℕ) (m : Cmd D α)
    (observe : Sess D → Traffic) :
    Prop :=
  ∀ (l : EventLoop D) (c : Client), l.Inv → l.clients i = some c →
    wlp m e (l.sess c) fun _ s' => Leads e fails i l now (observe (l.sess c)) (l.put i s' (some s'.client))

/-- Run for client `i`, the program is some run of moves. -/
def ByMoves {α : Type} (e : Env D) (i : ℕ) (m : Cmd D α) : Prop :=
  ∀ (l : EventLoop D) (c : Client), l.Inv → l.clients i = some c →
    wlp m e (l.sess c) fun _ s' => ∃ evs, Run (Moves e) l evs (l.put i s' (some s'.client))

section Follows
variable {e : Env D} {fails : ℕ → Prop} {i : ℕ} {l l₁ l₂ : EventLoop D} {now : Int} {c : Client} {α β : Type}
  {T T' : Traffic}

theorem Leads.refl : Leads e fails i l now {} l := ⟨[], .nil _, fun _ hmv => absurd hmv List.not_mem_nil, rfl⟩

theorem Leads.trans (h : Leads e fails i l now T l₁) (h' : Leads e fails i l₁ now T' l₂) :
    Leads e fails i l now (T ++ T') l₂ := by
  obtain ⟨evs, hrun, hmine, rfl⟩ := h
  obtain ⟨evs', hrun', hmine', rfl⟩ := h'
  exact ⟨evs ++ evs', hrun.trans hrun', List.forall_mem_append.mpr ⟨hmine, hmine'⟩, traffic_append⟩

theorem Leads.quiet (h : Leads e fails i l now T l₁) (h' : Leads e fails i l₁ now {} l₂) :
    Leads e fails i l now T l₂ := by
  have hboth := h.trans h'
  rwa [Traffic.append_empty] at hboth

theorem Leads.one {mv : Move} (h : LoopMoves e fails (l, now) mv (l₁, now)) (hmv : mv.client = some i)
    (hT : traffic i [mv] = T) : Leads e fails i l now T l₁ :=
  ⟨[mv], .one h, List.forall_mem_singleton.mpr hmv, hT⟩

theorem Leads.inv (h : Leads e fails i l now T l₁) (hl : l.Inv) : l₁.Inv := by
  obtain ⟨evs, hrun, -⟩ := h
  exact runLoop_inv hrun hl

theorem leads_same (hi : l.clients i = some c) : Leads e fails i l now {} (l.put i (l.sess c) (some c)) := by
  rw [l.put_same hi]
  exact .refl

theorem Follows.byMoves {m : Cmd D α} {observe : Sess D → Traffic} (h : Follows e fails now i m observe) :
    ByMoves e i m := by
  intro l c hl hi
  refine wlp_mono (h l c hl hi) fun _ s' hleads => ?_
  obtain ⟨evs, hrun, -⟩ := hleads
  exact ⟨evs, runLoop_moves hrun⟩

theorem Follows.pure (a : α) : Follows e fails now i (Pure.pure a : Cmd D α) fun _ => {} :=
  fun _ _ _ hi => wlp_pure _ (leads_same hi)

theorem Follows.next {m : Cmd D α} {observe : Sess D → Traffic} (hm : Follows e fails now i m observe)
    {s : Sess D} (hl : l.Inv) (h : Leads e fails i l now T (l.put i s (some s.client))) :
    wlp m e s fun _ s' => Leads e fails i l now (T ++ observe s) (l.put i s' (some s'.client)) := by
  refine wlp_mono (hm _ _ (h.inv hl) (l.put_self i s (some s.client))) fun _ s' h' => ?_
  rw [EventLoop.put_put] at h'
  exact h.trans h'

theorem Follows.last {m : Cmd D α} (hm : Follows e fails now i m fun _ => {}) {s : Sess D} (hl : l.Inv)
    (h : Leads e fails i l now T (l.put i s (some s.client))) :
    wlp m e s fun _ s' => Leads e fails i l now T (l.put i s' (some s'.client)) := by
  have hnext := hm.next hl h
  rwa [Traffic.append_empty] at hnext

theorem Follows.modifyClient {f : Client → Client} {observe : Sess D → Traffic}
    (hf : ∀ (l : EventLoop D) (c : Client), l.clients i = some c →
      Leads e fails i l now (observe (l.sess c)) (l.put i (l.sess c) (some (f c)))) :
    Follows e fails now i (modifyClient (D := D) f) observe :=
  fun l c _ hi => wlp_of_wp (wp_modify.mpr (hf l c hi))

theorem leads_close (hi : l.clients i = some c) {b : Bool}
    (hb : b = true → fails i ∨ c.closeAfterReply = true ∧ c.out = []) :
    Leads e fails i l now {} (l.put i (l.sess c) (some { c with closed := c.closed || b })) := by
  cases b with
  | false =>
    rw [Bool.or_false]
    exact leads_same hi
  | true =>
    rw [Bool.or_true]
    exact .one (.close hi (hb rfl)) rfl rfl

/-- The loop over the buffer `buf` from `pos` on, for a client that holds what has not been parsed. -/
theorem processLoop_moves (fails : ℕ → Prop) (now : Int) {buf : Bytes} :
    ∀ {rounds pos : ℕ} {l : EventLoop D} {c : Client},
    l.Inv → l.clients i = some c → c.inBuf = buf.drop pos →
    wlp (processLoop rounds pos) e (l.sess { c with inBuf := buf }) fun r s' => s'.client.inBuf = buf ∧
      Leads e fails i l now { ran := nonBlank r.2 }
        (l.put i s' (some { s'.client with inBuf := buf.drop r.1 }))
  | 0, pos, l, c, _, hi, hbuf => by
    refine wlp_pure _ ⟨rfl, ?_⟩
    rw [← hbuf]
    exact leads_same hi
  | rounds + 1, pos, l, c, hl, hi, hbuf => by
    have hstay : Leads e fails i l now {}
        (l.put i (l.sess { c with inBuf := buf }) (some { c with inBuf := buf.drop pos })) := by
      rw [← hbuf]
      exact leads_same hi
    unfold processLoop
    rw [wlp_bind]
    refine wlp_of_wp (wp_get.mpr ?_)
    split
    · exact wlp_pure _ ⟨rfl, hstay⟩
    · rename_i hgo
      obtain ⟨hfree, hopen, -⟩ := Client.goes_on (c := { c with inBuf := buf }) hgo
      rw [show (l.sess { c with inBuf := buf }).client.inBuf = buf from rfl, ← hbuf]
      cases hparse : respParseCommand c.inBuf with
      | incomplete => exact wlp_pure _ ⟨rfl, hstay⟩
      | error =>
        refine wlp_of_wp ⟨rfl, ?_⟩
        have hmv := Moves.refuse (e := e) hi hfree hopen hparse
        rw [hbuf] at hmv
        exact .one (.plain hmv trivial) rfl rfl
      | ok item =>
        obtain ⟨req, used⟩ := item
        have hbuf' : c.inBuf.drop used = buf.drop (pos + used) := by rw [hbuf, List.drop_drop]
        simp only
        rw [wlp_bind]
        by_cases hcount : req.count = 0
        · have hmv := Moves.blank (e := e) hi hfree hopen hparse hcount
          have hone : Leads e fails i l now {} _ := .one (.plain hmv trivial) rfl rfl
          rw [processRequest, if_pos hcount]
          refine wlp_pure _ ?_
          rw [wlp_bind]
          have hi' := EventLoop.put_self l i (l.sess c) (some { c with inBuf := c.inBuf.drop used })
          have hnext : wlp (processLoop rounds _) _ _ _ := processLoop_moves fails now (hmv.inv hl) hi' hbuf'
          refine wlp_mono hnext fun r s' hrest => ?_
          obtain ⟨h1, h2⟩ := hrest
          rw [EventLoop.put_put] at h2
          have hskip : nonBlank (req :: r.2) = nonBlank r.2 := by simp [nonBlank, hcount]
          refine wlp_pure _ ⟨h1, ?_⟩
          rw [hskip]
          exact hone.trans h2
        · rw [processRequest, if_neg hcount, wlp_bind]
          intro r s₁ hrun
          have hparsed := respParseCommand_parsed hparse
          obtain ⟨runs, hruns⟩ := exists_executes (hl.sess hi buf) hparsed hcount r s₁ hrun
          obtain ⟨-, hframe, -⟩ := commandProcess_wlp (hl.sess hi buf) hparsed hcount r s₁ hrun
          have hmv := Moves.request hi hfree hopen hparse hcount (hbuf ▸ List.drop_suffix pos buf) hrun hruns
          have hone : Leads e fails i l now { ran := [req] } _ := .one (.plain hmv trivial) rfl
            (traffic_request ..)
          -- the program still holds the whole buffer
          have hwhole : s₁.client.processed req r =
              { ({ s₁.client.processed req r with inBuf := c.inBuf.drop used } : Client) with inBuf := buf } := by
            rw [← show (s₁.client.processed req r).inBuf = buf from
              (Client.processed_inBuf ..).trans hframe.inBuf]
          refine wlp_of_wp (wp_modify.mpr ?_)
          rw [wlp_bind, hwhole]
          refine wlp_mono (processLoop_moves fails now (hmv.inv hl) (EventLoop.put_self ..) hbuf')
            fun r' s' hrest => ?_
          obtain ⟨h1, h2⟩ := hrest
          rw [EventLoop.put_put] at h2
          have htake : nonBlank (req :: r'.2) = [req] ++ nonBlank r'.2 := by simp [nonBlank, hcount]
          refine wlp_pure _ ⟨h1, ?_⟩
          rw [htake]
          exact hone.trans h2

theorem processInput_moves : Follows e fails now i (processInput (D := D)) fun s =>
    { ran := inputRan e s } := by
  intro l c hl hi
  -- the requests are those that it answers
  suffices h : wlp (processInput (D := D)) e (l.sess c) fun reqs s' =>
      Leads e fails i l now { ran := nonBlank reqs } (l.put i s' (some s'.client)) by
    intro reqs s' hrun
    have hran := inputRan_of_ok hrun
    simp only [hran]
    exact h reqs s' hrun
  unfold processInput
  rw [wlp_bind]
  refine wlp_of_wp (wp_get.mpr ?_)
  rw [wlp_bind]
  refine wlp_mono (processLoop_moves fails now hl hi (show c.inBuf = c.inBuf.drop 0 from rfl)) fun r s₁ ⟨hbuf,
    hleads⟩ => ?_
  rw [wlp_bind]
  refine wlp_of_wp (wp_modify.mpr ?_)
  rw [wlp_bind]
  refine wlp_of_wp (wp_get.mpr ?_)
  rw [hbuf]
  split
  · rename_i hlong
    have hi₁ := EventLoop.put_self l i s₁ (some { s₁.client with inBuf := c.inBuf.drop r.1 })
    have hmv := Moves.overflow (e := e) hi₁ hlong
    rw [EventLoop.put_put] at hmv
    have hlast : Leads e fails i _ now {} _ := .one (.plain hmv trivial) rfl rfl
    exact wlp_of_wp (hleads.quiet hlast)
  · exact wlp_pure _ hleads

theorem readFromClient_moves {results : List ReadResult} (hok : (readLoop results).2 = .failed → fails i) :
    Follows e fails now i (readFromClient (D := D) results) (readTraffic e results) := by
  intro l c hl hi
  have hmv := Moves.receive (e := e) hi (bytesGiven results)
  have hreceive : Leads e fails i l now { read := bytesGiven results } _ :=
    .one (.plain hmv trivial) rfl (traffic_receive ..)
  unfold readFromClient readTraffic
  rw [wlp_bind, readLoop_given]
  refine wlp_of_wp (wp_modify.mpr ?_)
  split
  · rename_i hfailed
    exact Follows.last (.modifyClient fun l c hi => .one (.close hi (Or.inl (hok hfailed))) rfl rfl)
      hl hreceive
  · rw [wlp_bind]
    refine wlp_mono (processInput_moves.next hl hreceive) fun reqs s₂ hinput => ?_
    rw [Traffic.read_append_ran] at hinput
    split
    · exact Follows.last (.modifyClient fun l c hi => .one (.plain (.finish hi) trivial) rfl rfl) hl hinput
    · exact Follows.last (.pure ()) hl hinput

theorem writeToClient_moves {results : List WriteResult}
    (hok : ∀ len, (writeLoop len results 0).2 = true → fails i) :
    Follows e fails now i (writeToClient (D := D) results) fun s =>
      { written := bytesTaken s.client.out results } := by
  intro l c hl hi
  have htaken := writeLoop_taken c.out results 0
  rw [List.take_zero, List.nil_append, List.drop_zero] at htaken
  have hsend : Leads e fails i l now { written := bytesTaken c.out results } _ :=
    .one (.plain (.send hi (writeLoop c.out.length results 0).1) trivial) rfl (htaken ▸ traffic_send ..)
  have hclose : Leads e fails i _ now {} _ :=
    leads_close (l.put_self i (l.sess c)
      (some { c with out := c.out.drop (writeLoop c.out.length results 0).1 }))
      fun hb => Or.inl (hok c.out.length hb)
  rw [EventLoop.put_put] at hclose
  unfold writeToClient
  rw [wlp_bind]
  refine wlp_of_wp (wp_get.mpr ?_)
  simp only
  rw [wlp_bind]
  refine wlp_of_wp (wp_modify.mpr ?_)
  refine Follows.last (.modifyClient fun l c hi => leads_close hi fun hdrained => Or.inr ?_) hl
    (hsend.quiet hclose)
  rw [Bool.and_eq_true, decide_eq_true_iff, List.length_eq_zero_iff] at hdrained
  exact hdrained

theorem flush_moves {results : List WriteResult} (hok : ∀ len, (writeLoop len results 0).2 = true → fails i) :
    Follows e fails now i (do
      let s ← Prog.get
      if !s.client.closed && decide (s.client.out.length ≠ 0) then writeToClient results else return () :
        Cmd D Unit)
      (writeTraffic results) := by
  intro l c hl hi
  unfold writeTraffic
  rw [wlp_bind]
  refine wlp_of_wp (wp_get.mpr ?_)
  split
  · rename_i hwrite
    rw [Bool.and_eq_true, Bool.not_eq_true'] at hwrite
    rw [hwrite.1, if_neg Bool.false_ne_true]
    exact writeToClient_moves hok l c hl hi
  · rename_i hskip
    have hnone : (if (l.sess c).client.closed then [] else bytesTaken (l.sess c).client.out results) =
        [] := by
      split
      · rfl
      · rename_i hopen
        have hempty : (l.sess c).client.out = [] := by simpa [hopen] using hskip
        rw [hempty, bytesTaken_nil]
    rw [hnone]
    exact Follows.pure () l c hl hi

theorem serviceClient_moves : Follows e fails now i (serviceClient (D := D) now) (serviceTraffic e now) := by
  intro l c hl hi
  unfold serviceClient serviceTraffic
  rw [wlp_bind]
  refine wlp_of_wp (wp_get.mpr ?_)
  cases hparked : (l.sess c).client.blockedReq with
  | none => exact Follows.pure () l c hl hi
  | some req =>
    simp only
    split
    · exact Follows.pure () l c hl hi
    · rename_i hopen
      rw [wlp_bind]
      intro r s₁ hrun
      have hreq : Runnable D req := (hl.server.clients i c hi).blocked req hparked
      obtain ⟨st, s₂, hfound, hans⟩ := wp_iff.mp
        (runFound_wp (e := e) (s := l.sess c) hreq hl.server.store true (c.timedOut now))
      have hretry : commandRetryBlocked req (c.timedOut now) e (l.sess c) = .ok (st.result, s₂) :=
        bind_of_ok hfound
      cases hretry.symm.trans hrun
      obtain ⟨x, rfl, hres, hx⟩ := exists_runs hreq hfound hans
      rw [show (l.sess c).client.timedOut now = c.timedOut now from rfl, hretry]
      rw [← hres] at hretry ⊢
      have hstep : LoopMoves e fails (l, now) _ _ := .retry hi hparked (Bool.not_eq_true _ ▸ hopen) hretry hx
      have hone : Leads e fails i l now { ran := [x.req] } _ := .one hstep rfl (traffic_retry ..)
      cases hresult : x.result with
      | done =>
        rw [hresult, Client.retried, if_pos rfl] at hone
        rw [if_pos rfl, wlp_bind]
        refine wlp_of_wp (wp_modify.mpr ?_)
        rw [wlp_bind]
        exact wlp_mono (processInput_moves.next hl hone) fun reqs s₃ hinput => wlp_pure _ hinput
      | blocked | queued =>
        rw [hresult, Client.retried, if_neg (by decide)] at hone
        rw [if_neg (by decide)]
        exact wlp_pure _ hone

end Follows

/-! ## The turns of the loop -/

section Turns
variable {e : Env D} {fails : ℕ → Prop} {l l' l₁ l₂ : EventLoop D} {now now' now₁ now₂ : Int}
  {T T' : ℕ → Traffic}

/-- Some moves, with the traffic `T i` of each client `i`, lead from `l` to `l'`. The time of the pass may
change. -/
def LoopLeads (e : Env D) (fails : ℕ → Prop) (l : EventLoop D) (now : Int) (T : ℕ → Traffic)
    (l' : EventLoop D) (now' : Int) : Prop :=
  ∃ evs, Run (LoopMoves e fails) (l, now) evs (l', now') ∧ ∀ i, traffic i evs = T i

theorem LoopLeads.refl : LoopLeads e fails l now (fun _ => {}) l now := ⟨[], .nil _, fun _ => rfl⟩

theorem LoopLeads.trans (h : LoopLeads e fails l now T l₁ now₁) (h' : LoopLeads e fails l₁ now₁ T' l₂ now₂) :
    LoopLeads e fails l now (fun i => T i ++ T' i) l₂ now₂ := by
  obtain ⟨evs, hrun, hT⟩ := h
  obtain ⟨evs', hrun', hT'⟩ := h'
  exact ⟨evs ++ evs', hrun.trans hrun', fun i => by rw [traffic_append, hT, hT']⟩

theorem LoopLeads.quiet (h : LoopLeads e fails l now T l₁ now₁)
    (h' : LoopLeads e fails l₁ now₁ (fun _ => {}) l₂ now₂) :
    LoopLeads e fails l now T l₂ now₂ := by
  have hboth := h.trans h'
  simpa only [Traffic.append_empty] using hboth

theorem LoopLeads.one {mv : Move} (h : LoopMoves e fails (l, now) mv (l₁, now₁))
    (hmv : ∀ i, traffic i [mv] = {}) :
    LoopLeads e fails l now (fun _ => {}) l₁ now₁ :=
  ⟨[mv], .one h, hmv⟩

theorem LoopLeads.inv (h : LoopLeads e fails l now T l₁ now₁) (hl : l.Inv) : l₁.Inv := by
  obtain ⟨evs, hrun, -⟩ := h
  exact runLoop_inv hrun hl

theorem forClient_moves {m : Cmd D Unit} {i : ℕ} {observe : Sess D → Traffic}
    (hm : Follows e fails now i m observe)
    (hl : l.Inv) : wlp (forClient m i) e l fun _ l' => LoopLeads e fails l now
      (fun j => if j = i then (l.clients i).elim {} fun c => observe (l.sess c) else {}) l' now := by
  intro u l' hrun
  unfold forClient at hrun
  cases hi : l.clients i with
  | none =>
    rw [hi] at hrun
    cases hrun
    simpa only [Option.elim_none, ite_self] using LoopLeads.refl
  | some c =>
    rw [hi] at hrun
    simp only at hrun
    cases hres : m e (l.sess c) with
    | error fault =>
      rw [hres] at hrun
      cases hrun
    | ok p =>
      obtain ⟨v, s⟩ := p
      rw [hres] at hrun
      cases hrun
      obtain ⟨evs, hmoves, hmine, htraffic⟩ := hm l c hl hi v s hres
      refine ⟨evs, hmoves, fun j => ?_⟩
      by_cases hj : j = i
      · simp only [hj, if_true]
        exact htraffic
      · simp only [hj, if_false]
        exact traffic_other fun mv hmv hmine' => hj (Option.some.inj (hmine'.symm.trans (hmine mv hmv)))

omit [LinearOrder D] in
theorem wlp_eachClient_snoc {m : ℕ → Cmd D Unit} {i : ℕ} {Q : Unit → EventLoop D → Prop} :
    ∀ {is : List ℕ} {l : EventLoop D}, wlp (eachClient m is) e l
      (fun _ l' => wlp (forClient (m i) i) e l' Q) → wlp (eachClient m (is ++ [i])) e l Q := by
  intro is
  induction is with
  | nil =>
    intro l h
    show wlp (forClient (m i) i >>= fun _ => pure ()) e l Q
    rw [wlp_bind]
    exact wlp_mono (h () l rfl) fun _ _ hQ => wlp_pure _ hQ
  | cons j is ih =>
    intro l h
    show wlp (forClient (m j) j >>= fun _ => eachClient m (is ++ [i])) e l Q
    have h' : wlp (forClient (m j) j >>= fun _ => eachClient m is) e l _ := h
    rw [wlp_bind] at h' ⊢
    exact wlp_mono h' fun _ _ hrest => ih hrest

omit [LinearOrder D] in
theorem phaseTraffic_succ (m : ℕ → Cmd D Unit) (observe : ℕ → Sess D → Traffic) {n : ℕ}
    (h : stateAfter (eachClient m (List.range n)) e l = l₁) :
    phaseTraffic m observe (n + 1) e l = fun i => phaseTraffic m observe n e l i ++
      if i = n then (l₁.clients n).elim {} fun c => observe n (l₁.sess c) else {} := by
  funext i
  unfold phaseTraffic
  by_cases hi : i = n
  · subst hi
    rw [if_pos (Nat.lt_succ_self i), if_neg (Nat.lt_irrefl i), if_pos rfl, Traffic.empty_append, h]
  · rw [if_neg hi, Traffic.append_empty]
    exact if_congr (by omega) rfl rfl

theorem eachClient_moves {m : ℕ → Cmd D Unit} {observe : ℕ → Sess D → Traffic}
    (hm : ∀ i, Follows e fails now i (m i) (observe i)) (hl : l.Inv) (n : ℕ) :
    wlp (eachClient m (List.range n)) e l fun _ l' =>
      LoopLeads e fails l now (phaseTraffic m observe n e l) l' now := by
  induction n with
  | zero => exact wlp_pure _ .refl
  | succ n ih =>
    rw [List.range_succ]
    refine wlp_eachClient_snoc fun u l₁ hrun => ?_
    have hbefore := ih u l₁ hrun
    refine wlp_mono (forClient_moves (hm n) (hbefore.inv hl)) fun _ l₂ hlast => ?_
    rw [phaseTraffic_succ m observe (stateAfter_of_ok hrun)]
    exact hbefore.trans hlast

theorem acceptClients_moves : ∀ {n : ℕ} {l : EventLoop D},
    wlp (acceptClients n) e l fun _ l' => LoopLeads e fails l now (fun _ => {}) l' now
  | 0, _ => wlp_pure _ .refl
  | n + 1, l => by
    show wlp (Prog.modify EventLoop.clientAdd >>= fun _ => acceptClients n) e l _
    rw [wlp_bind]
    refine wlp_of_wp (wp_modify.mpr (wlp_mono acceptClients_moves fun _ l' hrest => ?_))
    exact LoopLeads.quiet (.one (.plain .join trivial) fun _ => rfl) hrest

theorem serviceBlocked_moves (now : Int) (hl : l.Inv) :
    wlp serviceBlocked e l fun _ l' => LoopLeads e fails l now
    (phaseTraffic (fun _ => serviceClient (e.mono l.monoTick)) (fun _ => serviceTraffic e (e.mono l.monoTick))
      l.accepted e
      { l with monoTick := l.monoTick + 1 }) l' (e.mono l.monoTick) := by
  unfold serviceBlocked
  rw [wlp_bind]
  refine wlp_of_wp (wp_step.mpr ?_)
  rw [wlp_bind]
  refine wlp_of_wp (wp_get.mpr ?_)
  have hpass : LoopLeads e fails l now (fun _ => {}) _ _ := .one (.pass l now) fun _ => rfl
  exact wlp_mono (eachClient_moves (fun _ => serviceClient_moves) (hpass.inv hl) _) fun _ l' hrest =>
    hpass.trans hrest

theorem clientFree_moves (l : EventLoop D) (i : ℕ) :
    LoopLeads e fails l now (fun _ => {}) (l.clientFree i) now := by
  unfold EventLoop.clientFree
  split
  · exact .refl
  · rename_i c hi
    split
    · rename_i hclosed
      exact .one (.plain (.leave hi hclosed) trivial) fun _ => rfl
    · exact .refl

theorem foldl_clientFree_moves : ∀ (is : List ℕ) (l : EventLoop D),
    LoopLeads e fails l now (fun _ => {}) (is.foldl EventLoop.clientFree l) now
  | [], _ => .refl
  | i :: rest, l => (clientFree_moves l i).quiet (foldl_clientFree_moves rest (l.clientFree i))

theorem removeClosedClients_moves :
    wlp removeClosedClients e l fun _ l' => LoopLeads e fails l now (fun _ => {}) l' now := by
  unfold removeClosedClients
  rw [wlp_bind]
  exact wlp_of_wp (wp_get.mpr (wlp_of_wp (wp_modify.mpr (foldl_clientFree_moves _ l))))

/-- The socket of client `i` reports no error in a turn. -/
structure Poll.Healthy (poll : Poll) (i : ℕ) : Prop where
  reads : ∀ results ∈ poll.reads i, .failed ∉ results
  writes : ∀ result ∈ poll.writes i, result ≠ .failed ∧ result ≠ .sent 0

theorem readLoop_healthy {results : List ReadResult} (h : .failed ∉ results) :
    (readLoop results).2 ≠ .failed := by
  fun_induction readLoop results with
  | case1 => exact ReadEnd.noConfusion
  | case2 => exact ReadEnd.noConfusion
  | case3 => exact ReadEnd.noConfusion
  | case4 chunk rest hne hlong ih => exact ih fun hrest => h (List.mem_cons_of_mem _ hrest)
  | case5 rest ih => exact ih fun hrest => h (List.mem_cons_of_mem _ hrest)
  | case6 => exact ReadEnd.noConfusion
  | case7 => exact absurd List.mem_cons_self h

theorem writeLoop_healthy {len sent : ℕ} {results : List WriteResult}
    (h : ∀ result ∈ results, result ≠ .failed ∧ result ≠ .sent 0) : (writeLoop len results sent).2 =
      false := by
  fun_induction writeLoop len results sent with
  | case1 => rfl
  | case2 => rfl
  | case3 => exact absurd rfl (h _ List.mem_cons_self).2
  | case4 _ _ _ _ _ ih => exact ih fun result hresult => h result (List.mem_cons_of_mem _ hresult)
  | case5 _ _ _ ih => exact ih fun result hresult => h result (List.mem_cons_of_mem _ hresult)
  | case6 => rfl
  | case7 => exact absurd rfl (h _ List.mem_cons_self).1

theorem reading_moves {poll : Poll} {i : ℕ} (hpoll : ¬ fails i → poll.Healthy i) :
    Follows e fails now i ((poll.reads i).elim (pure ()) (readFromClient (D := D)))
      fun s => (poll.reads i).elim {} fun results => readTraffic e results s := by
  cases hreads : poll.reads i with
  | none => exact .pure ()
  | some results =>
    refine readFromClient_moves fun hfailed => ?_
    by_contra hi
    exact readLoop_healthy ((hpoll hi).reads results hreads) hfailed

theorem serverTurn_follows {poll : Poll} (hpoll : ∀ i, ¬ fails i → poll.Healthy i) (now : Int) (hl : l.Inv) :
    wlp (serverTurn poll) e l fun _ l' => ∃ now', LoopLeads e fails l now (turnTraffic e poll l) l' now' := by
  unfold serverTurn
  rw [wlp_bind]
  refine wlp_of_wp (wp_get.mpr ?_)
  rw [wlp_bind]
  intro _ l₀ hreads
  have hread : LoopLeads e fails l now _ l₀ now :=
    eachClient_moves (fun i => reading_moves (hpoll i)) hl _ _ l₀ hreads
  rw [wlp_bind]
  intro _ l₁ haccepts
  have haccepted := hread.quiet (acceptClients_moves _ l₁ haccepts)
  have hstate₁ := stateAfter_of_ok
    ((bind_of_ok (f := fun _ => acceptClients poll.accepts) hreads).trans haccepts)
  rw [wlp_bind]
  intro _ l₂ hservice
  have hserved : ∃ now', LoopLeads e fails l₁ now (fun i => if l.anyBlocked then
      phaseTraffic (fun _ => serviceClient (e.mono l₁.monoTick))
        (fun _ => serviceTraffic e (e.mono l₁.monoTick))
        l₁.accepted e { l₁ with monoTick := l₁.monoTick + 1 } i else {}) l₂ now' := by
    have hstep := hservice
    split at hstep
    · rename_i hblocked
      simp only [hblocked, if_true]
      exact ⟨_, serviceBlocked_moves now (haccepted.inv hl) _ l₂ hstep⟩
    · rename_i hblocked
      cases hstep
      simp only [hblocked]
      exact ⟨now, .refl⟩
  obtain ⟨now', hserved⟩ := hserved
  have hpassed := haccepted.trans hserved
  rw [wlp_bind]
  refine wlp_of_wp (wp_get.mpr ?_)
  rw [wlp_bind]
  intro _ l₃ hwrites
  have hwritten := hpassed.trans
    (eachClient_moves (fun i => flush_moves fun len hfailed => ?writing) (hpassed.inv hl) _ _ l₃ hwrites)
  case writing =>
    by_contra hi
    rw [writeLoop_healthy (hpoll i hi).writes] at hfailed
    cases hfailed
  intro _ l' hremoves
  have hremoved := hwritten.quiet (removeClosedClients_moves _ l' hremoves)
  refine ⟨now', ?_⟩
  unfold turnTraffic
  simp only [hstate₁, stateAfter_of_ok hservice]
  exact hremoved

theorem serverRun_follows : ∀ {polls : List Poll} {l : EventLoop D} (now : Int),
    (∀ poll ∈ polls, ∀ i, ¬ fails i → poll.Healthy i) → l.Inv →
    wlp (serverRun polls) e l fun _ l' => ∃ now', LoopLeads e fails l now (serverTraffic e polls l) l' now'
  | [], _, now, _, _ => wlp_pure _ ⟨now, .refl⟩
  | poll :: rest, l, now, hpolls, hl => by
    obtain ⟨hpoll, hrest⟩ := List.forall_mem_cons.mp hpolls
    unfold serverRun
    rw [wlp_bind]
    intro _ l₁ hturn
    obtain ⟨now₁, hfirst⟩ := serverTurn_follows hpoll now hl _ l₁ hturn
    refine wlp_mono (serverRun_follows now₁ hrest (hfirst.inv hl)) fun _ l' hlater => ?_
    obtain ⟨now', hlater⟩ := hlater
    refine ⟨now', ?_⟩
    rw [serverTraffic_cons hturn]
    exact hfirst.trans hlater

/-- Turns of the loop are a run of `Moves`: the moves have received what the sockets gave, have sent what they
took, and have run the requests that the turns ran, client by client. -/
theorem serverRun_moves {polls : List Poll} (hl : l.Inv) (h : serverRun polls e l = .ok ((), l')) :
    ∃ evs, Run (Moves e) l evs l' ∧ ∀ i, traffic i evs = serverTraffic e polls l i := by
  have hall : ∀ poll ∈ polls, ∀ i, ¬ True → poll.Healthy i := fun _ _ _ hi => absurd trivial hi
  obtain ⟨now', evs, hrun, htraffic⟩ := serverRun_follows 0 hall hl () l' h
  exact ⟨evs, runLoop_moves hrun, htraffic⟩

end Turns

/-- A request at the front of the buffer that may run, outside a transaction, is a move with one call. -/
theorem exists_request {e : Env D} {l : EventLoop D} {i : ℕ} {c : Client} {req : RespValue} {used : ℕ}
    (hl : l.Inv) (hi : l.clients i = some c) (hfree : c.blockedReq = none) (hopen : c.closeAfterReply = false)
    (hidle : c.txn.active = false) (hparse : respParseCommand c.inBuf = .ok (req, used))
      (hreq : Runnable D req) :
    ∃ x s, x.req = req ∧ Runs e true false (l.sess c) x s ∧
      Moves e l (.request i req x.result (s.client.out.drop c.out.length) [x])
        (l.put i s (some { s.client.processed req x.result with inBuf := c.inBuf.drop used })) := by
  obtain ⟨spec, hacc, hkind⟩ := hreq
  have hcount : req.count ≠ 0 := fun h => hacc.request.nonempty (List.eq_nil_of_length_eq_zero h)
  have hs := hl.sess hi c.inBuf
  obtain ⟨r, s, hrun, hp⟩ := wp_iff.mp (commandProcess_wp (e := e) hs hacc.request)
  obtain ⟨xs, hxs⟩ := hp.executes hs
  have hmv := Moves.request hi hfree hopen hparse hcount (List.suffix_refl _) hrun hxs
  cases hxs with
  | @own x _ _ hx hruns => exact ⟨x, s, hx, hruns, hmv⟩
  | queue _ _ hactive => exact absurd (hidle.symm.trans hactive) (by decide)
  | nothing hown => exact absurd (hidle.symm.trans (hown ⟨spec, hacc, hkind⟩)) (by decide)

theorem moves_first (e : Env D) (store : Store D) :
    Moves e (.start store) (.join 0) (EventLoop.start store).clientAdd ∧
      (EventLoop.start store).clientAdd.clients 0 = some {} := ⟨.join, EventLoop.put_self ..⟩

theorem exists_first (e : Env D) {store : Store D} (hv : store.Valid) {bytes : Bytes}
    {req : RespValue} {used : ℕ} (hparse : respParseCommand bytes = .ok (req, used)) (hreq : Runnable D req) :
    ∃ x s, x.req = req ∧ Runs e true false { store := store, client := { inBuf := bytes } } x s ∧
      ∃ l₁ l₂ l, Moves e (.start store) (.join 0) l₁ ∧ Moves e l₁ (.receive 0 bytes) l₂ ∧
        Moves e l₂ (.request 0 req x.result s.client.out [x]) l ∧ l₂.store = store ∧
        (∀ c, l.sess c = { s with client := c }) ∧
        l.clients 0 = some { s.client.processed req x.result with inBuf := bytes.drop used } := by
  obtain ⟨hjoin, hc⟩ := moves_first e store
  have hreceive := Moves.receive (e := e) hc bytes
  have hc' := EventLoop.put_self (EventLoop.start store).clientAdd 0
    ((EventLoop.start store).clientAdd.sess {}) (some { ({} : Client) with inBuf := bytes })
  have hinv := hreceive.inv (hjoin.inv (EventLoop.inv_start hv))
  obtain ⟨x, s, hx, hruns, hrequest⟩ := exists_request (e := e) hinv hc' rfl rfl rfl hparse hreq
  exact ⟨x, s, hx, hruns, _, _, _, hjoin, hreceive, hrequest, rfl, fun _ => rfl, EventLoop.put_self ..⟩

/-! ## What the store sees -/

/-- The calls of handlers in some moves. -/
def calls (evs : List Move) : List Execution := evs.flatMap Move.runs

section Serves
variable {e : Env D} {l l' : EventLoop D}

theorem Moves.serves {mv : Move} (h : Moves e l mv l') : Run (Serves e) l.store mv.runs l'.store := by
  cases h with
  | request _ _ _ _ _ _ _ hruns => exact hruns.serves
  | retry _ _ _ _ hx => exact hx.serves
  | _ => exact .nil _

/-- What a run does to the store is what the calls of handlers do, one after the other. -/
theorem runMoves_serves {evs : List Move} (h : Run (Moves e) l evs l') :
    Run (Serves e) l.store (calls evs) l'.store :=
  h.expand (fun l => l.store) Move.runs fun _ _ _ hmv => hmv.serves

end Serves
end PulseDB
