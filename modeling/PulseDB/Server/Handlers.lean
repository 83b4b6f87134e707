import PulseDB.Cmd.Typed
import PulseDB.Rdb.Served
import PulseDB.Server.Moves

/-!
# What the handlers rely on

In the model `arg` is a fault beyond the last argument, and `run` is one without a handler. No request that
passes `validate` meets one, nor does a request that waits in a queue or is parked. A handler that looks a key
up several times relies on the type of the key; only strings expire, so that it does not change between two
lookups.

* `Handled` : the request has a handler, which returns;
* `handlers_in_bounds` : what may run in the states that the event loop reaches;
* `only_strings_expire` : the entries of these states, and the handlers that rely on them.
-/

namespace PulseDB
open Lib Lib.Prog

variable {D : Type} [LinearOrder D] {e : Env D}

/-- The commands whose handlers subtract from the number of arguments before they look at it. -/
def subtracting : List Bytes := [ascii "blpop", ascii "hmget", ascii "geoadd", ascii "geopos", ascii "xadd"]

/-- The request has a handler. It returns from every store, so that it reads no argument beyond the last; and
its subtractions from the number of arguments, of at most 3, do not wrap. -/
def Handled (e : Env D) (req : RespValue) : Prop :=
  ∃ (spec : CommandSpec D) (proc : CommandCtx → Cmd D CmdStatus),
    commandLookup req.name = some spec ∧ spec.proc = some proc ∧ (spec.name ∈ subtracting → 3 ≤ req.count) ∧
    ∀ (canBlock timedOut : Bool) (s : Sess D), s.store.Reachable →
      ∃ st s', proc ⟨req, canBlock, timedOut⟩ e s = .ok (st, s')

theorem commandTable_subtracting :
    ∀ spec ∈ commandTable (D := D), spec.name ∈ subtracting → 3 ≤ spec.arity.natAbs := by
  simp only [commandTable, List.forall_mem_cons, List.not_mem_nil, false_imp_iff, implies_true, and_true]
  and_intros <;> decide +kernel

theorem Runnable.handled {req : RespValue} (h : Runnable D req) : Handled e req := by
  obtain ⟨spec, hacc, hkind⟩ := h
  have hspec := (commandLookup_some hacc.found).1
  have harity := arityOk_le hacc.arity
  obtain ⟨proc, hproc, hserves⟩ := commandTable_serving spec hspec hkind
  refine ⟨spec, proc, hacc.found, hproc, fun hname => ?_, fun canBlock timedOut s hs => ?_⟩
  · exact (commandTable_subtracting spec hspec hname).trans harity
  · obtain ⟨st, s', hrun, -⟩ := wp_iff.mp (hserves ⟨req, canBlock, timedOut⟩ e s hacc.clean harity hs.valid)
    exact ⟨st, s', hrun⟩

theorem Accepted.validate {req : RespValue} {s : Sess D} {spec : CommandSpec D} (h : Accepted req spec) :
    validate req e s = .ok (some spec, s) := by
  obtain ⟨found, s', hvalid, hfound⟩ := wp_iff.mp (validate_wp (e := e) (s := s) h.request)
  cases found with
  | none => exact absurd h (hfound.1 spec)
  | some found =>
    obtain ⟨rfl, hfound⟩ := hfound
    rw [hvalid, hfound.unique h]

theorem accepted_of_validate {req : RespValue} {s s' : Sess D} {spec : CommandSpec D} (hp : req.IsParsed)
    (hcount : req.count ≠ 0) (h : validate req e s = .ok (some spec, s')) : Accepted req spec := by
  have hreq := hp.isRequest hcount (validate_wlp _ _ h).2
  exact (wp_post (validate_wp hreq) h).2

/-- The states of the event loop, started with any reachable store: some turns of the loop are a run of moves,
and after any run of moves, for every client. A request that passes `validate` is processed without a fault,
`EXEC` with all that it runs included, and unless it is one of the three commands of transactions it has a
handler that stays within its arguments; so have the requests in the queue of the client and the one that is
parked. -/
theorem handlers_in_bounds (e : Env D) {store : Store D} (hstore : store.Reachable) :
    (∀ polls l, serverRun polls e (.start store) = .ok ((), l) → ∃ evs, Run (Moves e) (.start store) evs l ∧
      ∀ i, traffic i evs = serverTraffic e polls (.start store) i) ∧
    ∀ evs l, Run (Moves e) (.start store) evs l → ∀ i c, l.clients i = some c →
      (∀ req buf spec s', req.IsParsed → req.count ≠ 0 →
        validate req e (l.sess { c with inBuf := buf }) = .ok (some spec, s') →
        (∃ r s'', commandProcess req e (l.sess { c with inBuf := buf }) = .ok (r, s'')) ∧
        (spec.kind = .normal → Handled e req)) ∧
      (∀ req ∈ c.txn.cmds, Handled e req) ∧ ∀ req ∈ c.blockedReq, Handled e req := by
  have hstart := EventLoop.inv_start hstore.valid
  refine ⟨fun polls l hrun => serverRun_moves hstart hrun, fun evs l hrun i c hi => ?_⟩
  have hinv := runMoves_inv hrun hstart
  have hc := hinv.server.clients i c hi
  refine ⟨fun req buf spec s' hp hcount hvalid => ?_, fun req hreq => ?_, fun req hreq => ?_⟩
  · have hacc := accepted_of_validate hp hcount hvalid
    obtain ⟨r, s'', hprocess, -⟩ := wp_iff.mp (commandProcess_wp (e := e) (hinv.sess hi buf) hacc.request)
    exact ⟨⟨r, s'', hprocess⟩, fun hkind => Runnable.handled ⟨spec, hacc, hkind⟩⟩
  · exact (hc.txn.runnable req hreq).handled
  · exact (hc.blocked req hreq).handled

/-- The first client sends `xadd k * f v`. -/
theorem handlers_in_bounds_xadd :
    let e := Env.integers (fun _ => 7) fun _ => 0
    let l := (EventLoop.start (storeCreate : Store Int)).clientAdd
    let req := RespValue.request [ascii "xadd", ascii "k", ascii "*", ascii "f", ascii "v"]
    (∃ r s, commandProcess req e (l.sess {}) = .ok (r, s)) ∧ Handled e req := by
  intro e l req
  have hacc : Accepted (D := Int) req ⟨ascii "xadd", -5, some cmdXadd, .normal⟩ :=
    accepted_request (List.mem_of_getElem? (rfl : commandTable[37]? = _)) rfl (by decide)
  have hparsed : req.IsParsed := ⟨rfl, fun x hx => Or.inl (hacc.request.bulks x hx)⟩
  obtain ⟨hjoin, hc⟩ := moves_first e storeCreate
  have hmove := (handlers_in_bounds e .create).2 _ l (.one hjoin) 0 {} hc
  obtain ⟨hprocess, hhandled⟩ := hmove.1 req [] _ _ hparsed (by decide) hacc.validate
  exact ⟨hprocess, hhandled rfl⟩

/-! ## Types and expiry -/

/-- A list, hash, sorted set or stream is not empty. -/
def Value.Populated : Value D → Prop
  | .str _ => True
  | .list l => l.nodes ≠ []
  | .hash h => h.buckets.flatten ≠ []
  | .zset z => z.entries ≠ []
  | .stream t => t.entries ≠ []

theorem Value.Inv.populated {v : Value D} (h : v.Inv) : v.Populated := by
  cases v with
  | str text => trivial
  | list l => exact h.2
  | hash table => exact fun hnil => h.2 (h.1.len.trans (congrArg List.length hnil))
  | zset z => exact h.2
  | stream t => exact h.2

/-- From any dump file and for any readings of the clocks: in every state that the event loop reaches, each
entry of the store that is not a string has no expiry and is not empty. The handlers that look a key up
several times, run from a valid store at any readings of the clock, make no later call on a key they have
checked that answers `STORE_WRONG_TYPE`: with a fault of its own in the place of such an answer they do the
same, and do not meet it. -/
theorem only_strings_expire (e : Env D) (clock : ℕ → Int) (file : Option Bytes) :
    (∀ polls l, serverRun polls e (.start (startupStore clock file)) = .ok ((), l) →
      ∃ evs, Run (Moves e) (.start (startupStore clock file)) evs l ∧
        ∀ i, traffic i evs = serverTraffic e polls (.start (startupStore clock file)) i) ∧
    (∀ evs l, Run (Moves e) (.start (startupStore clock file)) evs l → l.store.Valid ∧
      ∀ x ∈ l.store.buckets.flatten, x.value.type ≠ .string → x.expiresAt = 0 ∧ x.value.Populated) ∧
    ∀ (h : MultiStep) (ctx : CommandCtx), h.procWith (D := D) call ctx = h.proc ctx ∧
      ∀ (e' : Env D) (s : Sess D), s.store.Valid →
        h.procWith callTyped ctx e' s = h.proc ctx e' s ∧
        h.procWith callTyped ctx e' s ≠ .error .retyped := by
  have hstart : (EventLoop.start (startupStore clock file : Store D)).Inv :=
    EventLoop.inv_start (startupStore_reachable clock file).valid
  refine ⟨fun polls l hrun => serverRun_moves hstart hrun, fun evs l hrun => ?_, fun h ctx => ?_⟩
  · have hv := (runMoves_inv hrun hstart).server.store
    refine ⟨hv, fun x hx htype => ?_⟩
    have hcell := Store.cells_of_walk (hv.inv.walk_eq_some.mpr ⟨hx, rfl⟩)
    obtain ⟨hvalue, hexpiry⟩ := hv.cells _ _ hcell
    exact ⟨hexpiry htype, hvalue.populated⟩
  · refine ⟨h.procWith_call ctx, fun e' s hv => ?_⟩
    have hsame := h.procWith_callTyped ctx e' hv
    exact ⟨hsame, hsame ▸ (h.proc_made ctx).not_retyped e' s⟩

end PulseDB
