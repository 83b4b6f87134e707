import PulseDB.Cmd.Frame
import PulseDB.Lib.Deque
import PulseDB.Resp.ReplyCodec

/-!
# What the commands do to the lists

The lists of the store are double-ended queues under keys (`DequeOp`). Which operation a command has made on
them can be told from its name, its arguments and its reply.

* `listAction`, `dequeOp` : the operation that the name, the arguments and the reply tell;
* `Acts name proc` : the handler makes this operation, except under keys that it overwrites;
* `writers t`, `commandTable_leaves` : the commands that write values of a type; all others leave them as they
  are;
* `commandTable_acts` : every handler of the table makes the operation that its reply tells.
-/

namespace PulseDB
open Lib Lib.Prog

/-! ## The operation a reply tells -/

/-- What a command does to lists. -/
inductive ListAction where
  | push (atHead : Bool)
  | pop (atHead : Bool)
  | blpop
  | del
  | set
  | other
  deriving DecidableEq

def listAction (name : Bytes) : ListAction :=
  if name = ascii "lpush" then .push true
  else if name = ascii "rpush" then .push false
  else if name = ascii "lpop" then .pop true
  else if name = ascii "rpop" then .pop false
  else if name = ascii "blpop" then .blpop
  else if name = ascii "del" then .del
  else if name = ascii "set" then .set
  else .other

/-- The operation on the lists that a reply tells; no reply if the command blocked. -/
def dequeOp : ListAction → List Bytes → Option Reply → DequeOp Bytes Bytes
  | .push atHead, args, some (.integer _) => .push (args.getD 1 []) (args.drop 2) atHead
  | .pop atHead, args, some (.bulk value) => .pop (args.getD 1 []) value atHead
  | .blpop, _, some (.array [.bulk key, .bulk value]) => .pop key value true
  | _, _, _ => .idle

/-- The command replaces or removes whatever the key holds. -/
def Overwrites (action : ListAction) (args : List Bytes) (k : Bytes) : Prop :=
  match action with
  | .del => k ∈ args.drop 1
  | .set => args.getD 1 [] = k
  | _ => False

variable {D : Type} [LinearOrder D]

theorem RespValue.Clean.argStr {ctx : CommandCtx} (h : ctx.req.Clean) {i : ℕ} {k : Bytes}
    (hk : ctx.argStr i = some k) :
    i < ctx.argc ∧ ctx.argv i = k := by
  unfold CommandCtx.argStr at hk
  unfold CommandCtx.argv
  cases hx : ctx.req.elements[i]? with
  | none =>
    rw [hx] at hk
    cases hk
  | some x =>
    rw [hx, Option.bind_some] at hk
    rw [Option.bind_some]
    obtain ⟨str, hstr, hz, -⟩ := h x (List.mem_of_getElem? hx)
    rw [hstr, Option.map_some, cstr_of_clean hz] at hk
    rw [hstr]
    exact ⟨(List.getElem?_eq_some_iff.mp hx).1, Option.some.inj hk⟩

/-! ## Pushes and pops -/

section Called
variable {e : Env D} {s s' : Sess D} {key value : Bytes} {atHead : Bool}

theorem Called.pushed (hv : s.store.Valid) {n : ℕ} (hc : Called e s (.listPush value atHead) key (.ok n) s') :
    s'.store.listAt key = pushAll atHead [value] (s.store.listAt key) := by
  rw [hc.listAt_self, listPush_nodes, ← hc.result, hv.live_nodes]
  cases atHead <;> rfl

theorem Called.popped (hv : s.store.Valid) (hc : Called e s (.listPop atHead) key (.ok value) s') :
    s.store.listAt key = pushAll atHead [value] (s'.store.listAt key) := by
  have hpop := listPop_nodes atHead (e.clock (s.tick + 1)) (hv.of_live (e.clock s.tick) key)
  rw [← hc.result, hv.live_nodes, ← hc.listAt_self] at hpop
  rw [hpop]
  cases atHead <;> rfl

end Called

/-! ## The handlers -/

/-- The call ended with the status `st` and wrote the reply `o`. -/
def Wrote (s : Sess D) (st : CmdStatus) (o : Option Reply) (s' : Sess D) : Prop :=
  match st, o with
  | .done, some v => v.WF ∧ s'.client.out = s.client.out ++ v.enc
  | .block, none => True
  | _, _ => False

/-- With a clean request of at least `n` arguments and a valid store, the handler of the command `name` makes
the operation on the lists that its reply tells, except under keys it overwrites. -/
def Acts (n : ℕ) (name : Bytes) (proc : CommandCtx → Cmd D CmdStatus) : Prop :=
  ∀ (ctx : CommandCtx) (e : Env D) (s : Sess D), ctx.req.Clean → n ≤ ctx.argc → s.store.Valid →
    wp (proc ctx) e s fun st s' => ∃ o, Wrote s st o s' ∧ ∀ k, ¬ Overwrites (listAction name) ctx.req.args k →
      (dequeOp (listAction name) ctx.req.args o).At k (s.store.listAt k) (s'.store.listAt k)

section Acts
variable {ctx : CommandCtx} {e : Env D} {s s' : Sess D} {n : ℕ} {name : Bytes}

theorem Acts.mono {m : ℕ} {proc : CommandCtx → Cmd D CmdStatus} (h : Acts m name proc) (hmn : m ≤ n) :
    Acts n name proc :=
  fun ctx e s hc hn hv => h ctx e s hc (hmn.trans hn) hv

theorem Answers.wrote {st : CmdStatus} (h : Answers e ctx s st s') : ∃ o, Wrote s st o s' := by
  obtain ⟨-, -, h⟩ := h
  cases st with
  | done =>
    obtain ⟨v, hv, hclient, -⟩ := h
    exact ⟨some v, hv, by rw [hclient]⟩
  | block => exact ⟨none, trivial⟩

/-- A handler that leaves a part of the cells as it is, and writes some reply. -/
theorem Leaves.wrote {β : Type} {p : Part D β} {K : Bytes → Prop} {proc : CommandCtx → Cmd D CmdStatus}
    (hl : Leaves p K (proc ctx)) (hh : Serving n proc) (hc : ctx.req.Clean) (hn : n ≤ ctx.argc)
      (hv : s.store.Valid) :
    wp (proc ctx) e s fun st s' => ∃ o, Wrote s st o s' ∧
      ∀ k, ¬ K k → p.read (s'.store.cells k) = p.read (s.store.cells k) := by
  obtain ⟨st, s', hrun, hans⟩ := wp_iff.mp (hh ctx e s hc hn hv)
  obtain ⟨o, ho⟩ := hans.1.wrote
  rw [wp_of_ok hrun]
  exact ⟨o, ho, (hl e s hv st s' hrun).2⟩

theorem acts_of_leaves {proc : CommandCtx → Cmd D CmdStatus} (hh : Serving n proc)
    (hl : ∀ ctx : CommandCtx, ctx.req.Clean →
      LeavesLists (Overwrites (listAction name) ctx.req.args) (proc ctx))
    (hidle : ∀ args o, dequeOp (listAction name) args o = .idle) : Acts n name proc := by
  intro ctx e s hc hn hv
  have hlists : Leaves (listPart D) (Overwrites (listAction name) ctx.req.args) (proc ctx) := hl ctx hc
  refine wp_mono (hlists.wrote hh hc hn hv) fun st s' ⟨o, ho, hsame⟩ => ⟨o, ho, fun k hk => ?_⟩
  rw [hidle]
  exact hsame k hk

theorem acts_idle {s₁ : Sess D} (hv : s.store.Valid) (h : Quiet e s [] s₁) {v : Reply} (hwf : v.WF)
    {b : Bytes}
    (hb : b = v.enc) {action : ListAction} (hidle : dequeOp action ctx.req.args (some v) = .idle) :
    wp (answer b) e s₁ fun st s' => ∃ o, Wrote s st o s' ∧ ∀ k, ¬ Overwrites action ctx.req.args k →
      (dequeOp action ctx.req.args o).At k (s.store.listAt k) (s'.store.listAt k) := by
  refine wp_answer.mpr ⟨some v, ⟨hwf, ?_⟩, fun k _ => ?_⟩
  · rw [h.client, hb, List.append_nil]
  · rw [hidle]
    exact h.purged.listAt hv k

theorem pushCommon_acts {atHead : Bool} (hname : listAction name = .push atHead) :
    Acts 2 name fun ctx => pushCommon (D := D) ctx atHead := by
  intro ctx e s hc hn hv
  rw [hname]
  unfold pushCommon pushCommonWith
  rw [wp_bind, wp_arg hc (by omega), wp_bind]
  refine wp_mono (otherType_wp (.start hv)) fun other s₁ ⟨hq, hty⟩ => ?_
  split
  · exact acts_idle (v := .error _) hv hq (errorLine_line _) (replyError_eq _) rfl
  · rename_i hother
    rw [wp_bind]
    -- the values before `i` have been pushed, and the key holds a list or nothing
    refine wp_forFrom (fun i _ s' => 2 ≤ i ∧ i ≤ ctx.argc ∧ Ran s [] s' ∧
      OfType .list (s'.store.cells (ctx.argv 1)) ∧
        (∀ k, k ≠ ctx.argv 1 → s'.store.listAt k = s.store.listAt k) ∧
        s'.store.listAt (ctx.argv 1) =
          pushAll atHead ((ctx.req.args.take i).drop 2) (s.store.listAt (ctx.argv 1)))
      ⟨Nat.le_refl _, hn, hq.toRan, hty (Bool.not_eq_true _ ▸ hother), fun k _ => hq.purged.listAt hv k, ?_⟩
      (fun i len s' h hi => ?_) fun i len s' h hi => ?_
    · rw [List.drop_eq_nil_of_le (List.length_take_le _ _), pushAll_nil]
      exact hq.purged.listAt hv _
    · obtain ⟨h2, hle, hran, hty, hothers, hself⟩ := h
      rw [wp_bind, wp_arg hc (by omega), wp_bind, wp_arg hc hi, wp_bind]
      refine wp_call hran.valid fun r s'' hcall => ?_
      obtain ⟨len', rfl, hran', hty'⟩ := hran.wrote hty (listPush_writes _ _) hcall
      refine ⟨Nat.lt_succ_self i, by omega, hi, hran', hty', fun k hk => ?_, ?_⟩
      · rw [hcall.listAt_other hk, hothers k hk]
      · have htake : 2 ≤ (ctx.req.args.take i).length := by
          rw [List.length_take, ctx.args_length]
          omega
        rw [hcall.pushed hran.valid, hself, CommandCtx.args_take_succ hi, List.drop_append_of_le_length htake,
          pushAll_snoc]
    · obtain ⟨h2, hle, hran, -, hothers, hself⟩ := h
      refine wp_answer.mpr ⟨some (.integer len), ⟨trivial, ?_⟩, fun k _ => ?_⟩
      · rw [hran.client, replyInteger_eq, List.append_nil]
      · rw [List.take_of_length_le (by rw [ctx.args_length]; exact hi)] at hself
        show s'.store.listAt k = if ctx.req.args.getD 1 [] = k then _ else _
        rw [RespValue.args_getD ctx.req ctx.canBlock ctx.timedOut]
        split
        · rename_i hk
          rw [← hk]
          exact hself
        · rename_i hk
          exact hothers k fun heq => hk heq.symm

theorem popped_at {key value : Bytes} {atHead : Bool} (hv : s.store.Valid)
    (hcall : Called e s (.listPop atHead) key (.ok value) s') (k : Bytes) :
    (DequeOp.pop key value atHead).At k (s.store.listAt k) (s'.store.listAt k) := by
  show s.store.listAt k = if key = k then _ else _
  split
  · rename_i hk
    rw [← hk]
    exact hcall.popped hv
  · rename_i hk
    exact (hcall.listAt_other fun heq => hk heq.symm).symm

theorem popCommon_acts {atHead : Bool} (hname : listAction name = .pop atHead) :
    Acts 2 name fun ctx => popCommon (D := D) ctx atHead := by
  intro ctx e s hc hn hv
  have h := Quiet.start (e := e) hv
  rw [hname]
  unfold popCommon
  rw [wp_bind, wp_arg hc (by omega), wp_bind]
  refine wp_call hv fun r s' hcall => ?_
  cases r with
  | ok value =>
    refine wp_answer.mpr ⟨some (.bulk value), ⟨trivial, ?_⟩, fun k _ => ?_⟩
    · rw [hcall.client, replyBulkCstr_eq]
    · rw [dequeOp, RespValue.args_getD ctx.req ctx.canBlock ctx.timedOut]
      exact popped_at hv hcall k
  | error st =>
    have h' := h.called hcall fun _ _ hr => Cell.alter_error hr
    split
    · rename_i hr; cases hr
    · exact acts_idle (v := .error _) hv h' (errorLine_line _) (replyError_eq _) rfl
    · exact acts_idle hv h' (v := .nullBulk) trivial replyNull_eq rfl

theorem cmdBlpop_acts (hname : listAction name = .blpop) : Acts 3 name (cmdBlpop (D := D)) := by
  intro ctx e s hc hn hv
  have h := Quiet.start (e := e) hv
  rw [hname]
  refine cmdBlpop_wp hc hn (acts_idle (v := .error _) hv h (errorLine_line _) (replyError_eq _) rfl)
    (wp_mono (blpopKeys_wp (Q := fun st s' => ∃ o, Wrote s st o s' ∧ ∀ k, ¬ Overwrites .blpop ctx.req.args k →
      (dequeOp .blpop ctx.req.args o).At k (s.store.listAt k) (s'.store.listAt k)) hc h
      (fun s' h' => acts_idle (v := .error _) hv h' (errorLine_line _) (replyError_eq _) rfl)
      fun i value s₁ s₂ h₁ hcall => ?_) fun r s' h' => ?_)
  · refine wp_answer.mpr ⟨some (.array [.bulk (ctx.argv i), .bulk value]), ⟨⟨trivial, trivial, trivial⟩, ?_⟩,
      fun k _ => ?_⟩
    · rw [hcall.client, h₁.client, List.append_nil, ← replyArray_append, Reply.encs, Reply.encs, Reply.encs,
        replyBulkCstr_eq, replyBulkCstr_eq, List.append_nil, List.append_assoc]
      rfl
    · rw [← h₁.purged.listAt hv k]
      exact popped_at h₁.valid hcall k
  · rcases r with st | ⟨⟩
    · exact h'
    · refine ⟨acts_idle hv h' (v := .nullArray) trivial replyNullArray_eq rfl, fun _ _ timeout =>
        wp_mono (park_wp timeout) fun st s'' hpark => ⟨none, ?_, fun k _ => ?_⟩⟩
      · rw [hpark.1]
        trivial
      · rw [hpark.2.1]
        exact h'.purged.listAt hv k

/-! ## The table -/

/-- The commands that write values of a type under a key that holds nothing or such a value. -/
def writers : StoreType → List Bytes
  | .string => [ascii "incr", ascii "decr", ascii "incrby", ascii "decrby"]
  | .list => [ascii "lpush", ascii "rpush", ascii "lpop", ascii "rpop", ascii "blpop"]
  | .hash => [ascii "hset", ascii "hdel"]
  | .zset => [ascii "zadd", ascii "geoadd"]
  | .stream => [ascii "xadd"]

/-- Every command of kind `KIND_NORMAL` that is no writer of the type leaves the values of the type as they
are, except under the keys it overwrites. -/
theorem commandTable_leaves {β : Type} (p : Part D β) : ∀ spec ∈ commandTable (D := D), spec.kind = .normal →
    spec.name ∉ writers p.type → ∃ proc, spec.proc = some proc ∧ ∀ ctx : CommandCtx, ctx.req.Clean →
      Leaves p (Overwrites (listAction spec.name) ctx.req.args) (proc ctx) := by
  have hother : ∀ {t : StoreType} {name : Bytes}, name ∈ writers t → name ∉ writers p.type → p.type ≠ t :=
    fun hmem hw ht => hw (ht ▸ hmem)
  simp only [commandTable, List.forall_mem_cons, List.not_mem_nil, false_imp_iff, implies_true, and_true]
  refine ⟨fun _ _ => ⟨_, rfl, fun ctx _ => cmdPing_leaves ctx⟩,
    fun _ _ => ⟨_, rfl, fun ctx _ => cmdEcho_leaves ctx⟩,
    fun _ _ => ⟨_, rfl, fun ctx _ => cmdConfig_leaves ctx⟩,
      fun _ _ => ⟨_, rfl, fun ctx _ => cmdKeys_leaves ctx⟩,
    fun _ _ => ⟨_, rfl, fun ctx hc => (cmdSet_leaves ctx).mono fun k hk => ?_⟩,
    fun _ _ => ⟨_, rfl, fun ctx _ => cmdGet_leaves ctx⟩,
      fun _ _ => ⟨_, rfl, fun ctx _ => incrCommon_leaves ctx 1⟩,
    fun _ _ => ⟨_, rfl, fun ctx _ => incrCommon_leaves ctx (-1)⟩,
    fun _ _ => ⟨_, rfl, fun ctx _ => cmdIncrby_leaves ctx⟩,
      fun _ _ => ⟨_, rfl, fun ctx _ => cmdDecrby_leaves ctx⟩,
    fun _ _ => ⟨_, rfl, fun ctx hc => countKeys_leaves ctx (.inr fun i k hi hk => ?_)⟩,
    fun _ _ => ⟨_, rfl, fun ctx _ => countKeys_leaves ctx (.inl rfl)⟩,
    fun _ _ => ⟨_, rfl, fun ctx _ => cmdType_leaves ctx⟩,
    fun _ _ => ⟨_, rfl, fun ctx _ => ttlCommon_leaves ctx false⟩,
    fun _ _ => ⟨_, rfl, fun ctx _ => ttlCommon_leaves ctx true⟩,
    fun _ hw => ⟨_, rfl, fun ctx _ => pushCommon_leaves ctx (hother (t := .list) (by decide) hw) true⟩,
    fun _ hw => ⟨_, rfl, fun ctx _ => pushCommon_leaves ctx (hother (t := .list) (by decide) hw) false⟩,
    fun _ hw => ⟨_, rfl, fun ctx _ => popCommon_leaves ctx (hother (t := .list) (by decide) hw) true⟩,
    fun _ hw => ⟨_, rfl, fun ctx _ => popCommon_leaves ctx (hother (t := .list) (by decide) hw) false⟩,
    fun _ _ => ⟨_, rfl, fun ctx _ => cmdLlen_leaves ctx⟩,
      fun _ _ => ⟨_, rfl, fun ctx _ => cmdLrange_leaves ctx⟩,
    fun _ hw => ⟨_, rfl, fun ctx _ => cmdBlpop_leaves ctx (hother (t := .list) (by decide) hw)⟩,
    fun _ hw => ⟨_, rfl, fun ctx _ => cmdHset_leaves ctx (hother (t := .hash) (by decide) hw)⟩,
    fun _ _ => ⟨_, rfl, fun ctx _ => cmdHget_leaves ctx⟩,
      fun _ _ => ⟨_, rfl, fun ctx _ => cmdHgetall_leaves ctx⟩,
    fun _ _ => ⟨_, rfl, fun ctx _ => cmdHmget_leaves ctx⟩,
    fun _ hw => ⟨_, rfl, fun ctx _ => cmdHdel_leaves ctx (hother (t := .hash) (by decide) hw)⟩,
    fun _ _ => ⟨_, rfl, fun ctx _ => cmdHlen_leaves ctx⟩,
    fun _ hw => ⟨_, rfl, fun ctx _ => cmdZadd_leaves ctx (hother (t := .zset) (by decide) hw)⟩,
    fun _ _ => ⟨_, rfl, fun ctx _ => cmdZrange_leaves ctx⟩,
    fun _ _ => ⟨_, rfl, fun ctx _ => cmdZrangebyscore_leaves ctx⟩,
    fun _ _ => ⟨_, rfl, fun ctx _ => cmdZrank_leaves ctx⟩,
      fun _ _ => ⟨_, rfl, fun ctx _ => cmdZcard_leaves ctx⟩,
    fun _ _ => ⟨_, rfl, fun ctx _ => cmdZscore_leaves ctx⟩,
    fun _ hw => ⟨_, rfl, fun ctx _ => cmdGeoadd_leaves ctx (hother (t := .zset) (by decide) hw)⟩,
    fun _ _ => ⟨_, rfl, fun ctx _ => cmdGeodist_leaves ctx⟩,
      fun _ _ => ⟨_, rfl, fun ctx _ => cmdGeopos_leaves ctx⟩,
    fun _ hw => ⟨_, rfl, fun ctx _ => cmdXadd_leaves ctx (hother (t := .stream) (by decide) hw)⟩,
    fun _ _ => ⟨_, rfl, fun ctx _ => cmdXrange_leaves ctx⟩,
      fun _ _ => ⟨_, rfl, fun ctx _ => cmdXread_leaves ctx⟩,
    (absurd · (by decide)), (absurd · (by decide)), (absurd · (by decide))⟩
  · -- `SET` overwrites its key
    exact (RespValue.args_getD ..).trans (hc.argStr hk).2
  · -- `DEL` overwrites all its arguments
    obtain ⟨hlt, rfl⟩ := hc.argStr hk
    refine List.mem_of_getElem? (i := i - 1) ?_
    rw [List.getElem?_drop, Nat.add_sub_cancel' hi]
    exact ctx.args_getElem? hlt

theorem dequeOp_idle {args : List Bytes} {o : Option Reply} (h : name ∉ writers .list) :
    dequeOp (listAction name) args o = .idle := by
  simp only [writers, List.mem_cons, List.not_mem_nil, or_false, not_or] at h
  obtain ⟨h1, h2, h3, h4, h5⟩ := h
  rw [listAction, if_neg h1, if_neg h2, if_neg h3, if_neg h4, if_neg h5]
  split_ifs <;> rfl

/-- Every command of kind `KIND_NORMAL` makes the operation on the lists that its reply tells. -/
theorem commandTable_acts : ∀ spec ∈ commandTable (D := D), spec.kind = .normal →
    ∃ proc, spec.proc = some proc ∧ Acts spec.arity.natAbs spec.name proc := by
  intro spec hmem hkind
  by_cases hw : spec.name ∈ writers .list
  · -- the entry of the table with this name
    have hentry : ∀ {i : ℕ} {spec' : CommandSpec D}, commandTable[i]? = some spec' → spec.name = spec'.name →
        spec = spec' := fun hi hname => commandTable_eq hmem (List.mem_of_getElem? hi) hname
    simp only [writers, List.mem_cons, List.not_mem_nil, or_false] at hw
    rcases hw with hname | hname | hname | hname | hname
    · obtain rfl := hentry (i := 15) rfl hname
      exact ⟨_, rfl, (pushCommon_acts rfl).mono (n := 3) (by decide)⟩
    · obtain rfl := hentry (i := 16) rfl hname
      exact ⟨_, rfl, (pushCommon_acts rfl).mono (n := 3) (by decide)⟩
    · obtain rfl := hentry (i := 17) rfl hname
      exact ⟨_, rfl, popCommon_acts rfl⟩
    · obtain rfl := hentry (i := 18) rfl hname
      exact ⟨_, rfl, popCommon_acts rfl⟩
    · obtain rfl := hentry (i := 21) rfl hname
      exact ⟨_, rfl, cmdBlpop_acts rfl⟩
  · obtain ⟨proc, hproc, hserving⟩ := commandTable_serving spec hmem hkind
    obtain ⟨proc', hproc', hleaves⟩ := commandTable_leaves (listPart D) spec hmem hkind hw
    obtain rfl : proc = proc' := Option.some.inj (hproc.symm.trans hproc')
    exact ⟨proc, hproc, acts_of_leaves hserving (fun ctx hc => (hleaves ctx hc).lists) fun _ _ =>
      dequeOp_idle hw⟩

end Acts
end PulseDB
