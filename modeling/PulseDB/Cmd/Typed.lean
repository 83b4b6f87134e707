import PulseDB.Cmd.Steps

/-!
# Handlers that look a key up several times

Some handlers check the type of a key and go on to call the store again on the key, at later readings of the
clock, and do not look at the status of these calls. The later calls are a parameter of such a handler
(`pushCommonWith`, ...). With `call` it is the handler itself; with `callTyped`, for which `STORE_WRONG_TYPE`
is a fault that no handler has, it still does the same.

* `StoreOp.Under` : the operation does not find another type, and leaves none, on a key of the type or an
  absent one;
* `MultiStep` : the handlers; `MultiStep.proc_made` : none has this fault; `MultiStep.procWith_callTyped` : no
  later call of theirs answers `STORE_WRONG_TYPE`.
-/

namespace PulseDB
open Lib Lib.Prog

variable {D : Type} [LinearOrder D]

/-! ## Operations under a type -/

/-- On a key that is absent or of the type `t` the operation does not answer `STORE_WRONG_TYPE`, and the key
stays so. -/
structure StoreOp.Under {β : Type} (op : StoreOp D (Except StoreStatus β)) (t : StoreType) : Prop where
  answers : ∀ {now' o}, OfType t o → (op.step now' o).1 ≠ .error .wrongType
  keeps : ∀ {now' o}, OfType t o → OfType t (op.step now' o).2

section Under
variable {β : Type} {op : StoreOp D (Except StoreStatus β)} {t : StoreType}

theorem StoreOp.Writes.under (h : op.Writes t) : op.Under t where
  answers ht := by
    obtain ⟨b, hb⟩ := h.ok ht
    rw [hb]
    exact nofun
  keeps ht := by
    obtain ⟨b, hb⟩ := h.ok ht
    exact h.typed hb

theorem StoreOp.under_of_inspect {A : Type} (as : Value D → Option A) (f : A → Option β)
    (hstep : ∀ now' o, op.step now' o = Cell.inspect as f o) (has : ∀ v, (as v).isSome ↔ v.type = t) :
      op.Under t where
  answers {now' o} ht := by
    rw [hstep, Cell.inspect]
    cases o with
    | none =>
      intro h
      cases h
    | some c =>
      obtain ⟨a, ha⟩ := Option.isSome_iff_exists.mp ((has c.value).mpr (ht c rfl))
      rw [Cell.read_typed ha]
      show (f a).elim _ _ ≠ _
      intro h
      cases hf : f a with
      | none =>
        rw [hf] at h
        cases h
      | some b =>
        rw [hf] at h
        cases h
  keeps {now' o} ht := by
    rw [hstep]
    exact ht

theorem listPush_under (value : Bytes) (atHead : Bool) :
    (StoreOp.listPush (D := D) value atHead).Under .list :=
  (listPush_writes value atHead).under

theorem hashGet_under (field : Bytes) : (StoreOp.hashGet (D := D) field).Under .hash :=
  StoreOp.under_of_inspect Value.asHash (·.get field) (fun _ _ => rfl) Value.asHash_isSome

theorem zsetScore_under (member : Bytes) : (StoreOp.zsetScore (D := D) member).Under .zset :=
  StoreOp.under_of_inspect Value.asZset (·.scoreOf member) (fun _ _ => rfl) Value.asZset_isSome

theorem getStream_under : (StoreOp.getStream (D := D)).Under .stream :=
  StoreOp.under_of_inspect Value.asStream some (fun _ _ => rfl) Value.asStream_isSome

end Under

/-! ## Later calls -/

/-- A call for which `STORE_WRONG_TYPE` is a fault of its own. -/
def callTyped : StoreCall D := fun op key => do
  match ← call op key with
  | .error .wrongType => Prog.fault .retyped
  | r => return r

/-- The calls of the loops of `cmd_hset` and `cmd_hdel`, where the call of the first round is the type
check. -/
def afterFirst (later : StoreCall D) (i : ℕ) : StoreCall D := fun op key =>
  if i = 2 then call op key else later op key

/-- The calls of the first loop of `cmd_xread`, which check the type of a key where it stands first in the
list. -/
def onRepeated (later : StoreCall D) (ctx : CommandCtx) (first k : ℕ) : StoreCall D := fun op key =>
  if ∃ j < k, ctx.argStr (first + j) = some key then later op key else call op key

/-- The store is valid, and the key is absent or of the type `t`. -/
structure Sess.Typed (s : Sess D) (t : StoreType) (key : Bytes) : Prop where
  valid : s.store.Valid
  type : OfType t (s.store.cells key)

section Calls
variable {e : Env D} {s s' : Sess D} {t : StoreType} {key : Bytes} {β : Type}
  {op : StoreOp D (Except StoreStatus β)} {r : Except StoreStatus β}

theorem callTyped_eq (h : s.Typed t key) (hop : op.Under t) : callTyped op key e s = call op key e s := by
  have hwp : wp (call op key) e s (Called e s op key) := wp_call h.valid fun _ _ hc => hc
  obtain ⟨r, s', hcall, hc⟩ := wp_iff.mp hwp
  have hr : r ≠ .error .wrongType := by
    rw [hc.result]
    exact hop.answers (h.type.live _)
  rw [callTyped, bind_of_ok hcall, hcall]
  split
  · exact absurd rfl hr
  · rfl

theorem Sess.Typed.called (h : s.Typed t key) (hop : op.Under t) (hc : Called e s op key r s') :
    s'.Typed t key := by
  refine ⟨hc.valid, ?_⟩
  rw [hc.cells, Function.update_self]
  exact hop.keeps (h.type.live _)

theorem call_wlp {α : Type} {op : StoreOp D α} (hv : s.store.Valid) :
    wlp (call op key) e s fun r s' => Called e s op key r s' :=
  wlp_of_wp (wp_call hv fun _ _ hc => hc)

end Calls

/-! ## The handlers -/

/-- The handlers that look a key up several times. -/
inductive MultiStep where
  | push (atHead : Bool)
  | hset
  | hdel
  | hmget
  | zadd
  | geoadd
  | geopos
  | xread

def MultiStep.proc (ctx : CommandCtx) : MultiStep → Cmd D CmdStatus
  | .push atHead => pushCommon ctx atHead
  | .hset => cmdHset ctx
  | .hdel => cmdHdel ctx
  | .hmget => cmdHmget ctx
  | .zadd => cmdZadd ctx
  | .geoadd => cmdGeoadd ctx
  | .geopos => cmdGeopos ctx
  | .xread => cmdXread ctx

/-- The same handlers, with all calls on a key whose type has been checked made by `later`. -/
def MultiStep.procWith (later : StoreCall D) (ctx : CommandCtx) : MultiStep → Cmd D CmdStatus
  | .push atHead => pushCommonWith later ctx atHead
  | .hset => cmdHsetWith (afterFirst later) ctx
  | .hdel => cmdHdelWith (afterFirst later) ctx
  | .hmget => cmdHmgetWith later ctx
  | .zadd => cmdZaddWith later ctx
  | .geoadd => cmdGeoaddWith later ctx
  | .geopos => cmdGeoposWith later ctx
  | .xread => cmdXreadWith (onRepeated later ctx) later ctx

theorem MultiStep.procWith_call (h : MultiStep) (ctx : CommandCtx) :
    h.procWith (D := D) call ctx = h.proc ctx := by
  have hfirst : afterFirst call = (fun _ => call : ℕ → StoreCall D) := by
    funext i β op key
    exact ite_self _
  have hrepeated : onRepeated call ctx = (fun _ _ => call : ℕ → ℕ → StoreCall D) := by
    funext first k β op key
    exact ite_self _
  cases h with
  | hset => exact congrArg (cmdHsetWith · ctx) hfirst
  | hdel => exact congrArg (cmdHdelWith · ctx) hfirst
  | xread => exact congrArg (cmdXreadWith · call ctx) hrepeated
  | _ => rfl

theorem MultiStep.proc_made (h : MultiStep) (ctx : CommandCtx) : Made (· = .done) (h.proc (D := D) ctx) := by
  cases h with
  | push atHead => exact pushCommon_made ctx atHead
  | hset => exact cmdHset_made ctx
  | hdel => exact cmdHdel_made ctx
  | hmget => exact cmdHmget_made ctx
  | zadd => exact cmdZadd_made ctx
  | geoadd => exact cmdGeoadd_made ctx
  | geopos => exact cmdGeopos_made ctx
  | xread => exact cmdXread_made ctx

/-! ## No later call finds another type -/

section Typed
variable {ctx : CommandCtx} {e : Env D} {s : Sess D} {t : StoreType} {key : Bytes}

theorem Sess.Typed.call_bind {β γ : Type} {op : StoreOp D (Except StoreStatus β)} (h : s.Typed t key)
    (hop : op.Under t) (f : Except StoreStatus β → Cmd D γ) {Q : γ → Sess D → Prop}
    (hf : ∀ r s', r ≠ .error .wrongType → s'.Typed t key → wlp (f r) e s' Q) :
    (call op key >>= f) e s = (callTyped op key >>= f) e s ∧ wlp (call op key >>= f) e s Q := by
  refine ⟨bind_of_eq f (callTyped_eq h hop).symm, ?_⟩
  rw [wlp_bind]
  refine wlp_mono (call_wlp h.valid) fun r s' hc => hf r s' ?_ (h.called hop hc)
  rw [hc.result]
  exact hop.answers (h.type.live _)

/-- Two handlers that ask for the type of the key first, and then do the same on a key of that type. -/
theorem guarded_congr {guard : Bytes → Cmd D Bool} {refusal : Cmd D CmdStatus}
    {rest rest' : Bytes → Cmd D CmdStatus}
    (hguard : ∀ key, wp (guard key) e s fun other s' => Quiet e s [] s' ∧
      (other = false → OfType t (s'.store.cells key)))
    (hrest : ∀ key s', ctx.argStr 1 = some key → s'.Typed t key → rest key e s' = rest' key e s') :
    ((do
      let key ← arg ctx 1
      if ← guard key then refusal else rest key) : Cmd D CmdStatus) e s =
    ((do
      let key ← arg ctx 1
      if ← guard key then refusal else rest' key) : Cmd D CmdStatus) e s := by
  refine bind_congr (wlp_mono arg_wlp fun key s₁ hkey => ?_)
  obtain ⟨rfl, hkey⟩ := hkey
  refine bind_congr (wlp_of_wp (wp_mono (hguard key) fun other s₂ h₂ => ?_))
  obtain ⟨hquiet, htype⟩ := h₂
  cases other with
  | true => rfl
  | false => exact hrest key s₂ hkey ⟨hquiet.valid, htype rfl⟩

theorem pushCommonWith_callTyped (atHead : Bool) (hv : s.store.Valid) :
    pushCommon ctx atHead e s = pushCommonWith callTyped ctx atHead e s := by
  refine guarded_congr (fun key => otherType_wp (.start hv)) fun key s₂ hkey h => ?_
  refine bind_of_eq _ (forFrom_congr (fun _ _ s' => s'.Typed .list key) h fun i len s' h _ => ?_)
  refine bind_congr_read arg_wlp fun key' hkey' => bind_congr_read arg_wlp fun value _ => ?_
  cases hkey.symm.trans hkey'
  refine h.call_bind (listPush_under value atHead) _ fun r s'' _ h' => ?_
  cases r <;> exact wlp_pure _ h'

omit [LinearOrder D] in
theorem replyEach_congr (I : Sess D → Prop) {item item' : ℕ → Cmd D Bytes}
    (hreply : ∀ s b, I s → I { s with client := { s.client with out := s.client.out ++ b } })
    (hitem : ∀ i s, I s → item i e s = item' i e s ∧ wlp (item i) e s fun _ s' => I s') (h : I s) :
    replyEach ctx item e s = replyEach ctx item' e s := by
  refine bind_congr (wlp_of_wp (wp_reply.mpr (bind_of_eq _ (forFrom_congr (fun _ _ s' => I s') (hreply _ _ h)
    fun i _ s' h' _ => ?_))))
  obtain ⟨hsame, hkeep⟩ := hitem i s' h'
  refine ⟨bind_of_eq _ hsame, ?_⟩
  rw [wlp_bind]
  exact wlp_mono hkeep fun b s'' h'' => wlp_of_wp (hreply _ _ h'')

theorem cmdHmgetWith_callTyped (hv : s.store.Valid) : cmdHmget ctx e s = cmdHmgetWith callTyped ctx e s := by
  refine guarded_congr (fun key => otherType_wp (.start hv)) fun key s₂ hkey h => ?_
  refine replyEach_congr (·.Typed .hash key) (fun _ _ h => ⟨h.valid, h.type⟩) (fun i s' h => ?_) h
  refine bind_congr_read arg_wlp fun key' hkey' => bind_congr_read arg_wlp fun field _ => ?_
  cases hkey.symm.trans hkey'
  refine h.call_bind (hashGet_under field) _ fun r s'' _ h' => ?_
  cases r <;> exact wlp_pure _ h'

theorem cmdGeoposWith_callTyped (hv : s.store.Valid) :
    cmdGeopos ctx e s = cmdGeoposWith callTyped ctx e s := by
  refine bind_congr (wlp_of_wp (wp_env.mpr (guarded_congr (fun key => notZset_wp (.start hv))
    fun key s₂ hkey h => ?_)))
  refine replyEach_congr (·.Typed .zset key) (fun _ _ h => ⟨h.valid, h.type⟩) (fun i s' h => ?_) h
  refine bind_congr_read arg_wlp fun member _ => bind_congr_read arg_wlp fun key' hkey' => ?_
  cases hkey.symm.trans hkey'
  exact h.call_bind (zsetScore_under member) _ fun r s'' _ h' => wlp_pure _ h'

theorem zsetAddLoopWith_callTyped {hi step : ℕ} {pair : ℕ → Cmd D (D × Bytes)}
    (hkey : ctx.argStr 1 = some key)
    (hpair : ∀ i s, wlp (pair i) e s fun _ s' => s' = s ∧ True) (h : s.Typed .zset key) :
    zsetAddLoop ctx hi step pair e s = zsetAddLoopWith callTyped ctx hi step pair e s := by
  refine bind_of_eq _ (forFrom_congr (fun _ _ s' => s'.Typed .zset key) h fun i added s' h' _ => ?_)
  refine bind_congr_read (hpair i s') fun p _ => bind_congr_read arg_wlp fun key' hkey' => ?_
  cases hkey.symm.trans hkey'
  refine h'.call_bind (zsetAdd_writes p.1 p.2).under _ fun r s'' _ h'' => ?_
  cases r with
  | ok a => exact wlp_pure _ h''
  | error st => exact wlp_fault _

/-- The common part of `cmd_zadd` and `cmd_geoadd` behind their first loops. -/
theorem zsetAdds_callTyped {hi step : ℕ} {pair : Env D → ℕ → Cmd D (D × Bytes)} (hv : s.store.Valid)
    (hpair : ∀ i s, wlp (pair e i) e s fun _ s' => s' = s ∧ True) :
    ((do
      if ← notZset (← arg ctx 1) then answer (replyError errWrongtype)
      else do
        let env ← Prog.env
        zsetAddLoop ctx hi step (pair env)) : Cmd D CmdStatus) e s =
    ((do
      if ← notZset (← arg ctx 1) then answer (replyError errWrongtype)
      else do
        let env ← Prog.env
        zsetAddLoopWith callTyped ctx hi step (pair env)) : Cmd D CmdStatus) e s := by
  refine guarded_congr (fun key => notZset_wp (.start hv)) fun key s₂ hkey h => ?_
  exact bind_congr (wlp_of_wp (wp_env.mpr (zsetAddLoopWith_callTyped hkey hpair h)))

theorem cmdZaddWith_callTyped (hv : s.store.Valid) : cmdZadd ctx e s = cmdZaddWith callTyped ctx e s := by
  unfold cmdZadd cmdZaddWith
  split
  · rfl
  refine bind_congr (wlp_mono (zaddCheck_leaves (p := listPart D) (K := fun _ => False) ctx e s hv)
    fun r s₁ h₁ => ?_)
  cases r with
  | inl st => rfl
  | inr _ =>
    refine zsetAdds_callTyped h₁.1 fun i s' => ?_
    rw [wlp_bind]
    refine wlp_mono arg_wlp fun a s'' ha => ?_
    split
    · exact wlp_fault _
    · rw [wlp_bind]
      exact wlp_mono arg_wlp fun b s₃ hb => wlp_pure _ ⟨hb.1.trans ha.1, trivial⟩

theorem cmdGeoaddWith_callTyped (hv : s.store.Valid) :
    cmdGeoadd ctx e s = cmdGeoaddWith callTyped ctx e s := by
  unfold cmdGeoadd cmdGeoaddWith
  split
  · rfl
  refine bind_congr (wlp_mono (geoaddCheck_leaves (p := listPart D) (K := fun _ => False) ctx e s hv)
    fun r s₁ h₁ => ?_)
  cases r with
  | inl st => rfl
  | inr _ =>
    refine zsetAdds_callTyped h₁.1 fun i s' => ?_
    rw [wlp_bind]
    refine wlp_mono arg_wlp fun a s₂ ha => ?_
    rw [wlp_bind]
    refine wlp_mono arg_wlp fun b s₃ hb => ?_
    rw [wlp_bind]
    exact wlp_mono arg_wlp fun c s₄ hc => wlp_pure _ ⟨hc.1.trans (hb.1.trans ha.1), trivial⟩

/-- The key of the command is absent or a hash. -/
def HashArg (ctx : CommandCtx) (s : Sess D) : Prop :=
  ∀ key, ctx.argStr 1 = some key → OfType .hash (s.store.cells key)

/-- The loops of `cmd_hset` and `cmd_hdel` with two ways to call the store that agree in the first round and
on a hash. -/
theorem hashLoop_congr (ctx : CommandCtx) {hi step : ℕ} {op op' : ℕ → Cmd D (Except StoreStatus Bool)}
    (hstep : 0 < step)
    (hop : ∀ i s, s.store.Valid → (i ≠ 2 → HashArg ctx s) → op i e s = op' i e s ∧ wlp (op i) e s fun r s' =>
      s'.store.Valid ∧ ∀ b, r = .ok b → HashArg ctx s')
    (hv : s.store.Valid) : hashLoop hi step op e s = hashLoop hi step op' e s := by
  -- from the second round on the key is absent or a hash
  refine bind_of_eq _ (forFrom_congr (fun i _ s' => 2 ≤ i ∧ s'.store.Valid ∧ (i ≠ 2 → HashArg ctx s'))
    ⟨Nat.le_refl 2, hv, fun h => absurd rfl h⟩ fun i n s' h _ => ?_)
  obtain ⟨h2, hv', htype⟩ := h
  obtain ⟨hsame, hkeep⟩ := hop i s' hv' htype
  refine ⟨bind_of_eq _ hsame, ?_⟩
  rw [wlp_bind]
  refine wlp_mono hkeep fun r s'' hr => ?_
  obtain ⟨hv'', htype''⟩ := hr
  cases r with
  | ok b => exact wlp_pure _ ⟨by omega, hv'', fun _ => htype'' b rfl⟩
  | error st =>
    cases st with
    | wrongType => exact wlp_of_wp trivial
    | _ => exact wlp_fault _

theorem hashWrite_callTyped {w : StoreOp D (Except StoreStatus Bool)} {i : ℕ} (hw : w.Writes .hash)
    (hkey : ctx.argStr 1 = some key) (hv : s.store.Valid) (htype : i ≠ 2 → HashArg ctx s) :
    call w key e s = afterFirst callTyped i w key e s ∧ wlp (call w key) e s fun r s' =>
      s'.store.Valid ∧ ∀ b, r = .ok b → HashArg ctx s' := by
  constructor
  · unfold afterFirst
    split
    · rfl
    · rename_i hi
      exact (callTyped_eq ⟨hv, htype hi key hkey⟩ hw.under).symm
  · refine wlp_mono (call_wlp hv) fun r s' hc => ⟨hc.valid, fun b hb key' hkey' => ?_⟩
    cases hkey.symm.trans hkey'
    rw [hc.cells, Function.update_self]
    exact hw.typed (hc.result.symm.trans hb)

theorem cmdHsetWith_callTyped (hv : s.store.Valid) :
    cmdHset ctx e s = cmdHsetWith (afterFirst callTyped) ctx e s := by
  unfold cmdHset cmdHsetWith
  split
  · rfl
  refine hashLoop_congr ctx (by decide) (fun i s' hv' htype => ?_) hv
  refine bind_congr_read arg_wlp fun key hkey => bind_congr_read arg_wlp fun field _ =>
    bind_congr_read arg_wlp
    fun value _ => ?_
  exact hashWrite_callTyped (hashSet_writes field value) hkey hv' htype

theorem cmdHdelWith_callTyped (hv : s.store.Valid) :
    cmdHdel ctx e s = cmdHdelWith (afterFirst callTyped) ctx e s := by
  refine hashLoop_congr ctx (by decide) (fun i s' hv' htype => ?_) hv
  refine bind_congr_read arg_wlp fun key hkey => bind_congr_read arg_wlp fun field _ => ?_
  exact hashWrite_callTyped (hashDel_writes field) hkey hv' htype

/-! ### XREAD -/

/-- The first `k` keys of the list are absent or streams. -/
structure StreamArgs (ctx : CommandCtx) (first k : ℕ) (s : Sess D) : Prop where
  valid : s.store.Valid
  type : ∀ j < k, ∀ key, ctx.argStr (first + j) = some key → OfType .stream (s.store.cells key)

/-- A call of `store_get_stream` keeps them so, and adds the key it was made for. -/
theorem StreamArgs.called {first k : ℕ} {r : Except StoreStatus Stream} {s' : Sess D}
    (h : StreamArgs ctx first k s) (hc : Called e s .getStream key r s') (hr : r ≠ .error .wrongType) :
    StreamArgs ctx first k s' ∧ OfType .stream (s'.store.cells key) := by
  have hcell : s'.store.cells key = live (e.clock s.tick) (s.store.cells key) := by
    rw [hc.cells, Function.update_self]
    rfl
  refine ⟨⟨hc.valid, fun j hj key' hkey' => ?_⟩, ?_⟩
  · have htype := h.type j hj key' hkey'
    by_cases hk : key' = key
    · rw [hk, hcell]
      exact (hk ▸ htype).live _
    · rw [hc.cells, Function.update_of_ne hk]
      exact htype
  · rw [hcell]
    intro c hlive
    rw [hc.result, show live (e.clock s.tick) (s.store.cells key) = some c from hlive] at hr
    by_contra htype
    refine hr ?_
    have hnone : c.value.asStream = none := by
      rw [← Option.not_isSome_iff_eq_none, Value.asStream_isSome]
      exact htype
    show (Cell.read Value.asStream (some c) >>= _) = _
    rw [Cell.read_wrongType hnone]
    rfl

theorem xreadRound_callTyped {first numKeys k : ℕ} {after : List StreamId} (h : StreamArgs ctx first k s)
    {Q : CmdStatus ⊕ ℕ × List StreamId → Sess D → Prop} (hinl : ∀ st s', Q (.inl st) s')
    (hinr : ∀ after' s', StreamArgs ctx first (k + 1) s' → Q (.inr (k + 1, after')) s') :
    xreadRoundWith (fun _ => call) ctx first numKeys k after e s =
        xreadRoundWith (onRepeated callTyped ctx first) ctx first numKeys k after e s ∧
      wlp (xreadRoundWith (fun _ => call) ctx first numKeys k after) e s Q := by
  unfold xreadRoundWith
  refine bind_congr_read arg_wlp fun key hkey => bind_congr_read arg_wlp fun id _ => ⟨bind_of_eq _ ?_, ?_⟩
  · unfold onRepeated
    split
    · rename_i hearlier
      obtain ⟨j, hj, hkey'⟩ := hearlier
      exact (callTyped_eq ⟨h.valid, h.type j hj key hkey'⟩ getStream_under).symm
    · rfl
  · rw [wlp_bind]
    refine wlp_mono (call_wlp h.valid) fun r s' hc => ?_
    have hnext : r ≠ .error .wrongType → StreamArgs ctx first (k + 1) s' := by
      intro hr
      obtain ⟨h', htype⟩ := h.called hc hr
      refine ⟨h'.valid, fun j hj key' hkey' => ?_⟩
      rcases Nat.lt_succ_iff_lt_or_eq.mp hj with hj | rfl
      · exact h'.type j hj key' hkey'
      · cases hkey.symm.trans hkey'
        exact htype
    split
    · exact wlp_of_wp (hinl _ _)
    · rename_i hr
      have hargs := hnext hr
      split
      · exact wlp_pure _ (hinr _ _ hargs)
      · split
        · exact wlp_of_wp (hinl _ _)
        · exact wlp_pure _ (hinr _ _ hargs)

theorem xreadCheckWith_callTyped (first numKeys : ℕ) (hv : s.store.Valid) :
    xreadCheck ctx first numKeys e s = xreadCheckWith (onRepeated callTyped ctx first) ctx first numKeys e s ∧
      wlp (xreadCheck ctx first numKeys) e s fun r s' =>
        ∀ after, r = .inr after → StreamArgs ctx first numKeys s' := by
  have hstart : StreamArgs ctx first 0 s := ⟨hv, fun j hj => absurd hj (Nat.not_lt_zero j)⟩
  constructor
  · exact forFrom_congr (fun k _ s' => StreamArgs ctx first k s') hstart fun k after s' h _ =>
      xreadRound_callTyped h (fun _ _ => trivial) fun _ _ h' => h'
  · refine wlp_forFrom (fun k _ s' => StreamArgs ctx first k s') hstart (fun k after s' h _ => ?_)
      fun k after s' h hk => ?_
    · refine (xreadRound_callTyped h (fun st s'' after h => ?_) fun _ _ h' => ⟨Nat.lt_succ_self k, h'⟩).2
      cases h
    · exact fun _ _ => ⟨h.valid, fun j hj => h.type j (Nat.lt_of_lt_of_le hj hk)⟩

theorem xreadCollectWith_callTyped {first numKeys : ℕ} {limit : Int} {after : List StreamId}
    (h : StreamArgs ctx first numKeys s) : xreadCollect ctx first numKeys limit after e s =
      xreadCollectWith callTyped ctx first numKeys limit after e s := by
  refine forFrom_congr (fun _ _ s' => StreamArgs ctx first numKeys s') h fun k body s' h' hk => ?_
  obtain ⟨withData, body⟩ := body
  refine bind_congr_read arg_wlp fun key hkey => ?_
  have htyped : s'.Typed .stream key := ⟨h'.valid, h'.type k hk key hkey⟩
  refine ⟨bind_of_eq _ (callTyped_eq htyped getStream_under).symm, ?_⟩
  rw [wlp_bind]
  refine wlp_mono (call_wlp h'.valid) fun r s'' hc => ?_
  have hr : r ≠ .error .wrongType := by
    rw [hc.result]
    exact getStream_under.answers (htyped.type.live _)
  obtain ⟨h'', -⟩ := h'.called hc hr
  cases r with
  | error st => exact wlp_pure _ h''
  | ok stream =>
    simp only
    rw [wlp_bind]
    refine wlp_mono (Q := fun _ s₃ => s₃ = s'') ?_ fun last s₃ hs₃ => ?_
    · unfold afterAt
      split
      · exact wlp_fault _
      · exact wlp_pure _ rfl
    · subst hs₃
      split
      · exact wlp_pure _ h''
      · rw [wlp_bind]
        unfold streamEntriesBytes
        split
        · exact wlp_fault _
        · exact wlp_pure _ (wlp_pure _ h'')

theorem xreadStreamsWith_callTyped {a : ℕ} {limit : Int} (hv : s.store.Valid) :
    xreadStreams ctx a limit e s = xreadStreamsWith (onRepeated callTyped ctx) callTyped ctx a limit e s := by
  unfold xreadStreams xreadStreamsWith
  split
  · rfl
  refine bind_congr (wlp_mono arg_wlp fun word s₁ h₁ => ?_)
  rw [h₁.1]
  split
  · rfl
  simp only
  split
  · rfl
  obtain ⟨hsame, hargs⟩ := xreadCheckWith_callTyped (a + 1) ((ctx.argc - (a + 1)) / 2) hv
  rw [← bind_of_eq _ hsame]
  refine bind_congr (wlp_mono hargs fun r s₂ h₂ => ?_)
  cases r with
  | inl st => rfl
  | inr after => exact bind_of_eq _ (xreadCollectWith_callTyped (h₂ after rfl))

theorem cmdXreadWith_callTyped (hv : s.store.Valid) :
    cmdXread ctx e s = cmdXreadWith (onRepeated callTyped ctx) callTyped ctx e s := by
  refine bind_congr (wlp_mono arg_wlp fun word s₁ h₁ => ?_)
  rw [h₁.1]
  split
  · split
    · rfl
    refine bind_congr (wlp_mono arg_wlp fun text s₂ h₂ => ?_)
    rw [h₂.1]
    cases parseInt64 text with
    | none => rfl
    | some limit =>
      simp only
      split
      · rfl
      · exact xreadStreamsWith_callTyped hv
  · exact xreadStreamsWith_callTyped hv

end Typed

/-- Run from a valid store, no later call of these handlers answers `STORE_WRONG_TYPE`, whatever the clock
reads. -/
theorem MultiStep.procWith_callTyped (h : MultiStep) (ctx : CommandCtx) (e : Env D) {s : Sess D}
    (hv : s.store.Valid) :
    h.procWith callTyped ctx e s = h.proc ctx e s := by
  cases h with
  | push atHead => exact (pushCommonWith_callTyped atHead hv).symm
  | hset => exact (cmdHsetWith_callTyped hv).symm
  | hdel => exact (cmdHdelWith_callTyped hv).symm
  | hmget => exact (cmdHmgetWith_callTyped hv).symm
  | zadd => exact (cmdZaddWith_callTyped hv).symm
  | geoadd => exact (cmdGeoaddWith_callTyped hv).symm
  | geopos => exact (cmdGeoposWith_callTyped hv).symm
  | xread => exact (cmdXreadWith_callTyped hv).symm

end PulseDB
