import PulseDB.Cmd.Table
import PulseDB.Store.Lists

/-!
# What the commands leave alone

* `Leaves p K m` : the program leaves what the part `p` shows of the cells as it is, except under the keys
  `K`; one rule for each way to build a program; `LeavesLists` : the same for the lists;
* `cmdPing_leaves`, ... : each handler leaves the values of the types that it does not write as they are;
  `DEL` and `SET` except under the keys they are given.
-/

namespace PulseDB
open Lib Lib.Prog

variable {D : Type} [LinearOrder D]

/-! ## Programs -/

/-- The argument `i` as a C string, if there is one. -/
def CommandCtx.argStr (ctx : CommandCtx) (i : ℕ) : Option Bytes :=
  ((ctx.req.elements[i]?).bind (·.str)).map cstr

omit [LinearOrder D] in
theorem arg_wlp {ctx : CommandCtx} {i : ℕ} {e : Env D} {s : Sess D} :
    wlp (arg ctx i) e s fun a s' => s' = s ∧ ctx.argStr i = some a := by
  unfold arg element CommandCtx.argStr
  rw [wlp_bind]
  cases ctx.req.elements[i]? with
  | none => exact wlp_fault _
  | some x =>
    refine wlp_pure _ ?_
    unfold strOf
    rw [Option.bind_some]
    cases x.str with
    | none => exact wlp_fault _
    | some str => exact wlp_pure _ ⟨rfl, rfl⟩

/-- Run from a valid store, the program leaves what is seen of every cell as it is, except under the keys
`K`. -/
def Leaves {α β : Type} (p : Part D β) (K : Bytes → Prop) (m : Cmd D α) : Prop :=
  ∀ (e : Env D) (s : Sess D), s.store.Valid → wlp m e s fun _ s' =>
    s'.store.Valid ∧ ∀ k, ¬ K k → p.read (s'.store.cells k) = p.read (s.store.cells k)

/-- Run from a valid store, the program leaves every list as it is, except under the keys `K`. -/
def LeavesLists {α : Type} (K : Bytes → Prop) (m : Cmd D α) : Prop :=
  ∀ (e : Env D) (s : Sess D), s.store.Valid → wlp m e s fun _ s' =>
    s'.store.Valid ∧ ∀ k, ¬ K k → s'.store.listAt k = s.store.listAt k

theorem Leaves.lists {α : Type} {K : Bytes → Prop} {m : Cmd D α} (h : Leaves (listPart D) K m) :
    LeavesLists K m := h

namespace Leaves
variable {α β γ δ : Type} {p : Part D δ} {K : Bytes → Prop} {m : Cmd D α}

theorem of_store (h : ∀ (e : Env D) (s : Sess D), wlp m e s fun _ s' => s'.store = s.store) :
    Leaves p K m := by
  intro e s hv
  refine wlp_mono (h e s) fun _ s' hs => ?_
  rw [hs]
  exact ⟨hv, fun _ _ => rfl⟩

theorem mono {K' : Bytes → Prop} (h : Leaves p K m) (hK : ∀ k, K k → K' k) : Leaves p K' m :=
  fun e s hv => wlp_mono (h e s hv) fun _ _ hs => ⟨hs.1, fun k hk => hs.2 k fun hk' => hk (hK k hk')⟩

theorem pure (a : α) : Leaves p K (Pure.pure a : Cmd D α) := of_store fun _ _ => wlp_pure _ rfl

theorem fault (x : Fault) : Leaves p K (Prog.fault x : Cmd D α) := of_store fun _ _ => wlp_fault _

theorem env : Leaves p K (Prog.env : Cmd D (Env D)) := of_store fun _ _ => wlp_of_wp (wp_env.mpr rfl)

theorem get : Leaves p K (Prog.get : Cmd D (Sess D)) := of_store fun _ _ => wlp_of_wp (wp_get.mpr rfl)

theorem bind {f : α → Cmd D β} (hm : Leaves p K m) (hf : ∀ a, Leaves p K (f a)) : Leaves p K (m >>= f) := by
  intro e s hv
  rw [wlp_bind]
  refine wlp_mono (hm e s hv) fun a s₁ ⟨hv₁, h₁⟩ => ?_
  refine wlp_mono (hf a e s₁ hv₁) fun b s₂ ⟨hv₂, h₂⟩ => ⟨hv₂, fun k hk => ?_⟩
  rw [h₂ k hk, h₁ k hk]

theorem reply (b : Bytes) : Leaves p K (PulseDB.reply b : Cmd D Unit) :=
  of_store fun _ _ => wlp_of_wp (wp_reply.mpr rfl)

theorem answer (b : Bytes) : Leaves p K (PulseDB.answer b : Cmd D CmdStatus) :=
  (reply b).bind fun _ => .pure _

theorem nowMs : Leaves p K (PulseDB.nowMs : Cmd D Int) := of_store fun _ _ => wlp_of_wp (wp_nowMs.mpr rfl)

theorem scan (visit : γ → StoreEntry D → γ) (ctx : γ) : Leaves p K (PulseDB.scan visit ctx) :=
  of_store fun _ _ => wlp_of_wp (wp_scan.mpr rfl)

theorem element (req : RespValue) (i : ℕ) : Leaves p K (PulseDB.element req i : Cmd D RespValue) := by
  unfold PulseDB.element
  split
  · exact .fault _
  · exact .pure _

theorem arg (ctx : CommandCtx) (i : ℕ) : Leaves p K (PulseDB.arg ctx i : Cmd D Bytes) := by
  refine (element _ _).bind fun x => ?_
  unfold strOf
  split
  · exact .fault _
  · exact .pure _

theorem arg_bind {ctx : CommandCtx} {i : ℕ} {f : Bytes → Cmd D β}
    (hf : ∀ a, ctx.argStr i = some a → Leaves p K (f a)) :
    Leaves p K (PulseDB.arg ctx i >>= f) := by
  intro e s hv
  rw [wlp_bind]
  refine wlp_mono arg_wlp fun a s' ⟨hs, ha⟩ => ?_
  rw [hs]
  exact hf a ha e s hv

theorem call {op : StoreOp D α} {key : Bytes} (h : op.spares p.type = true ∨ K key) :
    Leaves p K (PulseDB.call op key) := by
  intro e s hv
  refine wlp_of_wp (wp_call hv fun r s' hc => ⟨hc.valid, fun k hk => ?_⟩)
  rw [hc.cells]
  by_cases hkey : k = key
  · subst hkey
    rw [Function.update_self, p.step (h.resolve_right hk), p.live (hv.cells k)]
  · rw [Function.update_of_ne hkey]

theorem loop {hi : ℕ} {body : ℕ → β → Cmd D (γ ⊕ ℕ × β)} (hbody : ∀ i b, Leaves p K (body i b)) :
    ∀ (rounds i : ℕ) (b : β), Leaves p K (Prog.loop hi body rounds i b)
  | 0, i, b => .pure _
  | rounds + 1, i, b => by
    unfold Prog.loop
    split
    · refine (hbody i b).bind fun r => ?_
      split
      · exact .pure _
      · exact loop hbody rounds _ _
    · exact .pure _

theorem forFrom {lo hi : ℕ} {b : β} {body : ℕ → β → Cmd D (γ ⊕ ℕ × β)}
    (hbody : ∀ i b, Leaves p K (body i b)) :
    Leaves p K (Prog.forFrom lo hi b body) := loop hbody _ _ _

end Leaves

/-! ## The handlers -/

section Handlers
variable {β : Type} {p : Part D β} {K : Bytes → Prop} (ctx : CommandCtx)

theorem otherType_leaves (key : Bytes) (t : StoreType) : Leaves p K (otherType (D := D) key t) := by
  refine .bind (.call (.inl rfl)) fun r => ?_
  split
  · exact .pure _
  · exact .bind (.call (.inl rfl)) fun _ => .pure _

theorem replyEach_leaves {item : ℕ → Cmd D Bytes} (h : ∀ i, Leaves p K (item i)) :
    Leaves p K (replyEach ctx item) :=
  .bind (.reply _) fun _ => .bind (.forFrom fun i _ => (h i).bind fun b => .bind (.reply b) fun _ =>
    .pure _) fun _ =>
    .pure _

theorem payload_leaves (i : ℕ) : Leaves p K (payload (D := D) ctx i) := by
  refine .bind (.element _ _) fun x => ?_
  split
  · exact .fault _
  · exact .pure _

theorem cmdPing_leaves : Leaves p K (cmdPing (D := D) ctx) := by
  unfold cmdPing
  split
  · exact .answer _
  · split
    · exact (payload_leaves ctx 1).bind fun _ => .answer _
    · exact .answer _

theorem cmdEcho_leaves : Leaves p K (cmdEcho (D := D) ctx) := (payload_leaves ctx 1).bind fun _ => .answer _

theorem cmdConfig_leaves : Leaves p K (cmdConfig (D := D) ctx) := by
  refine .bind (.arg _ _) fun sub => ?_
  split
  · exact .answer _
  · split
    · exact .answer _
    · exact .bind .env fun _ => .bind (.arg _ _) fun _ => .bind (.reply _) fun _ => .answer _

theorem cmdKeys_leaves : Leaves p K (cmdKeys (D := D) ctx) :=
  .bind (.arg _ _) fun _ => .bind .env fun _ => .bind (.scan _ _) fun _ => .answer _

theorem get_leaves {α : Type} {op : StoreOp D (Except StoreStatus α)} (h : op.spares p.type = true) (i : ℕ)
    {f : Except StoreStatus α → Cmd D CmdStatus} (hf : ∀ r, Leaves p K (f r)) :
    Leaves p K (arg ctx i >>= fun key => call op key >>= f) :=
  .bind (.arg _ _) fun _ => .bind (.call (.inl h)) hf

theorem cmdGet_leaves : Leaves p K (cmdGet (D := D) ctx) := by
  refine get_leaves ctx rfl 1 fun r => ?_
  split <;> exact .answer _

theorem incrCommon_leaves (delta : Int) : Leaves p K (incrCommon (D := D) ctx delta) := by
  refine .bind (.arg _ _) fun _ => .bind (.call (.inl (decide_eq_true p.lasting))) fun r => ?_
  split <;> exact .answer _

theorem cmdIncrby_leaves : Leaves p K (cmdIncrby (D := D) ctx) := by
  refine .bind (.arg _ _) fun b => ?_
  split
  · exact .answer _
  · exact incrCommon_leaves ctx _

theorem cmdDecrby_leaves : Leaves p K (cmdDecrby (D := D) ctx) := by
  refine .bind (.arg _ _) fun b => ?_
  split
  · exact .answer _
  · split
    · exact .answer _
    · exact incrCommon_leaves ctx _

theorem setOptions_leaves : Leaves p K (setOptions (D := D) ctx) := by
  refine .forFrom fun i _ => .bind (.arg _ _) fun opt => ?_
  simp only
  split
  · refine .bind (.arg _ _) fun b => ?_
    split
    · exact .bind (.answer _) fun _ => .pure _
    · split
      · exact .bind (.answer _) fun _ => .pure _
      · exact .bind .nowMs fun _ => .pure _
  · exact .bind (.answer _) fun _ => .pure _

theorem cmdSet_leaves : Leaves p (fun k => ctx.argStr 1 = some k) (cmdSet (D := D) ctx) := by
  refine (setOptions_leaves ctx).bind fun r => ?_
  split
  · exact .pure _
  · exact .arg_bind fun key hkey => .bind (.arg _ _) fun _ => .bind (.call (.inr hkey)) fun _ => .answer _

theorem countKeys_leaves {op : StoreOp D Bool}
    (h : op.spares p.type = true ∨ ∀ i k, 1 ≤ i → ctx.argStr i = some k → K k) :
    Leaves p K (countKeys ctx op) := by
  intro e s hv
  have hcall : ∀ i key, 1 ≤ i → ctx.argStr i = some key → Leaves p K (call op key) := fun i key hi hkey =>
    .call (h.imp_right fun h => h i key hi hkey)
  unfold countKeys
  rw [wlp_bind]
  refine wlp_forFrom
    (fun i _ s' => 1 ≤ i ∧ s'.store.Valid ∧ ∀ k, ¬ K k → p.read (s'.store.cells k) = p.read (s.store.cells k))
    ⟨Nat.le_refl _, hv, fun _ _ => rfl⟩ (fun i n s₁ h₁ _ => ?_) fun i n s₁ h₁ _ => ?_
  · obtain ⟨hi, hv₁, hlists⟩ := h₁
    rw [wlp_bind]
    refine wlp_mono arg_wlp fun key s₂ ⟨hs₂, hkey⟩ => ?_
    rw [hs₂, wlp_bind]
    refine wlp_mono (hcall i key hi hkey e s₁ hv₁) fun b s₃ ⟨hv₃, hlists₃⟩ => ?_
    refine wlp_pure _ ⟨Nat.lt_succ_self i, by omega, hv₃, fun k hk => ?_⟩
    rw [hlists₃ k hk, hlists k hk]
  · exact wlp_of_wp ⟨h₁.2.1, h₁.2.2⟩

theorem cmdType_leaves : Leaves p K (cmdType (D := D) ctx) :=
  .bind (.arg _ _) fun _ => .bind (.call (.inl rfl)) fun _ => .answer _

theorem ttlCommon_leaves (inMs : Bool) : Leaves p K (ttlCommon (D := D) ctx inMs) := by
  refine .bind (.arg _ _) fun _ => .bind (.call (.inl rfl)) fun r => ?_
  split
  · exact .answer _
  · exact .bind .nowMs fun _ => .answer _

theorem pushCommon_leaves (hp : p.type ≠ .list) (atHead : Bool) :
    Leaves p K (pushCommon (D := D) ctx atHead) := by
  refine .bind (.arg _ _) fun _ => .bind (otherType_leaves _ _) fun b => ?_
  split
  · exact .answer _
  · refine .bind (.forFrom fun i _ => .bind (.arg _ _) fun _ => .bind (.arg _ _) fun _ =>
      .bind (.call (.inl (decide_eq_true hp))) fun r => ?_) fun r => ?_
    · split <;> exact .pure _
    · split
      exact .answer _

theorem popCommon_leaves (hp : p.type ≠ .list) (atHead : Bool) :
    Leaves p K (popCommon (D := D) ctx atHead) := by
  refine .bind (.arg _ _) fun _ => .bind (.call (.inl (decide_eq_true hp))) fun r => ?_
  split <;> exact .answer _

theorem blpopKeys_leaves (hp : p.type ≠ .list) : Leaves p K (blpopKeys (D := D) ctx) := by
  refine .forFrom fun i _ => .bind (.arg _ _) fun _ => .bind (.call (.inl (decide_eq_true hp))) fun r => ?_
  split
  · exact .bind (.answer _) fun _ => .pure _
  · exact .bind (.answer _) fun _ => .pure _
  · exact .pure _

theorem cmdBlpop_leaves (hp : p.type ≠ .list) : Leaves p K (cmdBlpop (D := D) ctx) := by
  refine .bind .env fun env => .bind (.arg _ _) fun b => ?_
  split
  · exact .answer _
  · split
    · exact .answer _
    · refine (blpopKeys_leaves ctx hp).bind fun r => ?_
      split
      · exact .pure _
      · split
        · exact .answer _
        · exact .of_store fun _ _ => wlp_of_wp (wp_mono (park_wp _) fun _ _ h => h.2.1)

theorem cmdLlen_leaves : Leaves p K (cmdLlen (D := D) ctx) := by
  refine get_leaves ctx rfl 1 fun r => ?_
  split <;> exact .answer _

theorem replyNodes_leaves : ∀ (count : ℕ) (nodes : List Bytes), Leaves p K (replyNodes (D := D) count nodes)
  | 0, _ => .pure _
  | _ + 1, [] => .fault _
  | count + 1, _ :: rest => .bind (.reply _) fun _ => replyNodes_leaves count rest

theorem cmdLrange_leaves : Leaves p K (cmdLrange (D := D) ctx) := by
  refine .bind (.arg _ _) fun b => ?_
  split
  · exact .answer _
  · refine .bind (.arg _ _) fun b' => ?_
    split
    · exact .answer _
    · refine get_leaves ctx rfl 1 fun r => ?_
      split
      · exact .answer _
      · exact .answer _
      · split
        · exact .answer _
        · exact .bind (.reply _) fun _ => .bind (replyNodes_leaves _ _) fun _ => .pure _

theorem hashLoop_leaves {hi step : ℕ} {op : ℕ → Cmd D (Except StoreStatus Bool)}
    (h : ∀ i, Leaves p K (op i)) :
    Leaves p K (hashLoop hi step op) := by
  refine .bind (.forFrom fun i _ => (h i).bind fun r => ?_) fun r => ?_
  · split
    · exact .bind (.answer _) fun _ => .pure _
    · exact .fault _
    · exact .pure _
  · split
    · exact .pure _
    · exact .answer _

theorem cmdHset_leaves (hp : p.type ≠ .hash) : Leaves p K (cmdHset (D := D) ctx) := by
  unfold cmdHset cmdHsetWith
  split
  · exact .answer _
  · exact hashLoop_leaves fun _ => .bind (.arg _ _) fun _ => .bind (.arg _ _) fun _ =>
      .bind (.arg _ _) fun _ =>
      .call (.inl (decide_eq_true hp))

theorem cmdHget_leaves : Leaves p K (cmdHget (D := D) ctx) := by
  refine .bind (.arg _ _) fun _ => .bind (.arg _ _) fun _ => .bind (.call (.inl rfl)) fun r => ?_
  split <;> exact .answer _

theorem cmdHgetall_leaves : Leaves p K (cmdHgetall (D := D) ctx) := by
  refine get_leaves ctx rfl 1 fun r => ?_
  split
  · exact .answer _
  · exact .answer _
  · exact .bind (.reply _) fun _ => .answer _

theorem cmdHmget_leaves : Leaves p K (cmdHmget (D := D) ctx) := by
  refine .bind (.arg _ _) fun _ => .bind (otherType_leaves _ _) fun b => ?_
  split
  · exact .answer _
  · refine replyEach_leaves ctx fun i => .bind (.arg _ _) fun _ => .bind (.arg _ _) fun _ =>
      .bind (.call (.inl rfl)) fun r => ?_
    split <;> exact .pure _

theorem cmdHdel_leaves (hp : p.type ≠ .hash) : Leaves p K (cmdHdel (D := D) ctx) :=
  hashLoop_leaves fun _ => .bind (.arg _ _) fun _ => .bind (.arg _ _) fun _ =>
    .call (.inl (decide_eq_true hp))

theorem cmdHlen_leaves : Leaves p K (cmdHlen (D := D) ctx) := by
  refine get_leaves ctx rfl 1 fun r => ?_
  split <;> exact .answer _

theorem notZset_leaves (key : Bytes) : Leaves p K (notZset (D := D) key) :=
  .bind (.call (.inl rfl)) fun _ => .pure _

theorem zsetAddLoop_leaves (hp : p.type ≠ .zset) {hi step : ℕ} {pair : ℕ → Cmd D (D × Bytes)}
    (h : ∀ i, Leaves p K (pair i)) : Leaves p K (zsetAddLoop ctx hi step pair) := by
  refine .bind (.forFrom fun i _ => (h i).bind fun _ => .bind (.arg _ _) fun _ =>
    .bind (.call (.inl (decide_eq_true hp))) fun r => ?_) fun r => ?_
  · split
    · exact .pure _
    · exact .fault _
  · split
    exact .answer _

theorem zaddCheck_leaves : Leaves p K (zaddCheck (D := D) ctx) := by
  refine .bind .env fun env => .forFrom fun i _ => .bind (.arg _ _) fun b => ?_
  split
  · exact .bind (.answer _) fun _ => .pure _
  · exact .pure _

theorem cmdZadd_leaves (hp : p.type ≠ .zset) : Leaves p K (cmdZadd (D := D) ctx) := by
  unfold cmdZadd cmdZaddWith
  split
  · exact .answer _
  · refine (zaddCheck_leaves ctx).bind fun r => ?_
    split
    · exact .pure _
    · refine .bind (.arg _ _) fun _ => .bind (notZset_leaves _) fun b => ?_
      split
      · exact .answer _
      · refine .bind .env fun env => zsetAddLoop_leaves ctx hp fun i => .bind (.arg _ _) fun b => ?_
        split
        · exact .fault _
        · exact .bind (.arg _ _) fun _ => .pure _

theorem zsetEntry_leaves (zset : ZSet D) (i : ℕ) : Leaves p K (zsetEntry zset i) := by
  unfold zsetEntry
  split
  · exact .fault _
  · exact .pure _

theorem replyEntries_leaves (zset : ZSet D) (lo hi : ℕ) (withscores : Bool) :
    Leaves p K (replyEntries zset lo hi withscores) :=
  .bind .env fun _ => .bind (.forFrom fun i _ => .bind (zsetEntry_leaves zset i) fun _ =>
    .bind (.reply _) fun _ => .pure _)
    fun _ => .pure _

theorem zrangeFrom_leaves (withscores : Bool) : Leaves p K (zrangeFrom (D := D) ctx withscores) := by
  refine .bind (.arg _ _) fun b => ?_
  split
  · exact .answer _
  · refine .bind (.arg _ _) fun b' => ?_
    split
    · exact .answer _
    · refine get_leaves ctx rfl 1 fun r => ?_
      split
      · exact .answer _
      · exact .answer _
      · split
        · exact .answer _
        · exact .bind (.reply _) fun _ => replyEntries_leaves _ _ _ _

theorem cmdZrange_leaves : Leaves p K (cmdZrange (D := D) ctx) := by
  unfold cmdZrange
  split
  · refine .bind (.arg _ _) fun b => ?_
    split
    · exact zrangeFrom_leaves ctx true
    · exact .answer _
  · split
    · exact .answer _
    · exact zrangeFrom_leaves ctx false

theorem skipScores_leaves (zset : ZSet D) (lo : ℕ) (test : D → Bool) :
    Leaves p K (skipScores zset lo test) := by
  refine .bind (.forFrom fun i _ => .bind (zsetEntry_leaves zset i) fun x => ?_) fun r => ?_
  · split <;> exact .pure _
  · split <;> exact .pure _

theorem cmdZrangebyscore_leaves : Leaves p K (cmdZrangebyscore (D := D) ctx) := by
  refine .bind .env fun env => .bind (.arg _ _) fun b => ?_
  split
  · exact .answer _
  · refine .bind (.arg _ _) fun b' => ?_
    split
    · exact .answer _
    · refine get_leaves ctx rfl 1 fun r => ?_
      split
      · exact .answer _
      · exact .answer _
      · exact .bind (skipScores_leaves _ _ _) fun _ => .bind (skipScores_leaves _ _ _) fun _ =>
          .bind (.reply _) fun _ => replyEntries_leaves _ _ _ _

theorem cmdZrank_leaves : Leaves p K (cmdZrank (D := D) ctx) := by
  refine .bind (.arg _ _) fun _ => get_leaves ctx rfl 1 fun r => ?_
  split <;> exact .answer _

theorem cmdZcard_leaves : Leaves p K (cmdZcard (D := D) ctx) := by
  refine get_leaves ctx rfl 1 fun r => ?_
  split <;> exact .answer _

theorem cmdZscore_leaves : Leaves p K (cmdZscore (D := D) ctx) := by
  refine .bind .env fun _ => .bind (.arg _ _) fun _ => get_leaves ctx rfl 1 fun r => ?_
  split <;> exact .answer _

theorem geoaddCheck_leaves : Leaves p K (geoaddCheck (D := D) ctx) := by
  refine .bind .env fun env => .forFrom fun i _ => .bind (.arg _ _) fun b => ?_
  split
  · exact .bind (.answer _) fun _ => .pure _
  · refine .bind (.arg _ _) fun b' => ?_
    split
    · exact .bind (.answer _) fun _ => .pure _
    · split
      · exact .pure _
      · exact .bind (.answer _) fun _ => .pure _

theorem cmdGeoadd_leaves (hp : p.type ≠ .zset) : Leaves p K (cmdGeoadd (D := D) ctx) := by
  unfold cmdGeoadd cmdGeoaddWith
  split
  · exact .answer _
  · refine (geoaddCheck_leaves ctx).bind fun r => ?_
    split
    · exact .pure _
    · refine .bind (.arg _ _) fun _ => .bind (notZset_leaves _) fun b => ?_
      split
      · exact .answer _
      · exact .bind .env fun env => zsetAddLoop_leaves ctx hp fun i => .bind (.arg _ _) fun _ =>
          .bind (.arg _ _) fun _ =>
          .bind (.arg _ _) fun _ => .pure _

theorem geodistIn_leaves (factor : Double D) : Leaves p K (geodistIn ctx factor) := by
  refine .bind .env fun env => .bind (.arg _ _) fun _ => get_leaves ctx rfl 1 fun st1 => ?_
  split
  · exact .answer _
  · refine .bind (.arg _ _) fun _ => get_leaves ctx rfl 1 fun st2 => ?_
    split <;> exact .answer _

theorem cmdGeodist_leaves : Leaves p K (cmdGeodist (D := D) ctx) := by
  refine .bind .env fun env => ?_
  split
  · refine .bind (.arg _ _) fun b => ?_
    split
    · exact .answer _
    · exact geodistIn_leaves ctx _
  · split
    · exact .answer _
    · exact geodistIn_leaves ctx _

theorem cmdGeopos_leaves : Leaves p K (cmdGeopos (D := D) ctx) := by
  refine .bind .env fun env => .bind (.arg _ _) fun _ => .bind (notZset_leaves _) fun b => ?_
  split
  · exact .answer _
  · exact replyEach_leaves ctx fun i => .bind (.arg _ _) fun _ => .bind (.arg _ _) fun _ =>
      .bind (.call (.inl rfl)) fun _ => .pure _

theorem cmdXadd_leaves (hp : p.type ≠ .stream) : Leaves p K (cmdXadd (D := D) ctx) := by
  unfold cmdXadd
  split
  · exact .answer _
  · refine .bind (.forFrom fun i _ => .bind (.arg _ _) fun _ => .bind (.arg _ _) fun _ => .pure _) fun r => ?_
    split
    refine .bind (.arg _ _) fun _ => .bind (.arg _ _) fun _ => .bind (.call (.inl (decide_eq_true hp)))
      fun r => ?_
    split <;> exact .answer _

theorem streamEntriesBytes_leaves (count : ℕ) (es : List StreamEntry) :
    Leaves p K (streamEntriesBytes (D := D) count es) := by
  unfold streamEntriesBytes
  split
  · exact .fault _
  · exact .pure _

theorem cmdXrange_leaves : Leaves p K (cmdXrange (D := D) ctx) := by
  refine .bind (.arg _ _) fun lo => ?_
  split
  · exact .answer _
  · refine .bind (.arg _ _) fun hi => ?_
    split
    · exact .answer _
    · refine get_leaves ctx rfl 1 fun r => ?_
      split
      · exact .answer _
      · exact .answer _
      · exact .bind (.reply _) fun _ => .bind (streamEntriesBytes_leaves _ _) fun _ => .answer _

theorem xreadCheck_leaves (first numKeys : ℕ) : Leaves p K (xreadCheck (D := D) ctx first numKeys) := by
  refine .forFrom fun k _ => .bind (.arg _ _) fun _ => .bind (.arg _ _) fun _ => .bind (.call (.inl rfl))
    fun st => ?_
  split
  · exact .bind (.answer _) fun _ => .pure _
  · split
    · exact .pure _
    · split
      · exact .bind (.answer _) fun _ => .pure _
      · exact .pure _

theorem xreadCollect_leaves (first numKeys : ℕ) (limit : Int) (after : List StreamId) :
    Leaves p K (xreadCollect (D := D) ctx first numKeys limit after) := by
  refine .forFrom fun k p => .bind (.arg _ _) fun key => .bind (.call (.inl rfl)) fun r => ?_
  split
  · exact .pure _
  · refine .bind ?_ fun last => ?_
    · unfold afterAt
      split
      · exact .fault _
      · exact .pure _
    · simp only
      split
      · exact .pure _
      · exact .bind (streamEntriesBytes_leaves _ _) fun _ => .pure _

theorem xreadStreams_leaves (a : ℕ) (limit : Int) : Leaves p K (xreadStreams (D := D) ctx a limit) := by
  unfold xreadStreams xreadStreamsWith
  split
  · exact .answer _
  · refine .bind (.arg _ _) fun b => ?_
    split
    · exact .answer _
    · simp only
      split
      · exact .answer _
      · refine (xreadCheck_leaves ctx _ _).bind fun r => ?_
        split
        · exact .pure _
        · refine (xreadCollect_leaves ctx _ _ _ _).bind fun r => ?_
          split
          split <;> exact .answer _

theorem cmdXread_leaves : Leaves p K (cmdXread (D := D) ctx) := by
  refine .bind (.arg _ _) fun b => ?_
  split
  · split
    · exact .answer _
    · refine .bind (.arg _ _) fun b => ?_
      split
      · exact .answer _
      · split
        · exact .answer _
        · exact xreadStreams_leaves ctx _ _
  · exact xreadStreams_leaves ctx _ _

end Handlers
end PulseDB
