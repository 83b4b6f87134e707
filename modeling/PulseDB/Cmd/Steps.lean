import PulseDB.Cmd.Frame
import PulseDB.Lib.Relational

/-!
# What the commands are made of

A handler writes to the output, reads the configuration and the clock, and calls operations of the store; it
sees the store through their results only. The two exceptions are `KEYS`, which walks over the buckets, and
`BLPOP`, which looks at the client it parks.

* `Made Q m` : the program is made of such steps, and its results satisfy `Q`; `Made.wlp` : so they do in
  every run;
* `Congruence e R` : the steps keep a relation between sessions and have the same results; `Made.uniform` : so
  does every program made of them;
* `commandTable_made` : every command but these two is made of such steps, and does not block;
  `commandTable_steady` : only `BLPOP` can block.
-/

namespace PulseDB
open Lib Lib.Prog

variable {D : Type} [LinearOrder D]

/-! ## Programs -/

/-- The program is made of replies, calls of the store and readings of the configuration and the clock, and
its results satisfy `Q`. -/
inductive Made : ∀ {α : Type}, (α → Prop) → Cmd D α → Prop
  | pure {α : Type} {Q : α → Prop} {a : α} (h : Q a) : Made Q (Pure.pure a)
  | bind {α β : Type} {P : α → Prop} {Q : β → Prop} {m : Cmd D α} {f : α → Cmd D β} (hm : Made P m)
      (hf : ∀ a, P a → Made Q (f a)) : Made Q (m >>= f)
  | fault {α : Type} {Q : α → Prop} {x : Fault} (h : x ≠ .retyped) : Made Q (Prog.fault x)
  | env : Made (fun _ => True) Prog.env
  | reply (b : Bytes) : Made (fun _ => True) (PulseDB.reply b)
  | nowMs : Made (fun _ => True) PulseDB.nowMs
  | call {α : Type} (op : StoreOp D α) (key : Bytes) : Made (fun _ => True) (PulseDB.call op key)

/-- The result with which a loop is left satisfies `Q`. -/
def Left {γ δ : Type} (Q : γ → Prop) : γ ⊕ δ → Prop
  | .inl c => Q c
  | .inr _ => True

namespace Made
variable {α β γ : Type} {Q : α → Prop}

theorem wlp {m : Cmd D α} (h : Made Q m) : ∀ (e : Env D) (s : Sess D), Prog.wlp m e s fun a _ => Q a := by
  induction h with
  | pure h => exact fun e s => wlp_pure _ h
  | bind _ _ ihm ihf =>
    intro e s
    rw [wlp_bind]
    exact wlp_mono (ihm e s) fun a s' ha => ihf a ha e s'
  | fault _ => exact fun e s => wlp_fault _
  | env => exact fun e s => wlp_of_wp trivial
  | reply b => exact fun e s => wlp_of_wp trivial
  | nowMs => exact fun e s => wlp_of_wp trivial
  | call op key => exact fun e s => wlp_of_wp trivial

theorem monoTick {m : Cmd D α} (h : Made Q m) :
    ∀ (e : Env D) (s : Sess D), Prog.wlp m e s fun _ s' => s'.monoTick = s.monoTick := by
  induction h with
  | pure h => exact fun e s => wlp_pure _ rfl
  | bind hm _ ihm ihf =>
    intro e s
    rw [wlp_bind]
    intro a s₁ hrun
    rw [← ihm e s a s₁ hrun]
    exact ihf a (hm.wlp e s a s₁ hrun) e s₁
  | fault _ => exact fun e s => wlp_fault _
  | env => exact fun e s => wlp_of_wp rfl
  | reply b => exact fun e s => wlp_of_wp rfl
  | nowMs => exact fun e s => wlp_of_wp rfl
  | call op key => exact fun e s => wlp_of_wp rfl

theorem not_retyped {m : Cmd D α} (h : Made Q m) : ∀ (e : Env D) (s : Sess D), m e s ≠ .error .retyped := by
  induction h with
  | bind hm _ ihm ihf =>
    rename_i m f _
    intro e s
    cases hrun : m e s with
    | error x =>
      rw [bind_of_error hrun]
      intro hx
      obtain rfl := Except.error.inj hx
      exact ihm e s hrun
    | ok r =>
      obtain ⟨a, s₁⟩ := r
      rw [bind_of_ok hrun]
      exact ihf a (hm.wlp e s a s₁ hrun) e s₁
  | fault h => exact fun e s hx => h (Except.error.inj hx)
  | _ => exact fun e s => nofun

theorem answer (b : Bytes) : Made (· = .done) (PulseDB.answer b : Cmd D CmdStatus) :=
  .bind (.reply b) fun _ _ => .pure rfl

theorem early (b : Bytes) : Made (Left (· = .done))
    (do return .inl (← PulseDB.answer b) : Cmd D (CmdStatus ⊕ β)) :=
  .bind (.answer b) fun _ hst => .pure hst

theorem element (req : RespValue) (i : ℕ) :
    Made (fun _ => True) (PulseDB.element req i : Cmd D RespValue) := by
  unfold PulseDB.element
  split
  · exact .fault nofun
  · exact .pure trivial

theorem strOf (x : RespValue) : Made (fun _ => True) (PulseDB.strOf x : Cmd D Bytes) := by
  unfold PulseDB.strOf
  split
  · exact .fault nofun
  · exact .pure trivial

theorem arg (ctx : CommandCtx) (i : ℕ) : Made (fun _ => True) (PulseDB.arg ctx i : Cmd D Bytes) :=
  .bind (.element _ _) fun x _ => .strOf x

theorem loop {Q : γ → Prop} {hi : ℕ} {body : ℕ → β → Cmd D (γ ⊕ ℕ × β)}
    (hbody : ∀ i b, Made (Left Q) (body i b)) :
    ∀ (rounds i : ℕ) (b : β), Made (Left Q) (Prog.loop hi body rounds i b) := by
  intro rounds
  induction rounds with
  | zero => exact fun i b => .pure trivial
  | succ rounds ih =>
    intro i b
    unfold Prog.loop
    split
    · refine .bind (hbody i b) fun r hr => ?_
      split
      · exact .pure hr
      · exact ih _ _
    · exact .pure trivial

theorem forFrom {Q : γ → Prop} {lo hi : ℕ} {b : β} {body : ℕ → β → Cmd D (γ ⊕ ℕ × β)}
    (hbody : ∀ i b, Made (Left Q) (body i b)) : Made (Left Q) (Prog.forFrom lo hi b body) := loop hbody _ _ _

end Made

/-! ## Two runs of a program -/

/-- The relation is kept by the steps of a handler, and the results of the steps are the same. -/
structure Congruence (e : Env D) (R : Sess D → Sess D → Prop) : Prop where
  reply : ∀ {s t : Sess D} (b : Bytes), R s t →
    R { s with client := { s.client with out := s.client.out ++ b } }
    { t with client := { t.client with out := t.client.out ++ b } }
  nowMs : ∀ {s t : Sess D}, R s t →
    e.clock s.tick = e.clock t.tick ∧ R { s with tick := s.tick + 1 } { t with tick := t.tick + 1 }
  call : ∀ {α : Type} (op : StoreOp D α) (key : Bytes) {s t : Sess D}, R s t →
    rel (PulseDB.call op key) (PulseDB.call op key) e s t Eq fun a s' b t' => a = b ∧ R s' t'

/-- From related sessions, a program made of steps that keep the relation has the same results, and ends in
related sessions. -/
theorem Made.uniform {e : Env D} {R : Sess D → Sess D → Prop} (hR : Congruence e R) {α : Type} {Q : α → Prop}
    {m : Cmd D α}
    (h : Made Q m) : ∀ {s t : Sess D}, R s t → rel m m e s t Eq fun a s' b t' => a = b ∧ R s' t' := by
  induction h with
  | pure _ => exact fun hst => rel_pure ⟨rfl, hst⟩
  | @bind _ _ P _ m _ hm _ ihm ihf =>
    intro s t hst
    refine rel_bind (rel_and_wlp (ihm hst) (hm.wlp e t)) ?_
    rintro a s₁ b t₁ ⟨⟨rfl, hst₁⟩, ha⟩
    exact ihf a ha hst₁
  | fault x => exact fun _ => rel_fault rfl
  | env => exact fun hst => rel_of_ok rfl rfl ⟨rfl, hst⟩
  | reply b => exact fun hst => rel_of_ok rfl rfl ⟨rfl, hR.reply b hst⟩
  | nowMs => exact fun hst => rel_of_ok rfl rfl (hR.nowMs hst)
  | call op key => exact fun hst => hR.call op key hst

/-! ## The handlers -/

section Handlers
variable (ctx : CommandCtx)

theorem otherType_made (key : Bytes) (t : StoreType) : Made (fun _ => True) (otherType (D := D) key t) := by
  refine .bind (.call _ _) fun r _ => ?_
  split
  · exact .pure trivial
  · exact .bind (.call _ _) fun _ _ => .pure trivial

theorem replyEach_made {item : ℕ → Cmd D Bytes} (h : ∀ i, Made (fun _ => True) (item i)) :
    Made (· = .done) (replyEach ctx item) :=
  .bind (.reply _) fun _ _ => .bind (.forFrom (Q := fun _ => True) fun i _ => .bind (h i) fun b _ =>
    .bind (.reply b) fun _ _ => .pure trivial) fun _ _ => .pure rfl

theorem payload_made (i : ℕ) : Made (fun _ => True) (payload (D := D) ctx i) := by
  refine .bind (.element _ _) fun x _ => ?_
  split
  · exact .fault nofun
  · exact .pure trivial

theorem cmdPing_made : Made (· = .done) (cmdPing (D := D) ctx) := by
  unfold cmdPing
  split
  · exact .answer _
  · split
    · exact .bind (payload_made ctx 1) fun _ _ => .answer _
    · exact .answer _

theorem cmdEcho_made : Made (· = .done) (cmdEcho (D := D) ctx) :=
  .bind (payload_made ctx 1) fun _ _ => .answer _

theorem cmdConfig_made : Made (· = .done) (cmdConfig (D := D) ctx) := by
  refine .bind (.arg _ _) fun sub _ => ?_
  split
  · exact .answer _
  · split
    · exact .answer _
    · exact .bind .env fun _ _ => .bind (.arg _ _) fun _ _ => .bind (.reply _) fun _ _ => .answer _

theorem get_made {α : Type} (op : StoreOp D (Except StoreStatus α)) (i : ℕ)
    {f : Except StoreStatus α → Cmd D CmdStatus}
    (hf : ∀ r, Made (· = .done) (f r)) : Made (· = .done) (arg ctx i >>= fun key => call op key >>= f) :=
  .bind (.arg _ _) fun _ _ => .bind (.call _ _) fun r _ => hf r

theorem cmdGet_made : Made (· = .done) (cmdGet (D := D) ctx) := by
  refine get_made ctx _ 1 fun r => ?_
  split <;> exact .answer _

theorem incrCommon_made (delta : Int) : Made (· = .done) (incrCommon (D := D) ctx delta) := by
  refine get_made ctx _ 1 fun r => ?_
  split <;> exact .answer _

theorem cmdIncrby_made : Made (· = .done) (cmdIncrby (D := D) ctx) := by
  refine .bind (.arg _ _) fun b _ => ?_
  split
  · exact .answer _
  · exact incrCommon_made ctx _

theorem cmdDecrby_made : Made (· = .done) (cmdDecrby (D := D) ctx) := by
  refine .bind (.arg _ _) fun b _ => ?_
  split
  · exact .answer _
  · split
    · exact .answer _
    · exact incrCommon_made ctx _

theorem setOptions_made : Made (Left (· = .done)) (setOptions (D := D) ctx) := by
  refine .forFrom fun i _ => .bind (.arg _ _) fun opt _ => ?_
  simp only
  split
  · refine .bind (.arg _ _) fun b _ => ?_
    split
    · exact .early _
    · split
      · exact .early _
      · exact .bind .nowMs fun _ _ => .pure trivial
  · exact .early _

theorem cmdSet_made : Made (· = .done) (cmdSet (D := D) ctx) := by
  refine .bind (setOptions_made ctx) fun r hr => ?_
  split
  · exact .pure hr
  · exact .bind (.arg _ _) fun _ _ => .bind (.arg _ _) fun _ _ => .bind (.call _ _) fun _ _ => .answer _

theorem countKeys_made (op : StoreOp D Bool) : Made (· = .done) (countKeys ctx op) := by
  refine .bind (.forFrom (Q := fun _ => True) fun i _ => .bind (.arg _ _) fun _ _ =>
    .bind (.call _ _) fun _ _ =>
    .pure trivial) fun r _ => ?_
  split
  exact .answer _

theorem cmdType_made : Made (· = .done) (cmdType (D := D) ctx) :=
  .bind (.arg _ _) fun _ _ => .bind (.call _ _) fun _ _ => .answer _

theorem ttlCommon_made (inMs : Bool) : Made (· = .done) (ttlCommon (D := D) ctx inMs) := by
  refine .bind (.arg _ _) fun _ _ => .bind (.call _ _) fun r _ => ?_
  split
  · exact .answer _
  · exact .bind .nowMs fun _ _ => .answer _

theorem pushCommon_made (atHead : Bool) : Made (· = .done) (pushCommon (D := D) ctx atHead) := by
  refine .bind (.arg _ _) fun _ _ => .bind (otherType_made _ _) fun b _ => ?_
  split
  · exact .answer _
  · refine .bind (.forFrom (Q := fun _ => True) fun i _ => .bind (.arg _ _) fun _ _ =>
      .bind (.arg _ _) fun _ _ =>
      .bind (.call _ _) fun r _ => ?_) fun r _ => ?_
    · split <;> exact .pure trivial
    · split
      exact .answer _

theorem popCommon_made (atHead : Bool) : Made (· = .done) (popCommon (D := D) ctx atHead) := by
  refine get_made ctx _ 1 fun r => ?_
  split <;> exact .answer _

theorem blpopKeys_made : Made (Left (· = .done)) (blpopKeys (D := D) ctx) := by
  refine .forFrom fun i _ => .bind (.arg _ _) fun _ _ => .bind (.call _ _) fun r _ => ?_
  split
  · exact .early _
  · exact .early _
  · exact .pure trivial

theorem cmdLlen_made : Made (· = .done) (cmdLlen (D := D) ctx) := by
  refine get_made ctx _ 1 fun r => ?_
  split <;> exact .answer _

theorem replyNodes_made : ∀ (count : ℕ) (nodes : List Bytes), Made (fun _ => True)
    (replyNodes (D := D) count nodes)
  | 0, _ => .pure trivial
  | _ + 1, [] => .fault nofun
  | count + 1, _ :: rest => .bind (.reply _) fun _ _ => replyNodes_made count rest

theorem cmdLrange_made : Made (· = .done) (cmdLrange (D := D) ctx) := by
  refine .bind (.arg _ _) fun b _ => ?_
  split
  · exact .answer _
  · refine .bind (.arg _ _) fun b' _ => ?_
    split
    · exact .answer _
    · refine get_made ctx _ 1 fun r => ?_
      split
      · exact .answer _
      · exact .answer _
      · split
        · exact .answer _
        · exact .bind (.reply _) fun _ _ => .bind (replyNodes_made _ _) fun _ _ => .pure rfl

theorem hashLoop_made {hi step : ℕ} {op : ℕ → Cmd D (Except StoreStatus Bool)}
    (h : ∀ i, Made (fun _ => True) (op i)) :
    Made (· = .done) (hashLoop hi step op) := by
  refine .bind (.forFrom (Q := (· = .done)) fun i _ => .bind (h i) fun r _ => ?_) fun r hr => ?_
  · split
    · exact .early _
    · exact .fault nofun
    · exact .pure trivial
  · split
    · exact .pure hr
    · exact .answer _

theorem cmdHset_made : Made (· = .done) (cmdHset (D := D) ctx) := by
  unfold cmdHset cmdHsetWith
  split
  · exact .answer _
  · exact hashLoop_made fun _ => .bind (.arg _ _) fun _ _ => .bind (.arg _ _) fun _ _ =>
      .bind (.arg _ _) fun _ _ =>
      .call _ _

theorem cmdHget_made : Made (· = .done) (cmdHget (D := D) ctx) := by
  refine .bind (.arg _ _) fun _ _ => .bind (.arg _ _) fun _ _ => .bind (.call _ _) fun r _ => ?_
  split <;> exact .answer _

theorem cmdHgetall_made : Made (· = .done) (cmdHgetall (D := D) ctx) := by
  refine get_made ctx _ 1 fun r => ?_
  split
  · exact .answer _
  · exact .answer _
  · exact .bind (.reply _) fun _ _ => .answer _

theorem cmdHmget_made : Made (· = .done) (cmdHmget (D := D) ctx) := by
  refine .bind (.arg _ _) fun _ _ => .bind (otherType_made _ _) fun b _ => ?_
  split
  · exact .answer _
  · refine replyEach_made ctx fun i => .bind (.arg _ _) fun _ _ => .bind (.arg _ _) fun _ _ =>
      .bind (.call _ _) fun r _ => ?_
    split <;> exact .pure trivial

theorem cmdHdel_made : Made (· = .done) (cmdHdel (D := D) ctx) :=
  hashLoop_made fun _ => .bind (.arg _ _) fun _ _ => .bind (.arg _ _) fun _ _ => .call _ _

theorem cmdHlen_made : Made (· = .done) (cmdHlen (D := D) ctx) := by
  refine get_made ctx _ 1 fun r => ?_
  split <;> exact .answer _

theorem notZset_made (key : Bytes) : Made (fun _ => True) (notZset (D := D) key) :=
  .bind (.call _ _) fun _ _ => .pure trivial

theorem zsetAddLoop_made {hi step : ℕ} {pair : ℕ → Cmd D (D × Bytes)}
    (h : ∀ i, Made (fun _ => True) (pair i)) :
    Made (· = .done) (zsetAddLoop ctx hi step pair) := by
  refine .bind (.forFrom (Q := fun _ => True) fun i _ => .bind (h i) fun _ _ => .bind (.arg _ _) fun _ _ =>
    .bind (.call _ _) fun r _ => ?_) fun r _ => ?_
  · split
    · exact .pure trivial
    · exact .fault nofun
  · split
    exact .answer _

theorem zaddCheck_made : Made (Left (· = .done)) (zaddCheck (D := D) ctx) := by
  refine .bind .env fun env _ => .forFrom fun i _ => .bind (.arg _ _) fun b _ => ?_
  split
  · exact .early _
  · exact .pure trivial

theorem cmdZadd_made : Made (· = .done) (cmdZadd (D := D) ctx) := by
  unfold cmdZadd cmdZaddWith
  split
  · exact .answer _
  · refine .bind (zaddCheck_made ctx) fun r hr => ?_
    split
    · exact .pure hr
    · refine .bind (.arg _ _) fun _ _ => .bind (notZset_made _) fun b _ => ?_
      split
      · exact .answer _
      · refine .bind .env fun env _ => zsetAddLoop_made ctx fun i => .bind (.arg _ _) fun b _ => ?_
        split
        · exact .fault nofun
        · exact .bind (.arg _ _) fun _ _ => .pure trivial

theorem zsetEntry_made (zset : ZSet D) (i : ℕ) : Made (fun _ => True) (zsetEntry zset i) := by
  unfold zsetEntry
  split
  · exact .fault nofun
  · exact .pure trivial

theorem replyEntries_made (zset : ZSet D) (lo hi : ℕ) (withscores : Bool) :
    Made (· = .done) (replyEntries zset lo hi withscores) :=
  .bind .env fun _ _ => .bind (.forFrom (Q := fun _ => True) fun i _ =>
    .bind (zsetEntry_made zset i) fun _ _ =>
    .bind (.reply _) fun _ _ => .pure trivial) fun _ _ => .pure rfl

theorem zrangeFrom_made (withscores : Bool) : Made (· = .done) (zrangeFrom (D := D) ctx withscores) := by
  refine .bind (.arg _ _) fun b _ => ?_
  split
  · exact .answer _
  · refine .bind (.arg _ _) fun b' _ => ?_
    split
    · exact .answer _
    · refine get_made ctx _ 1 fun r => ?_
      split
      · exact .answer _
      · exact .answer _
      · split
        · exact .answer _
        · exact .bind (.reply _) fun _ _ => replyEntries_made _ _ _ _

theorem cmdZrange_made : Made (· = .done) (cmdZrange (D := D) ctx) := by
  unfold cmdZrange
  split
  · refine .bind (.arg _ _) fun b _ => ?_
    split
    · exact zrangeFrom_made ctx true
    · exact .answer _
  · split
    · exact .answer _
    · exact zrangeFrom_made ctx false

theorem skipScores_made (zset : ZSet D) (lo : ℕ) (test : D → Bool) :
    Made (fun _ => True) (skipScores zset lo test) := by
  refine .bind (.forFrom (Q := fun _ => True) fun i _ => .bind (zsetEntry_made zset i) fun x _ => ?_)
    fun r _ => ?_
  · split <;> exact .pure trivial
  · split <;> exact .pure trivial

theorem cmdZrangebyscore_made : Made (· = .done) (cmdZrangebyscore (D := D) ctx) := by
  refine .bind .env fun env _ => .bind (.arg _ _) fun b _ => ?_
  split
  · exact .answer _
  · refine .bind (.arg _ _) fun b' _ => ?_
    split
    · exact .answer _
    · refine get_made ctx _ 1 fun r => ?_
      split
      · exact .answer _
      · exact .answer _
      · exact .bind (skipScores_made _ _ _) fun _ _ => .bind (skipScores_made _ _ _) fun _ _ =>
          .bind (.reply _) fun _ _ => replyEntries_made _ _ _ _

theorem cmdZrank_made : Made (· = .done) (cmdZrank (D := D) ctx) := by
  refine .bind (.arg _ _) fun _ _ => get_made ctx _ 1 fun r => ?_
  split <;> exact .answer _

theorem cmdZcard_made : Made (· = .done) (cmdZcard (D := D) ctx) := by
  refine get_made ctx _ 1 fun r => ?_
  split <;> exact .answer _

theorem cmdZscore_made : Made (· = .done) (cmdZscore (D := D) ctx) := by
  refine .bind .env fun _ _ => .bind (.arg _ _) fun _ _ => get_made ctx _ 1 fun r => ?_
  split <;> exact .answer _

theorem geoaddCheck_made : Made (Left (· = .done)) (geoaddCheck (D := D) ctx) := by
  refine .bind .env fun env _ => .forFrom fun i _ => .bind (.arg _ _) fun b _ => ?_
  split
  · exact .early _
  · refine .bind (.arg _ _) fun b' _ => ?_
    split
    · exact .early _
    · split
      · exact .pure trivial
      · exact .early _

theorem cmdGeoadd_made : Made (· = .done) (cmdGeoadd (D := D) ctx) := by
  unfold cmdGeoadd cmdGeoaddWith
  split
  · exact .answer _
  · refine .bind (geoaddCheck_made ctx) fun r hr => ?_
    split
    · exact .pure hr
    · refine .bind (.arg _ _) fun _ _ => .bind (notZset_made _) fun b _ => ?_
      split
      · exact .answer _
      · exact .bind .env fun env _ => zsetAddLoop_made ctx fun i => .bind (.arg _ _) fun _ _ =>
          .bind (.arg _ _) fun _ _ =>
          .bind (.arg _ _) fun _ _ => .pure trivial

theorem geodistIn_made (factor : Double D) : Made (· = .done) (geodistIn ctx factor) := by
  refine .bind .env fun env _ => .bind (.arg _ _) fun _ _ => get_made ctx _ 1 fun st1 => ?_
  split
  · exact .answer _
  · refine .bind (.arg _ _) fun _ _ => get_made ctx _ 1 fun st2 => ?_
    split <;> exact .answer _

theorem cmdGeodist_made : Made (· = .done) (cmdGeodist (D := D) ctx) := by
  refine .bind .env fun env _ => ?_
  split
  · refine .bind (.arg _ _) fun b _ => ?_
    split
    · exact .answer _
    · exact geodistIn_made ctx _
  · split
    · exact .answer _
    · exact geodistIn_made ctx _

theorem cmdGeopos_made : Made (· = .done) (cmdGeopos (D := D) ctx) := by
  refine .bind .env fun env _ => .bind (.arg _ _) fun _ _ => .bind (notZset_made _) fun b _ => ?_
  split
  · exact .answer _
  · exact replyEach_made ctx fun i => .bind (.arg _ _) fun _ _ => .bind (.arg _ _) fun _ _ =>
      .bind (.call _ _) fun _ _ => .pure trivial

theorem cmdXadd_made : Made (· = .done) (cmdXadd (D := D) ctx) := by
  unfold cmdXadd
  split
  · exact .answer _
  · refine .bind (.forFrom (Q := fun _ => True) fun i _ => .bind (.arg _ _) fun _ _ =>
      .bind (.arg _ _) fun _ _ =>
      .pure trivial) fun r _ => ?_
    split
    refine .bind (.arg _ _) fun _ _ => .bind (.arg _ _) fun _ _ => .bind (.call _ _) fun r _ => ?_
    split <;> exact .answer _

theorem streamEntriesBytes_made (count : ℕ) (es : List StreamEntry) :
    Made (fun _ => True) (streamEntriesBytes (D := D) count es) := by
  unfold streamEntriesBytes
  split
  · exact .fault nofun
  · exact .pure trivial

theorem cmdXrange_made : Made (· = .done) (cmdXrange (D := D) ctx) := by
  refine .bind (.arg _ _) fun lo _ => ?_
  split
  · exact .answer _
  · refine .bind (.arg _ _) fun hi _ => ?_
    split
    · exact .answer _
    · refine get_made ctx _ 1 fun r => ?_
      split
      · exact .answer _
      · exact .answer _
      · exact .bind (.reply _) fun _ _ => .bind (streamEntriesBytes_made _ _) fun _ _ => .answer _

theorem xreadCheck_made (first numKeys : ℕ) :
    Made (Left (· = .done)) (xreadCheck (D := D) ctx first numKeys) := by
  refine .forFrom fun k _ => .bind (.arg _ _) fun _ _ => .bind (.arg _ _) fun _ _ =>
    .bind (.call _ _) fun st _ => ?_
  split
  · exact .early _
  · split
    · exact .pure trivial
    · split
      · exact .early _
      · exact .pure trivial

theorem xreadCollect_made (first numKeys : ℕ) (limit : Int) (after : List StreamId) :
    Made (Left fun _ => True) (xreadCollect (D := D) ctx first numKeys limit after) := by
  refine .forFrom fun k p => .bind (.arg _ _) fun key _ => .bind (.call _ _) fun r _ => ?_
  split
  · exact .pure trivial
  · refine .bind (P := fun _ => True) ?_ fun last _ => ?_
    · unfold afterAt
      split
      · exact .fault nofun
      · exact .pure trivial
    · simp only
      split
      · exact .pure trivial
      · exact .bind (streamEntriesBytes_made _ _) fun _ _ => .pure trivial

theorem xreadStreams_made (a : ℕ) (limit : Int) : Made (· = .done) (xreadStreams (D := D) ctx a limit) := by
  unfold xreadStreams xreadStreamsWith
  split
  · exact .answer _
  · refine .bind (.arg _ _) fun b _ => ?_
    split
    · exact .answer _
    · simp only
      split
      · exact .answer _
      · refine .bind (xreadCheck_made ctx _ _) fun r hr => ?_
        split
        · exact .pure hr
        · refine .bind (xreadCollect_made ctx _ _ _ _) fun r _ => ?_
          split
          split <;> exact .answer _

theorem cmdXread_made : Made (· = .done) (cmdXread (D := D) ctx) := by
  refine .bind (.arg _ _) fun b _ => ?_
  split
  · split
    · exact .answer _
    · refine .bind (.arg _ _) fun b _ => ?_
      split
      · exact .answer _
      · split
        · exact .answer _
        · exact xreadStreams_made ctx _ _
  · exact xreadStreams_made ctx _ _

end Handlers

/-- Every command but `KEYS` and `BLPOP` is made of replies, calls of the store and readings of the
configuration and the clock, and does not block. -/
theorem commandTable_made : ∀ spec ∈ commandTable (D := D), spec.kind = .normal → spec.name ≠ ascii "keys" →
    spec.name ≠ ascii "blpop" → ∃ proc, spec.proc = some proc ∧ ∀ ctx, Made (· = .done) (proc ctx) := by
  simp only [commandTable, List.forall_mem_cons, List.not_mem_nil, false_imp_iff, implies_true, and_true]
  refine ⟨fun _ _ _ => ⟨_, rfl, cmdPing_made⟩, fun _ _ _ => ⟨_, rfl, cmdEcho_made⟩,
    fun _ _ _ => ⟨_, rfl, cmdConfig_made⟩,
    fun _ hkeys => absurd rfl hkeys, fun _ _ _ => ⟨_, rfl, cmdSet_made⟩, fun _ _ _ => ⟨_, rfl, cmdGet_made⟩,
    fun _ _ _ => ⟨_, rfl, fun ctx => incrCommon_made ctx 1⟩,
      fun _ _ _ => ⟨_, rfl, fun ctx => incrCommon_made ctx (-1)⟩,
    fun _ _ _ => ⟨_, rfl, cmdIncrby_made⟩, fun _ _ _ => ⟨_, rfl, cmdDecrby_made⟩,
    fun _ _ _ => ⟨_, rfl, fun ctx => countKeys_made ctx _⟩,
      fun _ _ _ => ⟨_, rfl, fun ctx => countKeys_made ctx _⟩,
    fun _ _ _ => ⟨_, rfl, cmdType_made⟩, fun _ _ _ => ⟨_, rfl, fun ctx => ttlCommon_made ctx false⟩,
    fun _ _ _ => ⟨_, rfl, fun ctx => ttlCommon_made ctx true⟩,
      fun _ _ _ => ⟨_, rfl, fun ctx => pushCommon_made ctx true⟩,
    fun _ _ _ => ⟨_, rfl, fun ctx => pushCommon_made ctx false⟩,
      fun _ _ _ => ⟨_, rfl, fun ctx => popCommon_made ctx true⟩,
    fun _ _ _ => ⟨_, rfl, fun ctx => popCommon_made ctx false⟩, fun _ _ _ => ⟨_, rfl, cmdLlen_made⟩,
    fun _ _ _ => ⟨_, rfl, cmdLrange_made⟩, fun _ _ hblpop => absurd rfl hblpop,
      fun _ _ _ => ⟨_, rfl, cmdHset_made⟩,
    fun _ _ _ => ⟨_, rfl, cmdHget_made⟩, fun _ _ _ => ⟨_, rfl, cmdHgetall_made⟩,
      fun _ _ _ => ⟨_, rfl, cmdHmget_made⟩,
    fun _ _ _ => ⟨_, rfl, cmdHdel_made⟩, fun _ _ _ => ⟨_, rfl, cmdHlen_made⟩,
      fun _ _ _ => ⟨_, rfl, cmdZadd_made⟩,
    fun _ _ _ => ⟨_, rfl, cmdZrange_made⟩, fun _ _ _ => ⟨_, rfl, cmdZrangebyscore_made⟩,
    fun _ _ _ => ⟨_, rfl, cmdZrank_made⟩, fun _ _ _ => ⟨_, rfl, cmdZcard_made⟩,
      fun _ _ _ => ⟨_, rfl, cmdZscore_made⟩,
    fun _ _ _ => ⟨_, rfl, cmdGeoadd_made⟩, fun _ _ _ => ⟨_, rfl, cmdGeodist_made⟩,
      fun _ _ _ => ⟨_, rfl, cmdGeopos_made⟩,
    fun _ _ _ => ⟨_, rfl, cmdXadd_made⟩, fun _ _ _ => ⟨_, rfl, cmdXrange_made⟩,
      fun _ _ _ => ⟨_, rfl, cmdXread_made⟩,
    fun hkind => absurd hkind (by decide), fun hkind => absurd hkind (by decide),
      fun hkind => absurd hkind (by decide)⟩

theorem commandTable_blpop {spec : CommandSpec D} (hmem : spec ∈ commandTable)
    (hname : spec.name = ascii "blpop") :
    spec = ⟨ascii "blpop", -3, some PulseDB.cmdBlpop, .normal⟩ :=
  commandTable_eq hmem (List.mem_of_getElem? (rfl : commandTable[21]? = _)) hname

omit [LinearOrder D] in
theorem cmdKeys_steady (ctx : CommandCtx) (e : Env D) (s : Sess D) :
    wlp (cmdKeys ctx) e s fun st s' => st = .done ∧ s'.monoTick = s.monoTick := by
  unfold cmdKeys
  rw [wlp_bind]
  refine wlp_mono arg_wlp fun pattern s₁ ⟨hs₁, _⟩ => ?_
  subst hs₁
  exact wlp_of_wp ⟨rfl, rfl⟩

/-- Every command but `BLPOP` ends without blocking, and does not read the steady clock. -/
theorem commandTable_steady {spec : CommandSpec D} (hmem : spec ∈ commandTable) (hkind : spec.kind = .normal)
    (hblpop : spec.name ≠ ascii "blpop") : ∃ proc, spec.proc = some proc ∧ ∀ ctx e s,
      wlp (proc ctx) e s fun st s' => st = .done ∧ s'.monoTick = s.monoTick := by
  by_cases hkeys : spec.name = ascii "keys"
  · have hentry : (⟨ascii "keys", 2, some cmdKeys, .normal⟩ : CommandSpec D) ∈ commandTable :=
      List.mem_of_getElem? (rfl : commandTable[3]? = _)
    obtain rfl := commandTable_eq hmem hentry hkeys
    exact ⟨_, rfl, cmdKeys_steady⟩
  · obtain ⟨proc, hproc, hmade⟩ := commandTable_made spec hmem hkind hkeys hblpop
    exact ⟨proc, hproc, fun ctx e s st s' hrun => ⟨(hmade ctx).wlp e s st s' hrun,
      (hmade ctx).monoTick e s st s' hrun⟩⟩

end PulseDB
