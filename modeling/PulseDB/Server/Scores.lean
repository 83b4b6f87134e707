import PulseDB.Cmd.Ranges
import PulseDB.GeoCode
import PulseDB.Server.Delivery

/-!
# The scores that `GEODIST` and `GEOPOS` convert

Both commands convert what `store_zset_score` answers to a hash, whichever command has written the score.

* `ScoreWrite`, `Execution.scoreWrites` : the scores a call has written, as its arguments and its reply tell;
  `lastWrite` : the last one for a member;
* `ScoresBy ws store store'` : every score is the last one written, or it was there and none has been written;
* `Fades m` : a program that writes no score; `commandTable_fades` : all commands but `ZADD` and `GEOADD` do
  not;
* `Runs.scores` : every call; `geo_conversions` : with the conversions of C, those of scores are defined in
  every run whose `ZADD` calls give scores that can be converted, and give back the hashes of `GEOADD`.
-/

namespace PulseDB
open Lib Lib.Prog

variable {D : Type}

/-! ## Scores and their writes -/

/-- The sorted set under the key gives the member this score. -/
def Store.Scored (store : Store D) (key member : Bytes) (score : D) : Prop :=
  ⟨member, score⟩ ∈ zsetEntries (store.cells key)

/-- A score written for a member, with the hash it stands for if `GEOADD` has written it. -/
structure ScoreWrite (D : Type) where
  key : Bytes
  member : Bytes
  score : D
  hash : Option UInt64 := none

def lastWrite (ws : List (ScoreWrite D)) (key member : Bytes) : Option (ScoreWrite D) :=
  ws.reverse.find? fun w => decide (w.key = key ∧ w.member = member)

theorem lastWrite_append (ws ws' : List (ScoreWrite D)) (key member : Bytes) :
    lastWrite (ws ++ ws') key member = (lastWrite ws' key member).or (lastWrite ws key member) := by
  rw [lastWrite, List.reverse_append, List.find?_append]
  rfl

theorem lastWrite_mem {ws : List (ScoreWrite D)} {key member : Bytes} {w : ScoreWrite D}
    (h : lastWrite ws key member = some w) : w ∈ ws :=
  List.mem_reverse.mp (List.mem_of_find?_eq_some h)

/-- Every score is the last one written for its member, or none has been written and it was there. -/
def ScoresBy (ws : List (ScoreWrite D)) (store store' : Store D) : Prop :=
  ∀ key member score, store'.Scored key member score →
    (∃ w, lastWrite ws key member = some w ∧ w.score = score) ∨
      lastWrite ws key member = none ∧ store.Scored key member score

theorem ScoresBy.trans {ws ws' : List (ScoreWrite D)} {store store₁ store₂ : Store D}
    (h : ScoresBy ws store store₁) (h' : ScoresBy ws' store₁ store₂) : ScoresBy (ws ++ ws') store store₂ := by
  intro key member score hscore
  rw [lastWrite_append]
  rcases h' key member score hscore with ⟨w, hw, hs⟩ | ⟨hnone, hscore₁⟩
  · exact Or.inl ⟨w, by rw [hw, Option.some_or], hs⟩
  · rw [hnone, Option.none_or]
    exact h key member score hscore₁

theorem ScoresBy.of_scored {store store' : Store D}
    (h : ∀ key member score, store'.Scored key member score → store.Scored key member score) :
      ScoresBy [] store store' :=
  fun key member score hscore => Or.inr ⟨rfl, h key member score hscore⟩

/-- The entries of the sorted sets, as a part of the cells. -/
def zsetPart (D : Type) : Part D (List (ZSetEntry D)) where
  type := .zset
  read := zsetEntries
  lasting := by decide
  other c h := by
    obtain ⟨v, x⟩ := c
    cases v with
    | zset z => exact absurd rfl h
    | _ => rfl

variable [LinearOrder D]

theorem Purged.scoresBy {e : Env D} {s s' : Sess D} (hv : s.store.Valid) (h : Purged e s s') :
    ScoresBy [] s.store s'.store := by
  refine .of_scored fun key member score hscore => ?_
  have hread : zsetEntries (s'.store.cells key) = _ := h.read (zsetPart D) hv key
  rw [Store.Scored, hread] at hscore
  exact hscore

section Called
variable {e : Env D} {s s' : Sess D}

theorem Called.scoresBy {key member : Bytes} {score : D} {a : Bool} (hv : s.store.Valid)
    (hc : Called e s (.zsetAdd score member) key (.ok a) s') (hash : Option UInt64) :
    ScoresBy [⟨key, member, score, hash⟩] s.store s'.store := by
  intro k m sc hscore
  have hlast : lastWrite [(⟨key, member, score, hash⟩ : ScoreWrite D)] k m =
      if key = k ∧ member = m then some ⟨key, member, score, hash⟩ else none := by
    rw [lastWrite, List.reverse_singleton, List.find?_singleton]
    simp only [decide_eq_true_eq]
  rw [hlast]
  rw [Store.Scored, hc.cells] at hscore
  by_cases hk : k = key
  · subst hk
    rw [Function.update_self] at hscore
    have hresult := hc.result
    -- the sorted set that is added to
    obtain ⟨z, hz, hold, hnew⟩ : ∃ z : ZSet D, z.Inv ∧ (∀ x ∈ z.entries, x ∈ zsetEntries (s.store.cells k)) ∧
        zsetEntries ((StoreOp.zsetAdd score member).step (e.clock (s.tick + 1))
          (live (e.clock s.tick) (s.store.cells k))).2 = (z.add score member).2.entries := by
      rcases hlive : live (e.clock s.tick) (s.store.cells k) with _ | ⟨v, x⟩
      · exact ⟨{}, ZSet.inv_empty, fun x hx => absurd hx List.not_mem_nil, rfl⟩
      · have hinv := (hv.of_live _ _ _ hlive).value
        have hcell := (live_eq_some.mp hlive).1
        rw [hlive] at hresult
        cases v with
        | zset z => exact ⟨z, hinv.1, fun x hx => by rw [hcell]; exact hx, rfl⟩
        | _ => cases hresult
    rw [hnew, ← scoresIn_entries, (hz.add score member).2.1 m sc, scoresIn_entries] at hscore
    by_cases hm : m = member
    · rw [if_pos hm] at hscore
      exact Or.inl ⟨_, if_pos ⟨rfl, hm.symm⟩, hscore.symm⟩
    · rw [if_neg hm] at hscore
      exact Or.inr ⟨if_neg fun h => hm h.2.symm, hold _ hscore⟩
  · rw [Function.update_of_ne hk] at hscore
    exact Or.inr ⟨if_neg fun h => hk h.1.symm, hscore⟩

end Called

/-! ## The commands that write no score -/

/-- Run from a valid store, the program writes no score. -/
def Fades {α : Type} (m : Cmd D α) : Prop :=
  ∀ (e : Env D) (s : Sess D), s.store.Valid → wlp m e s fun _ s' => s'.store.Valid ∧
    ScoresBy [] s.store s'.store

namespace Fades
variable {α β γ : Type} {m : Cmd D α}

theorem of_leaves (h : Leaves (zsetPart D) (fun _ => False) m) : Fades m := by
  intro e s hv
  refine wlp_mono (h e s hv) fun _ s' ⟨hv', hsame⟩ => ⟨hv', .of_scored fun key member score hscore => ?_⟩
  have hread : zsetEntries (s'.store.cells key) = _ := hsame key id
  rw [Store.Scored, hread] at hscore
  exact hscore

theorem bind {f : α → Cmd D β} (hm : Fades m) (hf : ∀ a, Fades (f a)) : Fades (m >>= f) := by
  intro e s hv
  rw [wlp_bind]
  refine wlp_mono (hm e s hv) fun a s₁ ⟨hv₁, h₁⟩ => ?_
  exact wlp_mono (hf a e s₁ hv₁) fun b s₂ ⟨hv₂, h₂⟩ => ⟨hv₂, h₁.trans h₂⟩

theorem call {op : StoreOp D α} {key : Bytes} (h : ∀ now' o, zsetEntries (op.step now' o).2 = []) :
    Fades (PulseDB.call op key) := by
  intro e s hv
  refine wlp_of_wp (wp_call hv fun r s' hc => ⟨hc.valid, .of_scored fun k member score hscore => ?_⟩)
  rw [Store.Scored, hc.cells] at hscore
  by_cases hk : k = key
  · subst hk
    rw [Function.update_self, h] at hscore
    exact absurd hscore List.not_mem_nil
  · rw [Function.update_of_ne hk] at hscore
    exact hscore

theorem loop {hi : ℕ} {body : ℕ → β → Cmd D (γ ⊕ ℕ × β)} (hbody : ∀ i b, Fades (body i b)) :
    ∀ (rounds i : ℕ) (b : β), Fades (Prog.loop hi body rounds i b)
  | 0, i, b => of_leaves (.pure _)
  | rounds + 1, i, b => by
    unfold Prog.loop
    split
    · refine (hbody i b).bind fun r => ?_
      split
      · exact of_leaves (.pure _)
      · exact loop hbody rounds _ _
    · exact of_leaves (.pure _)

theorem wrote {n : ℕ} {ctx : CommandCtx} {e : Env D} {s : Sess D} {proc : CommandCtx → Cmd D CmdStatus}
    (hf : Fades (proc ctx)) (hh : Serving n proc) (hc : ctx.req.Clean) (hn : n ≤ ctx.argc)
      (hv : s.store.Valid) :
    wp (proc ctx) e s fun st s' => ∃ o, Wrote s st o s' ∧ ScoresBy [] s.store s'.store := by
  obtain ⟨st, s', hrun, hans⟩ := wp_iff.mp (hh ctx e s hc hn hv)
  obtain ⟨o, ho⟩ := hans.1.wrote
  rw [wp_of_ok hrun]
  exact ⟨o, ho, (hf e s hv st s' hrun).2⟩

end Fades

theorem cmdSet_fades (ctx : CommandCtx) : Fades (cmdSet (D := D) ctx) := by
  refine Fades.bind (.of_leaves (setOptions_leaves ctx)) fun r => ?_
  split
  · exact .of_leaves (.pure _)
  · refine .bind (.of_leaves (.arg _ _)) fun key => .bind (.of_leaves (.arg _ _)) fun value => ?_
    exact .bind (.call fun _ _ => rfl) fun _ => .of_leaves (.answer _)

theorem cmdDel_fades (ctx : CommandCtx) : Fades (cmdDel (D := D) ctx) := by
  unfold cmdDel countKeys
  refine .bind (.loop (fun i n => ?_) _ _ _) fun r => ?_
  · refine .bind (.of_leaves (.arg _ _)) fun key => .bind (.call fun _ _ => rfl) fun b => .of_leaves (.pure _)
  · rcases r with r | n
    · exact r.elim
    · exact .of_leaves (.answer _)

/-- Every command of kind `KIND_NORMAL` other than `ZADD` and `GEOADD` writes no score. -/
theorem commandTable_fades : ∀ spec ∈ commandTable (D := D), spec.kind = .normal → spec.name ∉ writers .zset →
    ∃ proc, spec.proc = some proc ∧ ∀ ctx : CommandCtx, ctx.req.Clean → Fades (proc ctx) := by
  intro spec hmem hkind hw
  have hentry : ∀ {i : ℕ} {spec' : CommandSpec D}, commandTable[i]? = some spec' → spec.name = spec'.name →
      spec = spec' := fun hi hname => commandTable_eq hmem (List.mem_of_getElem? hi) hname
  by_cases hset : spec.name = ascii "set"
  · obtain rfl := hentry (i := 4) rfl hset
    exact ⟨_, rfl, fun ctx _ => cmdSet_fades ctx⟩
  · by_cases hdel : spec.name = ascii "del"
    · obtain rfl := hentry (i := 10) rfl hdel
      exact ⟨_, rfl, fun ctx _ => cmdDel_fades ctx⟩
    · obtain ⟨proc, hproc, hleaves⟩ := commandTable_leaves (zsetPart D) spec hmem hkind hw
      refine ⟨proc, hproc, fun ctx hc => .of_leaves ((hleaves ctx hc).mono fun k hk => ?_)⟩
      unfold Overwrites listAction at hk
      rw [if_neg hset, if_neg hdel] at hk
      split_ifs at hk
      all_goals exact hk

/-! ## The two commands that do -/

section Adds
variable {ctx : CommandCtx} {e : Env D} {s : Sess D}

theorem wrote_error {s₁ : Sess D} (hv : s.store.Valid) (h : Quiet e s [] s₁) (msg : Bytes) :
    wp (answer (replyError msg)) e s₁ fun st s' =>
      ∃ line, Wrote s st (some (.error line)) s' ∧ ScoresBy [] s.store s'.store := by
  refine wp_answer.mpr ⟨errorLine msg, ⟨errorLine_line msg, ?_⟩, h.purged.scoresBy hv⟩
  show s₁.client.out ++ replyError msg = _
  rw [h.client, replyError_eq, List.append_nil]

theorem zsetAddLoop_scores {hi step n : ℕ} {pair : ℕ → Cmd D (D × Bytes)} {g : ℕ → Option (ScoreWrite D)}
    (hc : ctx.req.Clean) (hargc : 1 < ctx.argc) (hstep : 0 < step) (hhi : ∀ j, 2 + step * j < hi ↔ j < n)
    (hpair : ∀ j < n, ∃ w, g j = some w ∧ w.key = ctx.argv 1 ∧
      ∀ s R, R (w.score, w.member) s → wp (pair (2 + step * j)) e s R)
    {s₁ : Sess D} (hv : s.store.Valid) (h : Quiet e s [] s₁)
      (hty : OfType .zset (s₁.store.cells (ctx.argv 1))) :
    wp (zsetAddLoop ctx hi step pair) e s₁ fun st s' => ∃ added, Wrote s st (some (.integer added)) s' ∧
      ScoresBy ((List.range n).filterMap g) s.store s'.store := by
  unfold zsetAddLoop zsetAddLoopWith
  rw [wp_bind]
  -- the first `j` writes have been made
  refine wp_forFrom (fun i _ s' => ∃ j ≤ n, i = 2 + step * j ∧ Ran s [] s' ∧
      OfType .zset (s'.store.cells (ctx.argv 1)) ∧ ScoresBy ((List.range j).filterMap g) s.store s'.store)
    ⟨0, Nat.zero_le _, rfl, h.toRan, hty, h.purged.scoresBy hv⟩ (fun i added s' h hi' => ?_)
      fun i added s' h hi' => ?_
  · obtain ⟨j, -, rfl, hran, hty, hby⟩ := h
    have hj := (hhi j).mp hi'
    obtain ⟨w, hw, hkey, hwp⟩ := hpair j hj
    rw [wp_bind]
    refine hwp s' _ ?_
    rw [wp_bind, wp_arg hc hargc, wp_bind]
    refine wp_call hran.valid fun r s'' hcall => ?_
    obtain ⟨a, rfl, hran', hty'⟩ := hran.wrote hty (zsetAdd_writes w.score w.member) hcall
    have hone := hby.trans (hcall.scoresBy hran.valid w.hash)
    refine ⟨by omega, j + 1, hj, by rw [Nat.mul_succ]; omega, hran', hty', ?_⟩
    rw [List.range_succ, List.filterMap_append, List.filterMap_cons_some hw, List.filterMap_nil]
    rw [← hkey] at hone
    exact hone
  · obtain ⟨j, hj, rfl, hran, -, hby⟩ := h
    have hend : j = n := by
      have := (hhi j).not.mp (by omega)
      omega
    subst hend
    refine ⟨added, ⟨trivial, ?_⟩, hby⟩
    show s'.client.out ++ replyInteger added = _
    rw [hran.client, replyInteger_eq, List.append_nil]

end Adds

/-- The scores `ZADD` writes. -/
def zaddWrites (libc : Libc D) (args : List Bytes) : List (ScoreWrite D) :=
  (List.range ((args.length - 2) / 2)).filterMap fun j =>
    (parseDouble libc (args.getD (2 + 2 * j) [])).map fun score =>
      { key := args.getD 1 [], member := args.getD (2 + 2 * j + 1) [], score }

/-- The hash of the coordinates that `GEOADD` is given in the arguments from `i` on. -/
def geoaddHash (libc : Libc D) (args : List Bytes) (i : ℕ) : UInt64 :=
  geoEncode libc (libc.strtod (args.getD (i + 1) [])).value (libc.strtod (args.getD i [])).value

theorem geoaddHash_lt (libc : Libc D) (args : List Bytes) (i : ℕ) : (geoaddHash libc args i).toNat < 2 ^ 52 :=
  interleave_lt _ _

/-- The scores `GEOADD` writes. -/
def geoaddWrites (libc : Libc D) (args : List Bytes) : List (ScoreWrite D) :=
  (List.range ((args.length - 2) / 3)).filterMap fun j =>
    let hash := geoaddHash libc args (2 + 3 * j)
    some
      { key := args.getD 1 [], member := args.getD (2 + 3 * j + 2) [],
        score := libc.ofUInt64 hash, hash := some hash }

/-- The scores that the reply of a command tells: the two commands write all of them, and reply with a number,
or none. -/
def scoreWrites (libc : Libc D) (name : Bytes) (args : List Bytes) : Option Reply → List (ScoreWrite D)
  | some (.integer _) =>
    if name = ascii "zadd" then zaddWrites libc args
    else if name = ascii "geoadd" then geoaddWrites libc args
    else []
  | _ => []

def Execution.scoreWrites (libc : Libc D) (x : Execution) : List (ScoreWrite D) :=
  PulseDB.scoreWrites libc (x.req.name.map toLower) x.req.args x.reply

section Calls
variable {ctx : CommandCtx} {e : Env D} {s s' : Sess D}

theorem cmdZadd_scores (hc : ctx.req.Clean) (hn : 4 ≤ ctx.argc) (hv : s.store.Valid) :
    wp (cmdZadd ctx) e s fun st s' => ∃ o, Wrote s st o s' ∧
      ScoresBy (scoreWrites e.libc (ascii "zadd") ctx.req.args o) s.store s'.store := by
  have hargv : ∀ i, ctx.req.args.getD i [] = ctx.argv i :=
    RespValue.args_getD ctx.req ctx.canBlock ctx.timedOut
  refine cmdZadd_wp hc hn hv (fun s₁ msg _ hq => ?_) fun s₁ heven hq hty pair hpair => ?_
  · exact wp_mono (wrote_error hv hq msg) fun st s' ⟨line, hwrote, hby⟩ => ⟨_, hwrote, hby⟩
  · refine wp_mono (zsetAddLoop_scores hc (by omega) (by decide) (fun j => ?_) (fun j hj => ?_) hv hq hty)
      fun st s' ⟨added, hwrote, hby⟩ => ⟨_, hwrote, hby⟩
    · rw [ctx.args_length]
      omega
    · rw [ctx.args_length] at hj
      obtain ⟨score, hscore, hwp⟩ := hpair j (by omega)
      refine ⟨⟨ctx.argv 1, ctx.argv (2 + 2 * j + 1), score, none⟩, ?_, rfl, hwp⟩
      rw [hargv, hargv, hargv, hscore]
      rfl

theorem cmdGeoadd_scores (hc : ctx.req.Clean) (hn : 5 ≤ ctx.argc) (hv : s.store.Valid) :
    wp (cmdGeoadd ctx) e s fun st s' => ∃ o, Wrote s st o s' ∧
      ScoresBy (scoreWrites e.libc (ascii "geoadd") ctx.req.args o) s.store s'.store := by
  have hargv : ∀ i, ctx.req.args.getD i [] = ctx.argv i :=
    RespValue.args_getD ctx.req ctx.canBlock ctx.timedOut
  refine cmdGeoadd_wp hc hn hv (fun s₁ msg _ hq => ?_) fun s₁ hthree hq hty pair hpair => ?_
  · exact wp_mono (wrote_error hv hq msg) fun st s' ⟨line, hwrote, hby⟩ => ⟨_, hwrote, hby⟩
  · refine wp_mono (zsetAddLoop_scores hc (by omega) (by decide) (fun j => ?_) (fun j hj => ?_) hv hq hty)
      fun st s' ⟨added, hwrote, hby⟩ => ⟨_, hwrote, hby⟩
    · rw [ctx.args_length]
      omega
    · rw [ctx.args_length] at hj
      refine ⟨_, rfl, hargv 1, ?_⟩
      simp only [geoaddHash, hargv]
      exact hpair j (by omega)

theorem Runs.scores {canBlock timedOut : Bool} {x : Execution} (hv : s.store.Valid)
    (h : Runs e canBlock timedOut s x s') :
    s'.store.Valid ∧ ScoresBy (x.scoreWrites e.libc) s.store s'.store := by
  refine h.told (Q := fun o s' => ScoresBy (scoreWrites e.libc (x.req.name.map toLower) x.req.args o) s.store
    s'.store) hv
    fun spec proc hmem hkind hname hproc hclean harity => ?_
  have hentry : ∀ {i : ℕ} {spec' : CommandSpec D}, commandTable[i]? = some spec' → spec.name = spec'.name →
      spec = spec' := fun hi hname => commandTable_eq hmem (List.mem_of_getElem? hi) hname
  rw [← hname]
  by_cases hzadd : spec.name = ascii "zadd"
  · obtain rfl := hentry (i := 28) rfl hzadd
    cases hproc
    exact cmdZadd_scores hclean harity hv
  · by_cases hgeoadd : spec.name = ascii "geoadd"
    · obtain rfl := hentry (i := 34) rfl hgeoadd
      cases hproc
      exact cmdGeoadd_scores hclean harity hv
    · have hw : spec.name ∉ writers .zset := by
        rw [writers, List.mem_cons, List.mem_singleton]
        exact not_or.mpr ⟨hzadd, hgeoadd⟩
      obtain ⟨proc₁, hproc₁, hserving⟩ := commandTable_serving spec hmem hkind
      obtain ⟨proc₂, hproc₂, hfades⟩ := commandTable_fades spec hmem hkind hw
      obtain rfl : proc = proc₁ := Option.some.inj (hproc.symm.trans hproc₁)
      obtain rfl : proc = proc₂ := Option.some.inj (hproc.symm.trans hproc₂)
      have hctx : (⟨x.req, canBlock, timedOut⟩ : CommandCtx).req.Clean := hclean
      refine wp_mono ((hfades _ hctx).wrote hserving hclean harity hv) fun st s' hwrote => ?_
      obtain ⟨o, ho, hby⟩ := hwrote
      refine ⟨o, ho, ?_⟩
      have hnone : scoreWrites e.libc spec.name x.req.args o = [] := by
        unfold scoreWrites
        split
        · rw [if_neg hzadd, if_neg hgeoadd]
        · rfl
      rw [hnone]
      exact hby

theorem Serves.scores {x : Execution} {store store' : Store D} (hv : store.Valid)
    (h : Serves e store x store') :
    store'.Valid ∧ ScoresBy (x.scoreWrites e.libc) store store' := by
  obtain ⟨canBlock, timedOut, s, s', rfl, rfl, hruns⟩ := h
  exact hruns.scores hv

theorem scores_of_run {xs : List Execution} {store store' : Store D} (hv : store.Valid)
    (h : Run (Serves e) store xs store') :
    store'.Valid ∧ ScoresBy (xs.flatMap (Execution.scoreWrites e.libc)) store store' := by
  induction h with
  | nil => exact ⟨hv, .of_scored fun _ _ _ hscore => hscore⟩
  | snoc _ hstep ih =>
    obtain ⟨hv', hby'⟩ := hstep.scores ih.1
    rw [List.flatMap_append, List.flatMap_singleton]
    exact ⟨hv', ih.2.trans hby'⟩

theorem scored_of_storeZsetScore {store : Store D} (hv : store.Valid) {key member : Bytes} {now : Int}
    {score : D}
    (h : (storeZsetScore store key member now).1 = .ok score) : store.Scored key member score := by
  have hdoes := exec_does hv.inv key now now (.zsetScore member)
  have hresult : (storeZsetScore store key member now).1 = _ := hdoes.result
  obtain ⟨c, z, hlive, hz, hscore⟩ := Cell.inspect_ok (hresult.symm.trans h)
  obtain ⟨v, x⟩ := c
  obtain rfl := Value.eq_of_asZset hz
  have hinv : z.Inv := (hv.of_live now key _ hlive).value.1
  obtain ⟨node, hnode, rfl⟩ := Option.map_eq_some_iff.mp hscore
  obtain ⟨hmem, rfl⟩ := hinv.zindexFind_eq_some.mp hnode
  rw [Store.Scored, (live_eq_some.mp hlive).1]
  exact (hinv.agree _ _).mp ⟨node, hmem, rfl, rfl⟩

end Calls

/-! ## The conversions -/

/-- The number is finite and its integer part is one of `uint64_t`, so that C defines its conversion. -/
def Converts (value : D → Option ℚ) (score : D) : Prop :=
  ∃ q, value score = some q ∧ 0 ≤ trunc q ∧ trunc q < 2 ^ 64

/-- If the call is one of `ZADD`, its scores can be converted. -/
def Execution.ScoresConvert (libc : Libc D) (value : D → Option ℚ) (x : Execution) : Prop :=
  x.req.name.map toLower = ascii "zadd" → ∀ j score, 2 + 2 * j + 1 < x.req.args.length →
    parseDouble libc (x.req.args.getD (2 + 2 * j) []) = some score → Converts value score

section Conversions
variable {libc : Libc D} {value : D → Option ℚ} (hlibc : libc.Conversions value)
include hlibc

omit [LinearOrder D] in
theorem hash_converts {hash : UInt64} (h : hash.toNat < 2 ^ 52) :
    Converts value (libc.ofUInt64 hash) ∧ libc.toUInt64 (some (libc.ofUInt64 hash)) = hash := by
  have hvalue := hlibc.ofUInt64 hash (by omega)
  have htrunc : trunc (hash.toNat : ℚ) = hash.toNat := trunc_natCast _
  have hnonneg : 0 ≤ trunc (hash.toNat : ℚ) := by
    rw [htrunc]
    omega
  have hlt : trunc (hash.toNat : ℚ) < 2 ^ 64 := by
    rw [htrunc]
    omega
  refine ⟨⟨_, hvalue, hnonneg, hlt⟩, ?_⟩
  rw [hlibc.toUInt64 _ _ hvalue hnonneg hlt, htrunc, Int.toNat_natCast, UInt64.ofNat_toNat]

/-- What a call has written can be converted, and a hash is converted back to itself. -/
theorem Execution.ScoresConvert.writes {x : Execution} (h : x.ScoresConvert libc value) {w : ScoreWrite D}
    (hw : w ∈ x.scoreWrites libc) :
    Converts value w.score ∧ ∀ hash, w.hash = some hash → libc.toUInt64 (some w.score) = hash ∧
      hash.toNat < 2 ^ 52 := by
  unfold Execution.scoreWrites PulseDB.scoreWrites at hw
  split at hw
  · split_ifs at hw with hzadd hgeoadd
    · obtain ⟨j, hj, hsome⟩ := List.mem_filterMap.mp hw
      obtain ⟨score, hscore, rfl⟩ := Option.map_eq_some_iff.mp hsome
      have hlt := List.mem_range.mp hj
      exact ⟨h hzadd j score (by omega) hscore, fun hash hhash => by cases hhash⟩
    · obtain ⟨j, -, hsome⟩ := List.mem_filterMap.mp hw
      cases hsome
      have hsmall := geoaddHash_lt libc x.req.args (2 + 3 * j)
      obtain ⟨hconv, hback⟩ := hash_converts hlibc hsmall
      refine ⟨hconv, fun hash hhash => ?_⟩
      cases hhash
      exact ⟨hback, hsmall⟩
    · exact absurd hw List.not_mem_nil
  · exact absurd hw List.not_mem_nil

end Conversions

/-- Whatever else the library computes: in every store reached by calls whose `ZADD` scores can be converted,
from one without sorted sets, the answers of `store_zset_score`, which `GEODIST` and `GEOPOS` convert, can be
converted; and if `GEOADD` has written the member last, the conversion gives the hash it stored. -/
theorem geo_conversions {e : Env D} {value : D → Option ℚ} (hlibc : e.libc.Conversions value)
    {store store' : Store D} {xs : List Execution} (hstore : store.Reachable)
    (hfree : ∀ key, ∀ c ∈ store.cells key, c.value.type ≠ .zset)
    (hrun : Run (Serves e) store xs store') (hzadd : ∀ x ∈ xs, x.ScoresConvert e.libc value)
    {key member : Bytes} {now : Int} {score : D}
    (hscore : (storeZsetScore store' key member now).1 = .ok score) :
    Converts value score ∧ ∀ w hash,
      lastWrite (xs.flatMap (Execution.scoreWrites e.libc)) key member = some w →
      w.hash = some hash → e.libc.toUInt64 (some score) = hash ∧ hash.toNat < 2 ^ 52 := by
  obtain ⟨hvalid, hby⟩ := scores_of_run hstore.valid hrun
  rcases hby key member score (scored_of_storeZsetScore hvalid hscore) with ⟨w, hlast, rfl⟩ | ⟨-, hold⟩
  · obtain ⟨x, hx, hw⟩ := List.mem_flatMap.mp (lastWrite_mem hlast)
    obtain ⟨hconv, hback⟩ := (hzadd x hx).writes hlibc hw
    refine ⟨hconv, fun w' hash hlast' hhash => ?_⟩
    obtain rfl : w = w' := Option.some.inj (hlast.symm.trans hlast')
    exact hback hash hhash
  · obtain ⟨z, x, hcell⟩ := zsetEntries_ne_nil (List.ne_nil_of_mem hold)
    exact absurd rfl (hfree key _ hcell)

/-- An environment with exact numbers. -/
def Env.exact (libc : Libc ℚ) : Env ℚ := ⟨libc, configCreateDefault, fun _ => 0, fun _ => 0⟩

/-- Another library: an undefined conversion to `uint64_t` gives the largest integer. -/
def Libc.saturating : Libc ℚ :=
  { Libc.rationals with
    toUInt64 := fun a => if 0 ≤ trunc (a.getD 0) then Libc.rationals.toUInt64 a else uint64Max }

theorem Libc.saturating_conversions : Libc.saturating.Conversions some where
  ofUInt64 _ _ := rfl
  toUInt64 d q hd hnonneg _ := by
    cases hd
    exact if_pos hnonneg

/-- A negative score written by `ZADD`: what `GEOPOS` replies depends on a conversion that C leaves undefined,
since two libraries that keep the laws of C, and differ in this conversion only, give different replies. -/
theorem geo_conversions_negative :
    let zadd := RespValue.request [ascii "zadd", ascii "k", ascii "-1", ascii "m"]
    let geopos := RespValue.request [ascii "geopos", ascii "k", ascii "m"]
    Libc.rationals.Conversions some ∧ Libc.saturating.Conversions some ∧
    ∃ store : Store ℚ, Run (Serves (.exact .rationals)) storeCreate [⟨zadd, some (.integer 1)⟩] store ∧
      (storeZsetScore store (ascii "k") (ascii "m") 0).1 = .ok (-1) ∧ ¬ Converts some (-1 : ℚ) ∧
      (runFound geopos true false (.exact .rationals) ⟨store, {}, 0, 0⟩).toOption.map (·.2.client.out) ≠
        (runFound geopos true false (.exact .saturating) ⟨store, {}, 0, 0⟩).toOption.map
          (·.2.client.out) := by
  intro zadd geopos
  have heval : (runFound zadd true false (.exact .rationals) ⟨storeCreate, {}, 0, 0⟩).toOption.map (fun r =>
      (r.1, r.2.client.out, (storeZsetScore r.2.store (ascii "k") (ascii "m") 0).1.toOption,
        decide ((runFound geopos true false (.exact .rationals) ⟨r.2.store, {}, 0, 0⟩).toOption.map
          (·.2.client.out) =
          (runFound geopos true false (.exact .saturating) ⟨r.2.store, {}, 0, 0⟩).toOption.map
            (·.2.client.out)))) =
      some (.done, (Reply.integer 1).enc, some (-1), false) := by decide +kernel
  obtain ⟨⟨st, s⟩, hrun, heq⟩ := ok_of_toOption heval
  simp only [Prod.mk.injEq, decide_eq_false_iff_not] at heq
  obtain ⟨rfl, hout, hscore, hdiff⟩ := heq
  refine ⟨Libc.rationals_conversions, Libc.saturating_conversions, s.store,
    .one ⟨true, false, _, s, rfl, rfl, .done ?_ hrun trivial hout⟩, ?_, ?_, hdiff⟩
  · exact ⟨_, accepted_request (List.mem_of_getElem? (rfl : commandTable[28]? = _)) rfl (by decide), rfl⟩
  · obtain ⟨score, hok, rfl⟩ := ok_of_toOption (f := fun a => a) (Option.map_id'.trans hscore)
    exact hok
  · rintro ⟨q, hq, hnonneg, -⟩
    obtain rfl := Option.some.inj hq
    exact absurd hnonneg (by decide +kernel)

/-- A score that can be converted, and a position in the same sorted set. -/
theorem geo_conversions_mixed :
    let zadd := RespValue.request [ascii "zadd", ascii "k", ascii "5", ascii "a"]
    let geoadd := RespValue.request [ascii "geoadd", ascii "k", ascii "13.361389",
      ascii "38.115556", ascii "m"]
    ∃ (store : Store ℚ) (score : ℚ), Run (Serves (.exact .rationals)) storeCreate
        [⟨zadd, some (.integer 1)⟩, ⟨geoadd, some (.integer 1)⟩] store ∧
      (storeZsetScore store (ascii "k") (ascii "m") 0).1 = .ok score ∧ Converts some score ∧
      Libc.rationals.toUInt64 (some score) = geoaddHash .rationals geoadd.args 2 := by
  intro zadd geoadd
  have heval : (runFound zadd true false (.exact .rationals) ⟨storeCreate, {}, 0, 0⟩).toOption.map (fun r =>
      (r.1, r.2.client.out, decide ((runFound geoadd true false (.exact .rationals) ⟨r.2.store, {}, 0,
        0⟩).toOption.map
        (fun r' => (r'.1, r'.2.client.out,
          (storeZsetScore r'.2.store (ascii "k") (ascii "m") 0).1.toOption.isSome)) =
          some (.done, (Reply.integer 1).enc, true)))) =
      some (.done, (Reply.integer 1).enc, true) := by decide +kernel
  obtain ⟨⟨st, s⟩, hrun, heq⟩ := ok_of_toOption heval
  simp only [Prod.mk.injEq, decide_eq_true_eq] at heq
  obtain ⟨rfl, hout, heval'⟩ := heq
  obtain ⟨⟨st', s'⟩, hrun', heq'⟩ := ok_of_toOption heval'
  simp only [Prod.mk.injEq] at heq'
  obtain ⟨rfl, hout', hsome⟩ := heq'
  have hacc : Runnable ℚ zadd :=
    ⟨_, accepted_request (List.mem_of_getElem? (rfl : commandTable[28]? = _)) rfl (by decide), rfl⟩
  have hacc' : Runnable ℚ geoadd :=
    ⟨_, accepted_request (List.mem_of_getElem? (rfl : commandTable[34]? = _)) rfl (by decide), rfl⟩
  have hruns : Run (Serves (.exact .rationals)) (storeCreate (D := ℚ))
      [⟨zadd, some (.integer 1)⟩, ⟨geoadd, some (.integer 1)⟩] s'.store :=
    .snoc (.one ⟨true, false, _, s, rfl, rfl, .done hacc hrun trivial hout⟩)
      ⟨true, false, _, s', rfl, rfl, .done hacc' hrun' trivial hout'⟩
  have hconvert : Execution.ScoresConvert .rationals some ⟨zadd, some (.integer 1)⟩ := by
    intro _ j score hj hscore
    have hj : j = 0 := by
      have hlength : zadd.args.length = 4 := rfl
      simp only [hlength] at hj
      omega
    subst hj
    have hfive : parseDouble Libc.rationals (zadd.args.getD (2 + 2 * 0) []) = some 5 := by decide +kernel
    obtain rfl := Option.some.inj (hfive.symm.trans hscore)
    exact ⟨5, rfl, by decide +kernel, by decide +kernel⟩
  have hplace : Execution.ScoresConvert .rationals some ⟨geoadd, some (.integer 1)⟩ := fun hname => by
    cases hname
  have hlast : (lastWrite ([⟨zadd, some (.integer 1)⟩, ⟨geoadd, some (.integer 1)⟩].flatMap
      (Execution.scoreWrites Libc.rationals)) (ascii "k") (ascii "m")).bind (·.hash) =
      some (geoaddHash .rationals geoadd.args 2) := by decide +kernel
  obtain ⟨w, hw, hhash⟩ := Option.bind_eq_some_iff.mp hlast
  obtain ⟨score, hscore⟩ := Option.isSome_iff_exists.mp hsome
  obtain ⟨score, hok, rfl⟩ := ok_of_toOption (f := fun a => a) (Option.map_id'.trans hscore)
  have hfree : ∀ key, ∀ c ∈ (storeCreate : Store ℚ).cells key, c.value.type ≠ .zset := by
    intro key c hc
    rw [storeCreate_cells] at hc
    cases hc
  obtain ⟨hconv, hback⟩ := geo_conversions (e := .exact .rationals) Libc.rationals_conversions .create
    hfree hruns
    (List.forall_mem_cons.mpr ⟨hconvert, List.forall_mem_singleton.mpr hplace⟩) hok
  exact ⟨s'.store, score, hruns, hok, hconv, (hback w _ hw hhash).1⟩

end PulseDB
