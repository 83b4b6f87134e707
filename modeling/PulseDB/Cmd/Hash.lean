import PulseDB.Cmd.List

/-!
# Hash commands (`cmd_hash.c`)

The handlers, and that each of them keeps the guarantee of `Serving`. The loops of `HSET` and `HDEL` check the
type in every round: only the first can meet another type, since after it the key holds a hash or nothing
(`Writing`).
-/

namespace PulseDB
open Lib Lib.Prog

variable {D : Type} [LinearOrder D]

/-- The loops of `cmd_hset` and `cmd_hdel`, from argument 2 to before `hi` in steps of `step`: how often the
operation answers `1`. -/
def hashLoop (hi step : ℕ) (op : ℕ → Cmd D (Except StoreStatus Bool)) : Cmd D CmdStatus := do
  let r ← forFrom 2 hi (0 : Int) fun i n => do
    match ← op i with
    | .error .wrongType => return .inl (← answer (replyError errWrongtype))
    | .error _ => Prog.fault .unset
    | .ok b => return .inr (i + step, n + if b then 1 else 0)
  match r with
  | .inl st => return st
  | .inr n => answer (replyInteger n)

def cmdHsetWith (inRound : ℕ → StoreCall D) (ctx : CommandCtx) : Cmd D CmdStatus := do
  if ctx.argc % 2 ≠ 0 then answer (replyError (ascii "ERR wrong number of arguments for 'hset' command"))
  else hashLoop (ctx.argc - 1) 2 fun i => do
    let key ← arg ctx 1
    let field ← arg ctx i
    let value ← arg ctx (i + 1)
    inRound i (.hashSet field value) key

def cmdHset (ctx : CommandCtx) : Cmd D CmdStatus := cmdHsetWith (fun _ => call) ctx

def cmdHget (ctx : CommandCtx) : Cmd D CmdStatus := do
  let key ← arg ctx 1
  let field ← arg ctx 2
  match ← call (.hashGet field) key with
  | .ok value => answer (replyBulkCstr value)
  | .error .wrongType => answer (replyError errWrongtype)
  | .error _ => answer replyNull

/-- The bytes the inner loop of `cmd_hgetall` writes for one field. -/
def replyHashField (hf : HashField) : Bytes := replyBulkCstr hf.field ++ replyBulkCstr hf.value

def cmdHgetall (ctx : CommandCtx) : Cmd D CmdStatus := do
  match ← call .getHash (← arg ctx 1) with
  | .error .wrongType => answer (replyError errWrongtype)
  | .error _ => answer (replyArray 0)
  | .ok hash => do
    reply (replyArray (hash.len * 2))
    answer (hash.buckets.flatMap fun chain => chain.flatMap replyHashField)

def cmdHmgetWith (later : StoreCall D) (ctx : CommandCtx) : Cmd D CmdStatus := do
  let key ← arg ctx 1
  if ← otherType key .hash then answer (replyError errWrongtype)
  else replyEach ctx fun i => do
    let key ← arg ctx 1
    let field ← arg ctx i
    match ← later (.hashGet field) key with
    | .ok value => return replyBulkCstr value
    | .error _ => return replyNull

def cmdHmget (ctx : CommandCtx) : Cmd D CmdStatus := cmdHmgetWith call ctx

def cmdHdelWith (inRound : ℕ → StoreCall D) (ctx : CommandCtx) : Cmd D CmdStatus :=
  hashLoop ctx.argc 1 fun i => do
    let key ← arg ctx 1
    let field ← arg ctx i
    inRound i (.hashDel field) key

def cmdHdel (ctx : CommandCtx) : Cmd D CmdStatus := cmdHdelWith (fun _ => call) ctx

def cmdHlen (ctx : CommandCtx) : Cmd D CmdStatus := do
  match ← call .getHash (← arg ctx 1) with
  | .error .wrongType => answer (replyError errWrongtype)
  | .ok hash => answer (replyInteger hash.len)
  | .error _ => answer (replyInteger 0)

/-! ## Guarantees -/

section Serving
variable {ctx : CommandCtx} {e : Env D} {s₀ s : Sess D}

/-- A loop of writes to one key, each of which is a write under the type of hashes. -/
theorem hashLoop_wp (key : Bytes) {hi step : ℕ} {op : ℕ → Cmd D (Except StoreStatus Bool)} (hstep : 0 < step)
    (hstep2 : step ≤ 2) (h2 : 2 ≤ hi) (hargc : hi ≤ ctx.argc)
    (hop : ∀ i s, i < hi → s.store.Valid → ∃ o : StoreOp D (Except StoreStatus Bool), o.Writes .hash ∧
      wp (op i) e s fun r s' => Called e s o key r s')
    (h : Quiet e s₀ [] s) : wp (hashLoop hi step op) e s (Delivers e ctx s₀) := by
  unfold hashLoop
  rw [wp_bind]
  -- at most one field is counted in each round
  refine wp_forFrom (fun i n s' => Writing e .hash key s₀ s' ∧ i ≤ hi + 2 ∧ ∃ m : ℕ, n = m ∧ m ≤ i)
    ⟨Or.inl h, by omega, 0, rfl, Nat.zero_le _⟩ (fun i n s' h hi => ?_) fun i n s' h _ => ?_
  · obtain ⟨hw', -, m, rfl, hm⟩ := h
    obtain ⟨o, hw, hcall⟩ := hop i s' hi (hw'.elim (·.valid) (·.1.valid))
    rw [wp_bind]
    refine wp_mono hcall fun r s'' hcall => ?_
    rcases hw'.called hw hcall with ⟨b, rfl, h'⟩ | ⟨rfl, h'⟩
    · refine ⟨by omega, h', by omega, ?_⟩
      cases b with
      | true => exact ⟨m + 1, rfl, by omega⟩
      | false => exact ⟨m, Int.add_zero _, by omega⟩
    · rw [wp_bind]
      exact h'.error _ (by decide)
  · obtain ⟨hw', hi, m, rfl, hm⟩ := h
    exact (hw'.elim Quiet.toRan And.left).integer fun hl => within_count (by have := hl.argc; omega)

theorem cmdHset_serving : Serving 4 (cmdHset (D := D)) := by
  intro ctx e s hc hn hv
  unfold cmdHset cmdHsetWith
  split
  · exact (Quiet.start hv).error _ (by decide)
  · refine hashLoop_wp (ctx.argv 1) (by decide) (by decide) (by omega) (by omega) (fun i s' hi hv' => ?_)
      (.start hv)
    refine ⟨.hashSet (ctx.argv i) (ctx.argv (i + 1)), hashSet_writes _ _, ?_⟩
    rw [wp_bind, wp_arg hc (by omega), wp_bind, wp_arg hc (by omega), wp_bind, wp_arg hc (by omega)]
    exact wp_call hv' fun _ _ h => h

theorem cmdHdel_serving : Serving 3 (cmdHdel (D := D)) := by
  intro ctx e s hc hn hv
  unfold cmdHdel cmdHdelWith
  refine hashLoop_wp (ctx.argv 1) (by decide) (by decide) (by omega) (Nat.le_refl _) (fun i s' hi hv' => ?_)
    (.start hv)
  refine ⟨.hashDel (ctx.argv i), hashDel_writes _, ?_⟩
  rw [wp_bind, wp_arg hc (by omega), wp_bind, wp_arg hc (by omega)]
  exact wp_call hv' fun _ _ h => h

theorem cmdHget_serving : Serving 3 (cmdHget (D := D)) := by
  intro ctx e s hc hn hv
  unfold cmdHget
  rw [wp_bind, wp_arg hc (by omega), wp_bind, wp_arg hc (by omega), wp_bind]
  refine wp_call hv fun r s' hcall => ?_
  have h := (Quiet.start (e := e) hv).called hcall (keeps_of_reads (fun _ _ => rfl) r)
  split
  · exact h.toRan.bulk fun hl => hcall.hashGet hv hl.store.cells
  · exact h.error _ (by decide)
  · exact h.toRan.null

theorem cmdHlen_serving : Serving 2 (cmdHlen (D := D)) := by
  intro ctx e s hc hn hv
  unfold cmdHlen
  rw [wp_bind, wp_arg hc (by omega), wp_bind]
  refine wp_call hv fun r s' hcall => ?_
  have h := (Quiet.start (e := e) hv).called hcall (keeps_of_reads (fun _ _ => rfl) r)
  split
  · exact h.error _ (by decide)
  · rename_i hash
    obtain ⟨hinv, hfits⟩ := hcall.getHash hv
    refine h.toRan.integer fun hl => within_count ?_
    have hlen := (hfits hl.store.cells).1
    rw [hinv.1.len]
    omega
  · exact h.toRan.integer fun _ => within_count (n := 0) (Nat.zero_le _)

theorem cmdHgetall_serving : Serving 2 (cmdHgetall (D := D)) := by
  intro ctx e s hc hn hv
  unfold cmdHgetall
  rw [wp_bind, wp_arg hc (by omega), wp_bind]
  refine wp_call hv fun r s' hcall => ?_
  have h := (Quiet.start (e := e) hv).called hcall (keeps_of_reads (fun _ _ => rfl) r)
  split
  · exact h.error _ (by decide)
  · exact h.toRan.emptyArray
  · rename_i hash
    -- the length field counts the fields of all chains
    obtain ⟨hinv, hfits⟩ := hcall.getHash hv
    have hlen : hash.len = hash.buckets.flatten.length := hinv.1.len
    have hb : (hash.buckets.flatMap fun chain => chain.flatMap replyHashField) =
        Reply.encs ((hash.buckets.flatten.flatMap fun f => [f.field, f.value]).map .bulk) := by
      rw [← replyBulkPairs_eq, ← List.flatMap_id, List.flatMap_assoc]
      rfl
    have hl := (h.listing ctx (hash.len * 2)).items (Reply.WFs_bulks _) hb fun hl =>
      pairs_within (hfits hl.store.cells).2
    rw [Nat.zero_add, List.length_map, length_pairs, ← hlen] at hl
    rw [wp_bind, wp_reply, wp_answer]
    refine hl.done fun hlim => ?_
    rw [hlen]
    exact (hfits hlim.store.cells).1

theorem cmdHmget_serving : Serving 3 (cmdHmget (D := D)) := by
  intro ctx e s hc hn hv
  unfold cmdHmget cmdHmgetWith
  rw [wp_bind, wp_arg hc (by omega), wp_bind]
  refine wp_mono (otherType_wp (.start hv)) fun other s₁ h₁ => ?_
  split
  · exact h₁.1.error _ (by decide)
  · refine replyEach_wp (by omega) h₁.1 fun i n k s' hl hi => ?_
    rw [wp_bind, wp_arg hc (by omega), wp_bind, wp_arg hc hi, wp_bind]
    obtain ⟨out, hq⟩ := hl.quiet
    refine wp_call hq.valid fun r s'' hcall => ?_
    have hl' := hl.called hcall (keeps_of_reads (fun _ _ => rfl) r)
    cases r with
    | ok value =>
      refine ⟨hl', .bulk value, trivial, replyBulkCstr_eq value, fun hlim => ?_⟩
      exact within_bulk (hcall.hashGet hq.valid (hq.cellsFit hlim.store.cells))
    | error st => exact ⟨hl', .nullBulk, trivial, replyNull_eq, fun _ => ⟨trivial, Nat.zero_le _⟩⟩

end Serving
end PulseDB
