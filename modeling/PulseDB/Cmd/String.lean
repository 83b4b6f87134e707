import PulseDB.Server.Answer
import PulseDB.Store.Refinement

/-!
# String and key commands (`cmd_string.c`)

The handlers, and that each of them keeps the guarantee of `Serving`.
-/

namespace PulseDB
open Lib Lib.Prog

variable {D : Type} [LinearOrder D]

/-! ## SET and GET -/

/-- The options of `SET` from argument 3 on; the loop state is `expires_at`. -/
def setOptions (ctx : CommandCtx) : Cmd D (CmdStatus ⊕ Int) :=
  forFrom 3 ctx.argc 0 fun i _ => do
    let opt ← arg ctx i
    let isEx := strcaseEq opt (ascii "EX")
    let isPx := strcaseEq opt (ascii "PX")
    if (isEx || isPx) && decide (i + 1 < ctx.argc) then do
      match parseInt64 (← arg ctx (i + 1)) with
      | none => return .inl (← answer (replyError errNotInt))
      | some n =>
        if n ≤ 0 ∨ (isEx ∧ n > int64Max / 1000 / 2) then do
          return .inl (← answer (replyError (ascii "ERR invalid expire time in 'set' command")))
        else do
          let now ← nowMs
          return .inr (i + 2, wrap64 (now + if isEx then n * 1000 else n))
    else do
      return .inl (← answer (replyError errSyntax))

def cmdSet (ctx : CommandCtx) : Cmd D CmdStatus := do
  match ← setOptions ctx with
  | .inl st => return st
  | .inr expiresAt => do
    let key ← arg ctx 1
    let value ← arg ctx 2
    call (.set value expiresAt) key
    answer (replySimple (ascii "OK"))

def cmdGet (ctx : CommandCtx) : Cmd D CmdStatus := do
  match ← call .get (← arg ctx 1) with
  | .ok value => answer (replyBulkCstr value)
  | .error .wrongType => answer (replyError errWrongtype)
  | .error _ => answer replyNull

/-! ## Counters -/

def incrCommon (ctx : CommandCtx) (delta : Int) : Cmd D CmdStatus := do
  match ← call (.incrby delta) (← arg ctx 1) with
  | .ok result => answer (replyInteger result)
  | .error .wrongType => answer (replyError errWrongtype)
  | .error .overflow => answer (replyError (ascii "ERR increment or decrement would overflow"))
  | .error _ => answer (replyError errNotInt)

def cmdIncr (ctx : CommandCtx) : Cmd D CmdStatus := incrCommon ctx 1

def cmdDecr (ctx : CommandCtx) : Cmd D CmdStatus := incrCommon ctx (-1)

def cmdIncrby (ctx : CommandCtx) : Cmd D CmdStatus := do
  match parseInt64 (← arg ctx 2) with
  | none => answer (replyError errNotInt)
  | some delta => incrCommon ctx delta

def cmdDecrby (ctx : CommandCtx) : Cmd D CmdStatus := do
  match parseInt64 (← arg ctx 2) with
  | none => answer (replyError errNotInt)
  | some delta => if delta = int64Min then answer (replyError errNotInt) else incrCommon ctx (-delta)

/-! ## Keys -/

/-- The loop of `cmd_del` and `cmd_exists`: how many of the keys the operation answers `1` for. -/
def countKeys (ctx : CommandCtx) (op : StoreOp D Bool) : Cmd D CmdStatus := do
  let r : Empty ⊕ Int ← forFrom 1 ctx.argc 0 fun i n => do
    let b ← call op (← arg ctx i)
    return .inr (i + 1, n + if b then 1 else 0)
  match r with
  | .inr n => answer (replyInteger n)

def cmdDel (ctx : CommandCtx) : Cmd D CmdStatus := countKeys ctx .del

def cmdExists (ctx : CommandCtx) : Cmd D CmdStatus := countKeys ctx .exists

/-- The table `names` of `cmd_type`. -/
def typeName : Option StoreType → Bytes
  | none => ascii "none"
  | some .string => ascii "string"
  | some .list => ascii "list"
  | some .hash => ascii "hash"
  | some .zset => ascii "zset"
  | some .stream => ascii "stream"

def cmdType (ctx : CommandCtx) : Cmd D CmdStatus := do
  let t ← call .type (← arg ctx 1)
  answer (replySimple (typeName t))

def ttlCommon (ctx : CommandCtx) (inMs : Bool) : Cmd D CmdStatus := do
  let expiry ← call .getExpiry (← arg ctx 1)
  if expiry < 0 then answer (replyInteger expiry)
  else do
    let now ← nowMs
    let remaining := wrap64 (expiry - now)
    let remaining := if remaining < 0 then 0 else remaining
    answer (replyInteger (if inMs then remaining else (wrap64 (remaining + 500)).tdiv 1000))

def cmdTtl (ctx : CommandCtx) : Cmd D CmdStatus := ttlCommon ctx false

def cmdPttl (ctx : CommandCtx) : Cmd D CmdStatus := ttlCommon ctx true

/-- The visitor's state: the bulk replies so far and their number. -/
structure KeysScan where
  found : Bytes := []
  count : ℕ := 0

def keysVisit (libc : Libc D) (pattern : Bytes) (scan : KeysScan) (e : StoreEntry D) : KeysScan :=
  if libc.fnmatch pattern e.key then ⟨scan.found ++ replyBulkCstr e.key, scan.count + 1⟩ else scan

def cmdKeys (ctx : CommandCtx) : Cmd D CmdStatus := do
  let pattern ← arg ctx 1
  let env ← Prog.env
  let found ← scan (keysVisit env.libc pattern) {}
  answer (replyArray found.count ++ found.found)

/-! ## Guarantees -/

section Serving

theorem setOptions_wp {ctx : CommandCtx} {e : Env D} {s : Sess D} (hc : ctx.req.Clean) (hv : s.store.Valid) :
    wp (setOptions ctx) e s fun r s' =>
      match r with
      | .inl st => Delivers e ctx s st s'
      | .inr _ => Quiet e s [] s' := by
  unfold setOptions
  refine wp_forFrom (fun _ _ s' => Quiet e s [] s') (Quiet.start hv) (fun i b s' h hi => ?_)
    fun i b s' h _ => h
  rw [wp_bind, wp_arg hc hi]
  simp only
  split
  · rename_i hopt
    have hnext : i + 1 < ctx.argc := by
      rw [Bool.and_eq_true, decide_eq_true_eq] at hopt
      exact hopt.2
    rw [wp_bind, wp_arg hc hnext]
    split
    · rw [wp_bind]
      exact h.error _ (by decide)
    · split
      · rw [wp_bind]
        exact h.error _ (by decide)
      · rw [wp_bind, wp_nowMs]
        exact ⟨by omega, h.later _ (Nat.le_succ _)⟩
  · rw [wp_bind]
    exact h.error _ (by decide)

theorem cmdSet_serving : Serving 3 (cmdSet (D := D)) := by
  intro ctx e s hc hn hv
  unfold cmdSet
  rw [wp_bind]
  refine wp_mono (setOptions_wp hc hv) fun r s' h => ?_
  rcases r with st | expiresAt
  · exact h
  · simp only at h ⊢
    rw [wp_bind, wp_arg hc (by omega), wp_bind, wp_arg hc (by omega), wp_bind]
    refine wp_call h.valid fun _ s'' hcall => ?_
    exact (h.toRan.called hcall).simple (by decide) (by decide)

theorem cmdGet_serving : Serving 2 (cmdGet (D := D)) := by
  intro ctx e s hc hn hv
  have h := Quiet.start (e := e) hv
  unfold cmdGet
  rw [wp_bind, wp_arg hc (by omega), wp_bind]
  refine wp_call hv fun r s' hcall => ?_
  have h' := h.called hcall (keeps_of_reads (fun _ _ => rfl) r)
  split
  · exact h'.toRan.bulk fun hl => hcall.get hv hl.store.cells
  · exact h'.error _ (by decide)
  · exact h'.toRan.null

theorem incrCommon_wp {ctx : CommandCtx} {e : Env D} {s₀ s : Sess D} (hc : ctx.req.Clean) (hn : 2 ≤ ctx.argc)
    (h : Quiet e s₀ [] s) (delta : Int) : wp (incrCommon ctx delta) e s (Delivers e ctx s₀) := by
  unfold incrCommon
  rw [wp_bind, wp_arg hc (by omega), wp_bind]
  refine wp_call h.valid fun r s' hcall => ?_
  cases r with
  | ok result => exact (h.toRan.called hcall).integer fun _ => ⟨incrby_range hcall.result.symm, Nat.le_refl _⟩
  | error st =>
    have h' := h.called hcall fun _ _ hr => Cell.alter_error hr
    cases st <;> exact h'.error _ (by decide)

theorem cmdIncr_serving : Serving 2 (cmdIncr (D := D)) :=
  fun _ _ _ hc hn hv => incrCommon_wp hc hn (.start hv) 1

theorem cmdDecr_serving : Serving 2 (cmdDecr (D := D)) :=
  fun _ _ _ hc hn hv => incrCommon_wp hc hn (.start hv) (-1)

theorem cmdIncrby_serving : Serving 3 (cmdIncrby (D := D)) := by
  intro ctx e s hc hn hv
  unfold cmdIncrby
  rw [wp_bind, wp_arg hc (by omega)]
  split
  · exact (Quiet.start hv).error _ (by decide)
  · exact incrCommon_wp hc (by omega) (.start hv) _

theorem cmdDecrby_serving : Serving 3 (cmdDecrby (D := D)) := by
  intro ctx e s hc hn hv
  unfold cmdDecrby
  rw [wp_bind, wp_arg hc (by omega)]
  split
  · exact (Quiet.start hv).error _ (by decide)
  · split
    · exact (Quiet.start hv).error _ (by decide)
    · exact incrCommon_wp hc (by omega) (.start hv) _

theorem countKeys_serving (op : StoreOp D Bool) : Serving 1 fun ctx => countKeys ctx op := by
  intro ctx e s hc hn hv
  unfold countKeys
  rw [wp_bind]
  -- at most one key is counted in each round
  refine wp_forFrom (fun i n s' => Ran s [] s' ∧ i ≤ ctx.argc ∧ ∃ m : ℕ, n = m ∧ m ≤ i)
    ⟨(Quiet.start (e := e) hv).toRan, hn, 0, rfl, Nat.zero_le _⟩ (fun i n s' h hi => ?_) fun i n s' h _ => ?_
  · obtain ⟨hran, -, m, rfl, hm⟩ := h
    rw [wp_bind, wp_arg hc hi, wp_bind]
    refine wp_call hran.valid fun b s'' hcall => ⟨Nat.lt_succ_self i, hran.called hcall, hi, ?_⟩
    cases b with
    | true => exact ⟨m + 1, rfl, by omega⟩
    | false => exact ⟨m, Int.add_zero _, by omega⟩
  · obtain ⟨hran, hi, m, rfl, hm⟩ := h
    exact hran.integer fun hl => within_count (by have := hl.argc; omega)

theorem typeName_line (t : Option StoreType) : Reply.Line (typeName t) := by
  cases t with
  | none => decide
  | some t => cases t <;> decide

theorem typeName_length (t : Option StoreType) : (typeName t).length ≤ respMaxInlineLen := by
  cases t with
  | none => decide
  | some t => cases t <;> decide

theorem cmdType_serving : Serving 2 (cmdType (D := D)) := by
  intro ctx e s hc hn hv
  unfold cmdType
  rw [wp_bind, wp_arg hc (by omega), wp_bind]
  refine wp_call hv fun t s' hcall => ?_
  exact ((Quiet.start (e := e) hv).toRan.called hcall).simple (typeName_line t) (typeName_length t)

/-- What is left of a time to live is a 64-bit number, in milliseconds and in seconds. -/
theorem ttl_range (left : Int) (inMs : Bool) :
    let remaining := if wrap64 left < 0 then 0 else wrap64 left
    int64Min ≤ (if inMs then remaining else (wrap64 (remaining + 500)).tdiv 1000) ∧
      (if inMs then remaining else (wrap64 (remaining + 500)).tdiv 1000) ≤ int64Max := by
  intro remaining
  cases inMs with
  | true =>
    show int64Min ≤ (if wrap64 left < 0 then 0 else wrap64 left) ∧
      (if wrap64 left < 0 then 0 else wrap64 left) ≤ _
    split
    · decide
    · exact ⟨wrap64_ge left, wrap64_le left⟩
  | false =>
    show int64Min ≤ (wrap64 (remaining + 500)).tdiv 1000 ∧ (wrap64 (remaining + 500)).tdiv 1000 ≤ int64Max
    have hge := wrap64_ge (remaining + 500)
    have hle := wrap64_le (remaining + 500)
    have hdiv : ((wrap64 (remaining + 500)).tdiv 1000).natAbs = (wrap64 (remaining + 500)).natAbs / 1000 :=
      Int.natAbs_tdiv _ _
    unfold int64Min int64Max at *
    omega

theorem ttlCommon_serving (inMs : Bool) : Serving 2 fun ctx => ttlCommon (D := D) ctx inMs := by
  intro ctx e s hc hn hv
  unfold ttlCommon
  rw [wp_bind, wp_arg hc (by omega), wp_bind]
  refine wp_call hv fun expiry s' hcall => ?_
  have h := (Quiet.start (e := e) hv).called hcall (keeps_of_reads (fun _ _ => rfl) expiry)
  have hexpiry : Limited e ctx s → int64Min ≤ expiry ∧ expiry ≤ int64Max := by
    intro hl
    rw [hcall.result]
    exact getExpiry_range fun c hc' => (hl.store.cells _ c (live_eq_some.mp hc').1).2
  split
  · exact h.toRan.integer fun hl => ⟨hexpiry hl, Nat.le_refl _⟩
  · rw [wp_bind, wp_nowMs]
    exact (h.later _ (Nat.le_succ _)).toRan.integer fun _ => ⟨ttl_range _ inMs, Nat.le_refl _⟩

omit [LinearOrder D] in
/-- The visitor's state after some entries: the bulk replies of the matching keys. -/
theorem foldl_keysVisit (libc : Libc D) (pattern : Bytes) : ∀ (es : List (StoreEntry D)) (scan : KeysScan),
    es.foldl (keysVisit libc pattern) scan =
      let keys := (es.filter fun e => libc.fnmatch pattern e.key).map StoreEntry.key
      ⟨scan.found ++ Reply.encs (keys.map .bulk), scan.count + keys.length⟩
  | [], scan => by
    show scan = ⟨scan.found ++ [], scan.count⟩
    rw [List.append_nil]
  | e :: es, scan => by
    rw [List.foldl_cons, foldl_keysVisit libc pattern es, keysVisit, List.filter_cons]
    split
    · simp only [List.map_cons, List.length_cons, Reply.encs, replyBulkCstr_eq, List.append_assoc,
        KeysScan.mk.injEq, true_and]
      omega
    · rfl

theorem cmdKeys_serving : Serving 2 (cmdKeys (D := D)) := by
  intro ctx e s hc hn hv
  unfold cmdKeys
  rw [wp_bind, wp_arg hc (by omega), wp_bind, wp_env, wp_bind, wp_scan, storeScan_eq, foldl_keysVisit]
  simp only [List.nil_append, Nat.zero_add]
  generalize hkeys : ((s.store.visited (e.clock s.tick)).filter fun x => e.libc.fnmatch
    (ctx.argv 1) x.key).map StoreEntry.key = keys
  refine ((Quiet.start (e := e) hv).later _ (Nat.le_succ _)).toRan.array (Reply.WFs_bulks keys) ?_
    (fun hl => ?_) fun hl v hmem => ?_
  · rw [List.length_map]
  · rw [List.length_map, ← hkeys, List.length_map]
    have hcount := hl.store.count
    rw [hv.inv.count] at hcount
    exact ((List.length_filter_le _ _).trans (List.length_filter_le _ _)).trans hcount
  · obtain ⟨k, hk, rfl⟩ := List.mem_map.mp hmem
    rw [← hkeys] at hk
    obtain ⟨x, hx, rfl⟩ := List.mem_map.mp hk
    have hcell := (hv.inv.mem_visited (e.clock s.tick) x.key x.cell).mp
      ⟨x, (List.mem_filter.mp hx).1, rfl, rfl⟩
    exact (within_bulk (hl.store.cells _ _ (live_eq_some.mp hcell).1).1).mono (Nat.zero_le _)

end Serving
end PulseDB
