import PulseDB.Cmd.List

/-!
# Sorted set and geo commands (`cmd_zset.c`)

The handlers, and that each of them keeps the guarantee of `Serving`. `ZADD` and `GEOADD` validate every
argument and the type of the key before the first write, so that the writes cannot fail.
-/

namespace PulseDB
open Lib Lib.Prog

variable {D : Type} [LinearOrder D]

/-- The text a `snprintf` of a double leaves in a buffer of `size` bytes. -/
def snprintf (libc : Libc D) (size : ℕ) (format : String) (val : Double D) : Bytes :=
  (libc.printf format val).take (size - 1)

/-- The encoder `reply_double`: the shortest of two representations that reads back as the number. -/
def replyDouble (libc : Libc D) (val : D) : Bytes :=
  let buf := snprintf libc 64 "%.15g" (some val)
  replyBulkCstr (if (libc.strtod buf).value ≠ some val then snprintf libc 64 "%.17g" (some val) else buf)

/-- The test `t != STORE_TYPE_NONE && t != STORE_TYPE_ZSET` on the type of a key. -/
def notZset (key : Bytes) : Cmd D Bool := do
  let t ← call .type key
  return decide (t ≠ none ∧ t ≠ some .zset)

/-- The second loop of `cmd_zadd` and `cmd_geoadd`: add the pairs that stand at argument 2 and every `step`
further, counting the new members. `a` is set only by a call that succeeds. -/
def zsetAddLoopWith (later : StoreCall D) (ctx : CommandCtx) (hi step : ℕ) (pair : ℕ → Cmd D (D × Bytes)) :
    Cmd D CmdStatus := do
  let r : Empty ⊕ Int ← forFrom 2 hi 0 fun i added => do
    let (score, member) ← pair i
    match ← later (.zsetAdd score member) (← arg ctx 1) with
    | .ok a => return .inr (i + step, added + if a then 1 else 0)
    | .error _ => Prog.fault .unset
  match r with
  | .inr added => answer (replyInteger added)

def zsetAddLoop (ctx : CommandCtx) (hi step : ℕ) (pair : ℕ → Cmd D (D × Bytes)) : Cmd D CmdStatus :=
  zsetAddLoopWith call ctx hi step pair

/-! ## Sorted sets -/

/-- The first loop of `cmd_zadd`. -/
def zaddCheck (ctx : CommandCtx) : Cmd D (CmdStatus ⊕ Unit) := do
  let env ← Prog.env
  forFrom 2 ctx.argc () fun i _ => do
    match parseDouble env.libc (← arg ctx i) with
    | none => return .inl (← answer (replyError errNotFloat))
    | some _ => return .inr (i + 2, ())

def cmdZaddWith (later : StoreCall D) (ctx : CommandCtx) : Cmd D CmdStatus := do
  if ctx.argc % 2 ≠ 0 then answer (replyError (ascii "ERR wrong number of arguments for 'zadd' command"))
  else do
    match ← zaddCheck ctx with
    | .inl st => return st
    | .inr () =>
      if ← notZset (← arg ctx 1) then answer (replyError errWrongtype)
      else do
        let env ← Prog.env
        zsetAddLoopWith later ctx (ctx.argc - 1) 2 fun i => do
          match parseDouble env.libc (← arg ctx i) with
          | none => Prog.fault .unset
          | some score => return (score, ← arg ctx (i + 1))

def cmdZadd (ctx : CommandCtx) : Cmd D CmdStatus := cmdZaddWith call ctx

/-- The slot `zset->entries[i]`. -/
def zsetEntry (zset : ZSet D) (i : ℕ) : Cmd D (ZSetEntry D) :=
  match zset.entries[i]? with
  | none => Prog.fault .index
  | some e => pure e

/-- Write the members from `lo` to before `hi`, each followed by its score if asked for. -/
def replyEntries (zset : ZSet D) (lo hi : ℕ) (withscores : Bool) : Cmd D CmdStatus := do
  let env ← Prog.env
  let _ : Empty ⊕ Unit ← forFrom lo hi () fun i _ => do
    let e ← zsetEntry zset i
    reply (replyBulkCstr e.member ++ if withscores then replyDouble env.libc e.score else [])
    return .inr (i + 1, ())
  return .done

/-- The rest of `cmd_zrange` once the options are known. -/
def zrangeFrom (ctx : CommandCtx) (withscores : Bool) : Cmd D CmdStatus := do
  match parseInt64 (← arg ctx 2) with
  | none => answer (replyError errNotInt)
  | some start =>
    match parseInt64 (← arg ctx 3) with
    | none => answer (replyError errNotInt)
    | some stop =>
      match ← call .getZset (← arg ctx 1) with
      | .error .wrongType => answer (replyError errWrongtype)
      | .error _ => answer (replyArray 0)
      | .ok zset =>
        match normaliseRange start stop zset.len with
        | none => answer (replyArray 0)
        | some (first, last) => do
          let count := last - first + 1
          reply (replyArray (if withscores then count * 2 else count))
          replyEntries zset first (last + 1) withscores

def cmdZrange (ctx : CommandCtx) : Cmd D CmdStatus := do
  if ctx.argc = 5 then
    if strcaseEq (← arg ctx 4) (ascii "WITHSCORES") then zrangeFrom ctx true
    else answer (replyError errSyntax)
  else if ctx.argc ≠ 4 then answer (replyError errSyntax)
  else zrangeFrom ctx false

/-- The loop `while (i < zset->len && test(zset->entries[i].score)) i++`. -/
def skipScores (zset : ZSet D) (lo : ℕ) (test : D → Bool) : Cmd D ℕ := do
  let r ← forFrom lo zset.len lo fun i _ => do
    let e ← zsetEntry zset i
    if test e.score then return .inr (i + 1, i + 1) else return .inl i
  match r with
  | .inl i => return i
  | .inr i => return i

def cmdZrangebyscore (ctx : CommandCtx) : Cmd D CmdStatus := do
  let env ← Prog.env
  let err := ascii "ERR min or max is not a float"
  match parseDouble env.libc (← arg ctx 2) with
  | none => answer (replyError err)
  | some min =>
    match parseDouble env.libc (← arg ctx 3) with
    | none => answer (replyError err)
    | some max =>
      match ← call .getZset (← arg ctx 1) with
      | .error .wrongType => answer (replyError errWrongtype)
      | .error _ => answer (replyArray 0)
      | .ok zset => do
        let first ← skipScores zset 0 fun score => decide (score < min)
        let stop ← skipScores zset first fun score => decide (score ≤ max)
        reply (replyArray (stop - first))
        replyEntries zset first stop false

def cmdZrank (ctx : CommandCtx) : Cmd D CmdStatus := do
  let member ← arg ctx 2
  match ← call (.zsetRank member) (← arg ctx 1) with
  | .ok rank => answer (replyInteger rank)
  | .error .wrongType => answer (replyError errWrongtype)
  | .error _ => answer replyNull

def cmdZcard (ctx : CommandCtx) : Cmd D CmdStatus := do
  match ← call .getZset (← arg ctx 1) with
  | .error .wrongType => answer (replyError errWrongtype)
  | .ok zset => answer (replyInteger zset.len)
  | .error _ => answer (replyInteger 0)

def cmdZscore (ctx : CommandCtx) : Cmd D CmdStatus := do
  let env ← Prog.env
  let member ← arg ctx 2
  match ← call (.zsetScore member) (← arg ctx 1) with
  | .ok score => answer (replyDouble env.libc score)
  | .error .wrongType => answer (replyError errWrongtype)
  | .error _ => answer replyNull

/-! ## Coordinates -/

/-- The first loop of `cmd_geoadd`. -/
def geoaddCheck (ctx : CommandCtx) : Cmd D (CmdStatus ⊕ Unit) := do
  let env ← Prog.env
  forFrom 2 ctx.argc () fun i _ => do
    match parseDouble env.libc (← arg ctx i) with
    | none => return .inl (← answer (replyError errNotFloat))
    | some lng =>
      match parseDouble env.libc (← arg ctx (i + 1)) with
      | none => return .inl (← answer (replyError errNotFloat))
      | some lat =>
        if geoValid env.libc lat lng then return .inr (i + 3, ())
        else return .inl (← answer (replyErrorf (ascii "ERR invalid longitude,latitude pair " ++
          env.libc.printf "%f" (some lng) ++ ascii "," ++ env.libc.printf "%f" (some lat))))

def cmdGeoaddWith (later : StoreCall D) (ctx : CommandCtx) : Cmd D CmdStatus := do
  if (ctx.argc - 2) % 3 ≠ 0 then
    answer (replyError (ascii "ERR wrong number of arguments for 'geoadd' command"))
  else do
    match ← geoaddCheck ctx with
    | .inl st => return st
    | .inr () =>
      if ← notZset (← arg ctx 1) then answer (replyError errWrongtype)
      else do
        let env ← Prog.env
        zsetAddLoopWith later ctx ctx.argc 3 fun i => do
          let lng := (env.libc.strtod (← arg ctx i)).value
          let lat := (env.libc.strtod (← arg ctx (i + 1))).value
          return (env.libc.ofUInt64 (geoEncode env.libc lat lng), ← arg ctx (i + 2))

def cmdGeoadd (ctx : CommandCtx) : Cmd D CmdStatus := cmdGeoaddWith call ctx

/-- The units of `cmd_geodist`. -/
def geoUnit (libc : Libc D) (unit : Bytes) : Option (Double D) :=
  if strcaseEq unit (ascii "m") then some (some (libc.lit "1.0"))
  else if strcaseEq unit (ascii "km") then some (libc.div (some (libc.lit "1.0")) (some (libc.lit "1000.0")))
  else if strcaseEq unit (ascii "mi") then
    some (libc.div (some (libc.lit "1.0")) (some (libc.lit "1609.344")))
  else if strcaseEq unit (ascii "ft") then some (some (libc.lit "3.28084"))
  else none

/-- The rest of `cmd_geodist` once the unit is known. -/
def geodistIn (ctx : CommandCtx) (factor : Double D) : Cmd D CmdStatus := do
  let env ← Prog.env
  let member ← arg ctx 2
  let st1 ← call (.zsetScore member) (← arg ctx 1)
  if st1 = .error .wrongType then answer (replyError errWrongtype)
  else do
    let member ← arg ctx 3
    let st2 ← call (.zsetScore member) (← arg ctx 1)
    match st1, st2 with
    | .ok s1, .ok s2 =>
      let (lat1, lng1) := geoDecode env.libc (env.libc.toUInt64 (some s1))
      let (lat2, lng2) := geoDecode env.libc (env.libc.toUInt64 (some s2))
      let distance := env.libc.mul (geoDistanceM env.libc lat1 lng1 lat2 lng2) factor
      answer (replyBulkCstr (snprintf env.libc 64 "%.4f" distance))
    | _, _ => answer replyNull

def cmdGeodist (ctx : CommandCtx) : Cmd D CmdStatus := do
  let env ← Prog.env
  if ctx.argc = 5 then
    match geoUnit env.libc (← arg ctx 4) with
    | none => answer (replyError (ascii "ERR unsupported unit provided. please use M, KM, FT, MI"))
    | some factor => geodistIn ctx factor
  else if ctx.argc ≠ 4 then answer (replyError errSyntax)
  else geodistIn ctx (some (env.libc.lit "1.0"))

/-- What `cmd_geopos` writes for one member. -/
def replyPosition (libc : Libc D) : Except StoreStatus D → Bytes
  | .error _ => replyNullArray
  | .ok score =>
    let (lat, lng) := geoDecode libc (libc.toUInt64 (some score))
    replyArray 2 ++ replyBulkCstr (snprintf libc 32 "%.17g" lng) ++ replyBulkCstr
      (snprintf libc 32 "%.17g" lat)

def cmdGeoposWith (later : StoreCall D) (ctx : CommandCtx) : Cmd D CmdStatus := do
  let env ← Prog.env
  if ← notZset (← arg ctx 1) then answer (replyError errWrongtype)
  else replyEach ctx fun i => do
    let member ← arg ctx i
    let score ← later (.zsetScore member) (← arg ctx 1)
    return replyPosition env.libc score

def cmdGeopos (ctx : CommandCtx) : Cmd D CmdStatus := cmdGeoposWith call ctx

/-! ## Guarantees -/

section Serving
variable {ctx : CommandCtx} {e : Env D} {s₀ s : Sess D}

omit [LinearOrder D] in
theorem snprintf_length (libc : Libc D) {size : ℕ} (hsize : size ≤ 64) (format : String) (val : Double D) :
    (snprintf libc size format val).length ≤ respMaxBulkLen := by
  have hle := List.length_take_le (size - 1) (libc.printf format val)
  have hbuf : 64 ≤ respMaxBulkLen := by decide
  unfold snprintf
  omega

/-- The text of a double in a reply. -/
def doubleText (libc : Libc D) (val : D) : Bytes :=
  let buf := snprintf libc 64 "%.15g" (some val)
  if (libc.strtod buf).value ≠ some val then snprintf libc 64 "%.17g" (some val) else buf

theorem replyDouble_eq (libc : Libc D) (val : D) :
    replyDouble libc val = (Reply.bulk (doubleText libc val)).enc :=
  replyBulkCstr_eq (doubleText libc val)

theorem doubleText_length (libc : Libc D) (val : D) : (doubleText libc val).length ≤ respMaxBulkLen := by
  unfold doubleText
  simp only
  split
  · exact snprintf_length libc (Nat.le_refl _) _ _
  · exact snprintf_length libc (Nat.le_refl _) _ _

/-- The values of an entry in a reply: its member and, if asked for, its score. -/
def ZSetEntry.values (libc : Libc D) (withscores : Bool) (entry : ZSetEntry D) : List Reply :=
  .bulk entry.member :: if withscores then [.bulk (doubleText libc entry.score)] else []

theorem notZset_wp {key : Bytes} {out : Bytes} (h : Quiet e s₀ out s) :
    wp (notZset key) e s fun r s' => Quiet e s₀ out s' ∧ (r = false → OfType .zset (s'.store.cells key)) := by
  unfold notZset
  rw [wp_bind]
  refine wp_call h.valid fun t s' hcall => ⟨h.called hcall (keeps_of_reads (fun _ _ => rfl) t), fun hr => ?_⟩
  rw [decide_eq_false_iff_not, not_and_or, not_not, not_not] at hr
  exact hcall.ofType hr

/-- With the type checked and the pairs validated, every write succeeds. -/
theorem zsetAddLoop_wp {hi step : ℕ} {pair : ℕ → Cmd D (D × Bytes)} (hc : ctx.req.Clean) (hn : 2 ≤ hi)
    (hargc : hi ≤ ctx.argc) (hstep : 0 < step) (hstep3 : step ≤ 3) (I : ℕ → Prop) (hI : I 2)
      (hnext : ∀ i, I i → I (i + step))
    (hpair : ∀ i s, I i → i < hi → wp (pair i) e s fun _ s' => s' = s)
    (h : Ran s₀ [] s) (hty : OfType .zset (s.store.cells (ctx.argv 1))) :
    wp (zsetAddLoop ctx hi step pair) e s (Delivers e ctx s₀) := by
  unfold zsetAddLoop zsetAddLoopWith
  rw [wp_bind]
  -- at most one member is counted in each round
  refine wp_forFrom (fun i n s' => (I i ∧ Ran s₀ [] s' ∧ OfType .zset (s'.store.cells (ctx.argv 1))) ∧
    i ≤ hi + 3 ∧
    ∃ m : ℕ, n = m ∧ m ≤ i) ⟨⟨hI, h, hty⟩, by omega, 0, rfl, Nat.zero_le _⟩ (fun i n s' h hi => ?_)
      fun i n s' h _ => ?_
  · obtain ⟨⟨hi', hran, hty⟩, -, m, rfl, hm⟩ := h
    rw [wp_bind]
    refine wp_mono (hpair i s' hi' hi) fun p s'' hs => ?_
    subst hs
    rw [wp_bind, wp_arg hc (by omega), wp_bind]
    refine wp_call hran.valid fun r s'' hcall => ?_
    obtain ⟨a, rfl, hran', hty'⟩ := hran.wrote hty (zsetAdd_writes p.1 p.2) hcall
    refine ⟨by omega, ⟨hnext i hi', hran', hty'⟩, by omega, ?_⟩
    cases a with
    | true => exact ⟨m + 1, rfl, by omega⟩
    | false => exact ⟨m, Int.add_zero _, by omega⟩
  · obtain ⟨⟨-, hran, -⟩, hi, m, rfl, hm⟩ := h
    exact hran.integer fun hl => within_count (by have := hl.argc; unfold respMaxArrayLen at *; omega)

theorem zaddCheck_wp {Q : CmdStatus → Sess D → Prop} (hc : ctx.req.Clean) (h : Quiet e s₀ [] s)
    (herror : ∀ s' msg, msg.length ≤ respMaxInlineLen → Quiet e s₀ [] s' →
      wp (answer (replyError msg)) e s' Q) :
    wp (zaddCheck ctx) e s fun r s' =>
      match r with
      | .inl st => Q st s'
      | .inr _ => Quiet e s₀ [] s' ∧ ∀ j, 2 + 2 * j < ctx.argc →
        (parseDouble e.libc (ctx.argv (2 + 2 * j))).isSome := by
  unfold zaddCheck
  rw [wp_bind, wp_env]
  refine wp_forFrom (fun i _ s' => Quiet e s₀ [] s' ∧ ∃ k, i = 2 + 2 * k ∧
    ∀ j < k, (parseDouble e.libc (ctx.argv (2 + 2 * j))).isSome)
      ⟨h, 0, rfl, fun j hj => absurd hj (Nat.not_lt_zero j)⟩
    (fun i _ s' h hi => ?_) fun i _ s' h hi => ?_
  · obtain ⟨hq, k, rfl, hall⟩ := h
    rw [wp_bind, wp_arg hc hi]
    split
    · rw [wp_bind]
      exact herror s' _ (ascii_length_le _ (by decide)) hq
    · rename_i score hscore
      refine ⟨by omega, hq, k + 1, by ring, fun j hj => ?_⟩
      rcases Nat.lt_succ_iff_lt_or_eq.mp hj with hj | rfl
      · exact hall j hj
      · rw [hscore]
        rfl
  · obtain ⟨hq, k, rfl, hall⟩ := h
    exact ⟨hq, fun j hj => hall j (by omega)⟩

/-- The command `ZADD`: an error before anything has been stored, or the writes, all of them of numbers. -/
theorem cmdZadd_wp {Q : CmdStatus → Sess D → Prop} (hc : ctx.req.Clean) (hn : 4 ≤ ctx.argc)
    (hv : s.store.Valid)
    (herror : ∀ s' msg, msg.length ≤ respMaxInlineLen → Quiet e s [] s' → wp (answer (replyError msg)) e s' Q)
    (hloop : ∀ s', ctx.argc % 2 = 0 → Quiet e s [] s' → OfType .zset (s'.store.cells (ctx.argv 1)) →
      ∀ pair : ℕ → Cmd D (D × Bytes), (∀ j, 2 + 2 * j < ctx.argc - 1 → ∃ score,
        parseDouble e.libc (ctx.argv (2 + 2 * j)) = some score ∧
          ∀ s'' R, R (score, ctx.argv (2 + 2 * j + 1)) s'' → wp (pair (2 + 2 * j)) e s'' R) →
        wp (zsetAddLoop ctx (ctx.argc - 1) 2 pair) e s' Q) :
    wp (cmdZadd ctx) e s Q := by
  unfold cmdZadd cmdZaddWith
  split
  · exact herror s _ (ascii_length_le _ (by decide)) (.start hv)
  · rename_i heven
    rw [wp_bind]
    refine wp_mono (zaddCheck_wp hc (.start hv) herror) fun r s₁ h₁ => ?_
    rcases r with st | ⟨⟩
    · exact h₁
    · obtain ⟨hq₁, hscores⟩ := h₁
      simp only
      rw [wp_bind, wp_arg hc (by omega), wp_bind]
      refine wp_mono (notZset_wp hq₁) fun other s₂ h₂ => ?_
      split
      · exact herror s₂ _ (ascii_length_le _ (by decide)) h₂.1
      · rename_i hother
        rw [wp_bind, wp_env]
        refine hloop s₂ (not_not.mp heven) h₂.1 (h₂.2 (Bool.not_eq_true _ ▸ hother)) _ fun j hj => ?_
        obtain ⟨score, hscore⟩ := Option.isSome_iff_exists.mp (hscores j (by omega))
        refine ⟨score, hscore, fun s' R hR => ?_⟩
        rw [wp_bind, wp_arg hc (by omega), hscore]
        simp only
        rw [wp_bind, wp_arg hc (by omega)]
        exact hR

theorem cmdZadd_serving : Serving 4 (cmdZadd (D := D)) := by
  intro ctx e s hc hn hv
  refine cmdZadd_wp hc hn hv (fun s' msg hlen hq => hq.shortError hlen) fun s' heven hq hty pair hpair => ?_
  refine zsetAddLoop_wp hc (by omega) (by omega) (by decide) (by decide)
    (fun i => ∃ k, i = 2 + 2 * k) ⟨0, rfl⟩
    (fun i ⟨k, hk⟩ => ⟨k + 1, by omega⟩) (fun i s'' ⟨k, hk⟩ hi => ?_) hq.toRan hty
  obtain ⟨score, -, hwp⟩ := hpair k (by omega)
  rw [hk]
  exact hwp s'' _ rfl

omit [LinearOrder D] in
theorem wp_zsetEntry {z : ZSet D} {i : ℕ} {Q : ZSetEntry D → Sess D → Prop} (hi : i < z.entries.length) :
    wp (zsetEntry z i) e s Q ↔ Q z.entries[i] s := by
  unfold zsetEntry
  rw [List.getElem?_eq_getElem hi]
  exact wp_pure _

theorem ZSetEntry.values_eq (libc : Libc D) (withscores : Bool) (entry : ZSetEntry D) :
    replyBulkCstr entry.member ++ (if withscores then replyDouble libc entry.score else []) =
      Reply.encs (entry.values libc withscores) := by
  rw [ZSetEntry.values, Reply.encs, replyBulkCstr_eq]
  cases withscores with
  | false => rfl
  | true => rw [if_pos rfl, if_pos rfl, replyDouble_eq, Reply.encs, Reply.encs, List.append_nil]

theorem ZSetEntry.values_wf (libc : Libc D) (withscores : Bool) :
    ∀ entries : List (ZSetEntry D), Reply.WFs (entries.flatMap (ZSetEntry.values libc withscores))
  | [] => trivial
  | entry :: entries => by
    rw [List.flatMap_cons, Reply.WFs_append]
    refine ⟨?_, ZSetEntry.values_wf libc withscores entries⟩
    cases withscores with
    | false => exact Reply.WFs_bulks [entry.member]
    | true => exact Reply.WFs_bulks [entry.member, doubleText libc entry.score]

theorem ZSetEntry.values_length (libc : Libc D) (withscores : Bool) : ∀ entries : List (ZSetEntry D),
    (entries.flatMap (ZSetEntry.values libc withscores)).length =
      if withscores then entries.length * 2 else entries.length
  | [] => by
    rw [List.flatMap_nil, List.length_nil, List.length_nil]
    exact (ite_self 0).symm
  | entry :: entries => by
    rw [List.flatMap_cons, List.length_append, ZSetEntry.values_length libc withscores entries,
      List.length_cons]
    cases withscores with
    | false => exact Nat.add_comm 1 _
    | true =>
      show 2 + entries.length * 2 = (entries.length + 1) * 2
      omega

theorem ZSetEntry.values_within (libc : Libc D) {withscores : Bool} {entries : List (ZSetEntry D)} {d : ℕ}
    (h : ∀ entry ∈ entries, entry.member.length ≤ respMaxBulkLen) :
    ∀ v ∈ entries.flatMap (ZSetEntry.values libc withscores), v.Within d := by
  intro v hv
  obtain ⟨entry, hentry, hv⟩ := List.mem_flatMap.mp hv
  rcases List.mem_cons.mp hv with rfl | hv
  · exact within_bulk (h entry hentry)
  · cases withscores with
    | false => exact absurd hv List.not_mem_nil
    | true =>
      rw [if_pos rfl, List.mem_singleton] at hv
      rw [hv]
      exact within_bulk (doubleText_length libc entry.score)

theorem replyEntries_wp {z : ZSet D} {lo hi : ℕ} (withscores : Bool) (hlo : lo ≤ hi)
    (hhi : hi ≤ z.entries.length) :
    wp (replyEntries z lo hi withscores) e s fun st s' => st = .done ∧
      s' = s.wrote (Reply.encs (((z.entries.drop lo).take (hi - lo)).flatMap
        (ZSetEntry.values e.libc withscores))) := by
  unfold replyEntries
  rw [wp_bind, wp_env, wp_bind]
  refine wp_forFrom (fun i _ s' => lo ≤ i ∧ i ≤ hi ∧
    s' = s.wrote (Reply.encs (((z.entries.drop lo).take (i - lo)).flatMap
      (ZSetEntry.values e.libc withscores))))
    ⟨Nat.le_refl _, hlo, ?_⟩ (fun i _ s' h hi' => ?_) fun i _ s' h hi' => ?_
  · rw [Nat.sub_self, List.take_zero, List.flatMap_nil]
    exact s.wrote_nil.symm
  · obtain ⟨h1, h2, rfl⟩ := h
    have hi'' : i < z.entries.length := by omega
    have hlast : ((z.entries.drop lo).take (i + 1 - lo)) = (z.entries.drop lo).take (i - lo) ++
        [z.entries[i]] := by
      have hat : (z.entries.drop lo)[i - lo]? = some z.entries[i] := by
        rw [List.getElem?_drop, Nat.add_sub_cancel' h1, List.getElem?_eq_getElem hi'']
      rw [Nat.sub_add_comm h1, List.take_add_one, hat]
      rfl
    rw [wp_bind, wp_zsetEntry hi'', wp_bind, wp_reply]
    refine ⟨Nat.lt_succ_self i, by omega, hi', ?_⟩
    rw [hlast, List.flatMap_append, List.flatMap_singleton, Reply.encs_append, ← ZSetEntry.values_eq]
    exact s.wrote_append _ _
  · obtain ⟨h1, h2, rfl⟩ := h
    obtain rfl : i = hi := Nat.le_antisymm h2 hi'
    exact ⟨rfl, rfl⟩

theorem Quiet.entries {z : ZSet D} {lo hi n : ℕ} {withscores : Bool} (h : Quiet e s₀ [] s) (hlo : lo ≤ hi)
    (hhi : hi ≤ z.entries.length) (hfits : Limited e ctx s₀ → (Value.zset z).Fits)
    (hn : n = if withscores then (hi - lo) * 2 else hi - lo) :
    wp (replyEntries z lo hi withscores) e (s.wrote (replyArray n)) (Delivers e ctx s₀) := by
  refine wp_mono (replyEntries_wp withscores hlo hhi) fun st s' ⟨hst, hs'⟩ => ?_
  subst hst hs'
  have hlen : ((z.entries.drop lo).take (hi - lo)).length = hi - lo := by
    rw [List.length_take, List.length_drop]
    omega
  have hcount := ZSetEntry.values_length e.libc withscores ((z.entries.drop lo).take (hi - lo))
  rw [hlen, ← hn] at hcount
  refine h.toRan.listed (ZSetEntry.values_wf e.libc withscores _) hcount (fun hl => ?_) fun hl => ?_
  · have hbound := (hfits hl).1
    rw [hn]
    split <;> omega
  · exact ZSetEntry.values_within e.libc fun entry hentry =>
      (hfits hl).2 entry (List.mem_of_mem_drop (List.mem_of_mem_take hentry))

theorem zrangeFrom_wp (hc : ctx.req.Clean) (hn : 4 ≤ ctx.argc) (hv : s.store.Valid) (withscores : Bool) :
    wp (zrangeFrom ctx withscores) e s (Delivers e ctx s) := by
  have h := Quiet.start (e := e) hv
  unfold zrangeFrom
  rw [wp_bind, wp_arg hc (by omega)]
  split
  · exact h.error _ (by decide)
  rw [wp_bind, wp_arg hc (by omega)]
  split
  · exact h.error _ (by decide)
  rw [wp_bind, wp_arg hc (by omega), wp_bind]
  refine wp_call hv fun r s₁ hcall => ?_
  have h₁ := h.called hcall (keeps_of_reads (fun _ _ => rfl) r)
  split
  · exact h₁.error _ (by decide)
  · exact h₁.toRan.emptyArray
  · rename_i zset
    obtain ⟨hinv, hfits⟩ := hcall.getZset hv
    have hlen : zset.len = zset.entries.length := hinv.1.len
    split
    · exact h₁.toRan.emptyArray
    · rename_i first last hrange
      obtain ⟨hle, hlt⟩ := normaliseRange_some hrange
      have hcount : last + 1 - first = last - first + 1 := by omega
      rw [wp_bind, wp_reply]
      refine h₁.entries (by omega) (by omega) (fun hl => hfits hl.store.cells) ?_
      rw [hcount]

theorem cmdZrange_serving : Serving 4 (cmdZrange (D := D)) := by
  intro ctx e s hc hn hv
  unfold cmdZrange
  split
  · rw [wp_bind, wp_arg hc (by omega)]
    split
    · exact zrangeFrom_wp hc hn hv true
    · exact (Quiet.start hv).error _ (by decide)
  · split
    · exact (Quiet.start hv).error _ (by decide)
    · exact zrangeFrom_wp hc hn hv false

omit [LinearOrder D] in
/-- The loop stays within the array, and stops at the first entry that fails the test. -/
theorem skipScores_wp {z : ZSet D} {lo : ℕ} (test : D → Bool) (hlen : z.len = z.entries.length)
    (hlo : lo ≤ z.len) :
    wp (skipScores z lo test) e s fun i s' => s' = s ∧ lo ≤ i ∧ i ≤ z.len ∧
      (z.entries.drop lo).takeWhile (fun entry => test entry.score) = (z.entries.drop lo).take (i - lo) := by
  -- what is left to be tested decides where the loop stops
  let left (i : ℕ) : List (ZSetEntry D) := (z.entries.drop i).takeWhile fun entry => test entry.score
  have hstop : ∀ i, lo ≤ i → left lo = (z.entries.drop lo).take (i - lo) ++ left i → left i = [] →
      left lo = (z.entries.drop lo).take (i - lo) := by
    intro i _ hleft hnil
    rw [hleft, hnil, List.append_nil]
  unfold skipScores
  rw [wp_bind]
  refine wp_forFrom (fun i b s' => s' = s ∧ b = i ∧ lo ≤ i ∧ i ≤ z.len ∧
      left lo = (z.entries.drop lo).take (i - lo) ++ left i)
    ⟨rfl, rfl, Nat.le_refl _, hlo, by rw [Nat.sub_self]; rfl⟩ (fun i b s' h hi => ?_) fun i b s' h hi => ?_
  · obtain ⟨rfl, rfl, h1, h2, hleft⟩ := h
    have hi' : b < z.entries.length := by omega
    have hcons : left b = if test z.entries[b].score then z.entries[b] :: left (b + 1) else [] := by
      show (z.entries.drop b).takeWhile _ = _
      rw [List.drop_eq_getElem_cons hi', List.takeWhile_cons]
    rw [wp_bind, wp_zsetEntry hi']
    split
    · rename_i htest
      have hat : (z.entries.drop lo)[b - lo]? = some z.entries[b] := by
        rw [List.getElem?_drop, Nat.add_sub_cancel' h1, List.getElem?_eq_getElem hi']
      refine ⟨Nat.lt_succ_self _, rfl, rfl, by omega, hi, ?_⟩
      rw [hleft, hcons, if_pos htest, Nat.sub_add_comm h1, List.take_add_one, hat, List.append_assoc]
      rfl
    · rename_i htest
      refine ⟨rfl, h1, h2, hstop b h1 hleft ?_⟩
      rw [hcons, if_neg htest]
  · obtain ⟨rfl, rfl, h1, h2, hleft⟩ := h
    refine ⟨rfl, h1, h2, hstop b h1 hleft ?_⟩
    show (z.entries.drop b).takeWhile _ = []
    rw [List.drop_of_length_le (by omega), List.takeWhile_nil]

theorem cmdZrangebyscore_serving : Serving 4 (cmdZrangebyscore (D := D)) := by
  intro ctx e s hc hn hv
  have h := Quiet.start (e := e) hv
  unfold cmdZrangebyscore
  rw [wp_bind, wp_env]
  simp only
  rw [wp_bind, wp_arg hc (by omega)]
  split
  · exact h.error _ (by decide)
  rw [wp_bind, wp_arg hc (by omega)]
  split
  · exact h.error _ (by decide)
  rw [wp_bind, wp_arg hc (by omega), wp_bind]
  refine wp_call hv fun r s₁ hcall => ?_
  have h₁ := h.called hcall (keeps_of_reads (fun _ _ => rfl) r)
  split
  · exact h₁.error _ (by decide)
  · exact h₁.toRan.emptyArray
  · rename_i zset
    obtain ⟨hinv, hfits⟩ := hcall.getZset hv
    have hlen : zset.len = zset.entries.length := hinv.1.len
    rw [wp_bind]
    refine wp_mono (skipScores_wp _ hlen (Nat.zero_le _)) fun first s₂ ⟨hs₂, _, hfirst, _⟩ => ?_
    subst hs₂
    rw [wp_bind]
    refine wp_mono (skipScores_wp _ hlen hfirst) fun stop s₃ ⟨hs₃, hle, hstop, _⟩ => ?_
    subst hs₃
    rw [wp_bind, wp_reply]
    exact h₁.entries hle (by omega) (fun hl => hfits hl.store.cells) rfl

theorem cmdZrank_serving : Serving 3 (cmdZrank (D := D)) := by
  intro ctx e s hc hn hv
  unfold cmdZrank
  rw [wp_bind, wp_arg hc (by omega), wp_bind, wp_arg hc (by omega), wp_bind]
  refine wp_call hv fun r s' hcall => ?_
  have h := (Quiet.start (e := e) hv).called hcall (keeps_of_reads (fun _ _ => rfl) r)
  split
  · exact h.toRan.integer fun hl => within_count (by have := hcall.zsetRank hv hl.store.cells; omega)
  · exact h.error _ (by decide)
  · exact h.toRan.null

theorem cmdZcard_serving : Serving 2 (cmdZcard (D := D)) := by
  intro ctx e s hc hn hv
  unfold cmdZcard
  rw [wp_bind, wp_arg hc (by omega), wp_bind]
  refine wp_call hv fun r s' hcall => ?_
  have h := (Quiet.start (e := e) hv).called hcall (keeps_of_reads (fun _ _ => rfl) r)
  split
  · exact h.error _ (by decide)
  · rename_i zset
    obtain ⟨hinv, hfits⟩ := hcall.getZset hv
    refine h.toRan.integer fun hl => within_count ?_
    have hlen := (hfits hl.store.cells).1
    rw [hinv.1.len]
    omega
  · exact h.toRan.integer fun _ => within_count (n := 0) (Nat.zero_le _)

theorem cmdZscore_serving : Serving 3 (cmdZscore (D := D)) := by
  intro ctx e s hc hn hv
  unfold cmdZscore
  rw [wp_bind, wp_env, wp_bind, wp_arg hc (by omega), wp_bind, wp_arg hc (by omega), wp_bind]
  refine wp_call hv fun r s' hcall => ?_
  have h := (Quiet.start (e := e) hv).called hcall (keeps_of_reads (fun _ _ => rfl) r)
  split
  · rename_i score
    have hbulk : wp (answer (replyBulkCstr (doubleText e.libc score))) e s' (Delivers e ctx s) :=
      h.toRan.bulk fun _ => doubleText_length e.libc score
    exact hbulk
  · exact h.error _ (by decide)
  · exact h.toRan.null

/-- The first pass of `GEOADD`: an error, or the arguments come in threes. -/
theorem geoaddCheck_wp {Q : CmdStatus → Sess D → Prop} (hc : ctx.req.Clean) (hn : (ctx.argc - 2) % 3 = 0)
    (h : Quiet e s₀ [] s)
    (herror : ∀ s' msg, msg.length ≤ respMaxInlineLen → Quiet e s₀ [] s' →
      wp (answer (replyError msg)) e s' Q) :
    wp (geoaddCheck ctx) e s fun r s' =>
      match r with
      | .inl st => Q st s'
      | .inr _ => Quiet e s₀ [] s' := by
  unfold geoaddCheck
  rw [wp_bind, wp_env]
  refine wp_forFrom (fun i _ s' => Quiet e s₀ [] s' ∧ ∃ k, i = 2 + 3 * k) ⟨h, 0, rfl⟩
    (fun i _ s' h hi => ?_) fun _ _ _ h _ => h.1
  obtain ⟨hq, k, rfl⟩ := h
  rw [wp_bind, wp_arg hc hi]
  split
  · rw [wp_bind]
    exact herror s' _ (ascii_length_le _ (by decide)) hq
  · rw [wp_bind, wp_arg hc (by omega)]
    split
    · rw [wp_bind]
      exact herror s' _ (ascii_length_le _ (by decide)) hq
    · split
      · exact ⟨by omega, hq, k + 1, by ring⟩
      · rw [wp_bind]
        exact herror s' _ ((List.length_take_le 511 _).trans (by decide)) hq

/-- The command `GEOADD`: an error before anything has been stored, or the writes of the hashes. -/
theorem cmdGeoadd_wp {Q : CmdStatus → Sess D → Prop} (hc : ctx.req.Clean) (hn : 5 ≤ ctx.argc)
    (hv : s.store.Valid)
    (herror : ∀ s' msg, msg.length ≤ respMaxInlineLen → Quiet e s [] s' → wp (answer (replyError msg)) e s' Q)
    (hloop : ∀ s', (ctx.argc - 2) % 3 = 0 → Quiet e s [] s' → OfType .zset (s'.store.cells (ctx.argv 1)) →
      ∀ pair : ℕ → Cmd D (D × Bytes), (∀ j, 2 + 3 * j < ctx.argc → ∀ s'' R,
        R (e.libc.ofUInt64 (geoEncode e.libc (e.libc.strtod (ctx.argv (2 + 3 * j + 1))).value
          (e.libc.strtod (ctx.argv (2 + 3 * j))).value), ctx.argv (2 + 3 * j + 2)) s'' →
            wp (pair (2 + 3 * j)) e s'' R) →
        wp (zsetAddLoop ctx ctx.argc 3 pair) e s' Q) :
    wp (cmdGeoadd ctx) e s Q := by
  unfold cmdGeoadd cmdGeoaddWith
  split
  · exact herror s _ (ascii_length_le _ (by decide)) (.start hv)
  · rename_i hthree
    rw [not_not] at hthree
    rw [wp_bind]
    refine wp_mono (geoaddCheck_wp hc hthree (.start hv) herror) fun r s₁ h₁ => ?_
    rcases r with st | ⟨⟩
    · exact h₁
    · simp only at h₁ ⊢
      rw [wp_bind, wp_arg hc (by omega), wp_bind]
      refine wp_mono (notZset_wp h₁) fun other s₂ h₂ => ?_
      split
      · exact herror s₂ _ (ascii_length_le _ (by decide)) h₂.1
      · rename_i hother
        rw [wp_bind, wp_env]
        refine hloop s₂ hthree h₂.1 (h₂.2 (Bool.not_eq_true _ ▸ hother)) _ fun j hj s' R hR => ?_
        rw [wp_bind, wp_arg hc (by omega), wp_bind, wp_arg hc (by omega), wp_bind, wp_arg hc (by omega)]
        exact hR

theorem cmdGeoadd_serving : Serving 5 (cmdGeoadd (D := D)) := by
  intro ctx e s hc hn hv
  refine cmdGeoadd_wp hc hn hv (fun s' msg hlen hq => hq.shortError hlen) fun s' hthree hq hty pair hpair =>
    ?_
  refine zsetAddLoop_wp hc (by omega) (by omega) (by decide) (by decide)
    (fun i => ∃ k, i = 2 + 3 * k) ⟨0, rfl⟩
    (fun i ⟨k, hk⟩ => ⟨k + 1, by omega⟩) (fun i s'' ⟨k, hk⟩ hi => ?_) hq.toRan hty
  rw [hk]
  exact hpair k (by omega) s'' _ rfl

theorem geodistIn_wp (hc : ctx.req.Clean) (hn : 4 ≤ ctx.argc) (hv : s.store.Valid) (factor : Double D) :
    wp (geodistIn ctx factor) e s (Delivers e ctx s) := by
  unfold geodistIn
  rw [wp_bind, wp_env, wp_bind, wp_arg hc (by omega), wp_bind, wp_arg hc (by omega), wp_bind]
  refine wp_call hv fun st1 s₁ h₁ => ?_
  have hq₁ := (Quiet.start (e := e) hv).called h₁ (keeps_of_reads (fun _ _ => rfl) st1)
  split
  · exact hq₁.error _ (by decide)
  · rw [wp_bind, wp_arg hc (by omega), wp_bind, wp_arg hc (by omega), wp_bind]
    refine wp_call hq₁.valid fun st2 s₂ h₂ => ?_
    have hq₂ := hq₁.called h₂ (keeps_of_reads (fun _ _ => rfl) st2)
    split
    · exact hq₂.toRan.bulk fun _ => snprintf_length e.libc (Nat.le_refl _) _ _
    · exact hq₂.toRan.null

theorem cmdGeodist_serving : Serving 4 (cmdGeodist (D := D)) := by
  intro ctx e s hc hn hv
  unfold cmdGeodist
  rw [wp_bind, wp_env]
  split
  · rw [wp_bind, wp_arg hc (by omega)]
    split
    · exact (Quiet.start hv).error _ (by decide)
    · exact geodistIn_wp hc hn hv _
  · split
    · exact (Quiet.start hv).error _ (by decide)
    · exact geodistIn_wp hc hn hv _

omit [LinearOrder D] in
theorem replyPosition_eq (libc : Libc D) (r : Except StoreStatus D) :
    ∃ v : Reply, v.WF ∧ replyPosition libc r = v.enc ∧ v.Within 4 := by
  cases r with
  | error st => exact ⟨.nullArray, trivial, replyNullArray_eq, trivial, Nat.zero_le _⟩
  | ok score =>
    rw [replyPosition]
    obtain ⟨lat, lng⟩ := geoDecode libc (libc.toUInt64 (some score))
    have hshort : ∀ x, (snprintf libc 32 "%.17g" x).length ≤ respMaxBulkLen :=
      snprintf_length libc (by decide) _
    refine ⟨.array [.bulk (snprintf libc 32 "%.17g" lng), .bulk (snprintf libc 32 "%.17g" lat)],
      ⟨trivial, trivial, trivial⟩, ?_, Reply.within_pair (within_bulk (hshort lng))
        (within_bulk (hshort lat))⟩
    simp only
    rw [replyBulkCstr_eq, replyBulkCstr_eq, ← replyArray_append, Reply.encs, Reply.encs, Reply.encs,
      List.append_nil, List.append_assoc]
    rfl

theorem cmdGeopos_serving : Serving 3 (cmdGeopos (D := D)) := by
  intro ctx e s hc hn hv
  unfold cmdGeopos cmdGeoposWith
  rw [wp_bind, wp_env, wp_bind, wp_arg hc (by omega), wp_bind]
  refine wp_mono (notZset_wp (.start hv)) fun other s₁ h₁ => ?_
  split
  · exact h₁.1.error _ (by decide)
  · refine replyEach_wp (by omega) h₁.1 fun i n k s' hl hi => ?_
    rw [wp_bind, wp_arg hc hi, wp_bind, wp_arg hc (by omega), wp_bind]
    obtain ⟨out, hq⟩ := hl.quiet
    refine wp_call hq.valid fun r s'' hcall => ⟨hl.called hcall (keeps_of_reads (fun _ _ => rfl) r), ?_⟩
    obtain ⟨v, hwf, heq, hw⟩ := replyPosition_eq e.libc r
    exact ⟨v, hwf, heq, fun _ => hw⟩

end Serving
end PulseDB
