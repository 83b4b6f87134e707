import PulseDB.Server.Answer

/-!
# List commands (`cmd_list.c`)

The handlers, and that each of them keeps the guarantee of `Serving`.
-/

namespace PulseDB
open Lib Lib.Prog

/-- Clamp inclusive indexes, negative ones counting from the end; `none` for an empty range. Lengths are below
`2^63`, so the source computes these sums exactly. -/
def normaliseRange (start stop : Int) (len : ℕ) : Option (ℕ × ℕ) :=
  let n : Int := len
  let start := if start < 0 then start + n else start
  let stop := if stop < 0 then stop + n else stop
  let start := if start < 0 then 0 else start
  let stop := if stop ≥ n then n - 1 else stop
  if n = 0 ∨ start > stop then none else some (start.toNat, stop.toNat)

theorem normaliseRange_some {start stop : Int} {len first last : ℕ}
    (h : normaliseRange start stop len = some (first, last)) : first ≤ last ∧ last < len := by
  unfold normaliseRange at h
  simp only at h
  generalize hlo : (if (if start < 0 then start + (len : Int) else start) < 0 then 0
    else if start < 0 then start + (len : Int) else start) = lo at h
  generalize (if stop < 0 then stop + (len : Int) else stop) = hi at h
  have hlo0 : 0 ≤ lo := by split_ifs at hlo <;> omega
  by_cases hempty : (len : Int) = 0 ∨ lo > (if hi ≥ (len : Int) then (len : Int) - 1 else hi)
  · rw [if_pos hempty] at h
    cases h
  · rw [if_neg hempty] at h
    cases h
    split_ifs at hempty ⊢ <;> omega

variable {D : Type} [LinearOrder D]

/-- The test `store_type(key) != STORE_TYPE_NONE && store_type(key) != t`, with a lookup for each call. -/
def otherType (key : Bytes) (t : StoreType) : Cmd D Bool := do
  if (← call .type key) = none then return false
  else return decide ((← call .type key) ≠ some t)

/-- The last part of `cmd_hmget` and `cmd_geopos`: an array with one value for each argument from 2 on. -/
def replyEach (ctx : CommandCtx) (item : ℕ → Cmd D Bytes) : Cmd D CmdStatus := do
  reply (replyArray (ctx.argc - 2))
  let _ : Empty ⊕ Unit ← forFrom 2 ctx.argc () fun i _ => do
    reply (← item i)
    return .inr (i + 1, ())
  return .done

def pushCommonWith (later : StoreCall D) (ctx : CommandCtx) (atHead : Bool) : Cmd D CmdStatus := do
  let key ← arg ctx 1
  if ← otherType key .list then answer (replyError errWrongtype)
  else do
    let r : Empty ⊕ ℕ ← forFrom 2 ctx.argc 0 fun i len => do
      let key ← arg ctx 1
      let value ← arg ctx i
      match ← later (.listPush value atHead) key with
      | .ok len => return .inr (i + 1, len)
      | .error _ => return .inr (i + 1, len)
    match r with
    | .inr len => answer (replyInteger len)

def pushCommon (ctx : CommandCtx) (atHead : Bool) : Cmd D CmdStatus := pushCommonWith call ctx atHead

def cmdLpush (ctx : CommandCtx) : Cmd D CmdStatus := pushCommon ctx true

def cmdRpush (ctx : CommandCtx) : Cmd D CmdStatus := pushCommon ctx false

def popCommon (ctx : CommandCtx) (atHead : Bool) : Cmd D CmdStatus := do
  match ← call (.listPop atHead) (← arg ctx 1) with
  | .ok value => answer (replyBulkCstr value)
  | .error .wrongType => answer (replyError errWrongtype)
  | .error _ => answer replyNull

def cmdLpop (ctx : CommandCtx) : Cmd D CmdStatus := popCommon ctx true

def cmdRpop (ctx : CommandCtx) : Cmd D CmdStatus := popCommon ctx false

def cmdLlen (ctx : CommandCtx) : Cmd D CmdStatus := do
  match ← call .getList (← arg ctx 1) with
  | .error .wrongType => answer (replyError errWrongtype)
  | .ok list => answer (replyInteger list.len)
  | .error _ => answer (replyInteger 0)

/-- Write `count` nodes from here on; a null node is a fault. -/
def replyNodes : ℕ → List Bytes → Cmd D Unit
  | 0, _ => pure ()
  | _ + 1, [] => Prog.fault .index
  | count + 1, node :: rest => do
    reply (replyBulkCstr node)
    replyNodes count rest

def cmdLrange (ctx : CommandCtx) : Cmd D CmdStatus := do
  match parseInt64 (← arg ctx 2) with
  | none => answer (replyError errNotInt)
  | some start =>
    match parseInt64 (← arg ctx 3) with
    | none => answer (replyError errNotInt)
    | some stop =>
      match ← call .getList (← arg ctx 1) with
      | .error .wrongType => answer (replyError errWrongtype)
      | .error _ => answer (replyArray 0)
      | .ok list =>
        match normaliseRange start stop list.len with
        | none => answer (replyArray 0)
        | some (first, last) => do
          reply (replyArray (last - first + 1))
          replyNodes (last - first + 1) (list.nodes.drop first)
          return .done

/-- The key loop of `cmd_blpop`. -/
def blpopKeys (ctx : CommandCtx) : Cmd D (CmdStatus ⊕ Unit) :=
  forFrom 1 (ctx.argc - 1) () fun i _ => do
    let key ← arg ctx i
    match ← call (.listPop true) key with
    | .error .wrongType => return .inl (← answer (replyError errWrongtype))
    | .ok value => return .inl (← answer (replyArray 2 ++ replyBulkCstr key ++ replyBulkCstr value))
    | .error _ => return .inr (i + 1, ())

/-- Ask the event loop to park the client; the deadline is set when it is not parked yet. -/
def park (timeout : D) : Cmd D CmdStatus := do
  let env ← Prog.env
  let s ← Prog.get
  if s.client.blockedReq.isSome then return .block
  else if env.libc.lit "0" < timeout then do
    let now ← monoMs
    let wait := env.libc.toInt64 (env.libc.mul (some timeout) (some (env.libc.lit "1000")))
    Prog.modify fun s => { s with client := { s.client with blockDeadline := wrap64 (now + wait) } }
    return .block
  else do
    Prog.modify fun s => { s with client := { s.client with blockDeadline := 0 } }
    return .block

def cmdBlpop (ctx : CommandCtx) : Cmd D CmdStatus := do
  let env ← Prog.env
  let err := ascii "ERR timeout is not a float or out of range"
  match parseDouble env.libc (← arg ctx (ctx.argc - 1)) with
  | none => answer (replyError err)
  | some timeout =>
    if timeout < env.libc.lit "0" ∨ env.libc.isinf timeout then answer (replyError err)
    else do
      match ← blpopKeys ctx with
      | .inl st => return st
      | .inr () => if !ctx.canBlock || ctx.timedOut then answer replyNullArray else park timeout

/-! ## Guarantees -/

section Serving
variable {ctx : CommandCtx} {e : Env D} {s₀ s : Sess D}

/-- The type check only looks; if it passes, the key holds nothing or a value of the type. -/
theorem otherType_wp {key : Bytes} {t : StoreType} {out : Bytes} (h : Quiet e s₀ out s) :
    wp (otherType key t) e s fun r s' => Quiet e s₀ out s' ∧ (r = false → OfType t (s'.store.cells key)) := by
  unfold otherType
  rw [wp_bind]
  refine wp_call h.valid fun t₁ s₁ h₁ => ?_
  have hq₁ := h.called h₁ (keeps_of_reads (fun _ _ => rfl) t₁)
  split
  · rename_i hnone
    exact ⟨hq₁, fun _ => h₁.ofType (Or.inl hnone)⟩
  · rw [wp_bind]
    refine wp_call hq₁.valid fun t₂ s₂ h₂ => ⟨hq₁.called h₂ (keeps_of_reads (fun _ _ => rfl) t₂),
      fun hr => ?_⟩
    exact h₂.ofType (Or.inr (by simpa using hr))

theorem replyEach_wp {item : ℕ → Cmd D Bytes} (hn : 2 ≤ ctx.argc) (h : Quiet e s₀ [] s)
    (hitem : ∀ i n k s, Listing e ctx s₀ n k s → i < ctx.argc → wp (item i) e s fun b s' =>
      Listing e ctx s₀ n k s' ∧ ∃ v : Reply, v.WF ∧ b = v.enc ∧ (Limited e ctx s₀ → v.Within 4)) :
    wp (replyEach ctx item) e s (Delivers e ctx s₀) := by
  unfold replyEach
  rw [wp_bind, wp_reply, wp_bind]
  refine wp_forFrom (fun i _ s' => 2 ≤ i ∧ i ≤ ctx.argc ∧ Listing e ctx s₀ (ctx.argc - 2) (i - 2) s')
    ⟨Nat.le_refl _, hn, h.listing ctx _⟩ (fun i _ s' h hi => ?_) fun i _ s' h hi => ?_
  · obtain ⟨h2, hle, hl⟩ := h
    rw [wp_bind]
    refine wp_mono (hitem i _ _ s' hl hi) fun b s'' ⟨hl', v, hv, hb, hw⟩ => ?_
    have hnext : i + 1 - 2 = i - 2 + 1 := by omega
    rw [wp_bind, wp_reply]
    refine ⟨Nat.lt_succ_self i, by omega, hi, ?_⟩
    rw [hnext]
    exact hl'.item hv hb hw
  · obtain ⟨h2, hle, hl⟩ := h
    obtain rfl : i = ctx.argc := Nat.le_antisymm hle hi
    exact hl.done fun hlim => (Nat.sub_le _ _).trans hlim.argc

theorem pushCommon_serving (atHead : Bool) : Serving 2 fun ctx => pushCommon (D := D) ctx atHead := by
  intro ctx e s hc hn hv
  unfold pushCommon pushCommonWith
  rw [wp_bind, wp_arg hc (by omega), wp_bind]
  refine wp_mono (otherType_wp (.start hv)) fun other s₁ h₁ => ?_
  split
  · exact h₁.1.error _ (by decide)
  · rw [wp_bind]
    -- each round adds one element, and answers the length
    refine wp_forFrom (fun i len s' => Ran s [] s' ∧ i ≤ ctx.argc ∧
        (s'.store.listAt (ctx.argv 1)).length ≤ (s.store.listAt (ctx.argv 1)).length + i ∧
        len ≤ (s.store.listAt (ctx.argv 1)).length + i)
      ⟨h₁.1.toRan, hn, ?_, Nat.zero_le _⟩ (fun i len s' h hi => ?_) fun i len s' h _ => ?_
    · rw [h₁.1.purged.listAt hv]
      omega
    · obtain ⟨hran, -, hlist, hlen⟩ := h
      rw [wp_bind, wp_arg hc (by omega), wp_bind, wp_arg hc hi, wp_bind]
      refine wp_call hran.valid fun r s'' hcall => ?_
      have hran' := hran.called hcall
      have hnodes := hcall.listAt_self
      rw [listPush_nodes, ← hcall.result, hran.valid.live_nodes] at hnodes
      cases r with
      | ok len' =>
        have hlen' := listPush_len (hran.valid.of_live (e.clock s'.tick) (ctx.argv 1)) hcall.result.symm
        rw [hran.valid.live_nodes] at hlen'
        refine ⟨Nat.lt_succ_self i, hran', hi, ?_, by omega⟩
        rw [hnodes]
        cases atHead <;> simp <;> omega
      | error st =>
        have hsame : s''.store.listAt (ctx.argv 1) = s'.store.listAt (ctx.argv 1) := hnodes
        refine ⟨Nat.lt_succ_self i, hran', hi, ?_, by omega⟩
        rw [hsame]
        omega
    · obtain ⟨hran, hi, -, hlen⟩ := h
      refine hran.integer fun hl => within_count ?_
      have hlist := (hl.store.cells.listAt (ctx.argv 1)).1
      have hargc := hl.argc
      omega

theorem popCommon_serving (atHead : Bool) : Serving 2 fun ctx => popCommon (D := D) ctx atHead := by
  intro ctx e s hc hn hv
  have h := Quiet.start (e := e) hv
  unfold popCommon
  rw [wp_bind, wp_arg hc (by omega), wp_bind]
  refine wp_call hv fun r s' hcall => ?_
  cases r with
  | ok value => exact (h.toRan.called hcall).bulk fun hl => hcall.listPop hv hl.store.cells
  | error st =>
    have h' := h.called hcall fun _ _ hr => Cell.alter_error hr
    split
    · rename_i hr; cases hr
    · exact h'.error _ (by decide)
    · exact h'.toRan.null

theorem cmdLlen_serving : Serving 2 (cmdLlen (D := D)) := by
  intro ctx e s hc hn hv
  unfold cmdLlen
  rw [wp_bind, wp_arg hc (by omega), wp_bind]
  refine wp_call hv fun r s' hcall => ?_
  have h := (Quiet.start (e := e) hv).called hcall (keeps_of_reads (fun _ _ => rfl) r)
  split
  · exact h.error _ (by decide)
  · rename_i list
    obtain ⟨hinv, hfits⟩ := hcall.getList hv
    refine h.toRan.integer fun hl => within_count ?_
    have hlen := (hfits hl.store.cells).1
    rw [hinv.1]
    omega
  · exact h.toRan.integer fun _ => within_count (n := 0) (Nat.zero_le _)

omit [LinearOrder D] in
theorem replyNodes_wp : ∀ {count : ℕ} {nodes : List Bytes} {s : Sess D}, count ≤ nodes.length →
    wp (replyNodes count nodes) e s fun _ s' => s' = s.wrote (Reply.encs ((nodes.take count).map .bulk))
  | 0, _, s, _ => s.wrote_nil.symm
  | count + 1, [], _, hc => absurd hc (by simp)
  | count + 1, node :: rest, s, hc => by
    rw [replyNodes, wp_bind, wp_reply]
    refine wp_mono (replyNodes_wp (Nat.le_of_succ_le_succ hc)) fun _ s' h => ?_
    rw [h, List.take_succ_cons, List.map_cons, Reply.encs, ← replyBulkCstr_eq]
    exact s.wrote_append _ _

theorem cmdLrange_serving : Serving 4 (cmdLrange (D := D)) := by
  intro ctx e s hc hn hv
  have h := Quiet.start (e := e) hv
  unfold cmdLrange
  rw [wp_bind, wp_arg hc (by omega)]
  split
  · exact h.error _ (by decide)
  rw [wp_bind, wp_arg hc (by omega)]
  split
  · exact h.error _ (by decide)
  rw [wp_bind, wp_arg hc (by omega), wp_bind]
  refine wp_call hv fun r s₁ hcall => ?_
  have h₁ := h.called hcall (keeps_of_reads (fun _ _ => rfl) r)
  split
  · exact h₁.error _ (by decide)
  · exact h₁.toRan.emptyArray
  · rename_i list
    -- the length field counts the nodes
    obtain ⟨⟨hlen, -⟩, hfits⟩ := hcall.getList hv
    split
    · exact h₁.toRan.emptyArray
    · rename_i first last hrange
      obtain ⟨hle, hlt⟩ := normaliseRange_some hrange
      have hcount : last - first + 1 ≤ (list.nodes.drop first).length := by rw [List.length_drop]; omega
      have hvs : (((list.nodes.drop first).take (last - first + 1)).map Reply.bulk).length = last -
          first + 1 := by
        rw [List.length_map, List.length_take_of_le hcount]
      rw [wp_bind, wp_reply, wp_bind]
      refine wp_mono (replyNodes_wp hcount) fun _ s₂ h₂ => ?_
      subst h₂
      refine h₁.toRan.listed (Reply.WFs_bulks _) hvs (fun hl => ?_) fun hl => bulks_within fun node hnode =>
        (hfits hl.store.cells).2 node (List.mem_of_mem_drop (List.mem_of_mem_take hnode))
      have hnodes := (hfits hl.store.cells).1
      omega

/-- The key loop of `BLPOP`: it ends with an element popped and written, with an error, or with nothing
stored. -/
theorem blpopKeys_wp {Q : CmdStatus → Sess D → Prop} (hc : ctx.req.Clean) (h : Quiet e s₀ [] s)
    (herror : ∀ s', Quiet e s₀ [] s' → wp (answer (replyError errWrongtype)) e s' Q)
    (hpop : ∀ i value s₁ s₂, Quiet e s₀ [] s₁ → Called e s₁ (.listPop true) (ctx.argv i) (.ok value) s₂ →
      wp (answer (replyArray 2 ++ replyBulkCstr (ctx.argv i) ++ replyBulkCstr value)) e s₂ Q) :
    wp (blpopKeys ctx) e s fun r s' =>
      match r with
      | .inl st => Q st s'
      | .inr _ => Quiet e s₀ [] s' := by
  unfold blpopKeys
  refine wp_forFrom (fun _ _ s' => Quiet e s₀ [] s') h (fun i _ s' h hi => ?_) fun _ _ _ h _ => h
  rw [wp_bind, wp_arg hc (by omega), wp_bind]
  refine wp_call h.valid fun r s'' hcall => ?_
  cases r with
  | ok value =>
    simp only [wp_bind]
    exact hpop i value s' s'' h hcall
  | error st =>
    have h' := h.called hcall fun _ _ hr => Cell.alter_error hr
    split
    · rw [wp_bind]
      exact herror s'' h'
    · rename_i hr; cases hr
    · exact ⟨Nat.lt_succ_self i, h'⟩

/-- The deadline of a request with this timeout that is parked at time `now`. -/
def Env.deadline (e : Env D) (timeout : D) (now : Int) : Int :=
  if e.libc.lit "0" < timeout then
    wrap64 (now + e.libc.toInt64 (e.libc.mul (some timeout) (some (e.libc.lit "1000"))))
  else 0

theorem park_wp (timeout : D) : wp (park timeout) e s fun st s' =>
    st = .block ∧ s'.store = s.store ∧ s'.tick = s.tick ∧
    s'.client = { s.client with
      blockDeadline :=
        if s.client.blockedReq.isSome then s.client.blockDeadline
        else e.deadline timeout (e.mono s.monoTick) } := by
  unfold park Env.deadline
  rw [wp_bind, wp_env, wp_bind, wp_get]
  split
  · exact ⟨rfl, rfl, rfl, rfl⟩
  · split <;> exact ⟨rfl, rfl, rfl, rfl⟩

theorem cmdBlpop_wp {Q : CmdStatus → Sess D → Prop} (hc : ctx.req.Clean) (hn : 3 ≤ ctx.argc)
    (herror : wp (answer (replyError (ascii "ERR timeout is not a float or out of range"))) e s Q)
    (hkeys : wp (blpopKeys ctx) e s fun r s' =>
      match r with
      | .inl st => Q st s'
      | .inr _ => wp (answer replyNullArray) e s' Q ∧
          (ctx.canBlock = true → ctx.timedOut = false → ∀ timeout, wp (park timeout) e s' Q)) :
    wp (cmdBlpop ctx) e s Q := by
  unfold cmdBlpop
  rw [wp_bind, wp_env]
  simp only
  rw [wp_bind, wp_arg hc (by omega)]
  split
  · exact herror
  · split
    · exact herror
    · rw [wp_bind]
      refine wp_mono hkeys fun r s' h' => ?_
      rcases r with st | ⟨⟩
      · exact h'
      · simp only at h' ⊢
        split
        · exact h'.1
        · rename_i hblock
          rw [Bool.or_eq_true, not_or, Bool.not_eq_true', Bool.not_eq_false, Bool.not_eq_true] at hblock
          exact h'.2 hblock.1 hblock.2 _

theorem cmdBlpop_serving : Serving 3 (cmdBlpop (D := D)) := by
  intro ctx e s hc hn hv
  have h := Quiet.start (e := e) hv
  refine cmdBlpop_wp hc hn (h.error _ (by decide)) (wp_mono (blpopKeys_wp (Q := Delivers e ctx s) hc h
    (fun s' h' => h'.error _ (by decide)) fun i value s₁ s₂ h₁ hcall => ?_) fun r s' h' => ?_)
  · have htwo : 2 ≤ respMaxArrayLen := by decide
    refine (h₁.toRan.called hcall).array (Reply.WFs_bulks [ctx.argv i, value]) ?_ (fun _ => htwo) fun hl =>
      bulks_within fun text htext => ?_
    · rw [List.map_cons, List.map_cons, List.map_nil, Reply.encs, Reply.encs, Reply.encs, replyBulkCstr_eq,
        replyBulkCstr_eq, List.append_nil, List.append_assoc]
      rfl
    · rcases List.mem_cons.mp htext with rfl | htext
      · exact hl.arg i
      · rw [List.mem_singleton.mp htext]
        exact hcall.listPop h₁.valid (h₁.cellsFit hl.store.cells)
  · rcases r with st | ⟨⟩
    · exact h'
    · refine ⟨h'.toRan.nullArray, fun hb ht timeout => wp_mono (park_wp timeout) fun st s'' hpark => ?_⟩
      obtain ⟨rfl, hstore, htick, hclient⟩ := hpark
      rw [h'.client, List.append_nil] at hclient
      have hpurged : Purged e s s'' := by
        rw [Purged, hstore, htick]
        exact h'.purged
      exact ⟨⟨hstore ▸ h'.valid, htick ▸ h'.toRan.tick, hb, ht, hpurged, _, hclient⟩, CmdStatus.noConfusion⟩

end Serving
end PulseDB
