import PulseDB.Server.Answer

/-!
# Stream commands (`cmd_stream.c`)

The handlers, and that each of them keeps the guarantee of `Serving`. `XRANGE` and `XREAD` count the entries
first and then walk them again to write them.
-/

namespace PulseDB
open Lib Lib.Prog

/-! ## Encoders -/

def streamIdText (id : StreamId) : Bytes := dec id.ms.toNat ++ ascii "-" ++ dec id.seq.toNat

def replyStreamId (id : StreamId) : Bytes := replyBulkCstr (streamIdText id)

def replyStreamField (f : StreamField) : Bytes := replyBulkCstr f.field ++ replyBulkCstr f.value

def replyStreamEntry (entry : StreamEntry) : Bytes :=
  replyArray 2 ++ replyStreamId entry.id ++ replyArray (entry.numFields * 2) ++
    entry.fields.flatMap replyStreamField

/-- Write `count` entries from here on; `none` if there are fewer. -/
def replyStreamEntries : ℕ → List StreamEntry → Option Bytes
  | 0, _ => some []
  | _ + 1, [] => none
  | count + 1, e :: rest => (replyStreamEntries count rest).map (replyStreamEntry e ++ ·)

variable {D : Type} [LinearOrder D]

/-- The bytes of `count` entries; a null entry is a fault. -/
def streamEntriesBytes (count : ℕ) (es : List StreamEntry) : Cmd D Bytes :=
  match replyStreamEntries count es with
  | none => Prog.fault .index
  | some b => pure b

/-! ## The handlers -/

def errStreamId : Bytes := ascii "ERR Invalid stream ID specified as stream command argument"

/-- The loop of `cmd_xadd` that collects fields and values. -/
def xaddFields (ctx : CommandCtx) : Cmd D (Empty ⊕ List StreamField) :=
  forFrom 0 ((ctx.argc - 3) / 2) [] fun i fields => do
    let field ← arg ctx (3 + i * 2)
    let value ← arg ctx (4 + i * 2)
    return .inr (i + 1, fields ++ [⟨field, value⟩])

def cmdXadd (ctx : CommandCtx) : Cmd D CmdStatus := do
  if (ctx.argc - 3) % 2 ≠ 0 then
    answer (replyError (ascii "ERR wrong number of arguments for 'xadd' command"))
  else do
    match ← xaddFields ctx with
    | .inr fields =>
      let key ← arg ctx 1
      let idSpec ← arg ctx 2
      match ← call (.streamAdd idSpec fields) key with
      | .ok id => answer (replyStreamId id)
      | .error .wrongType => answer (replyError errWrongtype)
      | .error .idZero => answer (replyError (ascii "ERR The ID specified in XADD must be greater than 0-0"))
      | .error .idTooSmall =>
        answer
          (replyError
            (ascii "ERR The ID specified in XADD is equal or smaller than the target stream top item"))
      | .error _ => answer (replyError errStreamId)

def cmdXrange (ctx : CommandCtx) : Cmd D CmdStatus := do
  let lo ← arg ctx 2
  match if strcmp lo (ascii "-") ≠ 0 then streamIdParse lo 0 else some ⟨0, 0⟩ with
  | none => answer (replyError errStreamId)
  | some start =>
    let hi ← arg ctx 3
    match if strcmp hi (ascii "+") ≠ 0 then streamIdParse hi uint64Max else some ⟨uint64Max, uint64Max⟩ with
    | none => answer (replyError errStreamId)
    | some stop =>
      match ← call .getStream (← arg ctx 1) with
      | .error .wrongType => answer (replyError errWrongtype)
      | .error _ => answer (replyArray 0)
      | .ok stream => do
        let first := stream.entries.dropWhile fun e => decide (streamIdCmp e.id start < 0)
        let count := (first.takeWhile fun e => decide (streamIdCmp e.id stop ≤ 0)).length
        reply (replyArray count)
        answer (← streamEntriesBytes count first)

/-- A round of the first loop of `cmd_xread`, over the keys from argument `first` on and the IDs after them.
The loop state is `after`. -/
def xreadRoundWith (inRound : ℕ → StoreCall D) (ctx : CommandCtx) (first numKeys k : ℕ)
    (after : List StreamId) :
    Cmd D (CmdStatus ⊕ ℕ × List StreamId) := do
  let key ← arg ctx (first + k)
  let id ← arg ctx (first + numKeys + k)
  let st ← inRound k .getStream key
  match st with
  | .error .wrongType => return .inl (← answer (replyError errWrongtype))
  | st =>
    if strcmp id (ascii "$") = 0 then
      return .inr (k + 1, after ++ [(st.toOption.map (·.lastId)).getD ⟨0, 0⟩])
    else
      match streamIdParse id 0 with
      | none => return .inl (← answer (replyError errStreamId))
      | some id => return .inr (k + 1, after ++ [id])

def xreadCheckWith (inRound : ℕ → StoreCall D) (ctx : CommandCtx) (first numKeys : ℕ) :
    Cmd D (CmdStatus ⊕ List StreamId) :=
  forFrom 0 numKeys [] (xreadRoundWith inRound ctx first numKeys)

def xreadCheck (ctx : CommandCtx) (first numKeys : ℕ) : Cmd D (CmdStatus ⊕ List StreamId) :=
  xreadCheckWith (fun _ => call) ctx first numKeys

/-- How many entries `cmd_xread` counts from here on: all of them, or `limit` if there are more. -/
def xreadCount (limit : Int) (es : List StreamEntry) : ℕ :=
  if limit = 0 then es.length else min limit.toNat es.length

/-- The element `after[k]`. -/
def afterAt (after : List StreamId) (k : ℕ) : Cmd D StreamId :=
  match after[k]? with
  | none => Prog.fault .index
  | some id => pure id

/-- The second loop of `cmd_xread`; the loop state is `with_data` and `body`. -/
def xreadCollectWith (later : StoreCall D) (ctx : CommandCtx) (first numKeys : ℕ) (limit : Int)
    (after : List StreamId) : Cmd D (Empty ⊕ ℕ × Bytes) :=
  forFrom 0 numKeys (0, []) fun k (withData, body) => do
    let key ← arg ctx (first + k)
    match ← later .getStream key with
    | .error _ => return .inr (k + 1, withData, body)
    | .ok stream =>
      let last ← afterAt after k
      let rest := stream.entries.dropWhile fun e => decide (streamIdCmp e.id last ≤ 0)
      let count := xreadCount limit rest
      if count = 0 then return .inr (k + 1, withData, body)
      else do
        let entries ← streamEntriesBytes count rest
        return .inr (k + 1, withData + 1, body ++ replyArray 2 ++ replyBulkCstr key ++
          replyArray count ++ entries)

def xreadCollect (ctx : CommandCtx) (first numKeys : ℕ) (limit : Int) (after : List StreamId) :
    Cmd D (Empty ⊕ ℕ × Bytes) :=
  xreadCollectWith call ctx first numKeys limit after

/-- The part of `cmd_xread` after the option `COUNT`, with `arg` at `a`. -/
def xreadStreamsWith (inRound : ℕ → ℕ → StoreCall D) (later : StoreCall D) (ctx : CommandCtx) (a : ℕ)
    (limit : Int) :
    Cmd D CmdStatus := do
  if a ≥ ctx.argc then answer (replyError errSyntax)
  else if !strcaseEq (← arg ctx a) (ascii "STREAMS") then answer (replyError errSyntax)
  else do
    let first := a + 1
    let remaining := ctx.argc - first
    if remaining = 0 ∨ remaining % 2 ≠ 0 then
      answer (replyError (ascii
        "ERR Unbalanced 'xread' list of streams: for each stream key an ID or '$' must be specified."))
    else do
      let numKeys := remaining / 2
      match ← xreadCheckWith (inRound first) ctx first numKeys with
      | .inl st => return st
      | .inr after =>
        match ← xreadCollectWith later ctx first numKeys limit after with
        | .inr (withData, body) =>
          if withData = 0 then answer replyNullArray else answer (replyArray withData ++ body)

def xreadStreams (ctx : CommandCtx) (a : ℕ) (limit : Int) : Cmd D CmdStatus :=
  xreadStreamsWith (fun _ _ => call) call ctx a limit

def cmdXreadWith (inRound : ℕ → ℕ → StoreCall D) (later : StoreCall D) (ctx : CommandCtx) :
    Cmd D CmdStatus := do
  if strcaseEq (← arg ctx 1) (ascii "COUNT") then
    if 2 ≥ ctx.argc then answer (replyError errNotInt)
    else
      match parseInt64 (← arg ctx 2) with
      | none => answer (replyError errNotInt)
      | some limit =>
        if limit < 0 then answer (replyError errNotInt) else xreadStreamsWith inRound later ctx 3 limit
  else xreadStreamsWith inRound later ctx 1 0

def cmdXread (ctx : CommandCtx) : Cmd D CmdStatus := cmdXreadWith (fun _ _ => call) call ctx

/-! ## Guarantees -/

section Encoders

theorem streamIdText_fits (id : StreamId) : (streamIdText id).length < 48 := by
  have hms : (dec id.ms.toNat).length ≤ 19 + 1 := dec_length_le (id.ms.toNat_lt.trans (by decide))
  have hseq : (dec id.seq.toNat).length ≤ 19 + 1 := dec_length_le (id.seq.toNat_lt.trans (by decide))
  have hdash : (ascii "-").length = 1 := rfl
  unfold streamIdText
  rw [List.length_append, List.length_append]
  omega

theorem streamIdText_length (id : StreamId) : (streamIdText id).length ≤ respMaxBulkLen :=
  (streamIdText_fits id).le.trans (by decide)

/-- The value of an entry in a reply: the pair of its ID and the array of its fields. -/
def StreamEntry.value (entry : StreamEntry) : Reply :=
  .array [.bulk (streamIdText entry.id),
    .array ((entry.fields.flatMap fun f => [f.field, f.value]).map .bulk)]

theorem replyStreamEntry_eq {entry : StreamEntry} (h : entry.numFields = entry.fields.length) :
    replyStreamEntry entry = entry.value.enc := by
  have hfields : entry.fields.flatMap replyStreamField =
      Reply.encs ((entry.fields.flatMap fun f => [f.field, f.value]).map .bulk) :=
    replyBulkPairs_eq StreamField.field StreamField.value entry.fields
  have hcount : ((entry.fields.flatMap fun f => [f.field, f.value]).map Reply.bulk).length =
      entry.fields.length * 2 := by
    rw [List.length_map, length_pairs]
  rw [replyStreamEntry, hfields, h, ← hcount, replyStreamId, replyBulkCstr_eq, List.append_assoc,
    List.append_assoc,
    replyArray_append, StreamEntry.value, ← replyArray_append [_, _], Reply.encs, Reply.encs, Reply.encs,
    List.append_nil]
  rfl

theorem StreamEntry.value_within {entry : StreamEntry} (h : entry.Fits) : entry.value.Within 2 := by
  refine Reply.within_pair (within_bulk (streamIdText_length entry.id))
    (Reply.within_array ?_ (pairs_within h.2))
  rw [List.length_map, length_pairs]
  exact h.1

theorem values_wf : ∀ es : List StreamEntry, Reply.WFs (es.map StreamEntry.value)
  | [] => trivial
  | _ :: es => ⟨⟨trivial, Reply.WFs_bulks _, trivial⟩, values_wf es⟩

theorem values_within {es : List StreamEntry} (h : ∀ e ∈ es, e.Fits) :
    ∀ v ∈ es.map StreamEntry.value, v.Within 2 := by
  intro v hv
  obtain ⟨e, he, rfl⟩ := List.mem_map.mp hv
  exact StreamEntry.value_within (h e he)

theorem replyStreamEntries_eq : ∀ (count : ℕ) (es : List StreamEntry), count ≤ es.length →
    (∀ e ∈ es, e.numFields = e.fields.length) →
    replyStreamEntries count es = some (Reply.encs ((es.take count).map StreamEntry.value))
  | 0, _, _, _ => rfl
  | count + 1, [], hc, _ => absurd hc (by simp)
  | count + 1, e :: rest, hc, h => by
    have hrest := replyStreamEntries_eq count rest (Nat.le_of_succ_le_succ hc) fun e he =>
      h e (List.mem_cons_of_mem _ he)
    rw [replyStreamEntries, hrest, Option.map_some, replyStreamEntry_eq (h e List.mem_cons_self),
      List.take_succ_cons, List.map_cons, Reply.encs]

theorem xreadCount_le (limit : Int) (es : List StreamEntry) : xreadCount limit es ≤ es.length := by
  unfold xreadCount
  split
  · exact Nat.le_refl _
  · exact Nat.min_le_right _ _

/-- With a limit that is not negative, something is counted where there is something. -/
theorem xreadCount_pos {limit : Int} (h : 0 ≤ limit) {es : List StreamEntry}
    (hnil : es.take (xreadCount limit es) = []) :
    es = [] := by
  rcases List.take_eq_nil_iff.mp hnil with hzero | hes
  · unfold xreadCount at hzero
    split at hzero
    · exact List.length_eq_zero_iff.mp hzero
    · exact List.length_eq_zero_iff.mp (by omega)
  · exact hes

end Encoders

section Serving
variable {ctx : CommandCtx} {e : Env D} {s₀ s : Sess D}

omit [LinearOrder D] in
theorem streamEntriesBytes_wp {count : ℕ} {es : List StreamEntry} (hc : count ≤ es.length)
    (hes : ∀ e ∈ es, e.numFields = e.fields.length) :
    wp (streamEntriesBytes count es) e s fun b s' => s' = s ∧
      b = Reply.encs ((es.take count).map StreamEntry.value) := by
  rw [streamEntriesBytes, replyStreamEntries_eq count es hc hes]
  exact ⟨rfl, rfl⟩

omit [LinearOrder D] in
theorem xaddFields_wp (hc : ctx.req.Clean) (hn : 3 ≤ ctx.argc) (heven : (ctx.argc - 3) % 2 = 0) :
    wp (xaddFields ctx) e s fun r s' => s' = s ∧ ∃ fields : List StreamField, r = .inr fields ∧
      ctx.req.args.drop 3 = fields.flatMap fun f => [f.field, f.value] := by
  unfold xaddFields
  refine wp_forFrom (fun i (fields : List StreamField) s' => s' = s ∧ i ≤ (ctx.argc - 3) / 2 ∧
      ctx.req.args.take (3 + i * 2) = ctx.req.args.take 3 ++ fields.flatMap fun f => [f.field, f.value])
    ⟨rfl, Nat.zero_le _, (List.append_nil _).symm⟩ (fun i fields s' h hi => ?_) fun i fields s' h hi => ?_
  · obtain ⟨hs, -, htake⟩ := h
    rw [wp_bind, wp_arg hc (by omega), wp_bind, wp_arg hc (by omega)]
    refine ⟨Nat.lt_succ_self i, hs, hi, ?_⟩
    have hnext : 3 + (i + 1) * 2 = 3 + i * 2 + 1 + 1 := by omega
    rw [hnext, ctx.args_take_succ (by omega), ctx.args_take_succ (by omega), htake, List.flatMap_append,
      List.append_assoc, List.append_assoc, Nat.add_right_comm 3]
    rfl
  · obtain ⟨hs, hle, htake⟩ := h
    have hall : ctx.req.args.length ≤ 3 + i * 2 := by
      rw [ctx.args_length]
      omega
    rw [List.take_of_length_le hall] at htake
    refine ⟨hs, fields, rfl, ?_⟩
    rw [htake, List.drop_left' (List.length_take_of_le (by rw [ctx.args_length]; exact hn))]

theorem cmdXadd_serving : Serving 5 (cmdXadd (D := D)) := by
  intro ctx e s hc hn hv
  have h := Quiet.start (e := e) hv
  unfold cmdXadd
  split
  · exact h.error _ (by decide)
  · rw [wp_bind]
    refine wp_mono (xaddFields_wp hc (by omega) (by omega)) fun r s' ⟨hs, fields, hr, _⟩ => ?_
    subst hs hr
    simp only
    rw [wp_bind, wp_arg hc (by omega), wp_bind, wp_arg hc (by omega), wp_bind]
    refine wp_call hv fun r s' hcall => ?_
    cases r with
    | ok id => exact (h.toRan.called hcall).bulk fun _ => streamIdText_length id
    | error st =>
      have h' := h.called hcall fun _ _ hr => Cell.alter_error hr
      cases st <;> exact h'.error _ (by decide)

theorem replyFirst_wp {stream : Stream} {first : List StreamEntry} {count : ℕ} (h : Quiet e s₀ [] s)
    (hcount : count ≤ first.length) (hsub : first.Sublist stream.entries) (hinv : stream.Inv)
    (hfits : s₀.store.CellsFit → (Value.stream (D := D) stream).Fits) :
    wp (reply (replyArray count) >>= fun _ => streamEntriesBytes count first >>= answer) e s
      (Delivers e ctx s₀) := by
  rw [wp_bind, wp_reply, wp_bind]
  refine wp_mono (streamEntriesBytes_wp hcount fun e he => hinv.fields e (hsub.subset he))
    fun b s₂ ⟨hs₂, hb⟩ => ?_
  subst hs₂
  have hl := (h.listing ctx count).items (values_wf _) hb fun hl v hmem => (values_within (fun e he =>
    (hfits hl.store.cells).2 e (hsub.subset (List.mem_of_mem_take he))) v hmem).mono (by decide)
  rw [Nat.zero_add, List.length_map, List.length_take_of_le hcount] at hl
  exact hl.done fun hlim => (hcount.trans hsub.length_le).trans (hfits hlim.store.cells).1

theorem cmdXrange_serving : Serving 4 (cmdXrange (D := D)) := by
  intro ctx e s hc hn hv
  have h := Quiet.start (e := e) hv
  unfold cmdXrange
  rw [wp_bind, wp_arg hc (by omega)]
  split
  · exact h.error _ (by decide)
  rw [wp_bind, wp_arg hc (by omega)]
  split
  · exact h.error _ (by decide)
  rw [wp_bind, wp_arg hc (by omega), wp_bind]
  refine wp_call hv fun r s₁ hcall => ?_
  have h₁ := h.called hcall (keeps_of_reads (fun _ _ => rfl) r)
  split
  · exact h₁.error _ (by decide)
  · exact h₁.toRan.emptyArray
  · rename_i stream
    obtain ⟨hinv, hfits⟩ := hcall.getStream hv
    exact replyFirst_wp h₁ (List.takeWhile_prefix _).length_le (List.dropWhile_sublist _) hinv.1 hfits

/-- The first pass of `XREAD`: an error, which a key without a stream or a text that is no ID has caused, or
the ID for each key. -/
theorem xreadCheck_wp {first numKeys : ℕ} (hc : ctx.req.Clean) (hn : first + numKeys + numKeys ≤ ctx.argc)
    (hv : s₀.store.Valid) (h : Quiet e s₀ [] s) :
    wp (xreadCheck ctx first numKeys) e s fun r s' =>
      match r with
      | .inl st => Delivers e ctx s₀ st s' ∧ st = .done ∧
          (∃ msg, (Reply.error msg).WF ∧ s'.client.out = s₀.client.out ++ (Reply.error msg).enc) ∧
          ∃ j < numKeys, streamEntries (s₀.store.cells (ctx.argv (first + j))) = [] ∨
            streamIdParse (ctx.argv (first + numKeys + j)) 0 = none
      | .inr after => Quiet e s₀ [] s' ∧ after.length = numKeys ∧
          ∀ j < numKeys, ∀ id ∈ streamIdParse (ctx.argv (first + numKeys + j)) 0, after[j]? = some id := by
  -- an error for the key `k`
  have herror : ∀ {k : ℕ} {s' : Sess D} (chars : List Char), chars.length ≤ respMaxInlineLen →
    Quiet e s₀ [] s' →
      k < numKeys → (streamEntries (s₀.store.cells (ctx.argv (first + k))) = [] ∨
        streamIdParse (ctx.argv (first + numKeys + k)) 0 = none) →
      wp (answer (replyError (ascii (String.ofList chars)))) e s' fun st s'' => Delivers e ctx s₀ st s'' ∧
      st = .done ∧
        (∃ msg, (Reply.error msg).WF ∧ s''.client.out = s₀.client.out ++ (Reply.error msg).enc) ∧
        ∃ j < numKeys, streamEntries (s₀.store.cells (ctx.argv (first + j))) = [] ∨
          streamIdParse (ctx.argv (first + numKeys + j)) 0 = none := by
    intro k s' chars hlen hq hk hcause
    refine wp_answer.mpr ⟨wp_answer.mp (hq.error chars hlen), rfl,
      ⟨_, errorLine_line (ascii (String.ofList chars)), ?_⟩, k, hk, hcause⟩
    rw [← replyError_eq, hq.client, List.append_nil]
  unfold xreadCheck xreadCheckWith xreadRoundWith
  refine wp_forFrom (fun k after s' => Quiet e s₀ [] s' ∧ (k = after.length ∧ k ≤ numKeys) ∧
      ∀ j < k, ∀ id ∈ streamIdParse (ctx.argv (first + numKeys + j)) 0, after[j]? = some id)
    ⟨h, ⟨rfl, Nat.zero_le _⟩, fun j hj => absurd hj (Nat.not_lt_zero j)⟩ (fun k after s' h hk => ?_)
    fun k after s' h hk => ?_
  · obtain ⟨hq, ⟨rfl, -⟩, hids⟩ := h
    rw [wp_bind, wp_arg hc (by omega), wp_bind, wp_arg hc (by omega), wp_bind]
    refine wp_call hq.valid fun r s'' hcall => ?_
    have h' := hq.called hcall (keeps_of_reads (fun _ _ => rfl) r)
    -- the ID found for this key
    have hnext : ∀ {new : StreamId}, (∀ id ∈ streamIdParse (ctx.argv (first + numKeys + after.length)) 0,
      new = id) →
        ∀ j < after.length + 1, ∀ id ∈ streamIdParse (ctx.argv (first + numKeys + j)) 0,
          (after ++ [new])[j]? = some id := by
      intro new hnew j hj id hid
      rcases Nat.lt_or_eq_of_le (Nat.lt_succ_iff.mp hj) with hlt | rfl
      · rw [List.getElem?_append_left hlt]
        exact hids j hlt id hid
      · rw [List.getElem?_concat_length, hnew id hid]
    split
    · rw [wp_bind]
      refine herror _ (by decide) h' hk (Or.inl ?_)
      rw [← hq.purged.streamEntries hv]
      exact hcall.getStream_entries hq.valid
    · split
      · rename_i hdollar
        refine ⟨Nat.lt_succ_self _, h', ⟨by rw [List.length_append]; rfl, hk⟩, hnext fun id hid => ?_⟩
        -- `$` is no ID
        have hnone : streamIdParse (ascii "$") 0 = none := by decide
        rw [strcmp_eq_zero.mp hdollar, hnone] at hid
        cases hid
      · split
        · rename_i hnone
          rw [wp_bind]
          exact herror _ (by decide) h' hk (Or.inr hnone)
        · rename_i id hsome
          refine ⟨Nat.lt_succ_self _, h', ⟨by rw [List.length_append]; rfl, hk⟩, hnext fun id' hid => ?_⟩
          rw [hsome] at hid
          exact Option.some.inj hid
  · obtain ⟨hq, ⟨hlen, hle⟩, hids⟩ := h
    obtain rfl : k = numKeys := Nat.le_antisymm hle hk
    exact ⟨hq, hlen.symm, hids⟩

/-- The entries that `XREAD` returns for a stream: those after an ID, or the first of them up to the limit. -/
def xreadBatch (limit : Int) (es : List StreamEntry) (last : StreamId) : List StreamEntry :=
  let rest := es.dropWhile fun e => decide (streamIdCmp e.id last ≤ 0)
  rest.take (xreadCount limit rest)

theorem xreadBatch_nil (limit : Int) (last : StreamId) : xreadBatch limit [] last = [] := List.take_nil

theorem xreadBatch_length (limit : Int) (es : List StreamEntry) (last : StreamId) :
    (xreadBatch limit es last).length =
      xreadCount limit (es.dropWhile fun e => decide (streamIdCmp e.id last ≤ 0)) :=
  List.length_take_of_le (xreadCount_le limit _)

theorem xreadBatch_sublist (limit : Int) (es : List StreamEntry) (last : StreamId) :
    (xreadBatch limit es last).Sublist es := (List.take_sublist _ _).trans (List.dropWhile_sublist _)

/-- The value of a key in the reply of `XREAD`; a key without entries has none. -/
def xreadValue (key : Bytes) (batch : List StreamEntry) : Option Reply :=
  if batch = [] then none else some (.array [.bulk key, .array (batch.map StreamEntry.value)])

/-- The values in the reply of `XREAD`, in the order of the keys. -/
def xreadValues (ctx : CommandCtx) (store : Store D) (first numKeys : ℕ) (limit : Int)
    (after : List StreamId) :
    List Reply :=
  (List.range numKeys).filterMap fun k => xreadValue (ctx.argv (first + k))
    (xreadBatch limit (streamEntries (store.cells (ctx.argv (first + k)))) (after.getD k ⟨0, 0⟩))

omit [LinearOrder D] in
theorem xreadValues_succ (ctx : CommandCtx) (store : Store D) (first k : ℕ) (limit : Int)
    (after : List StreamId) :
    xreadValues ctx store first (k + 1) limit after = xreadValues ctx store first k limit after ++
      (xreadValue (ctx.argv (first + k))
        (xreadBatch limit (streamEntries (store.cells (ctx.argv (first + k))))
        (after.getD k ⟨0, 0⟩))).toList := by
  unfold xreadValues
  rw [List.range_succ, List.filterMap_append]
  rfl

/-- The second pass of `XREAD`: `with_data` counts the values in `body`. -/
theorem xreadCollect_wp {first numKeys : ℕ} {limit : Int} {after : List StreamId} (hc : ctx.req.Clean)
    (hn : first + numKeys ≤ ctx.argc) (hafter : numKeys ≤ after.length) (hv : s₀.store.Valid)
      (h : Quiet e s₀ [] s) :
    wp (xreadCollect ctx first numKeys limit after) e s fun r s' =>
      let vs := xreadValues ctx s₀.store first numKeys limit after
      r = .inr (vs.length, Reply.encs vs) ∧ Quiet e s₀ [] s' ∧ Reply.WFs vs ∧ vs.length ≤ ctx.argc ∧
        (Limited e ctx s₀ → ∀ v ∈ vs, v.Within 4) := by
  unfold xreadCollect xreadCollectWith
  refine wp_forFrom (fun k (b : ℕ × Bytes) s' => Quiet e s₀ [] s' ∧ k ≤ numKeys ∧
    let vs := xreadValues ctx s₀.store first k limit after
    b = (vs.length, Reply.encs vs) ∧ Reply.WFs vs ∧ (Limited e ctx s₀ → ∀ v ∈ vs, v.Within 4))
    ⟨h, Nat.zero_le _, rfl, trivial, fun _ _ hv => absurd hv List.not_mem_nil⟩
    (fun k b s' h hk => ?_) fun k b s' h hk => ?_
  · obtain ⟨hq, hle, rfl, hvs, hw⟩ := h
    simp only
    rw [wp_bind, wp_arg hc (by omega), wp_bind]
    refine wp_call hq.valid fun r s'' hcall => ?_
    have hq' := hq.called hcall (keeps_of_reads (fun _ _ => rfl) r)
    have hentries := hcall.getStream_entries hq.valid
    rw [hq.purged.streamEntries hv] at hentries
    -- a key without new entries adds no value
    have hskip : xreadBatch limit ((r.toOption.map (·.entries)).getD []) (after.getD k ⟨0, 0⟩) = [] →
        xreadValues ctx s₀.store first (k + 1) limit after =
          xreadValues ctx s₀.store first k limit after := by
      intro hnil
      rw [xreadValues_succ, hentries, hnil]
      exact List.append_nil _
    split
    · refine ⟨Nat.lt_succ_self k, hq', hk, ?_⟩
      rw [hskip (xreadBatch_nil ..)]
      exact ⟨rfl, hvs, hw⟩
    · rename_i stream
      obtain ⟨hinv, hfits⟩ := hcall.getStream hq.valid
      have hlast : after[k]? = some (after.getD k ⟨0, 0⟩) := by
        rw [List.getD_eq_getElem _ _ (by omega), List.getElem?_eq_getElem]
      have hlen := xreadBatch_length limit stream.entries (after.getD k ⟨0, 0⟩)
      rw [wp_bind, afterAt, hlast]
      simp only [wp_pure]
      split
      · rename_i hcount
        refine ⟨Nat.lt_succ_self k, hq', hk, ?_⟩
        rw [hskip (List.length_eq_zero_iff.mp (hlen.trans hcount))]
        exact ⟨rfl, hvs, hw⟩
      · rename_i hcount
        rw [wp_bind]
        refine wp_mono (streamEntriesBytes_wp (xreadCount_le limit _)
          fun e he => hinv.1.fields e ((List.dropWhile_sublist _).subset he)) fun b s₂ hpost => ?_
        obtain ⟨hs₂, hb⟩ := hpost
        subst hs₂
        let batch := xreadBatch limit stream.entries (after.getD k ⟨0, 0⟩)
        have hb' : b = Reply.encs (batch.map StreamEntry.value) := hb
        have hbatch : batch ≠ [] := fun hnil => hcount (hlen.symm.trans (List.length_eq_zero_iff.mpr hnil))
        have hvalues : xreadValues ctx s₀.store first (k + 1) limit after =
          xreadValues ctx s₀.store first k limit after ++
            [.array [.bulk (ctx.argv (first + k)), .array (batch.map StreamEntry.value)]] := by
          rw [xreadValues_succ, hentries]
          exact congrArg (_ ++ Option.toList ·) (if_neg hbatch)
        have hv' : Reply.WF (.array [.bulk (ctx.argv (first + k)), .array (batch.map StreamEntry.value)]) :=
          ⟨trivial, values_wf batch, trivial⟩
        refine ⟨Nat.lt_succ_self k, hq', hk, ?_⟩
        rw [hvalues]
        refine ⟨Prod.ext ?_ ?_, Reply.WFs_snoc hvs hv', fun hl => ?_⟩
        · show _ = List.length (_ ++ [_])
          rw [List.length_append]
          rfl
        · rw [Reply.encs_snoc, ← replyArray_append [_, _], Reply.encs, Reply.encs, Reply.encs,
            List.append_nil,
            ← replyArray_append (batch.map _), List.length_map, hlen, ← hb', ← replyBulkCstr_eq]
          simp only [List.append_assoc]
          rfl
        · obtain ⟨hmax, hall⟩ := hfits (hq.cellsFit hl.store.cells)
          have hsub := xreadBatch_sublist limit stream.entries (after.getD k ⟨0, 0⟩)
          have harray := Reply.within_array ((List.length_map _).trans_le (hsub.length_le.trans hmax))
            (values_within fun e he => hall e (hsub.subset he))
          exact List.forall_mem_append.mpr ⟨hw hl, List.forall_mem_singleton.mpr
            (Reply.within_pair (within_bulk (hl.arg _)) harray)⟩
  · obtain ⟨hq, hle, rfl, hvs, hw⟩ := h
    obtain rfl : k = numKeys := Nat.le_antisymm hle hk
    refine ⟨rfl, hq, hvs, ?_, hw⟩
    have hlen : (xreadValues ctx s₀.store first k limit after).length ≤ k :=
      (List.length_filterMap_le _ _).trans_eq List.length_range
    omega

theorem xreadStreams_wp {a : ℕ} {limit : Int} (hc : ctx.req.Clean) (hv : s.store.Valid) :
    wp (xreadStreams ctx a limit) e s (Delivers e ctx s) := by
  have h := Quiet.start (e := e) hv
  unfold xreadStreams xreadStreamsWith
  split
  · exact h.error _ (by decide)
  rw [wp_bind, wp_arg hc (by omega)]
  split
  · exact h.error _ (by decide)
  simp only
  split
  · exact h.error _ (by decide)
  · rename_i hrem
    rw [wp_bind]
    refine wp_mono (xreadCheck_wp hc (by omega) hv h) fun r s₁ h₁ => ?_
    rcases r with st | after
    · exact h₁.1
    · obtain ⟨hq₁, hafter, -⟩ := h₁
      simp only
      rw [wp_bind]
      refine wp_mono (xreadCollect_wp hc (by omega) hafter.ge hv hq₁) fun r s₂ ⟨hr, hq, hvs, hle, hw⟩ => ?_
      subst hr
      simp only
      split
      · exact hq.toRan.nullArray
      · exact hq.toRan.array hvs rfl (fun hl => hle.trans hl.argc) hw

theorem cmdXread_serving : Serving 4 (cmdXread (D := D)) := by
  intro ctx e s hc hn hv
  have h := Quiet.start (e := e) hv
  unfold cmdXread cmdXreadWith
  rw [wp_bind, wp_arg hc (by omega)]
  split
  · split
    · exact h.error _ (by decide)
    · rw [wp_bind, wp_arg hc (by omega)]
      split
      · exact h.error _ (by decide)
      · split
        · exact h.error _ (by decide)
        · exact xreadStreams_wp hc hv
  · exact xreadStreams_wp hc hv

end Serving
end PulseDB
