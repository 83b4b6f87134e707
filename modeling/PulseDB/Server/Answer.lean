import PulseDB.Resp.ReplyCodec
import PulseDB.Server.State
import PulseDB.Store.Limits

/-!
# What a handler guarantees

`Answers e ctx s₀ r s` is the postcondition of every handler, run in the context `ctx` from the session `s₀`:
it leaves a valid store; with `CMD_DONE` it has appended the encoding of one RESP value and changed nothing
else of the client, and if that value is an error the store has only lost expired cells; with `CMD_BLOCK` it
has appended nothing.

`Delivers` adds that the reply is one a client can read, if all that the handler can write into it is short
enough.

The proofs follow the program with two relations to the start. `Ran s₀ out s` says that so far the bytes `out`
have been written; `Quiet e s₀ out s` says moreover that nothing has been stored.

* `wp_arg`, `wp_call`, `wp_nowMs` : the rules of the steps; `Called` is what a store operation does to the
  session;
* `Ran.called`, `Quiet.called` : the two relations over a store operation;
* `Quiet.error`, `Ran.integer`, ... : the ways a handler ends.
-/

namespace PulseDB
open Lib Lib.Prog

/-! ## Arguments -/

/-- Every element holds a string of the declared length without NUL bytes. -/
def RespValue.Clean (req : RespValue) : Prop :=
  ∀ e ∈ req.elements, ∃ str, e.str = some str ∧ (0 : UInt8) ∉ str ∧ e.len = str.length

theorem RespValue.clean_request {args : List Bytes} (h : ∀ a ∈ args, (0 : UInt8) ∉ a) :
    (RespValue.request args).Clean := by
  intro e he
  obtain ⟨a, ha, rfl⟩ := List.mem_map.mp he
  exact ⟨a, rfl, h a ha, rfl⟩

/-- The argument `i` of a clean request. -/
def CommandCtx.argv (ctx : CommandCtx) (i : ℕ) : Bytes := ((ctx.req.elements[i]?).bind (·.str)).getD []

/-- The strings of the elements of a request, the name of the command first. -/
def RespValue.args (req : RespValue) : List Bytes := req.elements.map fun x => x.str.getD []

section Args
variable {ctx : CommandCtx}

theorem RespValue.args_getD (req : RespValue) (canBlock timedOut : Bool) (i : ℕ) :
    req.args.getD i [] = CommandCtx.argv ⟨req, canBlock, timedOut⟩ i := by
  unfold RespValue.args CommandCtx.argv
  rw [List.getD_eq_getElem?_getD, List.getElem?_map]
  cases req.elements[i]? with
  | none => rfl
  | some x => rfl

theorem CommandCtx.args_length (ctx : CommandCtx) : ctx.req.args.length = ctx.argc := List.length_map _

theorem CommandCtx.args_getElem? {i : ℕ} (hi : i < ctx.argc) : ctx.req.args[i]? = some (ctx.argv i) := by
  have hlen : i < ctx.req.args.length := by rwa [ctx.args_length]
  rw [← RespValue.args_getD ctx.req ctx.canBlock ctx.timedOut, List.getD_eq_getElem _ _ hlen,
    List.getElem?_eq_getElem hlen]

theorem CommandCtx.args_take_succ {i : ℕ} (hi : i < ctx.argc) :
    ctx.req.args.take (i + 1) = ctx.req.args.take i ++ [ctx.argv i] := by
  rw [List.take_add_one, ctx.args_getElem? hi]
  rfl

end Args

section Rules
variable {D : Type} {e : Env D} {s : Sess D}

theorem wp_element {req : RespValue} {i : ℕ} {Q : RespValue → Sess D → Prop} (hi : i < req.elements.length) :
    wp (element req i) e s Q ↔ Q req.elements[i] s := by
  unfold element
  rw [List.getElem?_eq_getElem hi]
  exact wp_pure _

theorem wp_arg {ctx : CommandCtx} (hc : ctx.req.Clean) {i : ℕ} (hi : i < ctx.argc)
    {Q : Bytes → Sess D → Prop} :
    wp (arg ctx i) e s Q ↔ Q (ctx.argv i) s := by
  have hi' : i < ctx.req.elements.length := hi
  obtain ⟨str, hstr, hz, -⟩ := hc _ (List.getElem_mem hi')
  rw [arg, wp_bind, wp_element hi', strOf, hstr, CommandCtx.argv, List.getElem?_eq_getElem hi',
    Option.bind_some, hstr]
  simp only [cstr_of_clean hz]
  exact wp_pure _

/-- The session with more bytes for the client. -/
def Sess.wrote (s : Sess D) (b : Bytes) : Sess D :=
  { s with client := { s.client with out := s.client.out ++ b } }

theorem Sess.wrote_nil (s : Sess D) : s.wrote [] = s := by
  unfold Sess.wrote
  rw [List.append_nil]

theorem Sess.wrote_append (s : Sess D) (b b' : Bytes) : (s.wrote b).wrote b' = s.wrote (b ++ b') := by
  unfold Sess.wrote
  rw [List.append_assoc]

@[simp] theorem wp_reply {b : Bytes} {Q : Unit → Sess D → Prop} :
    wp (reply b) e s Q ↔ Q () { s with client := { s.client with out := s.client.out ++ b } } := Iff.rfl

@[simp] theorem wp_answer {b : Bytes} {Q : CmdStatus → Sess D → Prop} :
    wp (answer b) e s Q ↔ Q .done { s with client := { s.client with out := s.client.out ++ b } } := Iff.rfl

@[simp] theorem wp_nowMs {Q : Int → Sess D → Prop} :
    wp nowMs e s Q ↔ Q (e.clock s.tick) { s with tick := s.tick + 1 } := Iff.rfl

@[simp] theorem wp_monoMs {Q : Int → Sess D → Prop} :
    wp monoMs e s Q ↔ Q (e.mono s.monoTick) { s with monoTick := s.monoTick + 1 } := Iff.rfl

@[simp] theorem wp_scan {γ : Type} {visit : γ → StoreEntry D → γ} {ctx : γ} {Q : γ → Sess D → Prop} :
    wp (scan visit ctx) e s Q ↔ Q (storeScan s.store (e.clock s.tick) visit ctx)
      { s with tick := s.tick + 1 } :=
  Iff.rfl

end Rules

variable {D : Type} [LinearOrder D] {e : Env D} {s₀ s s' : Sess D}

/-! ## Store operations -/

/-- What a call of a store operation does to the session. -/
structure Called {α : Type} (e : Env D) (s : Sess D) (op : StoreOp D α) (key : Bytes) (r : α) (s' : Sess D) :
    Prop where
  valid : s'.store.Valid
  result : r = (op.step (e.clock (s.tick + 1)) (live (e.clock s.tick) (s.store.cells key))).1
  cells : s'.store.cells = Function.update s.store.cells key
    (op.step (e.clock (s.tick + 1)) (live (e.clock s.tick) (s.store.cells key))).2
  client : s'.client = s.client
  tick : s'.tick = s.tick + 2

theorem wp_call {α : Type} {op : StoreOp D α} {key : Bytes} (hv : s.store.Valid) {Q : α → Sess D → Prop}
    (hQ : ∀ r s', Called e s op key r s' → Q r s') : wp (call op key) e s Q := by
  have hd := exec_does hv.inv key (e.clock s.tick) (e.clock (s.tick + 1)) op
  refine hQ _ _ ⟨op.exec_valid hv key _ _, hd.result, hd.cells, rfl, rfl⟩

section List
variable {α : Type} {op : StoreOp D α} {key : Bytes} {r : α}

theorem Called.listAt_other (hc : Called e s op key r s') {k : Bytes} (hk : k ≠ key) :
    s'.store.listAt k = s.store.listAt k := by
  rw [Store.listAt, hc.cells, Function.update_of_ne hk]
  rfl

theorem Called.listAt_self (hc : Called e s op key r s') : s'.store.listAt key =
    Cell.nodes (op.step (e.clock (s.tick + 1)) (live (e.clock s.tick) (s.store.cells key))).2 := by
  rw [Store.listAt, hc.cells, Function.update_self]

theorem Store.Valid.live_nodes (hv : s.store.Valid) (now : Int) (key : Bytes) :
    Cell.nodes (live now (s.store.cells key)) = s.store.listAt key := PulseDB.live_nodes (hv.cells key) now

end List

theorem Called.found {A β : Type} {op : StoreOp D (Except StoreStatus β)} {key : Bytes} {b : β}
    (hv : s.store.Valid) (hc : Called e s op key (.ok b) s') (as : Value D → Option A) (f : A → Option β)
    (hop : ∀ now' o, op.step now' o = Cell.inspect as f o) :
    ∃ v a, v.Inv ∧ (s.store.CellsFit → v.Fits) ∧ as v = some a ∧ f a = some b := by
  have hr := hc.result
  rw [hop] at hr
  obtain ⟨c, a, hlive, ha, hf⟩ := Cell.inspect_ok hr.symm
  exact ⟨c.value, a, (hv.of_live _ _ c hlive).value, fun h => (h key c (live_eq_some.mp hlive).1).2.value, ha,
    hf⟩

section Get
variable {key : Bytes} (hv : s.store.Valid)
include hv

theorem Called.get {str : Bytes} (hc : Called e s .get key (.ok str) s') (hf : s.store.CellsFit) :
    str.length ≤ respMaxBulkLen := by
  obtain ⟨v, a, -, hfits, ha, hl⟩ := hc.found hv Value.asStr some fun _ _ => rfl
  cases hl
  obtain rfl := Value.eq_of_asStr ha
  exact hfits hf

theorem Called.getList {l : ListValue} (hc : Called e s .getList key (.ok l) s') :
    (Value.list (D := D) l).Inv ∧ (s.store.CellsFit → (Value.list (D := D) l).Fits) := by
  obtain ⟨v, a, hinv, hfits, ha, hl⟩ := hc.found hv Value.asList some fun _ _ => rfl
  cases hl
  exact Value.eq_of_asList ha ▸ ⟨hinv, hfits⟩

theorem Called.getHash {h : HashValue} (hc : Called e s .getHash key (.ok h) s') :
    (Value.hash (D := D) h).Inv ∧ (s.store.CellsFit → (Value.hash (D := D) h).Fits) := by
  obtain ⟨v, a, hinv, hfits, ha, hl⟩ := hc.found hv Value.asHash some fun _ _ => rfl
  cases hl
  exact Value.eq_of_asHash ha ▸ ⟨hinv, hfits⟩

theorem Called.hashGet {field value : Bytes} (hc : Called e s (.hashGet field) key (.ok value) s')
    (hf : s.store.CellsFit) : value.length ≤ respMaxBulkLen := by
  obtain ⟨v, a, -, hfits, ha, hget⟩ := hc.found hv Value.asHash (·.get field) fun _ _ => rfl
  obtain ⟨x, hx, rfl⟩ := HashValue.get_mem hget
  have hhash : (Value.hash (D := D) a).Fits := Value.eq_of_asHash ha ▸ hfits hf
  exact (hhash.2 x hx).2

theorem Called.getZset {z : ZSet D} (hc : Called e s .getZset key (.ok z) s') :
    (Value.zset z).Inv ∧ (s.store.CellsFit → (Value.zset z).Fits) := by
  obtain ⟨v, a, hinv, hfits, ha, hl⟩ := hc.found hv Value.asZset some fun _ _ => rfl
  cases hl
  exact Value.eq_of_asZset ha ▸ ⟨hinv, hfits⟩

theorem Called.zsetRank {member : Bytes} {rank : ℕ} (hc : Called e s (.zsetRank member) key (.ok rank) s')
    (hf : s.store.CellsFit) : rank ≤ respMaxArrayLen := by
  obtain ⟨v, z, hinv, hfits, ha, hrank⟩ := hc.found hv Value.asZset (·.rank member) fun _ _ => rfl
  obtain rfl := Value.eq_of_asZset ha
  have hle := hinv.1.rank_le hrank
  have hlen := (hfits hf).1
  omega

theorem Called.getStream {t : Stream} (hc : Called e s .getStream key (.ok t) s') :
    (Value.stream (D := D) t).Inv ∧ (s.store.CellsFit → (Value.stream (D := D) t).Fits) := by
  obtain ⟨v, a, hinv, hfits, ha, hl⟩ := hc.found hv Value.asStream some fun _ _ => rfl
  cases hl
  exact Value.eq_of_asStream ha ▸ ⟨hinv, hfits⟩

theorem Called.getStream_entries {r : Except StoreStatus Stream} (hc : Called e s .getStream key r s') :
    streamEntries (s.store.cells key) = (r.toOption.map (·.entries)).getD [] := by
  rw [hc.result, ← hv.streamEntries_live (e.clock s.tick) key, StoreOp.step]
  cases live (e.clock s.tick) (s.store.cells key) with
  | none => rfl
  | some c =>
    obtain ⟨v, x⟩ := c
    cases v with
    | _ => rfl

theorem Called.listPop {value : Bytes} {atHead : Bool} (hc : Called e s (.listPop atHead) key (.ok value) s')
    (hf : s.store.CellsFit) : value.length ≤ respMaxBulkLen := by
  have hmem := listPop_mem (hv.of_live (e.clock s.tick) key) hc.result.symm
  rw [hv.live_nodes] at hmem
  exact (hf.listAt key).2 value hmem

end Get

/-- The operation leaves the cell it sees as it is whenever it answers `r`. -/
def StoreOp.Keeps {α : Type} (op : StoreOp D α) (r : α) : Prop :=
  ∀ now' c, (op.step now' c).1 = r → (op.step now' c).2 = c

theorem keeps_of_reads {α : Type} {op : StoreOp D α} (h : ∀ now' c, (op.step now' c).2 = c) (r : α) :
    op.Keeps r :=
  fun now' c _ => h now' c

/-! ## The session so far -/

/-- Since `s₀` cells have only been removed, and only after a reading made since has passed their expiry. -/
def Purged (e : Env D) (s₀ s : Sess D) : Prop :=
  ∀ key, s.store.cells key = s₀.store.cells key ∨
    (s.store.cells key = none ∧ ∃ c, s₀.store.cells key = some c ∧
      ∃ n, s₀.tick ≤ n ∧ n < s.tick ∧ c.ExpiredAt (e.clock n))

/-- So far the bytes `out` have been written. -/
structure Ran (s₀ : Sess D) (out : Bytes) (s : Sess D) : Prop where
  valid : s.store.Valid
  client : s.client = { s₀.client with out := s₀.client.out ++ out }
  tick : s₀.tick ≤ s.tick

/-- So far the bytes `out` have been written, and nothing has been stored. -/
structure Quiet (e : Env D) (s₀ : Sess D) (out : Bytes) (s : Sess D) : Prop extends Ran s₀ out s where
  purged : Purged e s₀ s

theorem Quiet.start (hv : s₀.store.Valid) : Quiet e s₀ [] s₀ where
  valid := hv
  client := by rw [List.append_nil]
  tick := Nat.le_refl _
  purged _ := Or.inl rfl

theorem Ran.reply {out : Bytes} (h : Ran s₀ out s) (b : Bytes) :
    Ran s₀ (out ++ b) { s with client := { s.client with out := s.client.out ++ b } } where
  valid := h.valid
  client := by rw [h.client, List.append_assoc]
  tick := h.tick

omit [LinearOrder D] in
theorem Purged.later (h : Purged e s₀ s) {n : ℕ} (hn : s.tick ≤ n) : Purged e s₀ { s with tick := n } := by
  intro key
  rcases h key with h | ⟨h, c, hc, m, h1, h2, h3⟩
  · exact Or.inl h
  · exact Or.inr ⟨h, c, hc, m, h1, lt_of_lt_of_le h2 hn, h3⟩

theorem Quiet.later {out : Bytes} (h : Quiet e s₀ out s) (n : ℕ) (hn : s.tick ≤ n) :
    Quiet e s₀ out { s with tick := n } where
  valid := h.valid
  client := h.client
  tick := h.toRan.tick.trans hn
  purged := h.purged.later hn

section Called
variable {α : Type} {op : StoreOp D α} {key : Bytes} {r : α} {out : Bytes}

theorem Ran.called (h : Ran s₀ out s) (hc : Called e s op key r s') : Ran s₀ out s' where
  valid := hc.valid
  client := hc.client.trans h.client
  tick := h.tick.trans (by rw [hc.tick]; omega)

/-- A call that keeps the cell it sees has only removed the cell if it was expired. -/
theorem Quiet.called (h : Quiet e s₀ out s) (hc : Called e s op key r s') (hk : op.Keeps r) :
    Quiet e s₀ out s' := by
  refine ⟨h.toRan.called hc, fun k => ?_⟩
  have hcells := hc.cells
  rw [hk _ _ hc.result.symm] at hcells
  have hold : Purged e s₀ { s with tick := s'.tick } := h.purged.later (by rw [hc.tick]; omega)
  rw [hcells]
  by_cases hkey : k = key
  · subst hkey
    rw [Function.update_self]
    cases hlive : live (e.clock s.tick) (s.store.cells k) with
    | some c =>
      rw [← (live_eq_some.mp hlive).1]
      exact hold k
    | none =>
      cases hcell : s.store.cells k with
      | none => exact hcell ▸ hold k
      | some c =>
        have hexp : c.ExpiredAt (e.clock s.tick) := by
          rw [hcell, live] at hlive
          by_contra hx
          rw [if_neg hx] at hlive
          cases hlive
        rcases h.purged k with hsame | ⟨hnone, -⟩
        · refine Or.inr ⟨rfl, c, hsame ▸ hcell, s.tick, h.toRan.tick, ?_, hexp⟩
          rw [hc.tick]
          omega
        · rw [hcell] at hnone
          cases hnone
  · rw [Function.update_of_ne hkey]
    exact hold k

/-- A type that was found absent or equal to `t` is the type of what the key holds. -/
theorem Called.ofType {t : StoreType} {r : Option StoreType} (hc : Called e s .type key r s')
    (hr : r = none ∨ r = some t) : OfType t (s'.store.cells key) := by
  intro c hcell
  have hres : r = (live (e.clock s.tick) (s.store.cells key)).map (·.value.type) := hc.result
  rw [hc.cells, Function.update_self] at hcell
  rw [show live (e.clock s.tick) (s.store.cells key) = some c from hcell] at hres
  rcases hr with rfl | rfl
  · cases hres
  · exact (Option.some.inj hres).symm

theorem Ran.wrote {t : StoreType} {β : Type} {op : StoreOp D (Except StoreStatus β)}
    {r : Except StoreStatus β}
    (h : Ran s₀ out s) (hty : OfType t (s.store.cells key)) (hw : op.Writes t) (hc : Called e s op key r s') :
    ∃ b, r = .ok b ∧ Ran s₀ out s' ∧ OfType t (s'.store.cells key) := by
  obtain ⟨b, hb⟩ := @StoreOp.Writes.ok D _ _ op t hw (e.clock (s.tick + 1)) _ (hty.live (e.clock s.tick))
  refine ⟨b, hc.result.trans hb, h.called hc, ?_⟩
  rw [hc.cells, Function.update_self]
  exact hw.typed hb

/-- The writes of a loop to one key: so far nothing has been stored, or the key holds nothing or a value of
the type. -/
def Writing (e : Env D) (t : StoreType) (key : Bytes) (s₀ s : Sess D) : Prop :=
  Quiet e s₀ [] s ∨ (Ran s₀ [] s ∧ OfType t (s.store.cells key))

/-- One more write succeeds, unless the key has another type; then nothing has been stored. -/
theorem Writing.called {t : StoreType} {β : Type} {op : StoreOp D (Except StoreStatus β)}
    {r : Except StoreStatus β} (h : Writing e t key s₀ s) (hw : op.Writes t) (hc : Called e s op key r s') :
    (∃ b, r = .ok b ∧ Writing e t key s₀ s') ∨ (r = .error .wrongType ∧ Quiet e s₀ [] s') := by
  rcases h with hq | ⟨hran, hty⟩
  · cases r with
    | ok b =>
      refine Or.inl ⟨b, rfl, Or.inr ⟨hq.toRan.called hc, ?_⟩⟩
      rw [hc.cells, Function.update_self]
      exact hw.typed hc.result.symm
    | error st =>
      obtain ⟨rfl, -⟩ := hw.error hc.result.symm
      exact Or.inr ⟨rfl, hq.called hc fun _ _ hr => (hw.error hr).2⟩
  · obtain ⟨b, hb, hran', hty'⟩ := hran.wrote hty hw hc
    exact Or.inl ⟨b, hb, Or.inr ⟨hran', hty'⟩⟩

end Called

theorem Quiet.cellsFit {out : Bytes} (h : Quiet e s₀ out s) (hf : s₀.store.CellsFit) : s.store.CellsFit := by
  intro key c hc
  rcases h.purged key with hsame | ⟨hnone, -⟩
  · exact hf key c (hsame ▸ hc)
  · rw [hnone] at hc
    cases hc

theorem Purged.read {β : Type} (p : Part D β) (hv : s.store.Valid) (h : Purged e s s') (k : Bytes) :
    p.read (s'.store.cells k) = p.read (s.store.cells k) := by
  rcases h k with h | ⟨hnone, c, hc, n, -, -, hexp⟩
  · rw [h]
  · have hlive := p.live (hv.cells k) (e.clock n)
    rw [hc, live, if_pos hexp] at hlive
    rw [hnone, hc, ← hlive]

theorem Purged.listAt (hv : s.store.Valid) (h : Purged e s s') (k : Bytes) :
    s'.store.listAt k = s.store.listAt k :=
  h.read (listPart D) hv k

theorem Purged.streamEntries (hv : s.store.Valid) (h : Purged e s s') (k : Bytes) :
    PulseDB.streamEntries (s'.store.cells k) = PulseDB.streamEntries (s.store.cells k) :=
      h.read (streamPart D) hv k

theorem Quiet.reply {out : Bytes} (h : Quiet e s₀ out s) (b : Bytes) :
    Quiet e s₀ (out ++ b) { s with client := { s.client with out := s.client.out ++ b } } :=
  ⟨h.toRan.reply b, h.purged⟩

/-! ## The postcondition -/

/-- What every handler guarantees. -/
def Answers (e : Env D) (ctx : CommandCtx) (s₀ : Sess D) (r : CmdStatus) (s : Sess D) : Prop :=
  s.store.Valid ∧ s₀.tick ≤ s.tick ∧
    match r with
    | .done => ∃ v : Reply, v.WF ∧ s.client = { s₀.client with out := s₀.client.out ++ v.enc } ∧
        (v.IsError → Purged e s₀ s)
    | .block => ctx.canBlock = true ∧ ctx.timedOut = false ∧ Purged e s₀ s ∧
        ∃ d, s.client = { s₀.client with blockDeadline := d }

/-! ## Replies within the limits of a client -/

def Config.Fits (cfg : Config) : Prop :=
  cfg.bind.length ≤ respMaxBulkLen ∧ cfg.loglevel.length ≤ respMaxBulkLen ∧ cfg.dir.length ≤ respMaxBulkLen ∧
    cfg.dbfilename.length ≤ respMaxBulkLen

theorem configCreateDefault_fits : configCreateDefault.Fits := by
  unfold Config.Fits
  decide

/-- The request is within the limits of the parser. -/
structure RespValue.Fits (req : RespValue) : Prop where
  count : req.count ≤ respMaxArrayLen
  elements : ∀ x ∈ req.elements, ∀ str ∈ x.str, str.length ≤ respMaxBulkLen

/-- All that a handler can write into its reply is within the limits. -/
structure Limited (e : Env D) (ctx : CommandCtx) (s : Sess D) : Prop where
  cfg : e.cfg.Fits
  req : ctx.req.Fits
  store : s.store.Fits

/-- How deep the arrays of a reply are nested at most. -/
def replyDepth : ℕ := 5

/-- The guarantee of a handler, and that its reply is within the limits if all that it can write is. -/
def Delivers (e : Env D) (ctx : CommandCtx) (s₀ : Sess D) (r : CmdStatus) (s : Sess D) : Prop :=
  Answers e ctx s₀ r s ∧ (r = .done → ∃ v : Reply, v.WF ∧ s.client.out = s₀.client.out ++ v.enc ∧
    (Limited e ctx s₀ → v.Within replyDepth))

/-- With a clean request of at least `n` arguments and a valid store, the handler keeps its guarantee and its
reply is within the limits if all that it can write is. -/
def Serving (n : ℕ) (proc : CommandCtx → Cmd D CmdStatus) : Prop :=
  ∀ (ctx : CommandCtx) (e : Env D) (s : Sess D), ctx.req.Clean → n ≤ ctx.argc → s.store.Valid →
    wp (proc ctx) e s (Delivers e ctx s)

section Limited
omit [LinearOrder D]
variable {ctx : CommandCtx}

theorem Limited.arg (h : Limited e ctx s₀) (i : ℕ) : (ctx.argv i).length ≤ respMaxBulkLen := by
  unfold CommandCtx.argv
  cases hx : ctx.req.elements[i]? with
  | none => exact Nat.zero_le _
  | some x =>
    rw [Option.bind_some]
    cases hstr : x.str with
    | none => exact Nat.zero_le _
    | some str => exact h.req.elements x (List.mem_of_getElem? hx) str hstr

theorem Limited.argc (h : Limited e ctx s₀) : ctx.argc ≤ respMaxArrayLen := h.req.count

theorem within_bulk {d : ℕ} {b : Bytes} (h : b.length ≤ respMaxBulkLen) : (Reply.bulk b).Within d :=
  ⟨h, Nat.zero_le _⟩

theorem bulks_within {d : ℕ} {texts : List Bytes} (h : ∀ text ∈ texts, text.length ≤ respMaxBulkLen) :
    ∀ v ∈ texts.map Reply.bulk, v.Within d := by
  intro v hv
  obtain ⟨text, htext, rfl⟩ := List.mem_map.mp hv
  exact within_bulk (h text htext)

theorem pairs_within {d : ℕ} {α : Type} {f g : α → Bytes} {xs : List α}
    (h : ∀ x ∈ xs, (f x).length ≤ respMaxBulkLen ∧ (g x).length ≤ respMaxBulkLen) :
    ∀ v ∈ (xs.flatMap fun x => [f x, g x]).map Reply.bulk, v.Within d := by
  refine bulks_within fun text htext => ?_
  obtain ⟨x, hx, htext⟩ := List.mem_flatMap.mp htext
  rcases List.mem_cons.mp htext with rfl | htext
  · exact (h x hx).1
  · rw [List.mem_singleton.mp htext]
    exact (h x hx).2

theorem within_count {n : ℕ} (h : n ≤ respMaxArrayLen * 4) : (Reply.integer n).Within 0 := by
  refine ⟨?_, Nat.le_refl _⟩
  unfold respMaxArrayLen at h
  unfold Reply.Fits int64Min int64Max
  omega

end Limited

section Delivers
variable {ctx : CommandCtx} {out : Bytes}

theorem Ran.delivers (h : Ran s₀ out s) {v : Reply} (hv : v.WF) (hout : out = v.enc) (hne : ¬ v.IsError)
    (hw : Limited e ctx s₀ → v.Within replyDepth) : Delivers e ctx s₀ .done s :=
  ⟨⟨h.valid, h.tick, v, hv, hout ▸ h.client, fun hx => absurd hx hne⟩,
    fun _ => ⟨v, hv, by rw [h.client, hout], hw⟩⟩

theorem Ran.answer (h : Ran s₀ [] s) {v : Reply} (hv : v.WF) {b : Bytes} (hb : b = v.enc) (hne : ¬ v.IsError)
    (hw : Limited e ctx s₀ → v.Within replyDepth) : wp (PulseDB.answer b) e s (Delivers e ctx s₀) :=
  show Delivers e ctx s₀ .done _ from (h.reply b).delivers hv hb hne hw

theorem Ran.integer (h : Ran s₀ [] s) {val : Int} (hw : Limited e ctx s₀ → (Reply.integer val).Within 0) :
    wp (PulseDB.answer (replyInteger val)) e s (Delivers e ctx s₀) :=
  h.answer (v := .integer val) trivial (replyInteger_eq val) id fun hl => (hw hl).mono (Nat.zero_le _)

theorem Ran.bulk (h : Ran s₀ [] s) {str : Bytes} (hw : Limited e ctx s₀ → str.length ≤ respMaxBulkLen) :
    wp (PulseDB.answer (replyBulkCstr str)) e s (Delivers e ctx s₀) :=
  h.answer (v := .bulk str) trivial (replyBulkCstr_eq str) id fun hl => within_bulk (hw hl)

theorem Ran.null (h : Ran s₀ [] s) : wp (PulseDB.answer replyNull) e s (Delivers e ctx s₀) :=
  h.answer (v := .nullBulk) trivial replyNull_eq id fun _ => ⟨trivial, Nat.zero_le _⟩

theorem Ran.nullArray (h : Ran s₀ [] s) : wp (PulseDB.answer replyNullArray) e s (Delivers e ctx s₀) :=
  h.answer (v := .nullArray) trivial replyNullArray_eq id fun _ => ⟨trivial, Nat.zero_le _⟩

theorem Ran.simple (h : Ran s₀ [] s) {msg : Bytes} (hm : Reply.Line msg)
    (hlen : msg.length ≤ respMaxInlineLen) :
    wp (PulseDB.answer (replySimple msg)) e s (Delivers e ctx s₀) :=
  h.answer (v := .simple msg) hm (replySimple_eq msg) id fun _ => ⟨⟨hm, hlen⟩, Nat.zero_le _⟩

theorem Ran.array (h : Ran s₀ [] s) {vs : List Reply} (hvs : Reply.WFs vs) {b : Bytes}
    (hb : b = replyArray vs.length ++ Reply.encs vs) (hlen : Limited e ctx s₀ → vs.length ≤ respMaxArrayLen)
    (hw : Limited e ctx s₀ → ∀ v ∈ vs, v.Within 4) : wp (PulseDB.answer b) e s (Delivers e ctx s₀) :=
  h.answer (v := .array vs) hvs (hb.trans (replyArray_append vs)) id fun hl => Reply.within_array
    (hlen hl) (hw hl)

theorem Ran.emptyArray (h : Ran s₀ [] s) : wp (PulseDB.answer (replyArray 0)) e s (Delivers e ctx s₀) :=
  have hvs : Reply.WFs [] := trivial
  h.array hvs (by rw [Reply.encs, List.append_nil]; rfl) (fun _ => Nat.zero_le _) fun _ _ hv =>
    absurd hv List.not_mem_nil

/-- An array whose header and elements have been written one after the other. -/
theorem Ran.listed (h : Ran s₀ [] s) {vs : List Reply} {n : ℕ} (hvs : Reply.WFs vs) (hn : vs.length = n)
    (hlen : Limited e ctx s₀ → n ≤ respMaxArrayLen) (hw : Limited e ctx s₀ → ∀ v ∈ vs, v.Within 4) :
    Delivers e ctx s₀ .done ((s.wrote (replyArray n)).wrote (Reply.encs vs)) := by
  subst hn
  rw [Sess.wrote_append]
  exact (h.reply _).delivers (v := .array vs) hvs (replyArray_append vs) id fun hl => Reply.within_array
    (hlen hl) (hw hl)

/-- An array of `n` values is being written, and nothing has been stored: the header and the first `k` of
them. -/
def Listing (e : Env D) (ctx : CommandCtx) (s₀ : Sess D) (n k : ℕ) (s : Sess D) : Prop :=
  ∃ vs : List Reply, Reply.WFs vs ∧ (Limited e ctx s₀ → ∀ v ∈ vs, v.Within 4) ∧ vs.length = k ∧
    Quiet e s₀ (replyArray n ++ Reply.encs vs) s

theorem Quiet.listing (h : Quiet e s₀ [] s) (ctx : CommandCtx) (n : ℕ) :
    Listing e ctx s₀ n 0 { s with client := { s.client with out := s.client.out ++ replyArray n } } :=
  ⟨[], trivial, fun _ _ hv => absurd hv List.not_mem_nil,
    rfl, by rw [Reply.encs, List.append_nil]; exact h.reply _⟩

theorem Listing.items {n k : ℕ} (h : Listing e ctx s₀ n k s) {ws : List Reply} (hws : Reply.WFs ws)
    {b : Bytes} (hb : b = Reply.encs ws) (hw : Limited e ctx s₀ → ∀ v ∈ ws, v.Within 4) :
    Listing e ctx s₀ n (k + ws.length) { s with client := { s.client with out := s.client.out ++ b } } := by
  obtain ⟨vs, hvs, hfit, hk, hq⟩ := h
  refine ⟨vs ++ ws, (Reply.WFs_append vs ws).mpr ⟨hvs, hws⟩, fun hl => ?_, by rw [List.length_append, hk], ?_⟩
  · exact List.forall_mem_append.mpr ⟨hfit hl, hw hl⟩
  · rw [Reply.encs_append, ← List.append_assoc, hb]
    exact hq.reply _

theorem Listing.item {n k : ℕ} (h : Listing e ctx s₀ n k s) {v : Reply} (hv : v.WF) {b : Bytes}
    (hb : b = v.enc) (hw : Limited e ctx s₀ → v.Within 4) :
    Listing e ctx s₀ n (k + 1) { s with client := { s.client with out := s.client.out ++ b } } :=
  have hws : Reply.WFs [v] := ⟨hv, trivial⟩
  h.items hws (by rw [hb, Reply.encs, Reply.encs, List.append_nil]) fun hl =>
    List.forall_mem_singleton.mpr (hw hl)

theorem Listing.quiet {n k : ℕ} (h : Listing e ctx s₀ n k s) : ∃ out, Quiet e s₀ out s := by
  obtain ⟨vs, -, -, -, hq⟩ := h
  exact ⟨_, hq⟩

theorem Listing.called {n k : ℕ} {α : Type} {op : StoreOp D α} {key : Bytes} {r : α}
    (h : Listing e ctx s₀ n k s)
    (hc : Called e s op key r s') (hk : op.Keeps r) : Listing e ctx s₀ n k s' := by
  obtain ⟨vs, hvs, hfit, hlen, hq⟩ := h
  exact ⟨vs, hvs, hfit, hlen, hq.called hc hk⟩

theorem Listing.done {n : ℕ} (h : Listing e ctx s₀ n n s) (hn : Limited e ctx s₀ → n ≤ respMaxArrayLen) :
    wp (pure .done : Cmd D CmdStatus) e s (Delivers e ctx s₀) := by
  obtain ⟨vs, hvs, hfit, rfl, hq⟩ := h
  rw [wp_pure]
  exact hq.toRan.delivers (v := .array vs) hvs (replyArray_append vs) id fun hl =>
    Reply.within_array (hn hl) (hfit hl)

theorem Quiet.shortError (h : Quiet e s₀ [] s) {msg : Bytes} (hlen : msg.length ≤ respMaxInlineLen) :
    wp (PulseDB.answer (replyError msg)) e s (Delivers e ctx s₀) := by
  have hr := h.toRan.reply (replyError msg)
  have hout := hr.client
  rw [List.nil_append, replyError_eq] at hout
  refine ⟨⟨hr.valid, hr.tick, .error (errorLine msg), errorLine_line msg, hout, fun _ => h.purged⟩,
    fun _ => ?_⟩
  exact ⟨.error (errorLine msg), errorLine_line msg, congrArg Client.out hout, fun _ =>
    (Reply.within_error hlen).mono (Nat.zero_le _)⟩

theorem Quiet.error (h : Quiet e s₀ [] s) (chars : List Char) (hlen : chars.length ≤ respMaxInlineLen) :
    wp (PulseDB.answer (replyError (ascii (String.ofList chars)))) e s (Delivers e ctx s₀) :=
  h.shortError (ascii_length_le chars hlen)

theorem Quiet.errorf (h : Quiet e s₀ [] s) (text : Bytes) :
    wp (PulseDB.answer (replyErrorf text)) e s (Delivers e ctx s₀) :=
  h.shortError ((List.length_take_le 511 text).trans (by decide))

end Delivers
end PulseDB
