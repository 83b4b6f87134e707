import PulseDB.Cmd.Hash
import PulseDB.Cmd.Stream
import PulseDB.Cmd.String
import PulseDB.Cmd.ZSet

/-!
# The command table (`commands.c`)

* `cmdPing`, `cmdEcho`, `cmdConfig` : the server commands;
* `commandTable`, `commandLookup` : the table, and the open-addressing search by lower-cased name;
* `commandLookup_some` : what is found stands in the table under that name; `commandLookup_name` : every entry
  is found;
* `commandTable_serving` : every command of kind `KIND_NORMAL` has a handler that keeps its guarantee.
-/

namespace PulseDB
open Lib Lib.Prog

variable {D : Type} [LinearOrder D]

/-! ## Server commands -/

/-- The payload of the element `i`, with its length field. -/
def payload (ctx : CommandCtx) (i : ℕ) : Cmd D (Bytes × ℕ) := do
  let e ← element ctx.req i
  match e.str with
  | none => Prog.fault .nullStr
  | some s => return (s, e.len)

def cmdPing (ctx : CommandCtx) : Cmd D CmdStatus := do
  if ctx.argc = 1 then answer (replySimple (ascii "PONG"))
  else if ctx.argc = 2 then do
    let (data, len) ← payload ctx 1
    answer (replyBulk data len)
  else answer (replyError (ascii "ERR wrong number of arguments for 'ping' command"))

def cmdEcho (ctx : CommandCtx) : Cmd D CmdStatus := do
  let (data, len) ← payload ctx 1
  answer (replyBulk data len)

/-- The arrays `keys` and `values` of `cmd_config`; the numbers are printed into buffers of 16 bytes. -/
def configItems (cfg : Config) : List (Bytes × Bytes) :=
  [(ascii "port", (decInt cfg.port).take 15), (ascii "hz", (decInt cfg.hz).take 15), (ascii "bind", cfg.bind),
    (ascii "loglevel", cfg.loglevel), (ascii "dir", cfg.dir), (ascii "dbfilename", cfg.dbfilename)]

def cmdConfig (ctx : CommandCtx) : Cmd D CmdStatus := do
  let sub ← arg ctx 1
  if !strcaseEq sub (ascii "GET") then
    answer (replyErrorf (ascii "ERR unsupported CONFIG subcommand '" ++ sub ++ ascii "'"))
  else if ctx.argc ≠ 3 then
    answer (replyError (ascii "ERR wrong number of arguments for 'config|get' command"))
  else do
    let env ← Prog.env
    let pattern ← arg ctx 2
    let found := (configItems env.cfg).filter fun item => env.libc.fnmatch pattern item.1
    reply (replyArray (found.length * 2))
    answer (found.flatMap fun item => replyBulkCstr item.1 ++ replyBulkCstr item.2)

/-! ## The table -/

inductive CommandKind where
  | normal
  | multi
  | exec
  | discard
  deriving DecidableEq, Repr

/-- An entry of the table; `arity > 0` is an exact number of arguments, `arity < 0` a least one. -/
structure CommandSpec (D : Type) where
  name : Bytes
  arity : Int
  proc : Option (CommandCtx → Cmd D CmdStatus)
  kind : CommandKind

def commandTable : List (CommandSpec D) := [
  ⟨ascii "ping", -1, some cmdPing, .normal⟩,
  ⟨ascii "echo", 2, some cmdEcho, .normal⟩,
  ⟨ascii "config", -2, some cmdConfig, .normal⟩,
  ⟨ascii "keys", 2, some cmdKeys, .normal⟩,
  ⟨ascii "set", -3, some cmdSet, .normal⟩,
  ⟨ascii "get", 2, some cmdGet, .normal⟩,
  ⟨ascii "incr", 2, some cmdIncr, .normal⟩,
  ⟨ascii "decr", 2, some cmdDecr, .normal⟩,
  ⟨ascii "incrby", 3, some cmdIncrby, .normal⟩,
  ⟨ascii "decrby", 3, some cmdDecrby, .normal⟩,
  ⟨ascii "del", -2, some cmdDel, .normal⟩,
  ⟨ascii "exists", -2, some cmdExists, .normal⟩,
  ⟨ascii "type", 2, some cmdType, .normal⟩,
  ⟨ascii "ttl", 2, some cmdTtl, .normal⟩,
  ⟨ascii "pttl", 2, some cmdPttl, .normal⟩,
  ⟨ascii "lpush", -3, some cmdLpush, .normal⟩,
  ⟨ascii "rpush", -3, some cmdRpush, .normal⟩,
  ⟨ascii "lpop", 2, some cmdLpop, .normal⟩,
  ⟨ascii "rpop", 2, some cmdRpop, .normal⟩,
  ⟨ascii "llen", 2, some cmdLlen, .normal⟩,
  ⟨ascii "lrange", 4, some cmdLrange, .normal⟩,
  ⟨ascii "blpop", -3, some cmdBlpop, .normal⟩,
  ⟨ascii "hset", -4, some cmdHset, .normal⟩,
  ⟨ascii "hget", 3, some cmdHget, .normal⟩,
  ⟨ascii "hgetall", 2, some cmdHgetall, .normal⟩,
  ⟨ascii "hmget", -3, some cmdHmget, .normal⟩,
  ⟨ascii "hdel", -3, some cmdHdel, .normal⟩,
  ⟨ascii "hlen", 2, some cmdHlen, .normal⟩,
  ⟨ascii "zadd", -4, some cmdZadd, .normal⟩,
  ⟨ascii "zrange", -4, some cmdZrange, .normal⟩,
  ⟨ascii "zrangebyscore", 4, some cmdZrangebyscore, .normal⟩,
  ⟨ascii "zrank", 3, some cmdZrank, .normal⟩,
  ⟨ascii "zcard", 2, some cmdZcard, .normal⟩,
  ⟨ascii "zscore", 3, some cmdZscore, .normal⟩,
  ⟨ascii "geoadd", -5, some cmdGeoadd, .normal⟩,
  ⟨ascii "geodist", -4, some cmdGeodist, .normal⟩,
  ⟨ascii "geopos", -3, some cmdGeopos, .normal⟩,
  ⟨ascii "xadd", -5, some cmdXadd, .normal⟩,
  ⟨ascii "xrange", 4, some cmdXrange, .normal⟩,
  ⟨ascii "xread", -4, some cmdXread, .normal⟩,
  ⟨ascii "multi", 1, none, .multi⟩,
  ⟨ascii "exec", 1, none, .exec⟩,
  ⟨ascii "discard", 1, none, .discard⟩]

/-! ## Lookup -/

def lookupSize : ℕ := 128

def maxCommandName : ℕ := 32

def nameHash (s : Bytes) : UInt32 := s.foldl (fun h c => (h ^^^ c.toUInt32) * 16777619) 2166136261

/-- The slot a name is looked for first. -/
def nameSlot (s : Bytes) : ℕ := (nameHash s).toNat &&& (lookupSize - 1)

def nextSlot (slot : ℕ) : ℕ := (slot + 1) &&& (lookupSize - 1)

/-- The pointer in a slot; a pointer to `command_table[i]` is the index `i`. -/
def slotAt (slots : List (Option ℕ)) (slot : ℕ) : Option ℕ := slots[slot]?.join

/-- The search of `build_lookup` for a free slot, over at most `n` slots. -/
def freeSlot (slots : List (Option ℕ)) : ℕ → ℕ → ℕ
  | 0, slot => slot
  | n + 1, slot => if (slotAt slots slot).isSome then freeSlot slots n (nextSlot slot) else slot

/-- The slots after `build_lookup` has put the entries with these names into them. -/
def buildLookup (names : List Bytes) : List (Option ℕ) :=
  names.zipIdx.foldl (fun slots (name, i) => slots.set (freeSlot slots lookupSize (nameSlot name)) (some i))
    (List.replicate lookupSize none)

/-- The search of `command_lookup` for a name, over at most `n` slots. -/
def probe (names : List Bytes) (slots : List (Option ℕ)) (lower : Bytes) : ℕ → ℕ → Option ℕ
  | 0, _ => none
  | n + 1, slot =>
    match slotAt slots slot with
    | none => none
    | some i => if names[i]? = some lower then some i else probe names slots lower n (nextSlot slot)

/-- The index of the entry that `command_lookup` finds. -/
def lookupIndex (names : List Bytes) (name : Bytes) : Option ℕ :=
  if name.length + 1 > maxCommandName then none
  else probe names (buildLookup names) (name.map toLower) lookupSize (nameSlot (name.map toLower))

def commandLookup (name : Bytes) : Option (CommandSpec D) :=
  (lookupIndex (commandTable.map (CommandSpec.name (D := D))) name).bind (commandTable[·]?)

def arityOk (spec : CommandSpec D) (argc : ℕ) : Bool :=
  if spec.arity > 0 then argc == spec.arity.toNat else decide (argc ≥ (-spec.arity).toNat)

/-! ## The entry found -/

section Lookup

theorem probe_some {names : List Bytes} {slots : List (Option ℕ)} {lower : Bytes} {i : ℕ} :
    ∀ {n slot : ℕ}, probe names slots lower n slot = some i → names[i]? = some lower
  | 0, _, h => by cases h
  | n + 1, slot, h => by
    rw [probe] at h
    cases hs : slotAt slots slot with
    | none => rw [hs] at h; cases h
    | some j =>
      rw [hs] at h
      simp only at h
      by_cases hj : names[j]? = some lower
      · rw [if_pos hj] at h
        cases h
        exact hj
      · rw [if_neg hj] at h
        exact probe_some h

theorem commandLookup_some {name : Bytes} {spec : CommandSpec D} (h : commandLookup name = some spec) :
    spec ∈ commandTable ∧ spec.name = name.map toLower := by
  obtain ⟨i, hi, hspec⟩ := Option.bind_eq_some_iff.mp h
  refine ⟨List.mem_of_getElem? hspec, ?_⟩
  unfold lookupIndex at hi
  split at hi
  · cases hi
  · have hname := probe_some hi
    rw [List.getElem?_map, hspec] at hname
    exact Option.some.inj hname

def commandNames : List Bytes := commandTable.map (CommandSpec.name (D := ℕ))

theorem commandTable_names : commandTable.map (CommandSpec.name (D := D)) = commandNames := rfl

theorem commandLookup_name {spec : CommandSpec D} (h : spec ∈ commandTable) :
    commandLookup spec.name = some spec := by
  have hall : ∀ i < commandNames.length, ∀ name ∈ commandNames[i]?, lookupIndex commandNames name =
      some i := by
    decide +kernel
  obtain ⟨i, hi, hspec⟩ := List.getElem_of_mem h
  have hname : commandNames[i]? = some spec.name := by
    rw [← commandTable_names (D := D), List.getElem?_map, List.getElem?_eq_getElem hi, hspec]
    rfl
  have hlt : i < commandNames.length := by
    rw [← commandTable_names (D := D), List.length_map]
    exact hi
  rw [commandLookup, commandTable_names, hall i hlt _ hname]
  exact (List.getElem?_eq_getElem hi).trans (congrArg some hspec)

theorem commandTable_eq {spec spec' : CommandSpec D} (h : spec ∈ commandTable) (h' : spec' ∈ commandTable)
    (hname : spec.name = spec'.name) : spec = spec' := by
  have hfound := commandLookup_name h
  rw [hname, commandLookup_name h'] at hfound
  exact (Option.some.inj hfound).symm

omit [LinearOrder D] in
theorem arityOk_le {spec : CommandSpec D} {argc : ℕ} (h : arityOk spec argc = true) :
    spec.arity.natAbs ≤ argc := by
  unfold arityOk at h
  split at h
  · have := beq_iff_eq.mp h
    omega
  · have := of_decide_eq_true h
    omega

end Lookup

/-! ## Guarantees -/

section Serving
variable {ctx : CommandCtx} {e : Env D} {s : Sess D}

omit [LinearOrder D] in
theorem wp_payload (hc : ctx.req.Clean) {i : ℕ} (hi : i < ctx.argc) {Q : Bytes × ℕ → Sess D → Prop} :
    wp (payload ctx i) e s Q ↔ Q (ctx.argv i, (ctx.argv i).length) s := by
  have hi' : i < ctx.req.elements.length := hi
  obtain ⟨str, hstr, -, hlen⟩ := hc _ (List.getElem_mem hi')
  rw [payload, wp_bind, wp_element hi', hstr, CommandCtx.argv, List.getElem?_eq_getElem hi',
    Option.bind_some, hstr]
  simp only [hlen]
  exact wp_pure _

theorem cmdPing_serving : Serving 1 (cmdPing (D := D)) := by
  intro ctx e s hc hn hv
  have h := Quiet.start (e := e) hv
  unfold cmdPing
  split
  · exact h.toRan.simple (by decide) (by decide)
  · split
    · rw [wp_bind, wp_payload hc (by omega)]
      exact h.toRan.bulk fun hl => hl.arg 1
    · exact h.error _ (by decide)

theorem cmdEcho_serving : Serving 2 (cmdEcho (D := D)) := by
  intro ctx e s hc hn hv
  unfold cmdEcho
  rw [wp_bind, wp_payload hc (by omega)]
  exact (Quiet.start (e := e) hv).toRan.bulk fun hl => hl.arg 1

theorem configItems_fit {cfg : Config} (h : cfg.Fits) {item : Bytes × Bytes}
    (hitem : item ∈ configItems cfg) :
    item.1.length ≤ respMaxBulkLen ∧ item.2.length ≤ respMaxBulkLen := by
  have hnum : ∀ n : Int, ((decInt n).take 15).length ≤ respMaxBulkLen :=
    fun n => (List.length_take_le 15 _).trans (by decide)
  have hnames : ∀ name ∈ [ascii "port", ascii "hz", ascii "bind", ascii "loglevel", ascii "dir",
    ascii "dbfilename"],
      name.length ≤ respMaxBulkLen := by decide
  obtain ⟨hbind, hlog, hdir, hfile⟩ := h
  refine ⟨hnames item.1 (List.mem_map_of_mem (f := Prod.fst) hitem), ?_⟩
  simp only [configItems, List.mem_cons, List.not_mem_nil, or_false] at hitem
  rcases hitem with rfl | rfl | rfl | rfl | rfl | rfl
  · exact hnum _
  · exact hnum _
  · exact hbind
  · exact hlog
  · exact hdir
  · exact hfile

theorem cmdConfig_serving : Serving 2 (cmdConfig (D := D)) := by
  intro ctx e s hc hn hv
  have h := Quiet.start (e := e) hv
  unfold cmdConfig
  rw [wp_bind, wp_arg hc (by omega)]
  split
  · exact h.errorf _
  split
  · exact h.error _ (by decide)
  rw [wp_bind, wp_env, wp_bind, wp_arg hc (by omega)]
  simp only
  let found := (configItems e.cfg).filter fun item => e.libc.fnmatch (ctx.argv 2) item.1
  have hl := (h.listing ctx (found.length * 2)).items (Reply.WFs_bulks _)
    (replyBulkPairs_eq Prod.fst Prod.snd found)
    fun hl => pairs_within fun item hitem => configItems_fit hl.cfg (List.mem_of_mem_filter hitem)
  rw [Nat.zero_add, List.length_map, length_pairs] at hl
  rw [wp_bind, wp_reply]
  refine hl.done fun _ => ?_
  have hle : found.length ≤ 6 := List.length_filter_le _ _
  have htwelve : 12 ≤ respMaxArrayLen := by decide
  omega

theorem Serving.mono {m n : ℕ} {proc : CommandCtx → Cmd D CmdStatus} (h : Serving m proc) (hmn : m ≤ n) :
    Serving n proc :=
  fun ctx e s hc hn hv => h ctx e s hc (hmn.trans hn) hv

/-- Every command of kind `KIND_NORMAL` has a handler that keeps its guarantee, and its reply is
within the limits if all that it can write is. -/
theorem commandTable_serving : ∀ spec ∈ commandTable (D := D), spec.kind = .normal →
    ∃ proc, spec.proc = some proc ∧ Serving spec.arity.natAbs proc := by
  simp only [commandTable, List.forall_mem_cons, List.not_mem_nil, false_imp_iff, implies_true, and_true]
  refine ⟨fun _ => ⟨_, rfl, cmdPing_serving⟩, fun _ => ⟨_, rfl, cmdEcho_serving⟩,
    fun _ => ⟨_, rfl, cmdConfig_serving⟩, fun _ => ⟨_, rfl, cmdKeys_serving⟩,
      fun _ => ⟨_, rfl, cmdSet_serving⟩,
    fun _ => ⟨_, rfl, cmdGet_serving⟩, fun _ => ⟨_, rfl, cmdIncr_serving⟩, fun _ => ⟨_, rfl, cmdDecr_serving⟩,
    fun _ => ⟨_, rfl, cmdIncrby_serving⟩, fun _ => ⟨_, rfl, cmdDecrby_serving⟩,
    fun _ => ⟨_, rfl, (countKeys_serving .del).mono (by decide)⟩,
    fun _ => ⟨_, rfl, (countKeys_serving .exists).mono (by decide)⟩, fun _ => ⟨_, rfl, cmdType_serving⟩,
    fun _ => ⟨_, rfl, ttlCommon_serving false⟩, fun _ => ⟨_, rfl, ttlCommon_serving true⟩,
    fun _ => ⟨_, rfl, (pushCommon_serving true).mono (by decide)⟩,
    fun _ => ⟨_, rfl, (pushCommon_serving false).mono (by decide)⟩, fun _ => ⟨_, rfl, popCommon_serving true⟩,
    fun _ => ⟨_, rfl, popCommon_serving false⟩, fun _ => ⟨_, rfl, cmdLlen_serving⟩,
    fun _ => ⟨_, rfl, cmdLrange_serving⟩, fun _ => ⟨_, rfl, cmdBlpop_serving⟩,
      fun _ => ⟨_, rfl, cmdHset_serving⟩,
    fun _ => ⟨_, rfl, cmdHget_serving⟩, fun _ => ⟨_, rfl, cmdHgetall_serving⟩,
      fun _ => ⟨_, rfl, cmdHmget_serving⟩,
    fun _ => ⟨_, rfl, cmdHdel_serving⟩, fun _ => ⟨_, rfl, cmdHlen_serving⟩,
      fun _ => ⟨_, rfl, cmdZadd_serving⟩,
    fun _ => ⟨_, rfl, cmdZrange_serving⟩, fun _ => ⟨_, rfl, cmdZrangebyscore_serving⟩,
    fun _ => ⟨_, rfl, cmdZrank_serving⟩, fun _ => ⟨_, rfl, cmdZcard_serving⟩,
      fun _ => ⟨_, rfl, cmdZscore_serving⟩,
    fun _ => ⟨_, rfl, cmdGeoadd_serving⟩, fun _ => ⟨_, rfl, cmdGeodist_serving⟩,
    fun _ => ⟨_, rfl, cmdGeopos_serving⟩, fun _ => ⟨_, rfl, cmdXadd_serving⟩,
      fun _ => ⟨_, rfl, cmdXrange_serving⟩,
    fun _ => ⟨_, rfl, cmdXread_serving⟩, (nomatch ·), (nomatch ·), (nomatch ·)⟩

end Serving
end PulseDB
