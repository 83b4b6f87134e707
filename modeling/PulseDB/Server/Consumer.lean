import PulseDB.Cmd.StreamLog
import PulseDB.Lib.Log
import PulseDB.Server.Delivery

/-!
# A consumer of a stream

A consumer polls a stream with `XREAD`, from the ID `0` on and then from the last ID it received, while other
clients add entries with `XADD`.

* `Execution.added`, `Execution.entries` : the entry a call has added, and the entries in its reply;
* `Consumer`, `Consumes k` : a consumer of the stream `k` over a sequence of calls, some of which are its own;
* `Tracks k store c` : the consumer has been given the first entries of the stream; every call keeps this;
* `xread_exactly_once` : in every run it has received a prefix of the entries added, and each poll makes
  progress.
-/

namespace PulseDB
open Lib Lib.Prog

variable {D : Type} [LinearOrder D]

/-! ## The calls as operations on a log -/

/-- The entry that a call has added to the stream `k`. -/
def Execution.added (k : Bytes) (x : Execution) : List (Bytes × List Bytes) :=
  if x.req.name.map toLower = ascii "xadd" then xaddEntry k x.req.args x.reply else []

/-- The entries in the reply of a call. -/
def Execution.entries (x : Execution) : List (Bytes × List Bytes) := (x.reply.map Reply.entries).getD []

/-- The call is one of `XREAD` for the stream `k` after the ID `cursor`. -/
def Execution.Polls (x : Execution) (k cursor : Bytes) : Prop :=
  x.req.name.map toLower = ascii "xread" ∧ PulseDB.Polls k cursor x.req.args

section Calls
variable {e : Env D} {canBlock timedOut : Bool} {s s' : Sess D} {x : Execution} {k : Bytes}

/-- A call that does not overwrite a key appends to its stream the entry that the reply tells. -/
theorem Runs.appends (hv : s.store.Valid) (h : Runs e canBlock timedOut s x s') :
    s'.store.Valid ∧ ∀ k, ¬ x.Overwrites k → ∃ more : List StreamEntry,
      streamEntries (s'.store.cells k) = streamEntries (s.store.cells k) ++ more ∧
      more.map StreamEntry.text = x.added k := by
  by_cases hadd : x.req.name.map toLower = ascii "xadd"
  · have hadded : ∀ k, x.added k = xaddEntry k x.req.args x.reply := fun k => if_pos hadd
    simp only [hadded]
    refine h.told (Q := fun o s' => ∀ k, ¬ x.Overwrites k → ∃ more : List StreamEntry,
      streamEntries (s'.store.cells k) = streamEntries (s.store.cells k) ++ more ∧
      more.map StreamEntry.text = xaddEntry k x.req.args o) hv
        fun spec proc hmem hkind hname hproc hclean harity => ?_
    obtain rfl := commandTable_eq hmem (List.mem_of_getElem? (i := 37) rfl) (hname.trans hadd)
    cases hproc
    refine wp_mono (cmdXadd_appends hclean harity hv) fun st s' ⟨v, hwrote, hgrew⟩ => ?_
    exact ⟨some v, hwrote, fun k _ => hgrew k⟩
  · have hadded : ∀ k, x.added k = [] := fun k => if_neg hadd
    simp only [hadded]
    refine h.told (Q := fun o s' => ∀ k, ¬ x.Overwrites k → ∃ more : List StreamEntry,
      streamEntries (s'.store.cells k) = streamEntries (s.store.cells k) ++ more ∧
      more.map StreamEntry.text = []) hv fun spec proc hmem hkind hname hproc hclean harity => ?_
    have hw : spec.name ∉ writers .stream := fun hmem => hadd (hname.symm.trans (List.mem_singleton.mp hmem))
    obtain ⟨proc₁, hproc₁, hserving⟩ := commandTable_serving spec hmem hkind
    obtain ⟨proc₂, hproc₂, hleaves⟩ := commandTable_leaves (streamPart D) spec hmem hkind hw
    obtain rfl : proc = proc₁ := Option.some.inj (hproc.symm.trans hproc₁)
    obtain rfl : proc = proc₂ := Option.some.inj (hproc.symm.trans hproc₂)
    rw [hname] at hleaves
    have hctx : (⟨x.req, canBlock, timedOut⟩ : CommandCtx).req.Clean := hclean
    refine wp_mono ((hleaves _ hctx).wrote hserving hclean harity hv) fun st s' ⟨o, ho, hsame⟩ => ?_
    refine ⟨o, ho, fun k hk => ⟨[], ?_, rfl⟩⟩
    rw [List.append_nil]
    exact hsame k hk

/-- A poll returns the entries after the ID, up to a limit that is not negative. -/
theorem Runs.polled {cursor : Bytes} {id : StreamId} (hv : s.store.Valid)
    (h : Runs e canBlock timedOut s x s') (hp : x.Polls k cursor) (hid : streamIdParse cursor 0 = some id) :
    ∃ limit, 0 ≤ limit ∧ x.entries = (xreadBatch limit (streamEntries (s.store.cells k)) id).map
      StreamEntry.text := by
  refine (h.told (Q := fun o _ => ∃ limit, 0 ≤ limit ∧ (o.map Reply.entries).getD [] =
    (xreadBatch limit (streamEntries (s.store.cells k)) id).map StreamEntry.text) hv
    fun spec proc hmem hkind hname hproc hclean harity => ?_).2
  obtain rfl := commandTable_eq hmem (List.mem_of_getElem? (i := 39) rfl) (hname.trans hp.1)
  cases hproc
  refine wp_mono (cmdXread_polls hclean hp.2 hid hv) fun st s' ⟨v, limit, hlimit, hwrote, hentries⟩ => ?_
  exact ⟨some v, hwrote, limit, hlimit, hentries⟩

end Calls

/-! ## The consumer -/

/-- Where a consumer reads on, and the entries it has received. -/
structure Consumer where
  cursor : Bytes
  received : List (Bytes × List Bytes)

/-- It keeps the entries of a reply, and reads on from the last one. -/
def Consumer.receive (c : Consumer) (es : List (Bytes × List Bytes)) : Consumer :=
  ⟨(es.getLast?.map Prod.fst).getD c.cursor, c.received ++ es⟩

/-- A call, marked if the consumer makes it: then it is a poll from where the consumer reads on. -/
inductive Consumes (k : Bytes) : Consumer → Bool × Execution → Consumer → Prop
  | other {c : Consumer} {x : Execution} : Consumes k c (false, x) c
  | poll {c : Consumer} {x : Execution} (hpoll : x.Polls k c.cursor) :
    Consumes k c (true, x) (c.receive x.entries)

instance : IsStrictOrder StreamId StreamId.Lt where
  irrefl a h := by
    rcases h with h | ⟨-, h⟩
    · exact UInt64.lt_irrefl _ h
    · exact UInt64.lt_irrefl _ h
  trans _ _ _ := StreamId.Lt.trans

theorem Store.Valid.streamEntries_sorted {store : Store D} (hv : store.Valid) (k : Bytes) :
    (streamEntries (store.cells k)).Pairwise (fun a b => a.id.Lt b.id) ∧
      ∀ entry ∈ streamEntries (store.cells k), StreamId.Lt ⟨0, 0⟩ entry.id := by
  cases hcell : store.cells k with
  | none => exact ⟨.nil, fun _ h => absurd h List.not_mem_nil⟩
  | some c =>
    have hinv := (hv.cells k c hcell).value
    obtain ⟨v, t⟩ := c
    cases v with
    | stream stream =>
      refine ⟨hinv.1.increasing, fun entry hmem => ?_⟩
      exact StreamId.zero_lt (hinv.1.nonzero entry hmem)
    | _ => exact ⟨.nil, fun _ h => absurd h List.not_mem_nil⟩

/-- The consumer has been given the first entries of the stream, and its cursor names the last of them. -/
def Tracks (k : Bytes) (store : Store D) (c : Consumer) : Prop :=
  ∃ (id : StreamId) (seen rest : List StreamEntry), ReadTo StreamId.Lt StreamEntry.id ⟨0, 0⟩ id seen rest ∧
    streamEntries (store.cells k) = seen ++ rest ∧ streamIdParse c.cursor 0 = some id ∧
    c.received = seen.map StreamEntry.text

section Tracks
variable {e : Env D} {store store' : Store D} {x : Execution} {k : Bytes} {c : Consumer}

/-- The entries of a batch are the first that the consumer has not been given. -/
theorem xreadBatch_eq {id : StreamId} {seen rest : List StreamEntry} {limit : Int}
    (h : ReadTo StreamId.Lt StreamEntry.id ⟨0, 0⟩ id seen rest) :
    xreadBatch limit (seen ++ rest) id = rest.take (xreadCount limit rest) := by
  have hunread := h.unread (p := fun e => decide (streamIdCmp e.id id ≤ 0)) fun e => by
    rw [decide_eq_true_iff, ← streamIdCmp_pos, not_lt]
  rw [xreadBatch, hunread]

theorem Tracks.start {start : Bytes} (hv : store.Valid) (hstart : streamIdParse start 0 = some ⟨0, 0⟩) :
    Tracks k store ⟨start, []⟩ := by
  obtain ⟨hsorted, habove⟩ := hv.streamEntries_sorted k
  exact ⟨⟨0, 0⟩, [], _, .start hsorted habove, rfl, hstart, rfl⟩

omit [LinearOrder D] in
theorem Tracks.received_prefix (h : Tracks k store c) :
    c.received <+: (streamEntries (store.cells k)).map StreamEntry.text := by
  obtain ⟨id, seen, rest, -, hlog, -, hreceived⟩ := h
  rw [hlog, hreceived, List.map_append]
  exact List.prefix_append _ _

omit [LinearOrder D] in
theorem Tracks.received_nodup (h : Tracks k store c) : (c.received.map Prod.fst).Nodup := by
  obtain ⟨id, seen, rest, hread, -, -, hreceived⟩ := h
  rw [hreceived, List.map_map, List.nodup_iff_pairwise_ne, List.pairwise_map]
  refine (List.pairwise_append.mp hread.sorted).1.imp fun {a b} hlt heq => ?_
  rw [show a.id = b.id from streamIdText_inj heq] at hlt
  exact irrefl_of StreamId.Lt _ hlt

theorem Tracks.extend {more : List StreamEntry} (h : Tracks k store c) (hv : store'.Valid)
    (hmore : streamEntries (store'.cells k) = streamEntries (store.cells k) ++ more) : Tracks k store' c := by
  obtain ⟨id, seen, rest, hread, hlog, hcursor, hreceived⟩ := h
  obtain ⟨hsorted, habove⟩ := hv.streamEntries_sorted k
  rw [hmore, hlog] at hsorted habove
  refine ⟨id, seen, rest ++ more, hread.extend hsorted fun a ha => habove a (List.mem_append_right _ ha),
    ?_, hcursor, hreceived⟩
  rw [hmore, hlog, List.append_assoc]

/-- A poll gives the consumer the next entries, at least one if there are any. -/
theorem Tracks.poll (h : Tracks k store c) (hv : store.Valid) (hx : Serves e store x store')
    (hp : x.Polls k c.cursor) :
    Tracks k store (c.receive x.entries) ∧
      (c.received ≠ (streamEntries (store.cells k)).map StreamEntry.text → x.entries ≠ []) := by
  obtain ⟨id, seen, rest, hread, hlog, hcursor, hreceived⟩ := h
  obtain ⟨canBlock, timedOut, s, s', rfl, rfl, hruns⟩ := hx
  obtain ⟨limit, hlimit, hentries⟩ := hruns.polled hv hp hcursor
  rw [hlog, xreadBatch_eq hread] at hentries
  have hsplit : rest.take (xreadCount limit rest) ++ rest.drop (xreadCount limit rest) = rest :=
    List.take_append_drop _ _
  refine ⟨⟨((rest.take (xreadCount limit rest)).getLast?.map StreamEntry.id).getD id,
    seen ++ rest.take (xreadCount limit rest), rest.drop (xreadCount limit rest), ?_, ?_, ?_, ?_⟩,
      fun hne => ?_⟩
  · refine ReadTo.advance ?_
    rwa [hsplit]
  · rw [List.append_assoc, hsplit, hlog]
  · rw [Consumer.receive, hentries, List.getLast?_map]
    cases (rest.take (xreadCount limit rest)).getLast? with
    | none => exact hcursor
    | some last => exact streamIdParse_text last.id 0
  · rw [Consumer.receive, hentries, hreceived, List.map_append]
  · rw [hentries]
    refine fun hnil => hne ?_
    have hrest : rest = [] := xreadCount_pos hlimit (List.map_eq_nil_iff.mp hnil)
    rw [hlog, hreceived, hrest, List.append_nil]

theorem Tracks.step {c' : Consumer} {m : Bool} (h : Tracks k store c) (hv : store.Valid)
    (hx : Serves e store x store') (hk : ¬ x.Overwrites k) (hc : Consumes k c (m, x) c') :
    store'.Valid ∧ Tracks k store' c' ∧ (streamEntries (store'.cells k)).map StreamEntry.text =
      (streamEntries (store.cells k)).map StreamEntry.text ++ x.added k := by
  have hx' := hx
  obtain ⟨canBlock, timedOut, s, s', rfl, rfl, hruns⟩ := hx'
  obtain ⟨hv', hgrew⟩ := hruns.appends hv
  obtain ⟨more, hmore, htexts⟩ := hgrew k hk
  refine ⟨hv', ?_, by rw [hmore, List.map_append, htexts]⟩
  cases hc with
  | other => exact h.extend hv' hmore
  | poll hp => exact (h.poll hv hx hp).1.extend hv' hmore

end Tracks

theorem consumer_tracks {e : Env D} {store : Store D} {k start : Bytes} (hv : store.Valid)
    (hstart : streamIdParse start 0 = some ⟨0, 0⟩) {xs : List (Bool × Execution)} {c : Consumer}
    (hc : Run (Consumes k) ⟨start, []⟩ xs c) : ∀ {store' : Store D}, Run (Serves e) store
      (xs.map Prod.snd) store' →
      (∀ x ∈ xs.map Prod.snd, ¬ x.Overwrites k) → store'.Valid ∧ Tracks k store' c ∧
        (streamEntries (store'.cells k)).map StreamEntry.text =
          (streamEntries (store.cells k)).map StreamEntry.text ++ xs.flatMap fun x => x.2.added k := by
  induction hc with
  | nil =>
    intro store' hserves _
    obtain rfl := hserves.eq_of_nil
    exact ⟨hv, .start hv hstart, (List.append_nil _).symm⟩
  | @snoc c₁ c₂ xs x _ hx ih =>
    intro store' hserves hk
    rw [List.map_append] at hserves hk
    obtain ⟨t, t', hbefore, hstep, hafter⟩ := hserves.split
    obtain rfl := hafter.eq_of_nil
    obtain ⟨hv₁, htracks₁, htexts₁⟩ := ih hbefore fun x hx => hk x (List.mem_append_left _ hx)
    obtain ⟨hv₂, htracks₂, htexts₂⟩ :=
      htracks₁.step hv₁ hstep (hk x.2 (List.mem_append_right _ (List.mem_singleton_self _))) hx
    refine ⟨hv₂, htracks₂, ?_⟩
    rw [htexts₂, htexts₁, List.flatMap_append, List.flatMap_singleton, List.append_assoc]

/-- Every run of the event loop is a run of moves with its traffic. In every run of moves, for a key that no
call of `DEL` or `SET` touches, and a consumer that polls its stream from the ID `0` on and then from the last ID it received:
after any of the calls, the entries it has received are the first of those in the stream at the start and
added since, no ID among them twice; and a poll made when there are others returns at least one of these. -/
theorem xread_exactly_once (e : Env D) {store : Store D} (hstore : store.Reachable) {start : Bytes}
    (hstart : streamIdParse start 0 = some ⟨0, 0⟩) :
    (∀ polls l, serverRun polls e (.start store) = .ok ((), l) → ∃ evs, Run (Moves e) (.start store) evs l ∧
      ∀ i, traffic i evs = serverTraffic e polls (.start store) i) ∧
    ∀ evs l, Run (Moves e) (.start store) evs l → ∀ k : Bytes, (∀ x ∈ calls evs, ¬ x.Overwrites k) →
      ∀ (xs : List (Bool × Execution)) (c : Consumer), xs.map Prod.snd <+: calls evs →
        Run (Consumes k) ⟨start, []⟩ xs c →
        let added := (streamEntries (store.cells k)).map StreamEntry.text ++ xs.flatMap fun x => x.2.added k
        c.received <+: added ∧ (c.received.map Prod.fst).Nodup ∧
        ∀ x, xs.map Prod.snd ++ [x] <+: calls evs → x.Polls k c.cursor → c.received ≠ added →
          x.entries ≠ [] ∧ c.received ++ x.entries <+: added := by
  have hinv := EventLoop.inv_start hstore.valid
  refine ⟨fun polls l hrun => serverRun_moves hinv hrun, fun evs l hrun k hk xs c hxs hc => ?_⟩
  have hserves : Run (Serves e) store (calls evs) l.store := runMoves_serves hrun
  have hkept : ∀ x ∈ xs.map Prod.snd, ¬ x.Overwrites k := fun x hx => hk x (hxs.subset hx)
  obtain ⟨t, ht⟩ := hserves.of_prefix hxs
  obtain ⟨-, htracks, htexts⟩ := consumer_tracks hstore.valid hstart hc ht hkept
  refine ⟨htexts ▸ htracks.received_prefix, htracks.received_nodup, fun x hx hp hne => ?_⟩
  -- the store that the poll finds
  obtain ⟨t', ht'⟩ := hserves.of_prefix hx
  obtain ⟨t₁, t₂, hbefore, hstep, -⟩ := ht'.split
  obtain ⟨hv₁, htracks₁, htexts₁⟩ := consumer_tracks hstore.valid hstart hc hbefore hkept
  obtain ⟨hnext, hsome⟩ := htracks₁.poll hv₁ hstep hp
  rw [htexts₁] at hsome
  exact ⟨hsome hne, htexts₁ ▸ hnext.received_prefix⟩

/-- The stream has one entry when a client polls it. -/
theorem xread_exactly_once_poll :
    let e := Env.integers (fun n => n) fun n => n
    let store : Store Int :=
      ((StoreOp.streamAdd (ascii "5-1") [⟨ascii "f", ascii "v"⟩]).exec storeCreate (ascii "k") 0 0).2
    ∃ evs l x, Run (Moves e) (.start store) evs l ∧ calls evs = [x] ∧ x.Polls (ascii "k") (ascii "0") ∧
      x.entries ≠ [] ∧ x.entries <+: [(ascii "5-1", [ascii "f", ascii "v"])] := by
  intro e store
  have hstore : store.Reachable := .exec .create _ _ _ _
  have htexts : (streamEntries (store.cells (ascii "k"))).map StreamEntry.text =
      [(ascii "5-1", [ascii "f", ascii "v"])] := by decide +kernel
  let req := RespValue.request [ascii "xread", ascii "streams", ascii "k", ascii "0"]
  have hparse : respParseCommand (ascii "xread streams k 0\r\n") = .ok (req, 19) := rfl
  have hacc : Accepted (D := Int) req ⟨ascii "xread", -4, some cmdXread, .normal⟩ :=
    accepted_request (List.mem_of_getElem? (rfl : commandTable[39]? = _)) rfl (by decide)
  obtain ⟨x, s, hx, -, l₁, l₂, l, hjoin, hreceive, hrequest, -⟩ :=
    exists_first e hstore.valid hparse ⟨_, hacc, rfl⟩
  let evs : List Move :=
    [.join 0, .receive 0 (ascii "xread streams k 0\r\n"), .request 0 req x.result s.client.out [x]]
  have hrun : Run (Moves e) (.start store) evs l := .cons hjoin (.cons hreceive (.one hrequest))
  have hpolls : x.Polls (ascii "k") (ascii "0") := by
    rw [Execution.Polls, hx]
    exact ⟨by decide, .all (by decide)⟩
  have hkept : ∀ y ∈ calls evs, ¬ y.Overwrites (ascii "k") := by
    intro y hy
    have haction : x.req.action = .other := by
      rw [hx]
      decide
    rw [List.mem_singleton.mp hy, Execution.Overwrites, haction]
    exact id
  have hstart : streamIdParse (ascii "0") 0 = some ⟨0, 0⟩ := by decide
  obtain ⟨-, -, hprogress⟩ := (xread_exactly_once e hstore hstart).2 evs l hrun (ascii "k") hkept []
    ⟨ascii "0", []⟩ List.nil_prefix (.nil _)
  rw [htexts] at hprogress
  obtain ⟨hne, hprefix⟩ := hprogress x (List.prefix_refl [x]) hpolls (List.cons_ne_nil _ _).symm
  exact ⟨evs, l, x, hrun, rfl, hpolls, hne, hprefix⟩

end PulseDB
