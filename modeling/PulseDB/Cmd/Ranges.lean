import PulseDB.Cmd.ZSet
import PulseDB.Cmd.Queue
import PulseDB.Cmd.StreamText
import PulseDB.Lib.Interval

/-!
# Range reads

What the commands that read a part of a list, a sorted set or a stream return, element by element.

* `wp_read` : the rule for reading a value of one type; `Wrote.listed` : an array has been written;
* `indexRange` : the elements between two indexes, negative ones counting from the end; `index_ranges` :
  `LRANGE` and `ZRANGE` return them;
* `zset_queries` : ranks and scores, and `ZRANGEBYSCORE`, agree with the order of the array;
* `RangeBound` : the bounds that `XRANGE` accepts; `xrange_exact` : it returns the entries between them.
-/

namespace PulseDB
open Lib Lib.Prog

variable {D : Type} [LinearOrder D] {e : Env D} {s s₁ : Sess D} {ctx : CommandCtx}

/-! ## Reading a value, writing an array -/

/-- A value other than a string does not expire, so it is read whenever the key holds it. -/
theorem wp_read {A : Type} {op : StoreOp D (Except StoreStatus A)} {as : Value D → Option A} {t : StoreType}
    {key : Bytes} {Q : Except StoreStatus A → Sess D → Prop} (hv : s.store.Valid)
    (hop : ∀ now' o, op.step now' o = Cell.inspect as some o) (has : ∀ v, (as v).isSome ↔ v.type = t)
    (ht : t ≠ .string) (hty : OfType t (s.store.cells key))
    (habsent : ∀ s', s'.client = s.client → s.store.cells key = none → Q (.error .notFound) s')
    (hpresent : ∀ a v s', s'.client = s.client → s.store.cells key = some ⟨v, 0⟩ → v.Inv → as v = some a →
      Q (.ok a) s') :
    wp (call op key) e s Q := by
  refine wp_call hv fun r s' hcall => ?_
  have hresult := hcall.result
  rw [hop] at hresult
  cases hcell : s.store.cells key with
  | none =>
    rw [hcell] at hresult
    rw [hresult]
    exact habsent s' hcall.client hcell
  | some c =>
    obtain ⟨v, x⟩ := c
    have htype : v.type = t := hty _ hcell
    have hinv := hv.cells key _ hcell
    obtain rfl : x = 0 := hinv.expiry (htype ▸ ht)
    obtain ⟨a, ha⟩ := Option.isSome_iff_exists.mp ((has v).mpr htype)
    have hlive : live (e.clock s.tick) (some (⟨v, 0⟩ : Cell D)) = some ⟨v, 0⟩ := rfl
    rw [hcell, hlive, Cell.inspect, Cell.read_typed ha] at hresult
    rw [hresult]
    exact hpresent a v s' hcall.client hcell hinv.value ha

omit [LinearOrder D] in
theorem Wrote.listed {vs : List Reply} {n : ℕ} (hclient : s₁.client = s.client) (hvs : Reply.WFs vs)
    (hn : vs.length = n) :
    Wrote s .done (some (.array vs)) ((s₁.wrote (replyArray n)).wrote (Reply.encs vs)) := by
  subst hn
  refine ⟨hvs, ?_⟩
  rw [Sess.wrote_append, replyArray_append, ← hclient]
  rfl

omit [LinearOrder D] in
theorem Wrote.empty (hclient : s₁.client = s.client) :
    Wrote s .done (some (.array [])) (s₁.wrote (replyArray 0)) := by
  have h : Wrote s .done (some (.array [])) ((s₁.wrote (replyArray 0)).wrote (Reply.encs [])) :=
    .listed hclient trivial rfl
  rwa [Reply.encs, Sess.wrote_nil] at h

/-! ## Index ranges -/

/-- An index, a negative one counting from the end. -/
def indexFrom (i : Int) (len : ℕ) : Int := if 0 ≤ i then i else i + len

/-- The elements from the index `start` to the index `stop`, both included. -/
def indexRange {α : Type} (start stop : Int) (xs : List α) : List α :=
  atIndexes (indexFrom start xs.length) (indexFrom stop xs.length) xs

theorem normaliseRange_none {start stop : Int} {len : ℕ} (h : normaliseRange start stop len = none) {i : ℕ}
    (hi : i < len) : ¬ (indexFrom start len ≤ i ∧ (i : Int) ≤ indexFrom stop len) := by
  unfold normaliseRange at h
  unfold indexFrom
  simp only at h
  split_ifs at h ⊢ <;> omega

theorem normaliseRange_mem {start stop : Int} {len first last : ℕ}
    (h : normaliseRange start stop len = some (first, last)) {i : ℕ} (hi : i < len) :
    (indexFrom start len ≤ i ∧ (i : Int) ≤ indexFrom stop len) ↔ (first ≤ i ∧ i < last + 1) := by
  unfold normaliseRange at h
  unfold indexFrom
  simp only at h
  split_ifs at h ⊢ <;> (cases h; omega)

theorem indexRange_none {α : Type} {start stop : Int} {xs : List α}
    (h : normaliseRange start stop xs.length = none) :
    indexRange start stop xs = [] := atIndexes_eq_nil fun _ hi => normaliseRange_none h hi

theorem indexRange_some {α : Type} {start stop : Int} {xs : List α} {first last : ℕ}
    (h : normaliseRange start stop xs.length = some (first, last)) :
    indexRange start stop xs = (xs.drop first).take (last + 1 - first) :=
  atIndexes_eq fun _ hi => normaliseRange_mem h hi

theorem indexRange_length {α : Type} {start stop : Int} {xs : List α} {first last : ℕ}
    (h : normaliseRange start stop xs.length = some (first, last)) :
    (indexRange start stop xs).length = last - first + 1 := by
  obtain ⟨hle, hlt⟩ := normaliseRange_some h
  rw [indexRange_some h, List.length_take, List.length_drop]
  omega

/-- Some operation of `normalise_range` overflows, the conversion of the length included. -/
def normaliseRangeOverflows (start stop : Int) (len : ℕ) : Bool :=
  let n : Int := len
  let stop' := if stop < 0 then stop + n else stop
  overflows64 n || (decide (start < 0) && overflows64 (start + n)) || (decide (stop < 0) && overflows64
    (stop + n)) ||
    (decide (stop' ≥ n) && overflows64 (n - 1))

/-- Some operation on the length of the reply wraps around. -/
def rangeCountWraps (first last : ℕ) (withscores : Bool) : Bool :=
  wrapsU64 ((last : Int) - first) || wrapsU64 ((last : Int) - first + 1) ||
    (withscores && wrapsU64 (((last : Int) - first + 1) * 2))

theorem normaliseRange_in_range {start stop : Int} {len : ℕ} (hlen : (len : Int) ≤ int64Max)
    (hstart : int64Min ≤ start)
    (hstop : int64Min ≤ stop) : normaliseRangeOverflows start stop len = false := by
  unfold normaliseRangeOverflows overflows64
  unfold int64Min int64Max at *
  simp only [Bool.or_eq_false_iff, Bool.and_eq_false_iff, decide_eq_false_iff_not]
  omega

theorem rangeCount_in_range {start stop : Int} {len first last : ℕ} (hlen : (len : Int) ≤ int64Max)
    (h : normaliseRange start stop len = some (first, last)) (withscores : Bool) :
    rangeCountWraps first last withscores = false := by
  obtain ⟨hle, hlt⟩ := normaliseRange_some h
  unfold rangeCountWraps wrapsU64
  unfold int64Max at hlen
  simp only [Bool.or_eq_false_iff, Bool.and_eq_false_iff, decide_eq_false_iff_not]
  omega

/-- The two indexes of a range command. -/
structure RangeArgs (ctx : CommandCtx) (start stop : Int) : Prop where
  clean : ctx.req.Clean
  start : parseInt64 (ctx.argv 2) = some start
  stop : parseInt64 (ctx.argv 3) = some stop

theorem cmdLrange_exact {start stop : Int} (ha : RangeArgs ctx start stop) (hn : 4 ≤ ctx.argc)
    (hv : s.store.Valid) (hty : OfType .list (s.store.cells (ctx.argv 1))) :
    wp (cmdLrange ctx) e s fun st s' => Wrote s st
      (some (.array ((indexRange start stop (s.store.listAt (ctx.argv 1))).map .bulk))) s' := by
  unfold cmdLrange
  rw [wp_bind, wp_arg ha.clean (by omega), ha.start]
  simp only
  rw [wp_bind, wp_arg ha.clean (by omega), ha.stop]
  simp only
  rw [wp_bind, wp_arg ha.clean (by omega), wp_bind]
  refine wp_read hv (fun _ _ => rfl) Value.asList_isSome (by decide) hty (fun s₁ hclient hcell => ?_)
    fun l v s₁ hclient hcell hinv hl => ?_
  · rw [Store.listAt, hcell]
    exact Wrote.empty hclient
  · obtain rfl := Value.eq_of_asList hl
    obtain ⟨hlen, -⟩ : l.len = l.nodes.length ∧ l.nodes ≠ [] := hinv
    rw [Store.listAt, hcell, Cell.nodes]
    simp only
    rw [hlen]
    cases hrange : normaliseRange start stop l.nodes.length with
    | none =>
      rw [indexRange_none hrange]
      exact Wrote.empty hclient
    | some r =>
      obtain ⟨first, last⟩ := r
      obtain ⟨hle, hlt⟩ := normaliseRange_some hrange
      have hcount : last - first + 1 = last + 1 - first := by omega
      simp only
      rw [wp_bind, wp_reply, wp_bind]
      refine wp_mono (replyNodes_wp (by rw [List.length_drop]; omega)) fun _ s₂ hs₂ => ?_
      subst hs₂
      rw [hcount, ← indexRange_some hrange, ← hcount]
      refine Wrote.listed hclient (Reply.WFs_bulks _) ?_
      rw [List.length_map, indexRange_length hrange]

omit [LinearOrder D] in
/-- The entries of the sorted set in a cell. -/
def zsetEntries : Option (Cell D) → List (ZSetEntry D)
  | some ⟨.zset z, _⟩ => z.entries
  | _ => []

omit [LinearOrder D] in
theorem zsetEntries_ne_nil {o : Option (Cell D)} (h : zsetEntries o ≠ []) : ∃ z x, o = some ⟨.zset z, x⟩ := by
  cases o with
  | none => exact absurd rfl h
  | some c =>
    obtain ⟨v, x⟩ := c
    cases v with
    | zset z => exact ⟨z, x, rfl⟩
    | _ => exact absurd rfl h

theorem zrangeFrom_exact {start stop : Int} (ha : RangeArgs ctx start stop) (hn : 4 ≤ ctx.argc)
    (hv : s.store.Valid) (hty : OfType .zset (s.store.cells (ctx.argv 1))) (withscores : Bool) :
    wp (zrangeFrom ctx withscores) e s fun st s' => Wrote s st (some (.array
      ((indexRange start stop (zsetEntries (s.store.cells (ctx.argv 1)))).flatMap
        (ZSetEntry.values e.libc withscores)))) s' := by
  unfold zrangeFrom
  rw [wp_bind, wp_arg ha.clean (by omega), ha.start]
  simp only
  rw [wp_bind, wp_arg ha.clean (by omega), ha.stop]
  simp only
  rw [wp_bind, wp_arg ha.clean (by omega), wp_bind]
  refine wp_read hv (fun _ _ => rfl) Value.asZset_isSome (by decide) hty (fun s₁ hclient hcell => ?_)
    fun z v s₁ hclient hcell hinv hz => ?_
  · rw [hcell]
    exact Wrote.empty hclient
  · obtain rfl := Value.eq_of_asZset hz
    have hlen : z.len = z.entries.length := hinv.1.len
    rw [hcell, zsetEntries]
    simp only
    rw [hlen]
    cases hrange : normaliseRange start stop z.entries.length with
    | none =>
      rw [indexRange_none hrange]
      exact Wrote.empty hclient
    | some r =>
      obtain ⟨first, last⟩ := r
      obtain ⟨hle, hlt⟩ := normaliseRange_some hrange
      simp only
      rw [wp_bind, wp_reply]
      refine wp_mono (replyEntries_wp withscores (by omega) (by omega)) fun st s₂ ⟨hst, hs₂⟩ => ?_
      subst hst hs₂
      rw [← indexRange_some hrange]
      refine Wrote.listed hclient (ZSetEntry.values_wf e.libc withscores _) ?_
      rw [ZSetEntry.values_length, indexRange_length hrange]

/-- `LRANGE` and `ZRANGE` return the elements between the two indexes, in order; no element beyond the end is
touched, the length that is announced is the number of the elements, and no operation overflows on a length
that fits a signed number. -/
theorem index_ranges (e : Env D) {s : Sess D} (hstore : s.store.Reachable) {ctx : CommandCtx}
    {start stop : Int} (ha : RangeArgs ctx start stop) :
    (ctx.argc = 4 → OfType .list (s.store.cells (ctx.argv 1)) →
      wp (cmdLrange ctx) e s fun st s' => Wrote s st
        (some (.array ((indexRange start stop (s.store.listAt (ctx.argv 1))).map .bulk))) s') ∧
    (OfType .zset (s.store.cells (ctx.argv 1)) →
      (ctx.argc = 4 → wp (cmdZrange ctx) e s fun st s' => Wrote s st
        (some (.array ((indexRange start stop (zsetEntries (s.store.cells (ctx.argv 1)))).flatMap
          (ZSetEntry.values e.libc false)))) s') ∧
      (ctx.argc = 5 → strcaseEq (ctx.argv 4) (ascii "WITHSCORES") = true →
        wp (cmdZrange ctx) e s fun st s' => Wrote s st
          (some (.array ((indexRange start stop (zsetEntries (s.store.cells (ctx.argv 1)))).flatMap
            (ZSetEntry.values e.libc true)))) s')) ∧
    ∀ len : ℕ, (len : Int) ≤ int64Max → normaliseRangeOverflows start stop len = false ∧
      ∀ first last withscores, normaliseRange start stop len = some (first, last) →
        rangeCountWraps first last withscores = false := by
  refine ⟨fun hn hty => cmdLrange_exact ha hn.ge hstore.valid hty,
    fun hty => ⟨fun hn => ?_, fun hn hword => ?_⟩,
    fun len hlen => ⟨?_, fun first last withscores h => rangeCount_in_range hlen h withscores⟩⟩
  · rw [cmdZrange, if_neg (by omega), if_neg (by omega)]
    exact zrangeFrom_exact ha hn.ge hstore.valid hty false
  · rw [cmdZrange, if_pos hn, wp_bind, wp_arg ha.clean (by omega), if_pos hword]
    exact zrangeFrom_exact ha (by omega) hstore.valid hty true
  · exact normaliseRange_in_range hlen (parseInt64_range ha.start).1 (parseInt64_range ha.stop).1

omit [LinearOrder D] in
theorem ofType_some {t : StoreType} {c : Cell D} {o : Option (Cell D)} (h : o = some c)
    (ht : c.value.type = t) :
    OfType t o := by
  subst h
  intro c' hc'
  cases hc'
  exact ht

/-- The last two of three elements, with a stop beyond the end. -/
theorem index_ranges_last_two :
    let e := Env.integers (fun n => n) fun n => n
    let push (s : Store Int) (value : Bytes) := ((StoreOp.listPush value false).exec s (ascii "k") 0 0).2
    let s : Sess Int :=
      { store := push (push (push storeCreate (ascii "a")) (ascii "b")) (ascii "c"), client := {} }
    let ctx : CommandCtx :=
      ⟨.request [ascii "lrange", ascii "k", ascii "-2", ascii "9223372036854775807"], false, false⟩
    wp (cmdLrange ctx) e s fun st s' =>
      Wrote s st (some (.array [.bulk (ascii "b"), .bulk (ascii "c")])) s' := by
  intro e push s ctx
  have hpush : ∀ {store : Store Int} (value : Bytes), store.Reachable → (push store value).Reachable :=
    fun _ h => h.exec _ _ _ _
  have hstore : s.store.Reachable := hpush _ (hpush _ (hpush _ .create))
  have hcell : s.store.cells (ascii "k") = some ⟨.list ⟨[ascii "a", ascii "b", ascii "c"], 3⟩, 0⟩ := by
    decide +kernel
  have hkey : ctx.argv 1 = ascii "k" := rfl
  have ha : RangeArgs ctx (-2) int64Max := ⟨RespValue.clean_request (by decide), by decide, by decide⟩
  have hrange : indexRange (-2) int64Max (s.store.listAt (ctx.argv 1)) = [ascii "b", ascii "c"] := by
    rw [Store.listAt, hkey, hcell]
    decide
  have hargc : ctx.argc = 4 := rfl
  rw [← hkey] at hcell
  clear_value e s ctx
  have h := (index_ranges e hstore ha).1 hargc (ofType_some hcell rfl)
  rwa [hrange] at h

/-! ## Sorted sets -/

/-- The loops of `cmd_zrangebyscore` find the entries with a score between the bounds. -/
theorem ZSet.Inv.between {z : ZSet D} (h : z.Inv) {min max : D} {first stop : ℕ}
    (hfirst : first ≤ z.entries.length)
    (hskip : z.entries.takeWhile (fun x => decide (x.score < min)) = z.entries.take first)
    (htake : (z.entries.drop first).takeWhile (fun x => decide (x.score ≤ max)) =
      (z.entries.drop first).take (stop - first)) :
    (z.entries.drop first).take (stop - first) = z.entries.filter fun x =>
      decide (min ≤ x.score ∧ x.score ≤ max) := by
  have hle : z.entries.Pairwise fun a b => a.score ≤ b.score := h.sorted.imp fun hab =>
    hab.elim le_of_lt fun h => h.1.le
  have hdrop : z.entries.drop first = z.entries.dropWhile fun x => decide (x.score < min) := by
    conv_lhs => rw [← List.takeWhile_append_dropWhile (p := fun x => decide (x.score < min)) (l := z.entries)]
    exact List.drop_left' (by rw [hskip, List.length_take_of_le hfirst])
  rw [← htake, hdrop, takeWhile_dropWhile_eq_filter]
  · refine List.filter_congr fun x _ => ?_
    simp only [← decide_not, not_lt, Bool.decide_and]
  · exact hle.imp fun hab hb => decide_eq_true (hab.trans_lt (of_decide_eq_true hb))
  · exact hle.imp fun hab hb => decide_eq_true (hab.trans (of_decide_eq_true hb))

theorem cmdZrangebyscore_exact {min max : D} (hc : ctx.req.Clean) (hn : 4 ≤ ctx.argc)
    (hmin : parseDouble e.libc (ctx.argv 2) = some min) (hmax : parseDouble e.libc (ctx.argv 3) = some max)
    (hv : s.store.Valid) (hty : OfType .zset (s.store.cells (ctx.argv 1))) :
    wp (cmdZrangebyscore ctx) e s fun st s' => Wrote s st (some (.array
      (((zsetEntries (s.store.cells (ctx.argv 1))).filter fun x => decide (min ≤ x.score ∧ x.score ≤ max)).map
        fun x => .bulk x.member))) s' := by
  unfold cmdZrangebyscore
  rw [wp_bind, wp_env]
  simp only
  rw [wp_bind, wp_arg hc (by omega), hmin]
  simp only
  rw [wp_bind, wp_arg hc (by omega), hmax]
  simp only
  rw [wp_bind, wp_arg hc (by omega), wp_bind]
  refine wp_read hv (fun _ _ => rfl) Value.asZset_isSome (by decide) hty (fun s₁ hclient hcell => ?_)
    fun z v s₁ hclient hcell hinv hz => ?_
  · rw [hcell]
    exact Wrote.empty hclient
  · obtain rfl := Value.eq_of_asZset hz
    have hz : z.Inv := hinv.1
    have hlen := hz.len
    rw [hcell, zsetEntries]
    simp only
    rw [wp_bind]
    refine wp_mono (skipScores_wp _ hlen (Nat.zero_le _)) fun first s₂ ⟨hs₂, _, hfirst, hskip⟩ => ?_
    subst hs₂
    rw [wp_bind]
    refine wp_mono (skipScores_wp _ hlen hfirst) fun stop s₃ ⟨hs₃, hle, hstop, htake⟩ => ?_
    subst hs₃
    rw [wp_bind, wp_reply]
    refine wp_mono (replyEntries_wp false hle (by omega)) fun st s₃ ⟨hst, hs₃⟩ => ?_
    subst hst hs₃
    have hcount : ((z.entries.drop first).take (stop - first)).length = stop - first := by
      rw [List.length_take, List.length_drop]
      omega
    rw [Nat.sub_zero, List.drop_zero] at hskip
    rw [hz.between (by omega) hskip htake] at hcount ⊢
    have hvalues : ∀ xs : List (ZSetEntry D), xs.flatMap (ZSetEntry.values e.libc false) = xs.map fun x =>
        .bulk x.member :=
      fun _ => List.map_eq_flatMap.symm
    rw [hvalues]
    refine Wrote.listed hclient ?_ ((List.length_map _).trans hcount)
    rw [← hvalues]
    exact ZSetEntry.values_wf e.libc false _

/-- Ranks, scores and score ranges of a sorted set of any reachable store, for any scores in a total order. -/
theorem zset_queries (e : Env D) {s : Sess D} (hstore : s.store.Reachable) {key : Bytes}
    {z : ZSet D} {x : Int} (hcell : s.store.cells key = some ⟨.zset z, x⟩) :
    (∀ (member : Bytes) (score : D) (now now' : Int), ⟨member, score⟩ ∈ z.entries →
      let rank := z.entries.countP fun y => decide (y.Lt ⟨member, score⟩)
      ((StoreOp.zsetRank member).exec s.store key now now').1 = .ok rank ∧
      ((StoreOp.zsetScore member).exec s.store key now now').1 = .ok score ∧
      z.entries[rank]? = some ⟨member, score⟩) ∧
    (∀ (member : Bytes) (now now' : Int),
      (((StoreOp.zsetRank member).exec s.store key now now').1 = .error .notFound ↔
        ∀ score, ⟨member, score⟩ ∉ z.entries) ∧
      (((StoreOp.zsetScore member).exec s.store key now now').1 = .error .notFound ↔
        ∀ score, ⟨member, score⟩ ∉ z.entries)) ∧
    ∀ (ctx : CommandCtx) (min max : D), ctx.req.Clean → ctx.argc = 4 → ctx.argv 1 = key →
      parseDouble e.libc (ctx.argv 2) = some min → parseDouble e.libc (ctx.argv 3) = some max →
      wp (cmdZrangebyscore ctx) e s fun st s' => Wrote s st (some (.array
        ((z.entries.filter fun y => decide (min ≤ y.score ∧ y.score ≤ max)).map fun y => .bulk y.member)))
          s' := by
  have hv := hstore.valid
  have hinv := hv.cells key _ hcell
  have hz : z.Inv := hinv.value.1
  obtain rfl : x = 0 := hinv.expiry (by simp [Value.type])
  -- the two queries look into the array of the key
  have hlook : ∀ {α : Type} (op : StoreOp D (Except StoreStatus α)) (f : ZSet D → Option α) (now now' : Int),
      (∀ o, op.step now' o = Cell.inspect Value.asZset f o) →
      (op.exec s.store key now now').1 = (f z).elim (.error .notFound) .ok := by
    intro α op f now now' hop
    rw [(exec_does hv.inv key now now' op).result, hcell, hop]
    rfl
  refine ⟨fun member score now now' hm => ?_, fun member now now' => ?_,
    fun ctx min max hc hn hkey hmin hmax => ?_⟩
  · obtain ⟨hrank, hat⟩ := hz.rank_of_mem hm
    refine ⟨?_, ?_, hat⟩
    · rw [hlook (.zsetRank member) (·.rank member) now now' fun _ => rfl, hrank]
      rfl
    · rw [hlook (.zsetScore member) (·.scoreOf member) now now' fun _ => rfl, hz.scoreOf_of_mem hm]
      rfl
  · have hnone : ∀ {β : Type} (o : Option β), o.elim (Except.error StoreStatus.notFound) Except.ok =
      .error .notFound ↔
        o = none := by
      intro β o
      cases o <;> simp
    rw [hlook (.zsetRank member) (·.rank member) now now' fun _ => rfl,
      hlook (.zsetScore member) (·.scoreOf member) now now' fun _ => rfl, hnone, hnone, ZSet.rank,
      ZSet.scoreOf, Option.map_eq_none_iff, Option.map_eq_none_iff, hz.zindexFind_eq_none]
    exact ⟨Iff.rfl, Iff.rfl⟩
  · have hexact := cmdZrangebyscore_exact hc hn.ge hmin hmax hv (ofType_some (hkey ▸ hcell) rfl)
    rwa [hkey, hcell] at hexact

/-- Two members with the same score and one with a greater score. -/
theorem zset_queries_ties :
    let e := Env.integers (fun n => n) fun n => n
    let add (s : Store Int) (score : Int) (member : Bytes) :=
      ((StoreOp.zsetAdd score member).exec s (ascii "z") 0 0).2
    let s : Sess Int :=
      { store := add (add (add storeCreate 7 (ascii "c")) 3 (ascii "b")) 3 (ascii "a"), client := {} }
    let ctx : CommandCtx := ⟨.request [ascii "zrangebyscore", ascii "z", ascii "3", ascii "3"], false, false⟩
    ((StoreOp.zsetRank (ascii "b")).exec s.store (ascii "z") 0 0).1 = .ok 1 ∧
    wp (cmdZrangebyscore ctx) e s fun st s' =>
      Wrote s st (some (.array [.bulk (ascii "a"), .bulk (ascii "b")])) s' := by
  intro e add s ctx
  have hadd : ∀ {store : Store Int} (score : Int) (member : Bytes), store.Reachable →
      (add store score member).Reachable :=
    fun _ _ h => h.exec _ _ _ _
  have hstore : s.store.Reachable := hadd _ _ (hadd _ _ (hadd _ _ .create))
  have hentries : zsetEntries (s.store.cells (ascii "z")) = [⟨ascii "a", 3⟩, ⟨ascii "b", 3⟩,
      ⟨ascii "c", 7⟩] := by
    decide +kernel
  obtain ⟨z, x, hcell⟩ := zsetEntries_ne_nil (hentries ▸ List.cons_ne_nil _ _)
  rw [hcell, zsetEntries] at hentries
  have hc : ctx.req.Clean := RespValue.clean_request (by decide)
  have hargc : ctx.argc = 4 := rfl
  have hkey : ctx.argv 1 = ascii "z" := rfl
  have hmin : parseDouble e.libc (ctx.argv 2) = some 3 := by decide
  have hmax : parseDouble e.libc (ctx.argv 3) = some 3 := by decide
  clear_value e s ctx
  obtain ⟨hrank, -, hbyscore⟩ := zset_queries e hstore hcell
  have hcount : z.entries.countP (fun y => decide (y.Lt ⟨ascii "b", 3⟩)) = 1 := by
    rw [hentries]
    decide +kernel
  have hfilter : z.entries.filter (fun y => decide (3 ≤ y.score ∧ y.score ≤ 3)) =
      [⟨ascii "a", 3⟩, ⟨ascii "b", 3⟩] := by
    rw [hentries]
    decide +kernel
  have hb := (hrank (ascii "b") 3 0 0 (by rw [hentries]; decide)).1
  have hfound := hbyscore ctx 3 3 hc hargc hkey hmin hmax
  rw [hcount] at hb
  rw [hfilter] at hfound
  exact ⟨hb, hfound⟩

/-! ## Streams -/

/-- A bound of `XRANGE`: the word for the extreme ID on its side, or an ID. -/
inductive RangeBound (word : Bytes) (extreme : StreamId) (defaultSeq : UInt64) : Bytes → StreamId → Prop
  | extreme : RangeBound word extreme defaultSeq word extreme
  | id {text : Bytes} {id : StreamId} (hid : StreamIdFormat defaultSeq text id) :
      RangeBound word extreme defaultSeq text id

/-- The bound `-` is the least ID, and `<ms>` is `<ms>-0`. -/
def StartBound : Bytes → StreamId → Prop := RangeBound (ascii "-") ⟨0, 0⟩ 0

/-- The bound `+` is the greatest ID, and `<ms>` is `<ms>-18446744073709551615`. -/
def StopBound : Bytes → StreamId → Prop := RangeBound (ascii "+") ⟨uint64Max, uint64Max⟩ uint64Max

/-- The ID lies between the bounds, both included. -/
def StreamId.between (start stop id : StreamId) : Bool := decide (¬ id.Lt start ∧ ¬ stop.Lt id)

/-- The bound as the source reads it. -/
def rangeBound (word : Bytes) (extreme : StreamId) (defaultSeq : UInt64) (text : Bytes) : Option StreamId :=
  if strcmp text word ≠ 0 then streamIdParse text defaultSeq else some extreme

theorem rangeBound_fold (word : Bytes) (extreme : StreamId) (defaultSeq : UInt64) (text : Bytes) :
    (if strcmp text word ≠ 0 then streamIdParse text defaultSeq else some extreme) =
      rangeBound word extreme defaultSeq text := rfl

theorem rangeBound_eq_some_iff {word : Bytes} {extreme : StreamId} {defaultSeq : UInt64}
    (hword : ∀ id, ¬ StreamIdFormat defaultSeq word id) {text : Bytes} {id : StreamId} :
    rangeBound word extreme defaultSeq text = some id ↔ RangeBound word extreme defaultSeq text id := by
  unfold rangeBound
  by_cases heq : strcmp text word = 0
  · obtain rfl := strcmp_eq_zero.mp heq
    rw [if_neg (not_not.mpr heq), Option.some.injEq]
    constructor
    · rintro rfl
      exact .extreme
    · intro h
      cases h with
      | extreme => rfl
      | id hid => exact absurd hid (hword id)
  · rw [if_pos heq, streamIdParse_eq_some_iff]
    constructor
    · exact .id
    · intro h
      cases h with
      | extreme => exact absurd (strcmp_eq_zero.mpr rfl) heq
      | id hid => exact hid

theorem not_streamIdFormat {text : Bytes} {defaultSeq : UInt64} (h : streamIdParse text defaultSeq = none)
    (id : StreamId) : ¬ StreamIdFormat defaultSeq text id := by
  rw [← streamIdParse_eq_some_iff, h]
  exact (Option.some_ne_none id).symm

theorem startBound_iff {text : Bytes} {id : StreamId} :
    rangeBound (ascii "-") ⟨0, 0⟩ 0 text = some id ↔ StartBound text id :=
  rangeBound_eq_some_iff (not_streamIdFormat (by decide))

theorem stopBound_iff {text : Bytes} {id : StreamId} :
    rangeBound (ascii "+") ⟨uint64Max, uint64Max⟩ uint64Max text = some id ↔ StopBound text id :=
  rangeBound_eq_some_iff (not_streamIdFormat (by decide))

theorem Stream.Inv.between {stream : Stream} (h : stream.Inv) (start stop : StreamId) :
    (stream.entries.dropWhile fun x => decide (streamIdCmp x.id start < 0)).takeWhile
        (fun x => decide (streamIdCmp x.id stop ≤ 0)) =
      stream.entries.filter fun x => StreamId.between start stop x.id := by
  rw [takeWhile_dropWhile_eq_filter]
  · refine List.filter_congr fun x _ => ?_
    rw [StreamId.between, Bool.decide_and, ← decide_not]
    congr 1
    · rw [decide_eq_decide, ← streamIdCmp_neg]
    · rw [decide_eq_decide, ← streamIdCmp_pos, Int.not_lt]
  · refine h.increasing.imp fun hab hb => decide_eq_true ?_
    exact (streamIdCmp_neg _ _).mpr (hab.trans ((streamIdCmp_neg _ _).mp (of_decide_eq_true hb)))
  · refine h.increasing.imp fun hab hb => decide_eq_true ?_
    have hle := of_decide_eq_true hb
    rw [← Int.not_lt, streamIdCmp_pos] at hle ⊢
    exact fun hlt => hle (hlt.trans hab)

/-- What `XRANGE` answers for the entries of a stream: an error if a text is no bound, and otherwise the
values of the entries between the bounds, in order. -/
inductive XrangeReply (entries : List StreamEntry) (lo hi : Bytes) : Reply → Prop
  | refused (hno : ¬ ∃ start stop, StartBound lo start ∧ StopBound hi stop) :
      XrangeReply entries lo hi (.error (errorLine errStreamId))
  | found {start stop : StreamId} (hstart : StartBound lo start) (hstop : StopBound hi stop) :
      XrangeReply entries lo hi
        (.array ((entries.filter fun x => StreamId.between start stop x.id).map StreamEntry.value))

omit [LinearOrder D] in
theorem xrange_refused {entries : List StreamEntry} {lo hi : Bytes}
    (hno : ¬ ∃ start stop, StartBound lo start ∧ StopBound hi stop) :
    wp (answer (replyError errStreamId)) e s fun st s' => ∃ v, Wrote s st (some v) s' ∧
      XrangeReply entries lo hi v := by
  refine wp_answer.mpr ⟨.error (errorLine errStreamId), ⟨errorLine_line errStreamId, ?_⟩, .refused hno⟩
  rw [replyError_eq]

omit [LinearOrder D] in
theorem replyFirst_exact {stream : Stream} {first : List StreamEntry} {count : ℕ}
    (hclient : s₁.client = s.client)
    (hcount : count ≤ first.length) (hsub : first.Sublist stream.entries) (hinv : stream.Inv) :
    wp (reply (replyArray count) >>= fun _ => streamEntriesBytes count first >>= answer) e s₁ fun st s' =>
      Wrote s st (some (.array ((first.take count).map StreamEntry.value))) s' := by
  rw [wp_bind, wp_reply, wp_bind]
  refine wp_mono (streamEntriesBytes_wp hcount fun x hx => hinv.fields x (hsub.subset hx))
    fun b s₂ ⟨hs₂, hb⟩ => ?_
  subst hs₂ hb
  refine wp_answer.mpr (Wrote.listed hclient (values_wf _) ?_)
  rw [List.length_map, List.length_take_of_le hcount]

theorem cmdXrange_exact (hc : ctx.req.Clean) (hn : 4 ≤ ctx.argc) (hv : s.store.Valid)
    (hty : OfType .stream (s.store.cells (ctx.argv 1))) :
    wp (cmdXrange ctx) e s fun st s' => ∃ v, Wrote s st (some v) s' ∧
      XrangeReply (streamEntries (s.store.cells (ctx.argv 1))) (ctx.argv 2) (ctx.argv 3) v := by
  unfold cmdXrange
  rw [wp_bind, wp_arg hc (by omega), rangeBound_fold]
  cases hstart : rangeBound (ascii "-") ⟨0, 0⟩ 0 (ctx.argv 2) with
  | none =>
    refine xrange_refused fun hbounds => ?_
    obtain ⟨start, stop, hlo, -⟩ := hbounds
    rw [← startBound_iff, hstart] at hlo
    cases hlo
  | some start =>
    rw [startBound_iff] at hstart
    simp only
    rw [wp_bind, wp_arg hc (by omega), rangeBound_fold]
    cases hstop : rangeBound (ascii "+") ⟨uint64Max, uint64Max⟩ uint64Max (ctx.argv 3) with
    | none =>
      refine xrange_refused fun hbounds => ?_
      obtain ⟨start, stop, -, hhi⟩ := hbounds
      rw [← stopBound_iff, hstop] at hhi
      cases hhi
    | some stop =>
      rw [stopBound_iff] at hstop
      simp only
      rw [wp_bind, wp_arg hc (by omega), wp_bind]
      refine wp_read hv (fun _ _ => rfl) Value.asStream_isSome (by decide) hty (fun s₁ hclient hcell => ?_)
        fun stream v s₁ hclient hcell hinv hstream => ?_
      · rw [hcell]
        exact ⟨_, Wrote.empty hclient, .found hstart hstop⟩
      · obtain rfl := Value.eq_of_asStream hstream
        have hinv : stream.Inv := hinv.1
        have hbetween := hinv.between start stop
        rw [hcell, streamEntries]
        simp only
        generalize hfirst : (stream.entries.dropWhile fun x => decide (streamIdCmp x.id start < 0)) =
          first at hbetween ⊢
        have hsub : first.Sublist stream.entries := hfirst ▸ List.dropWhile_sublist _
        refine wp_mono (replyFirst_exact hclient (List.takeWhile_sublist _).length_le hsub hinv)
          fun st s' hw => ⟨_, hw, ?_⟩
        rw [← List.prefix_iff_eq_take.mp (List.takeWhile_prefix _), hbetween]
        exact .found hstart hstop

/-- `XRANGE` on a stream, or on no key, returns exactly the entries between the bounds; their IDs strictly
increase, so each is listed once. -/
theorem xrange_exact (e : Env D) {s : Sess D} (hstore : s.store.Reachable) {ctx : CommandCtx}
    (hc : ctx.req.Clean) (hn : ctx.argc = 4) (hty : OfType .stream (s.store.cells (ctx.argv 1))) :
    (streamEntries (s.store.cells (ctx.argv 1))).Pairwise (fun a b => a.id.Lt b.id) ∧
    wp (cmdXrange ctx) e s fun st s' => ∃ v, Wrote s st (some v) s' ∧
      XrangeReply (streamEntries (s.store.cells (ctx.argv 1))) (ctx.argv 2) (ctx.argv 3) v := by
  refine ⟨?_, cmdXrange_exact hc hn.ge hstore.valid hty⟩
  cases hcell : s.store.cells (ctx.argv 1) with
  | none => exact List.Pairwise.nil
  | some c =>
    have hval := (hstore.valid.cells _ c hcell).value
    obtain ⟨v, x⟩ := c
    cases v with
    | stream stream => exact hval.1.increasing
    | _ => exact List.Pairwise.nil

/-- The bounds are reversed: nothing lies between them. -/
theorem xrange_exact_reversed :
    let e := Env.integers (fun n => n) fun n => n
    let store : Store Int :=
      ((StoreOp.streamAdd (ascii "5-1") [⟨ascii "f", ascii "v"⟩]).exec storeCreate (ascii "k") 0 0).2
    let s : Sess Int := { store := store, client := {} }
    let ctx : CommandCtx := ⟨.request [ascii "xrange", ascii "k", ascii "6", ascii "5"], false, false⟩
    wp (cmdXrange ctx) e s fun st s' => Wrote s st (some (.array [])) s' := by
  intro e store s ctx
  have hstore : s.store.Reachable := .exec .create _ _ _ _
  have hcell : s.store.cells (ascii "k") =
      some ⟨.stream ⟨[⟨⟨5, 1⟩, [⟨ascii "f", ascii "v"⟩], 1⟩], 1, ⟨5, 1⟩⟩, 0⟩ := by decide +kernel
  have hkey : ctx.argv 1 = ascii "k" := rfl
  rw [← hkey] at hcell
  have hlo : StartBound (ctx.argv 2) ⟨6, 0⟩ := startBound_iff.mp (by decide)
  have hhi : StopBound (ctx.argv 3) ⟨5, uint64Max⟩ := stopBound_iff.mp (by decide)
  have hc : ctx.req.Clean := RespValue.clean_request (by decide)
  have hargc : ctx.argc = 4 := rfl
  clear_value e s ctx
  have h := (xrange_exact e hstore hc hargc (ofType_some hcell rfl)).2
  refine wp_mono h fun st s' ⟨v, hw, hv⟩ => ?_
  cases hv with
  | refused hno => exact absurd ⟨_, _, hlo, hhi⟩ hno
  | @found start stop hstart hstop =>
    have hstart' : start = ⟨6, 0⟩ := Option.some.inj
      ((startBound_iff.mpr hstart).symm.trans (startBound_iff.mpr hlo))
    have hstop' : stop = ⟨5, uint64Max⟩ :=
      Option.some.inj ((stopBound_iff.mpr hstop).symm.trans (stopBound_iff.mpr hhi))
    subst hstart' hstop'
    rw [hcell] at hw
    exact hw

end PulseDB
