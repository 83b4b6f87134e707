import PulseDB.Cmd.Hash
import PulseDB.Store.FieldMap

/-!
# Hash commands on finite maps

* `cmdHset_counts`, `cmdHdel_counts` : the reply is the number of fields created or deleted, one argument
  after the other;
* `cmdHgetall_lists` : the reply lists the map;
* `hash_refines_map` : the store operations and the three commands, on every key that holds a hash or nothing.
-/

namespace PulseDB
open Lib Lib.Prog Lib.Chains

variable {D : Type} [LinearOrder D] {e : Env D} {s : Sess D} {ctx : CommandCtx} {key : Bytes}

theorem argv_request {args : List Bytes} (hreq : ctx.req = .request args) (i : ℕ) :
    ctx.argv i = args.getD i [] := by
  rw [CommandCtx.argv, hreq, RespValue.request, List.getElem?_map, List.getD_eq_getElem?_getD]
  cases args[i]? <;> rfl

theorem argc_request {args : List Bytes} (hreq : ctx.req = .request args) : ctx.argc = args.length := by
  rw [CommandCtx.argc, hreq, RespValue.count, RespValue.request, List.length_map]

/-- The replies of the loops: how many writes answered 1. The key then holds the map after the writes. -/
def Counts (key : Bytes) (ws : List FieldWrite) (s : Sess D) (r : CmdStatus) (s' : Sess D) : Prop :=
  r = .done ∧ s'.client.out = s.client.out ++ replyInteger (writeAll (fieldMap (s.store.cells key)) ws).1 ∧
    fieldMap (s'.store.cells key) = (writeAll (fieldMap (s.store.cells key)) ws).2

theorem hashLoop_counts {ws : List FieldWrite} {hi step : ℕ} {op : ℕ → Cmd D (Except StoreStatus Bool)}
    (hstep : 0 < step) (hhi : ∀ j, 2 + step * j < hi ↔ j < ws.length)
    (hop : ∀ (j : ℕ) (hj : j < ws.length) (s : Sess D), s.store.Valid →
      wp (op (2 + step * j)) e s fun r s' => Called e s ws[j].op key r s')
    (hv : s.store.Valid) (ht : OfType .hash (s.store.cells key)) :
    wp (hashLoop hi step op) e s (Counts key ws s) := by
  unfold hashLoop
  rw [wp_bind]
  -- the first `j` writes have been made
  refine wp_forFrom (fun i n s' => ∃ j ≤ ws.length, i = 2 + step * j ∧ s'.store.Valid ∧ s'.client = s.client ∧
      OfType .hash (s'.store.cells key) ∧ n = (writeAll (fieldMap (s.store.cells key)) (ws.take j)).1 ∧
      fieldMap (s'.store.cells key) = (writeAll (fieldMap (s.store.cells key)) (ws.take j)).2)
    ⟨0, Nat.zero_le _, rfl, hv, rfl, ht, rfl, rfl⟩ (fun i n s₁ h hi' => ?_) fun i n s₁ h hi' => ?_
  · obtain ⟨j, -, rfl, hv₁, hclient, ht₁, hn, hmap⟩ := h
    have hj := (hhi j).mp hi'
    have hh := hv₁.hashed ht₁
    rw [wp_bind]
    refine wp_mono (hop j hj s₁ hv₁) fun r s₂ hcall => ?_
    have hresult := hcall.result
    have hcell := congrFun hcall.cells key
    rw [hh.live] at hresult
    rw [Function.update_self, hh.live] at hcell
    obtain ⟨hflag, hmap', hh'⟩ := hh.write ws[j] (e.clock (s₁.tick + 1))
    rw [hresult.trans hflag]
    refine ⟨by omega, j + 1, hj, by rw [Nat.mul_succ]; omega, hcall.valid, hcall.client.trans hclient,
      hcell ▸ hh'.type, ?_, ?_⟩
    · rw [List.take_succ_eq_append_getElem hj, writeAll_snoc, hn, hmap]
      cases (ws[j].run (writeAll (fieldMap (s.store.cells key)) (ws.take j)).2).1 <;> rfl
    · rw [hcell, hmap', List.take_succ_eq_append_getElem hj, writeAll_snoc, hmap]
  · obtain ⟨j, hj, rfl, -, hclient, -, hn, hmap⟩ := h
    have hend : j = ws.length := by
      have := (hhi j).not.mp (by omega)
      omega
    rw [hend, List.take_length] at hn hmap
    refine ⟨rfl, ?_, hmap⟩
    show s₁.client.out ++ replyInteger n = _
    rw [hclient, hn]

theorem getD_pairs {pairs : List (Bytes × Bytes)} {j : ℕ} (hj : j < pairs.length) :
    (pairs.flatMap fun p => [p.1, p.2]).getD (2 * j) [] = pairs[j].1 ∧
      (pairs.flatMap fun p => [p.1, p.2]).getD (2 * j + 1) [] = pairs[j].2 := by
  induction pairs generalizing j with
  | nil => cases hj
  | cons p pairs ih =>
    cases j with
    | zero => exact ⟨rfl, rfl⟩
    | succ j => exact ih (Nat.lt_of_succ_lt_succ hj)

section Commands
variable {name : Bytes} (hc : ctx.req.Clean) (hv : s.store.Valid) (ht : OfType .hash (s.store.cells key))
include hc hv ht

theorem cmdHset_counts {pairs : List (Bytes × Bytes)}
    (hreq : ctx.req = .request (name :: key :: pairs.flatMap fun p => [p.1, p.2])) :
    wp (cmdHset ctx) e s (Counts key (pairs.map fun p => .set p.1 p.2) s) := by
  have hargc : ctx.argc = pairs.length * 2 + 2 := by
    rw [argc_request hreq, List.length_cons, List.length_cons, length_pairs]
  unfold cmdHset cmdHsetWith
  rw [if_neg (by omega)]
  refine hashLoop_counts (by decide) (fun j => ?_) (fun j hj s' hv' => ?_) hv ht
  · rw [List.length_map]
    omega
  · rw [List.length_map] at hj
    obtain ⟨hfield, hvalue⟩ := getD_pairs hj
    have hj₂ : 2 + 2 * j = 2 * j + 2 := Nat.add_comm _ _
    rw [wp_bind, wp_arg hc (by omega), wp_bind, wp_arg hc (by omega), wp_bind, wp_arg hc (by omega),
      argv_request hreq, argv_request hreq, argv_request hreq, hj₂, List.getElem_map, ← hfield, ← hvalue]
    exact wp_call hv' fun _ _ h => h

theorem cmdHdel_counts {fields : List Bytes} (hreq : ctx.req = .request (name :: key :: fields)) :
    wp (cmdHdel ctx) e s (Counts key (fields.map .del) s) := by
  have hargc : ctx.argc = fields.length + 2 := argc_request hreq
  unfold cmdHdel cmdHdelWith
  refine hashLoop_counts (by decide) (fun j => ?_) (fun j hj s' hv' => ?_) hv ht
  · rw [List.length_map]
    omega
  · rw [List.length_map] at hj
    have hj₂ : 2 + 1 * j = j + 2 := by omega
    have hfield : fields.getD j [] = fields[j] := List.getD_eq_getElem _ _ hj
    rw [wp_bind, wp_arg hc (by omega), wp_bind, wp_arg hc (by omega), argv_request hreq,
      argv_request hreq, hj₂, List.getElem_map, ← hfield]
    exact wp_call hv' fun _ _ h => h

/-- Every field once, with its value, under a header of twice their number. -/
theorem cmdHgetall_lists (hreq : ctx.req = .request [name, key]) :
    wp (cmdHgetall ctx) e s fun r s' => r = .done ∧
    ∃ fs : List HashField, s'.client.out = s.client.out ++
      (replyArray (fs.length * 2) ++ fs.flatMap replyHashField) ∧
      fs.length = (fieldMap (s.store.cells key)).keys.card ∧ (fs.map (·.field)).Nodup ∧
      ∀ field value, ⟨field, value⟩ ∈ fs ↔ (fieldMap (s.store.cells key)).lookup field = some value := by
  have hargc : ctx.argc = 2 := argc_request hreq
  have hh := hv.hashed ht
  unfold cmdHgetall
  rw [wp_bind, wp_arg hc (by omega), argv_request hreq, wp_bind]
  refine wp_call hv fun r s' hcall => ?_
  have hresult := hcall.result
  rw [show [name, key].getD 1 [] = key from rfl, hh.live] at hresult
  rcases hh.cases with hnone | ⟨hash, hsome, hinv, -⟩
  · rw [hnone] at hresult ⊢
    rw [show r = .error .notFound from hresult]
    refine ⟨rfl, [], ?_, rfl, List.nodup_nil, fun field value => iff_of_false (nomatch ·) (nomatch ·)⟩
    show s'.client.out ++ _ = _
    rw [hcall.client]
    rfl
  · rw [hsome] at hresult ⊢
    rw [show r = .ok hash from hresult]
    refine ⟨rfl, hash.buckets.flatten, ?_, ?_, hinv.keyed.nodup, fun _ _ => hinv.lookup_fields.symm⟩
    · show s'.client.out ++ _ ++ _ = _
      rw [hcall.client, List.append_assoc, hinv.len, ← List.flatMap_id, List.flatMap_assoc]
      rfl
    · exact hinv.len.symm.trans hinv.card_keys.symm

end Commands

/-- On a key of a reachable store that holds a hash or nothing, with any clock readings. Every sequence of
calls of `store_hash_set`, `store_hash_get` and `store_hash_del` answers as the finite map does, and leaves
the map in the key: the key is absent exactly if the map is empty; otherwise every field is in the chain
`hash_key` selects and occurs once, and the length is the number of fields. `HGETALL` lists the map under a
header of twice its size, and `HSET` and `HDEL`, with any arguments, reply with the number of fields they
create or delete one after the other. -/
theorem hash_refines_map {e : Env D} {s : Sess D} (hs : s.store.Reachable) {key : Bytes}
    (hkey : OfType .hash (s.store.cells key)) :
    (∀ calls : List HashCall,
      (hashCalls key calls s.store).1 = (mapCalls calls (fieldMap (s.store.cells key))).1 ∧
      fieldMap ((hashCalls key calls s.store).2.cells key) =
        (mapCalls calls (fieldMap (s.store.cells key))).2 ∧
      ((hashCalls key calls s.store).2.cells key = none ↔
        (mapCalls calls (fieldMap (s.store.cells key))).2 = ∅) ∧
      ∀ c, (hashCalls key calls s.store).2.cells key = some c → ∃ hash, c = ⟨.hash hash, 0⟩ ∧
        (∀ i, ∀ hf ∈ chain hash.buckets i, HashValue.slot hf.field = i) ∧
        (hash.buckets.flatten.map (·.field)).Nodup ∧ hash.len = hash.buckets.flatten.length ∧
        hash.len = (mapCalls calls (fieldMap (s.store.cells key))).2.keys.card) ∧
    ∀ (name : Bytes) (canBlock timedOut : Bool), (0 : UInt8) ∉ name → (0 : UInt8) ∉ key →
      (wp (cmdHgetall ⟨.request [name, key], canBlock, timedOut⟩) e s fun r s' => r = .done ∧
        ∃ fs : List HashField,
        s'.client.out = s.client.out ++ (replyArray (fs.length * 2) ++ fs.flatMap replyHashField) ∧
        fs.length = (fieldMap (s.store.cells key)).keys.card ∧ (fs.map (·.field)).Nodup ∧
        ∀ field value, ⟨field, value⟩ ∈ fs ↔ (fieldMap (s.store.cells key)).lookup field = some value) ∧
      (∀ pairs : List (Bytes × Bytes), (∀ p ∈ pairs, (0 : UInt8) ∉ p.1 ∧ (0 : UInt8) ∉ p.2) →
        wp (cmdHset ⟨.request (name :: key :: pairs.flatMap fun p => [p.1, p.2]), canBlock, timedOut⟩) e s
          (Counts key (pairs.map fun p => .set p.1 p.2) s)) ∧
      ∀ fields : List Bytes, (∀ field ∈ fields, (0 : UInt8) ∉ field) →
        wp (cmdHdel ⟨.request (name :: key :: fields), canBlock, timedOut⟩) e s
          (Counts key (fields.map .del) s) := by
  have hv := hs.valid
  refine ⟨fun calls => ?_, fun name canBlock timedOut hname hkey' => ⟨?_, fun pairs hpairs => ?_,
    fun fields hfields => ?_⟩⟩
  · obtain ⟨hanswers, hmap, hh⟩ := hashCalls_run key calls hv hkey
    refine ⟨hanswers, hmap, hmap ▸ hh.none_iff, fun c hcell => ?_⟩
    rcases hh.cases with hnone | ⟨hash, hsome, hinv, -⟩
    · cases hnone.symm.trans hcell
    · cases hsome.symm.trans hcell
      refine ⟨hash, rfl, hinv.keyed.placed, hinv.keyed.nodup, hinv.len, ?_⟩
      rw [← hmap, hsome]
      exact hinv.card_keys.symm
  · refine cmdHgetall_lists (RespValue.clean_request ?_) hv hkey rfl
    exact List.forall_mem_cons.mpr ⟨hname, List.forall_mem_singleton.mpr hkey'⟩
  · refine cmdHset_counts (RespValue.clean_request ?_) hv hkey rfl
    refine List.forall_mem_cons.mpr ⟨hname, List.forall_mem_cons.mpr ⟨hkey', fun a ha => ?_⟩⟩
    obtain ⟨p, hp, hap⟩ := List.mem_flatMap.mp ha
    rcases List.mem_pair.mp hap with rfl | rfl
    · exact (hpairs p hp).1
    · exact (hpairs p hp).2
  · refine cmdHdel_counts (RespValue.clean_request ?_) hv hkey rfl
    exact List.forall_mem_cons.mpr ⟨hname, List.forall_mem_cons.mpr ⟨hkey', hfields⟩⟩

/-- A field is set twice and deleted twice, by calls and by commands. -/
theorem hash_refines_map_repeated :
    let s : Sess Int := { store := storeCreate, client := {} }
    let e := Env.integers (fun _ => 7) fun _ => 0
    let calls : List HashCall := [⟨.write (.set [102] [118]), 1, 1⟩, ⟨.write (.set [102] [119]), 3, 3⟩,
      ⟨.get [102], 2, 2⟩, ⟨.write (.del [102]), 4, 4⟩, ⟨.write (.del [102]), 5, 5⟩]
    (mapCalls calls ∅).1 = [.flag (.ok true), .flag (.ok false), .value (.ok [119]), .flag (.ok true),
      .flag (.ok false)] ∧
    (hashCalls [107] calls s.store).1 = (mapCalls calls ∅).1 ∧
    (hashCalls [107] calls s.store).2.cells [107] = none ∧
    wp (cmdHset ⟨.request [ascii "HSET", [107], [102], [118], [102], [119]], true, false⟩) e s
      (Counts [107] [.set [102] [118], .set [102] [119]] s) := by
  intro s e calls
  have hnone : s.store.cells [107] = none := storeCreate_cells [107]
  have hkey : OfType .hash (s.store.cells [107]) := by
    rw [hnone]
    exact fun _ h => nomatch h
  obtain ⟨hcalls, hcommands⟩ := hash_refines_map (e := e) (s := s) .create hkey
  obtain ⟨hanswers, -, hempty, -⟩ := hcalls calls
  obtain ⟨-, hset, -⟩ := hcommands (ascii "HSET") true false (by decide) (by decide)
  rw [hnone] at hanswers hempty
  exact ⟨by decide, hanswers, hempty.mpr (by decide), hset [([102], [118]), ([102], [119])] (by decide)⟩

end PulseDB
