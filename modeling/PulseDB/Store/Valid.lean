import PulseDB.Store.Hash
import PulseDB.Store.Stream
import PulseDB.Store.ZSet

/-!
# Valid stores

* `Cell.Inv` : the value is in good order and not empty, and only a string has an expiry;
* `Store.Valid` : the keyspace invariant, and every cell is in good order; `StoreOp.exec_valid` : kept by
  every operation;
* `stream_adds` : the IDs of a stream strictly increase, whatever IDs are asked for and whatever the clock
  says.
-/

namespace PulseDB

variable {D : Type} [LinearOrder D]

/-- The value is in good order; a list, hash, sorted set or stream is not empty. -/
def Value.Inv : Value D → Prop
  | .str _ => True
  | .list l => l.len = l.nodes.length ∧ l.nodes ≠ []
  | .hash h => h.Inv ∧ h.len ≠ 0
  | .zset z => z.Inv ∧ z.entries ≠ []
  | .stream s => s.Inv ∧ s.entries ≠ []

structure Cell.Inv (c : Cell D) : Prop where
  value : c.value.Inv
  expiry : c.value.type ≠ .string → c.expiresAt = 0

/-- A change under one type keeps the cell in good order if it keeps the value so. -/
theorem Cell.alter_inv {α β : Type} {as : Value D → Option α} {wrap : α → Value D}
    {f : Option α → Except StoreStatus (β × Option α)} {o : Option (Cell D)} (ho : ∀ c ∈ o, c.Inv)
    (has : ∀ v a, as v = some a → v = wrap a) (htype : ∀ a b, (wrap a).type = (wrap b).type)
    (hf : ∀ old b new, (∀ a ∈ old, (wrap a).Inv) → f old = .ok (b, some new) → (wrap new).Inv) :
    ∀ c ∈ (Cell.alter as wrap f o).2, c.Inv := by
  intro c hc
  cases o with
  | none =>
    rw [Cell.alter_none] at hc
    cases hr : f none with
    | error st => rw [hr] at hc; cases hc
    | ok r =>
      obtain ⟨b, new⟩ := r
      rw [hr] at hc
      obtain ⟨a, rfl, rfl⟩ := Option.mem_map.mp hc
      exact ⟨hf none b a nofun hr, fun _ => rfl⟩
  | some old =>
    have hold := ho old rfl
    cases ha : as old.value with
    | none =>
      rw [Cell.alter_wrongType ha] at hc
      exact ho c hc
    | some a =>
      rw [Cell.alter_typed ha] at hc
      have hval := has _ _ ha
      cases hr : f (some a) with
      | error st => rw [hr] at hc; exact ho c hc
      | ok r =>
        obtain ⟨b, new⟩ := r
        rw [hr] at hc
        obtain ⟨a', rfl, rfl⟩ := Option.mem_map.mp hc
        refine ⟨hf (some a) b a' (fun x hx => ?_) hr, fun ht => hold.expiry ?_⟩
        · cases hx
          exact hval ▸ hold.value
        · rw [hval, htype a a']
          exact ht

theorem ListValue.push_inv {l : ListValue} (h : l.len = l.nodes.length) (value : Bytes) (atHead : Bool) :
    (l.push value atHead).len = (l.push value atHead).nodes.length ∧ (l.push value atHead).nodes ≠ [] := by
  cases atHead <;> simp [ListValue.push, h]

theorem ListValue.pop_inv {l l' : ListValue} {value : Bytes} {atHead : Bool} (h : l.len = l.nodes.length)
    (hp : l.pop atHead = some (value, l')) : l'.len = l'.nodes.length := by
  unfold ListValue.pop at hp
  obtain ⟨v, -, hv⟩ := Option.map_eq_some_iff.mp hp
  cases hv
  cases atHead <;> simp [h]

section StepInv
variable (now' : Int) {o : Option (Cell D)} (ho : ∀ c ∈ o, c.Inv)
include ho

theorem StoreOp.listPop_inv (atHead : Bool) :
    ∀ c ∈ ((StoreOp.listPop atHead : StoreOp D _).step now' o).2, c.Inv := by
  refine Cell.alter_inv ho (fun _ _ => Value.eq_of_asList) (fun _ _ => rfl) fun old b new hold h => ?_
  cases old with
  | none => cases h
  | some l =>
    simp only [Option.bind_some] at h
    split at h
    · cases h
    · rename_i value l' hp
      have hlen := ListValue.pop_inv (hold l rfl).1 hp
      split at h
      · cases h
      · rename_i h0
        cases h
        refine ⟨hlen, fun hnil => h0 ?_⟩
        rw [hlen, hnil]
        rfl

theorem StoreOp.hashDel_inv (field : Bytes) :
    ∀ c ∈ ((StoreOp.hashDel field : StoreOp D _).step now' o).2, c.Inv := by
  refine Cell.alter_inv ho (fun _ _ => Value.eq_of_asHash) (fun _ _ => rfl) fun old b new hold h => ?_
  cases old with
  | none => cases h
  | some hash =>
    simp only [Option.map_some] at h
    split at h
    · cases h
    · rename_i h0
      cases h
      exact ⟨(hold hash rfl).1.del field, h0⟩

theorem StoreOp.zsetAdd_inv (score : D) (member : Bytes) :
    ∀ c ∈ ((StoreOp.zsetAdd score member).step now' o).2, c.Inv := by
  refine Cell.alter_inv ho (fun _ _ => Value.eq_of_asZset) (fun _ _ => rfl) fun old b new hold h => ?_
  cases h
  obtain ⟨z, hz, hnew⟩ : ∃ z : ZSet D, z.Inv ∧ old.getD {} = z := by
    cases old with
    | none => exact ⟨_, ZSet.inv_empty, rfl⟩
    | some z => exact ⟨z, (hold z rfl).1, rfl⟩
  rw [hnew]
  obtain ⟨h1, h2, -⟩ := hz.add score member
  refine ⟨h1, List.ne_nil_of_mem (a := ⟨member, score⟩) ?_⟩
  rw [← scoresIn_entries, h2 member score, if_pos rfl]

theorem StoreOp.streamAdd_inv (idSpec : Bytes) (fields : List StreamField) :
    ∀ c ∈ ((StoreOp.streamAdd idSpec fields : StoreOp D _).step now' o).2, c.Inv := by
  refine Cell.alter_inv ho (fun _ _ => Value.eq_of_asStream) (fun _ _ => rfl) fun old b new hold h => ?_
  cases hid : resolveNewId old idSpec now' with
  | error st => rw [hid] at h; cases h
  | ok id =>
    rw [hid] at h
    cases h
    have hgt := resolveNewId_gt (fun s hs => (hold s hs).1) hid
    refine ⟨?_, by simp [Stream.append]⟩
    cases old with
    | none => exact Stream.inv_empty.append hgt fields
    | some s => exact (hold s rfl).1.append hgt fields

end StepInv

theorem StoreOp.step_inv {α : Type} (op : StoreOp D α) (now' : Int) {o : Option (Cell D)}
    (ho : ∀ c ∈ o, c.Inv) :
    ∀ c ∈ (op.step now' o).2, c.Inv := by
  cases op with
  | del => exact nofun
  | set value expiresAtMs =>
    intro c hc
    cases hc
    exact ⟨trivial, fun h => absurd rfl h⟩
  | incrby delta =>
    exact Cell.alter_inv ho (fun _ _ => Value.eq_of_asStr) (fun _ _ => rfl) fun _ _ _ _ _ => trivial
  | listPush value atHead =>
    refine Cell.alter_inv ho (fun _ _ => Value.eq_of_asList) (fun _ _ => rfl) fun old b new hold h => ?_
    cases h
    cases old with
    | none => exact ListValue.push_inv rfl value atHead
    | some l => exact ListValue.push_inv (hold l rfl).1 value atHead
  | listPop atHead => exact StoreOp.listPop_inv now' ho atHead
  | hashSet field value =>
    refine Cell.alter_inv ho (fun _ _ => Value.eq_of_asHash) (fun _ _ => rfl) fun old b new hold h => ?_
    cases h
    cases old with
    | none => exact HashValue.inv_empty.set field value
    | some hash => exact (hold hash rfl).1.set field value
  | hashDel field => exact StoreOp.hashDel_inv now' ho field
  | zsetAdd score member => exact StoreOp.zsetAdd_inv now' ho score member
  | streamAdd idSpec fields => exact StoreOp.streamAdd_inv now' ho idSpec fields
  -- the others read
  | «exists» | type | getExpiry | get | getList | hashGet | getHash | zsetScore | zsetRank | getZset | getStream =>
    exact ho

/-- The keyspace invariant, and every cell is in good order. -/
structure Store.Valid (s : Store D) : Prop where
  inv : s.Inv
  cells : ∀ key, ∀ c ∈ s.cells key, c.Inv

theorem Store.Valid.of_live {s : Store D} (h : s.Valid) (now : Int) (key : Bytes) :
    ∀ c ∈ live now (s.cells key), c.Inv := fun c hc => h.cells key c (live_eq_some.mp hc).1

theorem StoreOp.exec_valid {s : Store D} (h : s.Valid) {α : Type} (op : StoreOp D α) (key : Bytes)
    (now now' : Int) :
    (op.exec s key now now').2.Valid := by
  have hd := exec_does h.inv key now now' op
  refine ⟨hd.inv, fun k c hc => ?_⟩
  rw [hd.cells] at hc
  by_cases hk : k = key
  · rw [hk, Function.update_self] at hc
    exact op.step_inv now' (h.of_live now key) c hc
  · rw [Function.update_of_ne hk] at hc
    exact h.cells k c hc

theorem storeCreate_valid : (storeCreate : Store D).Valid where
  inv := storeCreate_inv
  cells key c hc := by
    have hn : (storeCreate : Store D).cells key = none := storeCreate_cells key
    rw [hn] at hc
    cases hc

theorem Store.Reachable.valid {s : Store D} (h : s.Reachable) : s.Valid := by
  induction h with
  | create => exact storeCreate_valid
  | exec _ op key now now' ih => exact op.exec_valid ih key now now'

/-! ## Sequences of stream additions -/

/-- One call of `store_stream_add`. -/
structure XAdd where
  idSpec : Bytes
  fields : List StreamField
  now : Int
  now' : Int

def XAdd.exec (a : XAdd) (s : Store D) (key : Bytes) : Except StoreStatus StreamId × Store D :=
  storeStreamAdd s key a.idSpec a.fields a.now a.now'

/-- The calls on one key, in order. -/
def storeStreamAdds (s : Store D) (key : Bytes) : List XAdd → Store D
  | [] => s
  | a :: adds => storeStreamAdds (a.exec s key).2 key adds

/-- The entries of the calls that return `STORE_OK`: the ID each returned, with its fields. -/
def streamLog (s : Store D) (key : Bytes) : List XAdd → List StreamEntry
  | [] => []
  | a :: adds =>
    match a.exec s key with
    | (.ok id, s) => ⟨id, a.fields, a.fields.length⟩ :: streamLog s key adds
    | (.error _, s) => streamLog s key adds

omit [LinearOrder D] in
/-- The entries of the stream a key holds. -/
def streamEntries : Option (Cell D) → List StreamEntry
  | some ⟨.stream stream, _⟩ => stream.entries
  | _ => []

/-- A status other than `STORE_OK` leaves the cell as it is, and `STORE_OK` appends one entry. -/
theorem streamAdd_entries (idSpec : Bytes) (fields : List StreamField) (now' : Int) (o : Option (Cell D)) :
    match ((StoreOp.streamAdd idSpec fields).step now' o).1 with
    | .error _ => ((StoreOp.streamAdd idSpec fields).step now' o).2 = o
    | .ok id => streamEntries ((StoreOp.streamAdd idSpec fields).step now' o).2 =
        streamEntries o ++ [⟨id, fields, fields.length⟩] := by
  rw [StoreOp.step]
  cases o with
  | none =>
    rw [Cell.alter_none]
    cases resolveNewId none idSpec now' with
    | error st => rfl
    | ok id => rfl
  | some c =>
    obtain ⟨v, t⟩ := c
    cases hs : v.asStream with
    | none => rw [Cell.alter_wrongType hs]
    | some stream =>
      obtain rfl : v = .stream stream := Value.eq_of_asStream hs
      rw [Cell.alter_typed hs]
      cases resolveNewId (some stream) idSpec now' with
      | error st => rfl
      | ok id => rfl

/-- One call: a status other than `STORE_OK` leaves the key as it was seen, and `STORE_OK` appends one
entry. -/
theorem XAdd.exec_spec {s : Store D} (h : s.Valid) (key : Bytes) (a : XAdd) :
    (a.exec s key).2.Valid ∧ (∀ k, k ≠ key → (a.exec s key).2.cells k = s.cells k) ∧
      match (a.exec s key).1 with
      | .error _ => (a.exec s key).2.cells key = live a.now (s.cells key)
      | .ok id => streamEntries ((a.exec s key).2.cells key) =
          streamEntries (live a.now (s.cells key)) ++ [⟨id, a.fields, a.fields.length⟩] := by
  have hd := storeStreamAdd_does h.inv key a.idSpec a.fields a.now a.now'
  have hv : (a.exec s key).2.Valid := (StoreOp.streamAdd a.idSpec a.fields).exec_valid h key a.now a.now'
  have hcells : (a.exec s key).2.cells = _ := hd.cells
  refine ⟨hv, fun k hk => by rw [hcells, Function.update_of_ne hk], ?_⟩
  rw [show (a.exec s key).1 = _ from hd.result, hcells, Function.update_self]
  exact streamAdd_entries a.idSpec a.fields a.now' (live a.now (s.cells key))

theorem Store.Valid.streamEntries_live {s : Store D} (h : s.Valid) (now : Int) (key : Bytes) :
    streamEntries (live now (s.cells key)) = streamEntries (s.cells key) := by
  cases hc : s.cells key with
  | none => rfl
  | some c =>
    rw [live]
    split
    · rename_i hx
      have hinv := h.cells key c hc
      obtain ⟨v, t⟩ := c
      cases v with
      | stream stream => exact absurd (hinv.expiry (by simp [Value.type])) hx.1
      | _ => rfl
    · rfl

theorem storeStreamAdds_spec (key : Bytes) : ∀ (adds : List XAdd) {s : Store D}, s.Valid →
    (storeStreamAdds s key adds).Valid ∧
      streamEntries ((storeStreamAdds s key adds).cells key) = streamEntries (s.cells key) ++
        streamLog s key adds
  | [], s, h => ⟨h, by rw [streamLog, List.append_nil]; rfl⟩
  | a :: adds, s, h => by
    obtain ⟨h1, -, h2⟩ := a.exec_spec h key
    obtain ⟨h3, h4⟩ := storeStreamAdds_spec key adds h1
    refine ⟨h3, ?_⟩
    rw [storeStreamAdds, h4, streamLog]
    cases hr : a.exec s key with
    | mk r s' =>
      rw [hr] at h2
      cases r with
      | error st => rw [show s'.cells key = _ from h2, h.streamEntries_live]
      | ok id =>
        rw [show streamEntries (s'.cells key) = _ from h2, h.streamEntries_live, List.append_assoc]
        rfl

/-- Any sequence of additions to a key of a reachable store, with any ID specifications and any clock
readings. The stream the key then holds has strictly increasing IDs, none of them `0-0`, the last ID of its
tail and the right length; its entries are those it had before and, in order, one for each call that returned
`STORE_OK`, with the fields of that call; and a further call that returns anything else leaves the stream, or
its absence, as it is. -/
theorem stream_adds {s : Store D} (hs : s.Reachable) (key : Bytes) (adds : List XAdd) :
    (∀ (stream : Stream) (t : Int), (storeStreamAdds s key adds).cells key = some ⟨.stream stream, t⟩ →
      stream.Inv ∧ stream.entries = streamEntries (s.cells key) ++ streamLog s key adds) ∧
    ∀ (a : XAdd) (st : StoreStatus), (a.exec (storeStreamAdds s key adds) key).1 = .error st →
      (a.exec (storeStreamAdds s key adds) key).2.cells key =
        live a.now ((storeStreamAdds s key adds).cells key) ∧
      streamEntries ((a.exec (storeStreamAdds s key adds) key).2.cells key) =
        streamEntries ((storeStreamAdds s key adds).cells key) ∧
      ∀ k, k ≠ key → (a.exec (storeStreamAdds s key adds) key).2.cells k =
        (storeStreamAdds s key adds).cells k := by
  obtain ⟨hv, hlog⟩ := storeStreamAdds_spec key adds hs.valid
  refine ⟨fun stream t hc => ⟨(hv.cells key _ hc).value.1, ?_⟩, fun a st he => ?_⟩
  · rw [← hlog, hc]
    rfl
  · obtain ⟨-, h1, h2⟩ := a.exec_spec hv key
    rw [he] at h2
    exact ⟨h2, by
      rw [show (a.exec (storeStreamAdds s key adds) key).2.cells key = _ from h2, hv.streamEntries_live], h1⟩

/-- The clock jumps back between two additions, and a third asks for an ID that is taken. -/
theorem stream_adds_clock_back :
    let f : List StreamField := [⟨ascii "f", ascii "v"⟩]
    let adds : List XAdd := [⟨ascii "5-1", f, 9, 9⟩, ⟨ascii "*", f, 3, 3⟩]
    let s := storeStreamAdds (storeCreate : Store ℕ) (ascii "k") adds
    let a : XAdd := ⟨ascii "5-2", f, 10, 10⟩
    let stream : Stream := ⟨[⟨⟨5, 1⟩, f, 1⟩, ⟨⟨5, 2⟩, f, 1⟩], 2, ⟨5, 2⟩⟩
    s.cells (ascii "k") = some ⟨.stream stream, 0⟩ ∧ stream.Inv ∧
      stream.entries = streamLog (storeCreate : Store ℕ) (ascii "k") adds ∧
      (a.exec s (ascii "k")).1 = .error .idTooSmall ∧
      (a.exec s (ascii "k")).2.cells (ascii "k") = some ⟨.stream stream, 0⟩ := by
  intro f adds s a stream
  have hc : s.cells (ascii "k") = some ⟨.stream stream, 0⟩ := by decide
  have he : (a.exec s (ascii "k")).1 = .error .idTooSmall := by decide
  obtain ⟨h1, h2⟩ := stream_adds (Store.Reachable.create (D := ℕ)) (ascii "k") adds
  obtain ⟨hinv, hlog⟩ := h1 stream 0 hc
  refine ⟨hc, hinv, ?_, he, ?_⟩
  · rw [hlog, storeCreate_cells]
    rfl
  · rw [(h2 a _ he).1]
    show live _ (s.cells (ascii "k")) = _
    rw [hc]
    rfl

end PulseDB
