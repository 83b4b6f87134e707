import PulseDB.Store.Keyspace
import Mathlib.Logic.Function.Basic

/-!
# What the store is for: a map from keys to typed values with an expiry

* `Cell` : what a key holds; `live now c` is the cell as seen at the time `now`, absent once its expiry has
  passed;
* `StoreOp.step` : what an operation answers and what it leaves, given the live cell of its key alone;
* `AbstractMap`, `AbstractMap.at`, `StoreOp.run` : the map, the map as seen at a time, one operation on it.
-/

namespace PulseDB

/-- What a key holds. An expiry of 0 means that the key does not expire. -/
structure Cell (D : Type) where
  value : Value D
  expiresAt : Int
  deriving DecidableEq

/-- The cell has an expiry and it has passed. -/
def Cell.ExpiredAt {D : Type} (c : Cell D) (now : Int) : Prop := c.expiresAt ≠ 0 ∧ c.expiresAt < now

instance {D : Type} (c : Cell D) (now : Int) : Decidable (c.ExpiredAt now) := by
  unfold Cell.ExpiredAt
  infer_instance

section Abstract
variable {D : Type}

/-- The cell as seen at the time `now`. -/
def live (now : Int) : Option (Cell D) → Option (Cell D)
  | none => none
  | some c => if c.ExpiredAt now then none else some c

@[simp] theorem live_none (now : Int) : live now (none : Option (Cell D)) = none := rfl

theorem live_eq_some {now : Int} {o : Option (Cell D)} {c : Cell D} :
    live now o = some c ↔ o = some c ∧ ¬ c.ExpiredAt now := by
  cases o with
  | none => simp
  | some a =>
    rw [live, Option.some.injEq]
    split
    · rename_i h
      exact ⟨nofun, fun ⟨he, hn⟩ => absurd (he ▸ h) hn⟩
    · rename_i h
      rw [Option.some.injEq]
      exact ⟨fun he => ⟨he, he ▸ h⟩, fun he => he.1⟩

theorem live_live {t now : Int} (h : t ≤ now) (o : Option (Cell D)) : live now (live t o) = live now o := by
  cases o with
  | none => rfl
  | some c =>
    rw [live]
    split
    · rename_i hx
      rw [live_none, live, if_pos ⟨hx.1, lt_of_lt_of_le hx.2 h⟩]
    · rfl

def Cell.read {α : Type} (as : Value D → Option α) : Option (Cell D) → Except StoreStatus α
  | none => .error .notFound
  | some c =>
    match as c.value with
    | none => .error .wrongType
    | some a => .ok a

theorem Cell.read_typed {α : Type} {as : Value D → Option α} {c : Cell D} {a : α} (h : as c.value = some a) :
    Cell.read as (some c) = .ok a := by
  rw [Cell.read, h]

theorem Cell.read_wrongType {α : Type} {as : Value D → Option α} {c : Cell D} (h : as c.value = none) :
    Cell.read as (some c) = .error .wrongType := by
  rw [Cell.read, h]

/-- Read the value under a type and look for something in it. -/
def Cell.inspect {α β : Type} (as : Value D → Option α) (f : α → Option β) (c : Option (Cell D)) :
    Except StoreStatus β × Option (Cell D) :=
  (Cell.read as c >>= fun a => (f a).elim (.error .notFound) .ok, c)

theorem Cell.inspect_ok {α β : Type} {as : Value D → Option α} {f : α → Option β}
    {o : Option (Cell D)} {b : β}
    (h : (Cell.inspect as f o).1 = .ok b) : ∃ c a, o = some c ∧ as c.value = some a ∧ f a = some b := by
  cases o with
  | none => cases h
  | some c =>
    cases ha : as c.value with
    | none => rw [Cell.inspect, Cell.read_wrongType ha] at h; cases h
    | some a =>
      rw [Cell.inspect, Cell.read_typed ha] at h
      cases hf : f a with
      | none => simp [hf, bind, Except.bind] at h
      | some b' =>
        simp only [hf, bind, Except.bind, Option.elim] at h
        cases h
        exact ⟨c, a, rfl, ha, hf⟩

/-- Change the value under a type. `f` is given the old value, if there is one, and answers with a result and
the new value, `none` meaning that the key goes; an error of `f` leaves the cell as it is. A key keeps its
expiry, a new key has none. -/
def Cell.alter {α β : Type} (as : Value D → Option α) (wrap : α → Value D)
    (f : Option α → Except StoreStatus (β × Option α)) (c : Option (Cell D)) :
    Except StoreStatus β × Option (Cell D) :=
  match Cell.read as c with
  | .error .wrongType => (.error .wrongType, c)
  | old =>
    match f old.toOption with
    | .error st => (.error st, c)
    | .ok (b, a) => (.ok b, a.map fun a => ⟨wrap a, (c.map (·.expiresAt)).getD 0⟩)

section Alter
variable {α β : Type} {as : Value D → Option α} {wrap : α → Value D}
  {f : Option α → Except StoreStatus (β × Option α)} {c : Cell D}

theorem Cell.alter_none : Cell.alter as wrap f none =
    match f none with
    | .error st => (.error st, none)
    | .ok (b, a) => (.ok b, a.map fun a => ⟨wrap a, 0⟩) := rfl

theorem Cell.alter_typed {a : α} (h : as c.value = some a) : Cell.alter as wrap f (some c) =
    match f (some a) with
    | .error st => (.error st, some c)
    | .ok (b, a') => (.ok b, a'.map fun a => ⟨wrap a, c.expiresAt⟩) := by
  rw [Cell.alter, Cell.read_typed h]
  rfl

theorem Cell.alter_wrongType (h : as c.value = none) :
    Cell.alter as wrap f (some c) = (.error .wrongType, some c) := by
  rw [Cell.alter, Cell.read_wrongType h]

theorem Cell.alter_error {o : Option (Cell D)} {st : StoreStatus}
    (h : (Cell.alter as wrap f o).1 = .error st) :
    (Cell.alter as wrap f o).2 = o := by
  unfold Cell.alter at h ⊢
  split at h
  · rfl
  · cases hf : f (Cell.read as o).toOption with
    | error st' => rfl
    | ok r => rw [hf] at h; cases h

/-- The cell, if there is one, holds a value of type `t`. -/
def OfType (t : StoreType) (o : Option (Cell D)) : Prop := ∀ c ∈ o, c.value.type = t

theorem OfType.live {t : StoreType} {o : Option (Cell D)} (h : OfType t o) (now : Int) :
    OfType t (live now o) :=
  fun c hc => h c (live_eq_some.mp hc).1

end Alter

def incrSpec (delta : Int) (old : Option Bytes) : Except StoreStatus (Int × Option Bytes) :=
  match (old.map parseInt64).getD (some 0) with
  | none => .error .notInteger
  | some val =>
    if addOverflows val delta then .error .overflow else .ok (val + delta, some (decInt (val + delta)))

/-- The answer of an operation and the cell it leaves, from the live cell of its key; `now'` is the time of a
generated stream ID. -/
def StoreOp.step [LinearOrder D] (now' : Int) :
    {α : Type} → StoreOp D α → Option (Cell D) → α × Option (Cell D)
  | _, .del, c => (c.isSome, none)
  | _, .exists, c => (c.isSome, c)
  | _, .type, c => (c.map (·.value.type), c)
  | _, .getExpiry, c => (c.elim (-2) fun c => if c.expiresAt = 0 then -1 else c.expiresAt, c)
  | _, .set value expiresAtMs, _ => ((), some ⟨.str value, expiresAtMs⟩)
  | _, .get, c => Cell.inspect Value.asStr some c
  | _, .incrby delta, c => Cell.alter Value.asStr .str (incrSpec delta) c
  | _, .listPush value atHead, c =>
    Cell.alter Value.asList .list (fun l => let l := (l.getD {}).push value atHead; .ok (l.len, some l)) c
  | _, .listPop atHead, c =>
    Cell.alter Value.asList .list (fun l => match l.bind (·.pop atHead) with
      | none => .error .notFound
      | some (value, l) => .ok (value, if l.len = 0 then none else some l)) c
  | _, .getList, c => Cell.inspect Value.asList some c
  | _, .hashSet field value, c =>
    Cell.alter Value.asHash .hash (fun h => let r := (h.getD {}).set field value; .ok (r.1, some r.2)) c
  | _, .hashGet field, c => Cell.inspect Value.asHash (·.get field) c
  | _, .hashDel field, c =>
    Cell.alter Value.asHash .hash (fun h => match h.map (·.del field) with
      | none => .ok (false, none)
      | some (deleted, h) => .ok (deleted, if h.len = 0 then none else some h)) c
  | _, .getHash, c => Cell.inspect Value.asHash some c
  | _, .zsetAdd score member, c =>
    Cell.alter Value.asZset .zset (fun z => let r := (z.getD {}).add score member; .ok (r.1, some r.2)) c
  | _, .zsetScore member, c => Cell.inspect Value.asZset (·.scoreOf member) c
  | _, .zsetRank member, c => Cell.inspect Value.asZset (·.rank member) c
  | _, .getZset, c => Cell.inspect Value.asZset some c
  | _, .streamAdd idSpec fields, c =>
    Cell.alter Value.asStream .stream (fun s =>
      (resolveNewId s idSpec now').map fun id => (id, some ((s.getD {}).append id fields))) c
  | _, .getStream, c => Cell.inspect Value.asStream some c

/-! ## Writes under a type -/

/-- A write under the type `t`: it fails only on another type, and changes nothing then; otherwise it leaves a
value of the type, or nothing. -/
structure StoreOp.Writes [LinearOrder D] {β : Type} (op : StoreOp D (Except StoreStatus β)) (t : StoreType) :
    Prop where
  error : ∀ {now' o st}, (op.step now' o).1 = .error st → st = .wrongType ∧ (op.step now' o).2 = o
  typed : ∀ {now' o b}, (op.step now' o).1 = .ok b → OfType t (op.step now' o).2
  ok : ∀ {now' o}, OfType t o → ∃ b, (op.step now' o).1 = .ok b

section Writes
variable [LinearOrder D] {A β : Type} {op : StoreOp D (Except StoreStatus β)} {t : StoreType}
  {f : Option A → Except StoreStatus (β × Option A)}

theorem StoreOp.writes_of_alter (as : Value D → Option A) (wrap : A → Value D)
    (hstep : ∀ now' o, op.step now' o = Cell.alter as wrap f o)
    (htotal : ∀ old, ∃ r, f old = .ok r) (has : ∀ v, (as v).isSome ↔ v.type = t)
      (hwrap : ∀ a, (wrap a).type = t) :
    op.Writes t := by
  -- what the change does to no cell, to a cell of the type and to one of another type
  have hcases : ∀ now' o, ((∃ b o', op.step now' o = (.ok b, o') ∧ OfType t o')) ∨
      (¬ OfType t o ∧ op.step now' o = (.error .wrongType, o)) := by
    intro now' o
    rw [hstep]
    cases o with
    | none =>
      obtain ⟨⟨b, a⟩, hr⟩ := htotal none
      refine Or.inl ⟨b, a.map fun a => ⟨wrap a, 0⟩, by rw [Cell.alter_none, hr], fun c hc => ?_⟩
      obtain ⟨a', -, rfl⟩ := Option.mem_map.mp hc
      exact hwrap a'
    | some c =>
      cases ha : as c.value with
      | none =>
        refine Or.inr ⟨fun ht => ?_, Cell.alter_wrongType ha⟩
        have hsome := (has c.value).mpr (ht c rfl)
        rw [ha] at hsome
        cases hsome
      | some a =>
        obtain ⟨⟨b, a'⟩, hr⟩ := htotal (some a)
        refine Or.inl ⟨b, a'.map fun a => ⟨wrap a, c.expiresAt⟩, by rw [Cell.alter_typed ha, hr],
          fun x hx => ?_⟩
        obtain ⟨a'', -, rfl⟩ := Option.mem_map.mp hx
        exact hwrap a''
  refine ⟨fun {now' o st} h => ?_, fun {now' o b} h => ?_, fun {now' o} h => ?_⟩
  · rcases hcases now' o with ⟨b, o', heq, -⟩ | ⟨-, heq⟩
    · rw [heq] at h
      cases h
    · rw [heq] at h ⊢
      cases h
      exact ⟨rfl, rfl⟩
  · rcases hcases now' o with ⟨b, o', heq, ht⟩ | ⟨-, heq⟩
    · rw [heq]
      exact ht
    · rw [heq] at h
      cases h
  · rcases hcases now' o with ⟨b, o', heq, -⟩ | ⟨hne, -⟩
    · exact ⟨b, by rw [heq]⟩
    · exact absurd h hne

omit [LinearOrder D] in
theorem Value.asHash_isSome (v : Value D) : v.asHash.isSome ↔ v.type = .hash := by
  cases v <;> simp [Value.asHash, Value.type]

omit [LinearOrder D] in
theorem Value.asZset_isSome (v : Value D) : v.asZset.isSome ↔ v.type = .zset := by
  cases v <;> simp [Value.asZset, Value.type]

omit [LinearOrder D] in
theorem Value.asList_isSome (v : Value D) : v.asList.isSome ↔ v.type = .list := by
  cases v <;> simp [Value.asList, Value.type]

omit [LinearOrder D] in
theorem Value.asStream_isSome (v : Value D) : v.asStream.isSome ↔ v.type = .stream := by
  cases v <;> simp [Value.asStream, Value.type]

theorem listPush_writes (value : Bytes) (atHead : Bool) :
    (StoreOp.listPush (D := D) value atHead).Writes .list := by
  apply StoreOp.writes_of_alter Value.asList .list
  · intro now' o
    rw [StoreOp.step]
  · exact fun _ => ⟨_, rfl⟩
  · exact Value.asList_isSome
  · exact fun _ => rfl

theorem hashSet_writes (field value : Bytes) : (StoreOp.hashSet (D := D) field value).Writes .hash := by
  apply StoreOp.writes_of_alter Value.asHash .hash
  · intro now' o
    rw [StoreOp.step]
  · exact fun _ => ⟨_, rfl⟩
  · exact Value.asHash_isSome
  · exact fun _ => rfl

theorem hashDel_writes (field : Bytes) : (StoreOp.hashDel (D := D) field).Writes .hash := by
  apply StoreOp.writes_of_alter Value.asHash .hash
  · intro now' o
    rw [StoreOp.step]
  · intro old
    cases old with
    | none => exact ⟨_, rfl⟩
    | some h => exact ⟨_, rfl⟩
  · exact Value.asHash_isSome
  · exact fun _ => rfl

theorem zsetAdd_writes (score : D) (member : Bytes) : (StoreOp.zsetAdd score member).Writes .zset := by
  apply StoreOp.writes_of_alter Value.asZset .zset
  · intro now' o
    rw [StoreOp.step]
  · exact fun _ => ⟨_, rfl⟩
  · exact Value.asZset_isSome
  · exact fun _ => rfl

end Writes

/-! ## The map -/

abbrev AbstractMap (D : Type) := Bytes → Option (Cell D)

/-- The map at the time `now`: a key whose expiry has passed is absent. -/
def AbstractMap.at (m : AbstractMap D) (now : Int) : AbstractMap D := fun key => live now (m key)

def StoreOp.run [LinearOrder D] {α : Type} (op : StoreOp D α) (m : AbstractMap D) (key : Bytes)
    (now now' : Int) :
    α × AbstractMap D :=
  let r := op.step now' (m.at now key)
  (r.1, Function.update (m.at now) key r.2)

end Abstract
end PulseDB
