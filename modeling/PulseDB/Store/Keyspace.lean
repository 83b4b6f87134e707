import PulseDB.Store.Value

/-!
# The keyspace (`store.c`)

A chained hash table of typed entries with lazy expiry. Every function takes the clock readings it makes as
arguments: `now` is the reading of its lookup, and `now'` is the one of a second call (`store_del` after the
last element has gone, `store_set` in `store_incrby`, the `*` form of a stream ID). The source reads the clock
only when it needs the time, so an argument may stand for no reading at all.

* `lookup`, `createEntry`, `storeGrow`, `storeDel` : the table;
* `storeGet`, `storeListPush`, ... : the operations of the header, a status other than `STORE_OK` as
  `Except.error`;
* `StoreOp`, `StoreOp.exec` : the operations on one key, as data.
-/

namespace PulseDB
open Lib.Chains

structure StoreEntry (D : Type) where
  key : Bytes
  /-- cached hash of the key -/
  hash : UInt64
  value : Value D
  /-- unix ms, 0 = never -/
  expiresAt : Int := 0
  deriving DecidableEq

structure Store (D : Type) where
  buckets : List (List (StoreEntry D))
  size : ℕ
  count : ℕ
  deriving DecidableEq

def storeInitialBuckets : ℕ := 16

section Keyspace
variable {D : Type}

def storeCreate : Store D :=
  { buckets := List.replicate storeInitialBuckets [], size := storeInitialBuckets, count := 0 }

/-- Double the bucket array and move every entry to its new chain. -/
def storeGrow (store : Store D) : Store D :=
  let newSize := store.size * 2
  { store with buckets := rehash (fun e => indexSlot e.hash newSize) newSize store.buckets, size := newSize }

def entryIsExpired (entry : StoreEntry D) (now : Int) : Bool :=
  entry.expiresAt != 0 && decide (now > entry.expiresAt)

/-- The test of the chain walks: `e->hash == h && strcmp(e->key, key) == 0`. -/
def StoreEntry.named (key : Bytes) (e : StoreEntry D) : Bool := e.hash == hash64 key && strcmp e.key key == 0

def Store.slot (store : Store D) (key : Bytes) : ℕ := indexSlot (hash64 key) store.size

/-- The entry a chain walk stops at. -/
def Store.walk (store : Store D) (key : Bytes) : Option (StoreEntry D) :=
  (chain store.buckets (store.slot key)).find? (StoreEntry.named key)

/-- Unlink and free the entry a chain walk has found. -/
def Store.unlink (store : Store D) (key : Bytes) : Store D :=
  { store with
    buckets := Lib.Chains.unlink store.buckets (store.slot key) (StoreEntry.named key), count :=
      store.count - 1 }

/-- Change the entry a lookup has returned. -/
def Store.update (store : Store D) (key : Bytes) (f : StoreEntry D → StoreEntry D) : Store D :=
  { store with buckets := amend store.buckets (store.slot key) (StoreEntry.named key) f }

/-- Put another value into the entry a lookup has returned. -/
def Store.setValue (store : Store D) (key : Bytes) (value : Value D) : Store D :=
  store.update key fun e => { e with value := value }

/-- Find a live entry; an expired one is unlinked on the way. -/
def lookup (store : Store D) (key : Bytes) (now : Int) : Option (StoreEntry D) × Store D :=
  match store.walk key with
  | none => (none, store)
  | some e => if e.expiresAt != 0 && entryIsExpired e now then (none, store.unlink key) else (some e, store)

/-- A new entry, with the value and the expiry its creator puts into it. -/
def createEntry (store : Store D) (key : Bytes) (value : Value D) (expiresAt : Int) : Store D :=
  let store := if store.count ≥ store.size then storeGrow store else store
  { store with
    buckets := link store.buckets (store.slot key) ⟨key, hash64 key, value, expiresAt⟩, count :=
      store.count + 1 }

/-- Look up a key, expecting the type that `as` reads. -/
def lookupTyped {α : Type} (store : Store D) (key : Bytes) (as : Value D → Option α) (now : Int) :
    Except StoreStatus α × Store D :=
  match lookup store key now with
  | (none, store) => (.error .notFound, store)
  | (some e, store) =>
    match as e.value with
    | none => (.error .wrongType, store)
    | some a => (.ok a, store)

/-- Look up a key, expecting the type that `as` reads, and search its value. -/
def lookupIn {α β : Type} (store : Store D) (key : Bytes) (as : Value D → Option α) (search : α → Option β)
    (now : Int) : Except StoreStatus β × Store D :=
  match lookupTyped store key as now with
  | (.error st, store) => (.error st, store)
  | (.ok a, store) =>
    match search a with
    | none => (.error .notFound, store)
    | some b => (.ok b, store)

/-! ## Keys -/

def storeDel (store : Store D) (key : Bytes) (now : Int) : Bool × Store D :=
  match store.walk key with
  | none => (false, store)
  | some e => (!entryIsExpired e now, store.unlink key)

def storeExists (store : Store D) (key : Bytes) (now : Int) : Bool × Store D :=
  let (e, store) := lookup store key now
  (e.isSome, store)

/-- The type of a key; `none` is `STORE_TYPE_NONE`. -/
def storeType (store : Store D) (key : Bytes) (now : Int) : Option StoreType × Store D :=
  let (e, store) := lookup store key now
  (e.map (·.value.type), store)

def storeCount (store : Store D) : ℕ := store.count

def storeGetExpiry (store : Store D) (key : Bytes) (now : Int) : Int × Store D :=
  match lookup store key now with
  | (none, store) => (-2, store)
  | (some e, store) => (if e.expiresAt = 0 then -1 else e.expiresAt, store)

/-- Call `visit` for every live entry, chain by chain; all entries are compared with one clock reading. -/
def storeScan {γ : Type} (store : Store D) (now : Int) (visit : γ → StoreEntry D → γ) (ctx : γ) : γ :=
  store.buckets.foldl (fun ctx c =>
    c.foldl (fun ctx e => if entryIsExpired e now then ctx else visit ctx e) ctx) ctx

/-! ## Strings -/

def storeSet (store : Store D) (key value : Bytes) (expiresAtMs : Int) (now : Int) : Store D :=
  match lookup store key now with
  | (some _, store) => store.update key fun e => { e with value := .str value, expiresAt := expiresAtMs }
  | (none, store) => createEntry store key (.str value) expiresAtMs

def storeGet (store : Store D) (key : Bytes) (now : Int) : Except StoreStatus Bytes × Store D :=
  lookupTyped store key Value.asStr now

/-- The overflow test of `store_incrby`. -/
def addOverflows (val delta : Int) : Bool :=
  (decide (delta > 0) && decide (val > int64Max - delta)) || (decide (delta < 0) && decide
    (val < int64Min - delta))

def storeIncrby (store : Store D) (key : Bytes) (delta : Int) (now now' : Int) :
    Except StoreStatus Int × Store D :=
  let incr (store : Store D) (val : Int) (write : Store D → Bytes → Store D) :
      Except StoreStatus Int × Store D :=
    if addOverflows val delta then (.error .overflow, store)
    else (.ok (val + delta), write store (decInt (val + delta)))
  match lookupTyped store key Value.asStr now with
  | (.error .wrongType, store) => (.error .wrongType, store)
  | (.ok str, store) =>
    match parseInt64 str with
    | none => (.error .notInteger, store)
    -- in place, so that the key keeps its expiry
    | some val => incr store val fun store buf => store.setValue key (.str buf)
  | (.error _, store) => incr store 0 fun store buf => storeSet store key buf 0 now'

/-! ## Lists -/

def storeListPush (store : Store D) (key value : Bytes) (atHead : Bool) (now : Int) :
    Except StoreStatus ℕ × Store D :=
  match lookupTyped store key Value.asList now with
  | (.error .wrongType, store) => (.error .wrongType, store)
  | (.ok list, store) =>
    let list := list.push value atHead
    (.ok list.len, store.setValue key (.list list))
  | (.error _, store) =>
    let list := ({} : ListValue).push value atHead
    (.ok list.len, createEntry store key (.list list) 0)

def storeListPop (store : Store D) (key : Bytes) (atHead : Bool) (now now' : Int) :
    Except StoreStatus Bytes × Store D :=
  match lookupTyped store key Value.asList now with
  | (.error st, store) => (.error st, store)
  | (.ok list, store) =>
    match list.pop atHead with
    | none => (.error .notFound, store)
    | some (value, list) =>
      let store := store.setValue key (.list list)
      (.ok value, if list.len = 0 then (storeDel store key now').2 else store)

def storeGetList (store : Store D) (key : Bytes) (now : Int) : Except StoreStatus ListValue × Store D :=
  lookupTyped store key Value.asList now

/-! ## Hashes -/

def storeHashSet (store : Store D) (key field value : Bytes) (now : Int) :
    Except StoreStatus Bool × Store D :=
  match lookupTyped store key Value.asHash now with
  | (.error .wrongType, store) => (.error .wrongType, store)
  | (.ok hash, store) =>
    let (created, hash) := hash.set field value
    (.ok created, store.setValue key (.hash hash))
  | (.error _, store) =>
    let (created, hash) := ({} : HashValue).set field value
    (.ok created, createEntry store key (.hash hash) 0)

def storeHashGet (store : Store D) (key field : Bytes) (now : Int) : Except StoreStatus Bytes × Store D :=
  lookupIn store key Value.asHash (·.get field) now

def storeHashDel (store : Store D) (key field : Bytes) (now now' : Int) : Except StoreStatus Bool × Store D :=
  match lookupTyped store key Value.asHash now with
  | (.error .notFound, store) => (.ok false, store)
  | (.error st, store) => (.error st, store)
  | (.ok hash, store) =>
    let (deleted, hash) := hash.del field
    let store := store.setValue key (.hash hash)
    (.ok deleted, if hash.len = 0 then (storeDel store key now').2 else store)

def storeGetHash (store : Store D) (key : Bytes) (now : Int) : Except StoreStatus HashValue × Store D :=
  lookupTyped store key Value.asHash now

/-! ## Sorted sets -/

def storeZsetAdd [LinearOrder D] (store : Store D) (key : Bytes) (score : D) (member : Bytes) (now : Int) :
    Except StoreStatus Bool × Store D :=
  match lookupTyped store key Value.asZset now with
  | (.error .wrongType, store) => (.error .wrongType, store)
  | (.ok zset, store) =>
    let (added, zset) := zset.add score member
    (.ok added, store.setValue key (.zset zset))
  | (.error _, store) =>
    let (added, zset) := ({} : ZSet D).add score member
    (.ok added, createEntry store key (.zset zset) 0)

def storeZsetScore (store : Store D) (key member : Bytes) (now : Int) : Except StoreStatus D × Store D :=
  lookupIn store key Value.asZset (·.scoreOf member) now

def storeZsetRank [LinearOrder D] (store : Store D) (key member : Bytes) (now : Int) :
    Except StoreStatus ℕ × Store D :=
  lookupIn store key Value.asZset (·.rank member) now

def storeGetZset (store : Store D) (key : Bytes) (now : Int) : Except StoreStatus (ZSet D) × Store D :=
  lookupTyped store key Value.asZset now

/-! ## Streams -/

def storeStreamAdd (store : Store D) (key idSpec : Bytes) (fields : List StreamField) (now now' : Int) :
    Except StoreStatus StreamId × Store D :=
  match lookupTyped store key Value.asStream now with
  | (.error .wrongType, store) => (.error .wrongType, store)
  | (.ok stream, store) =>
    match resolveNewId (some stream) idSpec now' with
    | .error st => (.error st, store)
    | .ok id => (.ok id, store.setValue key (.stream (stream.append id fields)))
  | (.error _, store) =>
    match resolveNewId none idSpec now' with
    | .error st => (.error st, store)
    | .ok id => (.ok id, createEntry store key (.stream (({} : Stream).append id fields)) 0)

def storeGetStream (store : Store D) (key : Bytes) (now : Int) : Except StoreStatus Stream × Store D :=
  lookupTyped store key Value.asStream now

end Keyspace

/-! ## The operations as data -/

/-- The operations on one key, indexed by the type of their results. -/
inductive StoreOp (D : Type) : Type → Type where
  | del : StoreOp D Bool
  | exists : StoreOp D Bool
  | type : StoreOp D (Option StoreType)
  | getExpiry : StoreOp D Int
  | set (value : Bytes) (expiresAtMs : Int) : StoreOp D Unit
  | get : StoreOp D (Except StoreStatus Bytes)
  | incrby (delta : Int) : StoreOp D (Except StoreStatus Int)
  | listPush (value : Bytes) (atHead : Bool) : StoreOp D (Except StoreStatus ℕ)
  | listPop (atHead : Bool) : StoreOp D (Except StoreStatus Bytes)
  | getList : StoreOp D (Except StoreStatus ListValue)
  | hashSet (field value : Bytes) : StoreOp D (Except StoreStatus Bool)
  | hashGet (field : Bytes) : StoreOp D (Except StoreStatus Bytes)
  | hashDel (field : Bytes) : StoreOp D (Except StoreStatus Bool)
  | getHash : StoreOp D (Except StoreStatus HashValue)
  | zsetAdd (score : D) (member : Bytes) : StoreOp D (Except StoreStatus Bool)
  | zsetScore (member : Bytes) : StoreOp D (Except StoreStatus D)
  | zsetRank (member : Bytes) : StoreOp D (Except StoreStatus ℕ)
  | getZset : StoreOp D (Except StoreStatus (ZSet D))
  | streamAdd (idSpec : Bytes) (fields : List StreamField) : StoreOp D (Except StoreStatus StreamId)
  | getStream : StoreOp D (Except StoreStatus Stream)

/-- Run an operation on a key, with the readings `now` and `now'`. -/
def StoreOp.exec {D : Type} [LinearOrder D] (store : Store D) (key : Bytes) (now now' : Int) :
    {α : Type} → StoreOp D α → α × Store D
  | _, .del => storeDel store key now
  | _, .exists => storeExists store key now
  | _, .type => storeType store key now
  | _, .getExpiry => storeGetExpiry store key now
  | _, .set value expiresAtMs => ((), storeSet store key value expiresAtMs now)
  | _, .get => storeGet store key now
  | _, .incrby delta => storeIncrby store key delta now now'
  | _, .listPush value atHead => storeListPush store key value atHead now
  | _, .listPop atHead => storeListPop store key atHead now now'
  | _, .getList => storeGetList store key now
  | _, .hashSet field value => storeHashSet store key field value now
  | _, .hashGet field => storeHashGet store key field now
  | _, .hashDel field => storeHashDel store key field now now'
  | _, .getHash => storeGetHash store key now
  | _, .zsetAdd score member => storeZsetAdd store key score member now
  | _, .zsetScore member => storeZsetScore store key member now
  | _, .zsetRank member => storeZsetRank store key member now
  | _, .getZset => storeGetZset store key now
  | _, .streamAdd idSpec fields => storeStreamAdd store key idSpec fields now now'
  | _, .getStream => storeGetStream store key now

end PulseDB
