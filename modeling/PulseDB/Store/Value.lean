import PulseDB.Bytes
import PulseDB.Lib.Chains
import PulseDB.Lib.SortedArray
import Mathlib.Order.Defs.LinearOrder

/-!
# The values a key can hold (`store.h`, `store.c`)

The five kinds of values and what one operation does to a value, without the keyspace around it. The type `D`
of the scores of a sorted set stands for the numbers among the C doubles; the code only compares scores.

* `ListValue`, `HashValue`, `ZSet`, `Stream` : the C structures, with their length fields; a linked list is
  the list of its nodes, a chained table the list of its chains;
* `hash64`, `hashKey` : the two hash functions;
* `ZSet.add`, `ZSet.rank` : the sorted array and its index; `resolveNewId` : the ID of a new stream entry.
-/

namespace PulseDB
open Lib Lib.Chains Lib.SortedArray

/-- What a store operation reports when it is not `STORE_OK`. -/
inductive StoreStatus where
  | notFound
  | wrongType
  | notInteger
  | overflow
  | invalidId
  | idZero
  | idTooSmall
  deriving DecidableEq, Repr

/-! ## Hash functions -/

/-- The function `hash_key`: djb2 in 32-bit arithmetic. -/
def hashKey (key : Bytes) (numBuckets : UInt32) : ℕ :=
  let h := key.foldl (fun (h : UInt32) (c : UInt8) => ((h <<< 5) + h) + c.toUInt32) 5381
  (h % numBuckets).toNat

/-- The function `hash64`: 64-bit FNV-1a. -/
def hash64 (key : Bytes) : UInt64 :=
  key.foldl (fun (h : UInt64) (c : UInt8) => (h ^^^ c.toUInt64) * 1099511628211) 1469598103934665603

/-! ## Lists -/

structure ListValue where
  nodes : List Bytes := []
  len : ℕ := 0
  deriving DecidableEq

def ListValue.push (list : ListValue) (value : Bytes) (atHead : Bool) : ListValue :=
  { nodes := if atHead then value :: list.nodes else list.nodes ++ [value], len := list.len + 1 }

def ListValue.pop (list : ListValue) (atHead : Bool) : Option (Bytes × ListValue) :=
  (if atHead then list.nodes.head? else list.nodes.getLast?).map fun value =>
    (value, { nodes := if atHead then list.nodes.tail else list.nodes.dropLast, len := list.len - 1 })

/-! ## Hashes -/

def hashNumBuckets : ℕ := 64

structure HashField where
  field : Bytes
  value : Bytes
  deriving DecidableEq

structure HashValue where
  buckets : List (List HashField) := List.replicate hashNumBuckets []
  len : ℕ := 0
  deriving DecidableEq

/-- The test of the chain walks: `strcmp(hf->field, field) == 0`. -/
def HashField.named (field : Bytes) (hf : HashField) : Bool := strcmp hf.field field == 0

/-- The chain `hash_key` selects for a field. -/
def HashValue.slot (field : Bytes) : ℕ := hashKey field 64

/-- Set a field; `true` if it is new. -/
def HashValue.set (hash : HashValue) (field value : Bytes) : Bool × HashValue :=
  let slot := HashValue.slot field
  match (chain hash.buckets slot).find? (HashField.named field) with
  | some _ => (false, { hash with
      buckets := amend hash.buckets slot (HashField.named field) fun hf => { hf with value := value } })
  | none => (true, { buckets := link hash.buckets slot ⟨field, value⟩, len := hash.len + 1 })

def HashValue.get (hash : HashValue) (field : Bytes) : Option Bytes :=
  ((chain hash.buckets (HashValue.slot field)).find? (HashField.named field)).map (·.value)

/-- Unlink a field; `true` if it was there. -/
def HashValue.del (hash : HashValue) (field : Bytes) : Bool × HashValue :=
  let slot := HashValue.slot field
  match (chain hash.buckets slot).find? (HashField.named field) with
  | some _ => (true, { buckets := unlink hash.buckets slot (HashField.named field), len := hash.len - 1 })
  | none => (false, hash)

/-! ## Sorted sets -/

structure ZSetEntry (D : Type) where
  member : Bytes
  score : D
  deriving DecidableEq

structure ZIndexNode (D : Type) where
  member : Bytes
  hash : UInt64
  score : D
  deriving DecidableEq

/-- A sorted set: the array `entries`, of which `len` slots are in use, and the chains of the index. -/
structure ZSet (D : Type) where
  entries : List (ZSetEntry D) := []
  len : ℕ := 0
  cap : ℕ := 0
  index : List (List (ZIndexNode D)) := []
  indexSize : ℕ := 0
  deriving DecidableEq

/-- The chain of a hash in an index of `size` chains. -/
def indexSlot (h : UInt64) (size : ℕ) : ℕ := h.toNat &&& (size - 1)

/-- The test of the index walk: `n->hash == h && strcmp(n->member, member) == 0`. -/
def ZIndexNode.named {D : Type} (member : Bytes) (h : UInt64) (n : ZIndexNode D) : Bool :=
  n.hash == h && strcmp n.member member == 0

section ZSet
variable {D : Type}

def zindexFind (zset : ZSet D) (member : Bytes) (h : UInt64) : Option (ZIndexNode D) :=
  if zset.indexSize = 0 then none
  else (chain zset.index (indexSlot h zset.indexSize)).find? (ZIndexNode.named member h)

/-- Double the index when `len` has reached its size. -/
def zindexGrow (zset : ZSet D) : ZSet D :=
  if zset.len ≥ zset.indexSize then
    let size := if zset.indexSize ≠ 0 then zset.indexSize * 2 else 8
    { zset with index := rehash (fun n => indexSlot n.hash size) size zset.index, indexSize := size }
  else zset

def zindexAdd (zset : ZSet D) (member : Bytes) (h : UInt64) (score : D) : ZSet D :=
  let zset := zindexGrow zset
  { zset with index := link zset.index (indexSlot h zset.indexSize) ⟨member, h, score⟩ }

def ZSet.scoreOf (zset : ZSet D) (member : Bytes) : Option D :=
  (zindexFind zset member (hash64 member)).map (·.score)

variable [LinearOrder D]

def zsetCmp (score : D) (member : Bytes) (e : ZSetEntry D) : Int :=
  if score < e.score then -1 else if e.score < score then 1 else strcmp member e.member

/-- First position whose (score, member) is at least the given pair; `len` rounds are enough for the halving
loop. -/
def zsetLowerBound (zset : ZSet D) (score : D) (member : Bytes) : ℕ :=
  lowerBound (fun mid => (zset.entries[mid]?).any fun e => decide (0 < zsetCmp score member e))
    zset.len 0 zset.len

/-- Insert at the sorted position. -/
def zsetInsert (zset : ZSet D) (score : D) (member : Bytes) : ZSet D :=
  let lo := zsetLowerBound zset score member
  { zset with
    cap := if zset.len = zset.cap then (if zset.cap ≠ 0 then zset.cap * 2 else 8) else zset.cap
    entries := insertAt zset.entries lo ⟨member, score⟩
    len := zset.len + 1 }

/-- What `store_zset_add` does to the sorted set; `true` if the member is new. -/
def ZSet.add (zset : ZSet D) (score : D) (member : Bytes) : Bool × ZSet D :=
  let h := hash64 member
  match zindexFind zset member h with
  | some node =>
    if node.score = score then (false, zset)
    else
      let i := zsetLowerBound zset node.score member
      let owned := (zset.entries[i]?.map (·.member)).getD []
      let zset := { zset with entries := zset.entries.eraseIdx i, len := zset.len - 1 }
      let zset := zsetInsert zset score owned
      (false, { zset with
        index := amend zset.index (indexSlot h zset.indexSize) (ZIndexNode.named member h)
          fun n => { n with score := score } })
  | none => (true, zsetInsert (zindexAdd zset member h score) score member)

def ZSet.rank (zset : ZSet D) (member : Bytes) : Option ℕ :=
  (zindexFind zset member (hash64 member)).map fun node => zsetLowerBound zset node.score member

end ZSet

/-! ## Streams -/

structure StreamId where
  ms : UInt64
  seq : UInt64
  deriving DecidableEq, Repr

structure StreamField where
  field : Bytes
  value : Bytes
  deriving DecidableEq

structure StreamEntry where
  id : StreamId
  fields : List StreamField
  numFields : ℕ
  deriving DecidableEq

structure Stream where
  entries : List StreamEntry := []
  len : ℕ := 0
  lastId : StreamId := ⟨0, 0⟩
  deriving DecidableEq

def uint64Max : UInt64 := 18446744073709551615

def streamIdCmp (a b : StreamId) : Int :=
  if a.ms ≠ b.ms then (if a.ms < b.ms then -1 else 1)
  else if a.seq ≠ b.seq then (if a.seq < b.seq then -1 else 1)
  else 0

/-- The digit loop of `parse_u64`. -/
def u64Loop : UInt64 → Bytes → Option UInt64
  | v, [] => some v
  | v, c :: cs =>
    if c < 48 ∨ 57 < c then none
    else
      let d := (c - 48).toUInt64
      if v > (uint64Max - d) / 10 then none else u64Loop (v * 10 + d) cs

def parseU64 (s : Bytes) : Option UInt64 :=
  if s.length = 0 ∨ 20 < s.length then none else u64Loop 0 s

/-- Parse `"<ms>-<seq>"` or `"<ms>"`. -/
def streamIdParse (s : Bytes) (defaultSeq : UInt64) : Option StreamId :=
  if 45 ∉ s then (parseU64 s).map fun ms => ⟨ms, defaultSeq⟩
  else
    let dash := s.idxOf 45
    match parseU64 (s.take dash), parseU64 (s.drop (dash + 1)) with
    | some ms, some seq => some ⟨ms, seq⟩
    | _, _ => none

/-- The conversion `(uint64_t)now_ms()`. -/
def toU64 (now : Int) : UInt64 := UInt64.ofNat (now % 18446744073709551616).toNat

/-- The ID for a new entry; `now` is the clock reading of the `*` form. -/
def resolveNewId (stream : Option Stream) (spec : Bytes) (now : Int) : Except StoreStatus StreamId :=
  let last := (stream.map (·.lastId)).getD ⟨0, 0⟩
  if spec = ascii "*" then
    let ms := toU64 now
    if ms > last.ms then .ok ⟨ms, 0⟩
    else if last.seq = uint64Max then .error .idTooSmall
    else .ok ⟨last.ms, last.seq + 1⟩
  else if 2 ≤ spec.length ∧ spec.drop (spec.length - 2) = ascii "-*" then
    match parseU64 (spec.take (spec.length - 2)) with
    | none => .error .invalidId
    | some ms =>
      if ms < last.ms then .error .idTooSmall
      else if ms = last.ms ∧ stream.any fun s => decide (s.len > 0) then
        if last.seq = uint64Max then .error .idTooSmall else .ok ⟨ms, last.seq + 1⟩
      else .ok ⟨ms, if ms = 0 then 1 else 0⟩
  else
    match streamIdParse spec 0 with
    | none => .error .invalidId
    | some id =>
      if id.ms = 0 ∧ id.seq = 0 then .error .idZero
      else if streamIdCmp id last ≤ 0 then .error .idTooSmall
      else .ok id

def Stream.append (stream : Stream) (id : StreamId) (fields : List StreamField) : Stream :=
  { entries := stream.entries ++ [⟨id, fields, fields.length⟩], len := stream.len + 1, lastId := id }

/-! ## Values -/

inductive StoreType where
  | string
  | list
  | hash
  | zset
  | stream
  deriving DecidableEq, Repr

/-- The value of an entry: its type tag and the union. -/
inductive Value (D : Type) where
  | str (s : Bytes)
  | list (l : ListValue)
  | hash (h : HashValue)
  | zset (z : ZSet D)
  | stream (s : Stream)
  deriving DecidableEq

namespace Value
variable {D : Type}

def type : Value D → StoreType
  | .str _ => .string
  | .list _ => .list
  | .hash _ => .hash
  | .zset _ => .zset
  | .stream _ => .stream

/-- The union read under a type: `none` if the tag is another. -/
def asStr : Value D → Option Bytes
  | .str s => some s
  | _ => none

def asList : Value D → Option ListValue
  | .list l => some l
  | _ => none

def asHash : Value D → Option HashValue
  | .hash h => some h
  | _ => none

def asZset : Value D → Option (ZSet D)
  | .zset z => some z
  | _ => none

def asStream : Value D → Option Stream
  | .stream s => some s
  | _ => none

theorem eq_of_asStr {v : Value D} {s : Bytes} (h : v.asStr = some s) : v = .str s := by
  cases v <;> cases h
  rfl

theorem eq_of_asList {v : Value D} {l : ListValue} (h : v.asList = some l) : v = .list l := by
  cases v <;> cases h
  rfl

theorem eq_of_asHash {v : Value D} {hash : HashValue} (h : v.asHash = some hash) : v = .hash hash := by
  cases v <;> cases h
  rfl

theorem eq_of_asZset {v : Value D} {z : ZSet D} (h : v.asZset = some z) : v = .zset z := by
  cases v <;> cases h
  rfl

theorem eq_of_asStream {v : Value D} {s : Stream} (h : v.asStream = some s) : v = .stream s := by
  cases v <;> cases h
  rfl

end Value
end PulseDB
