import PulseDB.Lib.Growable
import PulseDB.Lib.Links
import PulseDB.Store.Keyspace

/-!
# The store with its pointers (`store.h`, `store.c`)

The functions of `store.c` on the objects that they allocate, link and free. A pointer is an address or
`NULL`, and following one that is `NULL` or whose object has been freed is a fault. An object is allocated
with the values that the next lines of the source give to its fields, and `xrealloc` always moves the block.
As in `PulseDB.Store.Keyspace` the clock readings are arguments.

* `Object` : what `malloc` returns;
* `freeList`, `freeHash`, `freeZset`, `freeStream`, `entryFree`, `storeDestroy` : the end of the objects;
* `lookup`, `createEntry`, `storeSet`, `storeListPush`, ... : the operations;
* `exec` : an operation as a caller uses it, who reads what a returned pointer points at and frees what
  `store_list_pop` returns.
-/

namespace PulseDB.Raw
open Lib Lib.Prog

/-! ## Objects -/

structure StoreRec where
  buckets : ℕ
  size : ℕ
  count : ℕ

structure EntryRec where
  key : ℕ
  hash : UInt64
  type : StoreType
  expiresAt : Int := 0
  next : Option ℕ := none
  v : Option ℕ := none

structure ListRec where
  head : Option ℕ := none
  tail : Option ℕ := none
  len : ℕ := 0

structure ListNodeRec where
  value : ℕ
  prev : Option ℕ
  next : Option ℕ

structure HashRec where
  buckets : List (Option ℕ) := List.replicate hashNumBuckets none
  len : ℕ := 0

/-- A field of a hash, or of a stream entry. -/
structure FieldRec where
  field : ℕ
  value : ℕ
  next : Option ℕ

structure ZSetRec where
  entries : Option ℕ := none
  len : ℕ := 0
  cap : ℕ := 0
  index : Option ℕ := none
  indexSize : ℕ := 0

structure ZIndexRec (D : Type) where
  member : ℕ
  hash : UInt64
  score : D
  next : Option ℕ

structure StreamRec where
  head : Option ℕ := none
  tail : Option ℕ := none
  len : ℕ := 0
  lastId : StreamId := ⟨0, 0⟩

structure StreamEntryRec where
  id : StreamId
  fields : Option ℕ
  numFields : ℕ
  next : Option ℕ

/-- An allocated object. A cell of `zentries` that has not been written is `none`. -/
inductive Object (D : Type) where
  | text (s : Bytes)
  | store (r : StoreRec)
  | slots (ls : List (Option ℕ))
  | entry (r : EntryRec)
  | list (r : ListRec)
  | listNode (r : ListNodeRec)
  | hash (r : HashRec)
  | hashField (r : FieldRec)
  | zset (r : ZSetRec)
  | zentries (cells : List (Option (ℕ × D)))
  | zindexNode (r : ZIndexRec D)
  | stream (r : StreamRec)
  | streamEntry (r : StreamEntryRec)
  | streamField (r : FieldRec)

namespace Object
variable {D : Type}

def asText : Object D → Option Bytes
  | .text s => some s
  | _ => none

def asStore : Object D → Option StoreRec
  | .store r => some r
  | _ => none

def asSlots : Object D → Option (List (Option ℕ))
  | .slots ls => some ls
  | _ => none

def asEntry : Object D → Option EntryRec
  | .entry r => some r
  | _ => none

def asList : Object D → Option ListRec
  | .list r => some r
  | _ => none

def asListNode : Object D → Option ListNodeRec
  | .listNode r => some r
  | _ => none

def asHash : Object D → Option HashRec
  | .hash r => some r
  | _ => none

def asHashField : Object D → Option FieldRec
  | .hashField r => some r
  | _ => none

def asZset : Object D → Option ZSetRec
  | .zset r => some r
  | _ => none

def asZentries : Object D → Option (List (Option (ℕ × D)))
  | .zentries cells => some cells
  | _ => none

def asZindexNode : Object D → Option (ZIndexRec D)
  | .zindexNode r => some r
  | _ => none

def asStream : Object D → Option StreamRec
  | .stream r => some r
  | _ => none

def asStreamEntry : Object D → Option StreamEntryRec
  | .streamEntry r => some r
  | _ => none

def asStreamField : Object D → Option FieldRec
  | .streamField r => some r
  | _ => none

end Object

section Programs
variable {D : Type}

/-- The links of the five kinds of chains. -/
def entryLink : Link (Object D) where
  next b := b.asEntry.map (·.next)
  relink b l := b.asEntry.map fun r => .entry { r with next := l }

def listLink : Link (Object D) where
  next b := b.asListNode.map (·.next)
  relink b l := b.asListNode.map fun r => .listNode { r with next := l }

def hashLink : Link (Object D) where
  next b := b.asHashField.map (·.next)
  relink b l := b.asHashField.map fun r => .hashField { r with next := l }

def zindexLink : Link (Object D) where
  next b := b.asZindexNode.map (·.next)
  relink b l := b.asZindexNode.map fun r => .zindexNode { r with next := l }

def streamLink : Link (Object D) where
  next b := b.asStreamEntry.map (·.next)
  relink b l := b.asStreamEntry.map fun r => .streamEntry { r with next := l }

def fieldLink : Link (Object D) where
  next b := b.asStreamField.map (·.next)
  relink b l := b.asStreamField.map fun r => .streamField { r with next := l }

/-- The arrays of chains: an allocated one, and the one inside a hash. -/
def slotArray : Slots (Object D) where
  slots b := b.asSlots
  reslot b ls := b.asSlots.map fun _ => .slots ls

def hashArray : Slots (Object D) where
  slots b := b.asHash.map (·.buckets)
  reslot b ls := b.asHash.map fun r => .hash { r with buckets := ls }

/-- The object at an address, read as one of a kind. -/
def getAs {α : Type} (as : Object D → Option α) (p : ℕ) : HeapProg (Object D) α := do
  let b ← load p
  demand (as b)

def xstrdup (s : Bytes) : HeapProg (Object D) ℕ := new (.text s)

/-- The function `free`, which does nothing with `NULL`. -/
def xfree : Option ℕ → HeapProg (Object D) Unit
  | some p => release p
  | none => pure ()

/-! ## The end of the values -/

def freeList (list : ℕ) : HeapProg (Object D) Unit := do
  let r ← getAs Object.asList list
  freeChain listLink (fun b => do
    let node ← demand b.asListNode
    release node.value) r.head
  release list

def freeHash (hash : ℕ) : HeapProg (Object D) Unit := do
  freeTable hashLink hashArray hash hashNumBuckets (fun b => do
    let f ← demand b.asHashField
    release f.field
    release f.value)
  release hash

/-- The loop over the chains of the index, which has no rounds when there is no index. -/
def freeIndex (r : ZSetRec) : HeapProg (Object D) Unit :=
  match r.index with
  | some t => do
    freeTable zindexLink slotArray t r.indexSize fun _ => pure ()
    release t
  | none => if r.indexSize = 0 then pure () else fault ()

/-- The loop over the members, which has no rounds when there is no array. -/
def freeMembers (r : ZSetRec) : HeapProg (Object D) Unit :=
  match r.entries with
  | some a => do
    let cells ← getAs Object.asZentries a
    forEach (fun i => do
      let (member, _) ← demand cells[i]?.join
      release member) (List.range r.len)
    release a
  | none => if r.len = 0 then pure () else fault ()

def freeZset (zset : ℕ) : HeapProg (Object D) Unit := do
  let r ← getAs Object.asZset zset
  freeIndex r
  freeMembers r
  release zset

def freeStream (stream : ℕ) : HeapProg (Object D) Unit := do
  let r ← getAs Object.asStream stream
  freeChain streamLink (fun b => do
    let entry ← demand b.asStreamEntry
    freeChain fieldLink (fun b => do
      let f ← demand b.asStreamField
      release f.field
      release f.value) entry.fields) r.head
  release stream

def freeValue (v : Option ℕ) : StoreType → HeapProg (Object D) Unit
  | .string => xfree v
  | .list => demand v >>= freeList
  | .hash => demand v >>= freeHash
  | .zset => demand v >>= freeZset
  | .stream => demand v >>= freeStream

def entryClearValue (e : ℕ) : HeapProg (Object D) Unit := do
  let r ← getAs Object.asEntry e
  freeValue r.v r.type
  save e (.entry { r with v := none })

def entryFree (e : ℕ) : HeapProg (Object D) Unit := do
  entryClearValue e
  let r ← getAs Object.asEntry e
  release r.key
  release e

/-! ## The keyspace -/

def storeCreate : HeapProg (Object D) ℕ := do
  let buckets ← new (.slots (List.replicate storeInitialBuckets none))
  new (.store ⟨buckets, storeInitialBuckets, 0⟩)

def storeGrow (store : ℕ) : HeapProg (Object D) Unit := do
  let r ← getAs Object.asStore store
  let newSize := r.size * 2
  let nb ← new (.slots (List.replicate newSize none))
  moveTable entryLink slotArray r.buckets r.size nb fun b => b.asEntry.map fun e => indexSlot e.hash newSize
  release r.buckets
  save store (.store { r with buckets := nb, size := newSize })

/-- The test of the chain walks: `e->hash == h && strcmp(e->key, key) == 0`. -/
def entryNamed (key : Bytes) (b : Object D) : HeapProg (Object D) Bool := do
  let e ← demand b.asEntry
  if e.hash == hash64 key then
    let text ← getAs Object.asText e.key
    return strcmp text key == 0
  else return false

/-- The walk along the chain of a key. -/
def walk (r : StoreRec) (key : Bytes) : HeapProg (Object D) (Option (Cursor × ℕ)) :=
  search entryLink slotArray r.buckets (indexSlot (hash64 key) r.size) (entryNamed key)

/-- Unlink and free the entry that a walk has found: `*curr = e->next; entry_free(e); store->count--`. -/
def dropEntry (store : ℕ) (curr : Cursor) (e : ℕ) : HeapProg (Object D) Unit := do
  let r ← getAs Object.asStore store
  let entry ← getAs Object.asEntry e
  setAt entryLink slotArray r.buckets curr entry.next
  entryFree e
  save store (.store { r with count := r.count - 1 })

def isExpired (e : EntryRec) (now : Int) : Bool := e.expiresAt != 0 && decide (now > e.expiresAt)

def lookup (store : ℕ) (key : Bytes) (now : Int) : HeapProg (Object D) (Option ℕ) := do
  let r ← getAs Object.asStore store
  match ← walk r key with
  | none => return none
  | some (curr, e) =>
    let entry ← getAs Object.asEntry e
    if entry.expiresAt != 0 && isExpired entry now then
      dropEntry store curr e
      return none
    return some e

/-- Grow the table when it has as many entries as chains. -/
def storeReserve (store : ℕ) : HeapProg (Object D) Unit := do
  let r ← getAs Object.asStore store
  if r.count ≥ r.size then storeGrow store

def createEntry (store : ℕ) (key : Bytes) (type : StoreType) : HeapProg (Object D) ℕ := do
  storeReserve store
  let text ← xstrdup key
  let e ← new (.entry { key := text, hash := hash64 key, type := type })
  let r ← getAs Object.asStore store
  pushSlot entryLink slotArray r.buckets (indexSlot (hash64 key) r.size) e
  save store (.store { r with count := r.count + 1 })
  return e

/-- The entry of a key that is expected to have a type. -/
def lookupTyped (store : ℕ) (key : Bytes) (type : StoreType) (now : Int) :
    HeapProg (Object D) (Except StoreStatus ℕ) := do
  match ← lookup store key now with
  | none => return .error .notFound
  | some e =>
    let entry ← getAs Object.asEntry e
    if entry.type ≠ type then return .error .wrongType
    return .ok e

def storeDel (store : ℕ) (key : Bytes) (now : Int) : HeapProg (Object D) Bool := do
  let r ← getAs Object.asStore store
  match ← walk r key with
  | none => return false
  | some (curr, e) =>
    let entry ← getAs Object.asEntry e
    let live := !isExpired entry now
    dropEntry store curr e
    return live

def storeExists (store : ℕ) (key : Bytes) (now : Int) : HeapProg (Object D) Bool := do
  let e ← lookup store key now
  return e.isSome

def storeType (store : ℕ) (key : Bytes) (now : Int) : HeapProg (Object D) (Option StoreType) := do
  match ← lookup store key now with
  | none => return none
  | some e =>
    let entry ← getAs Object.asEntry e
    return some entry.type

def storeGetExpiry (store : ℕ) (key : Bytes) (now : Int) : HeapProg (Object D) Int := do
  match ← lookup store key now with
  | none => return -2
  | some e =>
    let entry ← getAs Object.asEntry e
    return if entry.expiresAt = 0 then -1 else entry.expiresAt

def storeDestroy (store : ℕ) : HeapProg (Object D) Unit := do
  let r ← getAs Object.asStore store
  forEach (fun i => do
    let l ← slotArray.get r.buckets i
    let _ ← chase (γ := Empty) (fun e _ => do
      let entry ← getAs Object.asEntry e
      entryFree e
      return .inr (entry.next, ())) l ()) (List.range r.size)
  release r.buckets
  release store

/-! ## Strings -/

/-- The entry of a key without its value, for a string. -/
def entryForString (store : ℕ) (key : Bytes) (now : Int) : HeapProg (Object D) ℕ := do
  match ← lookup store key now with
  | some e =>
    entryClearValue e
    let entry ← getAs Object.asEntry e
    save e (.entry { entry with type := .string })
    return e
  | none => createEntry store key .string

def storeSet (store : ℕ) (key value : Bytes) (expiresAtMs : Int) (now : Int) : HeapProg (Object D) Unit := do
  let e ← entryForString store key now
  let text ← xstrdup value
  let entry ← getAs Object.asEntry e
  save e (.entry { entry with v := some text, expiresAt := expiresAtMs })

/-- The pointer to the value of a key that is expected to have a type: the getters of the header. -/
def storeGetValue (store : ℕ) (key : Bytes) (type : StoreType) (now : Int) :
    HeapProg (Object D) (Except StoreStatus ℕ) := do
  match ← lookupTyped store key type now with
  | .error st => return .error st
  | .ok e =>
    let entry ← getAs Object.asEntry e
    return .ok (← demand entry.v)

def storeGet (store : ℕ) (key : Bytes) (now : Int) : HeapProg (Object D) (Except StoreStatus ℕ) :=
  storeGetValue store key .string now

def storeIncrby (store : ℕ) (key : Bytes) (delta : Int) (now now' : Int) :
    HeapProg (Object D) (Except StoreStatus Int) := do
  match ← lookupTyped store key .string now with
  | .error .wrongType => return .error .wrongType
  | .ok e =>
    let entry ← getAs Object.asEntry e
    let str ← getAs Object.asText (← demand entry.v)
    match parseInt64 str with
    | none => return .error .notInteger
    | some val =>
      if addOverflows val delta then return .error .overflow
      xfree entry.v
      let text ← xstrdup (decInt (val + delta))
      save e (.entry { entry with v := some text })
      return .ok (val + delta)
  | .error _ =>
    if addOverflows 0 delta then return .error .overflow
    storeSet store key (decInt (0 + delta)) 0 now'
    return .ok (0 + delta)

/-! ## Lists -/

/-- A new entry with the empty value `empty`; the pointer to the value. -/
def newValue (store : ℕ) (key : Bytes) (type : StoreType) (empty : Object D) : HeapProg (Object D) ℕ := do
  let e ← createEntry store key type
  let v ← new empty
  let entry ← getAs Object.asEntry e
  save e (.entry { entry with v := some v })
  return v

/-- The value of a key for a write of a type: a key that is not there gets a new entry with the empty value
`empty`. -/
def valueFor (store : ℕ) (key : Bytes) (type : StoreType) (empty : Object D) (now : Int) :
    HeapProg (Object D) (Except StoreStatus ℕ) := do
  match ← lookupTyped store key type now with
  | .error .wrongType => return .error .wrongType
  | .ok e =>
    let entry ← getAs Object.asEntry e
    return .ok (← demand entry.v)
  | .error _ => return .ok (← newValue store key type empty)

/-- A write of a type to the value of a key. -/
def upsert {α : Type} (store : ℕ) (key : Bytes) (type : StoreType) (empty : Object D) (now : Int)
    (write : ℕ → HeapProg (Object D) α) : HeapProg (Object D) (Except StoreStatus α) := do
  match ← valueFor store key type empty now with
  | .error st => return .error st
  | .ok v => return .ok (← write v)

/-- Set the link to the node before. -/
def setPrev (p : ℕ) (l : Option ℕ) : HeapProg (Object D) Unit := do
  let node ← getAs Object.asListNode p
  save p (.listNode { node with prev := l })

/-- Link a new node before the head. -/
def listPushHead (list text : ℕ) : HeapProg (Object D) Unit := do
  let r ← getAs Object.asList list
  let node ← new (.listNode ⟨text, none, r.head⟩)
  match r.head with
  | some head =>
    setPrev head (some node)
    save list (.list { r with head := some node, len := r.len + 1 })
  | none => save list (.list ⟨some node, some node, r.len + 1⟩)

/-- Link a new node after the tail. -/
def listPushTail (list text : ℕ) : HeapProg (Object D) Unit := do
  let r ← getAs Object.asList list
  let node ← new (.listNode ⟨text, r.tail, none⟩)
  match r.tail with
  | some tail =>
    listLink.set tail (some node)
    save list (.list { r with tail := some node, len := r.len + 1 })
  | none => save list (.list ⟨some node, some node, r.len + 1⟩)

/-- Link a new node at one end; the new length. -/
def listPush (list : ℕ) (value : Bytes) (atHead : Bool) : HeapProg (Object D) ℕ := do
  let text ← xstrdup value
  if atHead then listPushHead list text else listPushTail list text
  let r ← getAs Object.asList list
  return r.len

def storeListPush (store : ℕ) (key value : Bytes) (atHead : Bool) (now : Int) :
    HeapProg (Object D) (Except StoreStatus ℕ) :=
  upsert store key .list (.list {}) now fun list => listPush list value atHead

/-- Unlink the head `p`. -/
def listUnlinkHead (list p : ℕ) : HeapProg (Object D) Unit := do
  let r ← getAs Object.asList list
  let node ← getAs Object.asListNode p
  match node.next with
  | some head =>
    setPrev head none
    save list (.list { r with head := some head, len := r.len - 1 })
  | none => save list (.list ⟨none, none, r.len - 1⟩)

/-- Unlink the tail `p`. -/
def listUnlinkTail (list p : ℕ) : HeapProg (Object D) Unit := do
  let r ← getAs Object.asList list
  let node ← getAs Object.asListNode p
  match node.prev with
  | some tail =>
    listLink.set tail none
    save list (.list { r with tail := some tail, len := r.len - 1 })
  | none => save list (.list ⟨none, none, r.len - 1⟩)

/-- Unlink and free the node at one end; its value, and the length that is left. -/
def listPop (list : ℕ) (atHead : Bool) : HeapProg (Object D) (Option (ℕ × ℕ)) := do
  let r ← getAs Object.asList list
  match if atHead then r.head else r.tail with
  | none => return none
  | some p =>
    if atHead then listUnlinkHead list p else listUnlinkTail list p
    let node ← getAs Object.asListNode p
    release p
    let r ← getAs Object.asList list
    return some (node.value, r.len)

def storeListPop (store : ℕ) (key : Bytes) (atHead : Bool) (now now' : Int) :
    HeapProg (Object D) (Except StoreStatus ℕ) := do
  match ← storeGetValue store key .list now with
  | .error st => return .error st
  | .ok list =>
    match ← listPop list atHead with
    | none => return .error .notFound
    | some (value, len) =>
      if len = 0 then let _ ← storeDel store key now'
      return .ok value

/-! ## Hashes -/

/-- The test of the field walks: `strcmp(hf->field, field) == 0`. -/
def fieldNamed (field : Bytes) (b : Object D) : HeapProg (Object D) Bool := do
  let f ← demand b.asHashField
  let text ← getAs Object.asText f.field
  return strcmp text field == 0

def hashFind (hash : ℕ) (field : Bytes) : HeapProg (Object D) (Option (Cursor × ℕ)) :=
  search hashLink hashArray hash (HashValue.slot field) (fieldNamed field)

def hashSet (hash : ℕ) (field value : Bytes) : HeapProg (Object D) Bool := do
  match ← hashFind hash field with
  | some (_, hf) =>
    let f ← getAs Object.asHashField hf
    release f.value
    let text ← xstrdup value
    save hf (.hashField { f with value := text })
    return false
  | none =>
    let fieldText ← xstrdup field
    let valueText ← xstrdup value
    let hf ← new (.hashField ⟨fieldText, valueText, none⟩)
    pushSlot hashLink hashArray hash (HashValue.slot field) hf
    let r ← getAs Object.asHash hash
    save hash (.hash { r with len := r.len + 1 })
    return true

def storeHashSet (store : ℕ) (key field value : Bytes) (now : Int) :
    HeapProg (Object D) (Except StoreStatus Bool) :=
  upsert store key .hash (.hash {}) now fun hash => hashSet hash field value

def storeHashGet (store : ℕ) (key field : Bytes) (now : Int) :
    HeapProg (Object D) (Except StoreStatus ℕ) := do
  match ← storeGetValue store key .hash now with
  | .error st => return .error st
  | .ok hash =>
    match ← hashFind hash field with
    | none => return .error .notFound
    | some (_, hf) =>
      let f ← getAs Object.asHashField hf
      return .ok f.value

/-- Unlink and free a field; whether it was there, and how many fields are left. -/
def hashDel (hash : ℕ) (field : Bytes) : HeapProg (Object D) (Bool × ℕ) := do
  match ← hashFind hash field with
  | none =>
    let r ← getAs Object.asHash hash
    return (false, r.len)
  | some (curr, hf) =>
    let f ← getAs Object.asHashField hf
    setAt hashLink hashArray hash curr f.next
    release f.field
    release f.value
    release hf
    let r ← getAs Object.asHash hash
    save hash (.hash { r with len := r.len - 1 })
    return (true, r.len - 1)

def storeHashDel (store : ℕ) (key field : Bytes) (now now' : Int) :
    HeapProg (Object D) (Except StoreStatus Bool) := do
  match ← storeGetValue store key .hash now with
  | .error .notFound => return .ok false
  | .error st => return .error st
  | .ok hash =>
    let (deleted, len) ← hashDel hash field
    if len = 0 then let _ ← storeDel store key now'
    return .ok deleted

/-! ## Sorted sets -/

/-- The test of the index walk: `n->hash == h && strcmp(n->member, member) == 0`. -/
def indexNamed (member : Bytes) (h : UInt64) (b : Object D) : HeapProg (Object D) Bool := do
  let n ← demand b.asZindexNode
  if n.hash == h then
    let text ← getAs Object.asText n.member
    return strcmp text member == 0
  else return false

def zindexFind (r : ZSetRec) (member : Bytes) (h : UInt64) : HeapProg (Object D) (Option ℕ) := do
  if r.indexSize = 0 then return none
  let t ← demand r.index
  let found ← search zindexLink slotArray t (indexSlot h r.indexSize) (indexNamed member h)
  return found.map Prod.snd

/-- The loop over the chains of the old index, which has no rounds when there is none. -/
def moveIndex (r : ZSetRec) (nb size : ℕ) : HeapProg (Object D) Unit :=
  match r.index with
  | some t =>
    moveTable zindexLink slotArray t r.indexSize nb fun b =>
      b.asZindexNode.map fun n => indexSlot n.hash size
  | none => if r.indexSize = 0 then pure () else fault ()

/-- Double the index when `len` has reached its size. -/
def zindexGrow (zset : ℕ) : HeapProg (Object D) Unit := do
  let r ← getAs Object.asZset zset
  if r.len ≥ r.indexSize then
    let size := if r.indexSize ≠ 0 then r.indexSize * 2 else 8
    let nb ← new (.slots (List.replicate size none))
    moveIndex r nb size
    xfree r.index
    save zset (.zset { r with index := some nb, indexSize := size })

def zindexAdd (zset member : ℕ) (h : UInt64) (score : D) : HeapProg (Object D) Unit := do
  zindexGrow zset
  let r ← getAs Object.asZset zset
  let n ← new (.zindexNode ⟨member, h, score, none⟩)
  let t ← demand r.index
  pushSlot zindexLink slotArray t (indexSlot h r.indexSize) n

/-- The pair in a cell of the array. -/
def entryAt (r : ZSetRec) (i : ℕ) : HeapProg (Object D) (ℕ × D) := do
  let a ← demand r.entries
  let cells ← getAs Object.asZentries a
  demand cells[i]?.join

variable [LinearOrder D]

/-- Compare with a cell of the array: `zset_cmp(score, member, &zset->entries[mid]) > 0`. -/
def cmpAt (r : ZSetRec) (score : D) (member : Bytes) (mid : ℕ) : HeapProg (Object D) Bool := do
  let (m, s) ← entryAt r mid
  let text ← getAs Object.asText m
  return decide (0 < zsetCmp score member ⟨text, s⟩)

/-- At most `rounds` rounds of the halving loop. -/
def lowerBoundLoop (below : ℕ → HeapProg (Object D) Bool) : ℕ → ℕ → ℕ → HeapProg (Object D) ℕ
  | 0, lo, _ => pure lo
  | rounds + 1, lo, hi =>
    if lo < hi then do
      let mid := lo + (hi - lo) / 2
      if ← below mid then lowerBoundLoop below rounds (mid + 1) hi else lowerBoundLoop below rounds lo mid
    else pure lo

def zsetLowerBound (r : ZSetRec) (score : D) (member : Bytes) : HeapProg (Object D) ℕ :=
  lowerBoundLoop (cmpAt r score member) r.len 0 r.len

/-- The function `memmove` on the cells of the array: `n` of them from `src` to `dst`. -/
def moveCells (a dst src n : ℕ) : HeapProg (Object D) Unit := do
  let cells ← getAs Object.asZentries a
  let moved ← demand (slice cells src n)
  save a (.zentries (← demand (copyTo cells dst moved)))

def setCell (a i : ℕ) (x : ℕ × D) : HeapProg (Object D) Unit := do
  let cells ← getAs Object.asZentries a
  save a (.zentries (← demand (copyTo cells i [some x])))

/-- Give the array room for one more pair. -/
def zsetReserve (zset : ℕ) : HeapProg (Object D) Unit := do
  let r ← getAs Object.asZset zset
  if r.len = r.cap then
    let cap := if r.cap ≠ 0 then r.cap * 2 else 8
    let cells ← (match r.entries with
      | some a => getAs Object.asZentries a
      | none => pure [])
    let a ← new (.zentries (resize cells cap fun _ => none))
    xfree r.entries
    save zset (.zset { r with entries := some a, cap := cap })

def zsetInsert (zset : ℕ) (score : D) (member : ℕ) : HeapProg (Object D) Unit := do
  zsetReserve zset
  let r ← getAs Object.asZset zset
  let text ← getAs Object.asText member
  let lo ← zsetLowerBound r score text
  let a ← demand r.entries
  moveCells a (lo + 1) lo (r.len - lo)
  setCell a lo (member, score)
  save zset (.zset { r with len := r.len + 1 })

/-- Take the pair at `i` out of the array; the member. -/
def zsetRemove (zset i : ℕ) : HeapProg (Object D) ℕ := do
  let r ← getAs Object.asZset zset
  let (owned, _) ← entryAt r i
  let a ← demand r.entries
  moveCells a i (i + 1) (r.len - i - 1)
  save zset (.zset { r with len := r.len - 1 })
  return owned

def zsetAdd (zset : ℕ) (score : D) (member : Bytes) : HeapProg (Object D) Bool := do
  let r ← getAs Object.asZset zset
  let h := hash64 member
  match ← zindexFind r member h with
  | some node =>
    let n ← getAs Object.asZindexNode node
    if n.score = score then return false
    let i ← zsetLowerBound r n.score member
    let owned ← zsetRemove zset i
    zsetInsert zset score owned
    save node (.zindexNode { n with score := score })
    return false
  | none =>
    let owned ← xstrdup member
    zindexAdd zset owned h score
    zsetInsert zset score owned
    return true

def storeZsetAdd (store : ℕ) (key : Bytes) (score : D) (member : Bytes) (now : Int) :
    HeapProg (Object D) (Except StoreStatus Bool) :=
  upsert store key .zset (.zset {}) now fun zset => zsetAdd zset score member

omit [LinearOrder D] in
/-- The index node of a member of the set under a key. -/
def zsetNode (store : ℕ) (key member : Bytes) (now : Int) :
    HeapProg (Object D) (Except StoreStatus (ZSetRec × ZIndexRec D)) := do
  match ← storeGetValue store key .zset now with
  | .error st => return .error st
  | .ok zset =>
    let r ← getAs Object.asZset zset
    match ← zindexFind r member (hash64 member) with
    | none => return .error .notFound
    | some node => return .ok (r, ← getAs Object.asZindexNode node)

omit [LinearOrder D] in
def storeZsetScore (store : ℕ) (key member : Bytes) (now : Int) :
    HeapProg (Object D) (Except StoreStatus D) := do
  match ← zsetNode store key member now with
  | .error st => return .error st
  | .ok (_, n) => return .ok n.score

def storeZsetRank (store : ℕ) (key member : Bytes) (now : Int) :
    HeapProg (Object D) (Except StoreStatus ℕ) := do
  match ← zsetNode store key member now with
  | .error st => return .error st
  | .ok (r, n) => return .ok (← zsetLowerBound r n.score member)

/-! ## Streams -/

omit [LinearOrder D] in
/-- The loop over the fields of a new entry. `tail` is the last field so far, and `*tail` is the list of the
entry at first. -/
def addFields (entry : ℕ) : Option ℕ → List StreamField → HeapProg (Object D) Unit
  | _, [] => pure ()
  | tail, f :: fs => do
    let field ← xstrdup f.field
    let value ← xstrdup f.value
    let sf ← new (.streamField ⟨field, value, none⟩)
    match tail with
    | some p => fieldLink.set p (some sf)
    | none =>
      let r ← getAs Object.asStreamEntry entry
      save entry (.streamEntry { r with fields := some sf })
    addFields entry (some sf) fs

omit [LinearOrder D] in
def streamAppend (stream : ℕ) (id : StreamId) (fields : List StreamField) : HeapProg (Object D) Unit := do
  let entry ← new (.streamEntry ⟨id, none, fields.length, none⟩)
  addFields entry none fields
  let r ← getAs Object.asStream stream
  match r.tail with
  | some tail =>
    streamLink.set tail (some entry)
    save stream (.stream ⟨r.head, some entry, r.len + 1, id⟩)
  | none => save stream (.stream ⟨some entry, some entry, r.len + 1, id⟩)

omit [LinearOrder D] in
def storeStreamAdd (store : ℕ) (key idSpec : Bytes) (fields : List StreamField) (now now' : Int) :
    HeapProg (Object D) (Except StoreStatus StreamId) := do
  match ← lookupTyped store key .stream now with
  | .error .wrongType => return .error .wrongType
  | .ok e =>
    let entry ← getAs Object.asEntry e
    let stream ← demand entry.v
    let r ← getAs Object.asStream stream
    -- of the stream the function reads these two fields
    match resolveNewId (some { len := r.len, lastId := r.lastId }) idSpec now' with
    | .error st => return .error st
    | .ok id =>
      streamAppend stream id fields
      return .ok id
  | .error _ =>
    match resolveNewId none idSpec now' with
    | .error st => return .error st
    | .ok id =>
      let stream ← newValue store key .stream (.stream {})
      streamAppend stream id fields
      return .ok id

/-! ## What a caller sees -/

omit [LinearOrder D] in
def peekList (list : ℕ) : HeapProg (Object D) ListValue := do
  let r ← getAs Object.asList list
  let nodes ← readChain listLink (fun b => do
    let node ← demand b.asListNode
    getAs Object.asText node.value) r.head
  return ⟨nodes, r.len⟩

omit [LinearOrder D] in
def peekHash (hash : ℕ) : HeapProg (Object D) HashValue := do
  let r ← getAs Object.asHash hash
  let buckets ← readChains hashLink (fun b => do
    let f ← demand b.asHashField
    return ⟨← getAs Object.asText f.field, ← getAs Object.asText f.value⟩) r.buckets
  return ⟨buckets, r.len⟩

omit [LinearOrder D] in
/-- The pairs in the first cells of an array. -/
def peekCells : List (Option (ℕ × D)) → HeapProg (Object D) (List (ZSetEntry D))
  | [] => pure []
  | x :: xs => do
    let (m, score) ← demand x
    let member ← getAs Object.asText m
    let rest ← peekCells xs
    return ⟨member, score⟩ :: rest

omit [LinearOrder D] in
def peekZset (zset : ℕ) : HeapProg (Object D) (ZSet D) := do
  let r ← getAs Object.asZset zset
  let cells ← (match r.entries with
    | some a => getAs Object.asZentries a
    | none => pure [])
  let entries ← peekCells (← demand (slice cells 0 r.len))
  let slots ← (match r.index with
    | some t => getAs Object.asSlots t
    | none => pure [])
  let index ← readChains zindexLink (fun b => do
    let n ← demand b.asZindexNode
    return ⟨← getAs Object.asText n.member, n.hash, n.score⟩) slots
  return ⟨entries, r.len, r.cap, index, r.indexSize⟩

omit [LinearOrder D] in
def peekStream (stream : ℕ) : HeapProg (Object D) Stream := do
  let r ← getAs Object.asStream stream
  let entries ← readChain streamLink (fun b => do
    let entry ← demand b.asStreamEntry
    let fields ← readChain fieldLink (fun b => do
      let f ← demand b.asStreamField
      return ⟨← getAs Object.asText f.field, ← getAs Object.asText f.value⟩) entry.fields
    return ⟨entry.id, fields, entry.numFields⟩) r.head
  return ⟨entries, r.len, r.lastId⟩

omit [LinearOrder D] in
/-- Read what a returned pointer points at. -/
def follow {α : Type} (read : ℕ → HeapProg (Object D) α) :
    Except StoreStatus ℕ → HeapProg (Object D) (Except StoreStatus α)
  | .ok p => do
    let a ← read p
    return .ok a
  | .error st => return .error st

omit [LinearOrder D] in
def takeText (p : ℕ) : HeapProg (Object D) Bytes := do
  let text ← getAs Object.asText p
  release p
  return text

/-- An operation on a key, with what the caller does with a pointer that it returns. -/
def exec (store : ℕ) (key : Bytes) (now now' : Int) : {α : Type} → StoreOp D α → HeapProg (Object D) α
  | _, .del => storeDel store key now
  | _, .exists => storeExists store key now
  | _, .type => storeType store key now
  | _, .getExpiry => storeGetExpiry store key now
  | _, .set value expiresAtMs => storeSet store key value expiresAtMs now
  | _, .get => storeGet store key now >>= follow (getAs Object.asText)
  | _, .incrby delta => storeIncrby store key delta now now'
  | _, .listPush value atHead => storeListPush store key value atHead now
  | _, .listPop atHead => storeListPop store key atHead now now' >>= follow takeText
  | _, .getList => storeGetValue store key .list now >>= follow peekList
  | _, .hashSet field value => storeHashSet store key field value now
  | _, .hashGet field => storeHashGet store key field now >>= follow (getAs Object.asText)
  | _, .hashDel field => storeHashDel store key field now now'
  | _, .getHash => storeGetValue store key .hash now >>= follow peekHash
  | _, .zsetAdd score member => storeZsetAdd store key score member now
  | _, .zsetScore member => storeZsetScore store key member now
  | _, .zsetRank member => storeZsetRank store key member now
  | _, .getZset => storeGetValue store key .zset now >>= follow peekZset
  | _, .streamAdd idSpec fields => storeStreamAdd store key idSpec fields now now'
  | _, .getStream => storeGetValue store key .stream now >>= follow peekStream

end Programs
end PulseDB.Raw
