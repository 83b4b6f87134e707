import PulseDB.Lib.Reader
import PulseDB.Store.Keyspace

/-!
# Loading a dump file (`rdb.c`, and the start of `main.c`)

The file is the list of its bytes. Every reader leaves the bytes behind what it has read, and a reader that
cannot read on fails with `RDB_PARSE_ERROR`, the result that `rdb_load` starts with.

* `readByte`, `readLength`, `readString` : the static functions;
* `rdbStep` : one turn of the loop after its opcode has been read, `rdbLoop` : the loop, `rdbLoad` : the
  function;
* `startupStore` : the store that `main` serves.
-/

namespace PulseDB
open Lib

inductive RdbResult where
  | ok
  | notFound
  | parseError
  | unsupported
  deriving DecidableEq, Repr

def rdbOpAux : UInt8 := 0xFA
def rdbOpResizedb : UInt8 := 0xFB
def rdbOpExpireMs : UInt8 := 0xFC
def rdbOpExpireSec : UInt8 := 0xFD
def rdbOpSelectdb : UInt8 := 0xFE
def rdbOpEof : UInt8 := 0xFF
def rdbTypeString : UInt8 := 0x00

def rdbEncInt8 : ℕ := 0
def rdbEncInt16 : ℕ := 1
def rdbEncInt32 : ℕ := 2

/-- The longest string `read_string` allocates. -/
def rdbMaxString : ℕ := 512 * 1024 * 1024

abbrev RdbReader := Reader RdbResult UInt8

def readByte : RdbReader UInt8 := Reader.token .parseError

/-- The test `fread(b, 1, n, f) != n`. -/
def fread (n : ℕ) : RdbReader Bytes := Reader.tokens .parseError n

/-- A number from its bytes, most significant first: `*out = (*out << 8) | b[i]` for rising `i`. -/
def fromBigEndian (b : Bytes) : ℕ := b.foldl (fun v byte => v <<< 8 ||| byte.toNat) 0

/-- A number from its bytes, least significant first: `v = (v << 8) | b[i]` for falling `i`. -/
def fromLittleEndian (b : Bytes) : ℕ := b.foldr (fun byte v => v <<< 8 ||| byte.toNat) 0

/-- The function `read_length`, with `*encoded` as the second result. `encodable` is the test
`encoded != NULL`. -/
def readLength (encodable : Bool) : RdbReader (ℕ × Bool) := do
  let byte ← readByte
  match (byte.toNat &&& 0xC0) >>> 6 with
  | 0 => return (byte.toNat &&& 0x3F, false)
  | 1 => do
    let next ← readByte
    return ((byte.toNat &&& 0x3F) <<< 8 ||| next.toNat, false)
  | 2 =>
    if byte = 0x80 then do
      let b ← fread 4
      return (fromBigEndian b, false)
    else if byte = 0x81 then do
      let b ← fread 8
      return (fromBigEndian b, false)
    else Reader.fail .parseError
  | _ => if encodable then return (byte.toNat &&& 0x3F, true) else Reader.fail .parseError

/-- An integer of `width` bytes, least significant first, as a signed number; `snprintf` writes it in
decimal. -/
def readInt (width : ℕ) : RdbReader Bytes := do
  let b ← fread width
  return decInt (Int.bmod (fromLittleEndian b) (2 ^ (8 * width)))

/-- The function `read_string`: the bytes of the buffer before the NUL that is added to it. -/
def readString : RdbReader Bytes := do
  let (len, encoded) ← readLength true
  if encoded then
    if len = rdbEncInt8 then readInt 1
    else if len = rdbEncInt16 then readInt 2
    else if len = rdbEncInt32 then readInt 4
    -- LZF-compressed strings are not supported
    else Reader.fail .parseError
  else if len > rdbMaxString then Reader.fail .parseError
  else fread len

section Load
variable {D : Type}

/-- The variables of the loop, and the number of clock readings made. -/
structure RdbState (D : Type) where
  store : Store D
  expiryMs : Int
  tick : ℕ

/-- One turn of the loop after its opcode. The code reads the second string of a record also when the first
could not be read, but only to give up then. -/
def rdbStep (clock : ℕ → Int) (st : RdbState D) (op : UInt8) : RdbReader (RdbState D) :=
  if op = rdbOpAux then do
    let _ ← readString
    let _ ← readString
    return st
  else if op = rdbOpSelectdb then do
    let _ ← readLength false
    return st
  else if op = rdbOpResizedb then do
    let _ ← readLength false
    let _ ← readLength false
    return st
  else if op = rdbOpExpireMs then do
    let b ← fread 8
    return { st with expiryMs := wrap64 (fromLittleEndian b) }
  else if op = rdbOpExpireSec then do
    let b ← fread 4
    return { st with expiryMs := fromLittleEndian b * 1000 }
  else if op = rdbTypeString then do
    let key ← readString
    let value ← readString
    -- the store takes C strings
    let store := storeSet st.store (cstr key) (cstr value) st.expiryMs (clock st.tick)
    return { store := store, expiryMs := 0, tick := st.tick + 1 }
  else Reader.fail .unsupported

/-- The loop, for at most `rounds` turns. A turn reads a byte at least, so a turn for each byte and one for
the end of the file are enough (`rdbLoop_rounds`). -/
def rdbLoop (clock : ℕ → Int) : ℕ → RdbState D → Bytes → RdbResult × Store D
  | 0, st, _ => (.parseError, st.store)
  | rounds + 1, st, f =>
    match readByte f with
    | .error result => (result, st.store)
    | .ok (op, f) =>
      -- the trailing checksum is not verified
      if op = rdbOpEof then (.ok, st.store)
      else
        match rdbStep clock st op f with
        | .error result => (result, st.store)
        | .ok (st, f) => rdbLoop clock rounds st f

/-- The magic word and the version. -/
def readHeader : RdbReader Unit := do
  let magic ← fread 5
  if magic = ascii "REDIS" then do
    let _ ← fread 4
    return ()
  else Reader.fail .parseError

/-- The function `rdb_load`; `none` is a file that cannot be opened. -/
def rdbLoad (clock : ℕ → Int) (store : Store D) (file : Option Bytes) : RdbResult × Store D :=
  match file with
  | none => (.notFound, store)
  | some f =>
    match readHeader f with
    | .error result => (result, store)
    | .ok (_, f) => rdbLoop clock (f.length + 1) { store := store, expiryMs := 0, tick := 0 } f

/-- The store that `main` hands to the server. -/
def startupStore (clock : ℕ → Int) (file : Option Bytes) : Store D :=
  match rdbLoad clock storeCreate file with
  | (.ok, store) => store
  | (.notFound, store) => store
  | _ => storeCreate

end Load
end PulseDB
