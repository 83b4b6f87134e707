import PulseDB.Bytes
import PulseDB.Lib.Restart

/-!
# The RESP parser (`resp.c`)

The parser works on a buffer and a position, as the source does; `len` is the length of the buffer. What the
source returns through `*out` and `*next` stands beside the `ok` answer, and `RESP_PARSE_INCOMPLETE` and
`RESP_PARSE_ERROR` are the other two answers of `Parse`.

`parse_value` refuses a depth above `RESP_MAX_DEPTH`. The recursion of the model is on the levels that are
left, `room = RESP_MAX_DEPTH + 1 - depth`.
-/

namespace PulseDB
open Lib

inductive RespType where
  | simpleString
  | error
  | integer
  | bulkString
  | array
  | null
  deriving DecidableEq, Repr

/-- A parsed value. A null `str` pointer is `none`; `count` is the length of `elements`. -/
structure RespValue where
  type : RespType
  str : Option Bytes := none
  len : ℕ := 0
  integer : Int := 0
  elements : List RespValue := []

def RespValue.count (v : RespValue) : ℕ := v.elements.length

def respMaxBulkLen : ℕ := 64 * 1024 * 1024

def respMaxArrayLen : ℕ := 1024 * 1024

def respMaxInlineLen : ℕ := 64 * 1024

def respMaxDepth : ℕ := 16

/-! ## Lines and numbers -/

/-- The scan of `find_line_end` over the bytes from `pos` on; `off` is `i - pos`, and the answer is
`*cr - pos`. -/
def findLineLoop (maxLine : ℕ) : ℕ → Bytes → Parse ℕ
  | off, [] => if off > maxLine then .error else .incomplete
  | off, b :: rest =>
    if b = cr then
      match rest with
      | [] => .incomplete
      | c :: _ => if c ≠ lf then .error else .ok off
    else if off > maxLine then .error
    else findLineLoop maxLine (off + 1) rest

/-- Find the `"\r\n"` that ends the line starting at `pos`. -/
def findLineEnd (buf : Bytes) (pos maxLine : ℕ) : Parse ℕ := do
  let off ← findLineLoop maxLine 0 (buf.drop pos)
  return pos + off

/-- The digit loop of `parse_number`, in wrapping 64-bit arithmetic. -/
def numberLoop : Int → Bytes → Option Int
  | v, [] => some v
  | v, c :: cs => if c < 48 ∨ 57 < c then none else numberLoop (wrap64 (v * 10 + ((c.toNat : Int) - 48))) cs

/-- Parse the signed decimal integer `s`, which is `buf[start, end)`. -/
def parseNumber (s : Bytes) : Option Int :=
  if s.length = 0 ∨ 20 < s.length then none
  else
    match s with
    | 45 :: ds => if ds = [] then none else (numberLoop 0 ds).map fun v => wrap64 (-v)
    | ds => numberLoop 0 ds

/-- Read `"<number>\r\n"` at `pos`; the second component is the position after the CRLF. -/
def readNumberLine (buf : Bytes) (pos : ℕ) : Parse (Int × ℕ) := do
  let crPos ← findLineEnd buf pos 32
  match parseNumber ((buf.drop pos).take (crPos - pos)) with
  | none => .error
  | some num => return (num, crPos + 2)

/-! ## Values -/

/-- A `RESP_BULK_STRING` that holds `s`. -/
def RespValue.bulk (s : Bytes) : RespValue := { type := .bulkString, str := some s, len := s.length }

/-- The array of the bulk strings `args`. -/
def RespValue.request (args : List Bytes) : RespValue := { type := .array, elements := args.map .bulk }

/-- A `RESP_NULL`: nothing but the type is set. -/
def RespValue.null : RespValue := { type := .null }

/-- Parse `"<len>\r\n<payload>\r\n"`; `pos` points just after `'$'`. -/
def parseBulk (buf : Bytes) (pos : ℕ) : Parse (RespValue × ℕ) := do
  let (blen, p) ← readNumberLine buf pos
  if blen = -1 then return (.null, p)
  else if blen < 0 ∨ (respMaxBulkLen : Int) < blen then .error
  else
    let n := blen.toNat
    if buf.length - p < n + 2 then .incomplete
    else if buf[p + n]? ≠ some cr ∨ buf[p + n + 1]? ≠ some lf then .error
    else return (.bulk ((buf.drop p).take n), p + n + 2)

/-- The element loop of `parse_array`: `count` values, each starting where the one before it ended. -/
def parseElements (parseChild : ℕ → Parse (RespValue × ℕ)) : ℕ → ℕ → Parse (List RespValue × ℕ)
  | 0, p => return ([], p)
  | count + 1, p => do
    let (child, p') ← parseChild p
    let (rest, next) ← parseElements parseChild count p'
    return (child :: rest, next)

/-- Parse `"<count>\r\n"` and `count` values; `pos` points just after `'*'`. -/
def parseArray (buf : Bytes) (parseChild : ℕ → Parse (RespValue × ℕ)) (pos : ℕ) : Parse (RespValue × ℕ) := do
  let (count, p) ← readNumberLine buf pos
  if count = -1 then return (.null, p)
  else if count < 0 ∨ (respMaxArrayLen : Int) < count then .error
  else
    let (elements, next) ← parseElements parseChild count.toNat p
    return ({ type := .array, elements := elements }, next)

/-- Parse one value at `pos`. With `bulkOnly` anything but a bulk string is refused. -/
def parseValue (buf : Bytes) (bulkOnly : Bool) : (room : ℕ) → (pos : ℕ) → Parse (RespValue × ℕ)
  | 0, _ => .error
  | room + 1, pos =>
    match buf[pos]? with
    | none => .incomplete
    | some type =>
      let p := pos + 1
      if bulkOnly ∧ type ≠ 36 then .error
      else if type = 36 then parseBulk buf p
      else if type = 42 then parseArray buf (parseValue buf bulkOnly room) p
      else if type = 43 ∨ type = 45 then do
        let crPos ← findLineEnd buf p respMaxInlineLen
        let s := (buf.drop p).take (crPos - p)
        return ({ type := if type = 43 then .simpleString else .error, str := some s, len := crPos - p },
          crPos + 2)
      else if type = 58 then do
        let (v, next) ← readNumberLine buf p
        return ({ type := .integer, integer := v }, next)
      else .error

/-! ## Inline commands -/

/-- The test `c == ' ' || c == '\t'`. -/
def isBlank (c : UInt8) : Bool := c == 32 || c == 9

/-- The word loop of `parse_inline`: skip blanks, then take the bytes up to the next blank. Every round uses a
byte, so a round for each byte is enough. -/
def inlineWords : ℕ → Bytes → List Bytes
  | 0, _ => []
  | rounds + 1, line =>
    let line := line.dropWhile isBlank
    if line = [] then []
    else line.takeWhile (!isBlank ·) :: inlineWords rounds (line.dropWhile (!isBlank ·))

/-- Parse a line of blank-separated words, ended by `'\n'` or `"\r\n"`. -/
def parseInline (buf : Bytes) : Parse (RespValue × ℕ) :=
  if lf ∉ buf then
    if respMaxInlineLen < buf.length then .error else .incomplete
  else
    let nl := buf.idxOf lf
    if respMaxInlineLen < nl then .error
    else
      let line := buf.take nl
      let line := if line.getLast? = some cr then line.dropLast else line
      .ok ({ type := .array, elements := (inlineWords line.length line).map .bulk }, nl + 1)

/-! ## Entry points -/

def respParseCommand (buf : Bytes) : Parse (RespValue × ℕ) :=
  if buf.length = 0 then .incomplete
  else if buf[0]? ≠ some 42 then parseInline buf
  else do
    let (count, _) ← readNumberLine buf 1
    -- a request must be a non-null array of bulk strings
    if count < 0 then .error
    else parseArray buf (parseValue buf true respMaxDepth) 1

def respParseReply (buf : Bytes) : Parse (RespValue × ℕ) := parseValue buf false (respMaxDepth + 1) 0

end PulseDB
