import PulseDB.Geo
import PulseDB.Lib.Prog
import PulseDB.Resp.Parse
import PulseDB.Resp.Reply
import PulseDB.Store.Keyspace

/-!
# Clients, sessions and command programs (`server.h`, `txn.h`, `cmd.h`)

A command runs for one client against the store. `Sess` is what it can change: the store, the client, and how
many clock readings have been made; `Env` is what it can read: the library, the configuration and the two
clocks. The readings of a clock are any sequence of numbers.

* `Cmd` : a program over a session. A step the C language leaves undefined is a `Fault`;
* `arg`, `reply`, `call`, `nowMs` : what the handlers are written with.
-/

namespace PulseDB
open Lib

/-! ## The state -/

structure Config where
  port : Int
  hz : Int
  bind : Bytes
  loglevel : Bytes
  dir : Bytes
  dbfilename : Bytes

/-- The function `config_create_default`. -/
def configCreateDefault : Config where
  port := 6379
  hz := 10
  bind := ascii "127.0.0.1"
  loglevel := ascii "notice"
  dir := ascii "."
  dbfilename := ascii "dump.rdb"

def txnMaxCmds : ℕ := 1024

/-- The `MULTI`/`EXEC` state of a connection; `count` is the length of `cmds`. -/
structure Txn where
  cmds : List RespValue := []
  active : Bool := false
  error : Bool := false

/-- Back to the state of a new connection. -/
def txnReset (_ : Txn) : Txn := {}

/-- Queue a request; `none` if the queue is full. -/
def txnQueue (txn : Txn) (cmd : RespValue) : Option Txn :=
  if txn.cmds.length ≥ txnMaxCmds then none else some { txn with cmds := txn.cmds ++ [cmd] }

structure Client where
  inBuf : Bytes := []
  out : Bytes := []
  txn : Txn := {}
  blockedReq : Option RespValue := none
  blockDeadline : Int := 0
  closeAfterReply : Bool := false
  closed : Bool := false

/-- What a program of one client reads. -/
structure Env (D : Type) where
  libc : Libc D
  cfg : Config
  /-- the readings of `now_ms` -/
  clock : ℕ → Int
  /-- the readings of `mono_ms` -/
  mono : ℕ → Int

/-- An environment to evaluate programs in: the default configuration, and integers for doubles. -/
def Env.integers (clock mono : ℕ → Int) : Env Int := ⟨.integers, configCreateDefault, clock, mono⟩

/-- What a program of one client changes; `tick` and `monoTick` count the readings of the two clocks. -/
structure Sess (D : Type) where
  store : Store D
  client : Client
  tick : ℕ := 0
  monoTick : ℕ := 0

/-- A step that C leaves undefined. -/
inductive Fault where
  /-- a null `str` is used as a string -/
  | nullStr
  /-- an element beyond the end of an array is read -/
  | index
  /-- a null function pointer or specification is called -/
  | nullProc
  /-- a variable that no call has set is read -/
  | unset
  /-- a store call finds another type than the type check before it; no handler of the source faults so -/
  | retyped
  deriving DecidableEq, Repr

abbrev Cmd (D α : Type) := Prog (Env D) (Sess D) Fault α

/-! ## Programs -/

inductive CmdStatus where
  | done
  | block
  deriving DecidableEq, Repr

structure CommandCtx where
  req : RespValue
  canBlock : Bool
  timedOut : Bool

/-- The macro `ARGC`. -/
def CommandCtx.argc (ctx : CommandCtx) : ℕ := ctx.req.count

section Programs
variable {D : Type}

/-- The element `req->elements[i]`. -/
def element (req : RespValue) (i : ℕ) : Cmd D RespValue :=
  match req.elements[i]? with
  | none => Prog.fault .index
  | some e => pure e

/-- The string of an element, used as a C string. -/
def strOf (e : RespValue) : Cmd D Bytes :=
  match e.str with
  | none => Prog.fault .nullStr
  | some s => pure (cstr s)

/-- The macro `ARG(i)`, used as a C string. -/
def arg (ctx : CommandCtx) (i : ℕ) : Cmd D Bytes := do strOf (← element ctx.req i)

/-- Append to the output buffer of the client. -/
def reply (bytes : Bytes) : Cmd D Unit :=
  Prog.modify fun s => { s with client := { s.client with out := s.client.out ++ bytes } }

/-- Write a reply and return `CMD_DONE`. -/
def answer (bytes : Bytes) : Cmd D CmdStatus := do
  reply bytes
  return .done

/-- A reading of `now_ms`. -/
def nowMs : Cmd D Int := Prog.step fun e s => (e.clock s.tick, { s with tick := s.tick + 1 })

/-- A reading of `mono_ms`. -/
def monoMs : Cmd D Int := Prog.step fun e s => (e.mono s.monoTick, { s with monoTick := s.monoTick + 1 })

/-- Call a store operation; it makes at most two readings of the clock. -/
def call [LinearOrder D] {α : Type} (op : StoreOp D α) (key : Bytes) : Cmd D α :=
  Prog.step fun e s =>
    let r := op.exec s.store key (e.clock s.tick) (e.clock (s.tick + 1))
    (r.1, { s with store := r.2, tick := s.tick + 2 })

/-- How a handler calls the store. The handlers that look a key up several times have it as a parameter. -/
abbrev StoreCall (D : Type) := {β : Type} → StoreOp D (Except StoreStatus β) → Bytes →
    Cmd D (Except StoreStatus β)

/-- Call `store_scan` with a visitor; it makes one reading of the clock. -/
def scan {γ : Type} (visit : γ → StoreEntry D → γ) (ctx : γ) : Cmd D γ :=
  Prog.step fun e s => (storeScan s.store (e.clock s.tick) visit ctx, { s with tick := s.tick + 1 })

end Programs

/-! ## Error messages of `cmd.h` -/

def errWrongtype : Bytes := ascii "WRONGTYPE Operation against a key holding the wrong kind of value"

def errNotInt : Bytes := ascii "ERR value is not an integer or out of range"

def errNotFloat : Bytes := ascii "ERR value is not a valid float"

def errSyntax : Bytes := ascii "ERR syntax error"

end PulseDB
