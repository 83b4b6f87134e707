import PulseDB.Server.Executions

/-!
# The event loop (`server.c`)

The system calls answer what they please: the results of `poll`, `read`, `write` and `accept` are inputs.
Clients are numbered in the order in which they are accepted, so that the array of the source holds them by
increasing number.

* `readFromClient`, `writeToClient`, `serviceClient` : what the loop does for one client;
* `EventLoop`, `acceptClients`, `serviceBlocked`, `removeClosedClients`, `serverTurn`, `serverRun` : the loop.
-/

namespace PulseDB
open Lib Lib.Prog

variable {D : Type} [LinearOrder D]

/-! ## One client -/

/-- The size of the buffer `chunk` of `read_from_client`. -/
def readChunkSize : ℕ := 16384

/-- What `read` answers: some bytes, none at the end of the stream, or an error. -/
inductive ReadResult where
  | bytes (chunk : Bytes)
  | interrupted
  | wouldBlock
  | failed

/-- What `write` answers: how many bytes it has taken, or an error. -/
inductive WriteResult where
  | sent (n : ℕ)
  | interrupted
  | wouldBlock
  | failed

/-- How the loop of `read_from_client` ends. -/
inductive ReadEnd where
  | later
  | eof
  | failed
  deriving DecidableEq

/-- The loop of `read_from_client`: the bytes appended to the buffer, and how it ends. -/
def readLoop : List ReadResult → Bytes × ReadEnd
  | [] => ([], .later)
  | .bytes chunk :: rest =>
    if chunk = [] then ([], .eof)
    else if chunk.length < readChunkSize then (chunk, .later)
    else (chunk ++ (readLoop rest).1, (readLoop rest).2)
  | .interrupted :: rest => readLoop rest
  | .wouldBlock :: _ => ([], .later)
  | .failed :: _ => ([], .failed)

/-- The loop of `write_to_client` over `len` bytes, of which `sent` have been taken: how many are taken in the
end, and whether the connection is gone. -/
def writeLoop (len : ℕ) : List WriteResult → ℕ → ℕ × Bool
  | [], sent => (sent, false)
  | result :: rest, sent =>
    if len ≤ sent then (sent, false)
    else
      match result with
      | .sent 0 => (sent, true)
      | .sent n => writeLoop len rest (sent + min n (len - sent))
      | .interrupted => writeLoop len rest sent
      | .wouldBlock => (sent, false)
      | .failed => (sent, true)

def modifyClient (f : Client → Client) : Cmd D Unit := Prog.modify fun s => { s with client := f s.client }

def readFromClient (results : List ReadResult) : Cmd D Unit := do
  modifyClient fun c => { c with inBuf := c.inBuf ++ (readLoop results).1 }
  if (readLoop results).2 = .failed then modifyClient ({ · with closed := true })
  else do
    let _ ← processInput
    if (readLoop results).2 = .eof then
      modifyClient fun c => { c with
        closeAfterReply := true, closed := c.closed || c.blockedReq.isSome || decide (c.out.length = 0) }
    else return ()

def writeToClient (results : List WriteResult) : Cmd D Unit := do
  let s ← Prog.get
  let (sent, failed) := writeLoop s.client.out.length results 0
  modifyClient fun c => { c with out := c.out.drop sent, closed := c.closed || failed }
  modifyClient fun c => { c with closed := c.closed || c.closeAfterReply && decide (c.out.length = 0) }

/-- The body of the loop of `service_blocked`. -/
def serviceClient (now : Int) : Cmd D Unit := do
  let s ← Prog.get
  match s.client.blockedReq with
  | none => return ()
  | some req =>
    if s.client.closed then return ()
    else do
      let timedOut := decide (s.client.blockDeadline ≠ 0 ∧ s.client.blockDeadline ≤ now)
      if (← commandRetryBlocked req timedOut) = .done then do
        modifyClient ({ · with blockedReq := none })
        let _ ← processInput
        return ()
      else return ()

/-! ## All clients -/

/-- The server, and how many clients it has accepted. -/
structure EventLoop (D : Type) extends Server D where
  accepted : ℕ := 0

def EventLoop.start (store : Store D) : EventLoop D := { store := store, clients := fun _ => none }

/-- The loop after a program of client `i` has ended in session `s`, and the client is `c`. -/
def EventLoop.put (l : EventLoop D) (i : ℕ) (s : Sess D) (c : Option Client) : EventLoop D :=
  { l with toServer := l.toServer.put i s c }

abbrev LoopProg (D α : Type) := Prog (Env D) (EventLoop D) Fault α

/-- Run a program for client `i`, if there is such a client. -/
def forClient (m : Cmd D Unit) (i : ℕ) : LoopProg D Unit := fun e l =>
  match l.clients i with
  | none => .ok ((), l)
  | some c =>
    match m e (l.sess c) with
    | .ok (_, s) => .ok ((), l.put i s (some s.client))
    | .error fault => .error fault

/-- Run a program for some clients, one after the other. -/
def eachClient (m : ℕ → Cmd D Unit) : List ℕ → LoopProg D Unit
  | [] => return ()
  | i :: rest => do
    forClient (m i) i
    eachClient m rest

/-- The loop with one more client. -/
def EventLoop.clientAdd (l : EventLoop D) : EventLoop D :=
  { l.put l.accepted (l.sess {}) (some {}) with accepted := l.accepted + 1 }

/-- Accept `n` connections. -/
def acceptClients : ℕ → LoopProg D Unit
  | 0 => return ()
  | n + 1 => do
    Prog.modify EventLoop.clientAdd
    acceptClients n

def serviceBlocked : LoopProg D Unit := do
  let now ← Prog.step fun e l => (e.mono l.monoTick, { l with monoTick := l.monoTick + 1 })
  let l ← Prog.get
  eachClient (fun _ => serviceClient now) (List.range l.accepted)

/-- Free client `i` if it is closed. -/
def EventLoop.clientFree (l : EventLoop D) (i : ℕ) : EventLoop D :=
  match l.clients i with
  | none => l
  | some c => if c.closed then l.put i (l.sess c) none else l

def removeClosedClients : LoopProg D Unit := do
  let l ← Prog.get
  Prog.modify fun l' => (List.range l.accepted).foldl EventLoop.clientFree l'

/-- What the system calls of a turn answer: what each client that is ready reads, how many connections are
accepted, and what each client can write. -/
structure Poll where
  reads : ℕ → Option (List ReadResult)
  accepts : ℕ
  writes : ℕ → List WriteResult

def EventLoop.anyBlocked (l : EventLoop D) : Bool :=
  (List.range l.accepted).any fun i => (l.clients i).any fun c => c.blockedReq.isSome

/-- One turn of `server_run`. -/
def serverTurn (poll : Poll) : LoopProg D Unit := do
  let l ← Prog.get
  eachClient (fun i => (poll.reads i).elim (pure ()) readFromClient) (List.range l.accepted)
  acceptClients poll.accepts
  (if l.anyBlocked then serviceBlocked else pure ())
  let l ← Prog.get
  eachClient (fun i => do
    let s ← Prog.get
    if !s.client.closed && decide (s.client.out.length ≠ 0) then writeToClient (poll.writes i) else return ())
    (List.range l.accepted)
  removeClosedClients

/-- Some turns of `server_run`. -/
def serverRun : List Poll → LoopProg D Unit
  | [] => return ()
  | poll :: rest => do
    serverTurn poll
    serverRun rest

end PulseDB
