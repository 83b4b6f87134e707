import PulseDB.Server.EventLoop

/-!
# What passes through the sockets

What the event loop and a client exchange, as the answers of the system calls tell it and not the loops that
make the calls.

* `bytesGiven`, `bytesTaken` : the bytes that calls of `read` give and calls of `write` take;
  `readLoop_given`, `writeLoop_taken` : the loops append the former and drop the latter;
* `Traffic` : the bytes read from a client, those written to it, and the requests run for it;
* `readTraffic`, `serviceTraffic`, `writeTraffic` : the traffic of the programs of one client;
* `turnTraffic`, `serverTraffic` : that of the turns of the loop.
-/

namespace PulseDB
open Lib Lib.Prog

/-! ## The system calls -/

/-- The answers to the calls of `read` that `read_from_client` makes: it calls again after a full chunk, and
after a call that was interrupted. -/
def readCalls : List ReadResult → List ReadResult
  | [] => []
  | .bytes chunk :: rest => .bytes chunk :: if chunk.length < readChunkSize then [] else readCalls rest
  | .interrupted :: rest => .interrupted :: readCalls rest
  | result :: _ => [result]

def ReadResult.given : ReadResult → Bytes
  | .bytes chunk => chunk
  | _ => []

/-- The bytes that the calls of `read` give. -/
def bytesGiven (results : List ReadResult) : Bytes := (readCalls results).flatMap ReadResult.given

/-- The bytes that the calls of `write` take, each of which hands over what the calls before it have left of
`out`. There is no call after one that takes nothing or fails, unless it was interrupted. -/
def bytesTaken : Bytes → List WriteResult → Bytes
  | _, [] => []
  | out, .sent n :: rest => if n = 0 then [] else out.take n ++ bytesTaken (out.drop n) rest
  | out, .interrupted :: rest => bytesTaken out rest
  | _, _ :: _ => []

theorem readLoop_given (results : List ReadResult) : (readLoop results).1 = bytesGiven results := by
  fun_induction readLoop results with
  | case1 => rfl
  | case2 rest => simp [bytesGiven, readCalls, ReadResult.given, readChunkSize]
  | case3 chunk rest _ hshort => simp [bytesGiven, readCalls, ReadResult.given, hshort]
  | case4 chunk rest _ hfull ih => simp [bytesGiven, readCalls, ReadResult.given, hfull, ih]
  | case5 rest ih => simp [bytesGiven, readCalls, ReadResult.given, ih]
  | case6 => rfl
  | case7 => rfl

@[simp] theorem bytesTaken_nil (results : List WriteResult) : bytesTaken [] results = [] := by
  induction results with
  | nil => rfl
  | cons result rest ih => cases result <;> simp [bytesTaken, ih]

theorem writeLoop_taken (out : Bytes) (results : List WriteResult) (sent : ℕ) :
    out.take (writeLoop out.length results sent).1 = out.take sent ++ bytesTaken (out.drop sent) results := by
  fun_induction writeLoop out.length results sent with
  | case1 => simp [bytesTaken]
  | case2 sent result rest hall => simp [List.drop_of_length_le hall]
  | case3 => simp [bytesTaken]
  | case4 rest sent hmore n hn ih =>
    have htake : out.take (sent + min n (out.length - sent)) = out.take sent ++ (out.drop sent).take n := by
      rw [List.take_add, List.append_right_inj, List.take_eq_take_iff, List.length_drop]
      omega
    have hdrop : out.drop (sent + min n (out.length - sent)) = (out.drop sent).drop n := by
      rw [List.drop_drop, List.drop_eq_drop_iff]
      omega
    have hpos : n ≠ 0 := fun hzero => hn hzero
    rw [ih, htake, hdrop, List.append_assoc, bytesTaken, if_neg hpos]
  | case5 rest sent hmore ih => rw [ih, bytesTaken]
  | case6 => simp [bytesTaken]
  | case7 => simp [bytesTaken]

/-! ## Traffic -/

/-- What passes between the loop and a client: the bytes read from it, the bytes written to it, and the
requests run for it, a parked one each time it is tried. -/
@[ext] structure Traffic where
  read : Bytes := []
  written : Bytes := []
  ran : List RespValue := []

namespace Traffic

instance : Append Traffic := ⟨fun a b => ⟨a.read ++ b.read, a.written ++ b.written, a.ran ++ b.ran⟩⟩

theorem append_def (a b : Traffic) : a ++ b = ⟨a.read ++ b.read, a.written ++ b.written, a.ran ++ b.ran⟩ :=
  rfl

@[simp] theorem empty_append (a : Traffic) : {} ++ a = a := rfl

@[simp] theorem append_empty (a : Traffic) : a ++ {} = a := by
  simp [append_def]

theorem read_append_ran (bytes : Bytes) (reqs : List RespValue) :
    ({ read := bytes } : Traffic) ++ { ran := reqs } = { read := bytes, ran := reqs } := by
  simp [append_def]

end Traffic

variable {D : Type} [LinearOrder D]

/-! ## The programs of a client -/

def nonBlank (reqs : List RespValue) : List RespValue := reqs.filter fun req => req.count ≠ 0

/-- The requests that `process_input` runs. -/
def inputRan (e : Env D) (s : Sess D) : List RespValue :=
  match processInput e s with
  | .ok (reqs, _) => nonBlank reqs
  | .error _ => []

theorem inputRan_of_ok {e : Env D} {s s' : Sess D} {reqs : List RespValue}
    (h : processInput e s = .ok (reqs, s')) :
    inputRan e s = nonBlank reqs := by
  rw [inputRan, h]

/-- The client's parked request has timed out at time `now`. -/
def Client.timedOut (c : Client) (now : Int) : Bool := decide (c.blockDeadline ≠ 0 ∧ c.blockDeadline ≤ now)

def readTraffic (e : Env D) (results : List ReadResult) (s : Sess D) : Traffic where
  read := bytesGiven results
  ran := if (readLoop results).2 = .failed then []
    else inputRan e { s with client := { s.client with inBuf := s.client.inBuf ++ bytesGiven results } }

def serviceTraffic (e : Env D) (now : Int) (s : Sess D) : Traffic where
  ran := match s.client.blockedReq with
    | none => []
    | some req =>
      if s.client.closed then []
      else req :: match commandRetryBlocked req (s.client.timedOut now) e s with
        | .ok (.done, s') => inputRan e { s' with client := { s'.client with blockedReq := none } }
        | _ => []

def writeTraffic (results : List WriteResult) (s : Sess D) : Traffic where
  written := if s.client.closed then [] else bytesTaken s.client.out results

/-! ## The turns of the loop -/

/-- The state in which a program leaves the loop. -/
def stateAfter (m : LoopProg D Unit) (e : Env D) (l : EventLoop D) : EventLoop D :=
  match m e l with
  | .ok (_, l') => l'
  | .error _ => l

omit [LinearOrder D] in
theorem stateAfter_of_ok {m : LoopProg D Unit} {e : Env D} {l l' : EventLoop D} {u : Unit}
    (h : m e l = .ok (u, l')) :
    stateAfter m e l = l' := by
  rw [stateAfter, h]

/-- The traffic of client `i` while the programs `m` of the first `n` clients run one after the other, where
`observe` tells it from the session in which its program starts. -/
def phaseTraffic (m : ℕ → Cmd D Unit) (observe : ℕ → Sess D → Traffic) (n : ℕ) (e : Env D)
    (l : EventLoop D) (i : ℕ) :
    Traffic :=
  if i < n then
    let l' := stateAfter (eachClient m (List.range i)) e l
    (l'.clients i).elim {} fun c => observe i (l'.sess c)
  else {}

/-- The traffic of client `i` in one turn. -/
def turnTraffic (e : Env D) (poll : Poll) (l : EventLoop D) (i : ℕ) : Traffic :=
  let reading := fun i => (poll.reads i).elim (pure ()) readFromClient
  let writing := fun i => do
    let s ← Prog.get
    if !s.client.closed && decide (s.client.out.length ≠ 0) then writeToClient (poll.writes i) else return ()
  let l₁ := stateAfter (do
    eachClient reading (List.range l.accepted)
    acceptClients poll.accepts) e l
  let now := e.mono l₁.monoTick
  let l₂ := stateAfter (if l.anyBlocked then serviceBlocked else pure ()) e l₁
  phaseTraffic reading (fun i s => (poll.reads i).elim {} fun results => readTraffic e results s)
    l.accepted e l i ++
    (if l.anyBlocked then phaseTraffic (fun _ => serviceClient now)
      (fun _ => serviceTraffic e now) l₁.accepted e
        { l₁ with monoTick := l₁.monoTick + 1 } i
      else {}) ++
    phaseTraffic writing (fun i => writeTraffic (poll.writes i)) l₂.accepted e l₂ i

/-- The traffic of client `i` in some turns. -/
def serverTraffic (e : Env D) : List Poll → EventLoop D → ℕ → Traffic
  | [], _, _ => {}
  | poll :: rest, l, i => turnTraffic e poll l i ++ serverTraffic e rest (stateAfter (serverTurn poll) e l) i

theorem serverTraffic_cons {e : Env D} {poll : Poll} {rest : List Poll} {l l' : EventLoop D} {u : Unit}
    (h : serverTurn poll e l = .ok (u, l')) :
    serverTraffic e (poll :: rest) l = fun i => turnTraffic e poll l i ++ serverTraffic e rest l' i := by
  funext i
  rw [serverTraffic, stateAfter_of_ok h]

end PulseDB
