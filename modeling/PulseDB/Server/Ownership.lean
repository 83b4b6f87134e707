import PulseDB.Lib.Heap
import PulseDB.Lib.Relational
import PulseDB.Server.EventLoop

/-!
# Requests as objects with an owner (`commands.c`, `txn.c`, `server.c`)

A parsed request is an object, passed on by pointer: `process_input` frees it once it is done, unless it has
moved into the queue of a transaction or has been kept as the request a client is parked with. The functions
here are those of the event loop for one client, with the pointers in place of the requests; a pointer to a
freed request makes them fail.

* `Client.view` : the client as the handlers see it, with the requests behind its pointers;
* `txnReset`, `execTransaction`, `commandProcess`, `processInput`, `serviceClient`, `freeRequests` : the
  functions;
* `Shows others s t` : the session `t` of the model with requests in place is what `s` shows, and the live
  requests are those the client points to and the `others`, each once;
* `Mirrors` : two programs that keep this relation and answer the same; `commandProcess_rel`,
  `processInput_mirrors`, `serviceClient_mirrors` and the like.
-/

namespace PulseDB.Mem
open Lib Lib.Prog

/-! ## The functions -/

inductive Fault where
  /-- a step of a handler that C leaves undefined -/
  | prog (fault : PulseDB.Fault)
  /-- a pointer to no object is used or freed -/
  | dangling
  /-- an array is used beyond its end -/
  | index
  deriving DecidableEq, Repr

structure Txn where
  cmds : List ℕ := []
  active : Bool := false
  error : Bool := false

structure Client where
  inBuf : Bytes := []
  out : Bytes := []
  txn : Txn := {}
  blockedReq : Option ℕ := none
  blockDeadline : Int := 0
  closeAfterReply : Bool := false
  closed : Bool := false

structure Sess (D : Type) where
  store : Store D
  client : Client
  heap : Heap RespValue
  tick : ℕ := 0
  monoTick : ℕ := 0

abbrev Cmd (D α : Type) := Prog (Env D) (Sess D) Fault α

def Client.pointers (c : Client) : List ℕ := c.txn.cmds ++ c.blockedReq.toList

/-- The client with requests in place of its pointers. -/
def Client.shown (c : Client) (cmds : List RespValue) (parked : Option RespValue) : PulseDB.Client where
  inBuf := c.inBuf
  out := c.out
  txn := ⟨cmds, c.txn.active, c.txn.error⟩
  blockedReq := parked
  blockDeadline := c.blockDeadline
  closeAfterReply := c.closeAfterReply
  closed := c.closed

/-- The client as the handlers see it. -/
def Client.view (heap : Heap RespValue) (c : Client) : Option PulseDB.Client :=
  (heap.readAll c.txn.cmds).bind fun cmds => (heap.readAll c.blockedReq.toList).map fun parked =>
    c.shown cmds parked.head?

section Functions
variable {D : Type}

def deref (p : ℕ) : Cmd D RespValue := fun _ s =>
  match s.heap.cells p with
  | none => .error .dangling
  | some req => .ok (req, s)

/-- The object that `resp_parse_command` returns. -/
def respAlloc (req : RespValue) : Cmd D ℕ :=
  Prog.step fun _ s => (s.heap.next, { s with heap := s.heap.alloc req })

def respFree (p : ℕ) : Cmd D Unit := fun _ s =>
  match s.heap.free p with
  | none => .error .dangling
  | some heap => .ok ((), { s with heap := heap })

/-- Run a program that reads the client and leaves its pointers as they are, as handlers do. -/
def onView {α : Type} (m : PulseDB.Cmd D α) : Cmd D α := fun e s =>
  match s.client.view s.heap with
  | none => .error .dangling
  | some c =>
    match m e ⟨s.store, c, s.tick, s.monoTick⟩ with
    | .error fault => .error (.prog fault)
    | .ok (a, t) => .ok (a, { s with
        store := t.store, tick := t.tick, monoTick := t.monoTick,
        client := { s.client with out := t.client.out, blockDeadline := t.client.blockDeadline } })

def modifyClient (f : Client → Client) : Cmd D Unit := Prog.modify fun s => { s with client := f s.client }

def modifyTxn (f : Txn → Txn) : Cmd D Unit := modifyClient fun c => { c with txn := f c.txn }

def reply (bytes : Bytes) : Cmd D Unit := modifyClient fun c => { c with out := c.out ++ bytes }

/-- The loop of `txn_reset`. -/
def freeCmds : List ℕ → Cmd D Unit
  | [] => pure ()
  | p :: ps => do
    respFree p
    freeCmds ps

def txnReset : Cmd D Unit := do
  let s ← Prog.get
  freeCmds s.client.txn.cmds
  modifyTxn fun _ => {}

/-- Queue a request; `none` if the queue is full. -/
def txnQueue (txn : Txn) (p : ℕ) : Option Txn :=
  if txn.cmds.length ≥ txnMaxCmds then none else some { txn with cmds := txn.cmds ++ [p] }

variable [LinearOrder D]

/-- The loop of `exec_transaction`. -/
def execQueued : List ℕ → Cmd D Unit
  | [] => pure ()
  | p :: ps => do
    let req ← deref p
    let _ ← onView (runFound req false false)
    execQueued ps

def execTransaction : Cmd D Unit := do
  let s ← Prog.get
  if s.client.txn.error then do
    txnReset
    reply (replyError (ascii "EXECABORT Transaction discarded because of previous errors."))
  else do
    reply (replyArray s.client.txn.cmds.length)
    execQueued s.client.txn.cmds
    txnReset

def commandProcess (p : ℕ) : Cmd D CommandResult := do
  let req ← deref p
  match ← onView (validate req) with
  | none => do
    modifyTxn fun txn => if txn.active then { txn with error := true } else txn
    return .done
  | some spec => do
    let s ← Prog.get
    let txn := s.client.txn
    match spec.kind with
    | .multi =>
      if txn.active then do
        reply (replyError (ascii "ERR MULTI calls can not be nested"))
        return .done
      else do
        modifyTxn ({ · with active := true })
        reply (replySimple (ascii "OK"))
        return .done
    | .exec =>
      if !txn.active then do
        reply (replyError (ascii "ERR EXEC without MULTI"))
        return .done
      else do
        execTransaction
        return .done
    | .discard =>
      if !txn.active then do
        reply (replyError (ascii "ERR DISCARD without MULTI"))
        return .done
      else do
        txnReset
        reply (replySimple (ascii "OK"))
        return .done
    | .normal =>
      if txn.active then
        match txnQueue txn p with
        | none => do
          modifyTxn ({ · with error := true })
          reply (replyError (ascii "ERR transaction queue is full"))
          return .done
        | some queue => do
          modifyTxn fun _ => queue
          reply (replySimple (ascii "QUEUED"))
          return .queued
      else do
        let st ← onView (run spec req true false)
        return st.result

def commandRetryBlocked (p : ℕ) (timedOut : Bool) : Cmd D CommandResult := do
  let req ← deref p
  let st ← onView (runFound req true timedOut)
  return st.result

/-- What `process_input` does with a parsed request. -/
def processRequest (p : ℕ) : Cmd D Unit := do
  let req ← deref p
  if req.count = 0 then respFree p
  else do
    match ← commandProcess p with
    | .done => respFree p
    | .queued => return ()
    | .blocked => modifyClient ({ · with blockedReq := some p })

def condemn (msg : Bytes) : Cmd D Unit :=
  modifyClient fun c => { c with out := c.out ++ replyError msg, closeAfterReply := true }

/-- The loop of `process_input` from `pos` on, at most `rounds` times; answers the new `pos`. -/
def processLoop : ℕ → ℕ → Cmd D ℕ
  | 0, pos => return pos
  | rounds + 1, pos => do
    let s ← Prog.get
    if s.client.blockedReq.isSome || s.client.closeAfterReply || decide (s.client.inBuf.length ≤ pos) then
      return pos
    else
      match respParseCommand (s.client.inBuf.drop pos) with
      | .incomplete => return pos
      | .error => do
        condemn (ascii "ERR Protocol error")
        return pos
      | .ok (req, used) => do
        let p ← respAlloc req
        processRequest p
        processLoop rounds (pos + used)

def processInput : Cmd D Unit := do
  let s ← Prog.get
  let pos ← processLoop (s.client.inBuf.length + 1) 0
  modifyClient fun c => { c with inBuf := c.inBuf.drop pos }
  let s ← Prog.get
  if s.client.inBuf.length > clientMaxQueryBuf then condemn (ascii "ERR Protocol error: request too large")
  else return ()

def readFromClient (results : List ReadResult) : Cmd D Unit := do
  modifyClient fun c => { c with inBuf := c.inBuf ++ (readLoop results).1 }
  if (readLoop results).2 = .failed then modifyClient ({ · with closed := true })
  else do
    processInput
    if (readLoop results).2 = .eof then
      modifyClient fun c => { c with
        closeAfterReply := true, closed := c.closed || c.blockedReq.isSome || decide (c.out.length = 0) }
    else return ()

omit [LinearOrder D] in
def writeToClient (results : List WriteResult) : Cmd D Unit := do
  let s ← Prog.get
  let (sent, failed) := writeLoop s.client.out.length results 0
  modifyClient fun c => { c with out := c.out.drop sent, closed := c.closed || failed }
  modifyClient fun c => { c with closed := c.closed || c.closeAfterReply && decide (c.out.length = 0) }

/-- The body of the loop of `service_blocked`. -/
def serviceClient (now : Int) : Cmd D Unit := do
  let s ← Prog.get
  match s.client.blockedReq with
  | none => return ()
  | some p =>
    if s.client.closed then return ()
    else do
      let timedOut := decide (s.client.blockDeadline ≠ 0 ∧ s.client.blockDeadline ≤ now)
      if (← commandRetryBlocked p timedOut) = .done then do
        respFree p
        modifyClient ({ · with blockedReq := none })
        processInput
      else return ()

omit [LinearOrder D] in
/-- The function `client_free`, as far as requests go. -/
def freeRequests : Cmd D Unit := do
  txnReset
  let s ← Prog.get
  match s.client.blockedReq with
  | none => return ()
  | some p => respFree p

end Functions

/-! ## What a session shows -/

section Shows
variable {D : Type} {heap heap' : Heap RespValue} {c : Client} {v : PulseDB.Client}

theorem Client.view_eq_some : c.view heap = some v ↔ ∃ cmds parked, heap.readAll c.txn.cmds = some cmds ∧
    heap.readAll c.blockedReq.toList = some parked ∧ v = c.shown cmds parked.head? := by
  simp only [Client.view, Option.bind_eq_some_iff, Option.map_eq_some_iff]
  constructor
  · rintro ⟨cmds, h₁, parked, h₂, rfl⟩
    exact ⟨cmds, parked, h₁, h₂, rfl⟩
  · rintro ⟨cmds, parked, h₁, h₂, rfl⟩
    exact ⟨cmds, h₁, parked, h₂, rfl⟩

theorem Client.view_congr (h : ∀ p ∈ c.pointers, heap'.cells p = heap.cells p) :
    c.view heap' = c.view heap := by
  have hcmds := Heap.readAll_congr fun p hp => h p (List.mem_append_left _ hp)
  have hparked := Heap.readAll_congr fun p hp => h p (List.mem_append_right _ hp)
  rw [Client.view, Client.view, hcmds, hparked]

/-- The request the client is parked with is the one its pointer points to. -/
theorem Client.view_blockedReq (h : c.view heap = some v) :
    match c.blockedReq with
    | none => v.blockedReq = none
    | some p => ∃ req, heap.cells p = some req ∧ v.blockedReq = some req := by
  obtain ⟨cmds, parked, -, hread, rfl⟩ := Client.view_eq_some.mp h
  cases hb : c.blockedReq with
  | none =>
    rw [hb] at hread
    cases hread
    rfl
  | some p =>
    rw [hb] at hread
    obtain ⟨req, hreq, hrest⟩ := Option.bind_eq_some_iff.mp hread
    cases hrest
    exact ⟨req, hreq, rfl⟩

theorem Client.view_isSome (h : c.view heap = some v) : v.blockedReq.isSome = c.blockedReq.isSome := by
  have hb := Client.view_blockedReq h
  cases hc : c.blockedReq with
  | none =>
    rw [hc] at hb
    rw [hb]
    rfl
  | some p =>
    rw [hc] at hb
    obtain ⟨req, -, hv⟩ := hb
    rw [hv]
    rfl

/-- The session `t` is what `s` shows; the live requests are those of the client and the `others`. -/
structure Shows (others : List ℕ) (s : Sess D) (t : PulseDB.Sess D) : Prop where
  store : t.store = s.store
  tick : t.tick = s.tick
  monoTick : t.monoTick = s.monoTick
  client : s.client.view s.heap = some t.client
  owned : s.heap.Owned (s.client.pointers ++ others)

theorem Shows.fields {others : List ℕ} {s : Sess D} {t : PulseDB.Sess D} (h : Shows others s t) :
    t.client.inBuf = s.client.inBuf ∧ t.client.out = s.client.out ∧
    t.client.blockDeadline = s.client.blockDeadline ∧ t.client.closeAfterReply = s.client.closeAfterReply ∧
    t.client.closed = s.client.closed := by
  obtain ⟨cmds, parked, -, -, hv⟩ := Client.view_eq_some.mp h.client
  rw [hv]
  exact ⟨rfl, rfl, rfl, rfl, rfl⟩

/-- The objects behind some pointers stay as they are. -/
def Kept (heap heap' : Heap RespValue) (ps : List ℕ) : Prop := ∀ p ∈ ps, heap'.cells p = heap.cells p

/-- Run from `s` and `t`, the programs meet the same fault of a handler, or answer the same in sessions of
which the second is again what the first shows; the requests of others are left alone. -/
def Mirrors {α : Type} (others : List ℕ) (m : Cmd D α) (n : PulseDB.Cmd D α) (e : Env D) (s : Sess D)
    (t : PulseDB.Sess D) : Prop :=
  rel m n e s t (fun x y => x = .prog y) fun a s' b t' => a = b ∧ Shows others s' t' ∧
    Kept s.heap s'.heap others

variable {others : List ℕ} {s : Sess D} {t : PulseDB.Sess D} {e : Env D} {α β : Type}

theorem Shows.modify (h : Shows others s t) (f : Client → Client) (g : PulseDB.Client → PulseDB.Client)
    (hcmds : (f s.client).txn.cmds = s.client.txn.cmds) (hparked : (f s.client).blockedReq =
      s.client.blockedReq)
    (hfg : ∀ cmds parked, (f s.client).shown cmds parked = g (s.client.shown cmds parked)) :
    Shows others { s with client := f s.client } { t with client := g t.client } := by
  obtain ⟨cmds, parked, h₁, h₂, hv⟩ := Client.view_eq_some.mp h.client
  refine ⟨h.store, h.tick, h.monoTick, Client.view_eq_some.mpr ⟨cmds, parked, ?_, ?_, ?_⟩, ?_⟩
  · rw [hcmds, h₁]
  · rw [hparked, h₂]
  · rw [hfg, ← hv]
  · rw [Client.pointers, hcmds, hparked]
    exact h.owned

theorem kept_refl (heap : Heap RespValue) (ps : List ℕ) : Kept heap heap ps := fun _ _ => rfl

theorem Kept.trans {heap'' : Heap RespValue} {ps : List ℕ} (h : Kept heap heap' ps)
    (h' : Kept heap' heap'' ps) :
    Kept heap heap'' ps := fun p hp => (h' p hp).trans (h p hp)

theorem Mirrors.modifyClient (h : Shows others s t) {f : Client → Client}
    {g : PulseDB.Client → PulseDB.Client}
    (hcmds : (f s.client).txn.cmds = s.client.txn.cmds) (hparked : (f s.client).blockedReq =
      s.client.blockedReq)
    (hfg : ∀ cmds parked, (f s.client).shown cmds parked = g (s.client.shown cmds parked)) :
    Mirrors others (modifyClient f) (PulseDB.modifyClient g) e s t :=
  ⟨rfl, h.modify f g hcmds hparked hfg, kept_refl _ _⟩

theorem Mirrors.reply (h : Shows others s t) (bytes : Bytes) :
    Mirrors others (reply bytes) (PulseDB.reply bytes) e s t := by
  show Mirrors others (Mem.modifyClient _) (PulseDB.modifyClient fun c =>
    { c with out := c.out ++ bytes }) e s t
  exact .modifyClient h rfl rfl fun _ _ => rfl

theorem Mirrors.modifyTxn (h : Shows others s t) {f : Txn → Txn} {g : PulseDB.Txn → PulseDB.Txn}
    (hcmds : (f s.client.txn).cmds = s.client.txn.cmds)
    (hfg : ∀ cmds, (⟨cmds, (f s.client.txn).active, (f s.client.txn).error⟩ : PulseDB.Txn) =
      g ⟨cmds, s.client.txn.active, s.client.txn.error⟩) :
    Mirrors others (modifyTxn f) (PulseDB.modifyTxn g) e s t := by
  show Mirrors others (Mem.modifyClient _) (PulseDB.modifyClient fun c => { c with txn := g c.txn }) e s t
  refine .modifyClient h hcmds rfl fun cmds parked => ?_
  rw [Client.shown, Client.shown, hfg]

theorem Mirrors.pure (h : Shows others s t) (a : α) : Mirrors others (Pure.pure a) (Pure.pure a) e s t :=
  rel_pure ⟨rfl, h, kept_refl _ _⟩

theorem Mirrors.bind {m : Cmd D α} {n : PulseDB.Cmd D α} {f : α → Cmd D β} {g : α → PulseDB.Cmd D β}
    (h : Mirrors others m n e s t) (hnext : ∀ a s' t', Shows others s' t' →
      Mirrors others (f a) (g a) e s' t') :
    Mirrors others (m >>= f) (n >>= g) e s t := by
  refine rel_bind h fun a s₁ b t₁ ⟨hab, hshows, hkept⟩ => ?_
  subst hab
  exact rel_mono (hnext a s₁ t₁ hshows) fun b s₂ b' t₂ ⟨hb, hshows₂, hkept₂⟩ =>
    ⟨hb, hshows₂, hkept.trans hkept₂⟩

/-- The session after a program of the view has ended in `t'`. -/
def Sess.seen (s : Sess D) (t' : PulseDB.Sess D) : Sess D :=
  { s with
    store := t'.store, tick := t'.tick, monoTick := t'.monoTick,
    client := { s.client with out := t'.client.out, blockDeadline := t'.client.blockDeadline } }

/-- The program leaves of the client all but the output and the deadline. -/
def Writes (t t' : PulseDB.Sess D) : Prop :=
  t'.client = { t.client with out := t'.client.out, blockDeadline := t'.client.blockDeadline }

/-- A program of the view does what it does where the requests are in place. -/
theorem onView_rel (h : Shows others s t) {m : PulseDB.Cmd D α} {W : α → PulseDB.Sess D → Prop}
    (hm : wlp m e t fun a t' => Writes t t' ∧ W a t') :
    rel (onView m) m e s t (fun x y => x = .prog y) fun a s' b t' =>
      a = b ∧ s' = s.seen t' ∧ Shows others s' t' ∧ W b t' := by
  have ht : (⟨s.store, t.client, s.tick, s.monoTick⟩ : PulseDB.Sess D) = t := by
    rw [← h.store, ← h.tick, ← h.monoTick]
  unfold rel onView
  rw [h.client]
  simp only [ht]
  cases hrun : m e t with
  | error x => rfl
  | ok r =>
    obtain ⟨hw, hW⟩ := hm r.1 r.2 hrun
    obtain ⟨cmds, parked, h₁, h₂, hv⟩ := Client.view_eq_some.mp h.client
    refine ⟨rfl, rfl, ⟨rfl, rfl, rfl, Client.view_eq_some.mpr ⟨cmds, parked, h₁, h₂, ?_⟩, h.owned⟩, hW⟩
    rw [hw, hv]
    rfl

theorem Mirrors.onView (h : Shows others s t) {m : PulseDB.Cmd D α} (hm : wlp m e t fun _ t' => Writes t t') :
    Mirrors others (onView m) m e s t := by
  refine rel_mono (onView_rel h (W := fun _ _ => True) (wlp_mono hm fun _ _ hw => ⟨hw, trivial⟩)) ?_
  rintro a s' b t' ⟨hab, rfl, hshows, -⟩
  exact ⟨hab, hshows, kept_refl _ _⟩

/-! ## Pointers that move -/

theorem deref_eq {p : ℕ} {req : RespValue} (hp : s.heap.cells p = some req) : deref p e s = .ok (req, s) := by
  rw [deref, hp]

theorem freeCmds_eq {heap : Heap RespValue} :
    ∀ {ps : List ℕ} {s : Sess D}, Heap.freeAll ps s.heap = some heap →
    freeCmds ps e s = .ok ((), { s with heap := heap }) := by
  intro ps
  induction ps with
  | nil =>
    intro s h
    cases h
    rfl
  | cons p ps ih =>
    intro s h
    obtain ⟨heap₁, hfree, hrest⟩ := Option.bind_eq_some_iff.mp h
    have hstep : respFree p e s = .ok ((), { s with heap := heap₁ }) := by rw [respFree, hfree]
    rw [freeCmds, bind_of_ok hstep]
    exact ih hrest

theorem Shows.alloc (h : Shows others s t) (req : RespValue) :
    Shows (s.heap.next :: others) { s with heap := s.heap.alloc req } t ∧
      (s.heap.alloc req).cells s.heap.next = some req ∧ Kept s.heap (s.heap.alloc req) others := by
  obtain ⟨ho, hsame⟩ := h.owned.alloc req
  refine ⟨⟨h.store, h.tick, h.monoTick, ?_, ho.perm List.perm_middle.symm⟩, Function.update_self ..,
    fun q hq => ?_⟩
  · rw [← h.client]
    exact Client.view_congr fun q hq => hsame q (List.mem_append_left _ hq)
  · exact hsame q (List.mem_append_right _ hq)

theorem Shows.free {p : ℕ} (h : Shows (p :: others) s t) :
    ∃ heap, respFree p e s = .ok ((), { s with heap := heap }) ∧ Shows others { s with heap := heap } t ∧
      Kept s.heap heap others := by
  have ho := h.owned.perm (List.perm_middle (a := p))
  obtain ⟨heap, hfree, ho', hsame, -⟩ := ho.free
  refine ⟨heap, by rw [respFree, hfree], ⟨h.store, h.tick, h.monoTick, ?_, ho'⟩, fun q hq => ?_⟩
  · rw [← h.client]
    exact Client.view_congr fun q hq => hsame q (List.mem_append_left _ hq)
  · exact hsame q (List.mem_append_right _ hq)

theorem Shows.queue {p : ℕ} {req : RespValue} (h : Shows (p :: others) s t) (hp : s.heap.cells p = some req) :
    Shows others
      { s with client := { s.client with txn := { s.client.txn with cmds := s.client.txn.cmds ++ [p] } } }
      { t with client := { t.client with txn := { t.client.txn with cmds := t.client.txn.cmds ++ [req] } } } := by
  obtain ⟨cmds, parked, h₁, h₂, hv⟩ := Client.view_eq_some.mp h.client
  have hread : s.heap.readAll (s.client.txn.cmds ++ [p]) = some (cmds ++ [req]) := by
    simp [Heap.readAll_append, Heap.readAll, h₁, hp]
  refine ⟨h.store, h.tick, h.monoTick, Client.view_eq_some.mpr ⟨_, parked, hread, h₂, ?_⟩, h.owned.perm ?_⟩
  · show ({ t.client with txn := { t.client.txn with cmds := t.client.txn.cmds ++ [req] } } :
      PulseDB.Client) = _
    rw [hv]
    rfl
  · show List.Perm (s.client.txn.cmds ++ _ ++ p :: others) (s.client.txn.cmds ++ [p] ++ _ ++ others)
    simp only [List.append_assoc, List.singleton_append, List.perm_append_left_iff]
    exact List.perm_middle

/-- A request that the session itself holds becomes the one the client is parked with. -/
theorem Shows.park {p : ℕ} {req : RespValue} (h : Shows (p :: others) s t) (hp : s.heap.cells p = some req)
    (hfree : s.client.blockedReq = none) :
    Shows others { s with client := { s.client with blockedReq := some p } }
      { t with client := { t.client with blockedReq := some req } } := by
  obtain ⟨cmds, parked, h₁, h₂, hv⟩ := Client.view_eq_some.mp h.client
  have hread : s.heap.readAll [p] = some [req] := by simp [Heap.readAll, hp]
  refine ⟨h.store, h.tick, h.monoTick, Client.view_eq_some.mpr ⟨cmds, [req], h₁, hread, ?_⟩, ?_⟩
  · show ({ t.client with blockedReq := some req } : PulseDB.Client) = _
    rw [hv]
    rfl
  · have ho := h.owned
    rw [Client.pointers, hfree] at ho
    simpa [Client.pointers] using ho

theorem Shows.unpark {p : ℕ} (h : Shows others s t) (hparked : s.client.blockedReq = some p) :
    ∃ heap, respFree p e s = .ok ((), { s with heap := heap }) ∧
      Shows others { s with heap := heap, client := { s.client with blockedReq := none } }
        { t with client := { t.client with blockedReq := none } } ∧ Kept s.heap heap others := by
  have ho := h.owned
  rw [Client.pointers, hparked, Option.toList_some, List.append_assoc, List.singleton_append] at ho
  obtain ⟨heap, hfree, ho', hsame, -⟩ := (ho.perm List.perm_middle).free
  obtain ⟨cmds, parked, h₁, -, hv⟩ := Client.view_eq_some.mp h.client
  have hcmds : heap.readAll s.client.txn.cmds = some cmds := by
    rw [← h₁]
    exact Heap.readAll_congr fun q hq => hsame q (List.mem_append_left _ hq)
  refine ⟨heap, by rw [respFree, hfree], ⟨h.store, h.tick, h.monoTick, ?_, ?_⟩, fun q hq => ?_⟩
  · refine Client.view_eq_some.mpr ⟨cmds, [], hcmds, rfl, ?_⟩
    show ({ t.client with blockedReq := none } : PulseDB.Client) = _
    rw [hv]
    rfl
  · simpa [Client.pointers] using ho'
  · exact hsame q (List.mem_append_right _ hq)

theorem txnReset_mirrors (h : Shows others s t) :
    Mirrors others txnReset (PulseDB.modifyTxn PulseDB.txnReset) e s t := by
  have ho := h.owned
  rw [Client.pointers, List.append_assoc] at ho
  obtain ⟨heap, hfree, ho', hsame, -⟩ := ho.freeAll
  obtain ⟨cmds, parked, h₁, h₂, hv⟩ := Client.view_eq_some.mp h.client
  have hparked : heap.readAll s.client.blockedReq.toList = some parked := by
    rw [← h₂]
    exact Heap.readAll_congr fun q hq => hsame q (List.mem_append_left _ hq)
  rw [Mirrors, txnReset]
  refine rel_left rfl (rel_left (freeCmds_eq hfree) ⟨rfl, ⟨h.store, h.tick, h.monoTick, ?_, ho'⟩,
    fun q hq => ?_⟩)
  · refine Client.view_eq_some.mpr ⟨[], parked, rfl, hparked, ?_⟩
    show ({ t.client with txn := {} } : PulseDB.Client) = _
    rw [hv]
    rfl
  · exact hsame q (List.mem_append_right _ hq)

end Shows

/-! ## Commands -/

section Commands
variable {D : Type} [LinearOrder D] {e : Env D} {others : List ℕ} {s : Sess D} {t : PulseDB.Sess D}
  {req : RespValue} {p : ℕ}

theorem writes_of_answers {ctx : CommandCtx} {t' : PulseDB.Sess D} {st : CmdStatus}
    (h : Answers e ctx t st t') :
    Writes t t' := by
  obtain ⟨-, -, h⟩ := h
  cases st with
  | done =>
    obtain ⟨v, -, hclient, -⟩ := h
    rw [Writes, hclient]
  | block =>
    obtain ⟨-, -, -, d, hclient⟩ := h
    rw [Writes, hclient]

/-- What `validate` writes, and what it finds out about a parsed request. -/
theorem validate_parsed (hp : req.IsParsed) (hcount : req.count ≠ 0) :
    wlp (validate req) e t fun r t' => Writes t t' ∧ ∀ spec : CommandSpec D, r = some spec → t' = t ∧
      Accepted req spec := by
  intro r t' hrun
  refine ⟨?_, validate_found hp hcount r t' hrun⟩
  have hfound := validate_wlp (e := e) (s := t) r t' hrun
  cases r with
  | none =>
    obtain ⟨msg, -, rfl⟩ := hfound
    rfl
  | some spec =>
    obtain ⟨rfl, -⟩ := hfound
    rfl

theorem execQueued_mirrors : ∀ {ps : List ℕ} {reqs : List RespValue} {s : Sess D} {t : PulseDB.Sess D},
    Shows others s t → s.heap.readAll ps = some reqs → (∀ req ∈ reqs, Runnable D req) → t.store.Valid →
    Mirrors others (execQueued ps) (PulseDB.execQueued reqs) e s t := by
  intro ps
  induction ps with
  | nil =>
    intro reqs s t h hread _ _
    cases hread
    exact .pure h ()
  | cons p ps ih =>
    intro reqs s t h hread hruns hv
    obtain ⟨req, hreq, hrest⟩ := Option.bind_eq_some_iff.mp hread
    obtain ⟨rest, hps, rfl⟩ := Option.map_eq_some_iff.mp hrest
    obtain ⟨hfirst, hothers⟩ := List.forall_mem_cons.mp hruns
    have hans := wlp_of_wp (runFound_wp (e := e) hfirst hv false false)
    rw [Mirrors, execQueued, PulseDB.execQueued]
    refine rel_left (deref_eq hreq) (rel_bind
      (onView_rel h (wlp_mono hans fun st t' ha => ⟨writes_of_answers ha, ha.1⟩)) ?_)
    rintro st s₁ st' t₁ ⟨-, rfl, hshows, hv₁⟩
    exact ih hshows hps hothers hv₁

theorem execTransaction_mirrors (h : Shows others s t) (hinv : t.Inv) :
    Mirrors others execTransaction PulseDB.execTransaction e s t := by
  obtain ⟨cmds, parked, h₁, h₂, hv⟩ := Client.view_eq_some.mp h.client
  have herror : t.client.txn.error = s.client.txn.error := by rw [hv]; rfl
  have hcmds : t.client.txn.cmds = cmds := by rw [hv]; rfl
  have hlen := Heap.readAll_length h₁
  rw [Mirrors, execTransaction, PulseDB.execTransaction]
  refine rel_left rfl (rel_right rfl ?_)
  rw [herror]
  split
  · refine Mirrors.bind (txnReset_mirrors h) fun _ s₁ t₁ h₁ => ?_
    exact .reply h₁ _
  · rw [hcmds, hlen]
    have hreply : Shows others _ _ := h.modify
      (fun c => { c with out := c.out ++ replyArray s.client.txn.cmds.length })
      (fun c => { c with out := c.out ++ replyArray s.client.txn.cmds.length }) rfl rfl fun _ _ => rfl
    refine rel_left rfl (rel_right rfl ?_)
    refine Mirrors.bind (execQueued_mirrors hreply h₁ ?_ hinv.store) fun _ s₁ t₁ hshows =>
      txnReset_mirrors hshows
    rw [← hcmds]
    exact hinv.client.txn.runnable

/-- A request that is queued belongs to the client afterwards; any other still belongs to the caller. -/
theorem commandProcess_rel (h : Shows (p :: others) s t) (hinv : t.Inv) (hp : s.heap.cells p = some req)
    (hparsed : req.IsParsed) (hcount : req.count ≠ 0) :
    rel (commandProcess p) (PulseDB.commandProcess req) e s t (fun x y => x = .prog y) fun r s' r' t' =>
      r = r' ∧ Kept s.heap s'.heap (p :: others) ∧
        Shows (if r = .queued then others else p :: others) s' t' := by
  have hend : ∀ {m : Cmd D CommandResult} {n : PulseDB.Cmd D CommandResult} {s₁ : Sess D}
    {t₁ : PulseDB.Sess D},
      s₁.heap = s.heap → Mirrors (p :: others) m n e s₁ t₁ → wlp n e t₁ (fun r _ => r ≠ .queued) →
      rel m n e s₁ t₁ (fun x y => x = .prog y) fun r s' r' t' =>
        r = r' ∧ Kept s.heap s'.heap (p :: others) ∧
          Shows (if r = .queued then others else p :: others) s' t' := by
    intro m n s₁ t₁ hheap hm hn
    refine rel_mono (rel_and_wlp hm hn) ?_
    rintro r s' r' t' ⟨⟨rfl, hshows, hkept⟩, hr⟩
    rw [if_neg hr, ← hheap]
    exact ⟨rfl, hkept, hshows⟩
  rw [commandProcess, PulseDB.commandProcess]
  refine rel_left (deref_eq hp) (rel_bind (onView_rel h (validate_parsed hparsed hcount)) ?_)
  rintro found s₁ found' t₁ ⟨rfl, rfl, h₁, hfound⟩
  have hactive : t₁.client.txn.active = s.client.txn.active := by
    obtain ⟨cmds, parked, -, -, hv⟩ := Client.view_eq_some.mp h₁.client
    rw [hv]
    rfl
  have hdone : ∀ t' : PulseDB.Sess D, wlp (pure .done : PulseDB.Cmd D CommandResult) e t' fun r _ =>
      r ≠ .queued :=
    fun _ => wlp_pure _ CommandResult.noConfusion
  cases found with
  | none =>
    refine hend rfl (.bind (.modifyTxn h₁ ?_ fun cmds => ?_) fun _ _ _ h₂ => .pure h₂ _) (hdone _)
    · split <;> rfl
    · simp only
      split <;> rfl
  | some spec =>
    obtain ⟨rfl, hacc⟩ := hfound spec rfl
    simp only
    refine rel_left rfl (rel_right rfl ?_)
    rw [hactive, show (s.seen t₁).client.txn = s.client.txn from rfl]
    cases hkind : spec.kind with
    | multi =>
      cases s.client.txn.active
      · refine hend rfl (.bind (.modifyTxn h₁ rfl fun _ => rfl) fun _ _ _ h₂ => ?_) (hdone _)
        exact .bind (.reply h₂ _) fun _ _ _ h₃ => .pure h₃ _
      · exact hend rfl (.bind (.reply h₁ _) fun _ _ _ h₂ => .pure h₂ _) (hdone _)
    | exec =>
      cases s.client.txn.active
      · exact hend rfl (.bind (.reply h₁ _) fun _ _ _ h₂ => .pure h₂ _) (hdone _)
      · refine hend rfl (.bind (execTransaction_mirrors h₁ hinv) fun _ _ _ h₂ => .pure h₂ _) ?_
        exact wlp_bind.mpr fun _ t' _ => hdone t'
    | discard =>
      cases s.client.txn.active
      · exact hend rfl (.bind (.reply h₁ _) fun _ _ _ h₂ => .pure h₂ _) (hdone _)
      · refine hend rfl (.bind (txnReset_mirrors h₁) fun _ _ _ h₂ => ?_) (hdone _)
        exact .bind (.reply h₂ _) fun _ _ _ h₃ => .pure h₃ _
    | normal =>
      cases s.client.txn.active
      · have hans := wlp_of_wp (run_wp (e := e) hacc hkind hinv.store true false)
        have hrun := Mirrors.onView h₁ (wlp_mono hans fun st t' ha => writes_of_answers ha.1)
        refine hend rfl (.bind hrun fun _ _ _ h₂ => .pure h₂ _) (wlp_bind.mpr fun st _ _ => wlp_pure _ ?_)
        cases st <;> exact CommandResult.noConfusion
      · obtain ⟨cmds, parked, hread, -, hv⟩ := Client.view_eq_some.mp h₁.client
        have hlen : t₁.client.txn.cmds.length = s.client.txn.cmds.length := by
          rw [hv]
          exact Heap.readAll_length hread
        simp only [if_true, txnQueue, PulseDB.txnQueue, hlen]
        by_cases hfull : s.client.txn.cmds.length ≥ txnMaxCmds
        · simp only [if_pos hfull]
          refine hend rfl (.bind (.modifyTxn h₁ rfl fun _ => rfl) fun _ _ _ h₂ => ?_) (hdone _)
          exact .bind (.reply h₂ _) fun _ _ _ h₃ => .pure h₃ _
        · simp only [if_neg hfull]
          have hqueue := (h₁.queue hp).modify
            (fun c => { c with out := c.out ++ replySimple (ascii "QUEUED") })
            (fun c => { c with out := c.out ++ replySimple (ascii "QUEUED") }) rfl rfl fun _ _ => rfl
          exact rel_left rfl (rel_right rfl (rel_left rfl (rel_right rfl ⟨rfl, kept_refl _ _, hqueue⟩)))

/-! ## The input of a client -/

theorem processRequest_mirrors (h : Shows (p :: others) s t) (hopen : t.Open) (hp : s.heap.cells p = some req)
    (hparsed : req.IsParsed) : Mirrors others (processRequest p) (PulseDB.processRequest req) e s t := by
  rw [Mirrors, processRequest, PulseDB.processRequest]
  refine rel_left (deref_eq hp) ?_
  by_cases hcount : req.count = 0
  · obtain ⟨heap, hfree, hshows, hkept⟩ := h.free (e := e)
    rw [if_pos hcount, if_pos hcount]
    exact rel_of_ok hfree rfl ⟨rfl, hshows, hkept⟩
  · rw [if_neg hcount, if_neg hcount]
    have hframed := wlp_mono (commandProcess_wlp (e := e) hopen.inv hparsed hcount) fun _ _ hr => hr.2.1
    refine rel_bind (rel_and_wlp (commandProcess_rel h hopen.inv hp hparsed hcount) hframed) ?_
    rintro r s₁ r' t₁ ⟨⟨rfl, hkept, hshows⟩, hframe⟩
    cases r with
    | done =>
      obtain ⟨heap, hfree, hshows', hkept'⟩ := Shows.free (e := e) hshows
      exact rel_of_ok hfree rfl ⟨rfl, hshows', fun q hq => (hkept' q hq).trans
        (hkept q (List.mem_cons_of_mem p hq))⟩
    | queued => exact ⟨rfl, hshows, fun q hq => hkept q (List.mem_cons_of_mem p hq)⟩
    | blocked =>
      have hfree : s₁.client.blockedReq = none := by
        rw [← Option.isNone_iff_eq_none, ← Option.isSome_eq_false_iff, ← Client.view_isSome hshows.client,
          hframe.blockedReq, hopen.free]
        rfl
      have hp₁ : s₁.heap.cells p = some req := (hkept p List.mem_cons_self).trans hp
      exact ⟨rfl, Shows.park hshows hp₁ hfree, fun q hq => hkept q (List.mem_cons_of_mem p hq)⟩

omit [LinearOrder D] in
theorem Mirrors.condemn (h : Shows others s t) (msg : Bytes) :
    Mirrors others (condemn msg) (PulseDB.condemn msg) e s t := by
  have hshows := h.modify (fun c => { c with out := c.out ++ replyError msg, closeAfterReply := true })
    (fun c => { c with out := c.out ++ replyError msg, closeAfterReply := true }) rfl rfl fun _ _ => rfl
  exact rel_of_ok rfl rfl ⟨rfl, hshows, kept_refl _ _⟩

theorem processLoop_rel : ∀ {rounds pos : ℕ} {s : Sess D} {t : PulseDB.Sess D}, Shows others s t → t.Inv →
    rel (processLoop rounds pos) (PulseDB.processLoop rounds pos) e s t (fun x y => x = .prog y)
      fun pos s' r t' =>
      pos = r.1 ∧ Shows others s' t' ∧ Kept s.heap s'.heap others := by
  intro rounds
  induction rounds with
  | zero => exact fun h _ => rel_pure ⟨rfl, h, kept_refl _ _⟩
  | succ rounds ih =>
    intro pos s t h hinv
    obtain ⟨hbuf, -, -, hclose, -⟩ := h.fields
    rw [processLoop, PulseDB.processLoop]
    refine rel_left rfl (rel_right rfl ?_)
    rw [Client.view_isSome h.client, hclose, hbuf]
    split
    · exact rel_pure ⟨rfl, h, kept_refl _ _⟩
    · rename_i hgo
      cases hparse : respParseCommand (s.client.inBuf.drop pos) with
      | incomplete => exact rel_pure ⟨rfl, h, kept_refl _ _⟩
      | error =>
        refine rel_bind (Mirrors.condemn h _) ?_
        rintro - s₁ - t₁ ⟨-, hshows, hkept⟩
        exact rel_pure ⟨rfl, hshows, hkept⟩
      | ok item =>
        obtain ⟨req, used⟩ := item
        have hparsed := respParseCommand_parsed hparse
        rw [← Client.view_isSome h.client, ← hclose, ← hbuf] at hgo
        obtain ⟨hopen, -⟩ := hinv.open hgo
        obtain ⟨halloc, hnew, hkept⟩ := h.alloc req
        refine rel_left rfl (rel_bind (rel_and_wlp (processRequest_mirrors halloc hopen hnew hparsed)
          (processRequest_wlp hopen hparsed)) ?_)
        rintro - s₁ - t₁ ⟨⟨-, hshows₁, hkept₁⟩, hinv₁, -⟩
        refine rel_map_right (ih hshows₁ hinv₁) ?_
        rintro pos' s₂ r t₂ ⟨hpos, hshows₂, hkept₂⟩
        exact ⟨hpos, hshows₂, (hkept.trans hkept₁).trans hkept₂⟩

theorem processInput_mirrors (h : Shows others s t) (hinv : t.Inv) :
    rel processInput PulseDB.processInput e s t (fun x y => x = .prog y) fun _ s' _ t' =>
      Shows others s' t' ∧ Kept s.heap s'.heap others := by
  obtain ⟨hbuf, -⟩ := h.fields
  rw [processInput, PulseDB.processInput]
  refine rel_left rfl (rel_right rfl ?_)
  rw [hbuf]
  refine rel_bind (processLoop_rel h hinv) ?_
  rintro pos s₁ ⟨pos', reqs⟩ t₁ ⟨rfl, h₁, hkept₁⟩
  have hdrop := h₁.modify (fun c => { c with inBuf := c.inBuf.drop pos })
    (fun c => { c with inBuf := c.inBuf.drop pos })
    rfl rfl fun _ _ => rfl
  refine rel_left rfl (rel_right rfl (rel_left rfl (rel_right rfl ?_)))
  rw [hdrop.fields.1]
  split
  · refine rel_map_right (Mirrors.condemn hdrop _) ?_
    rintro - s₂ - t₂ ⟨-, h₂, hkept₂⟩
    exact ⟨h₂, hkept₁.trans hkept₂⟩
  · exact rel_pure ⟨hdrop, hkept₁⟩

/-! ## What the event loop does for one client -/

theorem readFromClient_mirrors (h : Shows others s t) (hinv : t.Inv) (results : List ReadResult) :
    Mirrors others (readFromClient results) (PulseDB.readFromClient results) e s t := by
  have hreceive := h.modify (fun c => { c with inBuf := c.inBuf ++ (readLoop results).1 })
    (fun c => { c with inBuf := c.inBuf ++ (readLoop results).1 }) rfl rfl fun _ _ => rfl
  rw [Mirrors, readFromClient, PulseDB.readFromClient]
  refine rel_left rfl (rel_right rfl ?_)
  split
  · exact Mirrors.modifyClient hreceive rfl rfl fun _ _ => rfl
  · refine rel_bind (processInput_mirrors hreceive ⟨hinv.store, hinv.client.txn, hinv.client.blocked⟩) ?_
    rintro - s₁ - t₁ ⟨h₁, hkept⟩
    split
    · have hshows := h₁.modify
        (fun c => { c with
          closeAfterReply := true, closed := c.closed || t₁.client.blockedReq.isSome || decide
            (c.out.length = 0) })
        (fun c => { c with
          closeAfterReply := true, closed := c.closed || t₁.client.blockedReq.isSome || decide
            (c.out.length = 0) })
        rfl rfl fun _ _ => rfl
      refine rel_of_ok rfl rfl ⟨rfl, ?_, hkept⟩
      simp only [← Client.view_isSome h₁.client]
      exact hshows
    · exact rel_pure ⟨rfl, h₁, hkept⟩

omit [LinearOrder D] in
theorem writeToClient_mirrors (h : Shows others s t) (results : List WriteResult) :
    Mirrors others (writeToClient results) (PulseDB.writeToClient results) e s t := by
  rw [Mirrors, writeToClient, PulseDB.writeToClient]
  refine rel_left rfl (rel_right rfl ?_)
  rw [h.fields.2.1]
  refine Mirrors.bind (.modifyClient h rfl rfl fun _ _ => rfl) fun _ s₁ t₁ h₁ => ?_
  exact .modifyClient h₁ rfl rfl fun _ _ => rfl

theorem commandRetryBlocked_rel (h : Shows others s t) (hinv : t.Inv) (hp : s.heap.cells p = some req)
    (hparked : t.client.blockedReq = some req) (timedOut : Bool) :
    rel (commandRetryBlocked p timedOut) (PulseDB.commandRetryBlocked req timedOut) e s t
      (fun x y => x = .prog y) fun r s' r' t' => r = r' ∧ s' = s.seen t' ∧ Shows others s' t' ∧ t'.Inv := by
  have hans := wlp_of_wp (runFound_wp (e := e) (hinv.client.blocked req hparked) hinv.store true timedOut)
  have hrun := onView_rel h (W := fun _ t' => t'.Inv) (wlp_mono hans fun st t' ha =>
    ⟨writes_of_answers ha, ?_⟩)
  · rw [commandRetryBlocked, PulseDB.commandRetryBlocked]
    refine rel_left (deref_eq hp) (rel_bind hrun ?_)
    rintro st s₁ st' t₁ ⟨rfl, hs₁, h₁, hinv₁⟩
    exact rel_pure ⟨rfl, hs₁, h₁, hinv₁⟩
  · obtain ⟨htxn, hframe⟩ := ha.kept
    exact ⟨ha.1, htxn ▸ hinv.client.txn, fun q hq => hinv.client.blocked q (hframe.blockedReq ▸ hq)⟩

theorem serviceClient_mirrors (h : Shows others s t) (hinv : t.Inv) (now : Int) :
    Mirrors others (serviceClient now) (PulseDB.serviceClient now) e s t := by
  obtain ⟨-, -, hdeadline, -, hclosed⟩ := h.fields
  have hview := Client.view_blockedReq h.client
  rw [Mirrors, serviceClient, PulseDB.serviceClient]
  refine rel_left rfl (rel_right rfl ?_)
  cases hparked : s.client.blockedReq with
  | none =>
    rw [hparked] at hview
    rw [hview]
    exact rel_pure ⟨rfl, h, kept_refl _ _⟩
  | some p =>
    rw [hparked] at hview
    obtain ⟨req, hreq, hreq'⟩ := hview
    rw [hreq']
    rw [hclosed, hdeadline]
    dsimp only
    split
    · exact rel_pure ⟨rfl, h, kept_refl _ _⟩
    · refine rel_bind (commandRetryBlocked_rel h hinv hreq hreq' _) ?_
      rintro r s₁ r' t₁ ⟨rfl, rfl, h₁, hinv₁⟩
      split
      · obtain ⟨heap, hfree, h₂, hkept⟩ := h₁.unpark (e := e) hparked
        refine rel_left hfree (rel_left rfl (rel_right rfl ?_))
        refine rel_map_right (processInput_mirrors h₂ ⟨hinv₁.store, hinv₁.client.txn,
          fun _ hq => nomatch hq⟩) ?_
        rintro - s₃ - t₃ ⟨h₃, hkept₃⟩
        exact ⟨rfl, h₃, hkept.trans hkept₃⟩
      · exact rel_pure ⟨rfl, h₁, kept_refl _ _⟩

omit [LinearOrder D] in
theorem freeRequests_owned (h : Shows others s t) :
    ∃ s', freeRequests e s = .ok ((), s') ∧ s'.heap.Owned others ∧ Kept s.heap s'.heap others ∧
      s'.store = s.store ∧
      s'.tick = s.tick ∧ s'.monoTick = s.monoTick := by
  obtain ⟨_, s₁, _, t₁, hreset, heq, -, h₁, hkept⟩ | ⟨_, _, _, hno, _⟩ :=
    rel_iff.mp (txnReset_mirrors (e := e) h)
  · cases heq
    have hsame : s₁.store = s.store ∧ s₁.tick = s.tick ∧ s₁.monoTick = s.monoTick :=
      ⟨h₁.store.symm.trans h.store, h₁.tick.symm.trans h.tick, h₁.monoTick.symm.trans h.monoTick⟩
    have hqueue : s₁.client.txn.cmds = [] := by
      obtain ⟨cmds, parked, hcmds, -, hv⟩ := Client.view_eq_some.mp h₁.client
      have hnil : cmds = [] := congrArg (fun c => c.txn.cmds) hv.symm
      have hlen := Heap.readAll_length hcmds
      rw [hnil] at hlen
      exact List.eq_nil_of_length_eq_zero hlen.symm
    rw [freeRequests, bind_of_ok hreset, bind_of_ok rfl]
    cases hparked : s₁.client.blockedReq with
    | none =>
      refine ⟨s₁, rfl, ?_, hkept, hsame⟩
      simpa [Client.pointers, hqueue, hparked] using h₁.owned
    | some p =>
      obtain ⟨heap, hfree, h₂, hkept₂⟩ := h₁.unpark (e := e) hparked
      refine ⟨_, hfree, ?_, hkept.trans hkept₂, hsame⟩
      simpa [Client.pointers, hqueue] using h₂.owned
  · cases hno

end Commands
end PulseDB.Mem
