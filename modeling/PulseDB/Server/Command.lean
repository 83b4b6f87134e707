import PulseDB.Cmd.Table
import PulseDB.Resp.Request

/-!
# Processing a request (`commands.c`)

* `validate`, `execTransaction`, `commandProcess`, `commandRetryBlocked` : the functions of the source;
* `Accepted req spec` : the checks of `validate`; `Runnable` : what may stand in a queue or wait;
* `Processed e req s r s'` : all that processing a request can do, case by case, and `commandProcess_wp` : it
  does nothing else and meets no fault;
* `Serial` : some requests run one after the other, as `EXEC` runs the queue.
-/

namespace PulseDB
open Lib Lib.Prog

variable {D : Type} [LinearOrder D]

/-! ## The functions -/

/-- The expression `req->elements[0].str`, used as a C string. -/
def firstStr (req : RespValue) : Cmd D Bytes := do strOf (← element req 0)

/-- The loop of `validate` over the arguments: no `strlen` differs from the length field. -/
def noNul (req : RespValue) : Cmd D Bool := do
  let r ← forFrom 0 req.count () fun i _ => do
    let e ← element req i
    let s ← strOf e
    if s.length ≠ e.len then return .inl () else return .inr (i + 1, ())
  match r with
  | .inl () => return false
  | .inr () => return true

/-- The specification of a request that can be executed; otherwise an error is written. -/
def validate (req : RespValue) : Cmd D (Option (CommandSpec D)) := do
  let name ← firstStr req
  match commandLookup name with
  | none => do
    reply (replyErrorf (ascii "ERR unknown command '" ++ name.take 64 ++ ascii "'"))
    return none
  | some spec =>
    if !arityOk spec req.count then do
      reply (replyErrorf (ascii "ERR wrong number of arguments for '" ++ spec.name ++ ascii "' command"))
      return none
    else if ← noNul req then return some spec
    else do
      reply (replyError (ascii "ERR arguments containing NUL bytes are not supported"))
      return none

def run (spec : CommandSpec D) (req : RespValue) (canBlock timedOut : Bool) : Cmd D CmdStatus :=
  match spec.proc with
  | none => Prog.fault .nullProc
  | some proc => proc ⟨req, canBlock, timedOut⟩

/-- The call `run(command_lookup(req->elements[0].str), ...)`. -/
def runFound (req : RespValue) (canBlock timedOut : Bool) : Cmd D CmdStatus := do
  match commandLookup (← firstStr req) with
  | none => Prog.fault .nullProc
  | some spec => run spec req canBlock timedOut

def modifyTxn (f : Txn → Txn) : Cmd D Unit :=
  Prog.modify fun s => { s with client := { s.client with txn := f s.client.txn } }

/-- The loop of `exec_transaction`. -/
def execQueued : List RespValue → Cmd D Unit
  | [] => pure ()
  | req :: rest => do
    let _ ← runFound req false false
    execQueued rest

def execTransaction : Cmd D Unit := do
  let s ← Prog.get
  if s.client.txn.error then do
    modifyTxn txnReset
    reply (replyError (ascii "EXECABORT Transaction discarded because of previous errors."))
  else do
    reply (replyArray s.client.txn.cmds.length)
    execQueued s.client.txn.cmds
    modifyTxn txnReset

inductive CommandResult where
  | done
  | blocked
  | queued
  deriving DecidableEq, Repr

/-- What `process_input` does with a request after it has been processed: a request that blocks is kept. -/
def Client.processed (c : Client) (req : RespValue) (r : CommandResult) : Client :=
  if r = .blocked then { c with blockedReq := some req } else c

theorem Client.processed_eq (c : Client) (req : RespValue) (r : CommandResult) :
    ∃ parked, c.processed req r = { c with blockedReq := parked } := by
  unfold Client.processed
  split
  · exact ⟨_, rfl⟩
  · exact ⟨_, rfl⟩

@[simp] theorem Client.processed_txn (c : Client) (req : RespValue) (r : CommandResult) :
    (c.processed req r).txn = c.txn := by
  unfold Client.processed
  split <;> rfl

@[simp] theorem Client.processed_inBuf (c : Client) (req : RespValue) (r : CommandResult) :
    (c.processed req r).inBuf = c.inBuf := by
  unfold Client.processed
  split <;> rfl

@[simp] theorem Client.processed_closeAfterReply (c : Client) (req : RespValue) (r : CommandResult) :
    (c.processed req r).closeAfterReply = c.closeAfterReply := by
  unfold Client.processed
  split <;> rfl

/-- The result of a command that ran. -/
def CmdStatus.result : CmdStatus → CommandResult
  | .done => .done
  | .block => .blocked

def commandProcess (req : RespValue) : Cmd D CommandResult := do
  match ← validate req with
  | none => do
    modifyTxn fun txn => if txn.active then { txn with error := true } else txn
    return .done
  | some spec => do
    let s ← Prog.get
    let txn := s.client.txn
    match spec.kind with
    | .multi =>
      if txn.active then do
        reply (replyError (ascii "ERR MULTI calls can not be nested"))
        return .done
      else do
        modifyTxn ({ · with active := true })
        reply (replySimple (ascii "OK"))
        return .done
    | .exec =>
      if !txn.active then do
        reply (replyError (ascii "ERR EXEC without MULTI"))
        return .done
      else do
        execTransaction
        return .done
    | .discard =>
      if !txn.active then do
        reply (replyError (ascii "ERR DISCARD without MULTI"))
        return .done
      else do
        modifyTxn txnReset
        reply (replySimple (ascii "OK"))
        return .done
    | .normal =>
      if txn.active then
        match txnQueue txn req with
        | none => do
          modifyTxn ({ · with error := true })
          reply (replyError (ascii "ERR transaction queue is full"))
          return .done
        | some queue => do
          modifyTxn fun _ => queue
          reply (replySimple (ascii "QUEUED"))
          return .queued
      else do
        let st ← run spec req true false
        return st.result

def commandRetryBlocked (req : RespValue) (timedOut : Bool) : Cmd D CommandResult := do
  let st ← runFound req true timedOut
  return st.result

/-! ## Requests -/

/-- A non-empty array of non-null bulk strings. -/
structure RespValue.IsRequest (req : RespValue) : Prop where
  type : req.type = .array
  nonempty : req.elements ≠ []
  bulks : ∀ e ∈ req.elements, e.IsBulk

/-- The string of the first element, as the C string that is looked up. -/
def RespValue.name (req : RespValue) : Bytes := cstr ((req.elements[0]?.bind (·.str)).getD [])

/-- The request passes the checks of `validate`. -/
structure Accepted (req : RespValue) (spec : CommandSpec D) : Prop where
  request : req.IsRequest
  found : commandLookup req.name = some spec
  arity : arityOk spec req.count = true
  clean : req.Clean

/-- The request passes `validate` and its command is of kind `KIND_NORMAL`. -/
def Runnable (D : Type) [LinearOrder D] (req : RespValue) : Prop :=
  ∃ spec : CommandSpec D, Accepted req spec ∧ spec.kind = .normal

section Accepted
variable {e : Env D} {s : Sess D} {req : RespValue} {spec : CommandSpec D}

omit [LinearOrder D] in
theorem wp_firstStr (h : req.IsRequest) {Q : Bytes → Sess D → Prop} :
    wp (firstStr req) e s Q ↔ Q req.name s := by
  have h0 : 0 < req.elements.length := List.length_pos_iff.mpr h.nonempty
  obtain ⟨-, str, hstr, -⟩ := h.bulks _ (List.getElem_mem h0)
  rw [firstStr, wp_bind, wp_element h0, strOf, hstr, RespValue.name, List.getElem?_eq_getElem h0,
    Option.bind_some, hstr]
  exact wp_pure _

omit [LinearOrder D] in
theorem noNul_wp (h : req.IsRequest) :
    wp (noNul req) e s fun r s' => s' = s ∧ (r = true ↔ req.Clean) := by
  unfold noNul
  rw [wp_bind]
  -- the invariant: the elements before `i` are clean
  refine wp_forFrom (fun i _ s' => s' = s ∧ i ≤ req.count ∧
      ∀ e ∈ req.elements.take i, ∃ str, e.str = some str ∧ (0 : UInt8) ∉ str ∧ e.len = str.length)
    ⟨rfl, Nat.zero_le _, fun e he => by simp at he⟩ (fun i _ s' h' hi => ?_) fun i _ s' h' hi => ?_
  · obtain ⟨rfl, -, hall⟩ := h'
    have hi' : i < req.elements.length := hi
    obtain ⟨-, str, hstr, hlen⟩ := h.bulks _ (List.getElem_mem hi')
    rw [wp_bind, wp_element hi', wp_bind, strOf, hstr]
    simp only [wp_pure]
    split
    · rename_i hne
      rw [hlen] at hne
      refine ⟨rfl, (nomatch ·), fun hc => ?_⟩
      obtain ⟨str', hstr', hz, -⟩ := hc _ (List.getElem_mem hi')
      rw [hstr] at hstr'
      cases hstr'
      exact absurd (congrArg List.length (cstr_of_clean hz)) hne
    · rename_i heq
      rw [not_not, hlen] at heq
      refine ⟨Nat.lt_succ_self i, rfl, hi, fun x hx => ?_⟩
      rw [List.take_succ_eq_append_getElem hi', List.mem_append, List.mem_singleton] at hx
      rcases hx with hx | rfl
      · exact hall x hx
      · exact ⟨str, hstr, (cstr_eq_self_iff str).mp heq, hlen⟩
  · obtain ⟨rfl, hle, hall⟩ := h'
    refine ⟨rfl, fun _ x hx => hall x ?_, fun _ => rfl⟩
    rwa [List.take_of_length_le hi]

/-- Whether the request is accepted is what `validate` finds out. One that is not accepted is answered with an
error. -/
theorem validate_wp (h : req.IsRequest) :
    wp (validate req) e s fun r s' =>
      match r with
      | some spec => s' = s ∧ Accepted req spec
      | none => (∀ spec : CommandSpec D, ¬ Accepted req spec) ∧
          ∃ msg, s' = { s with client := { s.client with out := s.client.out ++ replyError msg } } := by
  unfold validate
  rw [wp_bind, wp_firstStr h]
  cases hf : commandLookup (D := D) req.name with
  | none =>
    refine ⟨fun spec hacc => ?_, _, rfl⟩
    have hfound := hacc.found
    rw [hf] at hfound
    cases hfound
  | some found =>
    simp only
    have hspec : ∀ spec, Accepted req spec → spec = found := fun spec hacc =>
      (Option.some.inj (hf.symm.trans hacc.found)).symm
    split
    · rename_i harity
      refine ⟨fun spec hacc => ?_, _, rfl⟩
      rw [← hspec spec hacc, hacc.arity] at harity
      cases harity
    · rename_i harity
      rw [Bool.not_eq_true', Bool.not_eq_false] at harity
      rw [wp_bind]
      refine wp_mono (noNul_wp h) fun r s' ⟨hs, hr⟩ => ?_
      subst hs
      split
      · rename_i hclean
        exact ⟨rfl, h, hf, harity, hr.mp hclean⟩
      · rename_i hclean
        exact ⟨fun spec hacc => hclean (hr.mpr hacc.clean), _, rfl⟩

end Accepted

theorem RespValue.isRequest_request {args : List Bytes} (h : args ≠ []) :
    (RespValue.request args).IsRequest := by
  refine ⟨rfl, fun hnil => h (List.map_eq_nil_iff.mp hnil), fun e he => ?_⟩
  obtain ⟨a, -, rfl⟩ := List.mem_map.mp he
  exact RespValue.isBulk_bulk a

/-- A command of the table with the right number of NUL-free arguments is accepted. -/
theorem accepted_request {spec : CommandSpec D} (hspec : spec ∈ commandTable) {args : List Bytes}
    (harity : arityOk spec (args.length + 1) = true) (hz : ∀ a ∈ args, (0 : UInt8) ∉ a) :
    Accepted (.request (spec.name :: args)) spec := by
  have hname : (0 : UInt8) ∉ spec.name := by
    have hall : ∀ name ∈ commandNames, (0 : UInt8) ∉ name := by decide +kernel
    refine hall _ ?_
    rw [← commandTable_names (D := D)]
    exact List.mem_map_of_mem hspec
  refine ⟨RespValue.isRequest_request (List.cons_ne_nil _ _), ?_, ?_, ?_⟩
  · rw [show (RespValue.request (spec.name :: args)).name = cstr spec.name from rfl, cstr_of_clean hname]
    exact commandLookup_name hspec
  · rw [RespValue.count, RespValue.request, List.length_map]
    exact harity
  · exact RespValue.clean_request (List.forall_mem_cons.mpr ⟨hname, hz⟩)

/-! ## Running -/

/-- The requests run one after the other and do not block, each from where the one before it ended; `vs` are
their replies. -/
inductive Serial (e : Env D) : List RespValue → Sess D → List Reply → Sess D → Prop
  | nil (s : Sess D) : Serial e [] s [] s
  | cons {req : RespValue} {rest : List RespValue} {s s₁ s₂ : Sess D} {v : Reply} {vs : List Reply}
      (hrun : runFound req false false e s = .ok (.done, s₁)) (hv : v.WF)
      (hout : s₁.client = { s.client with out := s.client.out ++ v.enc }) (hrest : Serial e rest s₁ vs s₂) :
      Serial e (req :: rest) s (v :: vs) s₂

section Running
variable {e : Env D} {s s' : Sess D} {req : RespValue} {spec : CommandSpec D}

theorem run_wp (h : Accepted req spec) (hk : spec.kind = .normal) (hv : s.store.Valid)
    (canBlock timedOut : Bool) :
    wp (run spec req canBlock timedOut) e s (Delivers e ⟨req, canBlock, timedOut⟩ s) := by
  obtain ⟨proc, hproc, hh⟩ := commandTable_serving spec (commandLookup_some h.found).1 hk
  rw [run, hproc]
  exact hh ⟨req, canBlock, timedOut⟩ e s h.clean (arityOk_le h.arity) hv

theorem runFound_delivers (h : Runnable D req) (hv : s.store.Valid) (canBlock timedOut : Bool) :
    wp (runFound req canBlock timedOut) e s (Delivers e ⟨req, canBlock, timedOut⟩ s) := by
  obtain ⟨spec, hacc, hk⟩ := h
  rw [runFound, wp_bind, wp_firstStr hacc.request, hacc.found]
  exact run_wp hacc hk hv canBlock timedOut

theorem runFound_wp (h : Runnable D req) (hv : s.store.Valid) (canBlock timedOut : Bool) :
    wp (runFound req canBlock timedOut) e s (Answers e ⟨req, canBlock, timedOut⟩ s) :=
  wp_mono (runFound_delivers h hv canBlock timedOut) fun _ _ hd => hd.1

theorem Serial.length {cmds : List RespValue} {vs : List Reply} (h : Serial e cmds s vs s') :
    vs.length = cmds.length := by
  induction h with
  | nil => rfl
  | cons _ _ _ _ ih => rw [List.length_cons, List.length_cons, ih]

theorem Serial.wfs {cmds : List RespValue} {vs : List Reply} (h : Serial e cmds s vs s') : Reply.WFs vs := by
  induction h with
  | nil => trivial
  | cons _ hv _ _ ih => exact ⟨hv, ih⟩

theorem Serial.client {cmds : List RespValue} {vs : List Reply} (h : Serial e cmds s vs s') :
    s'.client = { s.client with out := s.client.out ++ Reply.encs vs } := by
  induction h with
  | nil => rw [Reply.encs, List.append_nil]
  | cons _ _ hout _ ih => rw [ih, hout, Reply.encs, List.append_assoc]

theorem execQueued_wp : ∀ {cmds : List RespValue} {s : Sess D}, (∀ req ∈ cmds, Runnable D req) →
    s.store.Valid →
    wp (execQueued cmds) e s fun _ s' => s'.store.Valid ∧ s.tick ≤ s'.tick ∧ ∃ vs, Serial e cmds s vs s'
  | [], s, _, hv => ⟨hv, Nat.le_refl _, [], .nil s⟩
  | req :: rest, s, h, hv => by
    obtain ⟨st, s₁, hrun, hans⟩ := wp_iff.mp (runFound_wp (h req List.mem_cons_self) hv false false)
    rw [execQueued, wp_bind, wp_of_ok hrun]
    obtain ⟨hv₁, ht₁, hst⟩ := hans
    cases st with
    | block => cases hst.1
    | done =>
      obtain ⟨v, hwf, hclient, -⟩ := hst
      refine wp_mono (execQueued_wp (fun r hr => h r (List.mem_cons_of_mem _ hr)) hv₁) fun _ s₂ ⟨hv₂, ht₂,
        vs, hs⟩ => ?_
      exact ⟨hv₂, ht₁.trans ht₂, v :: vs, .cons hrun hwf hclient hs⟩

end Running

/-! ## What processing a request does -/

/-- The transaction state of a connection: queued requests passed `validate` and run a command; outside
`MULTI` the state is that of a new connection. -/
structure Txn.Inv (D : Type) [LinearOrder D] (txn : Txn) : Prop where
  runnable : ∀ req ∈ txn.cmds, Runnable D req
  length : txn.cmds.length ≤ txnMaxCmds
  idle : txn.active = false → txn = {}

structure Client.Inv (D : Type) [LinearOrder D] (c : Client) : Prop where
  txn : c.txn.Inv D
  blocked : ∀ req ∈ c.blockedReq, Runnable D req

structure Sess.Inv (s : Sess D) : Prop where
  store : s.store.Valid
  client : s.client.Inv D

/-- The session with a reply appended and the transaction state replaced. -/
def Sess.answered (s : Sess D) (b : Bytes) (txn : Txn) : Sess D :=
  { s with client := { s.client with out := s.client.out ++ b, txn := txn } }

/-- All that processing a request can do. -/
inductive Processed (e : Env D) (req : RespValue) (s : Sess D) : CommandResult → Sess D → Prop
  | rejected (hno : ∀ spec : CommandSpec D, ¬ Accepted req spec) (msg : Bytes) :
      Processed e req s .done (s.answered (replyError msg)
        (if s.client.txn.active then { s.client.txn with error := true } else s.client.txn))
  | multi {spec : CommandSpec D} (hacc : Accepted req spec) (hkind : spec.kind = .multi)
      (hactive : s.client.txn.active = false) :
      Processed e req s .done (s.answered (replySimple (ascii "OK")) { s.client.txn with active := true })
  | nested {spec : CommandSpec D} (hacc : Accepted req spec) (hkind : spec.kind = .multi)
      (hactive : s.client.txn.active = true) (msg : Bytes) :
      Processed e req s .done (s.answered (replyError msg) s.client.txn)
  | outside {spec : CommandSpec D} (hacc : Accepted req spec)
      (hkind : spec.kind = .exec ∨ spec.kind = .discard)
      (hactive : s.client.txn.active = false) (msg : Bytes) :
      Processed e req s .done (s.answered (replyError msg) s.client.txn)
  | aborted {spec : CommandSpec D} (hacc : Accepted req spec) (hkind : spec.kind = .exec)
      (hactive : s.client.txn.active = true) (herror : s.client.txn.error = true) (msg : Bytes) :
      Processed e req s .done (s.answered (replyError msg) {})
  | executed {spec : CommandSpec D} (hacc : Accepted req spec) (hkind : spec.kind = .exec)
      (hactive : s.client.txn.active = true) (herror : s.client.txn.error = false) {vs : List Reply}
        {s' : Sess D}
      (hserial : Serial e s.client.txn.cmds
        (s.answered (replyArray s.client.txn.cmds.length) s.client.txn) vs s')
      (hvalid : s'.store.Valid) (htick : s.tick ≤ s'.tick) :
      Processed e req s .done { s' with client := { s'.client with txn := {} } }
  | discarded {spec : CommandSpec D} (hacc : Accepted req spec) (hkind : spec.kind = .discard)
      (hactive : s.client.txn.active = true) :
      Processed e req s .done (s.answered (replySimple (ascii "OK")) {})
  | full {spec : CommandSpec D} (hacc : Accepted req spec) (hkind : spec.kind = .normal)
      (hactive : s.client.txn.active = true) (hfull : txnMaxCmds ≤ s.client.txn.cmds.length) (msg : Bytes) :
      Processed e req s .done (s.answered (replyError msg) { s.client.txn with error := true })
  | queued {spec : CommandSpec D} (hacc : Accepted req spec) (hkind : spec.kind = .normal)
      (hactive : s.client.txn.active = true) (hroom : s.client.txn.cmds.length < txnMaxCmds) :
      Processed e req s .queued
        (s.answered (replySimple (ascii "QUEUED")) { s.client.txn with cmds := s.client.txn.cmds ++ [req] })
  | ran {spec : CommandSpec D} (hacc : Accepted req spec) (hkind : spec.kind = .normal)
      (hactive : s.client.txn.active = false) {st : CmdStatus} {s' : Sess D}
      (hrun : run spec req true false e s = .ok (st, s')) (hanswers : Answers e ⟨req, true, false⟩ s st s') :
      Processed e req s st.result s'

section Process
variable {e : Env D} {s s' : Sess D} {req : RespValue} {r : CommandResult} {spec : CommandSpec D}

theorem execTransaction_wp (hs : s.Inv) (hacc : Accepted req spec) (hkind : spec.kind = .exec)
    (hactive : s.client.txn.active = true) :
    wp execTransaction e s fun _ s' => Processed e req s .done s' := by
  unfold execTransaction
  rw [wp_bind, wp_get]
  split
  · rename_i herror
    exact .aborted hacc hkind hactive herror _
  · rename_i herror
    rw [Bool.not_eq_true] at herror
    rw [wp_bind, wp_reply, wp_bind]
    refine wp_mono (execQueued_wp hs.client.txn.runnable hs.store) fun _ s' ⟨hv, ht, vs, hserial⟩ => ?_
    exact .executed hacc hkind hactive herror hserial hv ht

/-- Processing a request meets no fault, and does one of these things. -/
theorem commandProcess_wp (hs : s.Inv) (h : req.IsRequest) :
    wp (commandProcess req) e s (Processed e req s) := by
  unfold commandProcess
  rw [wp_bind]
  refine wp_mono (validate_wp h) fun found s₁ hfound => ?_
  cases found with
  | none =>
    obtain ⟨hno, msg, rfl⟩ := hfound
    exact .rejected hno msg
  | some spec =>
    obtain ⟨rfl, hacc⟩ := hfound
    simp only
    rw [wp_bind, wp_get]
    cases hkind : spec.kind with
    | multi =>
      simp only
      split
      · rename_i hactive
        exact .nested hacc hkind hactive _
      · rename_i hactive
        exact .multi hacc hkind (Bool.not_eq_true _ ▸ hactive)
    | exec =>
      simp only
      split
      · rename_i hactive
        exact .outside hacc (Or.inl hkind) (Bool.not_eq_true' _ ▸ hactive) _
      · rename_i hactive
        rw [Bool.not_eq_true', Bool.not_eq_false] at hactive
        rw [wp_bind]
        exact wp_mono (execTransaction_wp hs hacc hkind hactive) fun _ _ h => h
    | discard =>
      simp only
      split
      · rename_i hactive
        exact .outside hacc (Or.inr hkind) (Bool.not_eq_true' _ ▸ hactive) _
      · rename_i hactive
        rw [Bool.not_eq_true', Bool.not_eq_false] at hactive
        exact .discarded hacc hkind hactive
    | normal =>
      simp only
      split
      · rename_i hactive
        by_cases hfull : s₁.client.txn.cmds.length ≥ txnMaxCmds
        · rw [txnQueue, if_pos hfull]
          exact .full hacc hkind hactive hfull _
        · rw [txnQueue, if_neg hfull]
          exact .queued hacc hkind hactive (Nat.lt_of_not_le hfull)
      · rename_i hactive
        obtain ⟨st, s₂, hrun, hans, -⟩ := wp_iff.mp (run_wp hacc hkind hs.store true false)
        rw [wp_bind, wp_of_ok hrun]
        exact .ran hacc hkind (Bool.not_eq_true _ ▸ hactive) hrun hans

theorem commandRetryBlocked_wp (hs : s.store.Valid) (h : Runnable D req) (timedOut : Bool) :
    wp (commandRetryBlocked req timedOut) e s fun r s' =>
      ∃ st, r = st.result ∧ Answers e ⟨req, true, timedOut⟩ s st s' := by
  rw [commandRetryBlocked, wp_bind]
  exact wp_mono (runFound_wp h hs true timedOut) fun st s' hans => ⟨st, rfl, hans⟩

/-! ## What follows from it -/

/-- What a request that has been processed leaves behind: with `BLOCKED` nothing is written, otherwise one
value; if that is an error, cells have only been lost to their expiry. -/
def Outcome (e : Env D) (s : Sess D) (r : CommandResult) (s' : Sess D) : Prop :=
  match r with
  | .blocked => s'.client.out = s.client.out ∧ Purged e s s'
  | _ => ∃ v : Reply, v.WF ∧ s'.client.out = s.client.out ++ v.enc ∧ (v.IsError → Purged e s s')

theorem Answers.outcome {ctx : CommandCtx} {st : CmdStatus} (h : Answers e ctx s st s') :
    Outcome e s st.result s' := by
  obtain ⟨-, -, h⟩ := h
  cases st with
  | done =>
    obtain ⟨v, hv, hclient, hp⟩ := h
    exact ⟨v, hv, by rw [hclient], hp⟩
  | block =>
    obtain ⟨-, -, hp, d, hclient⟩ := h
    exact ⟨by rw [hclient], hp⟩

/-- The parts of a client that only the event loop changes. -/
structure Client.Framed (c c' : Client) : Prop where
  inBuf : c'.inBuf = c.inBuf
  blockedReq : c'.blockedReq = c.blockedReq
  closeAfterReply : c'.closeAfterReply = c.closeAfterReply
  closed : c'.closed = c.closed

/-- A handler keeps the transaction and what belongs to the event loop. -/
theorem Answers.kept {ctx : CommandCtx} {st : CmdStatus} (h : Answers e ctx s st s') :
    s'.client.txn = s.client.txn ∧ s.client.Framed s'.client := by
  obtain ⟨-, -, h⟩ := h
  cases st with
  | done =>
    obtain ⟨v, -, hclient, -⟩ := h
    rw [hclient]
    exact ⟨rfl, rfl, rfl, rfl, rfl⟩
  | block =>
    obtain ⟨-, -, -, d, hclient⟩ := h
    rw [hclient]
    exact ⟨rfl, rfl, rfl, rfl, rfl⟩

omit [LinearOrder D] in
theorem Outcome.error (msg : Bytes) (txn : Txn) : Outcome e s .done (s.answered (replyError msg) txn) :=
  ⟨.error (errorLine msg), errorLine_line msg, by rw [← replyError_eq]; rfl, fun _ _ => Or.inl rfl⟩

omit [LinearOrder D] in
theorem Outcome.simple {msg : Bytes} (h : Reply.Line msg) (txn : Txn) (hr : r ≠ .blocked) :
    Outcome e s r (s.answered (replySimple msg) txn) := by
  have hv : ∃ v : Reply, v.WF ∧ (s.answered (replySimple msg) txn).client.out = s.client.out ++ v.enc ∧
      (v.IsError → Purged e s (s.answered (replySimple msg) txn)) :=
    ⟨.simple msg, h, by rw [← replySimple_eq]; rfl, fun hx => absurd hx id⟩
  cases r with
  | done => exact hv
  | queued => exact hv
  | blocked => exact absurd rfl hr

theorem Processed.outcome (h : Processed e req s r s') : Outcome e s r s' := by
  cases h with
  | rejected _ msg => exact .error msg _
  | multi => exact .simple (by decide) _ (by decide)
  | nested _ _ _ msg => exact .error msg _
  | outside _ _ _ msg => exact .error msg _
  | aborted _ _ _ _ msg => exact .error msg _
  | @executed _ _ _ _ _ vs s' hserial _ _ =>
    refine ⟨.array vs, hserial.wfs, ?_, fun hx => absurd hx id⟩
    rw [← replyArray_append, hserial.length, ← List.append_assoc]
    exact congrArg Client.out hserial.client
  | discarded => exact .simple (by decide) _ (by decide)
  | full _ _ _ _ msg => exact .error msg _
  | queued => exact .simple (by decide) _ (by decide)
  | ran _ _ _ _ hanswers => exact hanswers.outcome

theorem Processed.framed (h : Processed e req s r s') : s.client.Framed s'.client := by
  cases h with
  | executed _ _ _ _ hserial =>
    rw [hserial.client]
    exact ⟨rfl, rfl, rfl, rfl⟩
  | ran _ _ _ _ hanswers => exact hanswers.kept.2
  | _ => exact ⟨rfl, rfl, rfl, rfl⟩

/-- Outside a transaction the state is the initial one, so a rejected request changes it only inside. -/
theorem Txn.Inv.error {txn : Txn} (h : txn.Inv D) (ha : txn.active = true) :
    ({ txn with error := true } : Txn).Inv D where
  runnable := h.runnable
  length := h.length
  idle hidle := absurd (ha.symm.trans hidle) (by decide)

theorem Txn.inv_init : ({} : Txn).Inv D where
  runnable req hreq := by cases hreq
  length := Nat.zero_le _
  idle _ := rfl

theorem Processed.inv (hs : s.Inv) (h : Processed e req s r s') : s'.Inv := by
  have hsame : ∀ b txn, txn.Inv D → (s.answered b txn).Inv := fun b txn ht =>
    ⟨hs.store, ht, hs.client.blocked⟩
  have htxn := hs.client.txn
  cases h with
  | rejected _ msg =>
    apply hsame
    split
    · rename_i ha
      exact htxn.error ha
    · exact htxn
  | multi _ _ hactive =>
    apply hsame
    exact ⟨htxn.runnable, htxn.length, fun hx => nomatch hx⟩
  | nested => exact hsame _ _ htxn
  | outside => exact hsame _ _ htxn
  | aborted => exact hsame _ _ Txn.inv_init
  | @executed _ _ _ _ _ vs s' hserial hvalid _ =>
    refine ⟨hvalid, Txn.inv_init, fun q hq => hs.client.blocked q ?_⟩
    rwa [hserial.client] at hq
  | discarded => exact hsame _ _ Txn.inv_init
  | full _ _ hactive => exact hsame _ _ (htxn.error hactive)
  | @queued spec hacc hkind hactive hroom =>
    apply hsame
    refine ⟨fun q hq => ?_, ?_, fun hx => absurd (hactive.symm.trans hx) (by decide)⟩
    · rcases List.mem_append.mp hq with hq | hq
      · exact htxn.runnable q hq
      · rw [List.mem_singleton.mp hq]
        exact ⟨spec, hacc, hkind⟩
    · rw [List.length_append, List.length_singleton]
      exact hroom
  | ran _ _ _ _ hanswers =>
    obtain ⟨ht, hframe⟩ := hanswers.kept
    exact ⟨hanswers.1, ht ▸ htxn, fun q hq => hs.client.blocked q (hframe.blockedReq ▸ hq)⟩

theorem Accepted.unique {spec' : CommandSpec D} (h : Accepted req spec) (h' : Accepted req spec') :
    spec = spec' :=
  Option.some.inj (h.found.symm.trans h'.found)

/-- What processing an accepted request does, by the kind of the command and whether a transaction is open. -/
theorem Processed.by_kind (h : Processed e req s r s') (hacc : Accepted req spec) :
    match spec.kind, s.client.txn.active with
    | .multi, false =>
      r = .done ∧ s' = s.answered (replySimple (ascii "OK")) { s.client.txn with active := true }
    | .multi, true => r = .done ∧ ∃ msg, s' = s.answered (replyError msg) s.client.txn
    | .exec, false => r = .done ∧ ∃ msg, s' = s.answered (replyError msg) s.client.txn
    | .exec, true => r = .done ∧
        (s.client.txn.error = true ∧ (∃ msg, s' = s.answered (replyError msg) {}) ∨
          s.client.txn.error = false ∧ ∃ vs s₁,
            Serial e s.client.txn.cmds (s.answered (replyArray s.client.txn.cmds.length) s.client.txn) vs s₁ ∧
            s' = { s₁ with client := { s₁.client with txn := {} } })
    | .discard, false => r = .done ∧ ∃ msg, s' = s.answered (replyError msg) s.client.txn
    | .discard, true => r = .done ∧ s' = s.answered (replySimple (ascii "OK")) {}
    | .normal, true =>
        txnMaxCmds ≤ s.client.txn.cmds.length ∧ r = .done ∧
          (∃ msg, s' = s.answered (replyError msg) { s.client.txn with error := true }) ∨
        s.client.txn.cmds.length < txnMaxCmds ∧ r = .queued ∧ s' = s.answered (replySimple (ascii "QUEUED"))
          { s.client.txn with cmds := s.client.txn.cmds ++ [req] }
    | .normal, false => ∃ st, r = st.result ∧ run spec req true false e s = .ok (st, s') := by
  cases h with
  | rejected hno => exact absurd hacc (hno spec)
  | multi hacc' hkind hactive =>
    cases hacc.unique hacc'
    rw [hkind, hactive]
    exact ⟨rfl, rfl⟩
  | nested hacc' hkind hactive msg =>
    cases hacc.unique hacc'
    rw [hkind, hactive]
    exact ⟨rfl, msg, rfl⟩
  | outside hacc' hkind hactive msg =>
    cases hacc.unique hacc'
    rcases hkind with hkind | hkind <;> rw [hkind, hactive] <;> exact ⟨rfl, msg, rfl⟩
  | aborted hacc' hkind hactive herror msg =>
    cases hacc.unique hacc'
    rw [hkind, hactive]
    exact ⟨rfl, Or.inl ⟨herror, msg, rfl⟩⟩
  | executed hacc' hkind hactive herror hserial =>
    cases hacc.unique hacc'
    rw [hkind, hactive]
    exact ⟨rfl, Or.inr ⟨herror, _, _, hserial, rfl⟩⟩
  | discarded hacc' hkind hactive =>
    cases hacc.unique hacc'
    rw [hkind, hactive]
    exact ⟨rfl, rfl⟩
  | full hacc' hkind hactive hfull msg =>
    cases hacc.unique hacc'
    rw [hkind, hactive]
    exact Or.inl ⟨hfull, rfl, msg, rfl⟩
  | queued hacc' hkind hactive hroom =>
    cases hacc.unique hacc'
    rw [hkind, hactive]
    exact Or.inr ⟨hroom, rfl, rfl⟩
  | ran hacc' hkind hactive hrun =>
    cases hacc.unique hacc'
    rw [hkind, hactive]
    exact ⟨_, rfl, hrun⟩

omit [LinearOrder D] in
theorem Outcome.value (h : Outcome e s r s') (hr : r ≠ .blocked) :
    ∃ v : Reply, v.WF ∧ s'.client.out = s.client.out ++ v.enc := by
  cases r with
  | blocked => exact absurd rfl hr
  | done =>
    obtain ⟨v, hv, hout, -⟩ := h
    exact ⟨v, hv, hout⟩
  | queued =>
    obtain ⟨v, hv, hout, -⟩ := h
    exact ⟨v, hv, hout⟩

omit [LinearOrder D] in
theorem Outcome.purged (h : Outcome e s r s')
    (hb : (s'.client.out.drop s.client.out.length).head? = some 45) :
    Purged e s s' := by
  have hvalue : (∃ v : Reply, v.WF ∧ s'.client.out = s.client.out ++ v.enc ∧ (v.IsError → Purged e s s')) →
      Purged e s s' := by
    intro ⟨v, _, hout, hp⟩
    rw [hout, List.drop_left] at hb
    exact hp ((Reply.enc_head v).mp hb)
  cases r with
  | blocked => exact h.2
  | done => exact hvalue h
  | queued => exact hvalue h

theorem Processed.blocked (h : Processed e req s .blocked s') : Runnable D req := by
  generalize hr : CommandResult.blocked = r at h
  cases h with
  | ran hacc hkind => exact ⟨_, hacc, hkind⟩
  | _ => cases hr

end Process
end PulseDB
