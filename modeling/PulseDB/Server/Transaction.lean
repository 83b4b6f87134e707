import PulseDB.Server.Runs

/-!
# Transactions over whole runs

A transaction of client `i` is open from the step that accepts its `MULTI` until a step that processes an
`EXEC` or `DISCARD` of the client. In between any number of other clients may act.

* `InTxn i evs srv` : what the state says about the events since the `MULTI`, carried along a run by
  `InTxn.step`: the queue is the list of the requests answered `QUEUED`, and the error flag is set if a
  request was rejected;
* `transactions_serial` : none of the client's requests changes the store until the end; `EXEC` runs the queue
  as one step or, after a rejected request, nothing.
-/

namespace PulseDB
open Lib Lib.Prog

variable {D : Type} [LinearOrder D]

/-! ## The events of a transaction -/

/-- An `EXEC` that passes `validate`. -/
def IsExec (D : Type) [LinearOrder D] (req : RespValue) : Prop :=
  ∃ spec : CommandSpec D, Accepted req spec ∧ spec.kind = .exec

/-- A `DISCARD` that passes `validate`. -/
def IsDiscard (D : Type) [LinearOrder D] (req : RespValue) : Prop :=
  ∃ spec : CommandSpec D, Accepted req spec ∧ spec.kind = .discard

/-- A request of an open transaction that was rejected: by `validate`, or because the queue was full (then it
would run a command, and was not queued). -/
def Rejected (D : Type) [LinearOrder D] (req : RespValue) (r : CommandResult) : Prop :=
  (∀ spec : CommandSpec D, ¬ Accepted req spec) ∨ (Runnable D req ∧ r = .done)

/-- The event neither ends a transaction of client `i` nor its connection. -/
def Event.Within (D : Type) [LinearOrder D] (i : ℕ) : Event → Prop
  | .request j req _ => j = i → ¬ IsExec D req ∧ ¬ IsDiscard D req
  | .disconnect j => j ≠ i
  | _ => True

/-- The request of client `i` that the event answered `QUEUED`. -/
def Event.queuedBy (i : ℕ) : Event → Option RespValue
  | .request j req r => if j = i ∧ r = .queued then some req else none
  | _ => none

/-- The requests of client `i` answered `QUEUED`, in order. -/
def queuedBy (i : ℕ) (evs : List Event) : List RespValue := evs.filterMap (Event.queuedBy i)

/-- The event rejected a request of client `i`. -/
def Event.RejectedBy (D : Type) [LinearOrder D] (i : ℕ) : Event → Prop
  | .request j req r => j = i ∧ Rejected D req r
  | _ => False

/-! ## The state of an open transaction -/

/-- The transaction of client `i` is open, and `evs` are the events since it began. -/
def InTxn (i : ℕ) (evs : List Event) (srv : Server D) : Prop :=
  ∃ c, srv.clients i = some c ∧ c.txn.active = true ∧ c.txn.cmds = queuedBy i evs ∧
    (c.txn.error = true ↔ ∃ ev ∈ evs, ev.RejectedBy D i)

section Open
variable {e : Env D} {srv srv' : Server D} {i : ℕ} {evs : List Event} {ev : Event} {c : Client}

@[simp] theorem Client.retried_txn (c : Client) (r : CommandResult) : (c.retried r).txn = c.txn := by
  unfold Client.retried
  split <;> rfl

/-- A request inside a transaction leaves the store alone: it is queued or rejected, or is a nested
`MULTI`. -/
theorem Processed.inside {s s' : Sess D} {req : RespValue} {r : CommandResult} (h : Processed e req s r s')
    (hactive : s.client.txn.active = true) (hexec : ¬ IsExec D req) (hdiscard : ¬ IsDiscard D req) :
    s'.store = s.store ∧ s'.client.txn.active = true ∧
      s'.client.txn.cmds = s.client.txn.cmds ++ (if r = .queued then [req] else []) ∧
      (s'.client.txn.error = true ↔ s.client.txn.error = true ∨ Rejected D req r) := by
  have hidle : ∀ {p : Prop}, s.client.txn.active = false → p := fun hf => absurd (hactive.symm.trans hf)
    (by decide)
  -- an accepted request is rejected only if the queue was full
  have hfine : ∀ {spec : CommandSpec D}, Accepted req spec → ¬ (spec.kind = .normal ∧ r = .done) →
      ¬ Rejected D req r := by
    intro spec hacc hnot hrej
    rcases hrej with hno | ⟨⟨spec', hacc', hkind⟩, hr⟩
    · exact hno spec hacc
    · cases hacc.unique hacc'
      exact hnot ⟨hkind, hr⟩
  cases h with
  | rejected hno msg =>
    rw [if_pos hactive]
    exact ⟨rfl, hactive, (List.append_nil _).symm, fun _ => Or.inr (Or.inl hno), fun _ => rfl⟩
  | multi _ _ hf => exact hidle hf
  | nested hacc hkind _ msg =>
    have hno := hfine hacc fun hx => by rw [hkind] at hx; exact nomatch hx.1
    exact ⟨rfl, hactive, (List.append_nil _).symm, Or.inl, fun hx => hx.resolve_right hno⟩
  | outside _ _ hf => exact hidle hf
  | aborted hacc hkind => exact absurd ⟨_, hacc, hkind⟩ hexec
  | executed hacc hkind => exact absurd ⟨_, hacc, hkind⟩ hexec
  | discarded hacc hkind => exact absurd ⟨_, hacc, hkind⟩ hdiscard
  | full hacc hkind _ _ msg =>
    exact ⟨rfl, hactive, (List.append_nil _).symm, fun _ => Or.inr (Or.inr ⟨⟨_, hacc, hkind⟩, rfl⟩),
      fun _ => rfl⟩
  | queued hacc _ _ _ =>
    have hno := hfine hacc fun hx => nomatch hx.2
    exact ⟨rfl, hactive, rfl, Or.inl, fun hx => hx.resolve_right hno⟩
  | ran _ _ hf => exact hidle hf

/-- A step that keeps the client's transaction state and is no request of the client. -/
theorem InTxn.other (h : InTxn i evs srv) (hq : ev.queuedBy i = none) (hr : ¬ ev.RejectedBy D i)
    (hsame : ∀ c, srv.clients i = some c → ∃ c', srv'.clients i = some c' ∧ c'.txn = c.txn) :
    InTxn i (evs ++ [ev]) srv' := by
  obtain ⟨c, hc, hactive, hcmds, herror⟩ := h
  obtain ⟨c', hc', htxn⟩ := hsame c hc
  refine ⟨c', hc', by rw [htxn, hactive], ?_, ?_⟩
  · rw [htxn, hcmds, queuedBy, queuedBy, List.filterMap_append, List.filterMap_cons_none hq,
      List.filterMap_nil, List.append_nil]
  · rw [htxn, herror]
    simp [hr]

theorem InTxn.step (hinv : srv.Inv) (h : InTxn i evs srv) (hin : ev.Within D i) (hstep : Step e srv ev srv') :
    InTxn i (evs ++ [ev]) srv' := by
  cases hstep with
  | @connect j hj =>
    refine h.other rfl id fun c hc => ?_
    have hij : i ≠ j := fun hij => by rw [hij, hj] at hc; cases hc
    exact ⟨c, by rw [srv.put_other hij, hc], rfl⟩
  | @request j d req r s hj hfree hopen hreq hrun =>
    by_cases hij : j = i
    · subst hij
      obtain ⟨c, hc, hactive, hcmds, herror⟩ := h
      cases hj.symm.trans hc
      obtain ⟨hexec, hdiscard⟩ := hin rfl
      obtain ⟨-, h1, h2, h3⟩ := (hinv.processed hj hreq hrun).inside hactive hexec hdiscard
      refine ⟨_, srv.put_self j _ _, by rw [Client.processed_txn, h1], ?_, ?_⟩
      · rw [Client.processed_txn, h2, show (srv.sess d).client.txn.cmds = queuedBy j evs from hcmds,
          queuedBy, queuedBy, List.filterMap_append]
        by_cases hr : r = .queued <;> simp [Event.queuedBy, hr]
      · rw [Client.processed_txn, h3, show (srv.sess d).client.txn.error = true ↔ _ from herror]
        simp [Event.RejectedBy, or_and_right, exists_or]
    · refine h.other (if_neg fun hx => hij hx.1) (fun hx => hij hx.1) fun c hc => ?_
      exact ⟨c, by rw [srv.put_other (Ne.symm hij), hc], rfl⟩
  | @retry j d req timedOut r s hj hparked hopen hrun =>
    refine h.other rfl id fun c hc => ?_
    by_cases hij : j = i
    · subst hij
      cases hj.symm.trans hc
      obtain ⟨st, -, hans⟩ := hinv.retried hj hparked hrun
      exact ⟨_, srv.put_self j _ _, by rw [Client.retried_txn, hans.kept.1]; rfl⟩
    · exact ⟨c, by rw [srv.put_other (Ne.symm hij), hc], rfl⟩
  | @buffers j d hj =>
    refine h.other rfl id fun c hc => ?_
    by_cases hij : j = i
    · subst hij
      cases hj.symm.trans hc
      exact ⟨_, srv.put_self j _ _, rfl⟩
    · exact ⟨c, by rw [srv.put_other (Ne.symm hij), hc], rfl⟩
  | clock n => exact h.other rfl id fun c hc => ⟨c, hc, rfl⟩
  | @disconnect j d hj =>
    refine h.other rfl id fun c hc => ?_
    exact ⟨c, by rw [srv.put_other (Ne.symm hin), hc], rfl⟩

theorem InTxn.start (hinv : srv.Inv) {m : RespValue} {spec : CommandSpec D} {r : CommandResult}
    (hstep : Step e srv (.request i m r) srv') (hacc : Accepted m spec) (hkind : spec.kind = .multi)
    (hidle : ∀ c, srv.clients i = some c → c.txn.active = false) : InTxn i [] srv' := by
  cases hstep with
  | @request _ c _ _ s hi hfree hopen hreq hrun =>
    have hactive := hidle c hi
    have hcase := (hinv.processed hi hreq hrun).by_kind hacc
    rw [hkind, show (srv.sess c).client.txn.active = false from hactive] at hcase
    obtain ⟨rfl, rfl⟩ := hcase
    have htxn : (srv.sess c).client.txn = {} := (hinv.clients i c hi).txn.idle hactive
    refine ⟨_, srv.put_self i _ _, rfl, ?_, ?_⟩
    · show (srv.sess c).client.txn.cmds = []
      rw [htxn]
    · show (srv.sess c).client.txn.error = true ↔ _
      rw [htxn]
      simp

/-- The end of a transaction: `EXEC` runs the queue if the error flag is not set; it and `DISCARD` change
nothing else, and the transaction state is the initial one again. -/
theorem Step.ends (hinv : srv.Inv) {req : RespValue} {r : CommandResult}
    (hstep : Step e srv (.request i req r) srv')
    (hi : srv.clients i = some c) (hactive : c.txn.active = true) (hends : IsExec D req ∨ IsDiscard D req) :
    (∃ c', srv'.clients i = some c' ∧ c'.txn = {}) ∧
      (IsDiscard D req ∨ c.txn.error = true → srv'.store = srv.store) ∧
      (IsExec D req → c.txn.error = false → ∃ vs s,
        Serial e c.txn.cmds ((srv.sess c).answered (replyArray c.txn.cmds.length) c.txn) vs s ∧
        srv'.store = s.store) := by
  cases hstep with
  | @request _ d _ _ s hi' hfree hopen hreq hrun =>
    cases hi.symm.trans hi'
    have hp := hinv.processed hi hreq hrun
    rcases hends with ⟨spec, hacc, hkind⟩ | ⟨spec, hacc, hkind⟩
    · have hcase := hp.by_kind hacc
      rw [hkind, show (srv.sess c).client.txn.active = true from hactive] at hcase
      have hnot : ¬ IsDiscard D req := fun ⟨spec', hacc', hkind'⟩ => by
        rw [← hacc.unique hacc', hkind] at hkind'
        cases hkind'
      obtain ⟨rfl, ⟨herror, msg, rfl⟩ | ⟨herror, vs, s₁, hserial, rfl⟩⟩ := hcase
      · refine ⟨⟨_, srv.put_self i _ _, rfl⟩, fun _ => rfl, fun _ hf => ?_⟩
        exact absurd (hf.symm.trans herror) (by decide)
      · refine ⟨⟨_, srv.put_self i _ _, rfl⟩, fun hx => ?_, fun _ _ => ⟨vs, s₁, hserial, rfl⟩⟩
        rcases hx with hx | hx
        · exact absurd hx hnot
        · exact absurd (hx.symm.trans herror) (by decide)
    · have hcase := hp.by_kind hacc
      rw [hkind, show (srv.sess c).client.txn.active = true from hactive] at hcase
      obtain ⟨rfl, rfl⟩ := hcase
      refine ⟨⟨_, srv.put_self i _ _, rfl⟩, fun _ => rfl, fun ⟨spec', hacc', hkind'⟩ => ?_⟩
      rw [← hacc.unique hacc', hkind] at hkind'
      cases hkind'

/-- Transactions are all-or-nothing and serial. From a `MULTI` of client `i` on, while any number of clients
act and the transaction stays open: the client's requests leave the store alone; `EXEC` without a rejected
request runs exactly the queued requests in one step; after a rejected request `EXEC` changes nothing, and
`DISCARD` never does; both leave the initial transaction state. What is queued passed `validate` and runs a
command, and the queue is bounded. -/
theorem transactions_serial {srv₀ srv₁ srv₂ : Server D} {m : RespValue} {spec : CommandSpec D}
    {r₀ : CommandResult}
    (h : srv₀.Reachable e) (hmulti : Step e srv₀ (.request i m r₀) srv₁) (hacc : Accepted m spec)
    (hkind : spec.kind = .multi) (hidle : ∀ c, srv₀.clients i = some c → c.txn.active = false)
    (hrun : Run (Step e) srv₁ evs srv₂) (hin : ∀ ev ∈ evs, ev.Within D i) :
    (∀ req r srv₃, Step e srv₂ (.request i req r) srv₃ → ¬ IsExec D req → ¬ IsDiscard D req →
      srv₃.store = srv₂.store) ∧
    (∀ req r srv₃, Step e srv₂ (.request i req r) srv₃ → IsExec D req → (∀ ev ∈ evs, ¬ ev.RejectedBy D i) →
      ∃ c vs s, srv₂.clients i = some c ∧
        Serial e (queuedBy i evs) ((srv₂.sess c).answered (replyArray (queuedBy i evs).length) c.txn) vs s ∧
        srv₃.store = s.store) ∧
    (∀ req r srv₃, Step e srv₂ (.request i req r) srv₃ →
      (IsExec D req ∧ ∃ ev ∈ evs, ev.RejectedBy D i) ∨ IsDiscard D req → srv₃.store = srv₂.store) ∧
    (∀ req r srv₃, Step e srv₂ (.request i req r) srv₃ → IsExec D req ∨ IsDiscard D req →
      ∃ c, srv₃.clients i = some c ∧ c.txn = {}) ∧
    (∀ j c, srv₂.clients j = some c → (∀ req ∈ c.txn.cmds, Runnable D req) ∧
      c.txn.cmds.length ≤ txnMaxCmds) := by
  have hinv₁ : srv₁.Inv := hmulti.inv h.inv
  have hopen : srv₂.Inv ∧ InTxn i evs srv₂ := by
    refine hrun.history (fun evs srv => srv.Inv ∧ InTxn i evs srv) (fun evs s ev s' hs hP hstep => ?_) hin
      ⟨hinv₁, .start h.inv hmulti hacc hkind hidle⟩
    exact ⟨hstep.inv hs.1, hs.2.step hs.1 hP hstep⟩
  obtain ⟨hinv, c, hc, hactive, hcmds, herror⟩ := hopen
  refine ⟨fun req r srv₃ hstep hexec hdiscard => ?_, fun req r srv₃ hstep hexec hnone => ?_,
    fun req r srv₃ hstep hends => ?_, fun req r srv₃ hstep hends => (hstep.ends hinv hc hactive hends).1,
    fun j d hd => ⟨(hinv.clients j d hd).txn.runnable, (hinv.clients j d hd).txn.length⟩⟩
  · cases hstep with
    | @request _ d _ _ s hi' hfree hopen hreq hrun' =>
      cases hc.symm.trans hi'
      exact ((hinv.processed hc hreq hrun').inside hactive hexec hdiscard).1
  · have hfine : c.txn.error = false := by
      rw [← Bool.not_eq_true, herror]
      exact fun ⟨ev, hev, hr⟩ => hnone ev hev hr
    obtain ⟨vs, s, hserial, hstore⟩ := (hstep.ends hinv hc hactive (Or.inl hexec)).2.2 hexec hfine
    rw [hcmds] at hserial
    exact ⟨c, vs, s, hc, hserial, hstore⟩
  · rcases hends with ⟨hexec, hrej⟩ | hdiscard
    · exact (hstep.ends hinv hc hactive (Or.inl hexec)).2.1 (Or.inr (herror.mpr hrej))
    · exact (hstep.ends hinv hc hactive (Or.inr hdiscard)).2.1 (Or.inl hdiscard)

/-- A transaction of one `PING`. -/
theorem transactions_serial_ping :
    let e := Env.integers (fun n => n) fun n => n
    ∃ (srv₂ srv₃ : Server Int) (c : Client) (vs : List Reply) (s : Sess Int) (r : CommandResult),
      Step e srv₂ (.request 0 (.request [ascii "exec"]) r) srv₃ ∧ srv₂.clients 0 = some c ∧
      Serial e [.request [ascii "ping"]] ((srv₂.sess c).answered (replyArray 1) c.txn) vs s ∧
      srv₃.store = s.store := by
  intro e
  have hjoined := Server.joined_reachable e (Store.Reachable.create (D := Int))
  obtain ⟨srv₁, srv₂, c, hstep₁, hstep₂, hc, htxn, hfree, hopen⟩ := exists_queued e
  have hreach : srv₂.Reachable e := (hjoined.run (.one hstep₁)).run (.one hstep₂)
  obtain ⟨r, s, hstep₃, -⟩ := hreach.inv.request_step (e := e) hc hfree hopen
    (accepted_exec (D := Int)).request
  have hidle : ∀ c, (Server.joined (storeCreate : Store Int)).clients 0 = some c → c.txn.active = false := by
    intro c hc
    cases hc
    rfl
  have hin : ∀ ev ∈ [Event.request 0 (.request [ascii "ping"]) .queued], ev.Within Int 0 := by
    intro ev hev
    cases List.mem_singleton.mp hev
    intro _
    refine ⟨fun ⟨spec, hacc, hkind⟩ => ?_, fun ⟨spec, hacc, hkind⟩ => ?_⟩ <;>
      · rw [← accepted_ping.unique hacc] at hkind
        cases hkind
  have hnone : ∀ ev ∈ [Event.request 0 (.request [ascii "ping"]) .queued], ¬ ev.RejectedBy Int 0 := by
    intro ev hev hrej
    cases List.mem_singleton.mp hev
    rcases hrej.2 with hno | ⟨-, hr⟩
    · exact hno _ accepted_ping
    · cases hr
  obtain ⟨c', vs, s', hc', hserial, hstore⟩ :=
    (transactions_serial hjoined hstep₁ accepted_multi rfl hidle (.one hstep₂) hin).2.1 _ _ _ hstep₃
      ⟨_, accepted_exec, rfl⟩ hnone
  exact ⟨srv₂, _, c', vs, s', r, hstep₃, hc', hserial, hstore⟩

end Open
end PulseDB
