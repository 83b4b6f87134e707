import PulseDB.Server.Process

/-!
# The commands that run

Processing a request runs the commands of some requests: its own, those queued before an `EXEC`, or none.

* `Execution`, `Runs` : one call of a handler, with the reply it wrote;
* `Executes e req s r s' xs` : processing `req` made the calls `xs`; `exists_executes` : there always are
  such;
* `Serves e store x store'` : the same call as the store sees it; `Executes.serves` : what processing a
  request does to the store is what the calls do, one after the other.
-/

namespace PulseDB
open Lib Lib.Prog

variable {D : Type} [LinearOrder D]

/-! ## One call of a handler -/

/-- One call of a handler: the request, and the reply it wrote unless it blocked. -/
structure Execution where
  req : RespValue
  reply : Option Reply

/-- The result of the request whose command was called. -/
def Execution.result (x : Execution) : CommandResult := if x.reply.isSome then .done else .blocked

/-- The call leads from the session `s` to `s'`. -/
inductive Runs (e : Env D) (canBlock timedOut : Bool) (s : Sess D) : Execution → Sess D → Prop
  | done {req : RespValue} {v : Reply} {s' : Sess D} (hreq : Runnable D req)
      (hrun : runFound req canBlock timedOut e s = .ok (.done, s')) (hv : v.WF)
      (hout : s'.client.out = s.client.out ++ v.enc) : Runs e canBlock timedOut s ⟨req, some v⟩ s'
  | block {req : RespValue} {s' : Sess D} (hreq : Runnable D req)
      (hrun : runFound req canBlock timedOut e s = .ok (.block, s')) : Runs e canBlock timedOut s
        ⟨req, none⟩ s'

section Runs
variable {e : Env D} {s s' : Sess D} {req : RespValue} {canBlock timedOut : Bool}

theorem runFound_of_accepted {spec : CommandSpec D} (h : Accepted req spec) :
    runFound req canBlock timedOut e s = run spec req canBlock timedOut e s := by
  have hname : wp (firstStr req) e s fun name s' => name = req.name ∧ s' = s :=
    (wp_firstStr h.request).mpr ⟨rfl, rfl⟩
  obtain ⟨name, s₁, hrun, rfl, rfl⟩ := wp_iff.mp hname
  rw [runFound, bind_of_ok hrun, h.found]

theorem exists_runs {st : CmdStatus} (hreq : Runnable D req)
    (hrun : runFound req canBlock timedOut e s = .ok (st, s'))
    (hans : Answers e ⟨req, canBlock, timedOut⟩ s st s') :
    ∃ x : Execution, x.req = req ∧ x.result = st.result ∧ Runs e canBlock timedOut s x s' := by
  obtain ⟨-, -, hst⟩ := hans
  cases st with
  | done =>
    obtain ⟨v, hv, hclient, -⟩ := hst
    exact ⟨⟨req, some v⟩, rfl, rfl, .done hreq hrun hv (by rw [hclient])⟩
  | block => exact ⟨⟨req, none⟩, rfl, rfl, .block hreq hrun⟩

theorem Runs.runnable {x : Execution} (h : Runs e canBlock timedOut s x s') : Runnable D x.req := by
  cases h with
  | done hreq => exact hreq
  | block hreq => exact hreq

theorem Runs.ended {x : Execution} {st : CmdStatus} {s₁ : Sess D} (h : Runs e canBlock timedOut s x s')
    (hx : x.req = req) (hrun : runFound req canBlock timedOut e s = .ok (st, s₁)) : x.result = st.result ∧
      s' = s₁ := by
  subst hx
  cases h with
  | done _ hrun' =>
    cases hrun.symm.trans hrun'
    exact ⟨rfl, rfl⟩
  | block _ hrun' =>
    cases hrun.symm.trans hrun'
    exact ⟨rfl, rfl⟩

/-- The reply of a call that ends is the one that its command appends. -/
theorem Runs.replied {x : Execution} {v : Reply} {s₁ : Sess D} (h : Runs e canBlock timedOut s x s')
    (hx : x.req = req) (hrun : runFound req canBlock timedOut e s = .ok (.done, s₁)) (hv : v.WF)
    (hout : s₁.client.out = s.client.out ++ v.enc) : x.reply = some v := by
  subst hx
  cases h with
  | done _ hrun' hw hout' =>
    cases hrun.symm.trans hrun'
    rw [Reply.eq_of_enc hw hv (List.append_cancel_left (hout'.symm.trans hout))]
  | block _ hrun' => cases hrun.symm.trans hrun'

/-- The requests of a queue, one after the other, are executions that do not block. -/
theorem Serial.runs {cmds : List RespValue} {vs : List Reply} (h : Serial e cmds s vs s')
    (hcmds : ∀ req ∈ cmds, Runnable D req) :
    ∃ xs : List Execution, xs.map Execution.req = cmds ∧ xs.map Execution.reply = vs.map some ∧
      Run (Runs e false false) s xs s' := by
  induction h with
  | nil s => exact ⟨[], rfl, rfl, .nil s⟩
  | @cons req rest s s₁ s₂ v vs hrun hv hout _ ih =>
    obtain ⟨xs, hreqs, hreplies, hxs⟩ := ih fun r hr => hcmds r (List.mem_cons_of_mem _ hr)
    refine ⟨⟨req, some v⟩ :: xs, ?_, ?_,
      .cons (.done (hcmds req List.mem_cons_self) hrun hv (by rw [hout])) hxs⟩
    · rw [List.map_cons, hreqs]
    · rw [List.map_cons, hreplies, List.map_cons]

end Runs

/-! ## What a request runs -/

/-- Processing the request `req` from `s` ends in `s'` with the result `r`, and has made the calls `xs`. -/
inductive Executes (e : Env D) (req : RespValue) (s : Sess D) : CommandResult → Sess D → List Execution → Prop
  | own {x : Execution} {s' : Sess D} (hactive : s.client.txn.active = false) (hreq : x.req = req)
      (hx : Runs e true false s x s') : Executes e req s x.result s' [x]
  | queue {spec : CommandSpec D} {xs : List Execution} {s' : Sess D} (hacc : Accepted req spec)
      (hkind : spec.kind = .exec) (hactive : s.client.txn.active = true) (herror : s.client.txn.error = false)
      (hcmds : xs.map Execution.req = s.client.txn.cmds)
      (hxs : Run (Runs e false false) (s.answered (replyArray s.client.txn.cmds.length) s.client.txn) xs s') :
      Executes e req s .done { s' with client := { s'.client with txn := {} } } xs
  | nothing {r : CommandResult} {s' : Sess D} (hown : Runnable D req → s.client.txn.active = true)
      (hqueue : ∀ spec : CommandSpec D, Accepted req spec → spec.kind = .exec → s.client.txn.active = true →
        s.client.txn.error = true)
      (hr : r ≠ .blocked) (hstore : s'.store = s.store) : Executes e req s r s' []

section Executes
variable {e : Env D} {s s' : Sess D} {req : RespValue} {r : CommandResult}

theorem Processed.executes (hs : s.Inv) (h : Processed e req s r s') : ∃ xs, Executes e req s r s' xs := by
  -- a request of another kind makes none
  have hother : ∀ {spec : CommandSpec D} {r : CommandResult} {s' : Sess D}, Accepted req spec →
      (spec.kind = .normal → s.client.txn.active = true) →
      (spec.kind = .exec → s.client.txn.active = true → s.client.txn.error = true) → r ≠ .blocked →
      s'.store = s.store → ∃ xs, Executes e req s r s' xs := by
    intro spec r s' hacc hnormal hexec hr hstore
    refine ⟨[], .nothing (fun hrun => ?_) (fun spec' hacc' hkind => ?_) hr hstore⟩
    · obtain ⟨spec', hacc', hkind⟩ := hrun
      exact hnormal (hacc.unique hacc' ▸ hkind)
    · exact hexec (hacc.unique hacc' ▸ hkind)
  cases h with
  | rejected hno msg =>
    refine ⟨[], .nothing (fun hrun => ?_) (fun spec hacc => absurd hacc (hno spec)) (by decide) rfl⟩
    obtain ⟨spec, hacc, -⟩ := hrun
    exact absurd hacc (hno spec)
  | multi hacc hkind => exact hother hacc (by simp [hkind]) (by simp [hkind]) (by decide) rfl
  | nested hacc hkind => exact hother hacc (by simp [hkind]) (by simp [hkind]) (by decide) rfl
  | outside hacc hkind hactive =>
    refine hother hacc (fun hn => ?_) (fun _ ha => absurd (hactive.symm.trans ha) (by decide)) (by decide) rfl
    rcases hkind with hk | hk <;> exact absurd (hk.symm.trans hn) (by decide)
  | aborted hacc hkind _ herror => exact hother hacc (by simp [hkind]) (fun _ _ => herror) (by decide) rfl
  | executed hacc hkind hactive herror hserial =>
    obtain ⟨xs, hreqs, -, hxs⟩ := hserial.runs hs.client.txn.runnable
    exact ⟨xs, .queue hacc hkind hactive herror hreqs hxs⟩
  | discarded hacc hkind => exact hother hacc (by simp [hkind]) (by simp [hkind]) (by decide) rfl
  | full hacc hkind hactive => exact hother hacc (fun _ => hactive) (by simp [hkind]) (by decide) rfl
  | queued hacc hkind hactive => exact hother hacc (fun _ => hactive) (by simp [hkind]) (by decide) rfl
  | ran hacc hkind hactive hrun hanswers =>
    rw [← runFound_of_accepted hacc] at hrun
    obtain ⟨x, hreq, hres, hx⟩ := exists_runs ⟨_, hacc, hkind⟩ hrun hanswers
    exact ⟨[x], hres ▸ .own hactive hreq hx⟩

/-- A parsed request that is processed without a fault makes some calls. -/
theorem exists_executes (hs : s.Inv) (hp : req.IsParsed) (hcount : req.count ≠ 0) :
    wlp (commandProcess req) e s fun r s' => ∃ xs, Executes e req s r s' xs := by
  by_cases hreq : req.IsRequest
  · exact wlp_of_wp (wp_mono (commandProcess_wp hs hreq) fun r s' h => h.executes hs)
  · have hno : ∀ spec : CommandSpec D, ¬ Accepted req spec := fun spec hacc => hreq hacc.request
    refine wlp_mono (commandProcess_refused hp hcount hreq) fun r s' ⟨hr, msg, _, hs'⟩ => ?_
    subst hr hs'
    refine ⟨[], .nothing (fun hrun => ?_) (fun spec hacc => absurd hacc (hno spec)) (by decide) rfl⟩
    obtain ⟨spec, hacc, -⟩ := hrun
    exact absurd hacc (hno spec)

end Executes

/-! ## What the store sees -/

/-- A call of a handler leads from one store to another. -/
def Serves (e : Env D) (store : Store D) (x : Execution) (store' : Store D) : Prop :=
  ∃ (canBlock timedOut : Bool) (s s' : Sess D), s.store = store ∧ s'.store = store' ∧
    Runs e canBlock timedOut s x s'

section Serves
variable {e : Env D} {s s' : Sess D} {req : RespValue} {r : CommandResult} {xs : List Execution}

theorem Runs.serves {canBlock timedOut : Bool} {x : Execution} (h : Runs e canBlock timedOut s x s') :
    Run (Serves e) s.store [x] s'.store :=
  .one ⟨canBlock, timedOut, s, s', rfl, rfl, h⟩

theorem runs_serve {canBlock timedOut : Bool} (h : Run (Runs e canBlock timedOut) s xs s') :
    Run (Serves e) s.store xs s'.store :=
  h.map Sess.store fun s _ s' hx => ⟨canBlock, timedOut, s, s', rfl, rfl, hx⟩

theorem Executes.serves (h : Executes e req s r s' xs) : Run (Serves e) s.store xs s'.store := by
  cases h with
  | own _ _ hx => exact hx.serves
  | queue _ _ _ _ _ hxs =>
    have hrun := runs_serve hxs
    exact hrun
  | nothing _ _ _ hstore =>
    rw [hstore]
    exact .nil _

end Serves
end PulseDB
