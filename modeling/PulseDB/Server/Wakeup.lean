import Mathlib.Algebra.BigOperators.Group.Finset.Basic
import Mathlib.Algebra.BigOperators.Ring.List
import Mathlib.Algebra.Order.BigOperators.Group.Finset
import PulseDB.Cmd.Steps
import PulseDB.Lib.Potential
import PulseDB.Server.Deadline

/-!
# No wakeup is lost

A parked client is served by the next pass over the parked clients in which one of its keys has an element or
its deadline has passed. A pass can still leave something to do: a client that is served goes on with the
input it has sent already, and what this pushes may be for a client that the pass has left behind. Each such
turn is paid for by input.

* `Runs.blocks_blpop` : only `BLPOP` blocks; `Runs.waits` : one that does has found all its lists empty and is
  not overdue;
* `Client.settled`, `EventLoop.settled` : there is nothing to do for the parked clients;
* `Client.weight`, `EventLoop.weight` : what has been received and not been used up;
* `serviceClient_settles`, `pass_settles` : a pass uses up some of it, or leaves all parked clients settled;
* `unsettled_turns_le` : over a whole run, at most two turns for each byte received end with something to do.
-/

namespace PulseDB
open Lib Lib.Prog

variable {D : Type} [LinearOrder D]

/-! ## What a blocked call has seen -/

/-- The keys of a `BLPOP`. -/
def RespValue.popKeys (req : RespValue) : List Bytes := (req.args.drop 1).dropLast

section Blocked
variable {e : Env D} {s s' : Sess D} {ctx : CommandCtx} {x : Execution} {canBlock timedOut : Bool}

theorem listPop_error {now' : Int} {o : Option (Cell D)} {atHead : Bool} {st : StoreStatus}
    (h : ((StoreOp.listPop (D := D) atHead).step now' o).1 = .error st) : Cell.nodes o = [] := by
  cases o with
  | none => rfl
  | some c =>
    obtain ⟨v, x⟩ := c
    cases v with
    | list l =>
      rw [StoreOp.step, Cell.alter_typed (a := l) rfl, Option.bind_some] at h
      cases hp : l.pop atHead with
      | none =>
        have hnil : l.nodes = [] := by cases atHead <;> simpa [ListValue.pop] using hp
        exact hnil
      | some r =>
        rw [hp] at h
        cases h
    | _ => rfl

/-- The key loop of `BLPOP` that finds nothing: it stores nothing, and the lists are empty. -/
theorem blpopKeys_empty (hc : ctx.req.Clean) (hv : s.store.Valid) : wlp (blpopKeys ctx) e s fun r s' =>
    match r with
    | .inl st => st = .done
    | .inr _ => Quiet e s [] s' ∧ ∀ i, 1 ≤ i → i < ctx.argc - 1 → s.store.listAt (ctx.argv i) = [] := by
  unfold blpopKeys
  refine wlp_forFrom (fun i _ s' => Quiet e s [] s' ∧ ∀ j, 1 ≤ j → j < i → s.store.listAt (ctx.argv j) = [])
    ⟨.start hv, fun j h1 h2 => absurd h2 (by omega)⟩ (fun i _ s₁ h₁ hi => ?_) fun i _ s₁ h₁ hi => ?_
  · obtain ⟨hq, hempty⟩ := h₁
    refine wlp_of_wp ?_
    rw [wp_bind, wp_arg hc (by omega), wp_bind]
    refine wp_call hq.valid fun r s₂ hcall => ?_
    cases r with
    | ok value => exact rfl
    | error st =>
      have hnone := listPop_error hcall.result.symm
      rw [hq.valid.live_nodes, hq.purged.listAt hv] at hnone
      have hq' := hq.called hcall fun _ _ hr => Cell.alter_error hr
      split
      · exact rfl
      · rename_i hr; cases hr
      · refine ⟨Nat.lt_succ_self i, hq', fun j h1 h2 => ?_⟩
        rcases Nat.lt_succ_iff_lt_or_eq.mp h2 with h2 | rfl
        · exact hempty j h1 h2
        · exact hnone
  · exact ⟨h₁.1, fun j h1 h2 => h₁.2 j h1 (Nat.lt_of_lt_of_le h2 hi)⟩

theorem cmdBlpop_empty (hc : ctx.req.Clean) (hn : 3 ≤ ctx.argc) (hv : s.store.Valid) :
    wlp (cmdBlpop ctx) e s fun st s' => st = .block → ctx.timedOut = false ∧
      (∀ k, s'.store.listAt k = s.store.listAt k) ∧ ∀ i, 1 ≤ i → i < ctx.argc - 1 →
        s.store.listAt (ctx.argv i) = [] := by
  have hdone : ∀ {b : Bytes} {s₁ : Sess D}, wlp (answer b) e s₁ fun st s' => st = .block →
    ctx.timedOut = false ∧
      (∀ k, s'.store.listAt k = s.store.listAt k) ∧ ∀ i, 1 ≤ i → i < ctx.argc - 1 →
        s.store.listAt (ctx.argv i) = [] :=
    wlp_of_wp fun h => nomatch h
  unfold cmdBlpop
  rw [wlp_bind]
  refine wlp_of_wp (wp_env.mpr ?_)
  simp only
  rw [wlp_bind]
  refine wlp_of_wp ((wp_arg hc (by omega)).mpr ?_)
  split
  · exact hdone
  · split
    · exact hdone
    · rw [wlp_bind]
      refine wlp_mono (blpopKeys_empty hc hv) fun r s₂ h₂ => ?_
      rcases r with st | ⟨⟩
      · refine wlp_pure _ fun hblock => ?_
        cases h₂.symm.trans hblock
      · obtain ⟨hq, hempty⟩ := h₂
        simp only
        split
        · exact hdone
        · rename_i htimeout
          rw [Bool.or_eq_true, not_or, Bool.not_eq_true ctx.timedOut] at htimeout
          refine wlp_of_wp (wp_mono (park_wp _) fun st s₃ hpark _ => ⟨htimeout.2, fun k => ?_, hempty⟩)
          rw [hpark.2.1]
          exact hq.purged.listAt hv k

theorem Runs.blocks_blpop (h : Runs e canBlock timedOut s x s') (hx : x.result = .blocked) :
    x.req.name.map toLower = ascii "blpop" := by
  by_contra hne
  obtain ⟨spec, hacc, hkind⟩ := h.runnable
  obtain ⟨hmem, hname⟩ := commandLookup_some hacc.found
  obtain ⟨proc, hproc, hsteady⟩ := commandTable_steady hmem hkind fun h => hne (hname.symm.trans h)
  cases h with
  | done => cases hx
  | block _ hrun =>
    rw [runFound_of_accepted hacc, run, hproc] at hrun
    cases (hsteady _ e s .block s' hrun).1

/-- A call that blocks has found every list empty, and its request is not overdue. -/
theorem Runs.waits (h : Runs e canBlock timedOut s x s') (hx : x.result = .blocked) (hv : s.store.Valid) :
    timedOut = false ∧ (∀ k, s'.store.listAt k = s.store.listAt k) ∧
      ∀ key ∈ x.req.popKeys, s.store.listAt key = [] := by
  obtain ⟨hclean, st, hst, hrun⟩ := h.cmdBlpop (h.blocks_blpop hx)
  obtain ⟨spec, hacc, -⟩ := h.runnable
  have hargc : 3 ≤ x.req.count := by
    obtain ⟨hmem, hname⟩ := commandLookup_some hacc.found
    obtain rfl := commandTable_blpop hmem (hname.trans (h.blocks_blpop hx))
    simpa [arityOk] using hacc.arity
  cases st with
  | done => cases hst.trans hx
  | block =>
    obtain ⟨htimeout, hsame, hempty⟩ := cmdBlpop_empty hclean (by exact hargc) hv .block s' hrun rfl
    refine ⟨htimeout, hsame, fun key hkey => ?_⟩
    obtain ⟨i, hi, rfl⟩ := List.mem_iff_getElem.mp hkey
    simp only [RespValue.popKeys, List.length_dropLast, List.length_drop] at hi
    have hlen : x.req.args.length = x.req.count := List.length_map ..
    have hkey : x.req.popKeys[i] = x.req.args.getD (i + 1) [] := by
      rw [List.getD_eq_getElem _ _ (by omega)]
      simp [RespValue.popKeys]
    rw [hkey, RespValue.args_getD x.req canBlock timedOut]
    exact hempty (i + 1) (by omega) (show i + 1 < x.req.count - 1 by omega)

end Blocked

/-! ## The steady clock -/

section Clock
variable {e : Env D} {s s' : Sess D} {req : RespValue} {r : CommandResult}

theorem park_monoTick (timeout : D) : wlp (park timeout) e s fun _ s' => s.monoTick ≤ s'.monoTick := by
  apply wlp_of_wp
  unfold park
  rw [wp_bind, wp_env, wp_bind, wp_get]
  split
  · exact Nat.le_refl _
  · split
    · exact Nat.le_succ _
    · exact Nat.le_refl _

theorem cmdBlpop_monoTick {ctx : CommandCtx} :
    wlp (cmdBlpop ctx) e s fun _ s' => s.monoTick ≤ s'.monoTick := by
  unfold cmdBlpop
  rw [wlp_bind]
  refine wlp_of_wp (wp_env.mpr ?_)
  simp only
  rw [wlp_bind]
  refine wlp_mono arg_wlp fun text s₁ ⟨hs₁, _⟩ => ?_
  subst hs₁
  split
  · exact wlp_of_wp (Nat.le_refl _)
  · split
    · exact wlp_of_wp (Nat.le_refl _)
    · rw [wlp_bind]
      refine wlp_mono ((blpopKeys_made ctx).monoTick e s₁) fun r s₂ h₂ => ?_
      rw [← h₂]
      split
      · exact wlp_pure _ (Nat.le_refl _)
      · split
        · exact wlp_of_wp (Nat.le_refl _)
        · exact park_monoTick _

theorem run_monoTick {spec : CommandSpec D} (hacc : Accepted req spec) (hkind : spec.kind = .normal)
    (canBlock timedOut : Bool) :
    wlp (run spec req canBlock timedOut) e s fun _ s' => s.monoTick ≤ s'.monoTick := by
  obtain ⟨hmem, hname⟩ := commandLookup_some hacc.found
  by_cases hblpop : spec.name = ascii "blpop"
  · obtain rfl := commandTable_blpop hmem hblpop
    exact cmdBlpop_monoTick
  · obtain ⟨proc, hproc, hsteady⟩ := commandTable_steady hmem hkind hblpop
    rw [run, hproc]
    exact wlp_mono (hsteady _ e s) fun _ _ h => Nat.le_of_eq h.2.symm

theorem Runs.monoTick {canBlock timedOut : Bool} {x : Execution} (h : Runs e canBlock timedOut s x s') :
    s.monoTick ≤ s'.monoTick := by
  obtain ⟨spec, hacc, hkind⟩ := h.runnable
  cases h with
  | done _ hrun | block _ hrun =>
    rw [runFound_of_accepted hacc] at hrun
    exact run_monoTick hacc hkind _ _ _ _ hrun

theorem Serial.monoTick {cmds : List RespValue} {vs : List Reply} (h : Serial e cmds s vs s')
    (hcmds : ∀ req ∈ cmds, Runnable D req) : s.monoTick ≤ s'.monoTick := by
  obtain ⟨xs, -, -, hruns⟩ := h.runs hcmds
  exact hruns.invariant (fun s₁ => s.monoTick ≤ s₁.monoTick) (fun _ _ _ hle hx => hle.trans hx.monoTick)
    (Nat.le_refl _)

theorem commandProcess_monoTick (hs : s.Inv) (hp : req.IsParsed) (hcount : req.count ≠ 0) :
    wlp (commandProcess req) e s fun _ s' => s.monoTick ≤ s'.monoTick := by
  by_cases hreq : req.IsRequest
  · refine wlp_of_wp (wp_mono (commandProcess_wp hs hreq) fun r s' h => ?_)
    cases h with
    | executed _ _ _ _ hserial => exact hserial.monoTick hs.client.txn.runnable
    | ran hacc hkind _ hrun => exact run_monoTick hacc hkind _ _ _ _ hrun
    | _ => exact Nat.le_refl _
  · refine wlp_mono (commandProcess_refused hp hcount hreq) fun r s' ⟨_, msg, _, hs'⟩ => ?_
    rw [hs']
    exact Nat.le_refl _

theorem Moves.monoTick {l l' : EventLoop D} {mv : Move} (hl : l.Inv) (h : Moves e l mv l') :
    l.monoTick ≤ l'.monoTick := by
  cases h with
  | @request i c req used buf r s runs hi _ _ hparse hcount _ hrun =>
    exact commandProcess_monoTick (hl.sess hi buf) (respParseCommand_parsed hparse) hcount r s hrun
  | retry _ _ _ _ hx => exact hx.monoTick
  | clock n => exact Nat.le_add_right _ n
  | _ => exact Nat.le_refl _

end Clock

/-! ## What is left to do -/

/-- There is nothing to do for the client at time `now`: if it is parked, its deadline has not passed and no
list of its request has an element. -/
def Client.settled (c : Client) (now : Int) (store : Store D) : Bool :=
  c.closed || c.blockedReq.all fun req => !c.timedOut now && req.popKeys.all fun key =>
    (store.listAt key).isEmpty

def EventLoop.settled (l : EventLoop D) (now : Int) : Bool :=
  (List.range l.accepted).all fun i => (l.clients i).all fun c => c.settled now l.store

def EventLoop.Idle (l : EventLoop D) : Prop := ∀ i c, l.clients i = some c → c.blockedReq = none

/-- A byte that has not been parsed counts two, a parked request one. -/
def Client.weight (c : Client) : ℕ := 2 * c.inBuf.length + if c.blockedReq.isSome then 1 else 0

def EventLoop.weight (l : EventLoop D) : ℕ :=
  ∑ i ∈ Finset.range l.accepted, (l.clients i).elim 0 Client.weight

/-- The bytes that are read in a turn. -/
def EventLoop.received (l : EventLoop D) (poll : Poll) : ℕ :=
  ((List.range l.accepted).map fun i => (poll.reads i).elim 0 fun results => (readLoop results).1.length).sum

section Weight
variable {e : Env D} {l l' l'' : EventLoop D} {c c' : Client} {i gain gain' : ℕ} {now : Int}

theorem EventLoop.Inv.settled (hl : l.Inv) :
    l.settled now = true ↔ ∀ i c, l.clients i = some c → c.settled now l.store = true := by
  unfold EventLoop.settled
  simp only [List.all_eq_true, List.mem_range, Option.all_eq_true]
  exact ⟨fun h i c hi => h i (hl.lt hi) c hi, fun h i _ c hi => h i c hi⟩

theorem EventLoop.Idle.settled (hl : l.Inv) (h : l.Idle) : l.settled now = true := by
  rw [hl.settled]
  intro i c hi
  rw [Client.settled, h i c hi]
  exact Bool.or_true _

theorem EventLoop.Inv.idle_of_anyBlocked (hl : l.Inv) (h : l.anyBlocked = false) : l.Idle := by
  intro i c hi
  by_contra hparked
  have hany : l.anyBlocked = true := by
    rw [EventLoop.anyBlocked, List.any_eq_true]
    refine ⟨i, List.mem_range.mpr (hl.lt hi), ?_⟩
    rw [hi]
    exact Option.isSome_iff_ne_none.mpr hparked
  rw [h] at hany
  cases hany

omit [LinearOrder D] in
theorem EventLoop.weight_put (hi : i < l.accepted) (s : Sess D) (o : Option Client) :
    (l.put i s o).weight + (l.clients i).elim 0 Client.weight = l.weight + o.elim 0 Client.weight := by
  have hmem : i ∈ Finset.range l.accepted := Finset.mem_range.mpr hi
  have hrest : ∑ j ∈ (Finset.range l.accepted).erase i, ((l.put i s o).clients j).elim 0 Client.weight =
      ∑ j ∈ (Finset.range l.accepted).erase i, (l.clients j).elim 0 Client.weight := by
    refine Finset.sum_congr rfl fun j hj => ?_
    rw [l.put_other (Finset.ne_of_mem_erase hj)]
  have hnew : (l.put i s o).weight = _ := (Finset.sum_erase_add _ _ hmem).symm
  have hold : l.weight = _ := (Finset.sum_erase_add _ _ hmem).symm
  rw [hnew, hold, hrest, l.put_self]
  omega

/-- A program has brought in `gain` and made a client parked only for some of it. -/
structure Client.Eased (gain : ℕ) (c c' : Client) : Prop where
  weight : c'.weight ≤ c.weight + gain
  parks : c.blockedReq = none → c'.blockedReq ≠ none → c'.weight < c.weight + gain

/-- The same for the loop, with what all its programs keep. -/
structure EventLoop.Eased (gain : ℕ) (l l' : EventLoop D) : Prop where
  inv : l'.Inv
  later : l.monoTick ≤ l'.monoTick
  weight : l'.weight ≤ l.weight + gain
  parks : l.Idle → l'.Idle ∨ l'.weight < l.weight + gain

theorem EventLoop.Eased.refl (hl : l.Inv) : EventLoop.Eased 0 l l :=
  ⟨hl, Nat.le_refl _, Nat.le_refl _, Or.inl⟩

theorem EventLoop.Eased.trans (h : EventLoop.Eased gain l l') (h' : EventLoop.Eased gain' l' l'') :
    EventLoop.Eased (gain + gain') l l'' := by
  have h₁ := h.weight
  have h₂ := h'.weight
  refine ⟨h'.inv, h.later.trans h'.later, by omega, fun hidle => ?_⟩
  rcases h.parks hidle with hidle' | hlt
  · rcases h'.parks hidle' with hidle'' | hlt
    · exact Or.inl hidle''
    · exact Or.inr (by omega)
  · exact Or.inr (by omega)

theorem runMoves_later {evs : List Move} (hl : l.Inv) (hrun : Run (Moves e) l evs l') :
    l'.Inv ∧ l.monoTick ≤ l'.monoTick :=
  hrun.invariant (fun l₁ => l₁.Inv ∧ l.monoTick ≤ l₁.monoTick)
    (fun _ _ _ ⟨hl₁, hle⟩ hmv => ⟨hmv.inv hl₁, hle.trans (hmv.monoTick hl₁)⟩) ⟨hl, Nat.le_refl _⟩

omit [LinearOrder D] in
theorem wlp_forClient {m : Cmd D Unit} {Q : EventLoop D → Prop} (hnone : l.clients i = none → Q l)
    (hsome : ∀ c, l.clients i = some c → wlp m e (l.sess c) fun _ s' => Q (l.put i s' (some s'.client))) :
    wlp (forClient m i) e l fun _ l' => Q l' := by
  intro u l' hrun
  unfold forClient at hrun
  cases hi : l.clients i with
  | none =>
    rw [hi] at hrun
    cases hrun
    exact hnone hi
  | some c =>
    rw [hi] at hrun
    dsimp only at hrun
    cases hres : m e (l.sess c) with
    | error fault =>
      rw [hres] at hrun
      cases hrun
    | ok p =>
      obtain ⟨v, s⟩ := p
      rw [hres] at hrun
      cases hrun
      exact hsome c hi v s hres

theorem forClient_eased {m : Cmd D Unit} (hl : l.Inv) (hf : ByMoves e i m)
    (hm : ∀ c, l.clients i = some c → wlp m e (l.sess c) fun _ s' => Client.Eased gain c s'.client) :
    wlp (forClient m i) e l fun _ l' => EventLoop.Eased gain l l' := by
  refine wlp_forClient (fun _ => ⟨hl, Nat.le_refl _, Nat.le_add_right _ _, Or.inl⟩) fun c hi u s hrun => ?_
  obtain ⟨evs, hmoves⟩ := hf l c hl hi u s hrun
  obtain ⟨hinv, hlater⟩ := runMoves_later hl hmoves
  obtain ⟨hle, hparks⟩ := hm c hi u s hrun
  have hput := l.weight_put (hl.lt hi) s (some s.client)
  rw [hi, Option.elim_some, Option.elim_some] at hput
  refine ⟨hinv, hlater, by omega, fun hidle => ?_⟩
  by_cases hfree : s.client.blockedReq = none
  · refine Or.inl fun j d hj => ?_
    by_cases hji : j = i
    · subst hji
      rw [l.put_self] at hj
      cases hj
      exact hfree
    · rw [l.put_other hji] at hj
      exact hidle j d hj
  · have hlt := hparks (hidle i c hi) hfree
    exact Or.inr (by omega)

theorem eachClient_eased {m : ℕ → Cmd D Unit} {gain : ℕ → ℕ} (hf : ∀ i, ByMoves e i (m i))
    (hm : ∀ i (s : Sess D), s.Inv → wlp (m i) e s fun _ s' => Client.Eased (gain i) s.client s'.client) :
    ∀ {is : List ℕ} {l : EventLoop D}, l.Inv →
      wlp (eachClient m is) e l fun _ l' => EventLoop.Eased (is.map gain).sum l l' := by
  intro is
  induction is with
  | nil => exact fun hl => wlp_pure _ (.refl hl)
  | cons i rest ih =>
    intro l hl
    unfold eachClient
    rw [wlp_bind, List.map_cons, List.sum_cons]
    refine wlp_mono (forClient_eased hl (hf i) fun c hi => hm i _ (hl.sess hi c.inBuf)) fun _ l₁ h₁ => ?_
    exact wlp_mono (ih h₁.inv) fun _ l₂ h₂ => h₁.trans h₂

end Weight

/-! ## Reading -/

section Reading
variable {e : Env D} {s : Sess D} {l : EventLoop D} {c c' : Client} {i gain : ℕ} {now : Int}

theorem Client.Eased.of_same (hlen : c'.inBuf.length ≤ c.inBuf.length) (hb : c'.blockedReq = c.blockedReq) :
    Client.Eased 0 c c' := by
  refine ⟨?_, fun hfree hparked => absurd (hb.trans hfree) hparked⟩
  unfold Client.weight
  rw [hb]
  omega

theorem Client.weight_lt (hlen : c'.inBuf.length < c.inBuf.length) : c'.weight < c.weight := by
  unfold Client.weight
  split <;> split <;> omega

theorem processLoop_unparked (rounds pos : ℕ) :
    wlp (processLoop rounds pos) e s fun r s' => r.2 = [] → s'.client.blockedReq = s.client.blockedReq := by
  cases rounds with
  | zero => exact wlp_pure _ fun _ => rfl
  | succ rounds =>
    unfold processLoop
    rw [wlp_bind]
    refine wlp_of_wp (wp_get.mpr ?_)
    split
    · exact wlp_pure _ fun _ => rfl
    cases hparse : respParseCommand (s.client.inBuf.drop pos) with
    | incomplete => exact wlp_pure _ fun _ => rfl
    | error => exact wlp_of_wp fun _ => rfl
    | ok item =>
      obtain ⟨req, used⟩ := item
      dsimp only
      rw [wlp_bind]
      intro u s₁ _
      rw [wlp_bind]
      intro r s₂ _
      exact wlp_pure _ fun h => absurd h (List.cons_ne_nil _ _)

theorem processInput_eased (hs : s.Inv) :
    wlp processInput e s fun _ s' => Client.Eased 0 s.client s'.client := by
  unfold processInput
  rw [wlp_bind]
  refine wlp_of_wp (wp_get.mpr ?_)
  rw [wlp_bind]
  intro r s₁ hloop
  obtain ⟨-, hbuf, -⟩ := processLoop_drained hs r s₁ hloop
  obtain ⟨hused, hle⟩ := processLoop_progress hs (Nat.zero_le _) r s₁ hloop
  have hunparked := processLoop_unparked _ _ r s₁ hloop
  have heased : ∀ c' : Client, c'.inBuf = s₁.client.inBuf.drop r.1 → c'.blockedReq = s₁.client.blockedReq →
      Client.Eased 0 s.client c' := by
    intro c' hbuf' hb
    have hlen : c'.inBuf.length = s.client.inBuf.length - r.1 := by rw [hbuf', hbuf, List.length_drop]
    by_cases hnone : r.2 = []
    · exact .of_same (by omega) (hb.trans (hunparked hnone))
    · have hpos : 0 < r.2.length := List.length_pos_iff.mpr hnone
      have hlt : c'.weight < s.client.weight := Client.weight_lt (by omega)
      exact ⟨Nat.le_of_lt hlt, fun _ _ => hlt⟩
  rw [wlp_bind]
  refine wlp_of_wp (wp_modify.mpr ?_)
  rw [wlp_bind]
  refine wlp_of_wp (wp_get.mpr ?_)
  split
  · exact wlp_of_wp (heased _ rfl rfl)
  · exact wlp_pure _ (heased _ rfl rfl)

theorem readFromClient_eased (hs : s.Inv) (results : List ReadResult) :
    wlp (readFromClient results) e s fun _ s' =>
    Client.Eased (2 * (readLoop results).1.length) s.client s'.client := by
  -- the bytes are there before they are parsed
  have hread : ∀ {c' : Client}, Client.Eased 0
      { s.client with inBuf := s.client.inBuf ++ (readLoop results).1 } c' →
      Client.Eased (2 * (readLoop results).1.length) s.client c' := by
    intro c' h
    have hweight : ({ s.client with inBuf := s.client.inBuf ++ (readLoop results).1 } : Client).weight =
        s.client.weight + 2 * (readLoop results).1.length := by
      simp only [Client.weight, List.length_append]
      omega
    obtain ⟨hle, hparks⟩ := h
    rw [hweight] at hle hparks
    exact ⟨hle, hparks⟩
  unfold readFromClient
  rw [wlp_bind]
  refine wlp_of_wp (wp_modify.mpr ?_)
  split
  · exact wlp_of_wp (hread (.of_same (Nat.le_refl _) rfl))
  · rw [wlp_bind]
    refine wlp_mono (processInput_eased ⟨hs.store, hs.client.txn, hs.client.blocked⟩) fun _ s₁ h₁ => ?_
    split
    · exact wlp_of_wp (hread ⟨h₁.weight, h₁.parks⟩)
    · exact wlp_pure _ (hread h₁)

theorem acceptClients_eased : ∀ (n : ℕ) {l : EventLoop D}, l.Inv →
    wlp (acceptClients n) e l fun _ l' => EventLoop.Eased 0 l l' := by
  intro n
  induction n with
  | zero => exact fun hl => wlp_pure _ (.refl hl)
  | succ n ih =>
    intro l hl
    have hjoin : Moves e l (.join l.accepted) l.clientAdd := .join
    have hothers : ∀ j, j ≠ l.accepted → l.clientAdd.clients j = l.clients j := fun j hj => l.put_other hj ..
    have hnew : l.clientAdd.clients l.accepted = some {} := l.put_self ..
    have hweight : l.clientAdd.weight = l.weight := by
      have hsum : l.clientAdd.weight = ∑ j ∈ Finset.range l.accepted,
        (l.clientAdd.clients j).elim 0 Client.weight +
          (l.clientAdd.clients l.accepted).elim 0 Client.weight := Finset.sum_range_succ ..
      have hrest : ∑ j ∈ Finset.range l.accepted, (l.clientAdd.clients j).elim 0 Client.weight =
          l.weight := by
        refine Finset.sum_congr rfl fun j hj => ?_
        rw [hothers j (Nat.ne_of_lt (Finset.mem_range.mp hj))]
      rw [hsum, hnew, hrest]
      rfl
    have hadd : EventLoop.Eased 0 l l.clientAdd := by
      refine ⟨hjoin.inv hl, hjoin.monoTick hl, Nat.le_of_eq hweight, fun hidle => Or.inl fun j c hj => ?_⟩
      by_cases hnewest : j = l.accepted
      · rw [hnewest, hnew] at hj
        cases hj
        rfl
      · rw [hothers j hnewest] at hj
        exact hidle j c hj
    unfold acceptClients
    rw [wlp_bind]
    exact wlp_of_wp (wp_modify.mpr (wlp_mono (ih hadd.inv) fun _ l' h' => hadd.trans h'))

end Reading

/-! ## The pass over the parked clients -/

/-- The same clients, and the same lists. -/
structure EventLoop.Stays (l l' : EventLoop D) : Prop where
  clients : l'.clients = l.clients
  accepted : l'.accepted = l.accepted
  lists : ∀ k, l'.store.listAt k = l.store.listAt k

section Pass
variable {e : Env D} {l l' l'' : EventLoop D} {c : Client} {i : ℕ} {now : Int}

omit [LinearOrder D] in
theorem EventLoop.Stays.trans (h : l.Stays l') (h' : l'.Stays l'') : l.Stays l'' :=
  ⟨h'.clients.trans h.clients, h'.accepted.trans h.accepted, fun k => (h'.lists k).trans (h.lists k)⟩

omit [LinearOrder D] in
theorem EventLoop.Stays.weight (h : l.Stays l') : l'.weight = l.weight := by
  rw [EventLoop.weight, h.clients, h.accepted]
  rfl

omit [LinearOrder D] in
theorem Client.settled_congr {store store' : Store D} (h : ∀ k, store'.listAt k = store.listAt k) :
    c.settled now store' = c.settled now store := by
  simp only [Client.settled, h]

/-- A client that is looked at uses up some of its weight, or there is nothing to do for it. -/
theorem serviceClient_settles (hl : l.Inv) (hi : l.clients i = some c) :
    wlp (serviceClient now) e (l.sess c) fun _ s' => s'.client.weight < c.weight ∨
      (s'.client = c ∧ (∀ k, s'.store.listAt k = l.store.listAt k) ∧ c.settled now l.store = true) := by
  unfold serviceClient
  rw [wlp_bind]
  refine wlp_of_wp (wp_get.mpr ?_)
  cases hparked : (l.sess c).client.blockedReq with
  | none =>
    refine wlp_pure _ (Or.inr ⟨rfl, fun _ => rfl, ?_⟩)
    rw [Client.settled, show c.blockedReq = none from hparked]
    exact Bool.or_true _
  | some req =>
    dsimp only
    split
    · rename_i hclosed
      refine wlp_pure _ (Or.inr ⟨rfl, fun _ => rfl, ?_⟩)
      rw [Client.settled, show c.closed = true from hclosed]
      exact Bool.true_or _
    · rename_i hopen
      have hreq : Runnable D req := (hl.server.clients i c hi).blocked req hparked
      rw [wlp_bind]
      intro r s₁ hrun
      obtain ⟨st, s₂, hfound, hans⟩ := wp_iff.mp
        (runFound_wp (e := e) (s := l.sess c) hreq hl.server.store true (c.timedOut now))
      have hretry : commandRetryBlocked req (c.timedOut now) e (l.sess c) = .ok (st.result, s₂) :=
        bind_of_ok hfound
      cases hretry.symm.trans hrun
      obtain ⟨x, rfl, hres, hx⟩ := exists_runs hreq hfound hans
      rw [← hres] at hretry ⊢
      split
      · rename_i hdone
        -- the request has been completed, and the client goes on with its input
        have hmv := Moves.retry hi hparked (Bool.not_eq_true _ ▸ hopen) hretry hx
        have hinv := (hmv.inv hl).sess (EventLoop.put_self ..) s₁.client.inBuf
        rw [Client.retried, if_pos hdone] at hinv
        rw [wlp_bind]
        refine wlp_of_wp (wp_modify.mpr ?_)
        rw [wlp_bind]
        refine wlp_mono (processInput_eased hinv) fun _ s₃ h₃ => wlp_pure _ (Or.inl ?_)
        have hbuf : s₁.client.inBuf = c.inBuf := hans.kept.2.inBuf
        have hbefore : c.weight = 2 * c.inBuf.length + 1 := by
          rw [Client.weight, show c.blockedReq = _ from hparked]
          rfl
        have hafter : s₃.client.weight ≤ 2 * s₁.client.inBuf.length := h₃.weight
        rw [hbuf] at hafter
        omega
      · rename_i hblocked
        have hresult : x.result = .blocked := by
          rw [hres] at hblocked ⊢
          cases st with
          | done => exact absurd rfl hblocked
          | block => rfl
        obtain ⟨htimeout, hsame, hempty⟩ := hx.waits hresult hl.server.store
        refine wlp_pure _ (Or.inr ⟨hx.still_blocked (hx.blocks_blpop hresult) hparked hresult, hsame, ?_⟩)
        have hkeys : x.req.popKeys.all (fun key => (l.store.listAt key).isEmpty) = true := by
          rw [List.all_eq_true]
          intro key hkey
          rw [List.isEmpty_iff]
          exact hempty key hkey
        rw [Client.settled, show c.blockedReq = _ from hparked, Option.all_some, htimeout, hkeys]
        exact Bool.or_true _

/-- A pass uses up some of the weight, or there is nothing to do for the clients it has looked at. -/
theorem pass_settles : ∀ {is : List ℕ} {l : EventLoop D}, l.Inv →
    wlp (eachClient (fun _ => serviceClient now) is) e l fun _ l' => l'.weight < l.weight ∨
      (l.Stays l' ∧ ∀ i ∈ is, ∀ c, l.clients i = some c → c.settled now l.store = true) := by
  intro is
  induction is with
  | nil =>
    exact fun _ => wlp_pure _ (Or.inr ⟨⟨rfl, rfl, fun _ => rfl⟩, fun i hi => absurd hi List.not_mem_nil⟩)
  | cons i rest ih =>
    intro l hl
    have hfirst : wlp (forClient (serviceClient now) i) e l fun _ l' => l'.weight < l.weight ∨
        (l.Stays l' ∧ ∀ c, l.clients i = some c → c.settled now l.store = true) := by
      refine wlp_forClient (fun hi => Or.inr ⟨⟨rfl, rfl, fun _ => rfl⟩, fun c hc => ?_⟩) fun c hi => ?_
      · rw [hi] at hc
        cases hc
      refine wlp_mono (serviceClient_settles hl hi) fun _ s hs => ?_
      rcases hs with hlt | ⟨hclient, hlists, hsettled⟩
      · have hput := l.weight_put (hl.lt hi) s (some s.client)
        rw [hi, Option.elim_some, Option.elim_some] at hput
        exact Or.inl (by omega)
      · refine Or.inr ⟨⟨?_, rfl, hlists⟩, fun c' hc' => ?_⟩
        · rw [hclient]
          exact Function.update_eq_self_iff.mpr hi.symm
        · cases hi.symm.trans hc'
          exact hsettled
    unfold eachClient
    rw [wlp_bind]
    intro u l₁ hrun
    have hmoves : LoopLeads e (fun _ => True) l now _ l₁ now :=
      forClient_moves serviceClient_moves hl u l₁ hrun
    refine wlp_mono (ih (hmoves.inv hl)) fun _ l₂ h₂ => ?_
    have hpass : l₂.weight ≤ l₁.weight := h₂.elim Nat.le_of_lt fun h => Nat.le_of_eq h.1.weight
    rcases hfirst u l₁ hrun with hlt | ⟨hstays, hsettled⟩
    · exact Or.inl (Nat.lt_of_le_of_lt hpass hlt)
    · rw [hstays.weight, hstays.clients] at h₂
      rcases h₂ with hlt | ⟨hstays₂, hsettled₂⟩
      · exact Or.inl hlt
      refine Or.inr ⟨hstays.trans hstays₂, fun j hj => ?_⟩
      rcases List.mem_cons.mp hj with rfl | hj
      · exact hsettled
      · intro c hc
        rw [← Client.settled_congr hstays.lists]
        exact hsettled₂ j hj c hc

theorem serviceBlocked_settles (hl : l.Inv) :
    wlp serviceBlocked e l fun _ l' => l'.Inv ∧ l.monoTick ≤ l'.monoTick ∧
    (l'.weight < l.weight ∨ (l'.weight = l.weight ∧ l'.settled (e.mono l.monoTick) = true)) := by
  intro u l' hrun
  have hleads : LoopLeads e (fun _ => True) l 0 _ l' _ := serviceBlocked_moves 0 hl u l' hrun
  obtain ⟨evs, hmoves, -⟩ := hleads
  obtain ⟨hinv, hlater⟩ := runMoves_later hl (runLoop_moves hmoves)
  refine ⟨hinv, hlater, ?_⟩
  have hclock : Moves e l .clock { l with monoTick := l.monoTick + 1 } := .clock 1
  have heach : eachClient (fun _ => serviceClient (e.mono l.monoTick)) (List.range l.accepted) e
      { l with monoTick := l.monoTick + 1 } = .ok (u, l') := hrun
  have hpass := pass_settles (hclock.inv hl) u l' heach
  refine hpass.imp_right fun ⟨hstays, hsettled⟩ => ⟨hstays.weight, hinv.settled.mpr fun i c hi => ?_⟩
  rw [hstays.clients] at hi
  rw [Client.settled_congr hstays.lists]
  exact hsettled i (List.mem_range.mpr (hl.lt hi)) c hi

end Pass

/-! ## The end of a turn -/

/-- Clients have been closed or have left, and nothing else has happened that the parked clients wait for. -/
structure EventLoop.Winds (l l' : EventLoop D) : Prop where
  inv : l'.Inv
  later : l.monoTick ≤ l'.monoTick
  store : l'.store = l.store
  accepted : l'.accepted = l.accepted
  clients : ∀ i c', l'.clients i = some c' → ∃ c, l.clients i = some c ∧
    (c'.closed = false → c.closed = false) ∧
    c'.blockedReq = c.blockedReq ∧ c'.blockDeadline = c.blockDeadline ∧ c'.inBuf = c.inBuf

section Winds
variable {e : Env D} {l l' l'' : EventLoop D} {i : ℕ} {now : Int}

theorem EventLoop.Winds.refl (hl : l.Inv) : l.Winds l :=
  ⟨hl, Nat.le_refl _, rfl, rfl, fun _ c hi => ⟨c, hi, id, rfl, rfl, rfl⟩⟩

theorem EventLoop.Winds.trans (h : l.Winds l') (h' : l'.Winds l'') : l.Winds l'' := by
  refine ⟨h'.inv, h.later.trans h'.later, h'.store.trans h.store, h'.accepted.trans h.accepted,
    fun i c'' hi => ?_⟩
  obtain ⟨c', hi', hopen', hb', hd', hbuf'⟩ := h'.clients i c'' hi
  obtain ⟨c, hi, hopen, hb, hd, hbuf⟩ := h.clients i c' hi'
  exact ⟨c, hi, hopen ∘ hopen', hb'.trans hb, hd'.trans hd, hbuf'.trans hbuf⟩

theorem EventLoop.Winds.settled (h : l.Winds l') (hl : l.Inv) (hs : l.settled now = true) :
    l'.settled now = true := by
  rw [h.inv.settled]
  intro i c' hi'
  obtain ⟨c, hi, hopen, hb, hd, -⟩ := h.clients i c' hi'
  have hc := hl.settled.mp hs i c hi
  unfold Client.settled Client.timedOut at hc ⊢
  rw [h.store, hb, hd]
  cases hclosed : c'.closed with
  | true => exact Bool.true_or _
  | false => rwa [hopen hclosed] at hc

theorem EventLoop.Winds.idle (h : l.Winds l') (hidle : l.Idle) : l'.Idle := by
  intro i c' hi'
  obtain ⟨c, hi, -, hb, -⟩ := h.clients i c' hi'
  rw [hb, hidle i c hi]

theorem EventLoop.Winds.weight (h : l.Winds l') : l'.weight ≤ l.weight := by
  unfold EventLoop.weight
  rw [h.accepted]
  refine Finset.sum_le_sum fun i _ => ?_
  cases hi' : l'.clients i with
  | none => exact Nat.zero_le _
  | some c' =>
    obtain ⟨c, hi, -, hb, -, hbuf⟩ := h.clients i c' hi'
    rw [hi, Option.elim_some, Option.elim_some, Client.weight, Client.weight, hb, hbuf]

theorem forClient_winds {m : Cmd D Unit} (hl : l.Inv)
    (hm : ∀ s : Sess D, wlp m e s fun _ s' => ∃ out closed, s' =
      { s with client := { s.client with out, closed } } ∧
      (closed = false → s.client.closed = false)) : wlp (forClient m i) e l fun _ l' => l.Winds l' := by
  refine wlp_forClient (fun _ => .refl hl) fun c hi => wlp_mono (hm _) fun _ s ⟨out, closed, hs, hopen⟩ => ?_
  subst hs
  refine ⟨hl.buffers hi rfl rfl, Nat.le_refl _, rfl, rfl, fun j c' hj => ?_⟩
  by_cases hji : j = i
  · subst hji
    rw [l.put_self] at hj
    cases hj
    exact ⟨c, hi, hopen, rfl, rfl, rfl⟩
  · rw [l.put_other hji] at hj
    exact ⟨c', hj, id, rfl, rfl, rfl⟩

theorem eachClient_winds {m : ℕ → Cmd D Unit}
    (hm : ∀ i (s : Sess D), wlp (m i) e s fun _ s' => ∃ out closed,
      s' = { s with client := { s.client with out, closed } } ∧ (closed = false → s.client.closed = false)) :
    ∀ {is : List ℕ} {l : EventLoop D}, l.Inv → wlp (eachClient m is) e l fun _ l' => l.Winds l' := by
  intro is
  induction is with
  | nil => exact fun hl => wlp_pure _ (.refl hl)
  | cons i rest ih =>
    intro l hl
    unfold eachClient
    rw [wlp_bind]
    exact wlp_mono (forClient_winds hl (hm i)) fun _ l₁ h₁ => wlp_mono (ih h₁.inv) fun _ l₂ h₂ => h₁.trans h₂

omit [LinearOrder D] in
theorem writeToClient_winds (results : List WriteResult) (s : Sess D) :
    wlp (writeToClient results) e s fun _ s' =>
    ∃ out closed, s' = { s with client := { s.client with out, closed } } ∧
      (closed = false → s.client.closed = false) := by
  unfold writeToClient
  rw [wlp_bind]
  refine wlp_of_wp (wp_get.mpr ?_)
  generalize writeLoop s.client.out.length results 0 = w
  obtain ⟨sent, failed⟩ := w
  refine wlp_of_wp ⟨_, _, rfl, fun hopen => ?_⟩
  simp only [Bool.or_eq_false_iff] at hopen
  exact hopen.1.1

theorem clientFree_winds (hl : l.Inv) (i : ℕ) : l.Winds (l.clientFree i) := by
  unfold EventLoop.clientFree
  split
  · exact .refl hl
  · rename_i c hi
    split
    · refine ⟨hl.put hi hl.server.store fun c hc => (by cases hc), Nat.le_refl _, rfl, rfl, fun j c' hj => ?_⟩
      by_cases hji : j = i
      · subst hji
        rw [l.put_self] at hj
        cases hj
      · rw [l.put_other hji] at hj
        exact ⟨c', hj, id, rfl, rfl, rfl⟩
    · exact .refl hl

theorem foldl_clientFree_winds : ∀ (is : List ℕ) {l : EventLoop D}, l.Inv →
    l.Winds (is.foldl EventLoop.clientFree l) := by
  intro is
  induction is with
  | nil => exact fun hl => .refl hl
  | cons i rest ih =>
    intro l hl
    have h := clientFree_winds hl i
    exact h.trans (ih h.inv)

end Winds

/-! ## Whole runs -/

/-- The turn has ended with nothing to do for the parked clients at a time that was read in it. -/
def TurnSettles (e : Env D) (l l' : EventLoop D) : Prop :=
  ∃ tick, tick < l'.monoTick + 1 ∧ l.monoTick ≤ tick ∧ l'.settled (e.mono tick) = true

instance (e : Env D) (l l' : EventLoop D) : Decidable (TurnSettles e l l') :=
  inferInstanceAs (Decidable (∃ tick, tick < _ ∧ _))

def Turns (e : Env D) (l : EventLoop D) (poll : Poll) (l' : EventLoop D) : Prop :=
  serverTurn poll e l = .ok ((), l')

section Turns
variable {e : Env D} {l : EventLoop D}

theorem reads_eased (hl : l.Inv) (poll : Poll) :
    wlp (eachClient (fun i => (poll.reads i).elim (pure ()) readFromClient) (List.range l.accepted)) e l
      fun _ l' =>
      EventLoop.Eased (2 * l.received poll) l l' := by
  have hgain : 2 * l.received poll = ((List.range l.accepted).map fun i =>
      2 * (poll.reads i).elim 0 fun results =>
        (readLoop results).1.length).sum := (List.sum_map_mul_left ..).symm
  rw [hgain]
  refine eachClient_eased (fun i => ?_) (fun i s hs => ?_) hl
  · have hmoves : Follows e (fun _ => True) 0 i ((poll.reads i).elim (pure ()) readFromClient) _ :=
      reading_moves fun hi => absurd trivial hi
    exact hmoves.byMoves
  · cases poll.reads i with
    | none => exact wlp_pure _ (.of_same (Nat.le_refl _) rfl)
    | some results => exact readFromClient_eased hs results

/-- The middle of a turn: the parked clients are looked at, unless there were none when the turn began. -/
theorem serviced_settles {gain : ℕ} {l₁ : EventLoop D} (hl : l.Inv) (h : EventLoop.Eased gain l l₁) :
    wlp (if l.anyBlocked then serviceBlocked else pure ()) e l₁ fun _ l' => l'.Inv ∧
      l₁.monoTick ≤ l'.monoTick ∧
      (l'.weight < l.weight + gain ∨ (l'.weight ≤ l.weight + gain ∧ l'.settled (e.mono l₁.monoTick) =
        true)) := by
  have hweight := h.weight
  split
  · refine wlp_mono (serviceBlocked_settles h.inv) fun _ l' ⟨hinv, hlater, hpass⟩ => ⟨hinv, hlater, ?_⟩
    rcases hpass with hlt | ⟨heq, hsettled⟩
    · exact Or.inl (by omega)
    · exact Or.inr ⟨by omega, hsettled⟩
  · rename_i hnone
    have hidle := hl.idle_of_anyBlocked (Bool.not_eq_true _ ▸ hnone)
    refine wlp_pure _ ⟨h.inv, Nat.le_refl _, ?_⟩
    rcases h.parks hidle with hidle' | hlt
    · exact Or.inr ⟨hweight, hidle'.settled h.inv⟩
    · exact Or.inl hlt

theorem serverTurn_settles (hl : l.Inv) (poll : Poll) : wlp (serverTurn poll) e l fun _ l' => l'.Inv ∧
    (if ¬ TurnSettles e l l' then 1 else 0) + l'.weight ≤ l.weight + 2 * l.received poll := by
  unfold serverTurn
  rw [wlp_bind]
  refine wlp_of_wp (wp_get.mpr ?_)
  rw [wlp_bind]
  refine wlp_mono (reads_eased hl poll) fun _ l₁ h₁ => ?_
  rw [wlp_bind]
  refine wlp_mono (acceptClients_eased _ h₁.inv) fun _ l₂ h₂ => ?_
  have h₁₂ : EventLoop.Eased (2 * l.received poll) l l₂ := h₁.trans h₂
  rw [wlp_bind]
  refine wlp_mono (serviced_settles hl h₁₂) fun _ l₃ ⟨hinv₃, hlater₃, h₃⟩ => ?_
  rw [wlp_bind]
  refine wlp_of_wp (wp_get.mpr ?_)
  rw [wlp_bind]
  refine wlp_mono (eachClient_winds (fun i s => ?_) hinv₃) fun _ l₄ h₄ => ?_
  · rw [wlp_bind]
    refine wlp_of_wp (wp_get.mpr ?_)
    split
    · exact writeToClient_winds _ s
    · exact wlp_pure _ ⟨s.client.out, s.client.closed, rfl, id⟩
  unfold removeClosedClients
  rw [wlp_bind]
  refine wlp_of_wp (wp_get.mpr (wlp_of_wp (wp_modify.mpr ?_)))
  have h₅ := h₄.trans (foldl_clientFree_winds (List.range l₄.accepted) h₄.inv)
  have hweight := h₅.weight
  refine ⟨h₅.inv, ?_⟩
  rcases h₃ with hlt | ⟨hle, hsettled⟩
  · split <;> omega
  · have hturn : TurnSettles e l ((List.range l₄.accepted).foldl EventLoop.clientFree l₄) :=
      ⟨l₂.monoTick, Nat.lt_succ_of_le (hlater₃.trans h₅.later), h₁₂.later, h₅.settled hinv₃ hsettled⟩
    rw [if_neg (not_not.mpr hturn)]
    omega

theorem serverRun_turns : ∀ {polls : List Poll} {l l' : EventLoop D}, serverRun polls e l = .ok ((), l') →
    Run (Turns e) l polls l' := by
  intro polls
  induction polls with
  | nil =>
    intro l l' h
    cases h
    exact .nil l
  | cons poll rest ih =>
    intro l l' h
    have hw : wlp (serverRun (poll :: rest)) e l fun _ l' => Run (Turns e) l (poll :: rest) l' := by
      unfold serverRun
      rw [wlp_bind]
      intro u l₁ hturn v l₂ hrest
      exact .cons hturn (ih hrest)
    exact hw () l' h

/-- No wakeup is lost. Over any turns of the loop, those that end while a parked client has an element under
one of its keys, or a deadline that had passed when the turn looked at the clock, are at most two for each
byte that was received: a turn that leaves a client waiting has used up input, so that without new input the
parked clients are all served in the end. -/
theorem unsettled_turns_le {e : Env D} {store : Store D} (hstore : store.Valid)
    {turns : List (Poll × EventLoop D × EventLoop D)} {l : EventLoop D}
    (hrun : Run (Observed Prod.mk (Turns e)) (.start store) turns l) :
    (turns.countP fun t => ¬ TurnSettles e t.2.1 t.2.2) ≤
      2 * (turns.map fun t => t.2.1.received t.1).sum := by
  have hstep : ∀ (l : EventLoop D) (t : Poll × EventLoop D × EventLoop D) (l' : EventLoop D), l.Inv →
      Observed Prod.mk (Turns e) l t l' → l'.Inv ∧
        (if decide (¬ TurnSettles e t.2.1 t.2.2) then 1 else 0) + l'.weight ≤ l.weight + 2 *
          t.2.1.received t.1 := by
    rintro l ⟨poll, -⟩ l' hl ⟨hturn, rfl⟩
    simpa only [decide_eq_true_eq] using serverTurn_settles hl poll () l' hturn
  have hpay := hrun.potential_countP EventLoop.Inv EventLoop.weight _ _ hstep (EventLoop.inv_start hstore)
  have hstart : (EventLoop.start store).weight = 0 := rfl
  rw [hstart, Nat.zero_add, List.sum_map_mul_left] at hpay
  exact Nat.le_of_add_right_le hpay

/-- One client asks for an element and another pushes it in the same turn, which began with nobody parked: the
turn ends while the element is there. -/
theorem unsettled_turns_le_push :
    let e := Env.integers (fun n => n) fun n => n
    let reads : ℕ → Option (List ReadResult) := fun i =>
      if i = 0 then some [.bytes (ascii "blpop k 0\r\n")] else some [.bytes (ascii "rpush k v\r\n")]
    let polls : List Poll := [⟨fun _ => none, 2, fun _ => []⟩, ⟨reads, 0, fun _ => []⟩]
    ∃ l, serverRun polls e (.start (storeCreate : Store Int)) = .ok ((), l) ∧ l.settled (e.mono 0) = false ∧
      ∃ turns, Run (Observed Prod.mk (Turns e)) (.start storeCreate) turns l ∧
        (turns.countP fun t => ¬ TurnSettles e t.2.1 t.2.2) ≤
          2 * (turns.map fun t => t.2.1.received t.1).sum := by
  intro e reads polls
  have hended : (serverRun polls e (.start storeCreate)).toOption.map (fun p => p.2.settled (e.mono 0)) =
      some false := by
    decide +kernel
  obtain ⟨⟨⟨⟩, l⟩, hrun, hsettled⟩ := ok_of_toOption hended
  obtain ⟨turns, hturns, -⟩ := (serverRun_turns hrun).observe Prod.mk
  exact ⟨l, hrun, hsettled, turns, hturns, unsettled_turns_le storeCreate_valid hturns⟩

end Turns
end PulseDB
