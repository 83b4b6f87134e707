import PulseDB.Cmd.Steps
import PulseDB.Server.Moves

/-!
# What clients can see of the store

The replies depend on the values that have not expired and on nothing else: not on the order of the entries in
the hash table, and not on which expired entries have been removed from it already.

* `Alike e s t` : the sessions have the same client and hold the same values that have not expired;
  `alike_congruence` : the steps of a command keep this, if the clock does not go back;
* `runFound_alike`, `commandProcess_alike` : so does every command but `KEYS`;
* `LoopsAlike.step` : a server whose store holds the same values can make the same moves, with the same
  replies;
* `layout_unobservable` : so do whole runs.
-/

namespace PulseDB
open Lib Lib.Prog

variable {D : Type} [LinearOrder D]

/-! ## Sessions -/

def Env.Forward (e : Env D) : Prop := ∀ m n : ℕ, m ≤ n → e.clock m ≤ e.clock n

/-- The stores show the same values at the time of the next reading of the clock. -/
structure SameValues (now : Int) (store store' : Store D) : Prop where
  left : store.Valid
  right : store'.Valid
  live : ∀ key, live now (store.cells key) = live now (store'.cells key)

structure Alike (e : Env D) (s t : Sess D) : Prop where
  client : t.client = s.client
  tick : t.tick = s.tick
  monoTick : t.monoTick = s.monoTick
  values : SameValues (e.clock s.tick) s.store t.store

section Alike
variable {e : Env D} {s t s' t' : Sess D}

theorem SameValues.later {now now' : Int} {store store' : Store D} (h : SameValues now store store')
    (hle : now ≤ now') :
    SameValues now' store store' :=
  ⟨h.left, h.right, fun key => by rw [← live_live hle, h.live, live_live hle]⟩

theorem alike_congruence (hclock : e.Forward) : Congruence e (Alike e) where
  reply b h := ⟨by rw [h.client], h.tick, h.monoTick, h.values⟩
  nowMs h := ⟨by rw [h.tick], h.client, by rw [h.tick], h.monoTick,
    h.values.later (hclock _ _ (Nat.le_succ _))⟩
  call op key := by
    intro s t h
    have hleft : wp (PulseDB.call op key) e s (Called e s op key) := wp_call h.values.left fun _ _ hc => hc
    have hright : wp (PulseDB.call op key) e t (Called e t op key) := wp_call h.values.right fun _ _ hc => hc
    obtain ⟨a, s', hs, hcs⟩ := wp_iff.mp hleft
    obtain ⟨b, t', ht, hct⟩ := wp_iff.mp hright
    have hmono : s'.monoTick = s.monoTick ∧ t'.monoTick = t.monoTick := by
      cases hs
      cases ht
      exact ⟨rfl, rfl⟩
    refine rel_of_ok hs ht ⟨?_, ?_, ?_, ?_, hcs.valid, hct.valid, fun k => ?_⟩
    · rw [hcs.result, hct.result, h.tick, h.values.live]
    · rw [hct.client, hcs.client, h.client]
    · rw [hct.tick, hcs.tick, h.tick]
    · rw [hmono.1, hmono.2, h.monoTick]
    · rw [hcs.cells, hct.cells, h.tick, ← h.values.live key]
      by_cases hk : k = key
      · subst hk
        rw [Function.update_self, Function.update_self]
      · rw [Function.update_of_ne hk, Function.update_of_ne hk, hcs.tick]
        exact (h.values.later (hclock _ _ (Nat.le_add_right _ 2))).live k

theorem Alike.modify (h : Alike e s t) (f : Client → Client) :
    Alike e { s with client := f s.client } { t with client := f t.client } :=
  ⟨congrArg f h.client, h.tick, h.monoTick, h.values⟩

theorem park_alike (h : Alike e s t) (timeout : D) :
    rel (park timeout) (park timeout) e s t Eq fun st s' st' t' => st = st' ∧ Alike e s' t' := by
  unfold park
  refine rel_left rfl (rel_right rfl (rel_left rfl (rel_right rfl ?_)))
  rw [h.client]
  split
  · exact rel_pure ⟨rfl, h⟩
  · split
    · refine rel_left rfl (rel_right rfl (rel_of_ok rfl rfl ⟨rfl, ?_, h.tick, ?_, h.values⟩))
      · simp only [h.client, h.monoTick]
      · simp only [h.monoTick]
    · exact rel_of_ok rfl rfl ⟨rfl, h.modify fun c => { c with blockDeadline := 0 }⟩

theorem cmdBlpop_alike (hclock : e.Forward) (h : Alike e s t) (ctx : CommandCtx) :
    rel (cmdBlpop ctx) (cmdBlpop ctx) e s t Eq fun st s' st' t' => st = st' ∧ Alike e s' t' := by
  have hR := alike_congruence hclock
  unfold cmdBlpop
  refine rel_left rfl (rel_right rfl (rel_bind ((Made.arg _ _).uniform hR h) ?_))
  rintro text s₁ _ t₁ ⟨rfl, h₁⟩
  split
  · exact (Made.answer _).uniform hR h₁
  · split
    · exact (Made.answer _).uniform hR h₁
    · refine rel_bind ((blpopKeys_made ctx).uniform hR h₁) ?_
      rintro r s₂ _ t₂ ⟨rfl, h₂⟩
      split
      · exact rel_pure ⟨rfl, h₂⟩
      · split
        · exact (Made.answer _).uniform hR h₂
        · exact park_alike h₂ _

/-! ## Requests -/

/-- The request calls `KEYS`. -/
def RespValue.IsKeys (req : RespValue) : Prop := req.name.map toLower = ascii "keys"

variable {req : RespValue}

theorem firstStr_made (req : RespValue) : Made (fun _ => True) (firstStr req : Cmd D Bytes) :=
  .bind (.element _ _) fun x _ => .strOf x

theorem noNul_made (req : RespValue) : Made (fun _ => True) (noNul req : Cmd D Bool) := by
  refine .bind (.forFrom (Q := fun _ => True) fun i _ => .bind (.element _ _) fun x _ =>
    .bind (.strOf x) fun _ _ => ?_)
    fun r _ => ?_
  · split <;> exact .pure trivial
  · split <;> exact .pure trivial

theorem validate_made (req : RespValue) :
    Made (fun _ => True) (validate req : Cmd D (Option (CommandSpec D))) := by
  refine .bind (firstStr_made req) fun name _ => ?_
  split
  · exact .bind (.reply _) fun _ _ => .pure trivial
  · split
    · exact .bind (.reply _) fun _ _ => .pure trivial
    · refine .bind (noNul_made req) fun b _ => ?_
      split
      · exact .pure trivial
      · exact .bind (.reply _) fun _ _ => .pure trivial

theorem run_alike (hclock : e.Forward) (h : Alike e s t) {spec : CommandSpec D} (hacc : Accepted req spec)
    (hkind : spec.kind = .normal) (hkeys : ¬ req.IsKeys) (canBlock timedOut : Bool) :
    rel (run spec req canBlock timedOut) (run spec req canBlock timedOut) e s t Eq
      fun st s' st' t' => st = st' ∧ Alike e s' t' := by
  obtain ⟨hmem, hname⟩ := commandLookup_some hacc.found
  by_cases hblpop : spec.name = ascii "blpop"
  · obtain rfl := commandTable_blpop hmem hblpop
    exact cmdBlpop_alike hclock h _
  · obtain ⟨proc, hproc, hmade⟩ := commandTable_made spec hmem hkind
      (fun hk => hkeys (hname.symm.trans hk)) hblpop
    rw [run, hproc]
    exact (hmade _).uniform (alike_congruence hclock) h

theorem runFound_alike (hclock : e.Forward) (h : Alike e s t) (hreq : Runnable D req) (hkeys : ¬ req.IsKeys)
    (canBlock timedOut : Bool) :
    rel (runFound req canBlock timedOut) (runFound req canBlock timedOut) e s t Eq
      fun st s' st' t' => st = st' ∧ Alike e s' t' := by
  obtain ⟨spec, hacc, hkind⟩ := hreq
  rw [rel, runFound_of_accepted hacc, runFound_of_accepted hacc]
  exact run_alike hclock h hacc hkind hkeys canBlock timedOut

theorem execQueued_alike (hclock : e.Forward) : ∀ {cmds : List RespValue} {s t : Sess D}, Alike e s t →
    (∀ req ∈ cmds, Runnable D req) → (∀ req ∈ cmds, ¬ req.IsKeys) →
    rel (execQueued cmds) (execQueued cmds) e s t Eq fun _ s' _ t' => Alike e s' t' := by
  intro cmds
  induction cmds with
  | nil => exact fun h _ _ => rel_pure h
  | cons req rest ih =>
    intro s t h hruns hkeys
    obtain ⟨hreq, hrest⟩ := List.forall_mem_cons.mp hruns
    obtain ⟨hkey, hrestkeys⟩ := List.forall_mem_cons.mp hkeys
    refine rel_bind (runFound_alike hclock h hreq hkey false false) ?_
    rintro - s₁ - t₁ ⟨-, h₁⟩
    exact ih h₁ hrest hrestkeys

theorem reply_alike (h : Alike e s t) (b : Bytes) :
    rel (reply b) (reply b) e s t Eq fun _ s' _ t' => Alike e s' t' :=
  rel_of_ok rfl rfl (h.modify fun c => { c with out := c.out ++ b })

theorem modifyTxn_alike (h : Alike e s t) (f : Txn → Txn) :
    rel (modifyTxn f) (modifyTxn f) e s t Eq fun _ s' _ t' => Alike e s' t' :=
  rel_of_ok rfl rfl (h.modify fun c => { c with txn := f c.txn })

theorem execTransaction_alike (hclock : e.Forward) (h : Alike e s t) (hinv : s.Inv)
    (hkeys : s.client.txn.error = false → ∀ req ∈ s.client.txn.cmds, ¬ req.IsKeys) :
    rel execTransaction execTransaction e s t Eq fun _ s' _ t' => Alike e s' t' := by
  unfold execTransaction
  refine rel_left rfl (rel_right rfl ?_)
  rw [h.client]
  split
  · refine rel_bind (modifyTxn_alike h _) ?_
    rintro - s₁ - t₁ h₁
    exact reply_alike h₁ _
  · rename_i hno
    refine rel_bind (reply_alike h _) ?_
    rintro - s₁ - t₁ h₁
    refine rel_bind (execQueued_alike hclock h₁ hinv.client.txn.runnable
      (hkeys (Bool.not_eq_true _ ▸ hno))) ?_
    rintro - s₂ - t₂ h₂
    exact modifyTxn_alike h₂ _

/-- A request that is processed has the same result, and the same is written, if it calls no `KEYS`. -/
theorem commandProcess_alike (hclock : e.Forward) (h : Alike e s t) (hinv : s.Inv) (hp : req.IsParsed)
    (hcount : req.count ≠ 0) (hown : Runnable D req → s.client.txn.active = false → ¬ req.IsKeys)
    (hqueue : ∀ spec : CommandSpec D, Accepted req spec → spec.kind = .exec → s.client.txn.active = true →
      s.client.txn.error = false → ∀ q ∈ s.client.txn.cmds, ¬ q.IsKeys) :
    rel (commandProcess req) (commandProcess req) e s t Eq fun r s' r' t' => r = r' ∧ Alike e s' t' := by
  have hend : ∀ {m : Cmd D Unit} {r : CommandResult} {s t : Sess D},
      rel m m e s t Eq (fun _ s' _ t' => Alike e s' t') →
      rel (m >>= fun _ => pure r) (m >>= fun _ => pure r) e s t Eq fun r s' r' t' => r = r' ∧
      Alike e s' t' := by
    intro m r s t hm
    refine rel_bind hm ?_
    rintro - s' - t' h'
    exact rel_pure ⟨rfl, h'⟩
  unfold commandProcess
  refine rel_bind (rel_and_wlp ((validate_made req).uniform (alike_congruence hclock) h)
    (validate_found hp hcount)) ?_
  rintro found s₁ _ t₁ ⟨⟨rfl, h₁⟩, hfound⟩
  cases found with
  | none => exact hend (modifyTxn_alike h₁ _)
  | some spec =>
    obtain ⟨rfl, hacc⟩ := hfound spec rfl
    have hclient : s₁.client = s.client := h₁.client.symm.trans h.client
    refine rel_left rfl (rel_right rfl ?_)
    rw [h₁.client]
    dsimp only
    cases hkind : spec.kind with
    | multi =>
      dsimp only
      split
      · exact hend (reply_alike h₁ _)
      · refine rel_bind (modifyTxn_alike h₁ _) ?_
        rintro - s₂ - t₂ h₂
        exact hend (reply_alike h₂ _)
    | exec =>
      dsimp only
      split
      · exact hend (reply_alike h₁ _)
      · rename_i hactive
        refine hend (execTransaction_alike hclock h₁ ⟨h₁.values.left, hclient ▸ hinv.client⟩ ?_)
        rw [hclient] at hactive ⊢
        exact hqueue spec hacc hkind (by simpa using hactive)
    | discard =>
      dsimp only
      split
      · exact hend (reply_alike h₁ _)
      · refine rel_bind (modifyTxn_alike h₁ _) ?_
        rintro - s₂ - t₂ h₂
        exact hend (reply_alike h₂ _)
    | normal =>
      dsimp only
      split
      · split
        · refine rel_bind (modifyTxn_alike h₁ _) ?_
          rintro - s₂ - t₂ h₂
          exact hend (reply_alike h₂ _)
        · refine rel_bind (modifyTxn_alike h₁ _) ?_
          rintro - s₂ - t₂ h₂
          exact hend (reply_alike h₂ _)
      · rename_i hidle
        rw [hclient, Bool.not_eq_true] at hidle
        refine rel_bind (run_alike hclock h₁ hacc hkind (hown ⟨spec, hacc, hkind⟩ hidle) true false) ?_
        rintro st s₂ _ t₂ ⟨rfl, h₂⟩
        exact rel_pure ⟨rfl, h₂⟩

end Alike

/-! ## Servers -/

/-- The move without the calls of handlers in it: what the clients and the network see. -/
def Move.visible : Move → Move
  | .request i req r reply _ => .request i req r reply []
  | .retry i req r reply _ => .retry i req r reply []
  | mv => mv

/-- No call of the move is one of `KEYS`. -/
def Move.NoKeys (mv : Move) : Prop := ∀ x ∈ mv.runs, ¬ x.req.IsKeys

/-- The servers have the same clients, and their stores hold the same values that have not expired. -/
structure LoopsAlike (e : Env D) (l m : EventLoop D) : Prop where
  left : l.Inv
  right : m.Inv
  clients : m.clients = l.clients
  accepted : m.accepted = l.accepted
  tick : m.tick = l.tick
  monoTick : m.monoTick = l.monoTick
  values : SameValues (e.clock l.tick) l.store m.store

section Loops
variable {e : Env D} {l m l' : EventLoop D} {i : ℕ} {c : Client} {req : RespValue} {mv : Move}

theorem LoopsAlike.sess (h : LoopsAlike e l m) (c : Client) : Alike e (l.sess c) (m.sess c) :=
  ⟨rfl, h.tick, h.monoTick, h.values⟩

theorem LoopsAlike.put (h : LoopsAlike e l m) {s t : Sess D} (hst : Alike e s t) {o : Option Client}
    (hl : (l.put i s o).Inv) (hm : (m.put i t o).Inv) : LoopsAlike e (l.put i s o) (m.put i t o) where
  left := hl
  right := hm
  clients := by
    show Function.update m.clients i o = Function.update l.clients i o
    rw [h.clients]
  accepted := h.accepted
  tick := hst.tick
  monoTick := hst.monoTick
  values := hst.values

/-- A move of one server that does not touch the store is one of the other. -/
theorem LoopsAlike.quiet (h : LoopsAlike e l m) {o : Option Client} (hl : Moves e l mv (l.put i (l.sess c) o))
    (hm : Moves e m mv (m.put i (m.sess c) o)) :
    ∃ mv' m', Moves e m mv' m' ∧ mv'.visible = mv.visible ∧ LoopsAlike e (l.put i (l.sess c) o) m' :=
  ⟨mv, _, hm, rfl, h.put (h.sess c) (hl.inv h.left) (hm.inv h.right)⟩

theorem Executes.noKeys {s s' : Sess D} {r : CommandResult} {xs : List Execution}
    (h : Executes e req s r s' xs)
    (hxs : ∀ x ∈ xs, ¬ x.req.IsKeys) : (Runnable D req → s.client.txn.active = false → ¬ req.IsKeys) ∧
      ∀ spec : CommandSpec D, Accepted req spec → spec.kind = .exec → s.client.txn.active = true →
        s.client.txn.error = false → ∀ q ∈ s.client.txn.cmds, ¬ q.IsKeys := by
  cases h with
  | @own x _ hactive hreq hx =>
    refine ⟨fun _ _ => hreq ▸ hxs x List.mem_cons_self, fun _ _ _ hopen => ?_⟩
    rw [hactive] at hopen
    cases hopen
  | queue _ _ hactive _ hcmds =>
    refine ⟨fun _ hidle => ?_, fun _ _ _ _ _ q hq => ?_⟩
    · rw [hactive] at hidle
      cases hidle
    · rw [← hcmds] at hq
      obtain ⟨x, hx, rfl⟩ := List.mem_map.mp hq
      exact hxs x hx
  | nothing hown hqueue =>
    refine ⟨fun hreq hidle => ?_, fun spec hacc hkind hactive herror => ?_⟩
    · rw [hown hreq] at hidle
      cases hidle
    · rw [hqueue spec hacc hkind hactive] at herror
      cases herror

/-- What one server does, the other can do as well, with the same replies. -/
theorem LoopsAlike.step (hclock : e.Forward) (h : LoopsAlike e l m) (hmv : Moves e l mv l')
    (hkeys : mv.NoKeys) :
    ∃ mv' m', Moves e m mv' m' ∧ mv'.visible = mv.visible ∧ LoopsAlike e l' m' := by
  have hclient : ∀ {i c}, l.clients i = some c → m.clients i = some c := fun hi => h.clients ▸ hi
  have hcopy := hmv
  cases hmv with
  | join =>
    have hm : Moves e m (.join m.accepted) m.clientAdd := .join
    refine ⟨_, _, hm, by rw [h.accepted], ?_⟩
    refine ⟨hcopy.inv h.left, hm.inv h.right, ?_, congrArg (· + 1) h.accepted, h.tick, h.monoTick, h.values⟩
    show Function.update m.clients m.accepted _ = Function.update l.clients l.accepted _
    rw [h.clients, h.accepted]
  | receive hi bytes => exact h.quiet hcopy (.receive (hclient hi) bytes)
  | blank hi hfree hopen hparse hcount => exact h.quiet hcopy (.blank (hclient hi) hfree hopen hparse hcount)
  | @request i c req used buf r s runs hi hfree hopen hparse hcount hbuf hrun hruns =>
    have hparsed := respParseCommand_parsed hparse
    obtain ⟨hown, hqueue⟩ := hruns.noKeys hkeys
    obtain ⟨r', t, hrun', rfl, hst⟩ := rel_ok
      (commandProcess_alike hclock (h.sess _) (h.left.sess hi buf) hparsed hcount hown hqueue) hrun
    obtain ⟨runs', hruns'⟩ := exists_executes (h.right.sess (hclient hi) buf) hparsed hcount r t hrun'
    have hm := Moves.request (hclient hi) hfree hopen hparse hcount hbuf hrun' hruns'
    rw [hst.client] at hm
    exact ⟨_, _, hm, rfl, h.put hst (hcopy.inv h.left) (hm.inv h.right)⟩
  | @retry i c x timedOut s hi hparked hopen hrun hx =>
    have hreq := (h.left.server.clients i c hi).blocked x.req hparked
    obtain ⟨st, s₁, hfound, -⟩ := wp_iff.mp
      (runFound_wp (e := e) (s := l.sess c) hreq h.left.server.store true timedOut)
    obtain ⟨hst, rfl⟩ := hx.ended rfl hfound
    obtain ⟨_, t, hfound', rfl, halike⟩ :=
      rel_ok (runFound_alike hclock (h.sess c) hreq (hkeys x List.mem_cons_self) true timedOut) hfound
    have hans := wp_post (runFound_wp (e := e) (s := m.sess c) hreq h.right.server.store true timedOut)
      hfound'
    obtain ⟨x', hreq', hresult, hx'⟩ := exists_runs hreq hfound' hans
    rw [← hst] at hresult
    have hretry : commandRetryBlocked x'.req timedOut e (m.sess c) = .ok (x'.result, t) := by
      rw [hreq', hresult, hst]
      exact bind_of_ok hfound'
    have hm := Moves.retry (hclient hi) (hreq' ▸ hparked) hopen hretry hx'
    rw [halike.client, hreq', hresult] at hm
    exact ⟨_, _, hm, rfl, h.put halike (hcopy.inv h.left) (hm.inv h.right)⟩
  | refuse hi hfree hopen hparse => exact h.quiet hcopy (.refuse (hclient hi) hfree hopen hparse)
  | overflow hi hlong => exact h.quiet hcopy (.overflow (hclient hi) hlong)
  | finish hi => exact h.quiet hcopy (.finish (hclient hi))
  | close hi => exact h.quiet hcopy (.close (hclient hi))
  | send hi n => exact h.quiet hcopy (.send (hclient hi) n)
  | leave hi hclosed => exact h.quiet hcopy (.leave (hclient hi) hclosed)
  | clock n =>
    have hm : Moves e m .clock { m with monoTick := m.monoTick + n } := .clock n
    exact ⟨_, _, hm, rfl, hcopy.inv h.left, hm.inv h.right, h.clients, h.accepted, h.tick,
      congrArg (· + n) h.monoTick, h.values⟩

end Loops
end PulseDB
