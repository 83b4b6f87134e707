import PulseDB.Server.Slots

/-!
# The life of a server

* `serverTurn_rel`, `serverRun_rel` : a turn over the slots goes together with one over the numbers of their
  clients;
* `Server.Tidy`, `Server.Released` : every object has one owner; no object is left;
* `serve_releases` : from `server_init` to `server_shutdown` no object is used after it has gone, and none is
  left;
* `slots_refine_numbers` : the server with its arrays refines the loop with numbered clients.
-/

namespace PulseDB.Mem
open Lib Lib.Prog

/-! ## The turns -/

section Turns
variable {D : Type} [LinearOrder D] {e : Env D} {l : Server D} {v : EventLoop D} {rows : List Row}

theorem Paired.read (i : ℕ) (results : Option (List ReadResult)) :
    Paired e i (results.elim (pure ()) readFromClient) (results.elim (pure ()) PulseDB.readFromClient) := by
  cases results with
  | none =>
    have hmoves : Follows e (fun _ => True) 0 i (pure () : PulseDB.Cmd D Unit) _ := .pure ()
    exact ⟨fun h _ => .pure h (), hmoves.byMoves⟩
  | some results =>
    have hmoves : Follows e (fun _ => True) 0 i (PulseDB.readFromClient results) _ :=
      readFromClient_moves fun _ => trivial
    exact ⟨fun h hinv => readFromClient_mirrors h hinv results, hmoves.byMoves⟩

theorem Paired.service (i : ℕ) (now : Int) : Paired e i (serviceClient now) (PulseDB.serviceClient now) := by
  have hmoves : Follows e (fun _ => True) now i (PulseDB.serviceClient now) _ := serviceClient_moves
  exact ⟨fun h hinv => serviceClient_mirrors h hinv now, hmoves.byMoves⟩

theorem Paired.flush (i : ℕ) (results : List WriteResult) : Paired e i (flush results) (do
    let s ← Prog.get
    if !s.client.closed && decide (s.client.out.length ≠ 0) then PulseDB.writeToClient results
    else return ()) := by
  constructor
  · intro others s t h _
    rw [Mirrors, Mem.flush]
    refine rel_left rfl (rel_right rfl ?_)
    obtain ⟨-, hout, -, -, hclosed⟩ := h.fields
    rw [hclosed, hout]
    split
    · exact writeToClient_mirrors h results
    · exact Mirrors.pure h ()
  · have hmoves : Follows e (fun _ => True) 0 i _ (writeTraffic results) := flush_moves fun _ _ => trivial
    exact hmoves.byMoves

omit [LinearOrder D] in
theorem Filled.len_eq (h : Filled rows l) : l.clients.len = rows.length := by
  rw [← h.sound.length_contents, h.contents, List.length_map]

theorem forAllSlots_rel {f : ℕ → ServerProg D Unit} {m : ℕ → Cmd D Unit} {n : ℕ → PulseDB.Cmd D Unit}
    (h : Mirror rows l v) (hfilled : Filled rows l)
    (hf : ∀ (k : ℕ) (p : ℕ) (l' : Server D), k < rows.length → l'.fdcap = l.fdcap →
      Mem.slot k e l' = .ok (p, l') →
      f k e l' = onConn (m k) p e l')
    (hpaired : ∀ (k : ℕ) (r : Row), rows[k]? = some r → Paired e r.id (m k) (n r.id)) :
    rel (forSlots f (List.range l.clients.len)) (eachClient n (List.range v.accepted)) e l v
      (fun x y => x = .prog y)
      fun _ l' _ v' => l'.clients = l.clients ∧ l'.fdcap = l.fdcap ∧ v'.accepted = v.accepted ∧
        ∃ rows', rows'.map Row.ptr = rows.map Row.ptr ∧ rows'.map Row.id = rows.map Row.id ∧
          Mirror rows' l' v' := by
  have hloop := forSlots_rel (e := e) (n := n) hf (a := []) h hfilled rfl rfl fun k r hr => by
    rw [List.length_nil, Nat.zero_add]
    exact hpaired k r hr
  rw [List.length_nil, ← List.range_eq_range', ← hfilled.len_eq] at hloop
  rw [rel, h.eachClient]
  exact hloop

theorem serviceBlocked_rel (h : Mirror rows l v) (hfilled : Filled rows l) :
    rel serviceBlocked PulseDB.serviceBlocked e l v (fun x y => x = .prog y) fun _ l' _ v' =>
      ∃ rows', rows'.map Row.id = rows.map Row.id ∧ Mirror rows' l' v' ∧ Filled rows' l' := by
  rw [serviceBlocked, PulseDB.serviceBlocked]
  refine rel_left rfl (rel_left rfl (rel_right rfl (rel_right rfl ?_)))
  have hclock : Moves e v .clock { v with monoTick := v.monoTick + 1 } := .clock 1
  have h₁ : Mirror rows { l with monoTick := l.monoTick + 1 } { v with monoTick := v.monoTick + 1 } :=
    ⟨h.store, h.tick, congrArg (· + 1) h.monoTick, hclock.inv h.inv, h.conns, h.reqs, h.files, h.conn,
      h.shown, h.others, h.sorted⟩
  have hfilled₁ : Filled rows { l with monoTick := l.monoTick + 1 } := ⟨hfilled.sound, hfilled.contents⟩
  rw [h.monoTick] at h₁ ⊢
  refine rel_mono (forAllSlots_rel h₁ hfilled₁ (m := fun _ => serviceClient (e.mono l.monoTick)) ?_ ?_) ?_
  · intro k p l' _ _ hslot
    rw [bind_of_ok hslot]
  · exact fun k r _ => .service r.id _
  · rintro - l₂ - v₂ ⟨hclients, -, -, rows', hptr, hid, h₂⟩
    exact ⟨rows', hid, h₂, hfilled₁.congr hclients hptr⟩

/-- What the system calls answer, for numbered clients: `ids` are those that are polled, and the turn accepts
some more. -/
def Ready.poll (ready : Ready) (ids : List ℕ) (accepted : ℕ) : Poll where
  reads i := ready.reads (ids.idxOf i)
  accepts := ready.accepts.count true
  writes i := ready.writes ((ids ++ List.range' accepted (ready.accepts.count true)).idxOf i)

theorem Mirror.idxOf (h : Mirror rows l v) {k : ℕ} {r : Row} (hr : rows[k]? = some r) :
    (rows.map Row.id).idxOf r.id = k := by
  obtain ⟨hk, rfl⟩ := List.getElem?_eq_some_iff.mp hr
  have hnodup : (rows.map Row.id).Nodup := h.sorted.imp fun hlt => hlt.ne
  have hidx := hnodup.idxOf_getElem k (by simpa using hk)
  rwa [List.getElem_map] at hidx

theorem pollFds_eq {fdcap : ℕ} (h : Mirror rows l v) (hfilled : Filled rows l) (hcap : rows.length < fdcap) :
    pollSet (List.range l.clients.len) e { l with fdcap := fdcap } = .ok (v.anyBlocked,
      { l with fdcap := fdcap }) := by
  have hset := pollSet_eq (e := e) (a := []) (h.arrays l.clients fdcap) ⟨hfilled.sound, hfilled.contents⟩ hcap
  rw [List.length_nil, ← List.range_eq_range', ← hfilled.len_eq, ← h.anyBlocked] at hset
  exact hset

theorem serverTurn_poll (h : Mirror rows l v) (hfilled : Filled rows l) (ready : Option Ready) : ∃ fdcap,
    rows.length < fdcap ∧
      serverTurn ready e l = ready.elim (pure ()) (serverReady · v.anyBlocked) e
        { l with fdcap := fdcap } := by
  have hgrow : ∃ fdcap, rows.length < fdcap ∧
      (if l.clients.len + 1 > l.fdcap then { l with fdcap := (l.clients.len + 1) * 2 } else l) =
        { l with fdcap := fdcap } := by
    rw [hfilled.len_eq]
    split
    · exact ⟨_, by omega, rfl⟩
    · exact ⟨l.fdcap, by omega, rfl⟩
  obtain ⟨fdcap, hcap, heq⟩ := hgrow
  refine ⟨fdcap, hcap, ?_⟩
  have hmodify : Prog.modify (fun l : Server D =>
      if l.clients.len + 1 > l.fdcap then { l with fdcap := (l.clients.len + 1) * 2 } else l) e l =
        (.ok ((), { l with fdcap := fdcap }) : Except Fault _) := by rw [Prog.modify, heq]
  have hslot : fdSlot 0 e { l with fdcap := fdcap } = .ok ((), { l with fdcap := fdcap }) :=
    if_pos (Nat.zero_lt_of_lt hcap)
  rw [serverTurn, bind_of_ok hmodify, bind_of_ok hslot, bind_of_ok rfl,
    bind_of_ok (pollFds_eq h hfilled hcap)]

theorem serverTurn_interrupted (h : Mirror rows l v) (hfilled : Filled rows l) :
    ∃ l', serverTurn none e l = .ok ((), l') ∧ Mirror rows l' v ∧ Filled rows l' := by
  obtain ⟨fdcap, -, hturn⟩ := serverTurn_poll (e := e) h hfilled none
  exact ⟨_, hturn, h.arrays l.clients fdcap, hfilled.sound, hfilled.contents⟩

/-- The last part of a turn, over the slots of the clients there are now. -/
theorem flushAll_rel {ids : List ℕ} (h : Mirror rows l v) (hfilled : Filled rows l)
    (hids : rows.map Row.id = ids) (writes : ℕ → List WriteResult) :
    rel (do
        let l ← Prog.get
        forSlots (fun i => do onConn (flush (writes i)) (← slot i)) (List.range l.clients.len)
        removeClosedClients)
      (do
        let l ← Prog.get
        eachClient (fun i => do
          let s ← Prog.get
          if !s.client.closed && decide (s.client.out.length ≠ 0) then
            PulseDB.writeToClient (writes (ids.idxOf i))
          else return ()) (List.range l.accepted)
        PulseDB.removeClosedClients) e l v (fun x y => x = .prog y) fun _ l' _ v' =>
      ∃ rows', Mirror rows' l' v' ∧ Filled rows' l' := by
  refine rel_left rfl (rel_right rfl
    (rel_bind (forAllSlots_rel h hfilled (m := fun i => flush (writes i)) ?_ ?_) ?_))
  · intro k p l' _ _ hslot
    rw [bind_of_ok hslot]
  · intro k r hr
    rw [← hids, h.idxOf hr]
    exact .flush r.id (writes k)
  · rintro - l₁ - v₁ ⟨hclients, -, -, rows', hptr, -, h₁⟩
    exact removeClosedClients_rel h₁ (hfilled.congr hclients hptr)

/-- A turn over the slots goes together with the turn over the numbers of their clients. -/
theorem serverTurn_rel (h : Mirror rows l v) (hfilled : Filled rows l) (ready : Ready) :
    rel (serverTurn (some ready)) (PulseDB.serverTurn (ready.poll (rows.map Row.id) v.accepted)) e l v
      (fun x y => x = .prog y) fun _ l' _ v' => ∃ rows', Mirror rows' l' v' ∧ Filled rows' l' := by
  obtain ⟨fdcap, hcap, hturn⟩ := serverTurn_poll (e := e) h hfilled (some ready)
  rw [rel, hturn, PulseDB.serverTurn]
  refine rel_left rfl (rel_right rfl ?_)
  have hreads := forAllSlots_rel (e := e) (h.arrays l.clients fdcap) ⟨hfilled.sound, hfilled.contents⟩
    (f := fun i => do
      let p ← slot i
      fdSlot (i + 1)
      onConn ((ready.reads i).elim (pure ()) readFromClient) p)
    (m := fun i => (ready.reads i).elim (pure ()) readFromClient)
    (n := fun i => ((ready.poll (rows.map Row.id) v.accepted).reads i).elim (pure ()) PulseDB.readFromClient)
    (fun k p l' hk hcap' hslot => ?_) fun k r hr => ?_
  · refine rel_bind hreads ?_
    rintro - l₁ - v₁ ⟨hclients₁, -, hacc₁, rows₁, hptr₁, hid₁, h₁⟩
    refine rel_bind (acceptClients_rel h₁ (hfilled.congr hclients₁ hptr₁)) ?_
    rintro - l₂ - v₂ ⟨rows₂, hid₂, h₂, hfilled₂⟩
    rw [hid₁, hacc₁] at hid₂
    have hservice : rel (if v.anyBlocked then serviceBlocked else pure ())
        (if v.anyBlocked then PulseDB.serviceBlocked else pure ()) e l₂ v₂ (fun x y => x = .prog y)
        fun _ l' _ v' => ∃ rows', rows'.map Row.id = rows₂.map Row.id ∧ Mirror rows' l' v' ∧
          Filled rows' l' := by
      cases v.anyBlocked with
      | false => exact rel_pure ⟨rows₂, rfl, h₂, hfilled₂⟩
      | true => exact serviceBlocked_rel h₂ hfilled₂
    refine rel_bind hservice ?_
    rintro - l₃ - v₃ ⟨rows₃, hid₃, h₃, hfilled₃⟩
    exact flushAll_rel h₃ hfilled₃ (hid₃.trans hid₂) ready.writes
  · have hfd : fdSlot (k + 1) e l' = .ok ((), l') := if_pos (by rw [hcap']; exact lt_of_le_of_lt hk hcap)
    rw [bind_of_ok hslot, bind_of_ok hfd]
  · show Paired e r.id _ ((ready.reads ((rows.map Row.id).idxOf r.id)).elim (pure ()) PulseDB.readFromClient)
    rw [h.idxOf hr]
    exact .read r.id (ready.reads k)

/-- Some turns over the slots go together with some turns over the numbers of the clients. -/
theorem serverRun_rel : ∀ (turns : List (Option Ready)) {rows : List Row} {l : Server D} {v : EventLoop D},
    Mirror rows l v → Filled rows l → ∃ polls : List Poll,
    rel (serverRun turns) (PulseDB.serverRun polls) e l v (fun x y => x = .prog y) fun _ l' _ v' =>
      ∃ rows', Mirror rows' l' v' ∧ Filled rows' l' := by
  intro turns
  induction turns with
  | nil => exact fun {rows l v} h hfilled => ⟨[], rel_pure ⟨rows, h, hfilled⟩⟩
  | cons turn turns ih =>
    intro rows l v h hfilled
    cases turn with
    | none =>
      obtain ⟨l₁, hturn, h₁, hfilled₁⟩ := serverTurn_interrupted (e := e) h hfilled
      obtain ⟨polls, hrest⟩ := ih h₁ hfilled₁
      exact ⟨polls, rel_left hturn hrest⟩
    | some ready =>
      have hturn := serverTurn_rel (e := e) h hfilled ready
      rcases rel_iff.mp hturn with ⟨_, l₁, _, v₁, hm, hn, rows₁, h₁, hfilled₁⟩ | ⟨x, y, hm, hn, hxy⟩
      · obtain ⟨polls, hrest⟩ := ih h₁ hfilled₁
        exact ⟨_ :: polls, rel_left hm (rel_right hn hrest)⟩
      · have hm' : serverRun (some ready :: turns) e l = .error x := bind_of_error hm
        have hn' : PulseDB.serverRun [ready.poll (rows.map Row.id) v.accepted] e v = .error y :=
          bind_of_error hn
        refine ⟨[ready.poll (rows.map Row.id) v.accepted], ?_⟩
        rw [rel, hm', hn']
        exact hxy

end Turns

/-! ## The life of a server -/

section Life
variable {D : Type}

/-- No client, no request and no descriptor is left. -/
structure Server.Released (l : Server D) : Prop where
  conns : ∀ p, l.conns.cells p = none
  reqs : ∀ p, l.reqs.cells p = none
  files : ∀ fd, l.files.cells fd = none

/-- The client that slot `k` shows. -/
def Server.client (l : Server D) (k : ℕ) : Option PulseDB.Client :=
  l.clients.contents[k]?.join.bind fun p => (l.conns.cells p).bind fun c => c.client.view l.reqs

/-- From `server_init` to `server_shutdown`. -/
def serve [LinearOrder D] (address socket bound : Bool) (turns : List (Option Ready)) :
    ServerProg D Unit := do
  if ← serverInit address socket bound then do
    serverRun turns
    serverShutdown
  else return ()

variable [LinearOrder D] {e : Env D} {l : Server D} {v : EventLoop D} {rows : List Row}

theorem mirror_listening {store : Store D} (hv : store.Valid) :
    ∃ l : Server D, serverInit true true true e { store := store } = .ok (true, l) ∧
      Mirror [] l (.start store) ∧
      Filled [] l := by
  have hnone : ({} : Heap Unit).Owned [] := Heap.owned_empty
  obtain ⟨hfiles, -⟩ := hnone.alloc ()
  refine ⟨_, rfl, ⟨rfl, rfl, rfl, EventLoop.inv_start hv, Heap.owned_empty, Heap.owned_empty, hfiles, ?_,
    ?_, ?_, ?_⟩, .empty, rfl⟩
  all_goals simp [EventLoop.start]

theorem freeSlots_eq : ∀ {b a : List Row} {l : Server D} {v : EventLoop D}, Mirror b l v → Filled (a ++ b) l →
    ∃ l' v', forSlots (fun i => do clientFree (← slot i)) (List.range' a.length b.length) e l = .ok ((), l') ∧
      Mirror [] l' v' ∧ l'.listenFd = l.listenFd := by
  intro b
  induction b with
  | nil => exact fun {a l v} h _ => ⟨l, v, rfl, h, rfl⟩
  | cons r b ih =>
    intro a l v h hfilled
    obtain ⟨c, hc, -⟩ := h.shown r List.mem_cons_self
    obtain ⟨l₁, hfree, hclients, hlisten, h₁⟩ := clientFree_eq (e := e) (a := []) h
    have hfilled₁ : Filled ((a ++ [r]) ++ b) l₁ := hfilled.congr hclients (by simp)
    obtain ⟨l₂, v₂, hrest, h₂, hlisten₂⟩ := ih (h₁ c hc) hfilled₁
    refine ⟨l₂, v₂, ?_, h₂, hlisten₂.trans hlisten⟩
    rw [List.length_append, List.length_singleton] at hrest
    have hfirst : (do clientFree (← slot a.length) : ServerProg D Unit) e l = .ok ((), l₁) := by
      rw [bind_of_ok hfilled.slot]
      exact hfree
    rw [List.length_cons, List.range'_succ, forSlots, bind_of_ok hfirst]
    exact hrest

theorem serverShutdown_eq (h : Mirror rows l v) (hfilled : Filled rows l) :
    ∃ l', serverShutdown e l = .ok ((), l') ∧ l'.Released := by
  obtain ⟨l₁, v₁, hfree, h₁, hlisten⟩ := freeSlots_eq (e := e) (a := []) h hfilled
  rw [List.length_nil, ← List.range_eq_range', ← hfilled.len_eq] at hfree
  have hempty : ∀ {α : Type} {heap : Heap α}, heap.Owned [] → ∀ p, heap.cells p = none := by
    intro α heap howned p
    by_contra hp
    exact absurd ((howned.live p).mpr hp) List.not_mem_nil
  have hfiles := h₁.files
  rw [hlisten] at hfiles
  rw [serverShutdown, bind_of_ok rfl, bind_of_ok hfree, bind_of_ok rfl]
  cases hfd : l.listenFd with
  | none =>
    rw [hfd] at hfiles
    exact ⟨_, rfl, hempty h₁.conns, hempty h₁.reqs, hempty hfiles⟩
  | some fd =>
    rw [hfd] at hfiles
    obtain ⟨files, hclose, hfiles', -⟩ := hfiles.free
    have hfile : closeFile fd e { l₁ with clients := { l₁.clients with data := [], len := 0 } } =
        .ok ((), { l₁ with clients := { l₁.clients with data := [], len := 0 }, files := files }) := by
      rw [closeFile, hclose]
    refine ⟨_, bind_of_ok hfile, hempty h₁.conns, hempty h₁.reqs, hempty hfiles'⟩

omit [LinearOrder D] in
/-- A server that does not come to listen has closed what it has opened. -/
theorem serverInit_refused {address socket bound : Bool} (hno : (address && socket && bound) = false)
    (store : Store D) :
    ∃ l, serverInit address socket bound e { store := store } = .ok (false, l) ∧ l.Released := by
  by_cases hsocket : (!address || !socket) = true
  · refine ⟨{ store := store }, ?_, fun _ => rfl, fun _ => rfl, fun _ => rfl⟩
    rw [serverInit, if_pos hsocket]
    rfl
  · obtain ⟨rfl, rfl⟩ : address = true ∧ socket = true := by simpa using hsocket
    cases hno
    refine ⟨_, rfl, fun _ => rfl, fun _ => rfl, fun fd => ?_⟩
    show Function.update (Function.update (fun _ => none) 0 (some ())) 0 none fd = none
    simp [Function.update_idem]

/-- From `server_init` to `server_shutdown`, whatever the clients send and the system calls answer: no slot
that is not there is used, no pointer to an object that has gone, no object is freed twice, and in the end all
clients, requests and descriptors have been freed. What can still go wrong is a fault of a handler. -/
theorem serve_releases {store : Store D} (hv : store.Valid) (e : Env D) (address socket bound : Bool)
    (turns : List (Option Ready)) :
    (∃ l, serve address socket bound turns e { store := store } = .ok ((), l) ∧ l.Released) ∨
      ∃ x, serve address socket bound turns e { store := store } = .error (.prog x) := by
  by_cases hlisten : (address && socket && bound) = true
  · obtain ⟨⟨rfl, rfl⟩, rfl⟩ : (address = true ∧ socket = true) ∧ bound = true := by simpa using hlisten
    obtain ⟨l₀, hinit, h₀, hfilled₀⟩ := mirror_listening (e := e) hv
    obtain ⟨polls, hrun⟩ := serverRun_rel (e := e) turns h₀ hfilled₀
    rw [serve, bind_of_ok hinit, if_pos rfl]
    rcases rel_iff.mp hrun with ⟨_, l, _, v, hm, -, rows, h, hfilled⟩ | ⟨x, y, hm, -, hxy⟩
    · obtain ⟨l', hdown, hreleased⟩ := serverShutdown_eq (e := e) h hfilled
      exact .inl ⟨l', (bind_of_ok hm).trans hdown, hreleased⟩
    · exact .inr ⟨y, hxy ▸ bind_of_error hm⟩
  · obtain ⟨l, hinit, hreleased⟩ := serverInit_refused (e := e) (Bool.not_eq_true _ ▸ hlisten) store
    exact .inl ⟨l, bind_of_ok hinit, hreleased⟩

/-- Of two connections one is given up; the other queues a request, which is freed at the end. -/
theorem serve_releases_queued :
    let e := Env.integers (fun n => n) fun n => n
    let turns : List (Option Ready) := [some ⟨fun _ => none, [true, false], fun _ => []⟩, none,
      some ⟨fun _ => some [.bytes (ascii "MULTI\r\nPING\r\n")], [true], fun _ => [.sent 5]⟩]
    ∃ l, serve true true true turns e { store := storeCreate } = .ok ((), l) ∧ l.Released := by
  intro e turns
  have hended : (serve true true true turns e { store := storeCreate }).toOption.isSome = true := by
    decide +kernel
  refine (serve_releases storeCreate_valid e true true true turns).resolve_right ?_
  rintro ⟨x, hx⟩
  rw [hx] at hended
  cases hended

end Life
end PulseDB.Mem
