import PulseDB.Lib.Growable
import PulseDB.Server.Moves
import PulseDB.Server.Ownership

/-!
# The arrays of the server (`server.c`)

The server keeps its clients behind an array of pointers, which doubles when it is full and is compacted in
place when clients go; the array `fds` for `poll` has a slot more than there are clients. Clients, requests
and descriptors are objects. A slot beyond the end of an array, one that was never written, or a pointer to an
object that has gone makes the functions fail.

* `clientAdd`, `acceptClients`, `clientFree`, `serviceBlocked`, `removeClosedClients`, `serverTurn`,
  `serverRun`, `serverInit`, `serverShutdown` : the functions;
* `Mirror rows l v` : the loop `v` with numbered clients is what the server `l` shows; `Filled rows l` : the
  array holds its pointers;
* `onConn_rel`, `forSlots_rel` : what is done for one client and for those of some slots goes together in
  both;
* `acceptClients_rel`, `clientFree_eq`, `removeClosedClients_rel` : so do clients that come and go.
-/

namespace PulseDB.Mem
open Lib Lib.Prog

/-! ## The functions -/

/-- A client with its connection. -/
structure Conn where
  fd : ℕ
  client : Client := {}

structure Server (D : Type) where
  store : Store D
  reqs : Heap RespValue := {}
  conns : Heap Conn := {}
  /-- the descriptors that are open -/
  files : Heap Unit := {}
  listenFd : Option ℕ := none
  /-- the array `clients` with `num_clients` and `cap_clients`; a slot that was never written holds nothing -/
  clients : Block (Option ℕ) := .empty
  fdcap : ℕ := 0
  tick : ℕ := 0
  monoTick : ℕ := 0

abbrev ServerProg (D α : Type) := Prog (Env D) (Server D) Fault α

section Functions
variable {D : Type}

/-- The session in which a program of a client runs. -/
def Server.sess (l : Server D) (c : Client) : Sess D := ⟨l.store, c, l.reqs, l.tick, l.monoTick⟩

/-- A descriptor that `socket` or `accept` returns. -/
def openFile : ServerProg D ℕ := Prog.step fun _ l => (l.files.next, { l with files := l.files.alloc () })

def closeFile (fd : ℕ) : ServerProg D Unit := fun _ l =>
  match l.files.free fd with
  | none => .error .dangling
  | some files => .ok ((), { l with files := files })

def conn (p : ℕ) : ServerProg D Conn := fun _ l =>
  match l.conns.cells p with
  | none => .error .dangling
  | some c => .ok (c, l)

def freeConn (p : ℕ) : ServerProg D Unit := fun _ l =>
  match l.conns.free p with
  | none => .error .dangling
  | some conns => .ok ((), { l with conns := conns })

/-- Run a program for the client behind a pointer. -/
def onConn (m : Cmd D Unit) (p : ℕ) : ServerProg D Unit := fun e l =>
  match l.conns.cells p with
  | none => .error .dangling
  | some c =>
    match m e (l.sess c.client) with
    | .error fault => .error fault
    | .ok (_, s) =>
      match l.conns.set p { c with client := s.client } with
      | none => .error .dangling
      | some conns =>
        .ok
          ((),
            { l with store := s.store, reqs := s.heap, conns := conns, tick := s.tick, monoTick := s.monoTick })

/-- The pointer `clients[i]`. -/
def slot (i : ℕ) : ServerProg D ℕ := fun _ l =>
  match l.clients.data[i]? with
  | none => .error .index
  | some none => .error .dangling
  | some (some p) => .ok (p, l)

def setSlot (i p : ℕ) : ServerProg D Unit := fun _ l =>
  match copyTo l.clients.data i [some p] with
  | none => .error .index
  | some data => .ok ((), { l with clients := { l.clients with data := data } })

/-- The slot `fds[k]` is there. -/
def fdSlot (k : ℕ) : ServerProg D Unit := fun _ l => if k < l.fdcap then .ok ((), l) else .error .index

def forSlots (body : ℕ → ServerProg D Unit) : List ℕ → ServerProg D Unit
  | [] => return ()
  | i :: rest => do
    body i
    forSlots body rest

/-- The array with room for one more client. -/
def growClients (b : Block (Option ℕ)) : Block (Option ℕ) :=
  if b.len = b.cap then
    let cap := if b.cap = 0 then 16 else b.cap * 2
    ⟨resize b.data cap fun _ => none, b.len, cap⟩
  else b

def clientAdd (fd : ℕ) : ServerProg D Unit := do
  Prog.modify fun l => { l with clients := growClients l.clients }
  let p ← Prog.step fun _ l => (l.conns.next, { l with conns := l.conns.alloc { fd := fd } })
  let l ← Prog.get
  setSlot l.clients.len p
  Prog.modify fun l => { l with clients := { l.clients with len := l.clients.len + 1 } }

/-- The loop of `accept_clients`, over the connections there are; `set_nonblocking` fails for some of them. -/
def acceptClients : List Bool → ServerProg D Unit
  | [] => return ()
  | nonblocking :: rest => do
    let fd ← openFile
    (if nonblocking then clientAdd fd else closeFile fd)
    acceptClients rest

def clientFree (p : ℕ) : ServerProg D Unit := do
  let c ← conn p
  closeFile c.fd
  onConn freeRequests p
  freeConn p

/-- The loop of `remove_closed_clients`; answers `kept`. -/
def removeLoop : List ℕ → ℕ → ServerProg D ℕ
  | [], kept => return kept
  | i :: rest, kept => do
    let p ← slot i
    let c ← conn p
    if c.client.closed then do
      clientFree p
      removeLoop rest kept
    else do
      setSlot kept p
      removeLoop rest (kept + 1)

def removeClosedClients : ServerProg D Unit := do
  let l ← Prog.get
  let kept ← removeLoop (List.range l.clients.len) 0
  Prog.modify fun l => { l with clients := { l.clients with len := kept } }

/-- The loop that fills `fds`; answers `any_blocked`. -/
def pollSet : List ℕ → ServerProg D Bool
  | [] => return false
  | i :: rest => do
    let c ← conn (← slot i)
    fdSlot (i + 1)
    let blocked ← pollSet rest
    return c.client.blockedReq.isSome || blocked

/-- What the system calls of a turn answer, slot by slot. -/
structure Ready where
  reads : ℕ → Option (List ReadResult)
  accepts : List Bool
  writes : ℕ → List WriteResult

variable [LinearOrder D]

def serviceBlocked : ServerProg D Unit := do
  let now ← Prog.step fun e l => (e.mono l.monoTick, { l with monoTick := l.monoTick + 1 })
  let l ← Prog.get
  forSlots (fun i => do onConn (serviceClient now) (← slot i)) (List.range l.clients.len)

/-- What the turn does for a client whose replies are to be sent. -/
def flush (results : List WriteResult) : Cmd D Unit := do
  let s ← Prog.get
  if !s.client.closed && decide (s.client.out.length ≠ 0) then writeToClient results else return ()

/-- What a turn does once `poll` has answered. -/
def serverReady (ready : Ready) (anyBlocked : Bool) : ServerProg D Unit := do
  let l ← Prog.get
  forSlots (fun i => do
    let p ← slot i
    fdSlot (i + 1)
    onConn ((ready.reads i).elim (pure ()) readFromClient) p) (List.range l.clients.len)
  acceptClients ready.accepts
  (if anyBlocked then serviceBlocked else pure ())
  let l ← Prog.get
  forSlots (fun i => do onConn (flush (ready.writes i)) (← slot i)) (List.range l.clients.len)
  removeClosedClients

/-- One turn of `server_run`; `none` if `poll` was interrupted. -/
def serverTurn (ready : Option Ready) : ServerProg D Unit := do
  Prog.modify fun l => if l.clients.len + 1 > l.fdcap then { l with fdcap := (l.clients.len + 1) * 2 } else l
  fdSlot 0
  let l ← Prog.get
  let anyBlocked ← pollSet (List.range l.clients.len)
  ready.elim (pure ()) (serverReady · anyBlocked)

/-- Some turns of `server_run`. -/
def serverRun : List (Option Ready) → ServerProg D Unit
  | [] => return ()
  | ready :: rest => do
    serverTurn ready
    serverRun rest

omit [LinearOrder D] in
/-- Answers whether the server listens; the system calls may refuse the address, a socket, or to bind it. -/
def serverInit (address socket bound : Bool) : ServerProg D Bool :=
  if !address || !socket then return false
  else do
    let fd ← openFile
    if !bound then do
      closeFile fd
      return false
    else do
      Prog.modify fun l => { l with listenFd := some fd }
      return true

omit [LinearOrder D] in
def serverShutdown : ServerProg D Unit := do
  let l ← Prog.get
  forSlots (fun i => do clientFree (← slot i)) (List.range l.clients.len)
  Prog.modify fun l => { l with clients := { l.clients with data := [], len := 0 } }
  match l.listenFd with
  | none => return ()
  | some fd => do
    closeFile fd
    Prog.modify fun l => { l with listenFd := none }

end Functions

/-! ## What a server shows -/

/-- A client of the array, with its number in the loop of numbered clients. -/
structure Row where
  ptr : ℕ
  conn : Conn
  id : ℕ

/-- The row after a program of its client. -/
def Row.update (r : Row) (c : Client) : Row := { r with conn := { r.conn with client := c } }

@[simp] theorem Row.update_ptr (r : Row) (c : Client) : (r.update c).ptr = r.ptr := rfl

@[simp] theorem Row.update_id (r : Row) (c : Client) : (r.update c).id = r.id := rfl

@[simp] theorem Row.update_fd (r : Row) (c : Client) : (r.update c).conn.fd = r.conn.fd := rfl

/-- The clients of the loop `v` are those of the rows, in the order in which they were accepted, and the rows
own all clients, requests and descriptors of the server. -/
structure Mirror {D : Type} [LinearOrder D] (rows : List Row) (l : Server D) (v : EventLoop D) : Prop where
  store : v.store = l.store
  tick : v.tick = l.tick
  monoTick : v.monoTick = l.monoTick
  inv : v.Inv
  conns : l.conns.Owned (rows.map Row.ptr)
  reqs : l.reqs.Owned (rows.flatMap fun r => r.conn.client.pointers)
  files : l.files.Owned (l.listenFd.toList ++ rows.map fun r => r.conn.fd)
  conn : ∀ r ∈ rows, l.conns.cells r.ptr = some r.conn
  shown : ∀ r ∈ rows, ∃ c, v.clients r.id = some c ∧ r.conn.client.view l.reqs = some c
  others : ∀ i ∉ rows.map Row.id, v.clients i = none
  sorted : (rows.map Row.id).Pairwise (· < ·)

/-- The array holds the pointers of the rows. -/
structure Filled {D : Type} (rows : List Row) (l : Server D) : Prop where
  sound : l.clients.Sound
  contents : l.clients.contents = rows.map fun r => some r.ptr

section Mirror
variable {D : Type} [LinearOrder D] {e : Env D} {l l' : Server D} {v : EventLoop D}
  {a b rows : List Row} {r : Row}

/-- Programs of a client that go together wherever the client is shown. -/
structure Paired (e : Env D) (i : ℕ) (m : Cmd D Unit) (n : PulseDB.Cmd D Unit) : Prop where
  mirrors : ∀ {others s t}, Shows others s t → t.Inv → Mirrors others m n e s t
  follows : ByMoves e i n

/-- The rows before and behind one of them have other pointers and other numbers. -/
theorem Mirror.focus (h : Mirror (a ++ r :: b) l v) :
    (∀ q ∈ a ++ b, q.ptr ≠ r.ptr) ∧ ∀ q ∈ a ++ b, q.id ≠ r.id := by
  have hptr := ((List.perm_middle (a := r)).map Row.ptr).nodup_iff.mp h.conns.nodup
  have hid := ((List.perm_middle (a := r)).map Row.id).nodup_iff.mp (h.sorted.imp fun hlt => hlt.ne)
  rw [List.map_cons, List.nodup_cons, List.mem_map] at hptr hid
  exact ⟨fun q hq heq => hptr.1 ⟨q, hq, heq⟩, fun q hq heq => hid.1 ⟨q, hq, heq⟩⟩

theorem Mirror.arrays (h : Mirror rows l v) (clients : Block (Option ℕ)) (fdcap : ℕ) :
    Mirror rows { l with clients := clients, fdcap := fdcap } v :=
  ⟨h.store, h.tick, h.monoTick, h.inv, h.conns, h.reqs, h.files, h.conn, h.shown, h.others, h.sorted⟩

theorem Mirror.shows (h : Mirror (a ++ r :: b) l v) {c : PulseDB.Client}
    (hview : r.conn.client.view l.reqs = some c) :
    Shows ((a ++ b).flatMap fun q => q.conn.client.pointers) (l.sess r.conn.client) (v.sess c) := by
  refine ⟨h.store, h.tick, h.monoTick, hview, h.reqs.perm ?_⟩
  exact (List.perm_middle (a := r)).flatMap_right _

theorem onConn_rel {m : Cmd D Unit} {n : PulseDB.Cmd D Unit} (h : Mirror (a ++ r :: b) l v)
    (hmn : Paired e r.id m n) :
    rel (onConn m r.ptr) (forClient n r.id) e l v (fun x y => x = .prog y) fun _ l' _ v' =>
      l'.clients = l.clients ∧ l'.fdcap = l.fdcap ∧ v'.accepted = v.accepted ∧
        ∃ c, Mirror (a ++ r.update c :: b) l' v' := by
  have hr : r ∈ a ++ r :: b := List.mem_append_right _ List.mem_cons_self
  have hrest : ∀ q ∈ a ++ b, q ∈ a ++ r :: b := fun q hq => List.perm_middle.mem_iff.mpr
    (List.mem_cons_of_mem _ hq)
  obtain ⟨c, hc, hview⟩ := h.shown r hr
  obtain ⟨hptr, hid⟩ := h.focus
  have hrun := hmn.mirrors (h.shows hview) (h.inv.server.sess hc)
  unfold rel onConn forClient
  rw [h.conn r hr, hc]
  rcases rel_iff.mp hrun with ⟨_, s', _, t', hm, hn, -, hshows, hkept⟩ | ⟨x, y, hm, hn, hxy⟩
  · obtain ⟨conns, hset, howned, hself, hsame⟩ :=
      h.conns.set (List.mem_map_of_mem hr) { r.conn with client := s'.client }
    obtain ⟨evs, hmoves⟩ := hmn.follows v c h.inv hc _ t' hn
    simp only [hm, hn, hset]
    refine ⟨trivial, trivial, rfl, s'.client, ?_⟩
    have hmem : ∀ q ∈ a ++ r.update s'.client :: b, q = r.update s'.client ∨ q ∈ a ++ b := fun q hq =>
      List.mem_cons.mp (List.perm_middle.mem_iff.mp hq)
    constructor
    · exact hshows.store
    · exact hshows.tick
    · exact hshows.monoTick
    · exact runMoves_inv hmoves h.inv
    · simpa using howned
    · have hmiddle : (a ++ r.update s'.client :: b).Perm (r.update s'.client :: (a ++ b)) := List.perm_middle
      have hperm := hmiddle.flatMap_right fun q : Row => q.conn.client.pointers
      exact hshows.owned.perm hperm.symm
    · simpa using h.files
    · intro q hq
      rcases hmem q hq with rfl | hq
      · exact hself
      · exact (hsame q.ptr (hptr q hq)).trans (h.conn q (hrest q hq))
    · intro q hq
      rcases hmem q hq with rfl | hq
      · exact ⟨t'.client, EventLoop.put_self .., hshows.client⟩
      · obtain ⟨d, hd, hv⟩ := h.shown q (hrest q hq)
        refine ⟨d, (EventLoop.put_other v (hid q hq) ..).trans hd,
          Eq.trans (Client.view_congr fun p hp => ?_) hv⟩
        exact hkept p (List.mem_flatMap.mpr ⟨q, hq, hp⟩)
    · intro i hi
      have hids : i ∉ (a ++ r :: b).map Row.id := by simpa using hi
      have hne : i ≠ r.id := fun heq => hids (heq ▸ List.mem_map_of_mem hr)
      exact (EventLoop.put_other v hne ..).trans (h.others i hids)
    · simpa using h.sorted
  · simp only [hm, hn, hxy]

omit [LinearOrder D] in
theorem Filled.slot (h : Filled (a ++ r :: b) l) : slot a.length e l = .ok (r.ptr, l) := by
  have hcell : l.clients.contents[a.length]? = some (some r.ptr) := by simp [h.contents]
  have hdata : l.clients.data[a.length]? = some (some r.ptr) := by
    rw [Block.contents, List.getElem?_take] at hcell
    split at hcell
    · exact hcell
    · cases hcell
  rw [Mem.slot, hdata]

omit [LinearOrder D] in
theorem Filled.congr (h : Filled a l) (hclients : l'.clients = l.clients)
    (hptr : b.map Row.ptr = a.map Row.ptr) : Filled b l' := by
  have hmap : ∀ rows : List Row, rows.map (fun r => some r.ptr) = (rows.map Row.ptr).map some := by simp
  refine ⟨hclients ▸ h.sound, ?_⟩
  rw [hclients, h.contents, hmap, hmap, hptr]

/-- A loop over the slots and one over the numbers of their clients, the rows before `b` being done. -/
theorem forSlots_rel {body : ℕ → ServerProg D Unit} {m : ℕ → Cmd D Unit} {n : ℕ → PulseDB.Cmd D Unit}
    {cap len : ℕ}
    (hbody : ∀ (k : ℕ) (p : ℕ) (l : Server D), k < len → l.fdcap = cap → Mem.slot k e l = .ok (p, l) →
      body k e l = onConn (m k) p e l) :
    ∀ {a b : List Row} {l : Server D} {v : EventLoop D}, Mirror (a ++ b) l v → Filled (a ++ b) l →
      l.fdcap = cap →
    (a ++ b).length = len →
    (∀ (k : ℕ) (r : Row), b[k]? = some r → Paired e r.id (m (a.length + k)) (n r.id)) →
    rel (forSlots body (List.range' a.length b.length)) (eachClient n (b.map Row.id)) e l v
      (fun x y => x = .prog y)
      fun _ l' _ v' => l'.clients = l.clients ∧ l'.fdcap = cap ∧ v'.accepted = v.accepted ∧
        ∃ rows, rows.map Row.ptr = (a ++ b).map Row.ptr ∧ rows.map Row.id = (a ++ b).map Row.id ∧
          Mirror rows l' v' := by
  intro a b
  induction b generalizing a with
  | nil =>
    intro l v h _ hcap _ _
    exact rel_pure ⟨rfl, hcap, rfl, a ++ [], rfl, rfl, h⟩
  | cons r b ih =>
    intro l v h hfilled hcap hlen hpaired
    have hk : a.length < len := by
      rw [List.length_append, List.length_cons] at hlen
      omega
    have hfirst : rel (body a.length) (forClient (n r.id) r.id) e l v (fun x y => x = .prog y)
      fun _ l' _ v' =>
        l'.clients = l.clients ∧ l'.fdcap = l.fdcap ∧ v'.accepted = v.accepted ∧
          ∃ c, Mirror (a ++ r.update c :: b) l' v' := by
      rw [rel, hbody a.length r.ptr l hk hcap hfilled.slot]
      exact onConn_rel h (hpaired 0 r rfl)
    refine rel_bind hfirst ?_
    rintro - l₁ - v₁ ⟨hclients, hcap₁, hacc, c, h₁⟩
    rw [List.append_cons] at h₁
    have hptr : ((a ++ [r.update c]) ++ b).map Row.ptr = (a ++ r :: b).map Row.ptr := by simp
    have hid : ((a ++ [r.update c]) ++ b).map Row.id = (a ++ r :: b).map Row.id := by simp
    have hnext := ih (a := a ++ [r.update c]) h₁ (hfilled.congr hclients hptr) (hcap₁.trans hcap)
      (by simpa using hlen) fun k q hq => ?_
    · rw [List.length_append, List.length_singleton] at hnext
      refine rel_mono hnext ?_
      rintro - l₂ - v₂ ⟨hclients₂, hcap₂, hacc₂, rows, hptr₂, hid₂, h₂⟩
      exact ⟨hclients₂.trans hclients, hcap₂, hacc₂.trans hacc, rows, hptr₂.trans hptr, hid₂.trans hid, h₂⟩
    · have hq' := hpaired (k + 1) q hq
      rwa [← Nat.add_assoc, Nat.add_right_comm, ← List.length_singleton
        (a := r.update c), ← List.length_append] at hq'

/-! ## The loops over all numbers -/

omit [LinearOrder D] in
theorem eachClient_skip {n : ℕ → PulseDB.Cmd D Unit} {ids : List ℕ} : ∀ {js : List ℕ} {v : EventLoop D},
    (∀ j ∉ ids, v.clients j = none) → eachClient n js e v = eachClient n (js.filter (· ∈ ids)) e v := by
  intro js
  induction js with
  | nil => intro v _; rfl
  | cons j js ih =>
    intro v hnone
    by_cases hj : j ∈ ids
    · rw [List.filter_cons_of_pos (by simpa using hj), eachClient, eachClient]
      refine bind_congr fun _ v' hrun => ih fun i hi => ?_
      have hij : i ≠ j := fun heq => hi (heq ▸ hj)
      unfold forClient at hrun
      split at hrun
      · cases hrun
        exact hnone i hi
      · split at hrun
        · cases hrun
          exact (EventLoop.put_other v hij ..).trans (hnone i hi)
        · cases hrun
    · have hskip : forClient (n j) j e v = .ok ((), v) := by rw [forClient, hnone j hj]
      rw [List.filter_cons_of_neg (by simpa using hj), eachClient, bind_of_ok hskip]
      exact ih hnone

omit [LinearOrder D] in
theorem foldl_clientFree_skip {ids : List ℕ} :
    ∀ {js : List ℕ} {v : EventLoop D}, (∀ j ∉ ids, v.clients j = none) →
    js.foldl EventLoop.clientFree v = (js.filter (· ∈ ids)).foldl EventLoop.clientFree v := by
  intro js
  induction js with
  | nil => intro v _; rfl
  | cons j js ih =>
    intro v hnone
    by_cases hj : j ∈ ids
    · rw [List.filter_cons_of_pos (by simpa using hj), List.foldl_cons, List.foldl_cons]
      refine ih fun i hi => ?_
      have hij : i ≠ j := fun heq => hi (heq ▸ hj)
      unfold EventLoop.clientFree
      split
      · exact hnone i hi
      · split
        · exact (EventLoop.put_other v hij ..).trans (hnone i hi)
        · exact hnone i hi
    · have hskip : v.clientFree j = v := by rw [EventLoop.clientFree, hnone j hj]
      rw [List.filter_cons_of_neg (by simpa using hj), List.foldl_cons, hskip]
      exact ih hnone

theorem Mirror.filter_range (h : Mirror rows l v) :
    (List.range v.accepted).filter (· ∈ rows.map Row.id) = rows.map Row.id := by
  apply List.SortedLT.eq_of_mem_iff
  · exact ((List.pairwise_lt_range).filter _).sortedLT
  · exact h.sorted.sortedLT
  · intro i
    rw [List.mem_filter, List.mem_range, decide_eq_true_iff, and_iff_right_iff_imp, List.mem_map]
    rintro ⟨r, hr, rfl⟩
    obtain ⟨c, hc, -⟩ := h.shown r hr
    exact h.inv.lt hc

theorem Mirror.eachClient (h : Mirror rows l v) (n : ℕ → PulseDB.Cmd D Unit) :
    eachClient n (List.range v.accepted) e v = PulseDB.eachClient n (rows.map Row.id) e v := by
  rw [eachClient_skip h.others, h.filter_range]

theorem Mirror.anyBlocked (h : Mirror rows l v) :
    v.anyBlocked = rows.any fun r => r.conn.client.blockedReq.isSome := by
  rw [Bool.eq_iff_iff, EventLoop.anyBlocked, List.any_eq_true, List.any_eq_true]
  constructor
  · rintro ⟨i, -, hi⟩
    have hmem : i ∈ rows.map Row.id := by
      by_contra hno
      rw [h.others i hno] at hi
      cases hi
    obtain ⟨r, hr, rfl⟩ := List.mem_map.mp hmem
    obtain ⟨c, hc, hview⟩ := h.shown r hr
    rw [hc, Option.any_some, Client.view_isSome hview] at hi
    exact ⟨r, hr, hi⟩
  · rintro ⟨r, hr, hparked⟩
    obtain ⟨c, hc, hview⟩ := h.shown r hr
    refine ⟨r.id, List.mem_range.mpr (h.inv.lt hc), ?_⟩
    rw [hc, Option.any_some, Client.view_isSome hview]
    exact hparked

theorem pollSet_eq : ∀ {a b : List Row}, Mirror (a ++ b) l v → Filled (a ++ b) l → (a ++ b).length < l.fdcap →
    pollSet (List.range' a.length b.length) e l =
      .ok (b.any fun r => r.conn.client.blockedReq.isSome, l) := by
  intro a b
  induction b generalizing a with
  | nil => intro _ _ _; rfl
  | cons r b ih =>
    intro h hfilled hcap
    have hr : r ∈ a ++ r :: b := List.mem_append_right _ List.mem_cons_self
    have hconn : conn r.ptr e l = .ok (r.conn, l) := by rw [conn, h.conn r hr]
    have hfd : fdSlot (a.length + 1) e l = .ok ((), l) := by
      apply if_pos
      rw [List.length_append, List.length_cons] at hcap
      omega
    rw [List.append_cons] at h hfilled hcap
    have hrest := ih h hfilled hcap
    rw [List.length_append, List.length_singleton] at hrest
    rw [← List.append_cons] at hfilled
    rw [List.length_cons, List.range'_succ, pollSet, bind_of_ok hfilled.slot, bind_of_ok hconn,
      bind_of_ok hfd, bind_of_ok hrest]
    rfl

/-! ## Clients that come and go -/

theorem growClients_sound {b : Block (Option ℕ)} (h : b.Sound) :
    (growClients b).Sound ∧ (growClients b).contents = b.contents ∧
      (growClients b).len < (growClients b).cap := by
  unfold growClients
  split
  · rename_i hfull
    have hcap : b.len < if b.cap = 0 then 16 else b.cap * 2 := by split <;> omega
    obtain ⟨hsound, hcontents⟩ := h.resized (fun _ => none) (hfull ▸ hcap.le)
    exact ⟨hsound, hcontents, hcap⟩
  · rename_i hroom
    exact ⟨h, rfl, lt_of_le_of_ne h.fits hroom⟩

omit [LinearOrder D] in
theorem clientAdd_eq (hfilled : Filled rows l) (fd : ℕ) : ∃ clients : Block (Option ℕ), clients.Sound ∧
    clients.contents = rows.map (fun r => some r.ptr) ++ [some l.conns.next] ∧
      clientAdd fd e l = .ok ((), { l with conns := l.conns.alloc { fd := fd }, clients := clients }) := by
  obtain ⟨hsound, hcontents, hroom⟩ := growClients_sound hfilled.sound
  obtain ⟨data, hcopy, hsound', hcontents'⟩ := hsound.appended
    (show (growClients l.clients).len + [some l.conns.next].length ≤ (growClients l.clients).cap from hroom)
  refine ⟨_, hsound', hcontents'.trans (by rw [hcontents, hfilled.contents]), ?_⟩
  rw [clientAdd, bind_of_ok rfl, bind_of_ok rfl, bind_of_ok rfl]
  have hset : setSlot (growClients l.clients).len l.conns.next e
      { l with clients := growClients l.clients, conns := l.conns.alloc { fd := fd } } =
        .ok ((), { l with
          clients := { growClients l.clients with data := data }, conns := l.conns.alloc { fd := fd } }) := by
    rw [setSlot, hcopy]
  rw [bind_of_ok hset]
  rfl

theorem Mirror.add (e : Env D) (h : Mirror rows l v) {fd : ℕ} {files : Heap Unit} {clients : Block (Option ℕ)}
    (hfiles : files.Owned (fd :: (l.listenFd.toList ++ rows.map fun r => r.conn.fd))) :
    Mirror (rows ++ [⟨l.conns.next, { fd := fd }, v.accepted⟩])
      { l with files := files, conns := l.conns.alloc { fd := fd }, clients := clients } v.clientAdd := by
  obtain ⟨hconns, hsame⟩ := h.conns.alloc { fd := fd }
  have hlt : ∀ q ∈ rows, q.id < v.accepted := fun q hq => (h.shown q hq).elim fun _ hc => h.inv.lt hc.1
  refine ⟨h.store, h.tick, h.monoTick, (Moves.join (e := e)).inv h.inv, ?_, ?_, ?_, ?_, ?_, ?_, ?_⟩
  · rw [List.map_append]
    exact hconns.perm (List.perm_append_singleton _ _).symm
  · simpa [Client.pointers] using h.reqs
  · rw [List.map_append, ← List.append_assoc]
    exact hfiles.perm (List.perm_append_singleton _ _).symm
  · intro q hq
    rcases List.mem_append.mp hq with hq | hq
    · exact (hsame q.ptr (List.mem_map_of_mem hq)).trans (h.conn q hq)
    · rw [List.mem_singleton.mp hq]
      exact Function.update_self ..
  · intro q hq
    rcases List.mem_append.mp hq with hq | hq
    · obtain ⟨c, hc, hview⟩ := h.shown q hq
      exact ⟨c, (EventLoop.put_other v (hlt q hq).ne ..).trans hc, hview⟩
    · rw [List.mem_singleton.mp hq]
      exact ⟨{}, EventLoop.put_self .., rfl⟩
  · intro i hi
    rw [List.map_append, List.mem_append, not_or, List.map_singleton, List.mem_singleton] at hi
    exact (EventLoop.put_other v hi.2 ..).trans (h.others i hi.1)
  · rw [List.map_append, List.pairwise_append]
    refine ⟨h.sorted, List.pairwise_singleton _ _, ?_⟩
    simpa using hlt

theorem acceptClients_rel : ∀ {accepts : List Bool} {rows : List Row} {l : Server D} {v : EventLoop D},
    Mirror rows l v → Filled rows l →
    rel (acceptClients accepts) (PulseDB.acceptClients (accepts.count true)) e l v (fun x y => x = .prog y)
      fun _ l' _ v' => ∃ rows', rows'.map Row.id = rows.map Row.id ++ List.range' v.accepted
        (accepts.count true) ∧ Mirror rows' l' v' ∧ Filled rows' l' := by
  intro accepts
  induction accepts with
  | nil => exact fun h hfilled => rel_pure ⟨_, by simp, h, hfilled⟩
  | cons nonblocking accepts ih =>
    intro rows l v h hfilled
    obtain ⟨hfiles, -⟩ := h.files.alloc ()
    cases nonblocking with
    | true =>
      obtain ⟨clients, hsound, hcontents, hadd⟩ :=
        clientAdd_eq (e := e) (l := { l with files := l.files.alloc () }) ⟨hfilled.sound,
          hfilled.contents⟩ l.files.next
      rw [List.count_cons_self]
      refine rel_left rfl (rel_left hadd (rel_right rfl (rel_mono (ih (h.add e hfiles) ⟨hsound, ?_⟩) ?_)))
      · rw [hcontents, List.map_append]
        rfl
      · rintro - l' - v' ⟨rows', hids, h', hfilled'⟩
        refine ⟨rows', ?_, h', hfilled'⟩
        rw [hids, List.range'_succ, List.map_append, List.append_assoc]
        rfl
    | false =>
      obtain ⟨files, hfree, hfiles', -⟩ := hfiles.free
      have hclose : closeFile l.files.next e { l with files := l.files.alloc () } =
          .ok ((), { l with files := files }) := by
        rw [closeFile, hfree]
      rw [List.count_cons_of_ne (by decide)]
      refine rel_left rfl (rel_left hclose (ih ?_ ⟨hfilled.sound, hfilled.contents⟩))
      exact ⟨h.store, h.tick, h.monoTick, h.inv, h.conns, h.reqs, hfiles', h.conn, h.shown,
        h.others, h.sorted⟩

/-- A client that goes leaves no request and no open descriptor behind. -/
theorem clientFree_eq (h : Mirror (a ++ r :: b) l v) : ∃ l', clientFree r.ptr e l = .ok ((), l') ∧
    l'.clients = l.clients ∧ l'.listenFd = l.listenFd ∧
      ∀ c, v.clients r.id = some c → Mirror (a ++ b) l' (v.put r.id (v.sess c) none) := by
  have hr : r ∈ a ++ r :: b := List.mem_append_right _ List.mem_cons_self
  have hrest : ∀ q ∈ a ++ b, q ∈ a ++ r :: b := fun q hq => List.perm_middle.mem_iff.mpr
    (List.mem_cons_of_mem _ hq)
  obtain ⟨c, hc, hview⟩ := h.shown r hr
  obtain ⟨hptr, hid⟩ := h.focus
  have hfds : (l.listenFd.toList ++ (a ++ r :: b).map fun q => q.conn.fd).Perm
      (r.conn.fd :: (l.listenFd.toList ++ (a ++ b).map fun q => q.conn.fd)) := by
    refine (((List.perm_middle (a := r)).map _).append_left _).trans ?_
    rw [List.map_cons]
    exact List.perm_middle
  obtain ⟨files, hclose, hfiles, -⟩ := (h.files.perm hfds).free
  obtain ⟨s', hrun, hreqs, hkept, hstore, htick, hmono⟩ := freeRequests_owned (e := e) (h.shows hview)
  obtain ⟨conns₁, hset, hconns₁, -, hsame₁⟩ :=
    h.conns.set (List.mem_map_of_mem hr) { r.conn with client := s'.client }
  obtain ⟨conns₂, hfree, hconns₂, hsame₂, -⟩ := (hconns₁.perm ((List.perm_middle (a := r)).map Row.ptr)).free
  have hconn : conn r.ptr e l = .ok (r.conn, l) := by rw [conn, h.conn r hr]
  have hfile : closeFile r.conn.fd e l = .ok ((), { l with files := files }) := by rw [closeFile, hclose]
  have hon : onConn freeRequests r.ptr e { l with files := files } = .ok ((), { l with
      files := files, store := s'.store, reqs := s'.heap, conns := conns₁, tick := s'.tick, monoTick :=
        s'.monoTick }) := by
    have hsess : freeRequests e (({ l with files := files } : Server D).sess r.conn.client) =
      .ok ((), s') := hrun
    simp only [onConn, h.conn r hr, hsess, hset]
  refine ⟨{ l with
    files := files, store := s'.store, reqs := s'.heap, conns := conns₂, tick := s'.tick, monoTick :=
      s'.monoTick },
    ?_, rfl, rfl, fun d hd => ?_⟩
  · rw [clientFree, bind_of_ok hconn, bind_of_ok hfile, bind_of_ok hon, freeConn, hfree]
  · constructor
    · exact h.store.trans hstore.symm
    · exact h.tick.trans htick.symm
    · exact h.monoTick.trans hmono.symm
    · exact h.inv.put hd h.inv.server.store fun _ hno => nomatch hno
    · exact hconns₂
    · exact hreqs
    · exact hfiles
    · intro q hq
      rw [hsame₂ q.ptr (List.mem_map_of_mem hq), hsame₁ q.ptr (hptr q hq)]
      exact h.conn q (hrest q hq)
    · intro q hq
      obtain ⟨d', hd', hv⟩ := h.shown q (hrest q hq)
      refine ⟨d', (EventLoop.put_other v (hid q hq) ..).trans hd',
        Eq.trans (Client.view_congr fun p hp => ?_) hv⟩
      exact hkept p (List.mem_flatMap.mpr ⟨q, hq, hp⟩)
    · intro i hi
      by_cases heq : i = r.id
      · rw [heq]
        exact EventLoop.put_self ..
      · refine (EventLoop.put_other v heq ..).trans (h.others i ?_)
        rw [(List.perm_middle.map Row.id).mem_iff, List.map_cons, List.mem_cons, not_or]
        exact ⟨heq, hi⟩
    · have hsub : (a ++ b).Sublist (a ++ r :: b) := (List.sublist_cons_self r b).append_left a
      exact h.sorted.sublist (hsub.map _)

/-- The rows `a` have been moved to the front of the array, and the rows `b` still stand in the slots from `i`
on. -/
structure Compacting (a : List Row) (i : ℕ) (b : List Row) (l : Server D) : Prop where
  size : l.clients.data.length = l.clients.cap
  le : a.length ≤ i
  front : l.clients.data.take a.length = a.map fun r => some r.ptr
  back : b.map (fun r => some r.ptr) <+: l.clients.data.drop i

section Compacting
variable {i : ℕ}

omit [LinearOrder D] in
theorem Compacting.slot (h : Compacting a i (r :: b) l) :
    l.clients.data[i]? = some (some r.ptr) ∧ b.map (fun r => some r.ptr) <+: l.clients.data.drop (i + 1) := by
  obtain ⟨tail, htail⟩ := h.back
  have hdrop : l.clients.data.drop (i + 1) = b.map (fun r => some r.ptr) ++ tail := by
    rw [← List.drop_drop, ← htail]
    rfl
  have hcell : (l.clients.data.drop i)[0]? = some (some r.ptr) := by
    rw [← htail]
    rfl
  rw [List.getElem?_drop, Nat.add_zero] at hcell
  exact ⟨hcell, tail, hdrop.symm⟩

omit [LinearOrder D] in
/-- A row stays: its pointer is written behind those that have been kept. -/
theorem Compacting.keep (h : Compacting a i (r :: b) l) : ∃ data,
    setSlot a.length r.ptr e l = .ok ((), { l with clients := { l.clients with data := data } }) ∧
      Compacting (a ++ [r]) (i + 1) b { l with clients := { l.clients with data := data } } := by
  obtain ⟨hcell, hback⟩ := h.slot
  obtain ⟨hi, -⟩ := List.getElem?_eq_some_iff.mp hcell
  have hle := h.le
  obtain ⟨data, hcopy, hlen, htake, hdrop⟩ := exists_copyTo_one (some r.ptr)
    (show a.length < l.clients.data.length by omega)
  have hkept : (a ++ [r]).length = a.length + 1 := by simp
  refine ⟨data, by rw [setSlot, hcopy], hlen.trans h.size, by omega, ?_, ?_⟩
  · rw [hkept, htake, h.front, List.map_append]
    rfl
  · rw [hdrop (i + 1) (by omega)]
    exact hback

/-- The rest of the array is compacted; what is kept is shown by the loop without its closed clients. -/
theorem removeLoop_eq : ∀ {b a : List Row} {i : ℕ} {l : Server D} {v : EventLoop D}, Mirror (a ++ b) l v →
    Compacting a i b l → ∃ l' rows, removeLoop (List.range' i b.length) a.length e l = .ok (rows.length, l') ∧
      Mirror rows l' ((b.map Row.id).foldl EventLoop.clientFree v) ∧ l'.clients.data.length = l'.clients.cap ∧
      l'.clients.data.take rows.length = rows.map fun r => some r.ptr := by
  intro b
  induction b with
  | nil =>
    intro a i l v h hc
    rw [List.append_nil] at h
    exact ⟨l, a, rfl, h, hc.size, hc.front⟩
  | cons r b ih =>
    intro a i l v h hc
    have hr : r ∈ a ++ r :: b := List.mem_append_right _ List.mem_cons_self
    obtain ⟨hcell, hback⟩ := hc.slot
    have hslot : Mem.slot i e l = .ok (r.ptr, l) := by rw [Mem.slot, hcell]
    have hconn : conn r.ptr e l = .ok (r.conn, l) := by rw [conn, h.conn r hr]
    obtain ⟨c, hid, hview⟩ := h.shown r hr
    have hclosed : c.closed = r.conn.client.closed := by
      obtain ⟨cmds, parked, -, -, rfl⟩ := Client.view_eq_some.mp hview
      rfl
    rw [List.length_cons, List.range'_succ, removeLoop, bind_of_ok hslot, bind_of_ok hconn, List.map_cons,
      List.foldl_cons, EventLoop.clientFree, hid]
    simp only [hclosed]
    by_cases hgone : r.conn.client.closed = true
    · obtain ⟨l₁, hfree, hsame, -, h₁⟩ := clientFree_eq (e := e) h
      rw [if_pos hgone, if_pos hgone, bind_of_ok hfree]
      exact ih (h₁ c hid) ⟨hsame ▸ hc.size, hc.le.trans (Nat.le_succ i), hsame ▸ hc.front, hsame ▸ hback⟩
    · obtain ⟨data, hset, hkept⟩ := hc.keep (e := e)
      rw [if_neg hgone, if_neg hgone, bind_of_ok hset]
      rw [List.append_cons] at h
      have hrest := ih (a := a ++ [r]) (h.arrays { l.clients with data := data } l.fdcap) hkept
      rwa [List.length_append, List.length_singleton] at hrest

end Compacting

theorem removeClosedClients_rel (h : Mirror rows l v) (hfilled : Filled rows l) :
    rel removeClosedClients PulseDB.removeClosedClients e l v (fun x y => x = .prog y) fun _ l' _ v' =>
      ∃ rows', Mirror rows' l' v' ∧ Filled rows' l' := by
  have hlen : l.clients.len = rows.length := by
    rw [← hfilled.sound.length_contents, hfilled.contents, List.length_map]
  have hcompacting : Compacting [] 0 rows l := by
    refine ⟨hfilled.sound.size, Nat.le_refl _, rfl, ?_⟩
    rw [← hfilled.contents]
    exact List.take_prefix _ _
  obtain ⟨l', rows', hrun, h', hsize, hfront⟩ := removeLoop_eq (e := e) (a := []) h hcompacting
  rw [List.length_nil, ← List.range_eq_range', ← hlen] at hrun
  have hroom : rows'.length ≤ l'.clients.data.length := by
    have hcount := congrArg List.length hfront
    rw [List.length_take, List.length_map] at hcount
    omega
  rw [removeClosedClients, PulseDB.removeClosedClients]
  refine rel_left rfl (rel_left hrun (rel_right rfl ?_))
  refine rel_of_ok rfl rfl ⟨rows', ?_, ⟨hsize, hsize ▸ hroom⟩, hfront⟩
  rw [← h.filter_range, ← foldl_clientFree_skip h.others] at h'
  exact h'.arrays _ _

end Mirror
end PulseDB.Mem
