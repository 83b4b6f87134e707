import PulseDB.Store.Invariant

/-!
# The store refines the map with expiry

The table and the map differ by the stale entries that no lookup has met yet. `Sim t s m` says that at the
time `t` they show the same cells; as the clock does not go back, they then show the same cells at every later
time.

* `Sim.exec` : an operation gives the same answer on both, and they agree from its time on; `Sim.execAll` is
  the same for a run;
* `storeScan_eq` : a scan is a fold over a list with every live key once;
* `store_refines_map` : every answer along every run is the one of the map, and stale entries cannot be
  observed.
-/

namespace PulseDB
open Lib.Chains

variable {D : Type}

/-- The table `s` and the map `m` show the same cells at the time `t`. -/
structure Sim (t : Int) (s : Store D) (m : AbstractMap D) : Prop where
  inv : s.Inv
  cells : ∀ key, live t (s.cells key) = live t (m key)

theorem Sim.later {t now : Int} {s : Store D} {m : AbstractMap D} (h : Sim t s m) (ht : t ≤ now) :
    Sim now s m where
  inv := h.inv
  cells key := by rw [← live_live ht, h.cells, live_live ht]

section Runs
variable [LinearOrder D]

theorem Sim.exec {t now : Int} {s : Store D} {m : AbstractMap D} (h : Sim t s m) (ht : t ≤ now) {α : Type}
    (op : StoreOp D α) (key : Bytes) (now' : Int) :
    (op.exec s key now now').1 = (op.run m key now now').1 ∧
      Sim now (op.exec s key now now').2 (op.run m key now now').2 := by
  have hd := exec_does h.inv key now now' op
  have hs := h.later ht
  refine ⟨by rw [hd.result, hs.cells]; rfl, hd.inv, fun k => ?_⟩
  rw [hd.cells, hs.cells]
  by_cases hk : k = key
  · subst hk
    rw [Function.update_self]
    show _ = live now (Function.update (m.at now) k (op.step now' (m.at now k)).2 k)
    rw [Function.update_self]
    rfl
  · rw [Function.update_of_ne hk, hs.cells]
    show _ = live now (Function.update (m.at now) key _ k)
    rw [Function.update_of_ne hk]
    exact (live_live le_rfl (m k)).symm

/-- A call of an operation, with its clock readings. -/
structure Call (D : Type) : Type 1 where
  {α : Type}
  op : StoreOp D α
  key : Bytes
  now : Int
  now' : Int

def Call.exec (c : Call D) (s : Store D) : Store D := (c.op.exec s c.key c.now c.now').2

def Call.run (c : Call D) (m : AbstractMap D) : AbstractMap D := (c.op.run m c.key c.now c.now').2

/-- The store after a sequence of calls. -/
def execAll (calls : List (Call D)) (s : Store D) : Store D := calls.foldl (fun s c => c.exec s) s

/-- The map after a sequence of calls. -/
def runAll (calls : List (Call D)) (m : AbstractMap D) : AbstractMap D := calls.foldl (fun m c => c.run m) m

/-- From `t` on, through the readings of the calls and up to `now`, the clock does not go back. -/
def Timed : Int → List (Call D) → Int → Prop
  | t, [], now => t ≤ now
  | t, c :: calls, now => t ≤ c.now ∧ c.now ≤ c.now' ∧ Timed c.now' calls now

theorem Sim.execAll : ∀ {calls : List (Call D)} {t now : Int} {s : Store D} {m : AbstractMap D}, Sim t s m →
    Timed t calls now → Sim now (execAll calls s) (runAll calls m)
  | [], _, _, _, _, h, ht => h.later ht
  | c :: calls, _, now, s, m, h, ht => by
    show Sim now (PulseDB.execAll calls (c.exec s)) (runAll calls (c.run m))
    exact Sim.execAll (((h.exec ht.1 c.op c.key c.now').2).later ht.2.1) ht.2.2

end Runs

/-! ## Scans -/

/-- The entries a scan at the time `now` visits. -/
def Store.visited (s : Store D) (now : Int) : List (StoreEntry D) :=
  s.buckets.flatten.filter fun e => !entryIsExpired e now

theorem storeScan_eq {γ : Type} (s : Store D) (now : Int) (visit : γ → StoreEntry D → γ) (ctx : γ) :
    storeScan s now visit ctx = (s.visited now).foldl visit ctx := by
  have hchain : ∀ (c : List (StoreEntry D)) (ctx : γ),
      c.foldl (fun ctx e => if entryIsExpired e now then ctx else visit ctx e) ctx =
        (c.filter fun e => !entryIsExpired e now).foldl visit ctx := by
    intro c
    induction c with
    | nil => exact fun _ => rfl
    | cons e c ih =>
      intro ctx
      rw [List.foldl_cons, ih, List.filter_cons]
      cases entryIsExpired e now <;> rfl
  unfold storeScan Store.visited
  generalize s.buckets = t
  induction t generalizing ctx with
  | nil => rfl
  | cons c t ih => rw [List.foldl_cons, ih, hchain, List.flatten_cons, List.filter_append, List.foldl_append]

theorem Store.Inv.visited_nodup {s : Store D} (h : s.Inv) (now : Int) :
    ((s.visited now).map StoreEntry.key).Nodup :=
  h.nodup.sublist (List.filter_sublist.map _)

theorem Store.Inv.mem_visited {s : Store D} (h : s.Inv) (now : Int) (key : Bytes) (c : Cell D) :
    (∃ e ∈ s.visited now, e.key = key ∧ e.cell = c) ↔ live now (s.cells key) = some c := by
  rw [live_eq_some, Store.cells, Option.map_eq_some_iff]
  constructor
  · rintro ⟨e, he, hk, rfl⟩
    obtain ⟨hm, hx⟩ := List.mem_filter.mp he
    refine ⟨⟨e, h.walk_eq_some.mpr ⟨hm, hk⟩, rfl⟩, fun hexp => ?_⟩
    rw [(entryIsExpired_iff e now).mpr hexp] at hx
    cases hx
  · rintro ⟨⟨e, he, rfl⟩, hx⟩
    obtain ⟨hm, hk⟩ := h.walk_eq_some.mp he
    refine ⟨e, List.mem_filter.mpr ⟨hm, ?_⟩, hk, rfl⟩
    rw [Bool.eq_false_iff.mpr fun ht => hx ((entryIsExpired_iff e now).mp ht)]
    rfl

/-- A scan visits every live key of the map once, with its cell, and no other key. -/
def Scans (s : Store D) (m : AbstractMap D) (now : Int) : Prop :=
  ∃ es : List (StoreEntry D),
    (∀ (γ : Type) (visit : γ → StoreEntry D → γ) (ctx : γ), storeScan s now visit ctx = es.foldl visit ctx) ∧
    (es.map StoreEntry.key).Nodup ∧
    ∀ key c, (∃ e ∈ es, e.key = key ∧ e.cell = c) ↔ live now (m key) = some c

theorem Sim.scans {now : Int} {s : Store D} {m : AbstractMap D} (h : Sim now s m) : Scans s m now :=
  ⟨s.visited now, fun _ visit ctx => storeScan_eq s now visit ctx, h.inv.visited_nodup now, fun key c => by
    rw [h.inv.mem_visited, h.cells]⟩

/-! ## The refinement -/

theorem sim_create (t : Int) : Sim t (storeCreate : Store D) (fun _ => none) := by
  exact ⟨storeCreate_inv, fun key => by rw [storeCreate_cells]⟩

section Refinement
variable [LinearOrder D]

/-- Two stores that show the same live cells cannot be told apart by a later operation or scan. -/
theorem indistinguishable {t now : Int} {s₁ s₂ : Store D} (h₁ : s₁.Inv) (h₂ : s₂.Inv)
    (hlive : ∀ key, live t (s₁.cells key) = live t (s₂.cells key)) {calls : List (Call D)}
    (ht : Timed t calls now) :
    (∀ (α : Type) (op : StoreOp D α) (key : Bytes) (now' : Int),
        (op.exec (execAll calls s₁) key now now').1 = (op.exec (execAll calls s₂) key now now').1) ∧
      ∀ key c, (∃ e ∈ (execAll calls s₁).visited now, e.key = key ∧ e.cell = c) ↔
        ∃ e ∈ (execAll calls s₂).visited now, e.key = key ∧ e.cell = c := by
  have hs₁ : Sim now (execAll calls s₁) (runAll calls s₂.cells) := Sim.execAll ⟨h₁, hlive⟩ ht
  have hs₂ : Sim now (execAll calls s₂) (runAll calls s₂.cells) := Sim.execAll ⟨h₂, fun _ => rfl⟩ ht
  refine ⟨fun α op key now' => ?_, fun key c => ?_⟩
  · rw [(hs₁.exec le_rfl op key now').1, (hs₂.exec le_rfl op key now').1]
  · rw [hs₁.inv.mem_visited, hs₂.inv.mem_visited, hs₁.cells, hs₂.cells]

/-- Along every run with a clock that does not go back, the answer of every operation and what every scan
visits are those of the map with expiry; and stores that differ only in expired entries answer alike for
ever. -/
theorem store_refines_map :
    (∀ (t now : Int) (calls : List (Call D)), Timed t calls now →
      (∀ (α : Type) (op : StoreOp D α) (key : Bytes) (now' : Int),
        (op.exec (execAll calls storeCreate) key now now').1 =
          (op.run (runAll calls fun _ => none) key now now').1) ∧
      Scans (execAll calls storeCreate) (runAll calls fun _ => none) now) ∧
    ∀ (t now : Int) (s₁ s₂ : Store D), s₁.Reachable → s₂.Reachable →
      (∀ key, live t (s₁.cells key) = live t (s₂.cells key)) → ∀ calls : List (Call D), Timed t calls now →
      (∀ (α : Type) (op : StoreOp D α) (key : Bytes) (now' : Int),
        (op.exec (execAll calls s₁) key now now').1 = (op.exec (execAll calls s₂) key now now').1) ∧
      ∀ key c, (∃ e ∈ (execAll calls s₁).visited now, e.key = key ∧ e.cell = c) ↔
        ∃ e ∈ (execAll calls s₂).visited now, e.key = key ∧ e.cell = c := by
  refine ⟨fun t now calls ht => ?_, fun t now s₁ s₂ h₁ h₂ hlive calls ht => ?_⟩
  · have hs : Sim now (execAll calls storeCreate) (runAll calls fun _ => none) :=
      Sim.execAll (sim_create t) ht
    exact ⟨fun α op key now' => (hs.exec le_rfl op key now').1, hs.scans⟩
  · exact indistinguishable h₁.inv h₂.inv hlive ht

end Refinement

/-- A key seen after its expiry, and two stores of which one still holds it. -/
theorem store_refines_map_stale_key :
    let set : Call ℕ := ⟨.set (ascii "v") 5, ascii "k", 1, 1⟩
    let get : Call ℕ := ⟨.get, ascii "k", 6, 6⟩
    (StoreOp.exec (execAll [set] storeCreate) (ascii "k") 6 6 .get).1 = .error .notFound ∧
    (StoreOp.exec (execAll [set] storeCreate) (ascii "k") 6 6 .get).1 =
      (StoreOp.run .get (runAll [set] fun _ => none) (ascii "k") 6 6).1 ∧
    (execAll [set] storeCreate).count = 1 ∧ (execAll [set, get] storeCreate).count = 0 ∧
    (StoreOp.exec (execAll [set] storeCreate) (ascii "k") 7 7 .exists).1 =
      (StoreOp.exec (execAll [set, get] storeCreate) (ascii "k") 7 7 .exists).1 := by
  intro set get
  have ht : Timed 0 [set] 6 := by
    show (0 : Int) ≤ 1 ∧ (1 : Int) ≤ 1 ∧ (1 : Int) ≤ 6
    decide
  refine ⟨by decide, (store_refines_map.1 0 6 [set] ht).1 _ .get _ 6, by decide, by decide, ?_⟩
  refine ((store_refines_map (D := ℕ)).2 6 7 (execAll [set] storeCreate) (execAll [set, get] storeCreate)
    (Store.Reachable.create.exec _ _ _ _) ((Store.Reachable.create.exec _ _ _ _).exec _ _ _ _)
      (fun key => ?_) []
    (show (6 : Int) ≤ 7 by decide)).1 _ .exists _ 7
  have hinv : (execAll [set] storeCreate).Inv :=
    (Store.Reachable.create.exec set.op set.key set.now set.now').inv
  have hd := exec_does hinv (ascii "k") 6 6 StoreOp.get
  have hc : (execAll [set, get] storeCreate).cells = _ := hd.cells
  rw [hc]
  by_cases hk : key = ascii "k"
  · rw [hk, Function.update_self]
    exact (live_live le_rfl _).symm
  · rw [Function.update_of_ne hk]

end PulseDB
