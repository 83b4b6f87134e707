import PulseDB.Store.Abstract
import Mathlib.Algebra.Order.Ring.Nat

/-!
# The keyspace invariant

* `Store.Inv` : the representation invariant of the table; `Store.cells` is the map a table stands for;
* `Store.Inv.unlink`, `Store.Inv.update`, `Store.Inv.createEntry`, `lookup_cases` : what the table functions
  do to the map;
* `exec_does` : an operation keeps the invariant, and it answers and changes the map as `StoreOp.step` says;
* `keyspace_representation` : the invariant holds in every store reachable from `storeCreate`.
-/

namespace PulseDB
open Lib.Chains

variable {D : Type}

/-- The representation invariant of the keyspace. -/
structure Store.Inv (s : Store D) : Prop where
  size : ∃ k, s.size = storeInitialBuckets * 2 ^ k
  buckets : s.buckets.length = s.size
  placed : ∀ i, ∀ e ∈ chain s.buckets i, indexSlot e.hash s.size = i
  hashed : ∀ e ∈ s.buckets.flatten, e.hash = hash64 e.key
  nodup : (s.buckets.flatten.map StoreEntry.key).Nodup
  count : s.count = s.buckets.flatten.length
  load : s.count ≤ s.size

def StoreEntry.cell (e : StoreEntry D) : Cell D := ⟨e.value, e.expiresAt⟩

def Store.cells (s : Store D) : AbstractMap D := fun key => (s.walk key).map StoreEntry.cell

theorem indexSlot_lt (h : UInt64) {size : ℕ} (hs : 0 < size) : indexSlot h size < size := by
  have := @Nat.and_le_right h.toNat (size - 1)
  unfold indexSlot
  omega

theorem StoreEntry.named_eq {e : StoreEntry D} {key : Bytes} (h : e.hash = hash64 e.key) :
    e.named key = decide (e.key = key) := by
  unfold StoreEntry.named
  rw [h]
  by_cases hk : e.key = key
  · simp [hk]
  · have : strcmp e.key key ≠ 0 := fun h0 => hk (strcmp_eq_zero.mp h0)
    simp [hk, this]

theorem storeCreate_inv : (storeCreate : Store D).Inv where
  size := ⟨0, rfl⟩
  buckets := List.length_replicate
  placed i e he := by
    have : e ∈ (List.replicate storeInitialBuckets ([] : List (StoreEntry D))).flatten :=
      mem_flatten_iff.mpr ⟨i, he⟩
    simp at this
  hashed e he := by simp [storeCreate] at he
  nodup := by simp [storeCreate]
  count := by simp [storeCreate]
  load := Nat.zero_le _

section Table
variable {s : Store D}

theorem Store.Inv.size_pos (h : s.Inv) : 0 < s.size := by
  obtain ⟨k, hk⟩ := h.size
  rw [hk]
  exact Nat.mul_pos (by decide) (Nat.pow_pos (by decide))

theorem Store.Inv.slot_lt (h : s.Inv) (key : Bytes) : s.slot key < s.buckets.length := by
  rw [h.buckets]
  exact indexSlot_lt _ h.size_pos

theorem Store.Inv.keyed (h : s.Inv) : Keyed s.slot StoreEntry.key s.buckets where
  slot := h.slot_lt
  placed i e he := by
    rw [Store.slot, ← h.hashed e (mem_flatten_iff.mpr ⟨i, he⟩)]
    exact h.placed i e he
  nodup := h.nodup

theorem Store.Inv.named (h : s.Inv) (key : Bytes) :
    ∀ e ∈ chain s.buckets (s.slot key), e.named key = decide (e.key = key) :=
  fun e he => StoreEntry.named_eq (h.hashed e (mem_flatten_iff.mpr ⟨_, he⟩))

theorem Store.Inv.walk_eq (h : s.Inv) (key : Bytes) : s.walk key = find s.slot StoreEntry.key s.buckets key :=
  find_congr (h.named key)

theorem Store.Inv.walk_eq_some (h : s.Inv) {key : Bytes} {e : StoreEntry D} :
    s.walk key = some e ↔ e ∈ s.buckets.flatten ∧ e.key = key := by
  rw [h.walk_eq, h.keyed.find_eq_some]

theorem cells_eq_of_find {s s' : Store D} (h : s.Inv) (h' : s'.Inv) {key : Bytes} {o : Option (StoreEntry D)}
    (hf : ∀ k, find s'.slot StoreEntry.key s'.buckets k =
      if k = key then o else find s.slot StoreEntry.key s.buckets k) :
    s'.cells = Function.update s.cells key (o.map StoreEntry.cell) := by
  funext k
  rw [Store.cells, h'.walk_eq, hf, Function.update_apply, Store.cells, h.walk_eq]
  split <;> rfl

theorem Store.Inv.unlink (h : s.Inv) {key : Bytes} {e : StoreEntry D} (he : s.walk key = some e) :
    (s.unlink key).Inv ∧ (s.unlink key).cells = Function.update s.cells key none := by
  rw [h.walk_eq] at he
  have hb : (s.unlink key).buckets =
      Lib.Chains.unlink s.buckets (s.slot key) (fun x => decide (x.key = key)) :=
    modify_congr (h.slot_lt key) (eraseP_congr (h.named key))
  have hk := h.keyed.unlink he
  have hp := unlink_perm (h.slot_lt key) he
  rw [← hb] at hk hp
  have hinv : (s.unlink key).Inv := by
    refine ⟨h.size, ?_, fun i x hx => ?_, fun x hx => ?_, hk.nodup, ?_, ?_⟩
    · rw [hb, length_unlink]; exact h.buckets
    · have hm := hp.mem_iff.mpr (List.mem_cons_of_mem e (mem_flatten_iff.mpr ⟨i, hx⟩))
      rw [h.hashed x hm]
      exact hk.placed i x hx
    · exact h.hashed x (hp.mem_iff.mpr (List.mem_cons_of_mem e hx))
    · have := hp.length_eq
      rw [List.length_cons] at this
      show s.count - 1 = _
      rw [h.count, this]
      omega
    · exact le_trans (Nat.sub_le _ _) h.load
  refine ⟨hinv, cells_eq_of_find h hinv (o := none) fun k => ?_⟩
  rw [hb]
  exact h.keyed.find_unlink he k

theorem Store.Inv.update (h : s.Inv) {key : Bytes} {e : StoreEntry D} (he : s.walk key = some e)
    {f : StoreEntry D → StoreEntry D} (hkey : ∀ x, (f x).key = x.key) (hhash : ∀ x, (f x).hash = x.hash) :
    (s.update key f).Inv ∧ (s.update key f).cells = Function.update s.cells key (some (f e).cell) := by
  rw [h.walk_eq] at he
  have hb : (s.update key f).buckets = amend s.buckets (s.slot key) (fun x => decide (x.key = key)) f :=
    modify_congr (h.slot_lt key) (updateFirst_congr (h.named key))
  have hk := h.keyed.amend he hkey
  have hp := amend_perm f (h.slot_lt key) he
  have hq := unlink_perm (h.slot_lt key) he
  rw [← hb] at hk hp
  have hhashed : ∀ x ∈ (s.update key f).buckets.flatten, x.hash = hash64 x.key := by
    intro x hx
    rcases List.mem_cons.mp (hp.mem_iff.mp hx) with rfl | hx
    · rw [hhash, hkey]
      exact h.hashed e (find_some_mem he)
    · exact h.hashed x (hq.mem_iff.mpr (List.mem_cons_of_mem e hx))
  have hinv : (s.update key f).Inv := by
    refine ⟨h.size, ?_, fun i x hx => ?_, hhashed, hk.nodup, ?_, h.load⟩
    · rw [hb, length_amend]; exact h.buckets
    · rw [hhashed x (mem_flatten_iff.mpr ⟨i, hx⟩)]
      exact hk.placed i x hx
    · show s.count = _
      rw [h.count, hp.length_eq, hq.length_eq]
      rfl
  refine ⟨hinv, cells_eq_of_find h hinv (o := some (f e)) fun k => ?_⟩
  rw [hb]
  exact h.keyed.find_amend he hkey k

theorem Store.Inv.grow (h : s.Inv) :
    (storeGrow s).buckets.flatten.Perm s.buckets.flatten ∧ (storeGrow s).Inv ∧
      (storeGrow s).cells = s.cells := by
  have hpos : 0 < s.size * 2 := Nat.mul_pos h.size_pos (by decide)
  have hb : (storeGrow s).buckets =
      rehash (fun e => (storeGrow s).slot e.key) (s.size * 2) s.buckets :=
    linkAll_congr fun e he => by rw [h.hashed e he]; rfl
  have hslot : ∀ k, (storeGrow s).slot k < s.size * 2 := fun k => indexSlot_lt _ hpos
  have hk := keyed_rehash h.nodup hslot
  have hp := rehash_perm (fun e : StoreEntry D => (storeGrow s).slot e.key) (s.size * 2) s.buckets fun e _ =>
    hslot e.key
  have hf := h.keyed.find_rehash hslot
  rw [← hb] at hk hp hf
  have hhashed : ∀ x ∈ (storeGrow s).buckets.flatten, x.hash = hash64 x.key :=
    fun x hx => h.hashed x (hp.mem_iff.mp hx)
  have hinv : (storeGrow s).Inv := by
    refine ⟨?_, ?_, fun i x hx => ?_, hhashed, hk.nodup, ?_, ?_⟩
    · obtain ⟨k, hs⟩ := h.size
      exact ⟨k + 1, by show s.size * 2 = _; rw [hs, Nat.pow_succ, Nat.mul_assoc]⟩
    · rw [hb, length_rehash]; rfl
    · rw [hhashed x (mem_flatten_iff.mpr ⟨i, hx⟩)]
      exact hk.placed i x hx
    · rw [hp.length_eq]
      exact h.count
    · have := h.load
      show s.count ≤ s.size * 2
      omega
  refine ⟨hp, hinv, ?_⟩
  funext k
  rw [Store.cells, hinv.walk_eq, hf, Store.cells, h.walk_eq]

theorem Store.Inv.link (h : s.Inv) (hroom : s.count < s.size) {key : Bytes} (hnew : s.walk key = none)
    (value : Value D) (expiresAt : Int) :
    let s' : Store D := { s with
      buckets := Lib.Chains.link s.buckets (s.slot key) ⟨key, hash64 key, value, expiresAt⟩, count :=
        s.count + 1 }
    s'.Inv ∧ s'.cells = Function.update s.cells key (some ⟨value, expiresAt⟩) := by
  intro s'
  rw [h.walk_eq] at hnew
  obtain ⟨e, he⟩ : ∃ e : StoreEntry D, e = ⟨key, hash64 key, value, expiresAt⟩ := ⟨_, rfl⟩
  have hek : e.key = key := by rw [he]
  have hb : s'.buckets = Lib.Chains.link s.buckets (s.slot e.key) e := by rw [hek, he]
  have hk := h.keyed.link (e := e) (by rw [hek]; exact hnew)
  have hp := link_perm (h.slot_lt e.key) e
  rw [← hb] at hk hp
  have hhashed : ∀ x ∈ s'.buckets.flatten, x.hash = hash64 x.key := by
    intro x hx
    rcases List.mem_cons.mp (hp.mem_iff.mp hx) with rfl | hx
    · rw [he]
    · exact h.hashed x hx
  have hinv : s'.Inv := by
    refine ⟨h.size, ?_, fun i x hx => ?_, hhashed, hk.nodup, ?_, hroom⟩
    · rw [hb, length_link]; exact h.buckets
    · rw [hhashed x (mem_flatten_iff.mpr ⟨i, hx⟩)]
      exact hk.placed i x hx
    · show s.count + 1 = _
      rw [h.count, hp.length_eq, List.length_cons]
  refine ⟨hinv, ?_⟩
  have hcell : (some ⟨value, expiresAt⟩ : Option (Cell D)) = (some e).map StoreEntry.cell := by rw [he]; rfl
  rw [hcell]
  refine cells_eq_of_find h hinv fun k => ?_
  rw [hb]
  refine (h.keyed.find_link e k).trans ?_
  rw [hek]
  by_cases hkk : k = key
  · rw [if_pos hkk, if_pos hkk.symm]
  · rw [if_neg hkk, if_neg (Ne.symm hkk)]

theorem Store.walk_eq_none {key : Bytes} : s.walk key = none ↔ s.cells key = none := by
  rw [Store.cells, Option.map_eq_none_iff]

theorem storeCreate_cells (key : Bytes) : (storeCreate : Store D).cells key = none := by
  refine Store.walk_eq_none.mp (Option.eq_none_iff_forall_ne_some.mpr fun e he => ?_)
  have := (storeCreate_inv.walk_eq_some.mp he).1
  simp [storeCreate] at this

theorem Store.Inv.createEntry (h : s.Inv) {key : Bytes} (hnew : s.cells key = none) (value : Value D)
    (expiresAt : Int) :
    (createEntry s key value expiresAt).Inv ∧
      (createEntry s key value expiresAt).cells = Function.update s.cells key (some ⟨value, expiresAt⟩) := by
  unfold PulseDB.createEntry
  by_cases hfull : s.count ≥ s.size
  · rw [if_pos hfull]
    obtain ⟨-, hg, hc⟩ := h.grow
    rw [← hc] at hnew ⊢
    refine hg.link ?_ (Store.walk_eq_none.mpr hnew) value expiresAt
    have := h.size_pos
    have := h.load
    show s.count < s.size * 2
    omega
  · rw [if_neg hfull]
    exact h.link (by omega) (Store.walk_eq_none.mpr hnew) value expiresAt

/-! ## Lookups -/

theorem Store.cells_of_walk {key : Bytes} {e : StoreEntry D} (he : s.walk key = some e) :
    s.cells key = some e.cell := by
  rw [Store.cells, he]
  rfl

theorem entryIsExpired_iff (e : StoreEntry D) (now : Int) :
    entryIsExpired e now = true ↔ e.cell.ExpiredAt now := by
  unfold entryIsExpired Cell.ExpiredAt StoreEntry.cell
  simp

/-- A lookup finds the live entry, or it leaves a table without the key. -/
theorem lookup_cases (h : s.Inv) (key : Bytes) (now : Int) :
    (∃ s', lookup s key now = (none, s') ∧ s'.Inv ∧ s'.cells = Function.update s.cells key none ∧
        live now (s.cells key) = none) ∨
      ∃ e, lookup s key now = (some e, s) ∧ s.walk key = some e ∧ live now (s.cells key) = some e.cell := by
  unfold lookup
  cases he : s.walk key with
  | none =>
    have hc := Store.walk_eq_none.mp he
    exact Or.inl ⟨s, rfl, h, by rw [← hc, Function.update_eq_self], by rw [hc]; rfl⟩
  | some e =>
    have hc := Store.cells_of_walk he
    have hexp := entryIsExpired_iff e now
    simp only
    by_cases hx : e.cell.ExpiredAt now
    · have h0 : (e.expiresAt != 0) = true := bne_iff_ne.mpr hx.1
      rw [h0, hexp.mpr hx]
      exact Or.inl ⟨_, rfl, (h.unlink he).1, (h.unlink he).2, by rw [hc, live, if_pos hx]⟩
    · rw [Bool.eq_false_iff.mpr (fun ht => hx (hexp.mp ht)), Bool.and_false]
      exact Or.inr ⟨e, rfl, rfl, by rw [hc, live, if_neg hx]⟩

theorem lookupTyped_cases {α : Type} (h : s.Inv) (key : Bytes) (as : Value D → Option α) (now : Int) :
    (∃ s', lookupTyped s key as now = (.error .notFound, s') ∧ s'.Inv ∧
      s'.cells = Function.update s.cells key none ∧
        live now (s.cells key) = none) ∨
      (∃ e, lookupTyped s key as now = (.error .wrongType, s) ∧ s.walk key = some e ∧
        live now (s.cells key) = some e.cell ∧ as e.value = none) ∨
      ∃ e a, lookupTyped s key as now = (.ok a, s) ∧ s.walk key = some e ∧
        live now (s.cells key) = some e.cell ∧ as e.value = some a := by
  unfold lookupTyped
  rcases lookup_cases h key now with ⟨s', hl, hi, hc, hn⟩ | ⟨e, hl, he, hc⟩
  · rw [hl]
    exact Or.inl ⟨s', rfl, hi, hc, hn⟩
  · rw [hl]
    right
    cases ha : as e.value with
    | none => exact Or.inl ⟨e, by simp only [ha], he, hc, ha⟩
    | some a => exact Or.inr ⟨e, a, by simp only [ha], he, hc, ha⟩

/-! ## Operations -/

/-- The outcome `r` of an operation on `key` is the one the map says: the answer and the cell `r'`. -/
structure Does {α : Type} (s : Store D) (key : Bytes) (r : α × Store D) (r' : α × Option (Cell D)) :
    Prop where
  result : r.1 = r'.1
  inv : r.2.Inv
  cells : r.2.cells = Function.update s.cells key r'.2

section Does
variable {α : Type} {key : Bytes} {e : StoreEntry D} {s' : Store D}

theorem Does.missing (a : α) (hi : s'.Inv) (hc : s'.cells = Function.update s.cells key none) :
    Does s key (a, s') (a, none) := ⟨rfl, hi, hc⟩

theorem Does.kept (h : s.Inv) (he : s.walk key = some e) (a : α) : Does s key (a, s) (a, some e.cell) :=
  ⟨rfl, h, by rw [← Store.cells_of_walk he, Function.update_eq_self]⟩

theorem Does.created (h : s.Inv) (hn : s.cells key = none) (a : α) (value : Value D) (expiresAt : Int) :
    Does s key (a, createEntry s key value expiresAt) (a, some ⟨value, expiresAt⟩) :=
  ⟨rfl, (h.createEntry hn value expiresAt).1, (h.createEntry hn value expiresAt).2⟩

theorem Does.after {r : α × Store D} {r' : α × Option (Cell D)} (hd : Does s' key r r')
    (hc : s'.cells = Function.update s.cells key none) : Does s key r r' :=
  ⟨hd.result, hd.inv, by rw [hd.cells, hc, Function.update_idem]⟩

theorem Does.changed (h : s.Inv) (he : s.walk key = some e) (a : α) (value : Value D) :
    Does s key (a, s.setValue key value) (a, some ⟨value, e.expiresAt⟩) := by
  obtain ⟨h1, h2⟩ := h.update he (f := fun e => { e with value := value }) (fun _ => rfl) (fun _ => rfl)
  exact ⟨rfl, h1, h2⟩

theorem Does.removed (h : s.Inv) (he : s.walk key = some e) (a : α) :
    Does s key (a, s.unlink key) (a, none) :=
  ⟨rfl, (h.unlink he).1, (h.unlink he).2⟩

theorem Does.emptied (h : s.Inv) (he : s.walk key = some e) (a : α) (value : Value D) (now : Int) :
    Does s key (a, (storeDel (s.setValue key value) key now).2) (a, none) := by
  obtain ⟨-, hi, hc⟩ := Does.changed h he a value
  simp only at hi hc
  have hsome : (s.setValue key value).cells key = some ⟨value, e.expiresAt⟩ := by
    rw [hc, Function.update_self]
  cases hw : (s.setValue key value).walk key with
  | none => rw [Store.walk_eq_none.mp hw] at hsome; cases hsome
  | some e' =>
    have hd : (storeDel (s.setValue key value) key now).2 = (s.setValue key value).unlink key := by
      rw [storeDel, hw]
    rw [hd]
    obtain ⟨h1, h2⟩ := hi.unlink hw
    exact ⟨rfl, h1, by rw [h2, hc, Function.update_idem]⟩

end Does

theorem storeSet_does (h : s.Inv) (key value : Bytes) (expiresAtMs now : Int) :
    Does s key ((), storeSet s key value expiresAtMs now) ((), some ⟨.str value, expiresAtMs⟩) := by
  unfold storeSet
  rcases lookup_cases h key now with ⟨s', hl, hi, hc, -⟩ | ⟨e, hl, he, -⟩
  · rw [hl]
    exact (Does.created hi (by rw [hc, Function.update_self]) () _ _).after hc
  · rw [hl]
    obtain ⟨h1, h2⟩ := h.update he (f := fun e => { e with value := .str value, expiresAt := expiresAtMs })
      (fun _ => rfl) (fun _ => rfl)
    exact ⟨rfl, h1, h2⟩

theorem storeDel_does (h : s.Inv) (key : Bytes) (now : Int) :
    Does s key (storeDel s key now) ((live now (s.cells key)).isSome, none) := by
  unfold storeDel
  cases he : s.walk key with
  | none =>
    have hc := Store.walk_eq_none.mp he
    rw [hc]
    exact .missing false h (by rw [← hc, Function.update_eq_self])
  | some e =>
    rw [Store.cells_of_walk he]
    have hlive : (!entryIsExpired e now) = (live now (some e.cell)).isSome := by
      rw [live]
      by_cases hx : e.cell.ExpiredAt now
      · rw [if_pos hx, (entryIsExpired_iff e now).mpr hx]; rfl
      · rw [if_neg hx, Bool.eq_false_iff.mpr (fun ht => hx ((entryIsExpired_iff e now).mp ht))]; rfl
    simp only [hlive]
    exact .removed h he _

theorem lookupIn_does {α β : Type} (h : s.Inv) (key : Bytes) (as : Value D → Option α) (search : α → Option β)
    (now : Int) : Does s key (lookupIn s key as search now)
      (Cell.inspect as search (live now (s.cells key))) := by
  unfold lookupIn
  rcases lookupTyped_cases h key as now with ⟨s', hl, hi, hc, hn⟩ | ⟨e, hl, he, hc, ha⟩ | ⟨e, a, hl,
    he, hc, ha⟩
  · rw [hl, hn]
    exact .missing _ hi hc
  · rw [hl, hc, Cell.inspect, Cell.read_wrongType ha]
    exact .kept h he _
  · rw [hl, hc, Cell.inspect, Cell.read_typed ha]
    show Does s key _ ((search a).elim _ _, _)
    cases hf : search a with
    | none => simp only [hf]; exact .kept h he _
    | some b => simp only [hf]; exact .kept h he _

theorem lookupTyped_does {α : Type} (h : s.Inv) (key : Bytes) (as : Value D → Option α) (now : Int) :
    Does s key (lookupTyped s key as now) (Cell.inspect as some (live now (s.cells key))) := by
  have hwhole : lookupIn s key as some now = lookupTyped s key as now := by
    unfold lookupIn
    rcases lookupTyped s key as now with ⟨st | a, s'⟩ <;> rfl
  rw [← hwhole]
  exact lookupIn_does h key as some now

/-- A change of the value under a type, from what the source does in each of its cases. -/
theorem alter_does {α β : Type} (h : s.Inv) (key : Bytes) (now : Int) {as : Value D → Option α}
    {wrap : α → Value D}
    {f : Option α → Except StoreStatus (β × Option α)} {r : Except StoreStatus β × Store D}
    (hwrong : lookupTyped s key as now = (.error .wrongType, s) → r = (.error .wrongType, s))
    (hmissing : ∀ s', lookupTyped s key as now = (.error .notFound, s') → s'.Inv → s'.cells key = none →
      match f none with
        | .error st => r = (.error st, s')
        | .ok (b, none) => r = (.ok b, s')
        | .ok (b, some a) => r.1 = .ok b ∧ Does s' key ((), r.2) ((), some ⟨wrap a, 0⟩))
    (htyped : ∀ a, lookupTyped s key as now = (.ok a, s) → match f (some a) with
        | .error st => r = (.error st, s)
        | .ok (b, none) => ∃ value now', r = (.ok b, (storeDel (s.setValue key value) key now').2)
        | .ok (b, some a) => r = (.ok b, s.setValue key (wrap a))) :
    Does s key r (Cell.alter as wrap f (live now (s.cells key))) := by
  rcases lookupTyped_cases h key as now with ⟨s', hl, hi, hc, hn⟩ | ⟨e, hl, he, hc, ha⟩ | ⟨e, a, hl,
    he, hc, ha⟩
  · have hm := hmissing s' hl hi (by rw [hc, Function.update_self])
    rw [hn, Cell.alter_none]
    cases hf : f none with
    | error st => rw [hf] at hm; rw [hm]; exact .missing _ hi hc
    | ok p =>
      obtain ⟨b, a⟩ := p
      cases a with
      | none => rw [hf] at hm; rw [hm]; exact .missing _ hi hc
      | some a =>
        rw [hf] at hm
        obtain ⟨h1, hd⟩ := hm
        exact ⟨h1, hd.inv, (hd.after hc).cells⟩
  · rw [hwrong hl, hc, Cell.alter_wrongType ha]
    exact .kept h he _
  · have ht := htyped a hl
    rw [hc, Cell.alter_typed ha]
    cases hf : f (some a) with
    | error st => rw [hf] at ht; rw [ht]; exact .kept h he _
    | ok p =>
      obtain ⟨b, a'⟩ := p
      cases a' with
      | none =>
        rw [hf] at ht
        obtain ⟨value, now', rfl⟩ := ht
        exact .emptied h he _ _ _
      | some a' => rw [hf] at ht; rw [ht]; exact .changed h he _ _

theorem storeIncrby_does (h : s.Inv) (key : Bytes) (delta now now' : Int) :
    Does s key (storeIncrby s key delta now now')
      (Cell.alter Value.asStr .str (incrSpec delta) (live now (s.cells key))) := by
  refine alter_does h key now (fun hl => ?_) (fun s' hl hi hn => ?_) (fun str hl => ?_)
  · rw [storeIncrby, hl]
  · rw [storeIncrby, hl, incrSpec]
    by_cases ho : addOverflows 0 delta
    · simp [ho]
    · simp only [Option.map_none, Option.getD_none, ho]
      exact ⟨rfl, storeSet_does hi key _ 0 now'⟩
  · rw [storeIncrby, hl, incrSpec]
    cases hp : parseInt64 str with
    | none => simp [hp]
    | some val =>
      by_cases ho : addOverflows val delta
      · simp [hp, ho]
      · simp [hp, ho]

theorem storeListPush_does (h : s.Inv) (key value : Bytes) (atHead : Bool) (now : Int) :
    Does s key (storeListPush s key value atHead now)
      (Cell.alter Value.asList .list (fun l => let l := (l.getD {}).push value atHead; .ok (l.len, some l))
        (live now (s.cells key))) := by
  refine alter_does h key now (fun hl => ?_) (fun s' hl hi hn => ?_) (fun list hl => ?_)
  · rw [storeListPush, hl]
  · rw [storeListPush, hl]
    exact ⟨rfl, .created hi hn () _ _⟩
  · rw [storeListPush, hl]
    rfl

theorem storeListPop_does (h : s.Inv) (key : Bytes) (atHead : Bool) (now now' : Int) :
    Does s key (storeListPop s key atHead now now')
      (Cell.alter Value.asList .list (fun l => match l.bind (·.pop atHead) with
        | none => .error .notFound
        | some (value, l) => .ok (value, if l.len = 0 then none else some l)) (live now (s.cells key))) := by
  refine alter_does h key now (fun hl => ?_) (fun s' hl hi hn => ?_) (fun list hl => ?_)
  · rw [storeListPop, hl]
  · rw [storeListPop, hl]
    rfl
  · rw [storeListPop, hl]
    cases hp : list.pop atHead with
    | none => simp [hp]
    | some p =>
      obtain ⟨value, l⟩ := p
      by_cases h0 : l.len = 0
      · simp only [Option.bind_some, hp, if_pos h0]
        exact ⟨_, _, rfl⟩
      · simp [hp, h0]

theorem storeHashSet_does (h : s.Inv) (key field value : Bytes) (now : Int) :
    Does s key (storeHashSet s key field value now)
      (Cell.alter Value.asHash .hash (fun h => let r := (h.getD {}).set field value; .ok (r.1, some r.2))
        (live now (s.cells key))) := by
  refine alter_does h key now (fun hl => ?_) (fun s' hl hi hn => ?_) (fun hash hl => ?_)
  · rw [storeHashSet, hl]
  · rw [storeHashSet, hl]
    exact ⟨rfl, .created hi hn () _ _⟩
  · rw [storeHashSet, hl]
    rfl

theorem storeHashDel_does (h : s.Inv) (key field : Bytes) (now now' : Int) :
    Does s key (storeHashDel s key field now now')
      (Cell.alter Value.asHash .hash (fun h => match h.map (·.del field) with
        | none => .ok (false, none)
        | some (deleted, h) => .ok (deleted, if h.len = 0 then none else some h))
            (live now (s.cells key))) := by
  refine alter_does h key now (fun hl => ?_) (fun s' hl hi hn => ?_) (fun hash hl => ?_)
  · rw [storeHashDel, hl]
  · rw [storeHashDel, hl]
    rfl
  · rw [storeHashDel, hl]
    by_cases h0 : (hash.del field).2.len = 0
    · simp only [Option.map_some, if_pos h0]
      exact ⟨_, _, rfl⟩
    · simp [h0]

theorem storeZsetAdd_does [LinearOrder D] (h : s.Inv) (key : Bytes) (score : D) (member : Bytes) (now : Int) :
    Does s key (storeZsetAdd s key score member now)
      (Cell.alter Value.asZset .zset (fun z => let r := (z.getD {}).add score member; .ok (r.1, some r.2))
        (live now (s.cells key))) := by
  refine alter_does h key now (fun hl => ?_) (fun s' hl hi hn => ?_) (fun zset hl => ?_)
  · rw [storeZsetAdd, hl]
  · rw [storeZsetAdd, hl]
    exact ⟨rfl, .created hi hn () _ _⟩
  · rw [storeZsetAdd, hl]
    rfl

theorem storeStreamAdd_does (h : s.Inv) (key idSpec : Bytes) (fields : List StreamField) (now now' : Int) :
    Does s key (storeStreamAdd s key idSpec fields now now')
      (Cell.alter Value.asStream .stream (fun st =>
        (resolveNewId st idSpec now').map fun id => (id, some ((st.getD {}).append id fields)))
        (live now (s.cells key))) := by
  refine alter_does h key now (fun hl => ?_) (fun s' hl hi hn => ?_) (fun stream hl => ?_)
  · rw [storeStreamAdd, hl]
  · rw [storeStreamAdd, hl]
    cases resolveNewId none idSpec now' with
    | error st => rfl
    | ok id => exact ⟨rfl, .created hi hn () _ _⟩
  · rw [storeStreamAdd, hl]
    cases hid : resolveNewId (some stream) idSpec now' with
    | error st => simp [hid, Except.map]
    | ok id => simp [hid, Except.map]

/-- An operation keeps the invariant; its answer and the cell it leaves are those of `StoreOp.step`. -/
theorem exec_does [LinearOrder D] (h : s.Inv) (key : Bytes) (now now' : Int) {α : Type} (op : StoreOp D α) :
    Does s key (op.exec s key now now') (op.step now' (live now (s.cells key))) := by
  cases op with
  | del => exact storeDel_does h key now
  | «exists» =>
    rcases lookup_cases h key now with ⟨s', hl, hi, hc, hn⟩ | ⟨e, hl, he, hc⟩
    · simp only [StoreOp.exec, StoreOp.step, storeExists, hl, hn]
      exact .missing _ hi hc
    · simp only [StoreOp.exec, StoreOp.step, storeExists, hl, hc]
      exact .kept h he _
  | type =>
    rcases lookup_cases h key now with ⟨s', hl, hi, hc, hn⟩ | ⟨e, hl, he, hc⟩
    · simp only [StoreOp.exec, StoreOp.step, storeType, hl, hn]
      exact .missing _ hi hc
    · simp only [StoreOp.exec, StoreOp.step, storeType, hl, hc]
      exact .kept h he _
  | getExpiry =>
    rcases lookup_cases h key now with ⟨s', hl, hi, hc, hn⟩ | ⟨e, hl, he, hc⟩
    · simp only [StoreOp.exec, StoreOp.step, storeGetExpiry, hl, hn]
      exact .missing _ hi hc
    · simp only [StoreOp.exec, StoreOp.step, storeGetExpiry, hl, hc]
      exact .kept h he _
  | set value expiresAtMs => exact storeSet_does h key value expiresAtMs now
  | get => exact lookupTyped_does h key _ now
  | incrby delta => exact storeIncrby_does h key delta now now'
  | listPush value atHead => exact storeListPush_does h key value atHead now
  | listPop atHead => exact storeListPop_does h key atHead now now'
  | getList => exact lookupTyped_does h key _ now
  | hashSet field value => exact storeHashSet_does h key field value now
  | hashGet field => exact lookupIn_does h key _ _ now
  | hashDel field => exact storeHashDel_does h key field now now'
  | getHash => exact lookupTyped_does h key _ now
  | zsetAdd score member => exact storeZsetAdd_does h key score member now
  | zsetScore member => exact lookupIn_does h key _ _ now
  | zsetRank member => exact lookupIn_does h key _ _ now
  | getZset => exact lookupTyped_does h key _ now
  | streamAdd idSpec fields => exact storeStreamAdd_does h key idSpec fields now now'
  | getStream => exact lookupTyped_does h key _ now

end Table

/-! ## Reachable stores -/

/-- The stores reached from `storeCreate` by operations, each with any clock readings. -/
inductive Store.Reachable [LinearOrder D] : Store D → Prop
  | create : Store.Reachable storeCreate
  | exec {s : Store D} {α : Type} (h : s.Reachable) (op : StoreOp D α) (key : Bytes) (now now' : Int) :
      Store.Reachable (op.exec s key now now').2

theorem Store.Reachable.inv [LinearOrder D] {s : Store D} (h : s.Reachable) : s.Inv := by
  induction h with
  | create => exact storeCreate_inv
  | exec _ op key now now' ih => exact (exec_does ih key now now' op).inv

/-- In every reachable store the representation invariant holds, and growth would keep exactly the entries. -/
theorem keyspace_representation [LinearOrder D] {s : Store D} (h : s.Reachable) :
    s.Inv ∧ (storeGrow s).buckets.flatten.Perm s.buckets.flatten ∧ (storeGrow s).Inv :=
  ⟨h.inv, h.inv.grow.1, h.inv.grow.2.1⟩

/-- A store with an expired key that a lookup has unlinked, and a list whose last element has been popped. -/
theorem keyspace_representation_after_expiry :
    let s₁ := (StoreOp.exec (storeCreate : Store ℕ) (ascii "a") 0 0 (.set (ascii "x") 5)).2
    let s₂ := (StoreOp.exec s₁ (ascii "b") 1 1 (.listPush (ascii "y") true)).2
    let s₃ := (StoreOp.exec s₂ (ascii "a") 6 6 .get).2
    let s₄ := (StoreOp.exec s₃ (ascii "b") 3 3 (.listPop false)).2
    s₂.count = 2 ∧ s₃.count = 1 ∧ s₄.count = 0 ∧
      s₄.Inv ∧ (storeGrow s₄).buckets.flatten.Perm s₄.buckets.flatten ∧ (storeGrow s₄).Inv := by
  intro s₁ s₂ s₃ s₄
  refine ⟨by decide, by decide, by decide, ?_⟩
  exact keyspace_representation ((((Store.Reachable.create.exec _ _ _ _).exec _ _ _ _).exec _ _ _ _).exec _ _
    _ _)

end PulseDB
