import PulseDB.Raw.Keyspace
import PulseDB.Store.Refinement

/-!
# The operations of the store in memory

* `Kind` : a type of values, as the store reads it and as objects; `strKind`, `listKind`, `hashKind`,
  `zsetKind`, `streamKind`;
* `triple_lookupTyped`, `triple_storeGetValue`, `triple_valueFor` : the value of a key that is expected to be
  of a kind;
* `Outcome`, `Handed`, `Lent` : what an operation answers, where a text is handed over or lent;
* `triple_exec` : every `StoreOp` meets no fault, answers as the operation of `PulseDB.Store.Keyspace` does,
  and leaves a table that stands for the store that this one leaves;
* `runCalls`, `store_memory_safe` : so does every sequence of operations, and `store_destroy` frees
  everything.
-/

namespace PulseDB.Raw
open Lib Lib.Chains Lib.Prog

variable {D : Type}

/-! ## Kinds of values -/

/-- A type of values: how the store reads and builds a value, and what there is in memory. -/
structure Kind (D α τ : Type) where
  type : StoreType
  as : Value D → Option α
  wrap : α → Value D
  stored : ℕ → τ → ValueAt D
  view : τ → α
  as_wrap : ∀ a, as (wrap a) = some a
  as_other : ∀ v, v.type ≠ type → as v = none
  wrap_type : ∀ a, (wrap a).type = type
  exists_stored : ∀ v : ValueAt D, v.view.type = type → ∃ p t, v = stored p t
  view_stored : ∀ p t, (stored p t).view = wrap (view t)
  ptr_stored : ∀ p t, (stored p t).ptr = p

def strKind : Kind D Bytes Bytes where
  type := .string
  as := Value.asStr
  wrap := .str
  stored := .str
  view s := s
  as_wrap _ := rfl
  as_other v hv := by cases v <;> first | rfl | exact absurd rfl hv
  wrap_type _ := rfl
  exists_stored v hv := by
    cases v with
    | str p s => exact ⟨p, s, rfl⟩
    | _ => cases hv
  view_stored _ _ := rfl
  ptr_stored _ _ := rfl

def listKind : Kind D ListValue ListAt where
  type := .list
  as := Value.asList
  wrap := .list
  stored := .list
  view := ListAt.view
  as_wrap _ := rfl
  as_other v hv := by cases v <;> first | rfl | exact absurd rfl hv
  wrap_type _ := rfl
  exists_stored v hv := by
    cases v with
    | list p L => exact ⟨p, L, rfl⟩
    | _ => cases hv
  view_stored _ _ := rfl
  ptr_stored _ _ := rfl

def hashKind : Kind D HashValue HashAt where
  type := .hash
  as := Value.asHash
  wrap := .hash
  stored := .hash
  view := HashAt.view
  as_wrap _ := rfl
  as_other v hv := by cases v <;> first | rfl | exact absurd rfl hv
  wrap_type _ := rfl
  exists_stored v hv := by
    cases v with
    | hash p H => exact ⟨p, H, rfl⟩
    | _ => cases hv
  view_stored _ _ := rfl
  ptr_stored _ _ := rfl

def zsetKind : Kind D (ZSet D) (ZSetAt D) where
  type := .zset
  as := Value.asZset
  wrap := .zset
  stored := .zset
  view := ZSetAt.view
  as_wrap _ := rfl
  as_other v hv := by cases v <;> first | rfl | exact absurd rfl hv
  wrap_type _ := rfl
  exists_stored v hv := by
    cases v with
    | zset p Z => exact ⟨p, Z, rfl⟩
    | _ => cases hv
  view_stored _ _ := rfl
  ptr_stored _ _ := rfl

def streamKind : Kind D Stream StreamAt where
  type := .stream
  as := Value.asStream
  wrap := .stream
  stored := .stream
  view := StreamAt.view
  as_wrap _ := rfl
  as_other v hv := by cases v <;> first | rfl | exact absurd rfl hv
  wrap_type _ := rfl
  exists_stored v hv := by
    cases v with
    | stream p S => exact ⟨p, S, rfl⟩
    | _ => cases hv
  view_stored _ _ := rfl
  ptr_stored _ _ := rfl

/-! ## The value of a key -/

section Values
variable {α β τ : Type} (k : Kind D α τ) {S : StoreAt D} {s : ℕ} {key : Bytes} {xs ys : List (EntryAt D)}
  {e : EntryAt D}

theorem Found.cells_le {v : ValueAt D} (h : Found S key xs e ys) (hv : e.value = some v) :
    v.cells ≤ S.cells s := by
  obtain ⟨l, R, hcells, -⟩ := h.exists_rest s
  rw [hcells, entries_node, hv, Option.elim_some, ← add_assoc]
  exact (Multiset.le_add_left _ _).trans (Multiset.le_add_right _ _)

/-- Another value at the same address is put in the place of the one that has been found. -/
theorem Found.exists_value_rest {p : ℕ} {t : τ} (hS : S.WF) (h : Found S key xs e ys)
    (hv : e.value = some (k.stored p t)) (s : ℕ) :
    ∃ R, S.cells s = (k.stored p t).cells + R ∧ ∀ t', (k.stored p t').WF →
      ∃ S' : StoreAt D, S'.WF ∧ S'.cells s = (k.stored p t').cells + R ∧ S'.view = S.view.setValue key
        (k.wrap (k.view t')) := by
  obtain ⟨l, R, hcells, hput⟩ := h.exists_rest s
  obtain ⟨v, hv', htype, -⟩ := hS.entries e h.mem
  rw [hv] at hv'
  cases hv'
  have hnode : ∀ t', entries.node { e with value := some (k.stored p t') } l =
      (k.stored p t').cells + (cell e.addr (.entry (e.record l)) + cell e.keyPtr (.text e.key)) :=
        fun t' => by
    rw [entries_node]
    simp only [EntryAt.record, hv, Option.map_some, k.ptr_stored, Option.elim_some]
    ac_rfl
  have hsame : { e with value := some (k.stored p t) } = e := by rw [← hv]
  refine ⟨cell e.addr (.entry (e.record l)) + cell e.keyPtr (.text e.key) + R, ?_, fun t' hwf => ?_⟩
  · rw [hcells, ← add_assoc, ← hnode t, hsame]
  · have htype' : (k.stored p t').view.type = e.type := by
      rw [k.view_stored, k.wrap_type, ← htype, k.view_stored, k.wrap_type]
    have hview' : EntryAt.view { e with value := some (k.stored p t') } =
        { e.view with value := k.wrap (k.view t') } := by
      simp only [EntryAt.view, Option.elim_some, k.view_stored]
    obtain ⟨S', hS', hcells', hview⟩ := hput { e with value := some (k.stored p t') }
      (fun e => { e with value := k.wrap (k.view t') }) rfl (fun _ => ⟨_, rfl, htype', hwf⟩) hview'
    exact ⟨S', hS' hS, by rw [hcells', hnode, add_assoc], hview⟩

theorem triple_lookupTyped (hS : S.WF) (now : Int) :
    triple (lookupTyped s key k.type now) (S.cells s) fun r M' => ∃ S' : StoreAt D, S'.WF ∧ M' = S'.cells s ∧
      ((∃ st, r = .error st ∧ (st = .notFound ∨ st = .wrongType) ∧
          PulseDB.lookupTyped S.view key k.as now = (.error st, S'.view)) ∨
      ∃ xs e ys p t, Found S' key xs e ys ∧ e.value = some (k.stored p t) ∧ (k.stored p t).WF ∧
        r = .ok e.addr ∧
        PulseDB.lookupTyped S.view key k.as now = (.ok (k.view t), S'.view)) := by
  refine triple_bind (triple_lookup hS now) fun r M' hr => ?_
  obtain ⟨S', hS', rfl, ⟨rfl, hnone⟩ | ⟨xs, e, ys, hfound, rfl, hsome⟩⟩ := hr
  · exact triple_pure ⟨S', hS', rfl, Or.inl ⟨.notFound, rfl, Or.inl rfl, by rw [PulseDB.lookupTyped, hnone]⟩⟩
  · obtain ⟨l, R, hcells, -⟩ := hfound.exists_rest s
    obtain ⟨v, hv, htype, hwf⟩ := hS'.entries e hfound.mem
    have hvalue : e.view.value = v.view := by rw [EntryAt.view, hv, Option.elim_some]
    refine bind_getAs (b := .entry (e.record l)) (a := e.record l) (by rw [hcells]; exact mem_node) ?_
    by_cases hk : e.type = k.type
    · rw [if_neg (not_not_intro (show (e.record l).type = k.type from hk))]
      obtain ⟨p, t, rfl⟩ := k.exists_stored v (htype.trans hk)
      refine triple_pure ⟨S', hS', rfl, Or.inr ⟨xs, e, ys, p, t, hfound, hv, hwf, rfl, ?_⟩⟩
      rw [PulseDB.lookupTyped, hsome]
      simp only [hvalue, k.view_stored, k.as_wrap]
    · rw [if_pos (show (e.record l).type ≠ k.type from hk)]
      refine triple_pure ⟨S', hS', rfl, Or.inl ⟨.wrongType, rfl, Or.inr rfl, ?_⟩⟩
      rw [PulseDB.lookupTyped, hsome]
      simp only [hvalue, k.as_other v.view (htype ▸ hk)]

theorem triple_storeGetValue (hS : S.WF) (now : Int) :
    triple (storeGetValue s key k.type now) (S.cells s) fun r M' => ∃ S' : StoreAt D, S'.WF ∧
      M' = S'.cells s ∧
      ((∃ st, r = .error st ∧ PulseDB.lookupTyped S.view key k.as now = (.error st, S'.view)) ∨
      ∃ xs e ys p t, Found S' key xs e ys ∧ e.value = some (k.stored p t) ∧ (k.stored p t).WF ∧ r = .ok p ∧
        PulseDB.lookupTyped S.view key k.as now = (.ok (k.view t), S'.view)) := by
  refine triple_bind (triple_lookupTyped k hS now) fun r M' hr => ?_
  obtain ⟨S', hS', rfl, ⟨st, rfl, -, hlook⟩ | ⟨xs, e, ys, p, t, hfound, hv, hwf, rfl, hlook⟩⟩ := hr
  · exact triple_pure ⟨S', hS', rfl, Or.inl ⟨st, rfl, hlook⟩⟩
  · obtain ⟨l, R, hcells, -⟩ := hfound.exists_rest s
    refine bind_getAs (b := .entry (e.record l)) (a := e.record l) (by rw [hcells]; exact mem_node) ?_
    refine bind_demand (a := p) (by simp only [EntryAt.record, hv, Option.map_some, k.ptr_stored])
      (triple_pure ?_)
    exact ⟨S', hS', rfl, Or.inr ⟨xs, e, ys, p, t, hfound, hv, hwf, rfl, hlook⟩⟩

/-- A new entry with an empty value, in whose place another value can be put. -/
theorem triple_newValue {empty : Object D} (hS : S.WF) :
    triple (newValue s key k.type empty) (S.cells s) fun p M' => ∃ R, M' = cell p empty + R ∧
      ∀ t', (k.stored p t').WF →
      ∃ S' : StoreAt D, S'.WF ∧ S'.cells s = (k.stored p t').cells + R ∧
        S'.view = PulseDB.createEntry S.view key (k.wrap (k.view t')) 0 := by
  refine triple_bind (triple_createEntry hS k.type) fun addr M' hM => ?_
  obtain ⟨keyPtr, l, R, rfl, hplace⟩ := hM
  refine bind_new fun p => ?_
  let e : EntryAt D := ⟨addr, keyPtr, key, hash64 key, k.type, 0, none⟩
  have hnode : ∀ t, entries.node { e with value := some (k.stored p t) } l =
      (k.stored p t).cells + (cell addr (.entry { e.record l with v := some p }) + cell keyPtr (.text key)) :=
        fun t => by
    rw [entries_node]
    simp only [EntryAt.record, Option.map_some, k.ptr_stored, Option.elim_some, e]
    ac_rfl
  refine bind_getAs (b := .entry (e.record l)) (a := e.record l) (by simp [entries_node, e]) ?_
  refine bind_save (b := .entry (e.record l)) (N := cell p empty + (cell keyPtr (.text key) + R)) ?_
    (triple_pure ?_)
  · rw [entries_node, Option.elim_none, add_zero]
    simp only [e]
    ac_rfl
  · refine ⟨cell addr (.entry { e.record l with v := some p }) + cell keyPtr (.text key) + R, by ac_rfl,
      fun t' hwf => ?_⟩
    have htype : (k.stored p t').view.type = k.type := by rw [k.view_stored, k.wrap_type]
    obtain ⟨S'', hS'', hcells, hview⟩ := hplace { e with value := some (k.stored p t') } rfl ⟨_, rfl, htype,
      hwf⟩ rfl rfl
    refine ⟨S'', hS'', by rw [hcells, hnode, add_assoc], ?_⟩
    rw [hview]
    simp only [EntryAt.view, Option.elim_some, k.view_stored, e]

/-- The value of a key for a write: it is of the kind, and the empty one if the key has not been there. -/
theorem triple_valueFor {empty : Object D} {t₀ : τ} (hS : S.WF) (now : Int)
    (hempty : ∀ p, (k.stored p t₀).cells = cell p empty) (hwf₀ : ∀ p, (k.stored p t₀).WF) :
    triple (valueFor s key k.type empty now) (S.cells s) fun r M' =>
      (r = .error .wrongType ∧ ∃ S' : StoreAt D, S'.WF ∧ M' = S'.cells s ∧
        PulseDB.lookupTyped S.view key k.as now = (.error .wrongType, S'.view)) ∨
      ∃ p t R store, r = .ok p ∧ (k.stored p t).WF ∧ M' = (k.stored p t).cells + R ∧
        ((PulseDB.lookupTyped S.view key k.as now = (.ok (k.view t), store) ∧ ∀ t', (k.stored p t').WF →
          ∃ S' : StoreAt D, S'.WF ∧ S'.cells s = (k.stored p t').cells + R ∧
            S'.view = store.setValue key (k.wrap (k.view t'))) ∨
        (t = t₀ ∧ PulseDB.lookupTyped S.view key k.as now = (.error .notFound, store) ∧
          ∀ t', (k.stored p t').WF →
          ∃ S' : StoreAt D, S'.WF ∧ S'.cells s = (k.stored p t').cells + R ∧
            S'.view = PulseDB.createEntry store key (k.wrap (k.view t')) 0)) := by
  refine triple_bind (triple_lookupTyped k hS now) fun r M' hr => ?_
  obtain ⟨S', hS', rfl, ⟨st, rfl, rfl | rfl, hlook⟩ | ⟨xs, e, ys, p, t, hfound, hv, hwf, rfl, hlook⟩⟩ := hr
  · refine triple_bind (triple_newValue k hS') fun p M' hM => triple_pure ?_
    obtain ⟨R, rfl, hput⟩ := hM
    exact Or.inr ⟨p, t₀, R, S'.view, rfl, hwf₀ p, by rw [hempty], Or.inr ⟨rfl, hlook, hput⟩⟩
  · exact triple_pure (Or.inl ⟨rfl, S', hS', rfl, hlook⟩)
  · obtain ⟨l, R₀, hcells, -⟩ := hfound.exists_rest s
    obtain ⟨R, hrest, hput⟩ := hfound.exists_value_rest k hS' hv s
    refine bind_getAs (b := .entry (e.record l)) (a := e.record l) (by rw [hcells]; exact mem_node) ?_
    refine bind_demand (a := p) (by simp only [EntryAt.record, hv, Option.map_some, k.ptr_stored])
      (triple_pure ?_)
    exact Or.inr ⟨p, t, R, S'.view, rfl, hwf, hrest, Or.inl ⟨hlook, hput⟩⟩

/-- The outcome `x` of an operation of `PulseDB.Store.Keyspace`: its answer, and a table that stands for the
store that it leaves. -/
inductive Outcome (s : ℕ) (x : α × Store D) (r : α) (M : Multiset (ℕ × Object D)) : Prop
  | intro (S : StoreAt D) (hS : S.WF) (hM : M = S.cells s) (hx : x = (r, S.view))

theorem triple_follow {read : ℕ → HeapProg (Object D) α} (hS : S.WF) (now : Int)
    (hread : ∀ p t W, (k.stored p t).WF → (k.stored p t).cells ≤ W → triple (read p) W fun r M' =>
      r = k.view t ∧ M' = W) :
    triple (storeGetValue s key k.type now >>= follow read) (S.cells s)
      (Outcome s (PulseDB.lookupTyped S.view key k.as now)) := by
  refine triple_bind (triple_storeGetValue k hS now) fun r M' hr => ?_
  obtain ⟨S', hS', rfl, ⟨st, rfl, hlook⟩ | ⟨xs, e, ys, p, t, hfound, hv, hwf, rfl, hlook⟩⟩ := hr
  · exact triple_pure ⟨S', hS', rfl, hlook⟩
  · refine triple_bind (hread p t _ hwf (hfound.cells_le hv)) fun a M' ha => ?_
    obtain ⟨rfl, rfl⟩ := ha
    exact triple_pure ⟨S', hS', rfl, hlook⟩

section LookupIn
variable {store store' : Store D} {as : Value D → Option α} {search : α → Option β} {now : Int} {a : α}

theorem lookupIn_none (h : PulseDB.lookupTyped store key as now = (.ok a, store')) (ha : search a = none) :
    lookupIn store key as search now = (.error .notFound, store') := by
  rw [lookupIn, h]
  simp only [ha]

theorem lookupIn_some {b : β} (h : PulseDB.lookupTyped store key as now = (.ok a, store'))
    (ha : search a = some b) :
    lookupIn store key as search now = (.ok b, store') := by
  rw [lookupIn, h]
  simp only [ha]

end LookupIn

/-- What a write of a kind does to the store: `f` changes the value of the key. -/
def altered (f : α → β × α) (empty : α) (store : Store D) (key : Bytes) (now : Int) :
    Except StoreStatus β × Store D :=
  match PulseDB.lookupTyped store key k.as now with
  | (.error .wrongType, store) => (.error .wrongType, store)
  | (.ok a, store) => (.ok (f a).1, store.setValue key (k.wrap (f a).2))
  | (.error _, store) => (.ok (f empty).1, PulseDB.createEntry store key (k.wrap (f empty).2) 0)

theorem triple_upsert {empty : Object D} {write : ℕ → HeapProg (Object D) β} {f : α → β × α} (t₀ : τ)
    (hS : S.WF) (now : Int)
    (hempty : ∀ p, (k.stored p t₀).cells = cell p empty) (hwf₀ : ∀ p, (k.stored p t₀).WF)
    (hwrite : ∀ p t, (k.stored p t).WF →
      (t = t₀ ∨ ∃ store, PulseDB.lookupTyped S.view key k.as now = (.ok (k.view t), store)) →
      triple (write p) (k.stored p t).cells fun b M' =>
        ∃ t', (k.stored p t').WF ∧ M' = (k.stored p t').cells ∧ f (k.view t) = (b, k.view t')) :
    triple (upsert s key k.type empty now write) (S.cells s)
      (Outcome s (altered k f (k.view t₀) S.view key now)) := by
  refine triple_bind (triple_valueFor k hS now hempty hwf₀) fun r M' hr => ?_
  obtain ⟨rfl, S', hS', rfl, hlook⟩ | ⟨p, t, R, store, rfl, hwf, rfl, hput⟩ := hr
  · refine triple_pure ⟨S', hS', rfl, ?_⟩
    rw [altered, hlook]
  · have hold : t = t₀ ∨ ∃ store, PulseDB.lookupTyped S.view key k.as now = (.ok (k.view t), store) :=
      hput.symm.imp And.left fun h => ⟨store, h.1⟩
    refine bind_call rfl (hwrite p t hwf hold) fun b M' hb => triple_pure ?_
    obtain ⟨t', hwf', rfl, hf⟩ := hb
    rcases hput with ⟨hlook, hput⟩ | ⟨rfl, hlook, hput⟩
    · obtain ⟨S', hS', hcells, hview⟩ := hput t' hwf'
      refine ⟨S', hS', hcells.symm, ?_⟩
      rw [altered, hlook, hview]
      simp only [hf]
    · obtain ⟨S', hS', hcells, hview⟩ := hput t' hwf'
      refine ⟨S', hS', hcells.symm, ?_⟩
      rw [altered, hlook, hview]
      simp only [hf]

end Values

/-! ## Keys and strings -/

section Strings
variable {S : StoreAt D} {s : ℕ} {key : Bytes}

theorem triple_storeExists (hS : S.WF) (now : Int) :
    triple (storeExists s key now) (S.cells s) (Outcome s (PulseDB.storeExists S.view key now)) := by
  refine triple_bind (triple_lookup hS now) fun r M' hr => ?_
  obtain ⟨S', hS', rfl, ⟨rfl, hlook⟩ | ⟨xs, e, ys, -, rfl, hlook⟩⟩ := hr
  · exact triple_pure ⟨S', hS', rfl, by rw [PulseDB.storeExists, hlook]; rfl⟩
  · exact triple_pure ⟨S', hS', rfl, by rw [PulseDB.storeExists, hlook]; rfl⟩

theorem triple_storeType (hS : S.WF) (now : Int) :
    triple (storeType s key now) (S.cells s) (Outcome s (PulseDB.storeType S.view key now)) := by
  refine triple_bind (triple_lookup hS now) fun r M' hr => ?_
  obtain ⟨S', hS', rfl, ⟨rfl, hlook⟩ | ⟨xs, e, ys, hfound, rfl, hlook⟩⟩ := hr
  · exact triple_pure ⟨S', hS', rfl, by rw [PulseDB.storeType, hlook]; rfl⟩
  · obtain ⟨l, R, hcells, -⟩ := hfound.exists_rest s
    obtain ⟨v, hv, htype, -⟩ := hS'.entries e hfound.mem
    refine bind_getAs (b := .entry (e.record l)) (a := e.record l) (by rw [hcells]; exact mem_node)
      (triple_pure ?_)
    refine ⟨S', hS', rfl, ?_⟩
    have hview : e.view.value.type = e.type := by rw [EntryAt.view, hv, Option.elim_some, htype]
    rw [PulseDB.storeType, hlook]
    exact congrArg (fun t => (some t, S'.view)) hview

theorem triple_storeGetExpiry (hS : S.WF) (now : Int) :
    triple (storeGetExpiry s key now) (S.cells s) (Outcome s (PulseDB.storeGetExpiry S.view key now)) := by
  refine triple_bind (triple_lookup hS now) fun r M' hr => ?_
  obtain ⟨S', hS', rfl, ⟨rfl, hlook⟩ | ⟨xs, e, ys, hfound, rfl, hlook⟩⟩ := hr
  · exact triple_pure ⟨S', hS', rfl, by rw [PulseDB.storeGetExpiry, hlook]⟩
  · obtain ⟨l, R, hcells, -⟩ := hfound.exists_rest s
    refine bind_getAs (b := .entry (e.record l)) (a := e.record l) (by rw [hcells]; exact mem_node)
      (triple_pure ?_)
    exact ⟨S', hS', rfl, by rw [PulseDB.storeGetExpiry, hlook]; rfl⟩

/-- An entry of type string without a value, in whose place one with the new value can be put. -/
theorem triple_entryForString (hS : S.WF) (now : Int) :
    triple (entryForString s key now) (S.cells s) fun addr M' => ∃ e l R, e.addr = addr ∧ e.value = none ∧
      e.type = .string ∧
      M' = entries.node e l + R ∧ ∀ value expiresAt text, ∃ S' : StoreAt D, S'.WF ∧
        S'.cells s = entries.node { e with expiresAt := expiresAt, value := some (.str text value) } l + R ∧
        S'.view = PulseDB.storeSet S.view key value expiresAt now := by
  refine triple_bind (triple_lookup hS now) fun r M' hr => ?_
  obtain ⟨S', hS', rfl, ⟨rfl, hlook⟩ | ⟨xs, e, ys, hfound, rfl, hlook⟩⟩ := hr
  · refine triple_mono (triple_createEntry hS' .string) fun addr M' hM => ?_
    obtain ⟨keyPtr, l, R, rfl, hplace⟩ := hM
    refine ⟨_, l, R, rfl, rfl, rfl, rfl, fun value expiresAt text => ?_⟩
    obtain ⟨S'', hS'', hcells, hview⟩ := hplace ⟨addr, keyPtr, key, hash64 key, .string, expiresAt,
      some (.str text value)⟩
      rfl ⟨_, rfl, rfl, trivial⟩ rfl rfl
    refine ⟨S'', hS'', hcells, ?_⟩
    rw [hview, PulseDB.storeSet, hlook]
    rfl
  · obtain ⟨l, R, hcells, hput⟩ := hfound.exists_rest s
    rw [hcells]
    refine triple_then (triple_entryClearValue (hS'.entries e hfound.mem)) ?_
    refine bind_getAs (b := .entry (e.cleared.record l)) (a := e.cleared.record l)
      (mem_node (e := e.cleared)) ?_
    let e' : EntryAt D := { e with type := .string, value := none }
    refine bind_save (b := .entry (e.cleared.record l)) (N := cell e.keyPtr (.text e.key) + R) ?_
      (triple_pure ?_)
    · rw [entries_node]
      simp only [EntryAt.cleared, Option.elim_none, add_zero]
      ac_rfl
    · refine ⟨e', l, R, rfl, rfl, rfl, ?_, fun value expiresAt text => ?_⟩
      · rw [entries_node]
        simp only [e', EntryAt.record, EntryAt.cleared, Option.elim_none, Option.map_none, add_zero]
        ac_rfl
      · obtain ⟨S'', hS'', hcells', hview⟩ :=
          hput { e' with expiresAt := expiresAt, value := some (.str text value) }
          (fun x => { x with value := .str value, expiresAt := expiresAt }) rfl
            (fun _ => ⟨_, rfl, rfl, trivial⟩) rfl
        refine ⟨S'', hS'' hS', hcells', ?_⟩
        rw [hview, PulseDB.storeSet, hlook]

theorem triple_storeSet (hS : S.WF) (value : Bytes) (expiresAt now : Int) :
    triple (storeSet s key value expiresAt now) (S.cells s) fun _ M' => ∃ S' : StoreAt D, S'.WF ∧
      M' = S'.cells s ∧
      S'.view = PulseDB.storeSet S.view key value expiresAt now := by
  refine triple_bind (triple_entryForString hS now) fun addr M' hM => ?_
  obtain ⟨e, l, R, rfl, hnone, htype, rfl, hput⟩ := hM
  refine bind_new fun text => ?_
  refine bind_getAs (b := .entry (e.record l)) (a := e.record l) (Multiset.mem_add.mpr (Or.inr mem_node)) ?_
  obtain ⟨S', hS', hcells, hview⟩ := hput value expiresAt text
  refine triple_save (b := .entry (e.record l))
    (N := cell text (.text value) + (cell e.keyPtr (.text e.key) + R)) ?_ ⟨S', hS', ?_, hview⟩
  · rw [entries_node, hnone, Option.elim_none, add_zero]
    ac_rfl
  · rw [hcells, entries_node]
    simp only [EntryAt.record, Option.elim_some, Option.map_some, ValueAt.cells, ValueAt.ptr]
    ac_rfl

theorem triple_storeIncrby (hS : S.WF) (delta now now' : Int) :
    triple (storeIncrby s key delta now now') (S.cells s)
      (Outcome s (PulseDB.storeIncrby S.view key delta now now')) := by
  refine triple_bind (triple_lookupTyped strKind hS now) fun r M' hr => ?_
  obtain ⟨S', hS', rfl, ⟨st, rfl, rfl | rfl, hlook⟩ | ⟨xs, e, ys, p, str, hfound, hv, -, rfl, hlook⟩⟩ := hr
  · -- the key is not there: the number counts from 0
    have hincr : PulseDB.storeIncrby S.view key delta now now' =
        if addOverflows 0 delta then (.error .overflow, S'.view)
        else (.ok (0 + delta), PulseDB.storeSet S'.view key (decInt (0 + delta)) 0 now') := by
      rw [PulseDB.storeIncrby, show PulseDB.lookupTyped S.view key Value.asStr now = _ from hlook]
    rw [hincr]
    dsimp only
    split
    · exact triple_pure ⟨S', hS', rfl, rfl⟩
    · refine triple_bind (triple_storeSet hS' (decInt (0 + delta)) 0 now') fun _ M' hM => triple_pure ?_
      obtain ⟨S'', hS'', rfl, hview⟩ := hM
      exact ⟨S'', hS'', rfl, by rw [hview]⟩
  · refine triple_pure ⟨S', hS', rfl, ?_⟩
    rw [PulseDB.storeIncrby, show PulseDB.lookupTyped S.view key Value.asStr now = _ from hlook]
  · obtain ⟨l, R, hcells, hput⟩ := hfound.exists_rest s
    have hlook' : PulseDB.lookupTyped S.view key Value.asStr now = (.ok str, S'.view) := hlook
    refine bind_getAs (b := .entry (e.record l)) (a := e.record l) (by rw [hcells]; exact mem_node) ?_
    refine bind_demand (a := p) (by simp only [EntryAt.record, hv]; rfl) ?_
    refine bind_getAs (b := .text str) (a := str) (Multiset.mem_of_le (hfound.cells_le hv)
      (by simp [strKind, ValueAt.cells])) ?_
    cases hparse : parseInt64 str with
    | none =>
      refine triple_pure ⟨S', hS', rfl, ?_⟩
      rw [PulseDB.storeIncrby, hlook']
      simp only [hparse]
    | some val =>
      have hincr : PulseDB.storeIncrby S.view key delta now now' = if addOverflows val delta then
        (.error .overflow, S'.view)
          else (.ok (val + delta), S'.view.setValue key (.str (decInt (val + delta)))) := by
        rw [PulseDB.storeIncrby, hlook']
        simp only [hparse]
      rw [hincr]
      dsimp only
      split
      · exact triple_pure ⟨S', hS', rfl, rfl⟩
      · -- the old text is freed, and the entry gets the new one
        generalize decInt (val + delta) = buf
        have hptr : (e.record l).v = some p := by
          simp only [EntryAt.record, hv]
          rfl
        rw [hcells, entries_node, hv, hptr]
        refine bind_release (b := .text str) (N := cell e.addr (.entry (e.record l)) +
          (cell e.keyPtr (.text e.key) + R)) ?_ (bind_new fun text => bind_save (b := .entry (e.record l))
            (N := cell text (.text buf) + (cell e.keyPtr (.text e.key) + R)) (by ac_rfl) (triple_pure ?_))
        · simp only [Option.elim_some, ValueAt.cells, strKind]
          ac_rfl
        · obtain ⟨v, hv', htype, -⟩ := hS'.entries e hfound.mem
          rw [hv] at hv'
          cases hv'
          obtain ⟨S'', hS'', hcells', hview⟩ := hput { e with value := some (.str text buf) }
            (fun x => { x with value := .str buf }) rfl (fun _ => ⟨_, rfl, htype, trivial⟩) rfl
          refine ⟨S'', hS'' hS', ?_, by rw [hview]; rfl⟩
          rw [hcells', entries_node]
          simp only [EntryAt.record, Option.elim_some, Option.map_some, ValueAt.cells, ValueAt.ptr]
          ac_rfl

end Strings

/-! ## Lists and hashes -/

section Lists
variable {S : StoreAt D} {s : ℕ} {key : Bytes}

theorem triple_dropEmpty {α : Type} {a : α} {len : ℕ} (hS : S.WF) (now : Int) (N : Multiset (ℕ × Object D)) :
    triple (do
      if len = 0 then let _ ← storeDel s key now
      return a) (N + S.cells s) fun r M' => r = a ∧ ∃ S' : StoreAt D, S'.WF ∧ M' = N + S'.cells s ∧
        S'.view = if len = 0 then (PulseDB.storeDel S.view key now).2 else S.view := by
  by_cases hlen : len = 0
  · simp only [hlen, if_true]
    refine bind_call (add_comm _ _) (triple_storeDel hS now) fun r M' hr => triple_pure ⟨rfl, ?_⟩
    obtain ⟨S', hS', rfl, hdel⟩ := hr
    exact ⟨S', hS', add_comm _ _, by rw [hdel]⟩
  · simp only [hlen, if_false]
    exact triple_pure ⟨rfl, S, hS, rfl, rfl⟩

theorem altered_listPush (store : Store D) (key value : Bytes) (atHead : Bool) (now : Int) :
    altered listKind (fun l => ((l.push value atHead).len, l.push value atHead)) {} store key now =
      PulseDB.storeListPush store key value atHead now := by
  rw [altered, PulseDB.storeListPush, show listKind.as = Value.asList (D := D) from rfl]
  rcases PulseDB.lookupTyped store key Value.asList now with ⟨st | l, store'⟩
  · cases st <;> rfl
  · rfl

theorem triple_storeListPush (hS : S.WF) (value : Bytes) (atHead : Bool) (now : Int) :
    triple (storeListPush s key value atHead now) (S.cells s)
      (Outcome s (PulseDB.storeListPush S.view key value atHead now)) := by
  rw [← altered_listPush]
  refine triple_upsert listKind {} hS now (fun p => add_zero _) (fun p => trivial) fun p L hL _ => ?_
  refine triple_mono (triple_listPush hL atHead) fun len M' hM => ?_
  obtain ⟨L', hwf, rfl, hview, rfl⟩ := hM
  refine ⟨L', hwf, rfl, ?_⟩
  rw [show listKind.view L' = L'.view from rfl, hview]
  rfl

/-- The outcome `x` of an operation that hands a text over: the caller frees it, whether or not the key has
gone. -/
inductive Handed (s : ℕ) (x : Except StoreStatus Bytes × Store D) :
    Except StoreStatus ℕ → Multiset (ℕ × Object D) → Prop
  | error {st : StoreStatus} {M : Multiset (ℕ × Object D)} (h : Outcome s x (.error st) M) :
    Handed s x (.error st) M
  | ok {ptr : ℕ} {value : Bytes} {M : Multiset (ℕ × Object D)} (h : Outcome s x (.ok value) M) :
      Handed s x (.ok ptr) (cell ptr (.text value) + M)

theorem triple_popText (hS : S.WF) (atHead : Bool) (now now' : Int) :
    triple (storeListPop s key atHead now now') (S.cells s)
      (Handed s (PulseDB.storeListPop S.view key atHead now now')) := by
  refine triple_bind (triple_storeGetValue listKind hS now) fun r M' hr => ?_
  obtain ⟨S', hS', rfl, ⟨st, rfl, hlook⟩ | ⟨xs, e, ys, p, L, hfound, hv, hwf, rfl, hlook⟩⟩ := hr
  · have hlook' : PulseDB.lookupTyped S.view key Value.asList now = (.error st, S'.view) := hlook
    refine triple_pure (.error ⟨S', hS', rfl, ?_⟩)
    rw [PulseDB.storeListPop, hlook']
  · have hlook' : PulseDB.lookupTyped S.view key Value.asList now = (.ok L.view, S'.view) := hlook
    obtain ⟨R, hcells, hput⟩ := hfound.exists_value_rest listKind hS' hv s
    refine bind_call hcells (triple_listPop hwf atHead) fun r M' hr => ?_
    obtain ⟨rfl, hnone, rfl⟩ | ⟨ptr, value, L', rfl, hwf', hsome, rfl⟩ := hr
    · refine triple_pure (.error ⟨S', hS', hcells.symm, ?_⟩)
      rw [PulseDB.storeListPop, hlook']
      simp only [hnone]
    · obtain ⟨S'', hS'', hcells'', hview⟩ := hput L' hwf'
      rw [add_assoc, show L'.cells p + R = S''.cells s from hcells''.symm]
      refine triple_mono (triple_dropEmpty hS'' now' _) fun r M' hr => ?_
      obtain ⟨rfl, S₃, hS₃, rfl, hview₃⟩ := hr
      refine .ok ⟨S₃, hS₃, rfl, ?_⟩
      rw [PulseDB.storeListPop, hlook']
      simp only [hsome]
      rw [hview₃, hview]
      rfl

theorem triple_storeListPop (hS : S.WF) (atHead : Bool) (now now' : Int) :
    triple (storeListPop s key atHead now now' >>= follow takeText) (S.cells s)
      (Outcome s (PulseDB.storeListPop S.view key atHead now now')) := by
  refine triple_bind (triple_popText hS atHead now now') fun r M' hr => ?_
  obtain ⟨hout⟩ | ⟨hout⟩ := hr
  · exact triple_pure hout
  · refine triple_bind triple_takeText fun text M' ht => ?_
    obtain ⟨rfl, rfl⟩ := ht
    exact triple_pure hout

theorem altered_hashSet (store : Store D) (key field value : Bytes) (now : Int) :
    altered hashKind (fun h => h.set field value) {} store key now =
      PulseDB.storeHashSet store key field value now := by
  rw [altered, PulseDB.storeHashSet, show hashKind.as = Value.asHash (D := D) from rfl]
  rcases PulseDB.lookupTyped store key Value.asHash now with ⟨st | h, store'⟩
  · cases st <;> rfl
  · rfl

theorem triple_storeHashSet (hS : S.WF) (field value : Bytes) (now : Int) :
    triple (storeHashSet s key field value now) (S.cells s)
      (Outcome s (PulseDB.storeHashSet S.view key field value now)) := by
  rw [← altered_hashSet]
  exact triple_upsert hashKind {} hS now (fun p => HashAt.cells_empty) (fun p => ⟨List.length_replicate⟩)
    fun p H hH _ => triple_hashSet hH

/-- The outcome `x` of an operation that points at a text of the store. -/
inductive Lent (s : ℕ) (x : Except StoreStatus Bytes × Store D) :
    Except StoreStatus ℕ → Multiset (ℕ × Object D) → Prop
  | error {st : StoreStatus} {M : Multiset (ℕ × Object D)} (h : Outcome s x (.error st) M) :
    Lent s x (.error st) M
  | ok {ptr : ℕ} {value : Bytes} {M : Multiset (ℕ × Object D)} (h : Outcome s x (.ok value) M)
      (hmem : (ptr, Object.text value) ∈ M) : Lent s x (.ok ptr) M

theorem triple_fieldText (hS : S.WF) (field : Bytes) (now : Int) :
    triple (storeHashGet s key field now) (S.cells s)
      (Lent s (PulseDB.storeHashGet S.view key field now)) := by
  refine triple_bind (triple_storeGetValue hashKind hS now) fun r M' hr => ?_
  obtain ⟨S', hS', rfl, ⟨st, rfl, hlook⟩ | ⟨xs, e, ys, p, H, hfound, hv, hwf, rfl, hlook⟩⟩ := hr
  · have hlook' : PulseDB.lookupTyped S.view key Value.asHash now = (.error st, S'.view) := hlook
    refine triple_pure (.error ⟨S', hS', rfl, ?_⟩)
    rw [PulseDB.storeHashGet, lookupIn, hlook']
  · have hlook' : PulseDB.lookupTyped S.view key Value.asHash now = (.ok H.view, S'.view) := hlook
    have hle : H.cells p ≤ S'.cells s := hfound.cells_le hv
    refine triple_bind (triple_hashFind hwf hle) fun r M' hr => ?_
    obtain ⟨rfl, ⟨rfl, hnone⟩ | ⟨as, n, bs, hsplit, has, hn, rfl⟩⟩ := hr
    · refine triple_pure (.error ⟨S', hS', rfl, lookupIn_none hlook' ?_⟩)
      rw [HashValue.get, HashAt.view, chain_map, List.find?_map, hnone]
      rfl
    · have hfind : (chain H.chains (HashValue.slot field)).find? (HashField.named field ∘ FieldAt.view) =
          some n := by
        rw [hsplit, find?_split has hn]
      obtain ⟨l, hnode⟩ := hashFields.mem_seg
        (show n ∈ chain H.chains (HashValue.slot field) by simp [hsplit]) none
      have hmem : chain H.chains (HashValue.slot field) ∈ H.chains := by
        rw [chain_eq (HashAt.WF.slot_lt hwf field)]
        exact List.getElem_mem _
      have hcells := (hnode.trans (hashFields.seg_le_table (HashAt.array H.len) p hmem)).trans hle
      have htext : (n.valuePtr, Object.text n.value) ∈ S'.cells s :=
        Multiset.mem_of_le hcells (by simp [hashFields_node])
      refine bind_getAs (b := .hashField (n.record l)) (a := n.record l) ?_ (triple_pure ?_)
      · exact Multiset.mem_of_le hcells (by simp [hashFields_node])
      · refine .ok ⟨S', hS', rfl, lookupIn_some hlook' ?_⟩ htext
        rw [HashValue.get, HashAt.view, chain_map, List.find?_map, hfind]
        rfl

theorem triple_storeHashGet (hS : S.WF) (field : Bytes) (now : Int) :
    triple (storeHashGet s key field now >>= follow (getAs Object.asText)) (S.cells s)
      (Outcome s (PulseDB.storeHashGet S.view key field now)) := by
  refine triple_bind (triple_fieldText hS field now) fun r M' hr => ?_
  obtain ⟨hout⟩ | ⟨hout, hmem⟩ := hr
  · exact triple_pure hout
  · exact bind_getAs hmem (triple_pure hout)

theorem triple_storeHashDel (hS : S.WF) (field : Bytes) (now now' : Int) :
    triple (storeHashDel s key field now now') (S.cells s)
      (Outcome s (PulseDB.storeHashDel S.view key field now now')) := by
  refine triple_bind (triple_storeGetValue hashKind hS now) fun r M' hr => ?_
  obtain ⟨S', hS', rfl, ⟨st, rfl, hlook⟩ | ⟨xs, e, ys, p, H, hfound, hv, hwf, rfl, hlook⟩⟩ := hr
  · have hlook' : PulseDB.lookupTyped S.view key Value.asHash now = (.error st, S'.view) := hlook
    rw [PulseDB.storeHashDel, hlook']
    cases st <;> exact triple_pure ⟨S', hS', rfl, rfl⟩
  · have hlook' : PulseDB.lookupTyped S.view key Value.asHash now = (.ok H.view, S'.view) := hlook
    obtain ⟨R, hcells, hput⟩ := hfound.exists_value_rest hashKind hS' hv s
    refine bind_call hcells (triple_hashDel hwf) fun r M' hr => ?_
    obtain ⟨deleted, len⟩ := r
    obtain ⟨H', hwf', rfl, hdel, rfl⟩ := hr
    obtain ⟨S'', hS'', hcells'', hview⟩ := hput H' hwf'
    rw [show H'.cells p + R = S''.cells s from hcells''.symm, ← zero_add (S''.cells s)]
    refine triple_mono (triple_dropEmpty hS'' now' 0) fun r M' hr => ?_
    obtain ⟨rfl, S₃, hS₃, rfl, hview₃⟩ := hr
    refine ⟨S₃, hS₃, zero_add _, ?_⟩
    rw [PulseDB.storeHashDel, hlook']
    simp only [hdel]
    rw [hview₃, hview]
    rfl

end Lists

/-! ## Sorted sets and streams -/

section ZSets
variable [LinearOrder D] {S : StoreAt D} {s : ℕ} {key : Bytes}

theorem altered_zsetAdd (store : Store D) (key : Bytes) (score : D) (member : Bytes) (now : Int) :
    altered zsetKind (fun z => z.add score member) {} store key now =
      PulseDB.storeZsetAdd store key score member now := by
  rw [altered, PulseDB.storeZsetAdd, show zsetKind.as = Value.asZset (D := D) from rfl]
  rcases PulseDB.lookupTyped store key Value.asZset now with ⟨st | z, store'⟩
  · cases st <;> rfl
  · rfl

theorem zset_inv {store store' : Store D} (h : store.Valid) {z : ZSet D} {now : Int}
    (hlook : PulseDB.lookupTyped store key Value.asZset now = (.ok z, store')) : z.Inv := by
  rcases lookupTyped_cases h.inv key Value.asZset now with ⟨s', hl, -⟩ | ⟨e, hl, -⟩ | ⟨e, a, hl,
    hwalk, -, has⟩
  · rw [hl] at hlook
    cases hlook
  · rw [hl] at hlook
    cases hlook
  · rw [hl] at hlook
    cases hlook
    have hcell := h.cells key e.cell (by rw [Store.cells_of_walk hwalk]; rfl)
    have hvalue := hcell.value
    rw [show e.cell.value = .zset z from Value.eq_of_asZset has] at hvalue
    exact hvalue.1

theorem triple_storeZsetAdd (hS : S.WF) (hvalid : S.view.Valid) (score : D) (member : Bytes) (now : Int) :
    triple (storeZsetAdd s key score member now) (S.cells s)
      (Outcome s (PulseDB.storeZsetAdd S.view key score member now)) := by
  rw [← altered_zsetAdd]
  refine triple_upsert zsetKind {} hS now (fun p => ?_) (fun p => ZSetAt.wf_empty) fun p Z hZ hold => ?_
  · exact add_zero _
  · refine triple_zsetAdd hZ ?_
    rcases hold with rfl | ⟨store, hlook⟩
    · exact ZSet.inv_empty
    · exact zset_inv hvalid hlook

omit [LinearOrder D] in
theorem triple_zsetNode (hS : S.WF) (member : Bytes) (now : Int) :
    triple (zsetNode s key member now) (S.cells s) fun r M' => ∃ S' : StoreAt D, S'.WF ∧ M' = S'.cells s ∧
      ((∃ st, r = .error st ∧ PulseDB.lookupTyped S.view key Value.asZset now = (.error st, S'.view)) ∨
      ∃ (p : ℕ) (Z : ZSetAt D), Z.WF ∧ Z.cells p ≤ S'.cells s ∧
        PulseDB.lookupTyped S.view key Value.asZset now = (.ok Z.view, S'.view) ∧
        ((r = .error .notFound ∧ PulseDB.zindexFind Z.view member (hash64 member) = none) ∨
        ∃ n l, r = .ok (Z.record, IndexAt.record n l) ∧
          PulseDB.zindexFind Z.view member (hash64 member) = some n.view)) := by
  refine triple_bind (triple_storeGetValue zsetKind hS now) fun r M' hr => ?_
  obtain ⟨S', hS', rfl, ⟨st, rfl, hlook⟩ | ⟨xs, e, ys, p, Z, hfound, hv, hwf, rfl, hlook⟩⟩ := hr
  · exact triple_pure ⟨S', hS', rfl, Or.inl ⟨st, rfl, hlook⟩⟩
  · have hZ : Z.WF := hwf
    have hle : Z.cells p ≤ S'.cells s := hfound.cells_le hv
    refine bind_getAs (b := .zset Z.record) (a := Z.record) (Multiset.mem_of_le hle Z.mem_cells) ?_
    refine triple_bind (triple_zindexFind hZ hle) fun r M' hr => ?_
    obtain ⟨rfl, ⟨rfl, hnone⟩ | ⟨as, n, bs, hf, rfl⟩⟩ := hr
    · exact triple_pure ⟨S', hS', rfl, Or.inr ⟨p, Z, hZ, hle, hlook, Or.inl ⟨rfl, hnone⟩⟩⟩
    · let block := n.record ((indexNodes (D := D)).head bs)
      have hblock : (n.addr, Object.zindexNode block) ∈ S'.cells s :=
        Multiset.mem_of_le (Z.indexCells_le.trans hle) (hf.mem_indexCells hZ.toShaped)
      refine bind_getAs (b := .zindexNode block) (a := block) hblock
        (triple_pure ⟨S', hS', rfl, Or.inr ⟨p, Z, hZ, hle, hlook, ?_⟩⟩)
      exact Or.inr ⟨n, _, rfl, hf.zindexFind_eq⟩

omit [LinearOrder D] in
theorem triple_storeZsetScore (hS : S.WF) (member : Bytes) (now : Int) :
    triple (storeZsetScore s key member now) (S.cells s)
      (Outcome s (PulseDB.storeZsetScore S.view key member now)) := by
  refine triple_bind (triple_zsetNode hS member now) fun r M' hr => ?_
  obtain ⟨S', hS', rfl, ⟨st, rfl, hlook⟩ | ⟨p, Z, hZ, hle, hlook, ⟨rfl, hnone⟩ | ⟨n, l, rfl, hfind⟩⟩⟩ := hr
  · exact triple_pure ⟨S', hS', rfl, by rw [PulseDB.storeZsetScore, lookupIn, hlook]⟩
  · exact triple_pure ⟨S', hS', rfl, lookupIn_none hlook (by rw [ZSet.scoreOf, hnone, Option.map_none])⟩
  · exact triple_pure ⟨S', hS', rfl, lookupIn_some hlook (by rw [ZSet.scoreOf, hfind, Option.map_some]; rfl)⟩

theorem triple_storeZsetRank (hS : S.WF) (member : Bytes) (now : Int) :
    triple (storeZsetRank s key member now) (S.cells s)
      (Outcome s (PulseDB.storeZsetRank S.view key member now)) := by
  refine triple_bind (triple_zsetNode hS member now) fun r M' hr => ?_
  obtain ⟨S', hS', rfl, ⟨st, rfl, hlook⟩ | ⟨p, Z, hZ, hle, hlook, ⟨rfl, hnone⟩ | ⟨n, l, rfl, hfind⟩⟩⟩ := hr
  · exact triple_pure ⟨S', hS', rfl, by rw [PulseDB.storeZsetRank, lookupIn, hlook]⟩
  · exact triple_pure ⟨S', hS', rfl, lookupIn_none hlook (by rw [ZSet.rank, hnone, Option.map_none])⟩
  · refine triple_bind (triple_zsetLowerBound hZ.toShaped (Z.arrayCells_le.trans hle) (Z.texts_le.trans hle))
      fun i M' hi => ?_
    obtain ⟨rfl, rfl⟩ := hi
    exact triple_pure ⟨S', hS', rfl, lookupIn_some hlook (by rw [ZSet.rank, hfind, Option.map_some]; rfl)⟩

end ZSets

section Streams
variable {S : StoreAt D} {s : ℕ} {key : Bytes}

theorem triple_storeStreamAdd (hS : S.WF) (idSpec : Bytes) (fields : List StreamField) (now now' : Int) :
    triple (storeStreamAdd s key idSpec fields now now') (S.cells s)
      (Outcome s (PulseDB.storeStreamAdd S.view key idSpec fields now now')) := by
  refine triple_bind (triple_lookupTyped streamKind hS now) fun r M' hr => ?_
  obtain ⟨S', hS', rfl, ⟨st, rfl, rfl | rfl, hlook⟩ | ⟨xs, e, ys, p, T, hfound, hv, -, rfl, hlook⟩⟩ := hr
  · have hlook' : PulseDB.lookupTyped S.view key Value.asStream now = (.error .notFound, S'.view) := hlook
    rw [PulseDB.storeStreamAdd, hlook']
    dsimp only
    cases hid : resolveNewId none idSpec now' with
    | error st => exact triple_pure ⟨S', hS', rfl, rfl⟩
    | ok id =>
      refine triple_bind (triple_newValue streamKind hS') fun p M' hM => ?_
      obtain ⟨R, rfl, hput⟩ := hM
      have hempty : (cell p (.stream {}) : Multiset (ℕ × Object D)) = StreamAt.cells {} p := (add_zero _).symm
      rw [hempty]
      refine bind_call rfl triple_streamAppend fun _ M' hM => triple_pure ?_
      obtain ⟨T', rfl, hview⟩ := hM
      obtain ⟨S'', hS'', hcells, hview'⟩ := hput T' trivial
      refine ⟨S'', hS'', hcells.symm, ?_⟩
      rw [hview', show streamKind.view T' = _ from hview]
      rfl
  · have hlook' : PulseDB.lookupTyped S.view key Value.asStream now = (.error .wrongType, S'.view) := hlook
    refine triple_pure ⟨S', hS', rfl, ?_⟩
    rw [PulseDB.storeStreamAdd, hlook']
  · have hlook' : PulseDB.lookupTyped S.view key Value.asStream now = (.ok T.view, S'.view) := hlook
    obtain ⟨l, R₀, hcells₀, -⟩ := hfound.exists_rest s
    obtain ⟨R, hcells, hput⟩ := hfound.exists_value_rest streamKind hS' hv s
    refine bind_getAs (b := .entry (e.record l)) (a := e.record l) (by rw [hcells₀]; exact mem_node) ?_
    refine bind_demand (a := p) (by simp only [EntryAt.record, hv, Option.map_some, streamKind.ptr_stored]) ?_
    refine bind_getAs (b := .stream T.record) (a := T.record)
      (Multiset.mem_of_le (hfound.cells_le hv) T.mem_cells) ?_
    rw [PulseDB.storeStreamAdd, hlook']
    dsimp only
    -- the ID depends on the two fields that are read
    have hid' : resolveNewId (some { len := T.record.len, lastId := T.record.lastId }) idSpec now' =
        resolveNewId (some T.view) idSpec now' := rfl
    rw [hid']
    cases hid : resolveNewId (some T.view) idSpec now' with
    | error st => exact triple_pure ⟨S', hS', rfl, rfl⟩
    | ok id =>
      refine bind_call hcells (M := T.cells p) triple_streamAppend fun _ M' hM => triple_pure ?_
      obtain ⟨T', rfl, hview⟩ := hM
      obtain ⟨S'', hS'', hcells', hview'⟩ := hput T' trivial
      refine ⟨S'', hS'', hcells'.symm, ?_⟩
      rw [hview', show streamKind.view T' = _ from hview]
      rfl

end Streams

/-! ## All operations -/

section Exec
variable [LinearOrder D] {S : StoreAt D} {s : ℕ}

/-- Every operation answers as the one of `PulseDB.Store.Keyspace`, and leaves a table that stands for its
store. -/
theorem triple_exec (hS : S.WF) (hvalid : S.view.Valid) (key : Bytes) (now now' : Int) {α : Type}
    (op : StoreOp D α) :
    triple (exec s key now now' op) (S.cells s) (Outcome s (op.exec S.view key now now')) := by
  cases op with
  | del =>
    refine triple_mono (triple_storeDel hS now) fun _ M' hM => ?_
    obtain ⟨S', hS', hcells, hdel⟩ := hM
    exact ⟨S', hS', hcells, hdel⟩
  | «exists» => exact triple_storeExists hS now
  | type => exact triple_storeType hS now
  | getExpiry => exact triple_storeGetExpiry hS now
  | set value expiresAtMs =>
    refine triple_mono (triple_storeSet hS value expiresAtMs now) fun _ M' hM => ?_
    obtain ⟨S', hS', hcells, hview⟩ := hM
    exact ⟨S', hS', hcells, congrArg (Prod.mk ()) hview.symm⟩
  | get =>
    exact triple_follow strKind hS now fun p str W _ hW =>
      triple_getAs (b := .text str) (Multiset.mem_of_le hW (by simp [strKind, ValueAt.cells])) rfl
  | incrby delta => exact triple_storeIncrby hS delta now now'
  | listPush value atHead => exact triple_storeListPush hS value atHead now
  | listPop atHead => exact triple_storeListPop hS atHead now now'
  | getList => exact triple_follow listKind hS now fun p L W _ hW => triple_peekList hW
  | hashSet field value => exact triple_storeHashSet hS field value now
  | hashGet field => exact triple_storeHashGet hS field now
  | hashDel field => exact triple_storeHashDel hS field now now'
  | getHash => exact triple_follow hashKind hS now fun p H W _ hW => triple_peekHash hW
  | zsetAdd score member => exact triple_storeZsetAdd hS hvalid score member now
  | zsetScore member => exact triple_storeZsetScore hS member now
  | zsetRank member => exact triple_storeZsetRank hS member now
  | getZset => exact triple_follow zsetKind hS now fun p Z W hZ hW => triple_peekZset hZ hW
  | streamAdd idSpec fields => exact triple_storeStreamAdd hS idSpec fields now now'
  | getStream => exact triple_follow streamKind hS now fun p T W _ hW => triple_peekStream hW

/-- Some operations, one after the other. -/
def runCalls (s : ℕ) : List (Call D) → HeapProg (Object D) Unit
  | [] => pure ()
  | c :: calls => do
    let _ ← exec s c.key c.now c.now' c.op
    runCalls s calls

theorem triple_runCalls (calls : List (Call D)) : ∀ {S : StoreAt D}, S.WF → S.view.Valid →
    triple (runCalls s calls) (S.cells s) fun _ M' => ∃ S' : StoreAt D, S'.WF ∧ S'.view.Valid ∧
      M' = S'.cells s ∧
      S'.view = execAll calls S.view := by
  induction calls with
  | nil => exact fun {S} hS hvalid => triple_pure ⟨S, hS, hvalid, rfl, rfl⟩
  | cons c calls ih =>
    intro S hS hvalid
    refine triple_bind (triple_exec hS hvalid c.key c.now c.now' c.op) fun r M' hr => ?_
    obtain ⟨S', hS', rfl, hexec⟩ := hr
    have hview : S'.view = c.exec S.view := (congrArg Prod.snd hexec).symm
    have hvalid' : S'.view.Valid := hview ▸ c.op.exec_valid hvalid c.key c.now c.now'
    refine triple_mono (ih hS' hvalid') fun _ M' hM => ?_
    obtain ⟨S'', hS'', hvalid'', hcells, hview'⟩ := hM
    refine ⟨S'', hS'', hvalid'', hcells, ?_⟩
    rw [hview', hview]
    rfl

/-- The life of a store: it is created, some operations are called and then the operation `c`, and it is
destroyed. -/
def storeLife (calls : List (Call D)) (c : Call D) : HeapProg (Object D) c.α := do
  let s ← storeCreate
  runCalls s calls
  let r ← exec s c.key c.now c.now' c.op
  storeDestroy s
  return r

/-- Whatever operations are called, in whatever order and with whatever clock readings: no pointer that is
`NULL` or whose object has been freed is followed, nothing is freed twice, nothing outside an array is read or
written, the answer is the one of the operation on the values themselves, and no object is left at the end. -/
theorem store_memory_safe (calls : List (Call D)) (c : Call D) :
    ∃ h : Heap (Object D), storeLife calls c () {} =
        .ok ((c.op.exec (execAll calls PulseDB.storeCreate) c.key c.now c.now').1, h) ∧
          ∀ p, h.cells p = none := by
  have hlife : triple (storeLife calls c) 0 fun r M' =>
      r = (c.op.exec (execAll calls PulseDB.storeCreate) c.key c.now c.now').1 ∧ M' = 0 := by
    refine triple_bind triple_storeCreate fun s M' hM => ?_
    obtain ⟨S, hS, rfl, hview⟩ := hM
    refine triple_bind (triple_runCalls calls hS (hview ▸ storeCreate_valid)) fun _ M' hM => ?_
    obtain ⟨S₁, hS₁, hvalid₁, rfl, hview₁⟩ := hM
    refine triple_bind (triple_exec hS₁ hvalid₁ c.key c.now c.now' c.op) fun r M' hr => ?_
    obtain ⟨S₂, hS₂, rfl, hexec⟩ := hr
    refine triple_then (triple_storeDestroy hS₂) (triple_pure ⟨?_, rfl⟩)
    rw [← hview, ← hview₁, hexec]
  obtain ⟨r, h, M, hrun, ⟨rfl, rfl⟩, hh⟩ := hlife.run Heap.holds_empty
  refine ⟨h, hrun, fun p => ?_⟩
  cases hp : h.cells p with
  | none => rfl
  | some b => exact absurd ((hh.live p b).mp hp) (Multiset.notMem_zero _)

end Exec
end PulseDB.Raw
