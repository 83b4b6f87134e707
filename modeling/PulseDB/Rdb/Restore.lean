import PulseDB.Rdb.Format
import PulseDB.Store.Valid

/-!
# What a dump file restores

* `FileBytes records p` : `p` is a file with these records, up to its EOF opcode;
* `rdbLoad_of_file`, `rdbLoad_ok`, `rdbLoad_cut` : the loader returns `RDB_OK` exactly on such a file and an
  EOF opcode, whatever follows, and it returns `RDB_PARSE_ERROR` on every part of the file before that opcode;
* `pendingExpiry`, `loaded_spec` : the keys the records leave, with their values and expiries;
* `startupStore_reachable` : the store that `main` serves is one that the store operations can build.
-/

namespace PulseDB
open Lib

/-! ## The loop -/

section Loop
variable {D : Type} {clock : ℕ → Int}

theorem rdbLoop_cons (rounds : ℕ) (st : RdbState D) (op : UInt8) (f : Bytes) :
    rdbLoop clock (rounds + 1) st (op :: f) =
      if op = rdbOpEof then (.ok, st.store)
      else
        match rdbStep clock st op f with
        | .error result => (result, st.store)
        | .ok (st, f) => rdbLoop clock rounds st f := rfl

theorem rdbLoop_rounds : ∀ {n m : ℕ} {st : RdbState D} {f : Bytes}, f.length < n → f.length < m →
    rdbLoop clock n st f = rdbLoop clock m st f
  | 0, _, _, _, hn, _ => absurd hn (Nat.not_lt_zero _)
  | _ + 1, 0, _, _, _, hm => absurd hm (Nat.not_lt_zero _)
  | n + 1, m + 1, st, [], _, _ => rfl
  | n + 1, m + 1, st, op :: f, hn, hm => by
    rw [rdbLoop_cons, rdbLoop_cons]
    cases hstep : rdbStep clock st op f with
    | error result => rfl
    | ok x =>
      obtain ⟨bs, -, rfl⟩ := (rdbStep_exact clock st op).ok_iff.mp (show _ = Except.ok (x.1, x.2) from hstep)
      rw [List.length_cons, List.length_append] at hn hm
      show (if op = rdbOpEof then _ else rdbLoop clock n x.1 x.2) = if op = rdbOpEof then _
        else rdbLoop clock m x.1 x.2
      rw [@rdbLoop_rounds n m x.1 x.2 (by omega) (by omega)]

theorem RecordBytes.ne_eof {r : Record} {op : UInt8} {bs : Bytes} (h : RecordBytes r (op :: bs)) :
    op ≠ rdbOpEof := by
  rintro rfl
  exact recordBytes_cons_iff.mp h

theorem RecordBytes.cons {r : Record} {b : Bytes} (h : RecordBytes r b) : ∃ op bs, b = op :: bs := by
  cases h <;> exact ⟨_, _, rfl⟩

theorem rdbLoop_record {r : Record} {b rest : Bytes} (h : RecordBytes r b) (rounds : ℕ) (st : RdbState D) :
    rdbLoop clock (rounds + 1) st (b ++ rest) = rdbLoop clock rounds (r.load clock st) rest := by
  obtain ⟨op, bs, rfl⟩ := h.cons
  have hstep : rdbStep clock st op (bs ++ rest) = .ok (r.load clock st, rest) :=
    (rdbStep_exact clock st op).ok_iff.mpr ⟨bs, ⟨r, h, rfl⟩, rfl⟩
  rw [List.cons_append, rdbLoop_cons, if_neg h.ne_eof, hstep]

/-- The records at the front of a file are loaded one after the other. -/
theorem rdbLoop_records {records : List Record} {bs : Bytes} (h : Spelled RecordBytes records bs)
    (rest : Bytes) :
    ∀ (rounds : ℕ) (st : RdbState D), rdbLoop clock (records.length + rounds) st (bs ++ rest) =
      rdbLoop clock rounds (records.foldl (Record.load clock) st) rest := by
  induction h with
  | nil =>
    intro rounds st
    rw [List.length_nil, Nat.zero_add]
    rfl
  | @cons r records b bs hr _ ih =>
    intro rounds st
    rw [List.length_cons, Nat.succ_add, List.append_assoc, rdbLoop_record hr, ih, List.foldl_cons]

theorem rdbLoop_ok : ∀ {rounds : ℕ} {st : RdbState D} {f : Bytes}, (rdbLoop clock rounds st f).1 = .ok →
    ∃ records bs tail, Spelled RecordBytes records bs ∧ f = bs ++ rdbOpEof :: tail
  | 0, _, _, h => RdbResult.noConfusion h
  | _ + 1, _, [], h => RdbResult.noConfusion h
  | rounds + 1, st, op :: f, h => by
    rw [rdbLoop_cons] at h
    by_cases hop : op = rdbOpEof
    · exact ⟨[], [], f, .nil, by rw [hop]; rfl⟩
    · rw [if_neg hop] at h
      cases hstep : rdbStep clock st op f with
      | error result =>
        rw [hstep] at h
        rcases rdbStep_fails clock st op f result hstep with rfl | rfl <;> cases h
      | ok x =>
        rw [hstep] at h
        obtain ⟨b, ⟨r, hr, -⟩, rfl⟩ := (rdbStep_exact clock st op).ok_iff.mp
          (show _ = Except.ok (x.1, x.2) from hstep)
        obtain ⟨records, bs, tail, hbs, hx⟩ := @rdbLoop_ok rounds x.1 x.2 h
        refine ⟨r :: records, op :: b ++ bs, tail, .cons hr hbs, ?_⟩
        rw [hx, List.cons_append, List.cons_append, List.append_assoc]

theorem rdbLoop_result : ∀ (rounds : ℕ) (st : RdbState D) (f : Bytes),
    (rdbLoop clock rounds st f).1 = .ok ∨ GivesUp (rdbLoop clock rounds st f).1
  | 0, _, _ => Or.inr (Or.inl rfl)
  | _ + 1, _, [] => Or.inr (Or.inl rfl)
  | rounds + 1, st, op :: f => by
    rw [rdbLoop_cons]
    by_cases hop : op = rdbOpEof
    · rw [if_pos hop]
      exact Or.inl rfl
    · rw [if_neg hop]
      cases hstep : rdbStep clock st op f with
      | error result => exact Or.inr (rdbStep_fails clock st op f result hstep)
      | ok x => exact rdbLoop_result rounds x.1 x.2

/-- A file cut before its EOF opcode ends in the middle of a record or where one is due. -/
theorem rdbLoop_cut {records : List Record} {bs : Bytes} (h : Spelled RecordBytes records bs) :
    ∀ {p y : Bytes}, bs = p ++ y → ∀ (rounds : ℕ) (st : RdbState D), (rdbLoop clock rounds st p).1 =
      .parseError := by
  induction h with
  | nil =>
    intro p y hp rounds st
    obtain ⟨rfl, -⟩ := List.append_eq_nil_iff.mp hp.symm
    cases rounds <;> rfl
  | @cons r records b bs hr hbs ih =>
    intro p y hp rounds st
    cases rounds with
    | zero => rfl
    | succ rounds =>
      rcases List.append_eq_append_iff.mp hp with ⟨c, rfl, rfl⟩ | ⟨c, rfl, rfl⟩
      · rw [rdbLoop_record hr]
        exact ih rfl rounds _
      · cases p with
        | nil => rfl
        | cons op p =>
          by_cases hc : c = []
          · subst hc
            rw [List.append_nil] at hr
            rw [← List.append_nil (op :: p), rdbLoop_record hr]
            exact ih (p := []) rfl rounds _
          · have hstep : rdbStep clock st op p = .error .parseError :=
              (rdbStep_exact clock st op).cut ⟨r, hr, rfl⟩ hc
            rw [rdbLoop_cons, if_neg (RecordBytes.ne_eof (by simpa using hr)), hstep]

end Loop

/-! ## Files -/

/-- A file with these records, up to its EOF opcode. -/
def FileBytes (records : List Record) (p : Bytes) : Prop :=
  ∃ version bs, version.length = 4 ∧ Spelled RecordBytes records bs ∧ p = ascii "REDIS" ++ version ++ bs

theorem readHeader_exact : readHeader.Exact .parseError fun _ bs =>
    ∃ version : Bytes, version.length = 4 ∧ bs = ascii "REDIS" ++ version := by
  have hversion : ∀ magic : Bytes, Reader.Exact (if magic = ascii "REDIS" then (do let _ ← fread 4; return ())
      else Reader.fail .parseError : RdbReader Unit) .parseError
      fun _ bs => magic = ascii "REDIS" ∧ bs.length = 4 := by
    intro magic
    split_ifs with hmagic
    · exact ((Reader.Exact.tokens 4).map fun _ => ()).congr fun _ bs => by simp [hmagic]
    · exact Reader.Exact.fail.congr fun _ _ => by simp [hmagic]
  refine ((Reader.Exact.tokens 5).bind hversion).congr fun _ bs => ?_
  constructor
  · rintro ⟨magic, b₁, b₂, ⟨rfl, -⟩, ⟨rfl, hlen⟩, rfl⟩
    exact ⟨b₂, hlen, rfl⟩
  · rintro ⟨version, hlen, rfl⟩
    exact ⟨_, _, version, ⟨rfl, rfl⟩, ⟨rfl, hlen⟩, rfl⟩

theorem readHeader_fails : readHeader.FailsWith (· = .parseError) := by
  refine .bind (.tokens 5 rfl) fun magic => ?_
  split_ifs
  · exact .bind (.tokens 4 rfl) fun _ => .pure _
  · exact .fail rfl

section Files
variable {D : Type} {clock : ℕ → Int} {records : List Record} {p : Bytes}

/-- The variables of the loop after some records. -/
def loaded (clock : ℕ → Int) (store : Store D) (records : List Record) : RdbState D :=
  records.foldl (Record.load clock) { store := store, expiryMs := 0, tick := 0 }

/-- The loader loads the records and returns `RDB_OK` at the EOF opcode, whatever follows it. -/
theorem rdbLoad_of_file (h : FileBytes records p) (store : Store D) (tail : Bytes) :
    rdbLoad clock store (some (p ++ rdbOpEof :: tail)) = (.ok, (loaded clock store records).store) := by
  obtain ⟨version, bs, hlen, hbs, rfl⟩ := h
  have hheader : readHeader (ascii "REDIS" ++ version ++ bs ++ rdbOpEof :: tail) =
      .ok ((), bs ++ rdbOpEof :: tail) :=
    readHeader_exact.ok_iff.mpr ⟨_, ⟨version, hlen, rfl⟩, List.append_assoc ..⟩
  have hrounds : (bs ++ rdbOpEof :: tail).length < records.length +
      ((bs ++ rdbOpEof :: tail).length + 1) := by omega
  rw [rdbLoad, hheader]
  simp only
  rw [rdbLoop_rounds (Nat.lt_succ_self _) hrounds, rdbLoop_records hbs, rdbLoop_cons, if_pos rfl]
  rfl

theorem rdbLoad_ok {store : Store D} {f : Bytes} (h : (rdbLoad clock store (some f)).1 = .ok) :
    ∃ records p tail, FileBytes records p ∧ f = p ++ rdbOpEof :: tail := by
  rw [rdbLoad] at h
  cases hheader : readHeader f with
  | error result =>
    rw [hheader, readHeader_fails f result hheader] at h
    cases h
  | ok x =>
    rw [hheader] at h
    obtain ⟨_, ⟨version, hlen, rfl⟩, rfl⟩ :=
      readHeader_exact.ok_iff.mp (show _ = Except.ok (x.1, x.2) from hheader)
    obtain ⟨records, bs, tail, hbs, hx⟩ := rdbLoop_ok h
    exact ⟨records, _, tail, ⟨version, bs, hlen, hbs, rfl⟩, by rw [hx]; simp⟩

theorem rdbLoad_result (store : Store D) (f : Bytes) :
    (rdbLoad clock store (some f)).1 = .ok ∨ GivesUp (rdbLoad clock store (some f)).1 := by
  rw [rdbLoad]
  cases hheader : readHeader f with
  | error result => exact Or.inr (Or.inl (readHeader_fails f result hheader))
  | ok x => exact rdbLoop_result _ _ x.2

theorem rdbLoad_cut {q y : Bytes} (h : FileBytes records (q ++ y)) (store : Store D) :
    (rdbLoad clock store (some q)).1 = .parseError := by
  obtain ⟨version, bs, hlen, hbs, heq⟩ := h
  rw [rdbLoad]
  by_cases hheader : ∃ c, ascii "REDIS" ++ version = q ++ c ∧ c ≠ []
  · obtain ⟨c, hc, hne⟩ := hheader
    rw [readHeader_exact.cut (a := ()) ⟨version, hlen, hc.symm⟩ hne]
  · -- the cut falls behind the header
    obtain ⟨q', rfl, rfl⟩ : ∃ q', q = ascii "REDIS" ++ version ++ q' ∧ bs = q' ++ y := by
      rcases List.append_eq_append_iff.mp heq with ⟨c, hc, rfl⟩ | ⟨c, rfl, rfl⟩
      · by_cases hne : c = []
        · subst hne
          exact ⟨[], by rw [hc, List.append_nil, List.append_nil], rfl⟩
        · exact absurd ⟨c, hc, hne⟩ hheader
      · exact ⟨c, rfl, rfl⟩
    have hok : readHeader (ascii "REDIS" ++ version ++ q') = .ok ((), q') :=
      readHeader_exact.ok_iff.mpr ⟨_, ⟨version, hlen, rfl⟩, rfl⟩
    rw [hok]
    exact rdbLoop_cut hbs rfl _ _

end Files

/-! ## The keys that are restored -/

def Record.isString : Record → Bool
  | .string _ _ => true
  | _ => false

/-- The expiry a record sets, in milliseconds. -/
def Record.expiry : Record → Option Int
  | .expireMs t => some t
  | .expireSec secs => some (secs * 1000)
  | _ => none

/-- The last expiry set since the last string record. -/
def pendingExpiry (records : List Record) : Option Int :=
  (records.reverse.takeWhile fun r => !r.isString).findSome? Record.expiry

theorem pendingExpiry_snoc (records : List Record) (r : Record) :
    pendingExpiry (records ++ [r]) = if r.isString then none else r.expiry.or (pendingExpiry records) := by
  rw [pendingExpiry, List.reverse_append, List.reverse_singleton, List.singleton_append, List.takeWhile_cons]
  cases r.isString with
  | true => rfl
  | false =>
    simp only [Bool.not_false, if_true, Bool.false_eq_true, if_false, List.findSome?_cons, pendingExpiry]
    cases r.expiry <;> rfl

/-- The cell that the records leave for a key: that of the last string record which the store takes for this
key. -/
def Restores {D : Type} (records : List Record) (k : Bytes) (c : Cell D) : Prop :=
  ∃ before key value after, records = before ++ .string key value :: after ∧ cstr key = k ∧
    (∀ key' value', .string key' value' ∈ after → cstr key' ≠ k) ∧
    c = ⟨.str (cstr value), (pendingExpiry before).getD 0⟩

theorem snoc_eq_append_cons {α : Type} {xs before after : List α} {x y : α}
    (h : xs ++ [y] = before ++ x :: after) :
    (xs = before ∧ y = x ∧ after = []) ∨ ∃ after', xs = before ++ x :: after' ∧ after = after' ++ [y] := by
  rcases List.eq_nil_or_concat after with rfl | ⟨after', z, rfl⟩
  · obtain ⟨hxs, hy⟩ := List.append_inj' h rfl
    exact Or.inl ⟨hxs, List.singleton_inj.mp hy, rfl⟩
  · rw [List.concat_eq_append] at h ⊢
    have h' : xs ++ [y] = (before ++ x :: after') ++ [z] := by
      rw [h]
      simp
    obtain ⟨hxs, hy⟩ := List.append_inj' h' rfl
    exact Or.inr ⟨after', hxs, by rw [List.singleton_inj.mp hy]⟩

section Restores
variable {D : Type} {records : List Record} {k : Bytes} {c : Cell D}

theorem restores_snoc_string (key value : Bytes) : Restores (records ++ [.string key value]) k c ↔
    if cstr key = k then c = ⟨.str (cstr value), (pendingExpiry records).getD 0⟩
    else Restores records k c := by
  constructor
  · rintro ⟨before, key', value', after, heq, hk, hlast, rfl⟩
    rcases snoc_eq_append_cons heq with ⟨rfl, hr, -⟩ | ⟨after', rfl, rfl⟩
    · cases hr
      rw [if_pos hk]
    · have hne : cstr key ≠ k := hlast key value (List.mem_append_right _ (List.mem_singleton.mpr rfl))
      rw [if_neg hne]
      exact ⟨before, key', value', after', rfl, hk, fun _ _ h => hlast _ _ (List.mem_append_left _ h), rfl⟩
  · intro h
    split_ifs at h with hk
    · exact ⟨records, key, value, [], rfl, hk, fun _ _ h => absurd h (List.not_mem_nil), h⟩
    · obtain ⟨before, key', value', after, rfl, hk', hlast, rfl⟩ := h
      refine ⟨before, key', value', after ++ [.string key value], by simp, hk',
        fun key'' value'' h => ?_, rfl⟩
      rcases List.mem_append.mp h with h | h
      · exact hlast _ _ h
      · cases List.mem_singleton.mp h
        exact hk

theorem restores_snoc_other {r : Record} (hr : r.isString = false) :
    Restores (records ++ [r]) k c ↔ Restores records k c := by
  constructor
  · rintro ⟨before, key, value, after, heq, hk, hlast, rfl⟩
    rcases snoc_eq_append_cons heq with ⟨-, rfl, -⟩ | ⟨after', rfl, rfl⟩
    · cases hr
    · exact ⟨before, key, value, after', rfl, hk, fun _ _ h => hlast _ _ (List.mem_append_left _ h), rfl⟩
  · rintro ⟨before, key, value, after, rfl, hk, hlast, rfl⟩
    refine ⟨before, key, value, after ++ [r], by simp, hk, fun key' value' h => ?_, rfl⟩
    rcases List.mem_append.mp h with h | h
    · exact hlast _ _ h
    · rw [← List.mem_singleton.mp h] at hr
      cases hr

/-- What holds after some records have been loaded into a fresh store. -/
structure Loaded (records : List Record) (st : RdbState D) : Prop where
  inv : st.store.Inv
  expiry : st.expiryMs = (pendingExpiry records).getD 0
  cells : ∀ k c, st.store.cells k = some c ↔ Restores records k c

theorem Loaded.nil : Loaded [] ({ store := storeCreate, expiryMs := 0, tick := 0 } : RdbState D) where
  inv := storeCreate_inv
  expiry := rfl
  cells k c := by
    rw [storeCreate_cells]
    constructor
    · rintro ⟨⟩
    · rintro ⟨before, key, value, after, heq, -⟩
      exact absurd heq (List.append_ne_nil_of_right_ne_nil _ (List.cons_ne_nil _ _)).symm

theorem Loaded.other {st : RdbState D} (h : Loaded records st) {r : Record} (hr : r.isString = false)
    {expiryMs : Int} (he : expiryMs = (r.expiry.or (pendingExpiry records)).getD 0) :
    Loaded (records ++ [r]) { st with expiryMs := expiryMs } where
  inv := h.inv
  expiry := by rw [pendingExpiry_snoc, hr, he]; rfl
  cells k c := by rw [restores_snoc_other hr, ← h.cells]

theorem Loaded.snoc {st : RdbState D} (h : Loaded records st) (clock : ℕ → Int) :
    ∀ r : Record, Loaded (records ++ [r]) (r.load clock st)
  | .aux _ _ => h.other rfl h.expiry
  | .selectDb _ => h.other rfl h.expiry
  | .resizeDb _ _ => h.other rfl h.expiry
  | .expireMs _ => h.other rfl rfl
  | .expireSec _ => h.other rfl rfl
  | .string key value => by
    have hd := storeSet_does h.inv (cstr key) (cstr value) st.expiryMs (clock st.tick)
    refine ⟨hd.inv, by rw [pendingExpiry_snoc]; rfl, fun k c => ?_⟩
    show (storeSet st.store (cstr key) (cstr value) st.expiryMs (clock st.tick)).cells k = some c ↔ _
    rw [show _ = Function.update st.store.cells (cstr key) _ from hd.cells,
      restores_snoc_string, ← h.cells, ← h.expiry]
    by_cases hk : cstr key = k
    · subst hk
      rw [Function.update_self, if_pos rfl, Option.some.injEq]
      exact eq_comm
    · rw [Function.update_of_ne (Ne.symm hk), if_neg hk]

theorem loaded_spec (clock : ℕ → Int) (records : List Record) :
    Loaded records (loaded clock (storeCreate : Store D) records) := by
  induction records using List.reverseRecOn with
  | nil => exact .nil
  | append_singleton records r ih =>
    rw [loaded, List.foldl_append]
    exact ih.snoc clock r

theorem loaded_reachable [LinearOrder D] (clock : ℕ → Int) (records : List Record) :
    (loaded clock (storeCreate : Store D) records).store.Reachable := by
  induction records using List.reverseRecOn with
  | nil => exact .create
  | append_singleton records r ih =>
    let st := loaded clock (storeCreate : Store D) records
    rw [loaded, List.foldl_append]
    cases r with
    | string key value => exact ih.exec (.set (cstr value) st.expiryMs) (cstr key) (clock st.tick) 0
    | _ => exact ih

theorem startupStore_reachable [LinearOrder D] (clock : ℕ → Int) (file : Option Bytes) :
    (startupStore clock file : Store D).Reachable := by
  cases file with
  | none => exact .create
  | some f =>
    unfold startupStore
    rcases @rdbLoad_result D clock storeCreate f with hok | hgive
    · obtain ⟨records, p, tail, hfile, rfl⟩ := rdbLoad_ok hok
      rw [rdbLoad_of_file hfile]
      exact loaded_reachable clock records
    · rcases hr : rdbLoad clock (storeCreate : Store D) (some f) with ⟨result, store⟩
      rw [hr] at hgive
      rcases hgive with rfl | rfl <;> exact .create

end Restores
end PulseDB
