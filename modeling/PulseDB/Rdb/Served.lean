import PulseDB.Rdb.Restore

/-!
# The store that is served after a start

* `rdbLoad_restores` : a file with strings free of NUL bytes restores exactly its keys;
* `rdbLoad_faithful_iff` : the bytes of a file are kept if no key and no value that stays contains a NUL;
* `rdbLoad_expiry_iff` : an expiry is honoured, save for the time 0, which the store takes for no expiry;
* `rdbLoad_all_or_nothing` : a file that is cut short is refused, and `main` serves all of a file or nothing.
-/

namespace PulseDB
open Lib

variable {D : Type} {records : List Record} {p : Bytes}

/-- The strings of the string records are free of NUL bytes. -/
def CleanStrings (records : List Record) : Prop :=
  ∀ key value, .string key value ∈ records → (0 : UInt8) ∉ key ∧ (0 : UInt8) ∉ value

theorem CleanStrings.restores_iff (hclean : CleanStrings records) {k : Bytes} {c : Cell D} :
    Restores records k c ↔
    ∃ before value after, records = before ++ .string k value :: after ∧ (∀ v, .string k v ∉ after) ∧
      c = ⟨.str value, (pendingExpiry before).getD 0⟩ := by
  constructor
  · rintro ⟨before, key, value, after, rfl, rfl, hlast, rfl⟩
    obtain ⟨hk, hv⟩ := hclean key value (by simp)
    rw [cstr_of_clean hk] at hlast ⊢
    rw [cstr_of_clean hv]
    exact ⟨before, value, after, rfl, fun v h => hlast key v h (cstr_of_clean hk), rfl⟩
  · rintro ⟨before, value, after, rfl, hlast, rfl⟩
    obtain ⟨hk, hv⟩ := hclean k value (by simp)
    refine ⟨before, k, value, after, rfl, cstr_of_clean hk, fun key' value' h heq =>
      ?_, by rw [cstr_of_clean hv]⟩
    rw [cstr_of_clean (hclean key' value' (by simp [h])).1] at heq
    subst heq
    exact hlast value' h

/-- A well-formed file is loaded, and leaves exactly the keys of its string records, each with the value of
its last record and the last expiry set between that record and the string record before it. -/
theorem rdbLoad_restores (clock : ℕ → Int) (hfile : FileBytes records p) (hclean : CleanStrings records)
    (tail : Bytes) :
    let r := rdbLoad clock (storeCreate : Store D) (some (p ++ rdbOpEof :: tail))
    r.1 = .ok ∧ r.2.Inv ∧ ∀ key c, r.2.cells key = some c ↔
      ∃ before value after, records = before ++ .string key value :: after ∧ (∀ v, .string key v ∉ after) ∧
        c = ⟨.str value, (pendingExpiry before).getD 0⟩ := by
  intro r
  have hl : Loaded records (loaded clock (storeCreate : Store D) records) := loaded_spec clock records
  have hr : r = (.ok, (loaded clock storeCreate records).store) := rdbLoad_of_file hfile storeCreate tail
  rw [hr]
  exact ⟨rfl, hl.inv, fun key c => (hl.cells key c).trans hclean.restores_iff⟩

theorem StringBytes.short {s : Bytes} {b : UInt8} (hb : b.toNat = s.length) (h : s.length < 64) :
    StringBytes s (b :: s) := by
  have hl : LengthBytes s.length [b] := hb ▸ .six (hb ▸ h)
  exact .raw hl (Nat.le_trans (Nat.le_of_lt h) (by decide))

/-- The key `old` behind two expiries and another record, and the key `num` with an integer of two bytes. -/
def sampleRecords : List Record :=
  [.expireSec 2, .expireMs 7, .selectDb 1, .string (ascii "old") (ascii "x"),
    .string (ascii "num") (ascii "-12345")]

def sampleFile : Bytes :=
  ascii "REDIS0011" ++ [0xFD, 2, 0, 0, 0, 0xFC, 7, 0, 0, 0, 0, 0, 0, 0, 0xFE, 0x01] ++
    [0x00, 0x03] ++ ascii "old" ++ [0x01] ++ ascii "x" ++ [0x00, 0x03] ++ ascii "num" ++ [0xC1, 0xC7, 0xCF]

theorem sampleFile_bytes : FileBytes sampleRecords sampleFile := by
  have h2 : littleEndian [2, 0, 0, 0] = 2 := by decide +kernel
  have h7 : wrap64 (littleEndian [7, 0, 0, 0, 0, 0, 0, 0]) = 7 := by decide +kernel
  have hdec : decInt (Int.bmod (littleEndian [0xC7, 0xCF]) (2 ^ 16)) = ascii "-12345" := by decide +kernel
  have hsec : RecordBytes (.expireSec 2) [0xFD, 2, 0, 0, 0] := h2 ▸ .expireSec (b := [2, 0, 0, 0]) rfl
  have hms : RecordBytes (.expireMs 7) [0xFC, 7, 0, 0, 0, 0, 0, 0, 0] :=
    h7 ▸ .expireMs (b := [7, 0, 0, 0, 0, 0, 0, 0]) rfl
  have hdb : RecordBytes (.selectDb 1) [0xFE, 0x01] := .selectDb (.six (b := 1) (by decide))
  have hint : StringBytes (ascii "-12345") [0xC1, 0xC7, 0xCF] := hdec ▸ .int16 (b := [0xC7, 0xCF]) rfl
  have hold := RecordBytes.string (@StringBytes.short (ascii "old") 3 rfl (by decide))
    (@StringBytes.short (ascii "x") 1 rfl (by decide))
  have hnum := RecordBytes.string (@StringBytes.short (ascii "num") 3 rfl (by decide)) hint
  exact ⟨ascii "0011", _, rfl, .cons hsec (.cons hms (.cons hdb (.cons hold (.cons hnum .nil)))), by decide⟩

theorem sampleRecords_clean : CleanStrings sampleRecords := by
  intro key value h
  simp only [sampleRecords, List.mem_cons, List.not_mem_nil, or_false, Record.string.injEq, reduceCtorEq,
    false_or] at h
  rcases h with ⟨rfl, rfl⟩ | ⟨rfl, rfl⟩ <;> decide

/-- The sample file leaves two keys, one of them with an expiry. -/
theorem rdbLoad_restores_sample :
    let r := rdbLoad (fun _ => 0) (storeCreate : Store ℕ) (some (sampleFile ++ rdbOpEof :: [1, 2]))
    r.1 = .ok ∧ r.2.cells (ascii "old") = some ⟨.str (ascii "x"), 7⟩ ∧
      r.2.cells (ascii "num") = some ⟨.str (ascii "-12345"), 0⟩ := by
  intro r
  obtain ⟨hok, -, hcells⟩ := rdbLoad_restores (D := ℕ) (fun _ => 0) sampleFile_bytes sampleRecords_clean
    [1, 2]
  refine ⟨hok, (hcells _ _).mpr ⟨sampleRecords.take 3, ascii "x", sampleRecords.drop 4, rfl, ?_, rfl⟩,
    (hcells _ _).mpr ⟨sampleRecords.take 4, ascii "-12345", [], rfl, fun _ => List.not_mem_nil, rfl⟩⟩
  intro v h
  exact absurd (Record.string.inj (List.mem_singleton.mp h)).1 (by decide)

/-! ## NUL bytes -/

/-- The entry that a lookup with the key of a record finds. The lookup takes the key as a C string, and does
not remove the entry if its expiry has passed. -/
def Store.entryOf (store : Store D) (key : Bytes) : Option (StoreEntry D) := store.walk (cstr key)

/-- The store represents the string records: it has a key of the full length for each of them and, for the
last record that goes to an entry, a value of the full length; and records with different keys are in
different entries. -/
structure Faithful (records : List Record) (store : Store D) : Prop where
  key : ∀ key value, .string key value ∈ records → ∃ e, store.entryOf key = some e ∧ e.key.length = key.length
  value : ∀ before key value after, records = before ++ .string key value :: after →
    (∀ key' value', .string key' value' ∈ after → store.entryOf key' ≠ store.entryOf key) →
    ∃ e v, store.entryOf key = some e ∧ e.value = .str v ∧ v.length = value.length
  apart : ∀ key value key' value', .string key value ∈ records → .string key' value' ∈ records → key ≠ key' →
    store.entryOf key ≠ store.entryOf key'

/-- No key has a NUL byte, and no value that is not overwritten. -/
def NulFree (records : List Record) : Prop :=
  (∀ key value, .string key value ∈ records → (0 : UInt8) ∉ key) ∧
    ∀ before key value after, records = before ++ .string key value :: after → (∀ v, .string key v ∉ after) →
      (0 : UInt8) ∉ value

theorem exists_restores {key value : Bytes} (h : .string key value ∈ records) :
    ∃ c : Cell D, Restores records (cstr key) c := by
  induction records using List.reverseRecOn with
  | nil => exact absurd h List.not_mem_nil
  | append_singleton records r ih =>
    rcases List.mem_append.mp h with h | h
    · obtain ⟨c, hc⟩ := ih h
      cases hr : r.isString with
      | false => exact ⟨c, (restores_snoc_other hr).mpr hc⟩
      | true =>
        cases r with
        | string key' value' =>
          by_cases hk : cstr key' = cstr key
          · exact ⟨_, (restores_snoc_string key' value').mpr (by rw [if_pos hk])⟩
          · exact ⟨c, (restores_snoc_string key' value').mpr (by rw [if_neg hk]; exact hc)⟩
        | aux _ _ | selectDb _ | resizeDb _ _ | expireMs _ | expireSec _ => cases hr
    · rw [← List.mem_singleton.mp h]
      exact ⟨_, (restores_snoc_string key value).mpr (by rw [if_pos rfl])⟩

section Faithful
variable {st : RdbState D}

theorem Loaded.entryOf (hl : Loaded records st) {key value : Bytes} (h : .string key value ∈ records) :
    ∃ e, st.store.entryOf key = some e ∧ e.key = cstr key := by
  obtain ⟨c, hc⟩ := exists_restores (D := D) h
  obtain ⟨e, he, -⟩ := Option.map_eq_some_iff.mp ((hl.cells (cstr key) c).mpr hc)
  exact ⟨e, he, (hl.inv.walk_eq_some.mp he).2⟩

/-- The entry of a record that is not overwritten holds its value as a C string. -/
theorem Loaded.entryOf_last (hl : Loaded records st) {before after : List Record} {key value : Bytes}
    (h : records = before ++ .string key value :: after)
    (hlast : ∀ key' value', .string key' value' ∈ after → cstr key' ≠ cstr key) :
    ∃ e, st.store.entryOf key = some e ∧ e.value = .str (cstr value) := by
  have hc : Restores records (cstr key) (⟨.str (cstr value), (pendingExpiry before).getD 0⟩ : Cell D) :=
    ⟨before, key, value, after, h, rfl, hlast, rfl⟩
  obtain ⟨e, he, hcell⟩ := Option.map_eq_some_iff.mp ((hl.cells _ _).mpr hc)
  exact ⟨e, he, congrArg Cell.value hcell⟩

theorem Loaded.nulFree (hl : Loaded records st) (hf : Faithful records st.store) : NulFree records := by
  have hkey : ∀ key value, .string key value ∈ records → (0 : UInt8) ∉ key := by
    intro key value h
    obtain ⟨e, he, hlen⟩ := hf.key key value h
    obtain ⟨e', he', hk⟩ := hl.entryOf h
    rw [he, Option.some.injEq] at he'
    rw [he', hk] at hlen
    exact (cstr_eq_self_iff key).mp hlen
  refine ⟨hkey, fun before key value after h hlast => ?_⟩
  have hmem : .string key value ∈ records := by simp [h]
  have hafter : ∀ key' value', .string key' value' ∈ after → .string key' value' ∈ records ∧ key' ≠ key := by
    intro key' value' h'
    refine ⟨by simp [h, h'], ?_⟩
    rintro rfl
    exact hlast value' h'
  obtain ⟨e, v, he, hv, hlen⟩ := hf.value before key value after h fun key' value' h' =>
    hf.apart key' value' key value (hafter key' value' h').1 hmem (hafter key' value' h').2
  obtain ⟨e', he', hv'⟩ := hl.entryOf_last h fun key' value' h' heq => by
    rw [cstr_of_clean (hkey key' value' (hafter key' value' h').1),
      cstr_of_clean (hkey key value hmem)] at heq
    exact (hafter key' value' h').2 heq
  rw [he, Option.some.injEq] at he'
  rw [he', hv', Value.str.injEq] at hv
  rw [← hv] at hlen
  exact (cstr_eq_self_iff value).mp hlen

theorem Loaded.faithful (hl : Loaded records st) (hn : NulFree records) : Faithful records st.store where
  key key value h := by
    obtain ⟨e, he, hk⟩ := hl.entryOf h
    exact ⟨e, he, by rw [hk, cstr_of_clean (hn.1 key value h)]⟩
  value before key value after h hne := by
    have hlast : ∀ key' value', .string key' value' ∈ after → cstr key' ≠ cstr key := by
      intro key' value' h' heq
      exact hne key' value' h' (by rw [Store.entryOf, heq, Store.entryOf])
    obtain ⟨e, he, hv⟩ := hl.entryOf_last h hlast
    rw [cstr_of_clean (hn.2 before key value after h fun v h' => hlast key v h' rfl)] at hv
    exact ⟨e, value, he, hv, rfl⟩
  apart key value key' value' h h' hne heq := by
    obtain ⟨e, he, hk⟩ := hl.entryOf h
    obtain ⟨e', he', hk'⟩ := hl.entryOf h'
    rw [he, he', Option.some.injEq] at heq
    rw [cstr_of_clean (hn.1 key value h)] at hk
    rw [cstr_of_clean (hn.1 key' value' h')] at hk'
    exact hne (by rw [← hk, ← hk', heq])

end Faithful

/-- Of every file that is loaded into a fresh store, the string records are represented with all their bytes
exactly if no key has a NUL byte and no value that is not overwritten. -/
theorem rdbLoad_faithful_iff (clock : ℕ → Int) (f : Bytes) :
    let r := rdbLoad clock (storeCreate : Store D) (some f)
    r.1 = .ok → (∃ records p tail, FileBytes records p ∧ f = p ++ rdbOpEof :: tail) ∧
      ∀ records p tail, FileBytes records p → f = p ++ rdbOpEof :: tail →
        (Faithful records r.2 ↔ NulFree records) := by
  intro r hok
  refine ⟨rdbLoad_ok hok, fun records p tail hfile hf => ?_⟩
  have hl : Loaded records (loaded clock (storeCreate : Store D) records) := loaded_spec clock records
  have hr : r.2 = (loaded clock storeCreate records).store := by
    rw [show r = rdbLoad clock storeCreate (some f) from rfl, hf, rdbLoad_of_file hfile]
  rw [hr]
  exact ⟨hl.nulFree, hl.faithful⟩

/-- The sample file is represented. -/
theorem rdbLoad_faithful_iff_sample :
    let r := rdbLoad (fun _ => 0) (storeCreate : Store ℕ) (some (sampleFile ++ [rdbOpEof]))
    r.1 = .ok ∧ (Faithful sampleRecords r.2 ↔ NulFree sampleRecords) := by
  intro r
  have hok : r.1 = .ok := by decide +kernel
  exact ⟨hok, (rdbLoad_faithful_iff (fun _ => 0) _ hok).2 sampleRecords sampleFile [] sampleFile_bytes rfl⟩

/-- Two records with the keys `a\0b` and `a\0c` go to one entry, with the key `a` and the value of the
second. -/
theorem rdbLoad_not_faithful :
    let r := rdbLoad (fun _ => 0) (storeCreate : Store ℕ)
      (some (ascii "REDIS0011" ++ [0, 3, 97, 0, 98, 1, 120, 0, 3, 97, 0, 99, 1, 121, 0xFF]))
    r.1 = .ok ∧ r.2.count = 1 ∧ r.2.cells [97] = some ⟨.str [121], 0⟩ ∧
      r.2.entryOf [97, 0, 98] = r.2.entryOf [97, 0, 99] := by
  decide +kernel

/-! ## Expiries -/

/-- A lookup at the time `now` finds the key with this value. -/
def Present (store : Store D) (key value : Bytes) (now : Int) : Prop :=
  ∃ e, (lookup store key now).1 = some e ∧ e.value = .str value

/-- A lookup at the time `now` does not find the key. -/
def Absent (store : Store D) (key : Bytes) (now : Int) : Prop := (lookup store key now).1 = none

theorem Store.Inv.present {store : Store D} (h : store.Inv) {key value : Bytes} {expiresAt now : Int}
    (hc : store.cells key = some ⟨.str value, expiresAt⟩) (hlive : expiresAt = 0 ∨ now ≤ expiresAt) :
    Present store key value now := by
  rcases lookup_cases h key now with ⟨s', hl, -, -, hn⟩ | ⟨e, hl, he, -⟩
  · rw [hc, live, if_neg] at hn
    · cases hn
    · rintro ⟨h₁, h₂⟩
      rcases hlive with h₀ | h₀
      · exact h₁ h₀
      · exact absurd h₂ (not_lt.mpr h₀)
  · rw [Store.cells_of_walk he, Option.some.injEq] at hc
    exact ⟨e, by rw [hl], congrArg Cell.value hc⟩

theorem Store.Inv.absent {store : Store D} (h : store.Inv) {key value : Bytes} {expiresAt now : Int}
    (hc : store.cells key = some ⟨.str value, expiresAt⟩) (hne : expiresAt ≠ 0) (hlt : expiresAt < now) :
    Absent store key now := by
  rcases lookup_cases h key now with ⟨s', hl, -⟩ | ⟨e, -, -, he⟩
  · rw [Absent, hl]
  · rw [hc, live, if_pos ⟨hne, hlt⟩] at he
    cases he

theorem Present.not_absent {store : Store D} {key value : Bytes} {now : Int}
    (h : Present store key value now) :
    ¬ Absent store key now := by
  obtain ⟨e, he, -⟩ := h
  rw [Absent, he]
  exact fun h => by cases h

/-- A record with an expiry `t` is there up to the time `t` and no longer, unless `t` is 0 and the time is
later; a record without an expiry is always there. -/
theorem rdbLoad_expiry_iff (clock : ℕ → Int) (hfile : FileBytes records p) (hclean : CleanStrings records)
    (tail : Bytes)
    {before after : List Record} {key value : Bytes}
      (hrecord : records = before ++ .string key value :: after)
    (hlast : ∀ v, .string key v ∉ after) (now : Int) :
    let store := (rdbLoad clock (storeCreate : Store D) (some (p ++ rdbOpEof :: tail))).2
    (∀ t, pendingExpiry before = some t →
      (((t < now → Absent store key now) ∧ (now ≤ t → Present store key value now)) ↔ ¬ (t = 0 ∧ 0 < now))) ∧
      (pendingExpiry before = none → Present store key value now) := by
  intro store
  have hl : Loaded records (loaded clock (storeCreate : Store D) records) := loaded_spec clock records
  have hstore : store = (loaded clock storeCreate records).store := by
    rw [show store = (rdbLoad clock storeCreate (some (p ++ rdbOpEof :: tail))).2 from rfl,
      rdbLoad_of_file hfile]
  have hinv : store.Inv := hstore ▸ hl.inv
  have hcell : store.cells key = some ⟨.str value, (pendingExpiry before).getD 0⟩ := by
    rw [hstore]
    exact (hl.cells _ _).mpr (hclean.restores_iff.mpr ⟨before, value, after, hrecord, hlast, rfl⟩)
  refine ⟨fun t ht => ?_, fun hnone => ?_⟩
  · rw [ht, Option.getD_some] at hcell
    constructor
    · rintro ⟨habsent, -⟩ ⟨rfl, hnow⟩
      exact (hinv.present hcell (Or.inl rfl)).not_absent (habsent hnow)
    · intro h0
      refine ⟨fun hlt => hinv.absent hcell (fun h => h0 ⟨h, h ▸ hlt⟩) hlt, fun hle => hinv.present hcell
        (Or.inr hle)⟩
  · rw [hnone, Option.getD_none] at hcell
    exact hinv.present hcell (Or.inl rfl)

/-- The key `old` of the sample file is there at the time 7 and gone at the time 8. -/
theorem rdbLoad_expiry_iff_sample :
    let store := (rdbLoad (fun _ => 0) (storeCreate : Store ℕ) (some (sampleFile ++ rdbOpEof :: []))).2
    Present store (ascii "old") (ascii "x") 7 ∧ Absent store (ascii "old") 8 := by
  intro store
  have hlast : ∀ v, Record.string (ascii "old") v ∉ [Record.string (ascii "num") (ascii "-12345")] :=
    fun v h =>
    absurd (Record.string.inj (List.mem_singleton.mp h)).1 (by decide)
  have hrecord : sampleRecords = sampleRecords.take 3 ++ .string (ascii "old")
      (ascii "x") :: sampleRecords.drop 4 := rfl
  have h := rdbLoad_expiry_iff (D := ℕ) (fun _ => 0) sampleFile_bytes sampleRecords_clean [] hrecord hlast
  exact ⟨(((h 7).1 7 rfl).mpr (by decide)).2 (by decide), (((h 8).1 7 rfl).mpr (by decide)).1 (by decide)⟩

/-- A record with the expiry 0 is still there at the time 1. -/
theorem rdbLoad_expiry_ignored :
    let r := rdbLoad (fun _ => 0) (storeCreate : Store ℕ)
      (some (ascii "REDIS0011" ++ [0xFC, 0, 0, 0, 0, 0, 0, 0, 0, 0, 1, 107, 1, 118, 0xFF]))
    r.1 = .ok ∧ ((lookup r.2 (ascii "k") 1).1.map (·.value)) = some (.str (ascii "v")) := by
  decide +kernel

/-! ## Truncated files -/

/-- Every part of an accepted file before the EOF opcode that ended the load is refused, and the store that is
served is the whole of an accepted file or empty. -/
theorem rdbLoad_all_or_nothing (clock : ℕ → Int) :
    (∀ (store : Store D) (f : Bytes), (rdbLoad clock store (some f)).1 = .ok →
      ∃ records p tail, FileBytes records p ∧ f = p ++ rdbOpEof :: tail ∧
        ∀ q y, p = q ++ y → (rdbLoad clock store (some q)).1 = .parseError) ∧
    ∀ file : Option Bytes, (startupStore clock file : Store D) = storeCreate ∨
      ((rdbLoad clock (storeCreate : Store D) file).1 = .ok ∧
        startupStore clock file = (rdbLoad clock (storeCreate : Store D) file).2 ∧
        ∃ records p tail, FileBytes records p ∧ file = some (p ++ rdbOpEof :: tail) ∧
          ∀ key c, (startupStore clock file : Store D).cells key = some c ↔ Restores records key c) := by
  refine ⟨fun store f hok => ?_, fun file => ?_⟩
  · obtain ⟨records, p, tail, hfile, hf⟩ := rdbLoad_ok hok
    exact ⟨records, p, tail, hfile, hf, fun q y hq => rdbLoad_cut (hq ▸ hfile) store⟩
  · cases file with
    | none => exact Or.inl rfl
    | some f =>
      rcases @rdbLoad_result D clock storeCreate f with hok | hgive
      · obtain ⟨records, p, tail, hfile, rfl⟩ := rdbLoad_ok hok
        have hserved : startupStore clock (some (p ++ rdbOpEof :: tail)) =
            (loaded clock (storeCreate : Store D) records).store := by
          rw [startupStore, rdbLoad_of_file hfile]
        refine Or.inr ⟨hok, ?_, records, p, tail, hfile, rfl, fun key c => ?_⟩
        · rw [hserved, rdbLoad_of_file hfile]
        · rw [hserved]
          exact (loaded_spec clock records).cells key c
      · left
        rw [startupStore]
        rcases hr : rdbLoad clock (storeCreate : Store D) (some f) with ⟨result, store⟩
        rw [hr] at hgive
        rcases hgive with rfl | rfl <;> rfl

end PulseDB
