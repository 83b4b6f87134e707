import PulseDB.Cmd.Table
import PulseDB.Lib.Probing

/-!
# Command dispatch

The open-addressing table replaces a scan of the command table.

* `buildLookup_free` : while the table is built, and after that, every search meets a free slot;
* `freeSlot_rounds`, `probe_rounds` : so the loops end, and more rounds than slots change nothing;
* `commandScan` : the scan with `strcasecmp`; `commandLookup_scan` : the search finds what the scan finds.
-/

namespace PulseDB
open Lib Lib.Probing

/-! ## The loops end -/

/-- The slots the search from a slot looks at come to a free one. -/
def ProbeEnds (slots : List (Option ℕ)) (slot : ℕ) : Prop :=
  ∃ k < lookupSize, slotAt slots (nextSlot^[k] slot) = none

theorem nextSlot_eq : nextSlot = following lookupSize := by
  funext slot
  exact Nat.and_two_pow_sub_one_eq_mod (slot + 1) 7

def addName (slots : List (Option ℕ)) (entry : Bytes × ℕ) : List (Option ℕ) :=
  slots.set (freeSlot slots lookupSize (nameSlot entry.1)) (some entry.2)

theorem foldl_addName : ∀ (entries : List (Bytes × ℕ)) (slots : List (Option ℕ)),
    (entries.foldl addName slots).length = slots.length ∧
      occupied (entries.foldl addName slots) ≤ occupied slots + entries.length
  | [], slots => ⟨rfl, Nat.le_refl _⟩
  | entry :: entries, slots => by
    obtain ⟨hlen, hocc⟩ := foldl_addName entries (addName slots entry)
    have hset : occupied (addName slots entry) ≤ occupied slots + 1 := occupied_set_le slots _ _
    rw [List.foldl_cons, List.length_cons]
    refine ⟨hlen.trans (List.length_set ..), ?_⟩
    omega

theorem buildLookup_free {names : List Bytes} (h : names.length < lookupSize) {slot : ℕ}
    (hslot : slot < lookupSize) :
    ProbeEnds (buildLookup names) slot := by
  obtain ⟨hlen, hocc⟩ := foldl_addName names.zipIdx (List.replicate lookupSize none)
  rw [occupied_replicate, List.length_zipIdx, Nat.zero_add] at hocc
  rw [List.length_replicate] at hlen
  change (buildLookup names).length = lookupSize at hlen
  change occupied (buildLookup names) ≤ names.length at hocc
  have hroom : occupied (buildLookup names) < (buildLookup names).length := by omega
  obtain ⟨k, hk, hfree⟩ := exists_free hroom (hlen ▸ hslot)
  rw [hlen] at hk hfree
  refine ⟨k, hk, ?_⟩
  rw [slotAt, nextSlot_eq, hfree]
  rfl

/-- A search for a free slot does not run out of rounds, and finds one. -/
theorem freeSlot_rounds {slots : List (Option ℕ)} :
    ∀ {k n slot : ℕ}, slotAt slots (nextSlot^[k] slot) = none → k < n →
    freeSlot slots n slot = freeSlot slots (k + 1) slot ∧ slotAt slots (freeSlot slots n slot) = none
  | k, 0, _, _, hk => absurd hk (Nat.not_lt_zero k)
  | 0, n + 1, slot, h, _ => by
    rw [Function.iterate_zero_apply] at h
    have hfree : ∀ m, freeSlot slots (m + 1) slot = slot := fun m => by rw [freeSlot, h]; rfl
    rw [hfree, hfree]
    exact ⟨rfl, h⟩
  | k + 1, n + 1, slot, h, hk => by
    rw [Function.iterate_succ_apply] at h
    obtain ⟨heq, hfree⟩ := freeSlot_rounds h (Nat.lt_of_succ_lt_succ hk)
    rw [freeSlot, freeSlot, heq]
    by_cases hs : (slotAt slots slot).isSome = true
    · rw [if_pos hs]
      exact ⟨rfl, heq ▸ hfree⟩
    · rw [if_neg hs]
      exact ⟨rfl, Option.not_isSome_iff_eq_none.mp hs⟩

/-- A search for a name that meets a free slot does not run out of rounds. -/
theorem probe_rounds {names : List Bytes} {slots : List (Option ℕ)} {lower : Bytes} :
    ∀ {k n slot : ℕ}, slotAt slots (nextSlot^[k] slot) = none → k < n →
      probe names slots lower n slot = probe names slots lower (k + 1) slot
  | k, 0, _, _, hk => absurd hk (Nat.not_lt_zero k)
  | 0, n + 1, slot, h, _ => by
    rw [Function.iterate_zero_apply] at h
    rw [probe, probe, h]
  | k + 1, n + 1, slot, h, hk => by
    rw [Function.iterate_succ_apply] at h
    rw [probe, probe, probe_rounds h (Nat.lt_of_succ_lt_succ hk)]

theorem ProbeEnds.rounds {slots : List (Option ℕ)} {slot : ℕ} (h : ProbeEnds slots slot) (n : ℕ) :
    freeSlot slots (lookupSize + n) slot = freeSlot slots lookupSize slot ∧
      slotAt slots (freeSlot slots lookupSize slot) = none ∧
      ∀ names lower, probe names slots lower (lookupSize + n) slot =
        probe names slots lower lookupSize slot := by
  obtain ⟨k, hk, hfree⟩ := h
  have hmore : k < lookupSize + n := hk.trans_le (Nat.le_add_right _ _)
  refine ⟨?_, (freeSlot_rounds hfree hk).2, fun names lower => ?_⟩
  · rw [(freeSlot_rounds hfree hmore).1, (freeSlot_rounds hfree hk).1]
  · rw [probe_rounds hfree hmore, probe_rounds hfree hk]

/-! ## The scan -/

variable {D : Type} [LinearOrder D]

/-- The first entry of the table whose name equals the string with `strcasecmp`. -/
def commandScan (name : Bytes) : Option (CommandSpec D) :=
  commandTable.find? fun spec => strcaseEq spec.name name

/-- The names of the table are in lower case, and shorter than the buffer. -/
theorem commandTable_lower {spec : CommandSpec D} (h : spec ∈ commandTable) :
    spec.name.map toLower = spec.name ∧ spec.name.length + 1 ≤ maxCommandName := by
  have hall : ∀ name ∈ commandNames, name.map toLower = name ∧ name.length + 1 ≤ maxCommandName := by
    decide +kernel
  refine hall spec.name ?_
  rw [← commandTable_names (D := D)]
  exact List.mem_map_of_mem h

theorem commandLookup_of_lower {spec : CommandSpec D} {name : Bytes} (h : spec ∈ commandTable)
    (hname : name.map toLower = spec.name) : commandLookup name = some spec := by
  obtain ⟨hlower, hlen⟩ := commandTable_lower h
  have hsame : name.length = spec.name.length := by rw [← hname, List.length_map]
  rw [← commandLookup_name h, commandLookup, commandLookup, lookupIndex, lookupIndex, if_neg (by omega),
    if_neg (by omega), hname, hlower]

theorem commandLookup_eq_scan (name : Bytes) : commandLookup (D := D) name = commandScan name := by
  cases hscan : commandScan (D := D) name with
  | some spec =>
    have hmem := List.mem_of_find?_eq_some hscan
    have heq := List.find?_some (p := fun x : CommandSpec D => strcaseEq x.name name) hscan
    exact commandLookup_of_lower hmem ((eq_of_beq heq).symm.trans (commandTable_lower hmem).1)
  | none =>
    cases hfound : commandLookup (D := D) name with
    | none => rfl
    | some spec =>
      obtain ⟨hmem, hname⟩ := commandLookup_some hfound
      refine absurd ?_ (List.find?_eq_none.mp hscan spec hmem)
      rw [strcaseEq, (commandTable_lower hmem).1, hname]
      exact beq_self_eq_true _

/-- The search finds what the scan finds, for every string; every search ends, while the table is built and
after that, within as many rounds as there are slots. -/
theorem commandLookup_scan :
    (∀ name : Bytes, commandLookup (D := D) name = commandScan name) ∧
    (∀ i ≤ commandNames.length, ∀ slot < lookupSize, ProbeEnds (buildLookup (commandNames.take i)) slot) ∧
    ∀ i ≤ commandNames.length, ∀ slot < lookupSize, ∀ n : ℕ,
      freeSlot (buildLookup (commandNames.take i)) (lookupSize + n) slot =
        freeSlot (buildLookup (commandNames.take i)) lookupSize slot ∧
      slotAt (buildLookup (commandNames.take i))
        (freeSlot (buildLookup (commandNames.take i)) lookupSize slot) = none ∧
      ∀ names lower, probe names (buildLookup (commandNames.take i)) lower (lookupSize + n) slot =
        probe names (buildLookup (commandNames.take i)) lower lookupSize slot := by
  have hends : ∀ i ≤ commandNames.length, ∀ slot < lookupSize, ProbeEnds
      (buildLookup (commandNames.take i)) slot := by
    intro i _ slot hslot
    refine buildLookup_free ?_ hslot
    have hle := List.length_take_le' i commandNames
    have hall : commandNames.length < lookupSize := by decide
    omega
  exact ⟨commandLookup_eq_scan, hends, fun i hi slot hslot n => (hends i hi slot hslot).rounds n⟩

end PulseDB
