import PulseDB.Store.Invariant
import Mathlib.Data.List.Induction

/-!
# Sorted sets

A sorted set keeps two structures that must agree: the array, strictly increasing by (score, member), and the
hash index from members to scores. The old slot of a member is found by a binary search for the score the
index has cached.

* `ZSetEntry.Lt` : the order; `zsetLowerBound_eq` says that the search computes the lower bound of a pair;
* `ZSet.Inv` : the invariant; `ZSet.Inv.add` : an addition keeps it and sets the score of one member;
* `zset_adds` : the array after any sequence of additions to a key is the sorted enumeration of the last
  scores.
-/

namespace PulseDB
open Lib.Chains Lib.SortedArray

variable {D : Type} [LinearOrder D]

/-! ## The order -/

def ZSetEntry.Lt (a b : ZSetEntry D) : Prop :=
  a.score < b.score ∨ (a.score = b.score ∧ strcmp a.member b.member < 0)

instance : DecidableRel (ZSetEntry.Lt (D := D)) := fun a b => by
  unfold ZSetEntry.Lt
  infer_instance

theorem zsetCmp_pos (score : D) (member : Bytes) (e : ZSetEntry D) :
    0 < zsetCmp score member e ↔ e.Lt ⟨member, score⟩ := by
  unfold zsetCmp ZSetEntry.Lt
  rcases lt_trichotomy score e.score with h | h | h
  · rw [if_pos h]
    simp [lt_asymm h, h.ne']
  · subst h
    simp [strcmp_neg_iff]
  · rw [if_neg (lt_asymm h), if_pos h]
    simp [h]

instance : IsStrictTotalOrder (ZSetEntry D) ZSetEntry.Lt where
  irrefl a h := by
    rcases h with h | ⟨-, h⟩
    · exact lt_irrefl _ h
    · simp at h
  trans a b c h1 h2 := by
    rcases h1 with h1 | ⟨e1, h1⟩
    · rcases h2 with h2 | ⟨e2, -⟩
      · exact Or.inl (h1.trans h2)
      · exact Or.inl (e2 ▸ h1)
    · rcases h2 with h2 | ⟨e2, h2⟩
      · exact Or.inl (e1 ▸ h2)
      · exact Or.inr ⟨e1.trans e2, strcmp_trans h1 h2⟩
  trichotomous a b hab hba := by
    unfold ZSetEntry.Lt at hab hba
    rw [not_or, not_and] at hab hba
    have hs : a.score = b.score := le_antisymm (not_lt.mp hba.1) (not_lt.mp hab.1)
    have h1 := hab.2 hs
    have h2 := hba.2 hs.symm
    rw [strcmp_neg_iff] at h2
    have hm := strcmp_eq_zero.mp (show strcmp a.member b.member = 0 by omega)
    cases a
    cases b
    rw [ZSetEntry.mk.injEq]
    exact ⟨hm, hs⟩

/-! ## The index -/

section Index
omit [LinearOrder D]
variable {t : List (List (ZIndexNode D))} {size : ℕ}

/-- Every node sits in the chain its hash selects, the cached hash is the one of the member, and no member
occurs twice. -/
structure ZIndexInv (t : List (List (ZIndexNode D))) (size : ℕ) : Prop where
  chains : t.length = size
  placed : ∀ i, ∀ n ∈ chain t i, indexSlot n.hash size = i
  hashed : ∀ n ∈ t.flatten, n.hash = hash64 n.member
  nodes : (t.flatten.map ZIndexNode.member).Nodup

theorem ZIndexNode.named_eq {n : ZIndexNode D} {member : Bytes} (h : n.hash = hash64 n.member) :
    n.named member (hash64 member) = decide (n.member = member) := by
  unfold ZIndexNode.named
  rw [h]
  by_cases hm : n.member = member
  · simp [hm]
  · have : strcmp n.member member ≠ 0 := fun h0 => hm (strcmp_eq_zero.mp h0)
    simp [hm, this]

def memberSlot (size : ℕ) (member : Bytes) : ℕ := indexSlot (hash64 member) size

theorem ZIndexInv.keyed (h : ZIndexInv t size) (h0 : size ≠ 0) :
    Keyed (memberSlot size) ZIndexNode.member t where
  slot m := by
    rw [h.chains]
    exact indexSlot_lt _ (Nat.pos_of_ne_zero h0)
  placed i n hn := by
    rw [memberSlot, ← h.hashed n (mem_flatten_iff.mpr ⟨i, hn⟩)]
    exact h.placed i n hn
  nodup := h.nodes

theorem ZIndexInv.of_keyed (hk : Keyed (memberSlot size) ZIndexNode.member t) (hl : t.length = size)
    (hh : ∀ n ∈ t.flatten, n.hash = hash64 n.member) : ZIndexInv t size where
  chains := hl
  placed i n hn := by
    rw [hh n (mem_flatten_iff.mpr ⟨i, hn⟩)]
    exact hk.placed i n hn
  hashed := hh
  nodes := hk.nodup

theorem ZIndexInv.named (h : ZIndexInv t size) (member : Bytes) (i : ℕ) :
    ∀ n ∈ chain t i, n.named member (hash64 member) = decide (n.member = member) :=
  fun n hn => ZIndexNode.named_eq (h.hashed n (mem_flatten_iff.mpr ⟨i, hn⟩))

theorem ZIndexInv.rehash (h : ZIndexInv t size) {size' : ℕ} (hs : 0 < size') :
    ZIndexInv (rehash (fun n => indexSlot n.hash size') size' t) size' ∧
      (Lib.Chains.rehash (fun n => indexSlot n.hash size') size' t).flatten.Perm t.flatten := by
  have hb : Lib.Chains.rehash (fun n => indexSlot n.hash size') size' t =
      Lib.Chains.rehash (fun n => memberSlot size' n.member) size' t :=
    linkAll_congr fun n hn => by rw [h.hashed n hn]; rfl
  have hslot : ∀ m, memberSlot size' m < size' := fun m => indexSlot_lt _ hs
  have hp := rehash_perm (fun n : ZIndexNode D => memberSlot size' n.member) size' t fun n _ => hslot n.member
  rw [hb]
  exact ⟨.of_keyed (keyed_rehash h.nodes hslot) (length_rehash _ _ _) fun n hn =>
    h.hashed n (hp.mem_iff.mp hn), hp⟩

theorem ZIndexInv.link (h : ZIndexInv t size) (h0 : size ≠ 0) {member : Bytes}
    (hnew : member ∉ t.flatten.map ZIndexNode.member) (score : D) :
    ZIndexInv (link t (memberSlot size member) ⟨member, hash64 member, score⟩) size ∧
      (Lib.Chains.link t (memberSlot size member) ⟨member, hash64 member, score⟩).flatten.Perm
        (⟨member, hash64 member, score⟩ :: t.flatten) := by
  have hk := h.keyed h0
  have hp := link_perm (hk.slot member) (⟨member, hash64 member, score⟩ : ZIndexNode D)
  refine ⟨.of_keyed (hk.link (e := ⟨member, hash64 member, score⟩) (hk.find_eq_none.mpr hnew)) ?_
    fun n hn => ?_, hp⟩
  · rw [length_link, h.chains]
  · rcases List.mem_cons.mp (hp.mem_iff.mp hn) with rfl | hn
    · rfl
    · exact h.hashed n hn

theorem ZIndexInv.amend (h : ZIndexInv t size) (h0 : size ≠ 0) {n : ZIndexNode D} (hn : n ∈ t.flatten)
    (score : D) :
    let t' := amend t (memberSlot size n.member) (ZIndexNode.named n.member (hash64 n.member))
      fun n => { n with score := score }
    ZIndexInv t' size ∧ ∃ rest, t.flatten.Perm (n :: rest) ∧
      t'.flatten.Perm ({ n with score := score } :: rest) := by
  have hk := h.keyed h0
  have hf := hk.find_eq_some.mpr ⟨hn, rfl⟩
  have hb : Lib.Chains.amend t (memberSlot size n.member) (ZIndexNode.named n.member (hash64 n.member))
      (fun n => { n with score := score }) =
      Lib.Chains.amend t (memberSlot size n.member) (fun x => decide (x.member = n.member))
        (fun n => { n with score := score }) :=
    modify_congr (hk.slot n.member) (updateFirst_congr (h.named n.member _))
  have hp := amend_perm (fun n : ZIndexNode D => { n with score := score }) (hk.slot n.member) hf
  have hq := unlink_perm (hk.slot n.member) hf
  intro t'
  have ht' : t' = Lib.Chains.amend t (memberSlot size n.member) (fun x => decide (x.member = n.member))
      (fun n => { n with score := score }) := hb
  rw [ht']
  refine ⟨.of_keyed (hk.amend hf fun _ => rfl) ?_ fun x hx => ?_, _, hq, hp⟩
  · rw [length_amend, h.chains]
  · rcases List.mem_cons.mp (hp.mem_iff.mp hx) with rfl | hx
    · exact h.hashed n hn
    · exact h.hashed x (hq.mem_iff.mpr (List.mem_cons_of_mem _ hx))

end Index

/-! ## The invariant -/

/-- Array and index of a sorted set agree, and each is in order. -/
structure ZSet.Inv (z : ZSet D) : Prop where
  sorted : z.entries.Pairwise ZSetEntry.Lt
  members : (z.entries.map ZSetEntry.member).Nodup
  len : z.len = z.entries.length
  cap : z.len ≤ z.cap
  indexSize : z.indexSize = 0 ∨ ∃ k, z.indexSize = 8 * 2 ^ k
  load : z.len ≤ z.indexSize
  index : ZIndexInv z.index z.indexSize
  agree : ∀ member score, (∃ n ∈ z.index.flatten, n.member = member ∧ n.score = score) ↔
    ⟨member, score⟩ ∈ z.entries

theorem ZSet.inv_empty : ({} : ZSet D).Inv where
  sorted := List.Pairwise.nil
  members := List.nodup_nil
  len := rfl
  cap := Nat.le_refl _
  indexSize := Or.inl rfl
  load := Nat.le_refl _
  index := ⟨rfl, fun i n hn => by simp [chain] at hn, fun n hn => by simp at hn, List.nodup_nil⟩
  agree member score := by simp

/-! ## Scores as a relation -/

section Scores
omit [LinearOrder D]
variable {ε : Type}

/-- Some element of the list has this member and this score. -/
def ScoresIn (f : ε → Bytes × D) (l : List ε) (m : Bytes) (s : D) : Prop := ∃ e ∈ l, f e = (m, s)

/-- The relation `R'` is `R` with the one score `score` for `member`. -/
def SetsTo (member : Bytes) (score : D) (R R' : Bytes → D → Prop) : Prop :=
  ∀ m s, R' m s ↔ if m = member then s = score else R m s

theorem SetsTo.agree {member : Bytes} {score : D} {I I' A A' : Bytes → D → Prop}
    (hI : SetsTo member score I I')
    (hA : SetsTo member score A A') (h : ∀ m s, I m s ↔ A m s) (m : Bytes) (s : D) : I' m s ↔ A' m s := by
  rw [hI m s, hA m s, h m s]

/-- A list whose elements are a new one for `member` and the old ones for the other members. -/
theorem setsTo_cons {f : ε → Bytes × D} {l l' rest : List ε} {x : ε} {member : Bytes} {score : D}
    (hx : f x = (member, score)) (hl' : l'.Perm (x :: rest)) (hfresh : ∀ e ∈ rest, (f e).1 ≠ member)
    (hl : ∀ e, (f e).1 ≠ member → (e ∈ l ↔ e ∈ rest)) : SetsTo member score (ScoresIn f l)
      (ScoresIn f l') := by
  intro m s
  by_cases hm : m = member
  · subst hm
    rw [if_pos rfl]
    constructor
    · rintro ⟨e, he, hfe⟩
      rcases List.mem_cons.mp (hl'.mem_iff.mp he) with rfl | he
      · exact (Prod.mk.inj (hfe.symm.trans hx)).2
      · exact absurd (by rw [hfe]) (hfresh e he)
    · rintro rfl
      exact ⟨x, hl'.mem_iff.mpr (List.mem_cons_self ..), hx⟩
  · rw [if_neg hm]
    constructor
    · rintro ⟨e, he, hfe⟩
      rcases List.mem_cons.mp (hl'.mem_iff.mp he) with rfl | he
      · exact absurd (Prod.mk.inj (hfe.symm.trans hx)).1 hm
      · exact ⟨e, (hl e (by rw [hfe]; exact hm)).mpr he, hfe⟩
    · rintro ⟨e, he, hfe⟩
      exact ⟨e, hl'.mem_iff.mpr (List.mem_cons_of_mem _ ((hl e (by rw [hfe]; exact hm)).mp he)), hfe⟩

def entryScore (e : ZSetEntry D) : Bytes × D := (e.member, e.score)

def nodeScore (n : ZIndexNode D) : Bytes × D := (n.member, n.score)

theorem scoresIn_entries {l : List (ZSetEntry D)} {m : Bytes} {s : D} :
    ScoresIn entryScore l m s ↔ ⟨m, s⟩ ∈ l := by
  constructor
  · rintro ⟨e, he, hfe⟩
    obtain ⟨rfl, rfl⟩ := Prod.mk.inj hfe
    exact he
  · exact fun he => ⟨_, he, rfl⟩

theorem agree_iff {z : ZSet D} :
    (∀ m s, (∃ n ∈ z.index.flatten, n.member = m ∧ n.score = s) ↔ ⟨m, s⟩ ∈ z.entries) ↔
      ∀ m s, ScoresIn nodeScore z.index.flatten m s ↔ ScoresIn entryScore z.entries m s := by
  simp only [scoresIn_entries]
  simp only [ScoresIn, nodeScore, Prod.mk.injEq]

end Scores

/-! ## The array -/

section Array
variable {z : ZSet D}

theorem ZSet.Inv.zindexFind_eq_some (h : z.Inv) {member : Bytes} {n : ZIndexNode D} :
    zindexFind z member (hash64 member) = some n ↔ n ∈ z.index.flatten ∧ n.member = member := by
  unfold zindexFind
  by_cases h0 : z.indexSize = 0
  · rw [if_pos h0, List.length_eq_zero_iff.mp (h.index.chains.trans h0)]
    simp
  · rw [if_neg h0, ← (h.index.keyed h0).find_eq_some, ← find_congr (h.index.named member _)]
    rfl

theorem ZSet.Inv.zindexFind_eq_none (h : z.Inv) {member : Bytes} :
    zindexFind z member (hash64 member) = none ↔ ∀ score, ⟨member, score⟩ ∉ z.entries := by
  rw [Option.eq_none_iff_forall_ne_some]
  constructor
  · intro hn score hs
    obtain ⟨n, hm, hk, -⟩ := (h.agree member score).mpr hs
    exact hn n (h.zindexFind_eq_some.mpr ⟨hm, hk⟩)
  · intro hs n hn
    obtain ⟨hm, hk⟩ := h.zindexFind_eq_some.mp hn
    exact hs n.score ((h.agree member n.score).mp ⟨n, hm, hk, rfl⟩)

theorem ZSet.Inv.score_unique (h : z.Inv) {member : Bytes} {a b : D} (ha : ⟨member, a⟩ ∈ z.entries)
    (hb : ⟨member, b⟩ ∈ z.entries) : a = b := by
  have := List.inj_on_of_nodup_map h.members ha hb rfl
  exact (ZSetEntry.mk.inj this).2

theorem zsetLowerBound_eq (hlen : z.len = z.entries.length) (score : D) (member : Bytes) :
    zsetLowerBound z score member = slotOf ZSetEntry.Lt z.entries ⟨member, score⟩ := by
  unfold zsetLowerBound slotOf
  rw [hlen]
  congr 1
  funext mid
  congr 1
  funext e
  exact decide_eq_decide.mpr (zsetCmp_pos score member e)

theorem ZSet.Inv.zindexFind_of_mem (h : z.Inv) {member : Bytes} {score : D}
    (hm : ⟨member, score⟩ ∈ z.entries) :
    ∃ n, zindexFind z member (hash64 member) = some n ∧ n.score = score := by
  obtain ⟨n, hn, hmember, hscore⟩ := (h.agree member score).mpr hm
  exact ⟨n, h.zindexFind_eq_some.mpr ⟨hn, hmember⟩, hscore⟩

theorem ZSet.Inv.scoreOf_of_mem (h : z.Inv) {member : Bytes} {score : D} (hm : ⟨member, score⟩ ∈ z.entries) :
    z.scoreOf member = some score := by
  obtain ⟨n, hn, rfl⟩ := h.zindexFind_of_mem hm
  rw [ZSet.scoreOf, hn, Option.map_some]

/-- The rank of a member counts the entries before it, and is its position. -/
theorem ZSet.Inv.rank_of_mem (h : z.Inv) {member : Bytes} {score : D} (hm : ⟨member, score⟩ ∈ z.entries) :
    z.rank member = some (z.entries.countP fun x => decide (x.Lt ⟨member, score⟩)) ∧
      z.entries[z.entries.countP fun x => decide (x.Lt ⟨member, score⟩)]? = some ⟨member, score⟩ := by
  obtain ⟨n, hn, rfl⟩ := h.zindexFind_of_mem hm
  have hat := getElem?_slotOf h.sorted hm
  rw [slotOf_eq_countP h.sorted] at hat
  refine ⟨?_, hat⟩
  rw [ZSet.rank, hn, Option.map_some, zsetLowerBound_eq h.len, slotOf_eq_countP h.sorted]

theorem zsetInsert_array (hlen : z.len = z.entries.length) (hs : z.entries.Pairwise ZSetEntry.Lt)
    (hm : (z.entries.map ZSetEntry.member).Nodup) {member : Bytes} (hnew : ∀ e ∈ z.entries, e.member ≠ member)
    (score : D) :
    (zsetInsert z score member).entries.Pairwise ZSetEntry.Lt ∧
      ((zsetInsert z score member).entries.map ZSetEntry.member).Nodup ∧
      (zsetInsert z score member).len = (zsetInsert z score member).entries.length ∧
      (zsetInsert z score member).entries.Perm (⟨member, score⟩ :: z.entries) := by
  have he : (zsetInsert z score member).entries =
      insertAt z.entries (slotOf ZSetEntry.Lt z.entries ⟨member, score⟩) ⟨member, score⟩ := by
    rw [← zsetLowerBound_eq hlen]
    rfl
  rw [he]
  refine ⟨pairwise_insertAt hs fun hx => hnew _ hx rfl, ?_, ?_, insertAt_perm _ _ _⟩
  · rw [((insertAt_perm _ _ _).map _).nodup_iff, List.map_cons, List.nodup_cons, List.mem_map]
    exact ⟨fun ⟨e, he, hm⟩ => hnew e he hm, hm⟩
  · rw [length_insertAt (slotOf_spec (r := ZSetEntry.Lt) hs _).1]
    show z.len + 1 = _
    rw [hlen]

theorem zset_cap_grows {len cap : ℕ} (h : len ≤ cap) :
    len + 1 ≤ if len = cap then (if cap ≠ 0 then cap * 2 else 8) else cap := by
  split_ifs <;> omega

/-! ## Additions -/

theorem zindexGrow_spec (h : z.Inv) : (zindexGrow z).entries = z.entries ∧ (zindexGrow z).len = z.len ∧
    (zindexGrow z).cap = z.cap ∧ (∃ k, (zindexGrow z).indexSize = 8 * 2 ^ k) ∧
    z.len < (zindexGrow z).indexSize ∧
    ZIndexInv (zindexGrow z).index (zindexGrow z).indexSize ∧
    (zindexGrow z).index.flatten.Perm z.index.flatten := by
  unfold zindexGrow
  have hload := h.load
  by_cases hfull : z.len ≥ z.indexSize
  · rw [if_pos hfull]
    have hpos : 0 < if z.indexSize ≠ 0 then z.indexSize * 2 else 8 := by split_ifs <;> omega
    obtain ⟨h1, h2⟩ := h.index.rehash hpos
    refine ⟨rfl, rfl, rfl, ?_, ?_, h1, h2⟩
    · rcases h.indexSize with h0 | ⟨k, hk⟩
      · exact ⟨0, by simp [h0]⟩
      · refine ⟨k + 1, ?_⟩
        have hpow : 0 < 2 ^ k := Nat.pow_pos (by decide)
        have hne : z.indexSize ≠ 0 := by omega
        simp only [if_pos hne]
        rw [hk, Nat.pow_succ, Nat.mul_assoc]
    · show z.len < if z.indexSize ≠ 0 then z.indexSize * 2 else 8
      split_ifs <;> omega
  · rw [if_neg hfull]
    refine ⟨rfl, rfl, rfl, ?_, by omega, h.index, List.Perm.refl _⟩
    rcases h.indexSize with h0 | hk
    · omega
    · exact hk

theorem ZSet.Inv.add_new (h : z.Inv) {member : Bytes} (hn : zindexFind z member (hash64 member) = none)
    (score : D) :
    let z' := zsetInsert (zindexAdd z member (hash64 member) score) score member
    z'.Inv ∧ SetsTo member score (ScoresIn entryScore z.entries) (ScoresIn entryScore z'.entries) := by
  intro z'
  have hout := h.zindexFind_eq_none.mp hn
  have hnew : ∀ e ∈ z.entries, e.member ≠ member := fun e he hm => hout e.score (hm ▸ he)
  have hnewn : ∀ n ∈ z.index.flatten, n.member ≠ member :=
    fun n hn' hm => hout n.score (hm ▸ (h.agree n.member n.score).mp ⟨n, hn', rfl, rfl⟩)
  obtain ⟨ge, gl, gc, gs, groom, gi, gp⟩ := zindexGrow_spec h
  have hfresh : member ∉ (zindexGrow z).index.flatten.map ZIndexNode.member := by
    rw [(gp.map _).mem_iff, List.mem_map]
    exact fun ⟨n, hn', hm⟩ => hnewn n hn' hm
  obtain ⟨li, lp⟩ := gi.link (by omega) hfresh score
  have hz : (zindexAdd z member (hash64 member) score).entries = z.entries := ge
  obtain ⟨hs, hm, hl, hp⟩ := zsetInsert_array (z := zindexAdd z member (hash64 member) score)
    (gl.trans (ge ▸ h.len)) (hz ▸ h.sorted) (hz ▸ h.members) (by rw [hz]; exact hnew) score
  have hA : SetsTo member score (ScoresIn entryScore z.entries) (ScoresIn entryScore z'.entries) :=
    setsTo_cons rfl (hz ▸ hp) hnew fun _ _ => Iff.rfl
  have hI : SetsTo member score (ScoresIn nodeScore z.index.flatten) (ScoresIn nodeScore z'.index.flatten) :=
    setsTo_cons rfl (lp.trans (gp.cons _)) hnewn fun _ _ => Iff.rfl
  refine ⟨⟨hs, hm, hl, zset_cap_grows (by rw [show (zindexAdd z member (hash64 member) score).len = _ from gl,
    show (zindexAdd z member (hash64 member) score).cap = _ from gc]; exact h.cap), Or.inr gs, ?_, li,
    agree_iff.mpr (hI.agree hA (agree_iff.mp h.agree))⟩, hA⟩
  show (zindexGrow z).len + 1 ≤ (zindexGrow z).indexSize
  rw [gl]
  exact groom

/-- The member is there under another score: its old slot is where the search for the cached score ends. -/
theorem ZSet.Inv.add_moved (h : z.Inv) {node : ZIndexNode D} (hn : node ∈ z.index.flatten) (score : D) :
    let i := zsetLowerBound z node.score node.member
    let z₁ : ZSet D := { z with entries := z.entries.eraseIdx i, len := z.len - 1 }
    let z₂ := zsetInsert z₁ score node.member
    let z' : ZSet D := { z₂ with
      index := amend z₂.index (indexSlot (hash64 node.member) z₂.indexSize)
        (ZIndexNode.named node.member (hash64 node.member))
        fun n => { n with score := score } }
    z.entries[i]? = some ⟨node.member, node.score⟩ ∧ z'.Inv ∧
      SetsTo node.member score (ScoresIn entryScore z.entries) (ScoresIn entryScore z'.entries) := by
  intro i z₁ z₂ z'
  have hold := (h.agree node.member node.score).mp ⟨node, hn, rfl, rfl⟩
  have hi : z.entries[i]? = some ⟨node.member, node.score⟩ := by
    rw [show i = _ from zsetLowerBound_eq h.len node.score node.member]
    exact getElem?_slotOf h.sorted hold
  have hlt : i < z.entries.length := (List.getElem?_eq_some_iff.mp hi).1
  have hperm : z.entries.Perm (⟨node.member, node.score⟩ :: z₁.entries) := eraseIdx_perm hi
  have hnodup := h.members
  rw [(hperm.map _).nodup_iff, List.map_cons, List.nodup_cons] at hnodup
  have hrest : ∀ e ∈ z₁.entries, e.member ≠ node.member :=
    fun e he hm => hnodup.1 (List.mem_map.mpr ⟨e, he, hm⟩)
  obtain ⟨hs, hm, hl, hp⟩ := @zsetInsert_array _ _ z₁
    (by show z.len - 1 = (z.entries.eraseIdx i).length; rw [List.length_eraseIdx_of_lt hlt, h.len])
    (h.sorted.sublist (List.eraseIdx_sublist _ _)) hnodup.2 node.member hrest score
  have hload := h.load
  have hlen := h.len
  have hcap := h.cap
  have h0 : z.indexSize ≠ 0 := by omega
  obtain ⟨ai, rest, ap, ap'⟩ := h.index.amend h0 hn score
  have hA : SetsTo node.member score (ScoresIn entryScore z.entries) (ScoresIn entryScore z'.entries) := by
    refine setsTo_cons rfl hp hrest fun e hne => ?_
    rw [hperm.mem_iff, List.mem_cons]
    exact ⟨fun ho => ho.elim (fun he => absurd (by rw [he]; rfl) hne) id, Or.inr⟩
  have hI : SetsTo node.member score (ScoresIn nodeScore z.index.flatten)
      (ScoresIn nodeScore z'.index.flatten) := by
    refine setsTo_cons rfl ap' (fun n hn' hm => ?_) fun n hne => ?_
    · have := h.index.nodes
      rw [(ap.map _).nodup_iff, List.map_cons, List.nodup_cons] at this
      exact this.1 (List.mem_map.mpr ⟨n, hn', hm⟩)
    · rw [ap.mem_iff, List.mem_cons]
      exact ⟨fun ho => ho.elim (fun he => absurd (by rw [he]; rfl) hne) id, Or.inr⟩
  refine ⟨hi, ⟨hs, hm, hl, zset_cap_grows (show z.len - 1 ≤ z.cap by omega), h.indexSize, ?_, ai,
    agree_iff.mpr (hI.agree hA (agree_iff.mp h.agree))⟩, hA⟩
  show z.len - 1 + 1 ≤ z.indexSize
  omega

/-- An addition keeps the invariant and sets the score of its member; it reports whether the member is new. -/
theorem ZSet.Inv.add (h : z.Inv) (score : D) (member : Bytes) :
    (z.add score member).2.Inv ∧
      SetsTo member score (ScoresIn entryScore z.entries)
        (ScoresIn entryScore (z.add score member).2.entries) ∧
      ((z.add score member).1 = true ↔ ∀ s, ⟨member, s⟩ ∉ z.entries) := by
  unfold ZSet.add
  simp only
  cases hf : zindexFind z member (hash64 member) with
  | none =>
    obtain ⟨h1, h2⟩ := h.add_new hf score
    exact ⟨h1, h2, fun _ => h.zindexFind_eq_none.mp hf, fun _ => rfl⟩
  | some node =>
    obtain ⟨hn, rfl⟩ := h.zindexFind_eq_some.mp hf
    have hold := (h.agree node.member node.score).mp ⟨node, hn, rfl, rfl⟩
    by_cases hsame : node.score = score
    · simp only [if_pos hsame]
      refine ⟨h, fun m s => ?_, by simp, fun hout => absurd hold (hout _)⟩
      split
      · rename_i hm
        subst hm
        rw [scoresIn_entries]
        exact ⟨fun hs => (h.score_unique hs hold).trans hsame, fun hs => by rw [hs, ← hsame]; exact hold⟩
      · rfl
    · simp only [if_neg hsame]
      obtain ⟨hi, h1, h2⟩ := h.add_moved hn score
      rw [hi]
      exact ⟨h1, h2, by simp, fun hout => absurd hold (hout _)⟩

end Array

/-! ## Sequences of additions -/

/-- One call of `store_zset_add`: score, member and clock reading. -/
structure ZAdd (D : Type) where
  score : D
  member : Bytes
  now : Int

omit [LinearOrder D] in
/-- The last score given to a member. -/
def lastScore (adds : List (ZAdd D)) (member : Bytes) : Option D :=
  adds.foldl (fun last a => if a.member = member then some a.score else last) none

/-- The calls on one key, in order. -/
def storeZsetAdds (s : Store D) (key : Bytes) (adds : List (ZAdd D)) : Store D :=
  adds.foldl (fun s a => (storeZsetAdd s key a.score a.member a.now).2) s

/-- What a key holds after some additions: a sorted set in good order whose array enumerates the last
scores. -/
def Enumerates (adds : List (ZAdd D)) : Option (Cell D) → Prop
  | none => adds = []
  | some c => ∃ z : ZSet D, c = ⟨.zset z, 0⟩ ∧ z.Inv ∧
      ∀ member score, ⟨member, score⟩ ∈ z.entries ↔ lastScore adds member = some score

/-- The key is absent when the first of the calls looks it up. -/
def StartsAbsent (s : Store D) (key : Bytes) (adds : List (ZAdd D)) : Prop :=
  ∀ a ∈ adds.head?, live a.now (s.cells key) = none

omit [LinearOrder D] in
theorem lastScore_snoc (adds : List (ZAdd D)) (a : ZAdd D) (member : Bytes) :
    lastScore (adds ++ [a]) member = if a.member = member then some a.score else lastScore adds member := by
  simp [lastScore]

theorem storeZsetAdds_snoc (s : Store D) (key : Bytes) (adds : List (ZAdd D)) (a : ZAdd D) :
    storeZsetAdds s key (adds ++ [a]) =
      (storeZsetAdd (storeZsetAdds s key adds) key a.score a.member a.now).2 := by
  simp [storeZsetAdds]

theorem Enumerates.add {s : Store D} {key : Bytes} {adds : List (ZAdd D)} {a : ZAdd D} (hs : s.Inv)
    (h : Enumerates adds (live a.now (s.cells key))) :
    (storeZsetAdd s key a.score a.member a.now).1 = .ok (lastScore adds a.member).isNone ∧
      (storeZsetAdd s key a.score a.member a.now).2.Inv ∧
      Enumerates (adds ++ [a]) ((storeZsetAdd s key a.score a.member a.now).2.cells key) := by
  have hd := storeZsetAdd_does hs key a.score a.member a.now
  -- the sorted set the call works on: the one of the key, or a new one
  obtain ⟨z, hz, hent, hcell⟩ : ∃ z : ZSet D, z.Inv ∧
      (∀ member score, ⟨member, score⟩ ∈ z.entries ↔ lastScore adds member = some score) ∧
      Cell.alter Value.asZset .zset (fun z => let r := (z.getD {}).add a.score a.member; .ok (r.1, some r.2))
        (live a.now (s.cells key)) = (.ok (z.add a.score a.member).1,
          some ⟨.zset (z.add a.score a.member).2, 0⟩) := by
    cases hc : live a.now (s.cells key) with
    | none =>
      rw [hc] at h
      refine ⟨{}, ZSet.inv_empty, fun m sc => ?_, rfl⟩
      rw [show adds = [] from h]
      simp [lastScore]
    | some c =>
      rw [hc] at h
      obtain ⟨z, rfl, hz, hent⟩ := h
      exact ⟨z, hz, hent, rfl⟩
  rw [hcell] at hd
  obtain ⟨h1, h2, h3⟩ := hz.add a.score a.member
  have hnew : (z.add a.score a.member).1 = (lastScore adds a.member).isNone := by
    rw [Bool.eq_iff_iff, h3, Option.isNone_iff_eq_none, Option.eq_none_iff_forall_ne_some]
    exact forall_congr' fun sc => not_congr (hent a.member sc)
  refine ⟨by rw [hd.result, ← hnew], hd.inv, ?_⟩
  rw [hd.cells, Function.update_self]
  refine ⟨_, rfl, h1, fun m sc => ?_⟩
  rw [← scoresIn_entries, h2 m sc, lastScore_snoc, scoresIn_entries, hent m sc]
  by_cases hm : m = a.member
  · rw [if_pos hm, if_pos hm.symm, Option.some.injEq, eq_comm]
  · rw [if_neg hm, if_neg (Ne.symm hm)]

theorem Enumerates.live {adds : List (ZAdd D)} {c : Option (Cell D)} (h : Enumerates adds c) (hne : adds ≠ [])
    (now : Int) : Enumerates adds (PulseDB.live now c) := by
  cases c with
  | none => exact absurd h hne
  | some c =>
    obtain ⟨z, rfl, -⟩ := id h
    exact h

theorem enumerates_adds {s : Store D} (hs : s.Inv) {key : Bytes} (adds : List (ZAdd D)) :
    ∀ a, StartsAbsent s key (adds ++ [a]) → (storeZsetAdds s key adds).Inv ∧
      Enumerates adds (live a.now ((storeZsetAdds s key adds).cells key)) := by
  induction adds using List.reverseRecOn with
  | nil => exact fun a h0 => ⟨hs, by rw [storeZsetAdds, List.foldl_nil, h0 a rfl]; rfl⟩
  | append_singleton adds b ih =>
    intro a h0
    have hstart : StartsAbsent s key (adds ++ [b]) := by
      intro x hx
      refine h0 x ?_
      rw [List.head?_append, Option.mem_def.mp hx]
      rfl
    obtain ⟨h1, h2⟩ := ih b hstart
    obtain ⟨-, h3, h4⟩ := h2.add h1
    rw [storeZsetAdds_snoc]
    exact ⟨h3, h4.live (by simp) a.now⟩

/-- After additions to a key that was absent it holds a sorted set that lists the last scores. -/
theorem storeZsetAdds_entries {s : Store D} (hs : s.Inv) {key : Bytes} (adds : List (ZAdd D)) (a : ZAdd D)
    (h0 : StartsAbsent s key (adds ++ [a])) :
    ∃ z : ZSet D, (storeZsetAdds s key (adds ++ [a])).cells key = some ⟨.zset z, 0⟩ ∧ z.Inv ∧
      ∀ member score, ⟨member, score⟩ ∈ z.entries ↔ lastScore (adds ++ [a]) member = some score := by
  obtain ⟨h1, h2⟩ := enumerates_adds hs adds a h0
  obtain ⟨-, -, h3⟩ := h2.add h1
  rw [← storeZsetAdds_snoc] at h3
  cases hc : (storeZsetAdds s key (adds ++ [a])).cells key with
  | none =>
    rw [hc] at h3
    exact absurd (show adds ++ [a] = [] from h3) (by simp)
  | some c =>
    rw [hc] at h3
    obtain ⟨z, rfl, hz, hent⟩ := h3
    exact ⟨z, rfl, hz, hent⟩

/-- Any sequence of additions to a key that was absent, ending in `a`: the last call reports whether its
member is new; the key then holds a sorted set in good order whose array is the sorted enumeration of the last
scores; and any other sequence with the same last scores gives the same array. -/
theorem zset_adds {s : Store D} (hs : s.Reachable) {key : Bytes} (adds : List (ZAdd D)) (a : ZAdd D)
    (h0 : StartsAbsent s key (adds ++ [a])) :
    (storeZsetAdd (storeZsetAdds s key adds) key a.score a.member a.now).1 =
      .ok (lastScore adds a.member).isNone ∧
    ∃ z : ZSet D, (storeZsetAdds s key (adds ++ [a])).cells key = some ⟨.zset z, 0⟩ ∧ z.Inv ∧
      (∀ member score, ⟨member, score⟩ ∈ z.entries ↔ lastScore (adds ++ [a]) member = some score) ∧
      ∀ (s' : Store D) (key' : Bytes) (adds' : List (ZAdd D)) (a' : ZAdd D), s'.Reachable →
        StartsAbsent s' key' (adds' ++ [a']) → lastScore (adds ++ [a]) = lastScore (adds' ++ [a']) →
        ∃ z' : ZSet D, (storeZsetAdds s' key' (adds' ++ [a'])).cells key' = some ⟨.zset z', 0⟩ ∧
          z.entries = z'.entries := by
  obtain ⟨h1, h2⟩ := enumerates_adds hs.inv adds a h0
  obtain ⟨z, hc, hz, hent⟩ := storeZsetAdds_entries hs.inv adds a h0
  refine ⟨(h2.add h1).1, z, hc, hz, hent, fun s' key' adds' a' hs' h0' hlast => ?_⟩
  obtain ⟨z', hc', hz', hent'⟩ := storeZsetAdds_entries hs'.inv adds' a' h0'
  refine ⟨z', hc', eq_of_mem_iff hz.sorted hz'.sorted fun e => ?_⟩
  rw [hent e.member e.score, hent' e.member e.score, hlast]

/-- A member whose score falls below that of another: the array is re-sorted. -/
theorem zset_adds_two_members :
    let adds : List (ZAdd ℕ) := [⟨5, ascii "a", 0⟩, ⟨3, ascii "b", 0⟩]
    let a : ZAdd ℕ := ⟨1, ascii "a", 0⟩
    (storeZsetAdd (storeZsetAdds storeCreate (ascii "k") adds) (ascii "k") a.score a.member a.now).1 =
      .ok false ∧
    ∃ z : ZSet ℕ, (storeZsetAdds storeCreate (ascii "k") (adds ++ [a])).cells (ascii "k") =
        some ⟨.zset z, 0⟩ ∧
      z.Inv ∧ z.entries = [⟨ascii "a", 1⟩, ⟨ascii "b", 3⟩] := by
  intro adds a
  have h0 : StartsAbsent storeCreate (ascii "k") (adds ++ [a]) := by
    intro x _
    rfl
  obtain ⟨h1, z, hc, hz, -⟩ := zset_adds Store.Reachable.create adds a h0
  refine ⟨h1, z, hc, hz, ?_⟩
  have hval : ((storeZsetAdds storeCreate (ascii "k") (adds ++ [a])).cells (ascii "k")).map
      (fun c => c.value.asZset.map (·.entries)) = some (some [⟨ascii "a", 1⟩, ⟨ascii "b", 3⟩]) := by decide
  rw [hc] at hval
  exact Option.some.inj (Option.some.inj hval)

end PulseDB
