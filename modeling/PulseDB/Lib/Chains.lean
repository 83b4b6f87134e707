import Mathlib.Data.List.Basic
import Mathlib.Data.List.GetD
import Mathlib.Data.List.Nodup
import Mathlib.Data.List.Perm.Basic
import Mathlib.Tactic.Common

/-!
# Chained buckets

A hash table with separate chaining, as a list of chains.

* `link`, `unlink`, `amend` : push an entry at the head of a chain, unlink the first match, change the first
  match in place; `rehash` moves every entry to the chain its new index names, chain by chain and head first;
* `link_perm`, `unlink_perm`, `amend_perm`, `rehash_perm` : what each does to the entries of the whole table;
* `Keyed ix key t` : every entry sits in the chain `ix` gives for its key, and no key occurs twice; every
  operation keeps it, and `find` after the operation is `find_link`, `find_unlink`, `find_amend`,
  `find_rehash`.
-/

namespace PulseDB.Lib.Chains
variable {ε K : Type}

/-- The chain of bucket `i`. -/
def chain (t : List (List ε)) (i : ℕ) : List ε := t.getD i []

/-- Push `e` at the head of chain `i`. -/
def link (t : List (List ε)) (i : ℕ) (e : ε) : List (List ε) := t.modify i (e :: ·)

/-- Unlink the first entry of chain `i` that satisfies `p`. -/
def unlink (t : List (List ε)) (i : ℕ) (p : ε → Bool) : List (List ε) := t.modify i (·.eraseP p)

/-- Change the first entry that satisfies `p`. -/
def updateFirst (p : ε → Bool) (f : ε → ε) : List ε → List ε
  | [] => []
  | e :: es => if p e then f e :: es else e :: updateFirst p f es

/-- Change the first entry of chain `i` that satisfies `p`, in place. -/
def amend (t : List (List ε)) (i : ℕ) (p : ε → Bool) (f : ε → ε) : List (List ε) :=
  t.modify i (updateFirst p f)

/-- Link the entries one after the other, each into the chain its index names. -/
def linkAll (ix : ε → ℕ) (t : List (List ε)) (es : List ε) : List (List ε) :=
  es.foldl (fun t e => link t (ix e) e) t

/-- A table of `size` chains with every entry of `t`, walked chain by chain. -/
def rehash (ix : ε → ℕ) (size : ℕ) (t : List (List ε)) : List (List ε) :=
  linkAll ix (List.replicate size []) t.flatten

/-! ## Chains and the whole table -/

theorem chain_eq {t : List (List ε)} {i : ℕ} (h : i < t.length) : chain t i = t[i] := by
  rw [chain, List.getD_eq_getElem _ _ h]

theorem chain_of_le {t : List (List ε)} {i : ℕ} (h : t.length ≤ i) : chain t i = [] := by
  rw [chain, List.getD_eq_default _ _ h]

theorem chain_modify (t : List (List ε)) (i j : ℕ) (f : List ε → List ε) (hi : i < t.length) :
    chain (t.modify i f) j = if i = j then f (chain t i) else chain t j := by
  by_cases hj : j < t.length
  · rw [chain_eq (by simpa using hj), List.getElem_modify, chain_eq hj, chain_eq hi]
    split
    · rename_i h; subst h; rfl
    · rfl
  · rw [chain_of_le (by simpa using hj), if_neg (by omega), chain_of_le (by omega)]

theorem mem_flatten_iff {t : List (List ε)} {e : ε} : e ∈ t.flatten ↔ ∃ i, e ∈ chain t i := by
  rw [List.mem_flatten]
  constructor
  · rintro ⟨l, hl, he⟩
    obtain ⟨i, hi, rfl⟩ := List.getElem_of_mem hl
    exact ⟨i, by rw [chain_eq hi]; exact he⟩
  · rintro ⟨i, he⟩
    by_cases hi : i < t.length
    · rw [chain_eq hi] at he
      exact ⟨t[i], List.getElem_mem hi, he⟩
    · rw [chain_of_le (by omega)] at he
      exact absurd he (by simp)

/-- The table around chain `i`: whatever the chain is changed to, the other entries stay. -/
theorem exists_rest {t : List (List ε)} {i : ℕ} (hi : i < t.length) :
    ∃ rest, t.flatten.Perm (chain t i ++ rest) ∧ ∀ f, (t.modify i f).flatten.Perm
      (f (chain t i) ++ rest) := by
  refine ⟨(t.take i).flatten ++ (t.drop (i + 1)).flatten, ?_, fun f => ?_⟩
  · have ht : t = t.take i ++ t[i] :: t.drop (i + 1) := by
      rw [← List.drop_eq_getElem_cons hi, List.take_append_drop]
    conv_lhs => rw [ht]
    rw [List.flatten_append, List.flatten_cons, chain_eq hi]
    exact (List.perm_append_comm_assoc _ _ _)
  · rw [List.modify_eq_take_cons_drop hi, List.flatten_append, List.flatten_cons, chain_eq hi]
    exact (List.perm_append_comm_assoc _ _ _)

theorem link_perm {t : List (List ε)} {i : ℕ} (hi : i < t.length) (e : ε) :
    (link t i e).flatten.Perm (e :: t.flatten) := by
  obtain ⟨rest, hr, hf⟩ := exists_rest hi
  exact (hf _).trans ((hr.symm).cons e)

theorem eraseP_perm {p : ε → Bool} {e : ε} : ∀ {l : List ε}, l.find? p = some e → l.Perm (e :: l.eraseP p)
  | [], h => by simp at h
  | a :: l, h => by
    by_cases ha : p a
    · rw [List.find?_cons_of_pos ha, Option.some.injEq] at h
      subst h
      rw [List.eraseP_cons_of_pos ha]
    · rw [List.find?_cons_of_neg ha] at h
      rw [List.eraseP_cons_of_neg ha]
      exact ((eraseP_perm h).cons a).trans (List.Perm.swap e a _)

theorem updateFirst_perm {p : ε → Bool} {e : ε} (f : ε → ε) :
    ∀ {l : List ε}, l.find? p = some e → (updateFirst p f l).Perm (f e :: l.eraseP p)
  | [], h => by simp at h
  | a :: l, h => by
    by_cases ha : p a
    · rw [List.find?_cons_of_pos ha, Option.some.injEq] at h
      subst h
      rw [updateFirst, if_pos ha, List.eraseP_cons_of_pos ha]
    · rw [List.find?_cons_of_neg ha] at h
      rw [updateFirst, if_neg ha, List.eraseP_cons_of_neg ha]
      exact ((updateFirst_perm f h).cons a).trans (List.Perm.swap (f e) a _)

theorem unlink_perm {t : List (List ε)} {i : ℕ} {p : ε → Bool} {e : ε} (hi : i < t.length)
    (h : (chain t i).find? p = some e) : t.flatten.Perm (e :: (unlink t i p).flatten) := by
  obtain ⟨rest, hr, hf⟩ := exists_rest hi
  exact hr.trans (((eraseP_perm h).append_right rest).trans ((hf _).symm.cons e))

theorem amend_perm {t : List (List ε)} {i : ℕ} {p : ε → Bool} {e : ε} (f : ε → ε) (hi : i < t.length)
    (h : (chain t i).find? p = some e) :
    (amend t i p f).flatten.Perm (f e :: (unlink t i p).flatten) := by
  obtain ⟨rest, -, hf⟩ := exists_rest hi
  exact (hf _).trans (((updateFirst_perm f h).append_right rest).trans ((hf _).symm.cons (f e)))

@[simp] theorem length_link (t : List (List ε)) (i : ℕ) (e : ε) : (link t i e).length = t.length := by
  simp [link]

@[simp] theorem length_unlink (t : List (List ε)) (i : ℕ) (p : ε → Bool) :
    (unlink t i p).length = t.length := by
  simp [unlink]

@[simp] theorem length_amend (t : List (List ε)) (i : ℕ) (p : ε → Bool) (f : ε → ε) :
    (amend t i p f).length = t.length := by
  simp [amend]

@[simp] theorem length_linkAll (ix : ε → ℕ) :
    ∀ (es : List ε) (t : List (List ε)), (linkAll ix t es).length = t.length
  | [], _ => rfl
  | e :: es, t => by
    rw [linkAll, List.foldl_cons]
    exact (length_linkAll ix es _).trans (length_link t _ e)

@[simp] theorem length_rehash (ix : ε → ℕ) (size : ℕ) (t : List (List ε)) :
    (rehash ix size t).length = size := by
  simp [rehash]

theorem linkAll_perm (ix : ε → ℕ) : ∀ (es : List ε) (t : List (List ε)), (∀ e ∈ es, ix e < t.length) →
    (linkAll ix t es).flatten.Perm (es ++ t.flatten)
  | [], _, _ => List.Perm.refl _
  | e :: es, t, h => by
    have he : ix e < t.length := h e (by simp)
    have ih := linkAll_perm ix es (link t (ix e) e) (fun x hx => by simpa using h x (by simp [hx]))
    exact (ih.trans ((link_perm he e).append_left es)).trans List.perm_middle

theorem rehash_perm (ix : ε → ℕ) (size : ℕ) (t : List (List ε)) (h : ∀ e ∈ t.flatten, ix e < size) :
    (rehash ix size t).flatten.Perm t.flatten := by
  have hl := linkAll_perm ix t.flatten (List.replicate size []) (by simpa using h)
  have hz : (List.replicate size ([] : List ε)).flatten = [] := by simp
  rwa [hz, List.append_nil] at hl

/-! ## Equal tests, equal indexes -/

theorem eraseP_congr {p q : ε → Bool} : ∀ {l : List ε}, (∀ e ∈ l, p e = q e) → l.eraseP p = l.eraseP q
  | [], _ => rfl
  | a :: l, h => by
    rw [List.eraseP_cons, List.eraseP_cons, h a (by simp), eraseP_congr fun e he => h e (by simp [he])]

theorem updateFirst_congr {p q : ε → Bool} {f : ε → ε} :
    ∀ {l : List ε}, (∀ e ∈ l, p e = q e) → updateFirst p f l = updateFirst q f l
  | [], _ => rfl
  | a :: l, h => by
    rw [updateFirst, updateFirst, h a (by simp), updateFirst_congr fun e he => h e (by simp [he])]

theorem modify_congr {t : List (List ε)} {i : ℕ} {f g : List ε → List ε} (hi : i < t.length)
    (h : f (chain t i) = g (chain t i)) : t.modify i f = t.modify i g := by
  rw [chain_eq hi] at h
  rw [List.modify_eq_take_cons_drop hi, List.modify_eq_take_cons_drop hi, h]

theorem linkAll_congr {ix ix' : ε → ℕ} : ∀ {es : List ε} {t : List (List ε)}, (∀ e ∈ es, ix e = ix' e) →
    linkAll ix t es = linkAll ix' t es
  | [], _, _ => rfl
  | e :: es, t, h => by
    rw [linkAll, linkAll, List.foldl_cons, List.foldl_cons, h e (by simp)]
    exact linkAll_congr fun x hx => h x (by simp [hx])

/-! ## Keyed tables -/

/-- Every entry sits in the chain `ix` gives for its key, and no key occurs twice. -/
structure Keyed (ix : K → ℕ) (key : ε → K) (t : List (List ε)) : Prop where
  slot : ∀ k, ix k < t.length
  placed : ∀ i, ∀ e ∈ chain t i, ix (key e) = i
  nodup : (t.flatten.map key).Nodup

theorem placed_link {ix : ε → ℕ} {t : List (List ε)} {e : ε} (he : ix e < t.length)
    (h : ∀ i, ∀ x ∈ chain t i, ix x = i) : ∀ i, ∀ x ∈ chain (link t (ix e) e) i, ix x = i := by
  intro i x hx
  rw [link, chain_modify _ _ _ _ he] at hx
  split at hx
  · rename_i hi
    rcases List.mem_cons.mp hx with rfl | hx
    · exact hi
    · exact (h _ x hx).trans hi
  · exact h i x hx

theorem placed_linkAll (ix : ε → ℕ) : ∀ (es : List ε) (t : List (List ε)), (∀ e ∈ es, ix e < t.length) →
    (∀ i, ∀ x ∈ chain t i, ix x = i) → ∀ i, ∀ x ∈ chain (linkAll ix t es) i, ix x = i
  | [], _, _, h => h
  | e :: es, t, hes, h =>
    placed_linkAll ix es (link t (ix e) e) (fun x hx => by simpa using hes x (by simp [hx]))
      (placed_link (hes e (by simp)) h)

theorem placed_rehash (ix : ε → ℕ) (size : ℕ) (t : List (List ε)) (h : ∀ e ∈ t.flatten, ix e < size) :
    ∀ i, ∀ x ∈ chain (rehash ix size t) i, ix x = i := by
  refine placed_linkAll ix t.flatten _ (by simpa using h) fun i x hx => ?_
  have : x ∈ (List.replicate size ([] : List ε)).flatten := mem_flatten_iff.mpr ⟨i, hx⟩
  simp at this

section Find
variable {ix : K → ℕ} {key : ε → K} {t : List (List ε)}

theorem Keyed.unique (h : Keyed ix key t) {a b : ε} (ha : a ∈ t.flatten) (hb : b ∈ t.flatten)
    (hk : key a = key b) : a = b :=
  List.inj_on_of_nodup_map h.nodup ha hb hk

theorem keyed_rehash (hn : (t.flatten.map key).Nodup) {ix' : K → ℕ} {size : ℕ} (hs : ∀ k, ix' k < size) :
    Keyed ix' key (rehash (fun e => ix' (key e)) size t) where
  slot k := by rw [length_rehash]; exact hs k
  placed := placed_rehash _ _ _ fun e _ => hs (key e)
  nodup := by
    rw [((rehash_perm (fun e => ix' (key e)) size t fun e _ => hs (key e)).map key).nodup_iff]
    exact hn

variable [DecidableEq K]

/-- The entry of key `k`. -/
def find (ix : K → ℕ) (key : ε → K) (t : List (List ε)) (k : K) : Option ε :=
  (chain t (ix k)).find? (fun e => decide (key e = k))

theorem find_congr {p : ε → Bool} {k : K} (hp : ∀ e ∈ chain t (ix k), p e = decide (key e = k)) :
    (chain t (ix k)).find? p = find ix key t k := by
  rw [find]
  generalize chain t (ix k) = l at hp
  induction l with
  | nil => rfl
  | cons a l ih =>
    rw [List.find?_cons, List.find?_cons, hp a (by simp), ih fun e he => hp e (by simp [he])]

theorem find_some_key {k : K} {e : ε} (h : find ix key t k = some e) : key e = k := by
  have := List.find?_some h
  simpa using this

theorem find_some_mem {k : K} {e : ε} (h : find ix key t k = some e) : e ∈ t.flatten :=
  mem_flatten_iff.mpr ⟨_, List.mem_of_find?_eq_some h⟩

theorem Keyed.find_eq_some (h : Keyed ix key t) {k : K} {e : ε} :
    find ix key t k = some e ↔ e ∈ t.flatten ∧ key e = k := by
  constructor
  · exact fun hf => ⟨find_some_mem hf, find_some_key hf⟩
  · rintro ⟨hm, rfl⟩
    obtain ⟨i, hi⟩ := mem_flatten_iff.mp hm
    have hix := h.placed i e hi
    cases hf : find ix key t (key e) with
    | none =>
      rw [find, List.find?_eq_none] at hf
      exact absurd (by simp) (hf e (by rw [hix]; exact hi))
    | some a => rw [h.unique (find_some_mem hf) hm (find_some_key hf)]

theorem Keyed.find_eq_none (h : Keyed ix key t) {k : K} :
    find ix key t k = none ↔ k ∉ t.flatten.map key := by
  rw [Option.eq_none_iff_forall_ne_some]
  constructor
  · intro hn hk
    obtain ⟨e, he, rfl⟩ := List.mem_map.mp hk
    exact hn e (h.find_eq_some.mpr ⟨he, rfl⟩)
  · intro hk e he
    obtain ⟨hm, rfl⟩ := h.find_eq_some.mp he
    exact hk (List.mem_map_of_mem hm)

/-! ### Linking a new key -/

theorem Keyed.link (h : Keyed ix key t) {e : ε} (he : find ix key t (key e) = none) :
    Keyed ix key (link t (ix (key e)) e) where
  slot k := by rw [length_link]; exact h.slot k
  placed := @placed_link ε (fun e => ix (key e)) t e (h.slot _) h.placed
  nodup := by
    rw [((link_perm (h.slot _) e).map key).nodup_iff, List.map_cons, List.nodup_cons]
    exact ⟨h.find_eq_none.mp he, h.nodup⟩

theorem Keyed.find_link (h : Keyed ix key t) (e : ε) (k : K) :
    find ix key (Chains.link t (ix (key e)) e) k = if key e = k then some e else find ix key t k := by
  rw [find, Chains.link, chain_modify _ _ _ _ (h.slot _)]
  by_cases hk : key e = k
  · subst hk
    simp
  · rw [if_neg hk]
    split
    · rename_i hi
      rw [hi, List.find?_cons_of_neg (by simpa using hk)]
      rfl
    · rfl

/-! ### Unlinking a key -/

theorem Keyed.unlink (h : Keyed ix key t) {k : K} {e : ε} (he : find ix key t k = some e) :
    Keyed ix key (unlink t (ix k) (fun x => decide (key x = k))) where
  slot j := by rw [length_unlink]; exact h.slot j
  placed i x hx := by
    rw [Chains.unlink, chain_modify _ _ _ _ (h.slot _)] at hx
    split at hx
    · rename_i hi
      exact h.placed i x (hi ▸ List.mem_of_mem_eraseP hx)
    · exact h.placed i x hx
  nodup := by
    have hn := h.nodup
    rw [((unlink_perm (h.slot _) he).map key).nodup_iff, List.map_cons, List.nodup_cons] at hn
    exact hn.2

theorem Keyed.find_unlink (h : Keyed ix key t) {k : K} {e : ε} (he : find ix key t k = some e) (j : K) :
    find ix key (Chains.unlink t (ix k) (fun x => decide (key x = k))) j =
      if j = k then none else find ix key t j := by
  have hu := h.unlink he
  have hp := unlink_perm (h.slot k) he
  have hn := h.nodup
  rw [(hp.map key).nodup_iff, List.map_cons, List.nodup_cons, find_some_key he] at hn
  by_cases hj : j = k
  · rw [if_pos hj, hu.find_eq_none, hj]
    exact hn.1
  · rw [if_neg hj]
    refine Option.ext fun a => ?_
    rw [hu.find_eq_some, h.find_eq_some, hp.mem_iff, List.mem_cons]
    constructor
    · rintro ⟨ha, rfl⟩
      exact ⟨Or.inr ha, rfl⟩
    · rintro ⟨rfl | ha, rfl⟩
      · exact absurd (find_some_key he) hj
      · exact ⟨ha, rfl⟩

/-! ### Changing the entry of a key -/

theorem Keyed.amend (h : Keyed ix key t) {k : K} {e : ε} (he : find ix key t k = some e) {f : ε → ε}
    (hf : ∀ x, key (f x) = key x) : Keyed ix key (amend t (ix k) (fun x => decide (key x = k)) f) where
  slot j := by rw [length_amend]; exact h.slot j
  placed i x hx := by
    rw [Chains.amend, chain_modify _ _ _ _ (h.slot _)] at hx
    split at hx
    · rename_i hi
      rcases List.mem_cons.mp ((updateFirst_perm f he).mem_iff.mp hx) with rfl | hx
      · rw [hf, find_some_key he, hi]
      · exact h.placed i x (hi ▸ List.mem_of_mem_eraseP hx)
    · exact h.placed i x hx
  nodup := by
    have hn := h.nodup
    rw [((unlink_perm (h.slot _) he).map key).nodup_iff, List.map_cons] at hn
    rw [((amend_perm f (h.slot _) he).map key).nodup_iff, List.map_cons, hf]
    exact hn

theorem Keyed.find_amend (h : Keyed ix key t) {k : K} {e : ε} (he : find ix key t k = some e) {f : ε → ε}
    (hf : ∀ x, key (f x) = key x) (j : K) :
    find ix key (Chains.amend t (ix k) (fun x => decide (key x = k)) f) j =
      if j = k then some (f e) else find ix key t j := by
  have ha := h.amend he hf
  have hp := amend_perm f (h.slot k) he
  have hq := unlink_perm (h.slot k) he
  have hke := find_some_key he
  by_cases hj : j = k
  · rw [if_pos hj, ha.find_eq_some, hp.mem_iff, hf, hke]
    exact ⟨by simp, hj.symm⟩
  · rw [if_neg hj]
    refine Option.ext fun a => ?_
    rw [ha.find_eq_some, h.find_eq_some, hp.mem_iff, hq.mem_iff, List.mem_cons, List.mem_cons]
    constructor
    · rintro ⟨rfl | hm, rfl⟩
      · rw [hf] at hj; exact absurd hke hj
      · exact ⟨Or.inr hm, rfl⟩
    · rintro ⟨rfl | hm, rfl⟩
      · exact absurd hke hj
      · exact ⟨Or.inr hm, rfl⟩

/-! ### Rehashing -/

theorem Keyed.find_rehash (h : Keyed ix key t) {ix' : K → ℕ} {size : ℕ} (hs : ∀ k, ix' k < size) (k : K) :
    find ix' key (Chains.rehash (fun e => ix' (key e)) size t) k = find ix key t k := by
  refine Option.ext fun a => ?_
  rw [(keyed_rehash h.nodup hs).find_eq_some, h.find_eq_some,
    (rehash_perm (fun e => ix' (key e)) size t fun e _ => hs (key e)).mem_iff]

end Find

theorem keyed_replicate {ix : K → ℕ} {key : ε → K} {size : ℕ} (hs : ∀ k, ix k < size) :
    Keyed ix key (List.replicate size []) where
  slot k := by rw [List.length_replicate]; exact hs k
  placed i e he := by
    have : e ∈ (List.replicate size ([] : List ε)).flatten := mem_flatten_iff.mpr ⟨i, he⟩
    simp at this
  nodup := by simp

end PulseDB.Lib.Chains
