import PulseDB.Store.Counter

/-!
# Strict integers

`parse_int64` promises that the whole string is a number. It leaves the reading to `strtoll`, which passes
over blanks in front of the number; behind it nothing is left over.

* `Integer s v` : all of `s` is a sign, or none, and one or more digits, with the value `v`; `Integer64` : in
  range;
* `integer_iff` : the sign split off;
* `parseInt64_digits`, `parseInt64_other` : what `parse_int64` makes of what follows the sign;
* `parseInt64_eq_some_iff` : it accepts the integers that stand behind any blanks;
* `parse_int64_strict_iff` : the strings on which it is strict, and that are incremented only as integers.
-/

namespace PulseDB

/-! ## Integers -/

/-- An integer with its value. -/
inductive Integer : Bytes → Int → Prop
  | unsigned {ds : Bytes} (hne : ds ≠ []) (hds : ∀ c ∈ ds, isDigit c = true) : Integer ds (digitsVal ds)
  | plus {ds : Bytes} (hne : ds ≠ []) (hds : ∀ c ∈ ds, isDigit c = true) : Integer (43 :: ds) (digitsVal ds)
  | minus {ds : Bytes} (hne : ds ≠ []) (hds : ∀ c ∈ ds, isDigit c = true) :
    Integer (45 :: ds) (-(digitsVal ds : Int))

/-- An integer in the signed 64-bit range. -/
def Integer64 (s : Bytes) (v : Int) : Prop := Integer s v ∧ int64Min ≤ v ∧ v ≤ int64Max

theorem signOf_cases (t : Bytes) :
    (∃ u, t = 45 :: u ∧ signOf t = (true, u)) ∨ (∃ u, t = 43 :: u ∧ signOf t = (false, u)) ∨
      signOf t = (false, t) := by
  unfold signOf
  split
  · exact Or.inl ⟨_, rfl, rfl⟩
  · exact Or.inr (Or.inl ⟨_, rfl, rfl⟩)
  · exact Or.inr (Or.inr rfl)

theorem integer_iff (t : Bytes) (v : Int) :
    Integer t v ↔ (signOf t).2 ≠ [] ∧ (∀ c ∈ (signOf t).2, isDigit c = true) ∧
      v = signedVal (signOf t).1 (digitsVal (signOf t).2) := by
  constructor
  · rintro (⟨hne, hds⟩ | ⟨hne, hds⟩ | ⟨hne, hds⟩)
    · rw [signOf_digits hds]
      exact ⟨hne, hds, rfl⟩
    · exact ⟨hne, hds, rfl⟩
    · exact ⟨hne, hds, rfl⟩
  · rcases signOf_cases t with ⟨u, rfl, hsign⟩ | ⟨u, rfl, hsign⟩ | hsign
    · rw [hsign]
      rintro ⟨hne, hds, rfl⟩
      exact .minus hne hds
    · rw [hsign]
      rintro ⟨hne, hds, rfl⟩
      exact .plus hne hds
    · rw [hsign]
      rintro ⟨hne, hds, rfl⟩
      exact .unsigned hne hds

theorem Integer.head_not_space {c : UInt8} {s : Bytes} {v : Int} (h : Integer (c :: s) v) :
    isSpace c = false := by
  cases h with
  | unsigned _ hds => exact isSpace_of_isDigit (hds c List.mem_cons_self)
  | plus => decide
  | minus => decide

/-! ## Reading them -/

/-- Nothing is left behind the digits when there is nothing but digits. -/
theorem drop_takeWhile_eq_nil_iff (u : Bytes) :
    u.drop (u.takeWhile isDigit).length = [] ↔ ∀ c ∈ u, isDigit c = true := by
  rw [List.drop_eq_nil_iff]
  constructor
  · intro hle
    have hall := (List.takeWhile_sublist isDigit (l := u)).eq_of_length_le hle
    exact List.takeWhile_eq_self_iff.mp hall
  · intro hds
    rw [List.takeWhile_eq_self_iff.mpr hds]

theorem parseInt64_leftover {s : Bytes} (h : (strtoll s).rest ≠ []) : parseInt64 s = none := by
  have hleft : ((strtoll s).erange || (strtoll s).rest != []) = true := by
    rw [Bool.or_eq_true, bne_iff_ne]
    exact Or.inr h
  unfold parseInt64
  split
  · rfl
  · exact if_pos hleft

section Signed
variable {s u : Bytes} {neg : Bool}

theorem parseInt64_other (hsign : signOf (s.dropWhile isSpace) = (neg, u))
    (h : ¬ (u ≠ [] ∧ ∀ c ∈ u, isDigit c = true)) : parseInt64 s = none := by
  by_cases hnone : u.takeWhile isDigit = []
  · by_cases hs : s = []
    · rw [parseInt64, if_pos hs]
    · apply parseInt64_leftover
      rw [strtoll_eq hsign]
      simp only [if_pos hnone]
      exact hs
  · have hu : u ≠ [] := by
      rintro rfl
      exact hnone rfl
    have hrest : u.drop (u.takeWhile isDigit).length ≠ [] := by
      rw [ne_eq, drop_takeWhile_eq_nil_iff]
      exact fun hds => h ⟨hu, hds⟩
    apply parseInt64_leftover
    rw [strtoll_eq hsign]
    simp only [if_neg hnone]
    split_ifs <;> exact hrest

theorem parseInt64_digits (hsign : signOf (s.dropWhile isSpace) = (neg, u)) (hne : u ≠ [])
    (hds : ∀ c ∈ u, isDigit c = true) :
    parseInt64 s = if int64Min ≤ signedVal neg (digitsVal u) ∧ signedVal neg (digitsVal u) ≤ int64Max
      then some (signedVal neg (digitsVal u)) else none := by
  have hs : s ≠ [] := by
    rintro rfl
    cases hsign
    exact hne rfl
  have hread := strtoll_eq hsign
  rw [List.takeWhile_eq_self_iff.mpr hds] at hread
  simp only [if_neg hne, List.drop_length] at hread
  rw [parseInt64, if_neg hs, hread]
  generalize signedVal neg (digitsVal u) = v
  by_cases hlow : v < int64Min
  · have hout : ¬ (int64Min ≤ v ∧ v ≤ int64Max) := by omega
    rw [if_pos hlow, if_neg hout]
    rfl
  by_cases hhigh : int64Max < v
  · have hout : ¬ (int64Min ≤ v ∧ v ≤ int64Max) := by omega
    rw [if_neg hlow, if_pos hhigh, if_neg hout]
    rfl
  have hin : int64Min ≤ v ∧ v ≤ int64Max := by omega
  rw [if_neg hlow, if_neg hhigh, if_pos hin]
  rfl

end Signed

/-- `parse_int64` accepts an integer in range behind any blanks, and nothing else. -/
theorem parseInt64_eq_some_iff (s : Bytes) (v : Int) :
    parseInt64 s = some v ↔ Integer64 (s.dropWhile isSpace) v := by
  obtain ⟨neg, u, hsign⟩ : ∃ neg u, signOf (s.dropWhile isSpace) = (neg, u) := ⟨_, _, rfl⟩
  rw [Integer64, integer_iff, hsign]
  by_cases hdigits : u ≠ [] ∧ ∀ c ∈ u, isDigit c = true
  · rw [parseInt64_digits hsign hdigits.1 hdigits.2, Option.ite_none_right_eq_some, Option.some.injEq]
    constructor
    · rintro ⟨hrange, rfl⟩
      exact ⟨⟨hdigits.1, hdigits.2, rfl⟩, hrange⟩
    · rintro ⟨⟨-, -, rfl⟩, hrange⟩
      exact ⟨hrange, rfl⟩
  · rw [parseInt64_other hsign hdigits]
    exact iff_of_false (Option.some_ne_none v).symm fun h => hdigits ⟨h.1.1, h.1.2.1⟩

/-! ## Strict strings -/

/-- Blanks, and behind them an integer in range. -/
def BlankLed (s : Bytes) : Prop := (∃ c ∈ s.head?, isSpace c = true) ∧ ∃ v, Integer64 (s.dropWhile isSpace) v

theorem dropWhile_isSpace_of_head {s : Bytes} (h : ¬ ∃ c ∈ s.head?, isSpace c = true) :
    s.dropWhile isSpace = s := by
  cases s with
  | nil => rfl
  | cons c s => exact List.dropWhile_cons_of_neg fun hc => h ⟨c, rfl, hc⟩

variable {D : Type}

/-- An increment that succeeds has read the string with `parse_int64`. -/
theorem storeIncrby_reads [LinearOrder D] {store : Store D} (hstore : store.Reachable) {key s : Bytes}
    {expiresAt delta now now' r : Int} (hcell : live now (store.cells key) = some ⟨.str s, expiresAt⟩)
    (hr : (storeIncrby store key delta now now').1 = .ok r) : ∃ v, parseInt64 s = some v := by
  have hresult : (storeIncrby store key delta now now').1 = _ :=
    (exec_does hstore.inv key now now' (StoreOp.incrby delta)).result
  rw [hcell] at hresult
  rcases incrby_step (some ⟨.str s, expiresAt⟩ : Option (Cell D)) delta now' with ⟨v, hv, -⟩ | ⟨-, st, hstep⟩
  · exact ⟨v, hv⟩
  · rw [hstep] at hresult
    cases hr.symm.trans hresult

/-- `parse_int64` accepts exactly the strings that are an integer in range as a whole, with their values, and
no other stored string is incremented, unless blanks stand in front of such an integer: those strings are
accepted as well. -/
theorem parse_int64_strict_iff [LinearOrder D] (s : Bytes) :
    (∀ v, parseInt64 s = some v ↔ Integer64 s v) ∧
      (∀ (store : Store D) (key : Bytes) (expiresAt delta now now' r : Int), store.Reachable →
        live now (store.cells key) = some ⟨.str s, expiresAt⟩ →
        (storeIncrby store key delta now now').1 = .ok r → ∃ v, Integer64 s v) ↔
    ¬ BlankLed s := by
  constructor
  · rintro ⟨hstrict, -⟩ ⟨⟨c, hc, hspace⟩, v, hv⟩
    obtain ⟨rest, rfl⟩ : ∃ rest, s = c :: rest := List.head?_eq_some_iff.mp hc
    have hint := (hstrict v).mp ((parseInt64_eq_some_iff _ v).mpr hv)
    exact absurd (hspace.symm.trans hint.1.head_not_space) (by decide)
  · intro hled
    have hstrict : ∀ v, parseInt64 s = some v ↔ Integer64 s v := by
      intro v
      rw [parseInt64_eq_some_iff]
      by_cases hhead : ∃ c ∈ s.head?, isSpace c = true
      · refine iff_of_false (fun hv => hled ⟨hhead, v, hv⟩) fun hv => ?_
        obtain ⟨c, hc, hspace⟩ := hhead
        obtain ⟨rest, rfl⟩ : ∃ rest, s = c :: rest := List.head?_eq_some_iff.mp hc
        exact absurd (hspace.symm.trans hv.1.head_not_space) (by decide)
      · rw [dropWhile_isSpace_of_head hhead]
    refine ⟨hstrict, fun store key expiresAt delta now now' r hstore hcell hr => ?_⟩
    obtain ⟨v, hv⟩ := storeIncrby_reads hstore hcell hr
    exact ⟨v, (hstrict v).mp hv⟩

/-- The string " 5" is set, and incremented to 6. -/
theorem parse_int64_blank :
    let store := (StoreOp.exec (storeCreate : Store ℕ) (ascii "k") 1 1 (.set (ascii " 5") 0)).2
    parseInt64 (ascii " 5") = some 5 ∧ (¬ ∃ v, Integer64 (ascii " 5") v) ∧ store.Reachable ∧
      live 2 (store.cells (ascii "k")) = some ⟨.str (ascii " 5"), 0⟩ ∧
      (storeIncrby store (ascii "k") 1 2 2).1 = .ok 6 ∧
      (storeIncrby store (ascii "k") 1 2 2).2.cells (ascii "k") = some ⟨.str (ascii "6"), 0⟩ := by
  intro store
  refine ⟨by decide, ?_, Store.Reachable.create.exec _ _ _ _, by decide, by decide, by decide⟩
  rintro ⟨v, hv, -⟩
  exact absurd hv.head_not_space (by decide)

end PulseDB
