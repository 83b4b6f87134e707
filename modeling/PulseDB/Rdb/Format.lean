import PulseDB.Rdb.Load
import Mathlib.Data.Nat.Digits.Defs

/-!
# The format of dump files

What `rdb.c` reads, as a grammar.

* `LengthBytes`, `StringBytes` : the texts of a length and of a string, in all their forms;
* `Record`, `RecordBytes` : the records and their texts; `FileBytes records f` : the file `f` has these
  records before the EOF opcode that ends it;
* `readLength_exact`, `readString_exact`, `rdbStep_exact` : the readers read exactly these texts, and fail
  with `RDB_PARSE_ERROR` on a text that is cut short.
-/

namespace PulseDB
open Lib

/-! ## Numbers -/

/-- The number with these digits to the base 256, least significant first. -/
def littleEndian (b : Bytes) : ℕ := Nat.ofDigits 256 (b.map UInt8.toNat)

theorem shiftLeft_or_byte (v : ℕ) (byte : UInt8) : v <<< 8 ||| byte.toNat = byte.toNat + 256 * v := by
  rw [← Nat.shiftLeft_add_eq_or_of_lt (show byte.toNat < 2 ^ 8 from byte.toNat_lt), Nat.shiftLeft_eq]
  omega

theorem fromLittleEndian_eq (b : Bytes) : fromLittleEndian b = littleEndian b := by
  induction b with
  | nil => rfl
  | cons byte b ih =>
    show fromLittleEndian b <<< 8 ||| byte.toNat = _
    rw [shiftLeft_or_byte, ih]
    exact (Nat.ofDigits_cons ..).symm

theorem fromBigEndian_eq (b : Bytes) : fromBigEndian b = littleEndian b.reverse := by
  rw [← fromLittleEndian_eq, fromBigEndian, List.foldl_eq_foldr_reverse, fromLittleEndian]

/-! ## Lengths -/

/-- The four forms of a length. -/
inductive LengthBytes : ℕ → Bytes → Prop
  | six {b : UInt8} (h : b.toNat < 64) : LengthBytes b.toNat [b]
  | fourteen {high : ℕ} {b next : UInt8} (hb : b.toNat = 64 + high) (hhigh : high < 64) :
      LengthBytes (high * 256 + next.toNat) [b, next]
  | thirtyTwo {b : Bytes} (hb : b.length = 4) : LengthBytes (littleEndian b.reverse) (0x80 :: b)
  | sixtyFour {b : Bytes} (hb : b.length = 8) : LengthBytes (littleEndian b.reverse) (0x81 :: b)

/-- The byte before an encoded string. -/
def EncodingByte (enc : ℕ) (bs : Bytes) : Prop := ∃ b : UInt8, b.toNat = 192 + enc ∧ bs = [b]

theorem byte_low_bits (b : UInt8) : b.toNat &&& 0x3F = b.toNat % 64 :=
  Nat.and_two_pow_sub_one_eq_mod b.toNat 6

theorem byte_high_bits (b : UInt8) : (b.toNat &&& 0xC0) >>> 6 = b.toNat / 64 := by
  have h : b.toNat / 64 < 4 := by
    have := b.toNat_lt
    omega
  rw [Nat.shiftRight_and_distrib, Nat.shiftRight_eq_div_pow, Nat.shiftRight_eq_div_pow]
  show b.toNat / 64 &&& (2 ^ 2 - 1) = _
  rw [Nat.and_two_pow_sub_one_eq_mod]
  exact Nat.mod_eq_of_lt h

theorem lengthBytes_cons_iff {n : ℕ} {b : UInt8} {bs : Bytes} : LengthBytes n (b :: bs) ↔
    (b.toNat < 64 ∧ n = b.toNat ∧ bs = []) ∨
      (∃ high next, b.toNat = 64 + high ∧ high < 64 ∧ n = high * 256 + UInt8.toNat next ∧ bs = [next]) ∨
      (b = 0x80 ∧ n = littleEndian bs.reverse ∧ bs.length = 4) ∨
      (b = 0x81 ∧ n = littleEndian bs.reverse ∧ bs.length = 8) := by
  constructor
  · intro h
    cases h with
    | six h => exact Or.inl ⟨h, rfl, rfl⟩
    | fourteen hb hhigh => exact Or.inr (Or.inl ⟨_, _, hb, hhigh, rfl, rfl⟩)
    | thirtyTwo hb => exact Or.inr (Or.inr (Or.inl ⟨rfl, rfl, hb⟩))
    | sixtyFour hb => exact Or.inr (Or.inr (Or.inr ⟨rfl, rfl, hb⟩))
  · rintro (⟨h, rfl, rfl⟩ | ⟨high, next, hb, hhigh, rfl, rfl⟩ | ⟨rfl, rfl, hb⟩ | ⟨rfl, rfl, hb⟩)
    · exact .six h
    · exact .fourteen hb hhigh
    · exact .thirtyTwo hb
    · exact .sixtyFour hb

theorem encodingByte_cons_iff {enc : ℕ} {b : UInt8} {bs : Bytes} :
    EncodingByte enc (b :: bs) ↔ b.toNat = 192 + enc ∧ bs = [] := by
  constructor
  · rintro ⟨b', hb, heq⟩
    cases heq
    exact ⟨hb, rfl⟩
  · rintro ⟨hb, rfl⟩
    exact ⟨b, hb, rfl⟩

theorem LengthBytes.ne_nil {n : ℕ} {bs : Bytes} (h : LengthBytes n bs) : bs ≠ [] := by
  cases h <;> exact List.cons_ne_nil _ _

theorem EncodingByte.ne_nil {enc : ℕ} {bs : Bytes} (h : EncodingByte enc bs) : bs ≠ [] := by
  obtain ⟨b, -, rfl⟩ := h
  exact List.cons_ne_nil _ _

/-- The results of `read_length` on the bytes `bs`: a length or, if the caller can take it, the encoding of a
string. -/
def LengthRead (encodable : Bool) (x : ℕ × Bool) (bs : Bytes) : Prop :=
  (x.2 = false ∧ LengthBytes x.1 bs) ∨ (encodable = true ∧ x.2 = true ∧ EncodingByte x.1 bs)

theorem lengthRead_cons_iff {encodable : Bool} {x : ℕ × Bool} {b : UInt8} {bs : Bytes} :
    LengthRead encodable x (b :: bs) ↔
      (b.toNat / 64 = 0 ∧ x = (b.toNat % 64, false) ∧ bs = []) ∨
      (b.toNat / 64 = 1 ∧ ∃ next, x = (b.toNat % 64 * 256 + UInt8.toNat next, false) ∧ bs = [next]) ∨
      (b.toNat / 64 = 2 ∧ ((b = 0x80 ∧ x = (littleEndian bs.reverse, false) ∧ bs.length = 4) ∨
        (b = 0x81 ∧ x = (littleEndian bs.reverse, false) ∧ bs.length = 8))) ∨
      (b.toNat / 64 = 3 ∧ encodable = true ∧ x = (b.toNat % 64, true) ∧ bs = []) := by
  have hlt := b.toNat_lt
  obtain ⟨n, encoded⟩ := x
  rw [LengthRead, lengthBytes_cons_iff, encodingByte_cons_iff]
  simp only [Prod.mk.injEq]
  constructor
  · rintro (⟨rfl, ⟨hb, rfl, rfl⟩ | ⟨high, next, hb, hhigh, rfl, rfl⟩ | ⟨hb, rfl, hn⟩ | ⟨hb, rfl, hn⟩⟩ | ⟨he,
      rfl, hb, rfl⟩)
    · exact Or.inl ⟨by omega, ⟨by omega, rfl⟩, rfl⟩
    · exact Or.inr (Or.inl ⟨by omega, next, ⟨by omega, rfl⟩, rfl⟩)
    · exact Or.inr (Or.inr (Or.inl ⟨by rw [hb]; rfl, Or.inl ⟨hb, ⟨rfl, rfl⟩, hn⟩⟩))
    · exact Or.inr (Or.inr (Or.inl ⟨by rw [hb]; rfl, Or.inr ⟨hb, ⟨rfl, rfl⟩, hn⟩⟩))
    · exact Or.inr (Or.inr (Or.inr ⟨by omega, he, ⟨by omega, rfl⟩, rfl⟩))
  · rintro (⟨h, ⟨rfl, rfl⟩, rfl⟩ | ⟨h, next, ⟨rfl, rfl⟩, rfl⟩ |
      ⟨-, ⟨hb, ⟨rfl, rfl⟩, hn⟩ | ⟨hb, ⟨rfl, rfl⟩, hn⟩⟩ | ⟨h, he, ⟨rfl, rfl⟩, rfl⟩)
    · exact Or.inl ⟨rfl, Or.inl ⟨by omega, by omega, rfl⟩⟩
    · exact Or.inl ⟨rfl, Or.inr (Or.inl ⟨b.toNat - 64, next, by omega, by omega, by omega, rfl⟩)⟩
    · exact Or.inl ⟨rfl, Or.inr (Or.inr (Or.inl ⟨hb, rfl, hn⟩))⟩
    · exact Or.inl ⟨rfl, Or.inr (Or.inr (Or.inr ⟨hb, rfl, hn⟩))⟩
    · exact Or.inr ⟨he, rfl, by omega, rfl⟩

theorem fread_bigEndian_exact (n : ℕ) :
    (do let b ← fread n; return (fromBigEndian b, false) : RdbReader (ℕ × Bool)).Exact
    .parseError fun x bs => x = (littleEndian bs.reverse, false) ∧ bs.length = n := by
  refine ((Reader.Exact.tokens n).map _).congr fun x bs => ?_
  constructor
  · rintro ⟨b, ⟨rfl, hn⟩, rfl⟩
    exact ⟨by rw [fromBigEndian_eq], hn⟩
  · rintro ⟨rfl, hn⟩
    exact ⟨bs, ⟨rfl, hn⟩, by rw [fromBigEndian_eq]⟩

/-- The reader takes the four forms of a length and, if the caller can take it, the byte before an encoded
string. -/
theorem readLength_exact (encodable : Bool) :
    (readLength encodable).Exact .parseError (LengthRead encodable) := by
  refine Reader.Exact.token_bind (fun x h => ?_) fun byte => ?_
  · rcases h with ⟨-, h⟩ | ⟨-, -, h⟩ <;> exact h.ne_nil rfl
  have hlt := byte.toNat_lt
  simp only [lengthRead_cons_iff, byte_high_bits, byte_low_bits]
  obtain h | h | h | h : byte.toNat / 64 = 0 ∨ byte.toNat / 64 = 1 ∨ byte.toNat / 64 = 2 ∨
    byte.toNat / 64 = 3 := by
    omega
  all_goals simp only [h]
  · refine (Reader.Exact.pure _).congr fun x bs => ?_
    simp
  · refine (Reader.Exact.token.bind fun next => Reader.Exact.pure _).congr fun x bs => ?_
    simp [shiftLeft_or_byte, Nat.mul_comm, Nat.add_comm]
  · by_cases h80 : byte = 0x80
    · rw [if_pos h80]
      exact (fread_bigEndian_exact 4).congr fun x bs => by simp [h80]
    · rw [if_neg h80]
      by_cases h81 : byte = 0x81
      · rw [if_pos h81]
        exact (fread_bigEndian_exact 8).congr fun x bs => by simp [h81]
      · rw [if_neg h81]
        exact Reader.Exact.fail.congr fun x bs => by simp [h80, h81]
  · cases encodable with
    | true => exact (Reader.Exact.pure _).congr fun x bs => by simp
    | false => exact Reader.Exact.fail.congr fun x bs => by simp

/-! ## Strings -/

/-- The forms of a string: its bytes after their number, or a signed integer whose decimal text it is. -/
inductive StringBytes : Bytes → Bytes → Prop
  | raw {s lb : Bytes} (hl : LengthBytes s.length lb) (hlen : s.length ≤ rdbMaxString) :
    StringBytes s (lb ++ s)
  | int8 {b : Bytes} (hb : b.length = 1) :
    StringBytes (decInt (Int.bmod (littleEndian b) (2 ^ 8))) (0xC0 :: b)
  | int16 {b : Bytes} (hb : b.length = 2) :
    StringBytes (decInt (Int.bmod (littleEndian b) (2 ^ 16))) (0xC1 :: b)
  | int32 {b : Bytes} (hb : b.length = 4) :
    StringBytes (decInt (Int.bmod (littleEndian b) (2 ^ 32))) (0xC2 :: b)

theorem readInt_exact (width : ℕ) : (readInt width).Exact .parseError fun s bs =>
    s = decInt (Int.bmod (littleEndian bs) (2 ^ (8 * width))) ∧ bs.length = width := by
  refine ((Reader.Exact.tokens width).map _).congr fun s bs => ?_
  constructor
  · rintro ⟨b, ⟨rfl, hn⟩, rfl⟩
    exact ⟨by rw [fromLittleEndian_eq], hn⟩
  · rintro ⟨rfl, hn⟩
    exact ⟨bs, ⟨rfl, hn⟩, by rw [fromLittleEndian_eq]⟩

/-- The part of a string behind its length or its encoding. -/
def StringRest (x : ℕ × Bool) (s bs : Bytes) : Prop :=
  (x.2 = true ∧ ((x.1 = rdbEncInt8 ∧ s = decInt (Int.bmod (littleEndian bs) (2 ^ 8)) ∧ bs.length = 1) ∨
      (x.1 = rdbEncInt16 ∧ s = decInt (Int.bmod (littleEndian bs) (2 ^ 16)) ∧ bs.length = 2) ∨
      (x.1 = rdbEncInt32 ∧ s = decInt (Int.bmod (littleEndian bs) (2 ^ 32)) ∧ bs.length = 4))) ∨
    (x.2 = false ∧ x.1 ≤ rdbMaxString ∧ bs = s ∧ s.length = x.1)

theorem stringBytes_iff {s bs : Bytes} : StringBytes s bs ↔
    ∃ x b₁ b₂, LengthRead true x b₁ ∧ StringRest x s b₂ ∧ bs = b₁ ++ b₂ := by
  constructor
  · intro h
    cases h with
    | @raw _ lb hl hlen =>
      exact ⟨(s.length, false), lb, s, Or.inl ⟨rfl, hl⟩, Or.inr ⟨rfl, hlen, rfl, rfl⟩, rfl⟩
    | @int8 b hb =>
      exact ⟨(0, true), [0xC0], b, Or.inr ⟨rfl, rfl, 0xC0, rfl, rfl⟩,
        Or.inl ⟨rfl, Or.inl ⟨rfl, rfl, hb⟩⟩, rfl⟩
    | @int16 b hb =>
      exact ⟨(1, true), [0xC1], b, Or.inr ⟨rfl, rfl, 0xC1, rfl, rfl⟩,
        Or.inl ⟨rfl, Or.inr (Or.inl ⟨rfl, rfl, hb⟩)⟩, rfl⟩
    | @int32 b hb =>
      exact ⟨(2, true), [0xC2], b, Or.inr ⟨rfl, rfl, 0xC2, rfl, rfl⟩,
        Or.inl ⟨rfl, Or.inr (Or.inr ⟨rfl, rfl, hb⟩)⟩, rfl⟩
  · rintro ⟨⟨len, encoded⟩, b₁, b₂, hl, hs, rfl⟩
    rcases hl with ⟨h₁, hl⟩ | ⟨-, h₁, b, hb, rfl⟩
    · rcases hs with ⟨h₂, -⟩ | ⟨-, hs⟩
      · rw [h₁] at h₂
        cases h₂
      · have hlen := hs.1
        rw [hs.2.1]
        rw [← hs.2.2] at hl hlen
        exact .raw hl hlen
    · have hbyte : ∀ c : UInt8, b.toNat = c.toNat → b = c := fun c h => UInt8.toNat_inj.mp h
      rcases hs with ⟨-, ⟨henc, hs, hn⟩ | ⟨henc, hs, hn⟩ | ⟨henc, hs, hn⟩⟩ | ⟨h₂, -⟩
      · rw [henc] at hb
        rw [hs, hbyte 0xC0 hb]
        exact .int8 hn
      · rw [henc] at hb
        rw [hs, hbyte 0xC1 hb]
        exact .int16 hn
      · rw [henc] at hb
        rw [hs, hbyte 0xC2 hb]
        exact .int32 hn
      · rw [h₁] at h₂
        cases h₂

theorem readString_exact : readString.Exact .parseError StringBytes := by
  refine ((readLength_exact true).bind (S := StringRest) fun x => ?_).congr fun s bs =>
    stringBytes_iff.symm
  obtain ⟨len, encoded⟩ := x
  cases encoded with
  | true =>
    show Reader.Exact (if len = rdbEncInt8 then readInt 1 else if len = rdbEncInt16 then readInt 2
      else if len = rdbEncInt32 then readInt 4 else Reader.fail .parseError) _ _
    split_ifs with h8 h16 h32
    · exact (readInt_exact 1).congr fun s bs => by simp [StringRest, h8, rdbEncInt8, rdbEncInt16, rdbEncInt32]
    · exact (readInt_exact 2).congr fun s bs => by
        simp [StringRest, h16, rdbEncInt8, rdbEncInt16, rdbEncInt32]
    · exact (readInt_exact 4).congr fun s bs => by
        simp [StringRest, h32, rdbEncInt8, rdbEncInt16, rdbEncInt32]
    · exact Reader.Exact.fail.congr fun s bs => by simp [StringRest, h8, h16, h32]
  | false =>
    show Reader.Exact (if len > rdbMaxString then Reader.fail .parseError else fread len) _ _
    split_ifs with hlen
    · exact Reader.Exact.fail.congr fun s bs => by simp [StringRest, hlen]
    · exact (Reader.Exact.tokens len).congr fun s bs => by simp [StringRest, Nat.le_of_not_gt hlen]

/-! ## Records -/

inductive Record where
  | aux (key value : Bytes)
  | selectDb (index : ℕ)
  | resizeDb (htSize expireSize : ℕ)
  | expireMs (t : Int)
  | expireSec (secs : ℕ)
  | string (key value : Bytes)
  deriving DecidableEq

/-- The text of a record: an opcode and what belongs to it. -/
inductive RecordBytes : Record → Bytes → Prop
  | aux {key value kb vb : Bytes} (hk : StringBytes key kb) (hv : StringBytes value vb) :
      RecordBytes (.aux key value) (rdbOpAux :: (kb ++ vb))
  | selectDb {index : ℕ} {lb : Bytes} (h : LengthBytes index lb) :
    RecordBytes (.selectDb index) (rdbOpSelectdb :: lb)
  | resizeDb {htSize expireSize : ℕ} {b b' : Bytes} (h : LengthBytes htSize b)
      (h' : LengthBytes expireSize b') :
      RecordBytes (.resizeDb htSize expireSize) (rdbOpResizedb :: (b ++ b'))
  | expireMs {b : Bytes} (hb : b.length = 8) :
    RecordBytes (.expireMs (wrap64 (littleEndian b))) (rdbOpExpireMs :: b)
  | expireSec {b : Bytes} (hb : b.length = 4) :
    RecordBytes (.expireSec (littleEndian b)) (rdbOpExpireSec :: b)
  | string {key value kb vb : Bytes} (hk : StringBytes key kb) (hv : StringBytes value vb) :
      RecordBytes (.string key value) (rdbTypeString :: (kb ++ vb))

/-- What a record does to the variables of the loop. -/
def Record.load {D : Type} (clock : ℕ → Int) (st : RdbState D) : Record → RdbState D
  | .aux _ _ => st
  | .selectDb _ => st
  | .resizeDb _ _ => st
  | .expireMs t => { st with expiryMs := t }
  | .expireSec secs => { st with expiryMs := secs * 1000 }
  | .string key value =>
    { store := storeSet st.store (cstr key) (cstr value) st.expiryMs (clock st.tick), expiryMs := 0
      tick := st.tick + 1 }

section Records
variable {D : Type}

/-- The part of a record behind its opcode. -/
def RecordRest (op : UInt8) (r : Record) (bs : Bytes) : Prop :=
  if op = rdbOpAux then
    ∃ key value kb vb, StringBytes key kb ∧ StringBytes value vb ∧ bs = kb ++ vb ∧ r = .aux key value
  else if op = rdbOpSelectdb then ∃ index, LengthBytes index bs ∧ r = .selectDb index
  else if op = rdbOpResizedb then
    ∃ htSize expireSize b b', LengthBytes htSize b ∧ LengthBytes expireSize b' ∧ bs = b ++ b' ∧
      r = .resizeDb htSize expireSize
  else if op = rdbOpExpireMs then bs.length = 8 ∧ r = .expireMs (wrap64 (littleEndian bs))
  else if op = rdbOpExpireSec then bs.length = 4 ∧ r = .expireSec (littleEndian bs)
  else if op = rdbTypeString then
    ∃ key value kb vb, StringBytes key kb ∧ StringBytes value vb ∧ bs = kb ++ vb ∧ r = .string key value
  else False

theorem recordBytes_cons_iff {op : UInt8} {r : Record} {bs : Bytes} :
    RecordBytes r (op :: bs) ↔ RecordRest op r bs := by
  constructor
  · intro h
    cases h with
    | aux hk hv => exact ⟨_, _, _, _, hk, hv, rfl, rfl⟩
    | selectDb h => exact ⟨_, h, rfl⟩
    | resizeDb h h' => exact ⟨_, _, _, _, h, h', rfl, rfl⟩
    | expireMs hb => exact ⟨hb, rfl⟩
    | expireSec hb => exact ⟨hb, rfl⟩
    | string hk hv => exact ⟨_, _, _, _, hk, hv, rfl, rfl⟩
  · intro h
    unfold RecordRest at h
    split_ifs at h with haux hsel hres hms hsec hstr
    · obtain ⟨key, value, kb, vb, hk, hv, rfl, rfl⟩ := h
      exact haux ▸ .aux hk hv
    · obtain ⟨index, hl, rfl⟩ := h
      exact hsel ▸ .selectDb hl
    · obtain ⟨m, n, b, b', hl, hl', rfl, rfl⟩ := h
      exact hres ▸ .resizeDb hl hl'
    · obtain ⟨hb, rfl⟩ := h
      exact hms ▸ .expireMs hb
    · obtain ⟨hb, rfl⟩ := h
      exact hsec ▸ .expireSec hb
    · obtain ⟨key, value, kb, vb, hk, hv, rfl, rfl⟩ := h
      exact hstr ▸ .string hk hv

theorem readPlainLength_exact : (readLength false).Exact .parseError fun x bs => x.2 = false ∧
    LengthBytes x.1 bs :=
  (readLength_exact false).congr fun _ _ => ⟨fun h => h.resolve_right fun h => Bool.noConfusion h.1, Or.inl⟩

theorem rdbStep_exact (clock : ℕ → Int) (st : RdbState D) (op : UInt8) :
    (rdbStep clock st op).Exact .parseError
    fun st' bs => ∃ r, RecordBytes r (op :: bs) ∧ st' = r.load clock st := by
  simp only [recordBytes_cons_iff]
  unfold rdbStep RecordRest
  split_ifs with haux hsel hres hms hsec hstr
  · refine (readString_exact.map₂ readString_exact fun _ _ => st).congr fun st' bs => ⟨?_, ?_⟩
    · rintro ⟨key, value, kb, vb, hk, hv, rfl, rfl⟩
      exact ⟨_, ⟨key, value, kb, vb, hk, hv, rfl, rfl⟩, rfl⟩
    · rintro ⟨r, ⟨key, value, kb, vb, hk, hv, rfl, rfl⟩, rfl⟩
      exact ⟨key, value, kb, vb, hk, hv, rfl, rfl⟩
  · refine (readPlainLength_exact.map fun _ => st).congr fun st' bs => ⟨?_, ?_⟩
    · rintro ⟨x, ⟨-, hl⟩, rfl⟩
      exact ⟨_, ⟨x.1, hl, rfl⟩, rfl⟩
    · rintro ⟨r, ⟨index, hl, rfl⟩, rfl⟩
      exact ⟨(index, false), ⟨rfl, hl⟩, rfl⟩
  · refine (readPlainLength_exact.map₂ readPlainLength_exact fun _ _ => st).congr fun st' bs => ⟨?_, ?_⟩
    · rintro ⟨x, y, b, b', ⟨-, hl⟩, ⟨-, hl'⟩, rfl, rfl⟩
      exact ⟨_, ⟨x.1, y.1, b, b', hl, hl', rfl, rfl⟩, rfl⟩
    · rintro ⟨r, ⟨m, n, b, b', hl, hl', rfl, rfl⟩, rfl⟩
      exact ⟨(m, false), (n, false), b, b', ⟨rfl, hl⟩, ⟨rfl, hl'⟩, rfl, rfl⟩
  · refine ((Reader.Exact.tokens 8).map _).congr fun st' bs => ⟨?_, ?_⟩
    · rintro ⟨b, ⟨rfl, hb⟩, rfl⟩
      exact ⟨_, ⟨hb, rfl⟩, by rw [fromLittleEndian_eq]; rfl⟩
    · rintro ⟨r, ⟨hb, rfl⟩, rfl⟩
      exact ⟨bs, ⟨rfl, hb⟩, by rw [fromLittleEndian_eq]; rfl⟩
  · refine ((Reader.Exact.tokens 4).map _).congr fun st' bs => ⟨?_, ?_⟩
    · rintro ⟨b, ⟨rfl, hb⟩, rfl⟩
      exact ⟨_, ⟨hb, rfl⟩, by rw [fromLittleEndian_eq]; rfl⟩
    · rintro ⟨r, ⟨hb, rfl⟩, rfl⟩
      exact ⟨bs, ⟨rfl, hb⟩, by rw [fromLittleEndian_eq]; rfl⟩
  · refine (readString_exact.map₂ readString_exact _).congr fun st' bs => ⟨?_, ?_⟩
    · rintro ⟨key, value, kb, vb, hk, hv, rfl, rfl⟩
      exact ⟨_, ⟨key, value, kb, vb, hk, hv, rfl, rfl⟩, rfl⟩
    · rintro ⟨r, ⟨key, value, kb, vb, hk, hv, rfl, rfl⟩, rfl⟩
      exact ⟨key, value, kb, vb, hk, hv, rfl, rfl⟩
  · refine Reader.Exact.fail.congr fun st' bs => ⟨False.elim, ?_⟩
    rintro ⟨r, h, -⟩
    exact h

end Records

/-! ## Failures -/

section Failures

theorem readLength_fails (encodable : Bool) : (readLength encodable).FailsWith (· = .parseError) := by
  refine Reader.FailsWith.bind (.token rfl) fun byte => ?_
  split
  · exact .pure _
  · exact .bind (.token rfl) fun next => .pure _
  · split_ifs
    · exact .bind (.tokens 4 rfl) fun b => .pure _
    · exact .bind (.tokens 8 rfl) fun b => .pure _
    · exact .fail rfl
  · split_ifs
    · exact .pure _
    · exact .fail rfl

theorem readString_fails : readString.FailsWith (· = .parseError) := by
  have hint : ∀ width, (readInt width).FailsWith (· = .parseError) := fun width =>
    .bind (.tokens width rfl) fun b => .pure _
  refine Reader.FailsWith.bind (readLength_fails true) fun x => ?_
  obtain ⟨len, encoded⟩ := x
  show Reader.FailsWith (if encoded = true then if len = rdbEncInt8 then readInt 1
    else if len = rdbEncInt16 then readInt 2
    else if len = rdbEncInt32 then readInt 4
    else Reader.fail .parseError
    else if len > rdbMaxString then Reader.fail .parseError else fread len) _
  split_ifs
  · exact hint 1
  · exact hint 2
  · exact hint 4
  · exact .fail rfl
  · exact .fail rfl
  · exact .tokens len rfl

/-- The two ways in which the loop gives up. -/
def GivesUp (result : RdbResult) : Prop := result = .parseError ∨ result = .unsupported

theorem rdbStep_fails {D : Type} (clock : ℕ → Int) (st : RdbState D) (op : UInt8) :
    (rdbStep clock st op).FailsWith GivesUp := by
  have hs : readString.FailsWith GivesUp := fun f e h => Or.inl (readString_fails f e h)
  have hl : (readLength false).FailsWith GivesUp := fun f e h => Or.inl (readLength_fails false f e h)
  unfold rdbStep
  split_ifs
  · exact .bind hs fun _ => .bind hs fun _ => .pure _
  · exact .bind hl fun _ => .pure _
  · exact .bind hl fun _ => .bind hl fun _ => .pure _
  · exact .bind (.tokens 8 (Or.inl rfl)) fun _ => .pure _
  · exact .bind (.tokens 4 (Or.inl rfl)) fun _ => .pure _
  · exact .bind hs fun _ => .bind hs fun _ => .pure _
  · exact .fail (Or.inr rfl)

end Failures
end PulseDB
