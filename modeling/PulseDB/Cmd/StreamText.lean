import PulseDB.Cmd.Stream
import PulseDB.Resp.Numeral

/-!
# Stream IDs as text

* `U64Text s v` : the text `s` is 1 to 20 decimal digits with the value `v`;
* `StreamIdFormat d s id` : the text `s` stands for `id`, where `d` is the sequence number of a text without a
  dash;
* `u64LoopWraps`, `streamIdParseWraps` : some operation of the source leaves the 64-bit range;
* `parseU64_eq_some_iff`, `streamIdParse_eq_some_iff` : what is read, for every text;
* `stream_id_text` : the texts that are accepted, and the text that is printed;
* `NewId` : what the ID of a new entry is asked to be; `resolveNewId_auto`, `resolveNewId_autoSeq`,
  `resolveNewId_explicit` : what the three kinds of specifications resolve to;
* `resolveNewId_refuses_iff` : when a specification is refused although it denotes an ID after the last one.
-/

namespace PulseDB
open Lib

/-! ## The format -/

/-- 1 to 20 decimal digits with this value. -/
structure U64Text (s : Bytes) (v : UInt64) : Prop where
  nonempty : s ≠ []
  short : s.length ≤ 20
  digits : ∀ c ∈ s, isDigit c = true
  value : digitsVal s = v.toNat

/-- An ID as text: `<ms>` or `<ms>-<seq>`. -/
inductive StreamIdFormat (defaultSeq : UInt64) : Bytes → StreamId → Prop
  | ms {s : Bytes} {ms : UInt64} (hms : U64Text s ms) : StreamIdFormat defaultSeq s ⟨ms, defaultSeq⟩
  | full {s t : Bytes} {ms seq : UInt64} (hms : U64Text s ms) (hseq : U64Text t seq) :
      StreamIdFormat defaultSeq (s ++ ascii "-" ++ t) ⟨ms, seq⟩

/-- An unsigned 64-bit operation with this exact result wraps around. -/
def wrapsU64 (x : Int) : Bool := decide (x < 0 ∨ 2 ^ 64 ≤ x)

/-- Some operation of the digit loop of `parse_u64` wraps around. -/
def u64LoopWraps : UInt64 → Bytes → Bool
  | _, [] => false
  | v, c :: cs =>
    if c < 48 ∨ 57 < c then false
    else
      let d := (c - 48).toUInt64
      wrapsU64 (uint64Max.toNat - d.toNat) ||
        if v > (uint64Max - d) / 10 then false
        else wrapsU64 (v.toNat * 10) || wrapsU64 (v.toNat * 10 + d.toNat) || u64LoopWraps (v * 10 + d) cs

def parseU64Wraps (s : Bytes) : Bool := if s.length = 0 ∨ 20 < s.length then false else u64LoopWraps 0 s

/-- Some operation of `stream_id_parse` wraps around; the second number is read only after the first. -/
def streamIdParseWraps (s : Bytes) : Bool :=
  if 45 ∉ s then parseU64Wraps s
  else
    let dash := s.idxOf 45
    parseU64Wraps (s.take dash) || ((parseU64 (s.take dash)).isSome && parseU64Wraps (s.drop (dash + 1)))

/-! ## The digit loop -/

theorem digit_toUInt64 {c : UInt8} (h : isDigit c = true) : (c - 48).toUInt64.toNat = c.toNat - 48 := by
  unfold isDigit at h
  rw [Bool.and_eq_true, decide_eq_true_iff] at h
  rw [UInt8.toNat_toUInt64, UInt8.toNat_sub_of_le _ _ h.1]
  rfl

theorem digit_le_nine {c : UInt8} (h : isDigit c = true) : c.toNat - 48 ≤ 9 := by
  unfold isDigit at h
  rw [Bool.and_eq_true, decide_eq_true_iff, decide_eq_true_iff, UInt8.le_iff_toNat_le,
    UInt8.le_iff_toNat_le] at h
  have h57 : c.toNat ≤ 57 := h.2
  omega

theorem u64Guard_iff {v d : UInt64} (hd : d.toNat ≤ 9) :
    v > (uint64Max - d) / 10 ↔ 2 ^ 64 ≤ v.toNat * 10 + d.toNat := by
  have hmax : uint64Max.toNat = 18446744073709551615 := rfl
  have hten : (10 : UInt64).toNat = 10 := rfl
  have hle : d ≤ uint64Max := by
    rw [UInt64.le_iff_toNat_le, hmax]
    omega
  rw [gt_iff_lt, UInt64.lt_iff_toNat_lt, UInt64.toNat_div, UInt64.toNat_sub_of_le _ _ hle, hmax, hten]
  omega

theorem u64Step_toNat {v d : UInt64} (h : v.toNat * 10 + d.toNat < 2 ^ 64) :
    (v * 10 + d).toNat = v.toNat * 10 + d.toNat := by
  have hten : (10 : UInt64).toNat = 10 := rfl
  rw [UInt64.toNat_add, UInt64.toNat_mul, hten]
  omega

theorem u64Loop_eq_some_iff : ∀ {ds : Bytes} {v w : UInt64},
    u64Loop v ds = some w ↔ (∀ c ∈ ds, isDigit c = true) ∧ digitsFrom v.toNat ds = w.toNat
  | [], v, w => by
    rw [u64Loop, Option.some.injEq, ← UInt64.toNat_inj]
    exact ⟨fun h => ⟨fun _ hc => absurd hc List.not_mem_nil, h⟩, fun h => h.2⟩
  | c :: ds, v, w => by
    rw [u64Loop, List.forall_mem_cons, digitsFrom_cons]
    by_cases hc : isDigit c = true
    swap
    · rw [if_pos ((not_digit_iff c).mpr (Bool.eq_false_iff.mpr hc))]
      exact iff_of_false (Option.some_ne_none w).symm fun h => hc h.1.1
    have hdigit : ¬ (c < 48 ∨ 57 < c) := by
      rw [not_digit_iff, hc]
      exact Bool.noConfusion
    have hd := digit_toUInt64 hc
    have hd9 : (c - 48).toUInt64.toNat ≤ 9 := hd ▸ digit_le_nine hc
    rw [if_neg hdigit, ← hd]
    simp only
    by_cases hfits : v.toNat * 10 + (c - 48).toUInt64.toNat < 2 ^ 64
    · rw [if_neg (by rw [u64Guard_iff hd9]; omega), u64Loop_eq_some_iff, u64Step_toNat hfits,
        and_iff_right hc]
    · -- more digits do not make the value smaller
      rw [if_pos ((u64Guard_iff hd9).mpr (Nat.le_of_not_lt hfits))]
      refine iff_of_false (Option.some_ne_none _).symm fun h => ?_
      have hle := le_digitsFrom ds (v.toNat * 10 + (c - 48).toUInt64.toNat)
      have hw := w.toNat_lt
      omega

theorem u64LoopWraps_eq_false : ∀ (ds : Bytes) (v : UInt64), u64LoopWraps v ds = false
  | [], _ => rfl
  | c :: ds, v => by
    rw [u64LoopWraps]
    split
    · rfl
    rename_i hdigit
    have hc : isDigit c = true := by
      rw [not_digit_iff] at hdigit
      exact (Bool.not_eq_false _).mp hdigit
    have hd9 : (c - 48).toUInt64.toNat ≤ 9 := digit_toUInt64 hc ▸ digit_le_nine hc
    have hmax : uint64Max.toNat = 18446744073709551615 := rfl
    simp only
    rw [Bool.or_eq_false_iff]
    refine ⟨decide_eq_false (by rw [hmax]; omega), ?_⟩
    split
    · rfl
    rename_i hguard
    rw [u64Guard_iff hd9] at hguard
    rw [u64LoopWraps_eq_false ds, Bool.or_false, Bool.or_eq_false_iff]
    exact ⟨decide_eq_false (by omega), decide_eq_false (by omega)⟩

/-! ## The two functions -/

theorem parseU64_eq_some_iff {s : Bytes} {v : UInt64} : parseU64 s = some v ↔ U64Text s v := by
  unfold parseU64
  by_cases hlen : s.length = 0 ∨ 20 < s.length
  · rw [if_pos hlen]
    refine iff_of_false (Option.some_ne_none _).symm fun h => ?_
    rcases hlen with h0 | h20
    · exact h.nonempty (List.length_eq_zero_iff.mp h0)
    · exact absurd h.short (Nat.not_le.mpr h20)
  · rw [if_neg hlen, u64Loop_eq_some_iff]
    constructor
    · intro h
      exact ⟨fun hnil => hlen (Or.inl (List.length_eq_zero_iff.mpr hnil)), by omega, h.1, h.2⟩
    · intro h
      exact ⟨h.digits, h.value⟩

theorem parseU64Wraps_eq_false (s : Bytes) : parseU64Wraps s = false := by
  unfold parseU64Wraps
  split
  · rfl
  · exact u64LoopWraps_eq_false s 0

theorem U64Text.notMem {s : Bytes} {v : UInt64} (h : U64Text s v) {c : UInt8} (hc : isDigit c = false) :
    c ∉ s :=
  fun hmem => Bool.eq_false_iff.mp hc (h.digits c hmem)

theorem U64Text.no_dash {s : Bytes} {v : UInt64} (h : U64Text s v) : 45 ∉ s := h.notMem (by decide)

theorem U64Text.dec (x : UInt64) : U64Text (dec x.toNat) x where
  nonempty := dec_ne_nil x.toNat
  short := dec_length_le (x.toNat_lt.trans (by decide))
  digits := dec_isDigit x.toNat
  value := digitsVal_dec x.toNat

theorem streamIdParse_dash {s t : Bytes} (hs : 45 ∉ s) (defaultSeq : UInt64) :
    streamIdParse (s ++ ascii "-" ++ t) defaultSeq =
      (parseU64 s).bind fun ms => (parseU64 t).map fun seq => ⟨ms, seq⟩ := by
  have htext : s ++ ascii "-" ++ t = s ++ 45 :: t := List.append_assoc _ _ _
  have hidx : (s ++ 45 :: t).idxOf 45 = s.length := by
    rw [List.idxOf_append_of_notMem hs, List.idxOf_cons_self, Nat.add_zero]
  rw [htext, streamIdParse, if_neg (not_not.mpr (List.mem_append_right _ List.mem_cons_self))]
  simp only
  rw [hidx, List.take_left, ← List.drop_drop, List.drop_left, List.drop_one, List.tail_cons]
  cases parseU64 s <;> cases parseU64 t <;> rfl

theorem streamIdParse_eq_some_iff {s : Bytes} {defaultSeq : UInt64} {id : StreamId} :
    streamIdParse s defaultSeq = some id ↔ StreamIdFormat defaultSeq s id := by
  constructor
  · intro h
    by_cases hdash : 45 ∈ s
    · obtain ⟨as, bs, rfl, has⟩ := List.eq_append_cons_of_mem hdash
      have htext : as ++ 45 :: bs = as ++ ascii "-" ++ bs := (List.append_assoc as (ascii "-") bs).symm
      rw [htext, streamIdParse_dash has] at h
      obtain ⟨ms, hms, h⟩ := Option.bind_eq_some_iff.mp h
      obtain ⟨seq, hseq, rfl⟩ := Option.map_eq_some_iff.mp h
      rw [htext]
      exact .full (parseU64_eq_some_iff.mp hms) (parseU64_eq_some_iff.mp hseq)
    · rw [streamIdParse, if_pos hdash] at h
      obtain ⟨ms, hms, rfl⟩ := Option.map_eq_some_iff.mp h
      exact .ms (parseU64_eq_some_iff.mp hms)
  · intro h
    cases h with
    | ms hms => rw [streamIdParse, if_pos hms.no_dash, parseU64_eq_some_iff.mpr hms, Option.map_some]
    | full hms hseq =>
      rw [streamIdParse_dash hms.no_dash, parseU64_eq_some_iff.mpr hms, parseU64_eq_some_iff.mpr hseq,
        Option.bind_some, Option.map_some]

theorem streamIdParseWraps_eq_false (s : Bytes) : streamIdParseWraps s = false := by
  unfold streamIdParseWraps
  simp only [parseU64Wraps_eq_false, Bool.and_false, Bool.or_self, ite_self]

theorem streamIdParse_text (id : StreamId) (defaultSeq : UInt64) :
    streamIdParse (streamIdText id) defaultSeq = some id :=
  streamIdParse_eq_some_iff.mpr (.full (U64Text.dec id.ms) (U64Text.dec id.seq))

theorem streamIdText_inj {a b : StreamId} (h : streamIdText a = streamIdText b) : a = b := by
  have hparse := streamIdParse_text a 0
  rw [h, streamIdParse_text] at hparse
  exact (Option.some.inj hparse).symm

/-- The texts of the format are accepted with their values and no others are; no operation wraps around on any
text; and the text that `reply_stream_id` prints is read back. -/
theorem stream_id_text (defaultSeq : UInt64) :
    (∀ (s : Bytes) (id : StreamId), streamIdParse s defaultSeq = some id ↔ StreamIdFormat defaultSeq s id) ∧
    (∀ s : Bytes, streamIdParseWraps s = false) ∧
    ∀ id : StreamId, replyStreamId id = (Reply.bulk (streamIdText id)).enc ∧ (streamIdText id).length < 48 ∧
      streamIdParse (streamIdText id) defaultSeq = some id := by
  refine ⟨fun s id => streamIdParse_eq_some_iff, streamIdParseWraps_eq_false, fun id => ?_⟩
  exact ⟨replyBulkCstr_eq (streamIdText id), streamIdText_fits id, streamIdParse_text id defaultSeq⟩

/-! ## The ID of a new entry -/

/-- What the ID of a new entry is asked to be. -/
inductive NewId where
  | auto
  | autoSeq (ms : UInt64)
  | explicit (id : StreamId)

/-- The IDs a specification can denote. -/
def NewId.Denotes : NewId → StreamId → Prop
  | .auto, _ => True
  | .autoSeq ms, id => id.ms = ms
  | .explicit x, id => id = x

/-- The text of a specification: `*`, `<ms>-*`, `<ms>-<seq>` or `<ms>`. -/
inductive NewId.Text : NewId → Bytes → Prop
  | auto : Text .auto (ascii "*")
  | autoSeq {s : Bytes} {ms : UInt64} (hms : U64Text s ms) : Text (.autoSeq ms) (s ++ ascii "-*")
  | explicit {s : Bytes} {id : StreamId} (hid : StreamIdFormat 0 s id) : Text (.explicit id) s

/-- The least ID with these milliseconds that is after the last one and not `0-0`. -/
structure LeastNew (last : StreamId) (ms : UInt64) (id : StreamId) : Prop where
  same : id.ms = ms
  nonzero : id ≠ ⟨0, 0⟩
  after : last.Lt id
  least : ∀ x : StreamId, x.ms = ms → x ≠ ⟨0, 0⟩ → last.Lt x → id = x ∨ id.Lt x

/-- A specification is refused as too small only if it denotes no ID after the last one, and `<ms>-*` is
completed by the least sequence number there is. -/
def ResolvesWell (last : StreamId) (form : NewId) (r : Except StoreStatus StreamId) : Prop :=
  (r = .error .idTooSmall → ∀ id, form.Denotes id → ¬ last.Lt id) ∧
  ∀ (ms : UInt64) (id : StreamId), form = .autoSeq ms → r = .ok id → LeastNew last ms id

theorem ResolvesWell.refused {last : StreamId} {form : NewId} (h : ∀ id, form.Denotes id → ¬ last.Lt id) :
    ResolvesWell last form (.error .idTooSmall) := by
  refine ⟨fun _ => h, fun _ _ _ hok => ?_⟩
  cases hok

theorem ResolvesWell.granted {last id : StreamId} {form : NewId}
    (h : ∀ ms, form = .autoSeq ms → LeastNew last ms id) :
    ResolvesWell last form (.ok id) := by
  refine ⟨fun herr => ?_, fun ms _ hform hok => ?_⟩
  · cases herr
  · cases hok
    exact h ms hform

/-- The stream that `store_stream_add` finds under a key. -/
def Store.streamAt {D : Type} (store : Store D) (key : Bytes) (now : Int) : Option Stream :=
  (live now (store.cells key)).bind fun c => c.value.asStream

section Resolve
variable (stream : Option Stream) (now : Int)

theorem resolveNewId_auto : resolveNewId stream (ascii "*") now =
    if toU64 now > (lastIdOf stream).ms then .ok ⟨toU64 now, 0⟩
    else if (lastIdOf stream).seq = uint64Max then .error .idTooSmall
    else .ok ⟨(lastIdOf stream).ms, (lastIdOf stream).seq + 1⟩ := rfl

theorem resolveNewId_autoSeq {s : Bytes} {ms : UInt64} (h : U64Text s ms) :
    resolveNewId stream (s ++ ascii "-*") now =
      if ms < (lastIdOf stream).ms then .error .idTooSmall
      else if ms = (lastIdOf stream).ms ∧ stream.any fun s => decide (s.len > 0) then
        if (lastIdOf stream).seq = uint64Max then .error .idTooSmall else .ok ⟨ms, (lastIdOf stream).seq + 1⟩
      else .ok ⟨ms, if ms = 0 then 1 else 0⟩ := by
  have hsuffix : (ascii "-*").length = 2 := rfl
  have hlen : (s ++ ascii "-*").length = s.length + 2 := by rw [List.length_append, hsuffix]
  have hstar : s ++ ascii "-*" ≠ ascii "*" := by
    intro heq
    rw [heq] at hlen
    exact absurd hlen (by rw [show (ascii "*").length = 1 from rfl]; omega)
  unfold resolveNewId
  rw [if_neg hstar, hlen, Nat.add_sub_cancel, List.drop_left, List.take_left,
    if_pos ⟨Nat.le_add_left 2 s.length, rfl⟩, parseU64_eq_some_iff.mpr h]
  rfl

theorem StreamIdFormat.no_star {d : UInt64} {s : Bytes} {id : StreamId} (h : StreamIdFormat d s id) :
    42 ∉ s := by
  cases h with
  | ms hms => exact hms.notMem (by decide)
  | full hms hseq =>
    rw [List.mem_append, List.mem_append]
    rintro ((hmem | hmem) | hmem)
    · exact hms.notMem (by decide) hmem
    · exact absurd hmem (by decide)
    · exact hseq.notMem (by decide) hmem

theorem resolveNewId_explicit {s : Bytes} {id : StreamId} (h : StreamIdFormat 0 s id) :
    resolveNewId stream s now =
      if id.ms = 0 ∧ id.seq = 0 then .error .idZero
      else if streamIdCmp id (lastIdOf stream) ≤ 0 then .error .idTooSmall
      else .ok id := by
  have hstar : s ≠ ascii "*" := by
    rintro rfl
    exact h.no_star (by decide)
  have hauto : ¬ (2 ≤ s.length ∧ s.drop (s.length - 2) = ascii "-*") := by
    rintro ⟨-, hdrop⟩
    exact h.no_star (List.mem_of_mem_drop (i := s.length - 2) (by rw [hdrop]; decide))
  unfold resolveNewId
  rw [if_neg hstar, if_neg hauto, streamIdParse_eq_some_iff.mpr h]
  rfl

end Resolve

/-- Nothing is after the greatest sequence number of its milliseconds. -/
theorem StreamId.not_lt_of_seq {last id : StreamId} (hseq : last.seq = uint64Max) (hms : id.ms = last.ms) :
    ¬ last.Lt id := by
  rintro (h | ⟨-, h⟩)
  · exact UInt64.lt_irrefl _ (hms ▸ h)
  · rw [hseq] at h
    exact absurd (UInt64.lt_iff_toNat_lt.mp h) (Nat.not_lt.mpr (Nat.le_of_lt_succ id.seq.toNat_lt))

/-- The next sequence number completes `<ms>-*` for the last milliseconds. -/
theorem LeastNew.succ {last : StreamId} (h : last.seq ≠ uint64Max) :
    LeastNew last last.ms ⟨last.ms, last.seq + 1⟩ := by
  have hlt := lt_succ_of_ne_uint64Max h
  have hafter : last.Lt ⟨last.ms, last.seq + 1⟩ := Or.inr ⟨rfl, hlt⟩
  refine ⟨rfl, hafter.ne_zero, hafter, fun x hms _ hx => ?_⟩
  obtain ⟨xms, xseq⟩ := x
  obtain rfl : xms = last.ms := hms
  have hseq : last.seq < xseq := hx.resolve_left (UInt64.lt_irrefl _) |>.2
  by_cases heq : xseq = last.seq + 1
  · exact Or.inl (congrArg _ heq.symm)
  · refine Or.inr (Or.inr ⟨rfl, ?_⟩)
    show last.seq + 1 < xseq
    grind

/-- The first sequence number completes `<ms>-*` for later milliseconds. -/
theorem LeastNew.first {last : StreamId} {ms : UInt64} (h : last.ms < ms) : LeastNew last ms ⟨ms, 0⟩ := by
  have hafter : last.Lt ⟨ms, 0⟩ := Or.inl h
  refine ⟨rfl, hafter.ne_zero, hafter, fun x hms _ _ => ?_⟩
  obtain ⟨xms, xseq⟩ := x
  obtain rfl : xms = ms := hms
  by_cases heq : xseq = 0
  · exact Or.inl (congrArg _ heq.symm)
  · exact Or.inr (Or.inr ⟨rfl, UInt64.pos_iff_ne_zero.mpr heq⟩)

theorem LeastNew.one : LeastNew ⟨0, 0⟩ 0 ⟨0, 1⟩ := by
  have hlast : (⟨0, 0⟩ : StreamId).seq ≠ uint64Max := by decide
  exact LeastNew.succ hlast

section Refusals
variable {stream : Option Stream} (hs : ∀ s ∈ stream, s.Inv)
include hs

theorem autoSeq_resolvesWell {s : Bytes} {ms : UInt64} (h : U64Text s ms) (now : Int) :
    ResolvesWell (lastIdOf stream) (.autoSeq ms) (resolveNewId stream (s ++ ascii "-*") now) := by
  rw [resolveNewId_autoSeq stream now h]
  have hempty := lastIdOf_empty hs
  generalize lastIdOf stream = last at hempty ⊢
  by_cases hbehind : ms < last.ms
  · rw [if_pos hbehind]
    refine .refused fun id hid hlt => ?_
    obtain rfl : id.ms = ms := hid
    rcases hlt with hlt | ⟨heq, -⟩
    · exact UInt64.lt_asymm hlt hbehind
    · exact UInt64.lt_irrefl _ (heq ▸ hbehind)
  rw [if_neg hbehind]
  by_cases hsame : ms = last.ms ∧ stream.any fun s => decide (s.len > 0)
  · rw [if_pos hsame]
    by_cases hseq : last.seq = uint64Max
    · rw [if_pos hseq]
      exact .refused fun id hid => StreamId.not_lt_of_seq hseq (Eq.trans hid hsame.1)
    · rw [if_neg hseq]
      refine .granted fun ms' hms => ?_
      cases hms
      rw [hsame.1]
      exact .succ hseq
  · rw [if_neg hsame]
    refine .granted fun ms' hms => ?_
    cases hms
    by_cases heq : ms = last.ms
    · have h0 := hempty (Bool.eq_false_iff.mpr fun hlen => hsame ⟨heq, hlen⟩)
      rw [h0] at heq ⊢
      rw [heq]
      exact .one
    · have hlt : last.ms < ms := by grind
      have hne : ms ≠ 0 := by
        rintro rfl
        exact UInt64.not_lt_zero hlt
      rw [if_neg hne]
      exact .first hlt

omit hs in
theorem explicit_resolvesWell {s : Bytes} {id : StreamId} (h : StreamIdFormat 0 s id) (now : Int) :
    ResolvesWell (lastIdOf stream) (.explicit id) (resolveNewId stream s now) := by
  rw [resolveNewId_explicit stream now h]
  refine ⟨fun herr x hx => ?_, fun _ _ hform => NewId.noConfusion hform⟩
  obtain rfl : x = id := hx
  split at herr
  · cases herr
  · split at herr
    · rename_i hcmp
      exact fun hlt => absurd ((streamIdCmp_pos _ _).mpr hlt) (Int.not_lt.mpr hcmp)
    · cases herr

omit hs in
/-- `*` is refused when the sequence numbers of the last milliseconds are used up, whatever milliseconds are
left. -/
theorem auto_resolvesWell_iff (now : Int) :
    ResolvesWell (lastIdOf stream) .auto (resolveNewId stream (ascii "*") now) ↔
      ¬ (toU64 now ≤ (lastIdOf stream).ms ∧ (lastIdOf stream).seq = uint64Max ∧
        (lastIdOf stream).ms ≠ uint64Max) := by
  rw [resolveNewId_auto]
  generalize lastIdOf stream = last
  by_cases hms : toU64 now > last.ms
  · rw [if_pos hms]
    exact iff_of_true (.granted fun _ h => NewId.noConfusion h) fun h => UInt64.not_lt.mpr h.1 hms
  rw [if_neg hms]
  by_cases hseq : last.seq = uint64Max
  · rw [if_pos hseq]
    constructor
    · rintro ⟨hnone, -⟩ ⟨-, -, hmax⟩
      exact hnone rfl ⟨last.ms + 1, 0⟩ trivial (Or.inl (lt_succ_of_ne_uint64Max hmax))
    · intro h
      have hmax : last.ms = uint64Max := by
        by_contra hne
        exact h ⟨UInt64.not_lt.mp hms, hseq, hne⟩
      refine .refused fun id _ => ?_
      rintro (hlt | ⟨heq, hlt⟩)
      · rw [hmax] at hlt
        exact absurd (UInt64.lt_iff_toNat_lt.mp hlt) (Nat.not_lt.mpr (Nat.le_of_lt_succ id.ms.toNat_lt))
      · exact StreamId.not_lt_of_seq hseq heq.symm (Or.inr ⟨heq, hlt⟩)
  · rw [if_neg hseq]
    exact iff_of_true (.granted fun _ h => NewId.noConfusion h) fun h => hseq h.2.1

end Refusals

variable {D : Type} [LinearOrder D]

theorem Store.Valid.streamAt {store : Store D} (hv : store.Valid) (key : Bytes) (now : Int) :
    ∀ s ∈ store.streamAt key now, s.Inv := by
  intro s hs
  obtain ⟨c, hc, hstream⟩ := Option.bind_eq_some_iff.mp hs
  have hval := (hv.of_live now key c hc).value
  rw [Value.eq_of_asStream hstream] at hval
  exact hval.1

/-- A specification of a new ID is refused as too small only when it must be, and `<ms>-*` takes the least ID
there is, unless the ID is left to a clock that is not ahead of the stream and the last sequence number is the
greatest. -/
theorem resolveNewId_refuses_iff {store : Store D} (hstore : store.Reachable) (key : Bytes) (t now : Int)
    {spec : Bytes} {form : NewId} (hform : form.Text spec) :
    let stream := store.streamAt key t
    let last := lastIdOf stream
    ResolvesWell last form (resolveNewId stream spec now) ↔
      ¬ (form = .auto ∧ toU64 now ≤ last.ms ∧ last.seq = uint64Max ∧ last.ms ≠ uint64Max) := by
  intro stream last
  have hs := hstore.valid.streamAt key t
  cases hform with
  | auto => rw [auto_resolvesWell_iff, and_iff_right rfl]
  | autoSeq hms => exact iff_of_true (autoSeq_resolvesWell hs hms now) fun h => NewId.noConfusion h.1
  | explicit hid => exact iff_of_true (explicit_resolvesWell hid now) fun h => NewId.noConfusion h.1

/-- A stream whose last ID has the greatest sequence number of its milliseconds. -/
def usedUpStore : Store ℕ :=
  ((StoreOp.streamAdd (ascii "5-18446744073709551615") [⟨ascii "f", ascii "v"⟩]).exec storeCreate
    (ascii "k") 5 5).2

/-- The clock is ahead of the stream. -/
theorem resolveNewId_clock_ahead :
    lastIdOf (usedUpStore.streamAt (ascii "k") 6) = ⟨5, uint64Max⟩ ∧
    ResolvesWell ⟨5, uint64Max⟩ .auto (resolveNewId (usedUpStore.streamAt (ascii "k") 6) (ascii "*") 6) := by
  have hstore : usedUpStore.Reachable := .exec .create _ _ _ _
  have hlast : lastIdOf (usedUpStore.streamAt (ascii "k") 6) = ⟨5, uint64Max⟩ := by decide
  have hwell := (resolveNewId_refuses_iff hstore (ascii "k") 6 6 .auto).mpr fun h => absurd h.2.1 (by decide)
  rw [hlast] at hwell
  exact ⟨hlast, hwell⟩

/-- In the milliseconds of the last ID `*` is refused as too small, although `6-0` is after the last ID. -/
theorem resolveNewId_refused_early :
    lastIdOf (usedUpStore.streamAt (ascii "k") 5) = ⟨5, uint64Max⟩ ∧
    resolveNewId (usedUpStore.streamAt (ascii "k") 5) (ascii "*") 5 = .error .idTooSmall ∧
    NewId.auto.Denotes ⟨6, 0⟩ ∧ StreamId.Lt ⟨5, uint64Max⟩ ⟨6, 0⟩ ∧
    ((StoreOp.streamAdd (ascii "*") [⟨ascii "f", ascii "v"⟩]).exec usedUpStore (ascii "k") 5 5).1 =
      .error .idTooSmall := by
  refine ⟨by decide, by decide, trivial, Or.inl (by decide), by decide⟩

end PulseDB
