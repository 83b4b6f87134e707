import PulseDB.Lib.Reader
import PulseDB.Resp.Parse

/-!
# The language of requests

What `resp_parse_command` accepts, as a grammar, and the parser's `ok` answers in its terms.

* `NumberLine n bs` : `bs` is a number line that `parse_number` reads as `n`;
* `Reads R buf c` : `c` reads exactly the items that `R` spells in the buffer; `Reads.elements`,
  `Reads.error_of`, `Reads.stop` : what the loop over the elements of an array then reads, and where it stops;
* `BulkBytes v bs`, `BulksBytes vs bs` : one bulk string, and a sequence of them; `$-1` is the null bulk;
* `RequestBytes v bs` : an array of bulk strings, or an inline line;
* `respParseCommand_ok_iff` : the parser answers `ok` with `v` and `used` exactly when the buffer starts with
  `used` bytes that spell the request `v`.
-/

namespace PulseDB
open Lib

/-! ## Number lines -/

theorem numberLoop_digits : ∀ {ds : Bytes} {v n : Int}, numberLoop v ds = some n → ∀ c ∈ ds, 48 ≤ c ∧ c ≤ 57
  | [], _, _, _, c, hc => by simp at hc
  | d :: ds, v, n, h, c, hc => by
    unfold numberLoop at h
    split at h
    · cases h
    · rename_i hd
      rcases List.mem_cons.mp hc with rfl | hc
      · rw [not_or, UInt8.not_lt, UInt8.not_lt] at hd
        exact hd
      · exact numberLoop_digits h c hc

theorem parseNumber_some {s : Bytes} {n : Int} (h : parseNumber s = some n) : cr ∉ s ∧ s.length ≤ 20 := by
  unfold parseNumber at h
  split at h
  · cases h
  · rename_i hl
    refine ⟨fun hc => ?_, by omega⟩
    split at h
    · rename_i ds
      split at h
      · cases h
      · obtain ⟨v, hv, -⟩ := Option.map_eq_some_iff.mp h
        rcases List.mem_cons.mp hc with hc | hc
        · exact absurd hc (by decide)
        · exact absurd (numberLoop_digits hv cr hc).1 (by decide)
    · exact absurd (numberLoop_digits h cr hc).1 (by decide)

/-- A number line: a text that `parse_number` reads as `n`, and a CRLF. -/
def NumberLine (n : Int) (bs : Bytes) : Prop := ∃ text, parseNumber text = some n ∧ bs = text ++ [cr, lf]

theorem findLineLoop_cons {maxLine off : ℕ} {b : UInt8} (hb : b ≠ cr) (hoff : off ≤ maxLine) (rest : Bytes) :
    findLineLoop maxLine off (b :: rest) = findLineLoop maxLine (off + 1) rest := by
  rw [findLineLoop.eq_def]
  simp only [if_neg hb, if_neg (show ¬ off > maxLine by omega)]

theorem findLineLoop_ok {maxLine : ℕ} : ∀ {bs : Bytes} {off n : ℕ}, findLineLoop maxLine off bs = .ok n →
    ∃ line rest, bs = line ++ cr :: lf :: rest ∧ cr ∉ line ∧ n = off + line.length
  | [], off, n, h => by
    unfold findLineLoop at h
    split at h <;> cases h
  | b :: bs, off, n, h => by
    unfold findLineLoop at h
    by_cases hb : b = cr
    · rw [if_pos hb] at h
      match bs, h with
      | c :: rest, h =>
        simp only at h
        split at h
        · cases h
        · rename_i hc
          simp only [ne_eq, not_not] at hc
          cases h
          exact ⟨[], rest, by rw [hb, hc, List.nil_append], by simp, rfl⟩
    · rw [if_neg hb] at h
      split at h
      · cases h
      · obtain ⟨line, rest, rfl, hcr, rfl⟩ := findLineLoop_ok h
        refine ⟨b :: line, rest, rfl, ?_, by rw [List.length_cons]; omega⟩
        rw [List.mem_cons, not_or]
        exact ⟨fun h => hb h.symm, hcr⟩

theorem findLineLoop_line {maxLine : ℕ} {rest : Bytes} : ∀ {line : Bytes} {off : ℕ}, cr ∉ line →
    off + line.length ≤ maxLine + 1 → findLineLoop maxLine off (line ++ cr :: lf :: rest) =
      .ok (off + line.length)
  | [], off, _, _ => by simp [findLineLoop]
  | b :: line, off, hcr, hl => by
    rw [List.mem_cons, not_or] at hcr
    rw [List.length_cons] at hl ⊢
    rw [List.cons_append, findLineLoop_cons (fun h => hcr.1 h.symm) (by omega),
      findLineLoop_line hcr.2 (by omega), show off + 1 + line.length = off + (line.length + 1) by omega]

/-- The line scan and the number it holds, on the bytes from `pos` on. -/
theorem readNumberLine_eq (buf : Bytes) (pos : ℕ) :
    readNumberLine buf pos = (findLineLoop 32 0 (buf.drop pos) >>= fun off =>
      match parseNumber ((buf.drop pos).take off) with
      | none => .error
      | some n => .ok (n, pos + off + 2)) := by
  unfold readNumberLine findLineEnd
  cases findLineLoop 32 0 (buf.drop pos) with
  | ok off =>
    rw [Parse.ok_bind, Parse.ok_bind, Parse.pure_eq, Parse.ok_bind, Nat.add_sub_cancel_left]
    cases parseNumber ((buf.drop pos).take off) <;> rfl
  | incomplete => rfl
  | error => rfl

theorem readNumberLine_ok_iff {buf : Bytes} {pos next : ℕ} {n : Int} :
    readNumberLine buf pos = .ok (n, next) ↔
      ∃ line rest, NumberLine n line ∧ buf.drop pos = line ++ rest ∧ next = pos + line.length := by
  rw [readNumberLine_eq, Parse.bind_eq_ok]
  constructor
  · rintro ⟨off, hoff, hn⟩
    obtain ⟨text, rest, hbuf, hcr, rfl⟩ := findLineLoop_ok hoff
    rw [hbuf, Nat.zero_add, List.take_left] at hn
    split at hn
    · cases hn
    · rename_i m hm
      cases hn
      exact ⟨text ++ [cr, lf], rest, ⟨text, hm, rfl⟩, by rw [hbuf]; simp, by simp; omega⟩
  · rintro ⟨_, rest, ⟨text, htext, rfl⟩, hbuf, rfl⟩
    obtain ⟨hcr, hlen⟩ := parseNumber_some htext
    have hbuf' : buf.drop pos = text ++ cr :: lf :: rest := by rw [hbuf]; simp
    refine ⟨0 + text.length, by rw [hbuf']; exact findLineLoop_line hcr (by omega), ?_⟩
    rw [hbuf', Nat.zero_add, List.take_left, htext]
    simp only [List.length_append, List.length_cons, List.length_nil, Parse.ok.injEq, Prod.mk.injEq, true_and]
    omega

/-! ## Sequences -/

theorem drop_skip {buf bs rest : Bytes} {pos : ℕ} (h : buf.drop pos = bs ++ rest) :
    buf.drop (pos + bs.length) = rest := by
  rw [← List.drop_drop, h, List.drop_left]

/-- At every position `c` reads exactly the items that `R` spells there. -/
def Reads {α : Type} (R : α → Bytes → Prop) (buf : Bytes) (c : ℕ → Parse (α × ℕ)) : Prop :=
  ∀ pos next v, c pos = .ok (v, next) ↔ ∃ bs rest, R v bs ∧ buf.drop pos = bs ++ rest ∧ next = pos + bs.length

theorem Reads.elements {R : RespValue → Bytes → Prop} {buf : Bytes} {c : ℕ → Parse (RespValue × ℕ)}
    (hc : Reads R buf c) : ∀ count, Reads (fun vs bs => vs.length = count ∧ Spelled R vs bs) buf
      (parseElements c count)
  | 0, pos, next, vs => by
    unfold parseElements
    simp only [Parse.pure_eq, Parse.ok.injEq, Prod.mk.injEq]
    constructor
    · rintro ⟨rfl, rfl⟩
      exact ⟨[], _, ⟨rfl, .nil⟩, rfl, rfl⟩
    · rintro ⟨bs, rest, ⟨hl, hv⟩, -, rfl⟩
      obtain rfl := List.eq_nil_of_length_eq_zero hl
      cases hv
      exact ⟨rfl, rfl⟩
  | count + 1, pos, next, vs => by
    unfold parseElements
    rw [Parse.bind_eq_ok]
    constructor
    · rintro ⟨⟨v, p⟩, hv, h⟩
      obtain ⟨⟨ws, q⟩, hws, h⟩ := Parse.bind_eq_ok.mp h
      cases h
      obtain ⟨b, rest, hb, hbuf, rfl⟩ := (hc _ _ _).mp hv
      obtain ⟨bs, rest', ⟨hl, hbs⟩, hbuf', rfl⟩ := (hc.elements count _ _ _).mp hws
      rw [drop_skip hbuf] at hbuf'
      refine ⟨b ++ bs, rest', ⟨by rw [List.length_cons, hl], .cons hb hbs⟩,
        ?_, by rw [List.length_append]; omega⟩
      rw [hbuf, hbuf', List.append_assoc]
    · rintro ⟨bs, rest, ⟨hl, hvs⟩, hbuf, rfl⟩
      cases hvs with
      | nil => simp at hl
      | @cons v ws b bs hv hws =>
        rw [List.append_assoc] at hbuf
        refine ⟨(v, pos + b.length), (hc _ _ _).mpr ⟨b, _, hv, hbuf, rfl⟩, ?_⟩
        simp only
        rw [Parse.bind_eq_ok]
        refine ⟨(ws, pos + b.length + bs.length),
          (hc.elements count _ _ _).mpr ⟨bs, rest, ⟨by simpa using hl, hws⟩, drop_skip hbuf, rfl⟩, ?_⟩
        simp only [Parse.pure_eq, Parse.ok.injEq, Prod.mk.injEq, List.length_append, true_and]
        omega

theorem Reads.append {R : RespValue → Bytes → Prop} (hne : ∀ {v bs}, R v bs → bs ≠ []) {buf x : Bytes}
    {c c' : ℕ → Parse (RespValue × ℕ)} (hc : Reads R buf c) (hc' : Reads R (buf ++ x) c') {pos : ℕ}
      {r : RespValue × ℕ}
    (h : c pos = .ok r) : c' pos = .ok r := by
  obtain ⟨v, next⟩ := r
  obtain ⟨bs, rest, hv, hbuf, hnext⟩ := (hc _ _ _).mp h
  have hpos : pos ≤ buf.length := by
    by_contra hlt
    rw [List.drop_of_length_le (by omega)] at hbuf
    exact hne hv (List.append_eq_nil_iff.mp hbuf.symm).1
  refine (hc' _ _ _).mpr ⟨bs, rest ++ x, hv, ?_, hnext⟩
  rw [List.drop_append_of_le_length hpos, hbuf, List.append_assoc]

/-- An error in the elements is an error in one of them, after some that are complete. -/
theorem Reads.error_of {R : RespValue → Bytes → Prop} {S : Bytes → Prop} {buf : Bytes}
    {c c' : ℕ → Parse (RespValue × ℕ)} (hc : Reads R buf c) (hok : ∀ {pos r}, c pos = .ok r → c' pos = .ok r)
    (herr : ∀ {pos}, c pos = .error → c' pos = .error ∨ S (buf.drop pos)) : ∀ {count pos : ℕ},
    parseElements c count pos = .error → parseElements c' count pos = .error ∨
      ∃ vs bs tail, vs.length < count ∧ Spelled R vs bs ∧ buf.drop pos = bs ++ tail ∧ S tail
  | 0, pos, h => by
    unfold parseElements at h
    cases h
  | count + 1, pos, h => by
    unfold parseElements at h ⊢
    rcases Parse.bind_eq_error.mp h with h | ⟨⟨v, p⟩, hv, h⟩
    · rcases herr h with h | hs
      · rw [h]
        exact Or.inl rfl
      · exact Or.inr ⟨[], [], _, Nat.succ_pos _, .nil, rfl, hs⟩
    · obtain ⟨b, rest, hb, hbuf, rfl⟩ := (hc _ _ _).mp hv
      rw [hok hv, Parse.ok_bind]
      rcases Parse.bind_eq_error.mp h with h | ⟨r, -, h⟩
      · rcases hc.error_of hok herr h with h | ⟨vs, bs, tail, hlt, hbs, hbuf', hs⟩
        · simp only [h]
          exact Or.inl rfl
        · rw [drop_skip hbuf] at hbuf'
          exact Or.inr ⟨v :: vs, b ++ bs, tail, Nat.succ_lt_succ hlt, .cons hb hbs,
            by rw [hbuf, hbuf', List.append_assoc], hs⟩
      · cases h

/-- Elements that are followed by an error are an error, and likewise for an element that is not complete. -/
theorem Reads.stop {R : RespValue → Bytes → Prop} {buf : Bytes} {c : ℕ → Parse (RespValue × ℕ)}
    (hc : Reads R buf c) :
    ∀ {vs : List RespValue} {bs rest : Bytes} {count pos : ℕ}, Spelled R vs bs → vs.length < count →
      buf.drop pos = bs ++ rest →
      (c (pos + bs.length) = .error → parseElements c count pos = .error) ∧
        (c (pos + bs.length) = .incomplete → parseElements c count pos = .incomplete)
  | vs, bs, rest, 0, pos, _, hlt, _ => absurd hlt (Nat.not_lt_zero _)
  | vs, bs, rest, count + 1, pos, hvs, hlt, hbuf => by
    unfold parseElements
    cases hvs with
    | nil =>
      refine ⟨fun h => ?_, fun h => ?_⟩
      · rw [show c pos = .error from h]
        rfl
      · rw [show c pos = .incomplete from h]
        rfl
    | @cons v vs b bs hv hvs =>
      rw [List.append_assoc] at hbuf
      obtain ⟨h1, h2⟩ := hc.stop hvs (Nat.lt_of_succ_lt_succ hlt) (drop_skip hbuf)
      rw [(hc _ _ _).mpr ⟨b, _, hv, hbuf, rfl⟩, Parse.ok_bind, List.length_append, ← Nat.add_assoc]
      simp only
      exact ⟨fun h => by rw [h1 h]; rfl, fun h => by rw [h2 h]; rfl⟩

/-! ## Bulk strings -/

/-- A bulk string with its header; `$-1` is the null bulk. -/
inductive BulkBytes : RespValue → Bytes → Prop
  | null {line : Bytes} (h : NumberLine (-1) line) : BulkBytes .null (36 :: line)
  | bulk {s line : Bytes} (h : NumberLine s.length line) (hs : s.length ≤ respMaxBulkLen) :
      BulkBytes (.bulk s) (36 :: (line ++ s ++ [cr, lf]))

/-- Bulk strings one after the other. -/
inductive BulksBytes : List RespValue → Bytes → Prop
  | nil : BulksBytes [] []
  | cons {v : RespValue} {vs : List RespValue} {b bs : Bytes} (h : BulkBytes v b) (hs : BulksBytes vs bs) :
      BulksBytes (v :: vs) (b ++ bs)

theorem parseBulk_ok_iff {buf : Bytes} {pos next : ℕ} {v : RespValue} :
    parseBulk buf pos = .ok (v, next) ↔
      ∃ bs rest, BulkBytes v (36 :: bs) ∧ buf.drop pos = bs ++ rest ∧ next = pos + bs.length := by
  unfold parseBulk
  rw [Parse.bind_eq_ok]
  constructor
  · rintro ⟨⟨blen, p⟩, hline, h⟩
    obtain ⟨line, rest, hl, hbuf, rfl⟩ := readNumberLine_ok_iff.mp hline
    simp only at h
    split_ifs at h with h1 h2 h3 h4
    · cases h
      exact ⟨line, rest, .null (h1 ▸ hl), hbuf, rfl⟩
    · -- the payload and its CRLF, read off the rest of the buffer
      rw [not_or, not_not, not_not] at h4
      have hrest : buf.drop (pos + line.length) = rest := by
        rw [← List.drop_drop, hbuf, List.drop_left]
      have hlen : rest.length = buf.length - (pos + line.length) := by rw [← hrest, List.length_drop]
      have hget : ∀ i, rest[i]? = buf[pos + line.length + i]? := fun i => by rw [← hrest, List.getElem?_drop]
      rw [← hget, Nat.add_assoc, ← hget] at h4
      obtain ⟨k, hk⟩ : ∃ k, k = blen.toNat := ⟨_, rfl⟩
      rw [← hk] at h3 h4 h
      obtain ⟨hk1, hc1⟩ := List.getElem?_eq_some_iff.mp h4.1
      obtain ⟨hk2, hc2⟩ := List.getElem?_eq_some_iff.mp h4.2
      have hsplit : rest = rest.take k ++ cr :: lf :: rest.drop (k + 2) := by
        conv_lhs => rw [← List.take_append_drop k rest, List.drop_eq_getElem_cons hk1,
          List.drop_eq_getElem_cons hk2]
        rw [hc1, hc2]
      have htake : (rest.take k).length = k := by rw [List.length_take]; omega
      cases h
      refine ⟨line ++ rest.take k ++ [cr, lf], rest.drop (k + 2), ?_, ?_, ?_⟩
      · rw [hrest]
        refine .bulk ?_ (by omega)
        rw [htake, show (k : Int) = blen by omega]
        exact hl
      · rw [hbuf]
        conv_lhs => rw [hsplit]
        simp
      · simp only [List.length_append, htake, List.length_cons, List.length_nil]
        omega
  · rintro ⟨bs, rest, hv, hbuf, rfl⟩
    cases hv with
    | null hl =>
      refine ⟨(-1, pos + bs.length), readNumberLine_ok_iff.mpr ⟨bs, rest, hl, hbuf, rfl⟩, ?_⟩
      simp only [if_pos]
      rfl
    | @bulk s line hl hs =>
      have hbuf' : buf.drop pos = line ++ (s ++ cr :: lf :: rest) := by rw [hbuf]; simp
      have hrest : buf.drop (pos + line.length) = s ++ cr :: lf :: rest := by
        rw [← List.drop_drop, hbuf', List.drop_left]
      have hlen : s.length + 2 + rest.length = buf.length - (pos + line.length) := by
        rw [← List.length_drop, hrest]; simp; omega
      refine ⟨(s.length, pos + line.length), readNumberLine_ok_iff.mpr ⟨line, _, hl, hbuf', rfl⟩, ?_⟩
      have hget : ∀ i, buf[pos + line.length + i]? = (s ++ cr :: lf :: rest)[i]? := fun i => by
        rw [← hrest, List.getElem?_drop]
      simp only [Int.toNat_natCast]
      rw [if_neg (by omega), if_neg (by omega), if_neg (by omega), if_neg, hrest, List.take_left]
      · simp only [Parse.pure_eq, List.length_append, List.length_cons, List.length_nil, Parse.ok.injEq,
          Prod.mk.injEq, true_and]
        omega
      · rw [not_or, not_not, not_not, hget, Nat.add_assoc, hget, List.getElem?_append_right (by omega),
          List.getElem?_append_right (by omega)]
        simp

theorem parseValue_bulk_ok_iff {buf : Bytes} {room pos next : ℕ} {v : RespValue} :
    parseValue buf true (room + 1) pos = .ok (v, next) ↔
      ∃ bs rest, BulkBytes v bs ∧ buf.drop pos = bs ++ rest ∧ next = pos + bs.length := by
  unfold parseValue
  constructor
  · intro h
    split at h
    · cases h
    · rename_i type htype
      by_cases h36 : type = 36
      · subst h36
        obtain ⟨bs, rest, hv, hbuf, rfl⟩ := parseBulk_ok_iff.mp h
        obtain ⟨hp, ht⟩ := List.getElem?_eq_some_iff.mp htype
        refine ⟨36 :: bs, rest, hv, ?_, by rw [List.length_cons]; omega⟩
        rw [List.drop_eq_getElem_cons hp, ht, hbuf]
        rfl
      · simp only [true_and] at h
        rw [if_pos h36] at h
        cases h
  · rintro ⟨bs, rest, hv, hbuf, rfl⟩
    obtain ⟨bs, rfl⟩ : ∃ bs', bs = 36 :: bs' := by cases hv <;> exact ⟨_, rfl⟩
    have hp : buf[pos]? = some 36 := by
      have := congrArg (·[0]?) hbuf
      simpa [List.getElem?_drop] using this
    have htail : buf.drop (pos + 1) = bs ++ rest := by
      rw [← List.drop_drop, hbuf]
      rfl
    rw [hp]
    simp only [ne_eq, not_true_eq_false, and_false, if_false, if_true]
    rw [parseBulk_ok_iff]
    exact ⟨bs, rest, hv, htail, by rw [List.length_cons]; omega⟩

theorem bulksBytes_iff {vs : List RespValue} {bs : Bytes} : BulksBytes vs bs ↔ Spelled BulkBytes vs bs := by
  constructor
  · intro h
    induction h with
    | nil => exact .nil
    | cons hv _ ih => exact .cons hv ih
  · intro h
    induction h with
    | nil => exact .nil
    | cons hv _ ih => exact .cons hv ih

theorem parseValue_reads_bulk (buf : Bytes) (room : ℕ) :
    Reads BulkBytes buf (parseValue buf true (room + 1)) :=
  fun _ _ _ => parseValue_bulk_ok_iff

theorem parseElements_ok_iff {buf : Bytes} {room count pos next : ℕ} {vs : List RespValue} :
    parseElements (parseValue buf true (room + 1)) count pos = .ok (vs, next) ↔
      vs.length = count ∧ ∃ bs rest, BulksBytes vs bs ∧ buf.drop pos = bs ++ rest ∧
      next = pos + bs.length := by
  rw [(parseValue_reads_bulk buf room).elements count pos next vs]
  constructor
  · rintro ⟨bs, rest, ⟨hlen, hvs⟩, hbuf, hnext⟩
    exact ⟨hlen, bs, rest, bulksBytes_iff.mpr hvs, hbuf, hnext⟩
  · rintro ⟨hlen, bs, rest, hvs, hbuf, hnext⟩
    exact ⟨bs, rest, ⟨hlen, bulksBytes_iff.mp hvs⟩, hbuf, hnext⟩

/-! ## Requests -/

/-- The words of an inline line, without the CR that may end it. -/
def inlineValue (line : Bytes) : RespValue :=
  let line := if line.getLast? = some cr then line.dropLast else line
  { type := .array, elements := (inlineWords line.length line).map .bulk }

/-- A request: an array of bulk strings, or an inline line. -/
inductive RequestBytes : RespValue → Bytes → Prop
  | array {vs : List RespValue} {line bs : Bytes} (hl : NumberLine vs.length line)
      (hlen : vs.length ≤ respMaxArrayLen) (hvs : BulksBytes vs bs) :
      RequestBytes { type := .array, elements := vs } (42 :: (line ++ bs))
  | inline {line : Bytes} (hlf : lf ∉ line) (hlen : line.length ≤ respMaxInlineLen)
      (hstar : line.head? ≠ some 42) : RequestBytes (inlineValue line) (line ++ [lf])

theorem parseInline_ok_iff {buf : Bytes} {v : RespValue} {used : ℕ} (hstar : buf[0]? ≠ some 42) :
    parseInline buf = .ok (v, used) ↔ ∃ line rest, lf ∉ line ∧ line.length ≤ respMaxInlineLen ∧
      line.head? ≠ some 42 ∧ v = inlineValue line ∧ buf = line ++ [lf] ++ rest ∧ used = line.length + 1 := by
  unfold parseInline
  constructor
  · intro h
    by_cases hmem : lf ∈ buf
    swap
    · rw [if_pos hmem] at h
      split at h <;> cases h
    rw [if_neg (not_not_intro hmem)] at h
    by_cases hmax : respMaxInlineLen < buf.idxOf lf
    · rw [if_pos hmax] at h
      cases h
    rw [if_neg hmax] at h
    have hidx : buf.idxOf lf < buf.length := List.idxOf_lt_length_iff.mpr hmem
    have hget : buf[buf.idxOf lf] = lf := List.getElem_idxOf hidx
    have hlen : (buf.take (buf.idxOf lf)).length = buf.idxOf lf := by rw [List.length_take]; omega
    cases h
    have hlf : lf ∉ buf.take (buf.idxOf lf) := by
      rw [List.mem_take_iff_idxOf_lt hmem]
      omega
    refine ⟨buf.take (buf.idxOf lf), buf.drop (buf.idxOf lf + 1), hlf, by omega, ?_, rfl, ?_, by rw [hlen]⟩
    · intro hh
      apply hstar
      rw [List.head?_take] at hh
      split at hh
      · cases hh
      · rw [← List.head?_eq_getElem?]; exact hh
    · rw [List.append_assoc, List.singleton_append]
      conv_lhs => rw [← List.take_append_drop (buf.idxOf lf) buf, List.drop_eq_getElem_cons hidx, hget]
  · rintro ⟨line, rest, hlf, hlen, -, rfl, rfl, rfl⟩
    have hmem : lf ∈ line ++ [lf] ++ rest := by simp
    have hidx : (line ++ [lf] ++ rest).idxOf lf = line.length := by
      rw [List.append_assoc, List.idxOf_append_of_notMem hlf]
      simp
    rw [if_neg (not_not_intro hmem), hidx, if_neg (by omega)]
    simp only
    rw [List.append_assoc, List.take_left]
    rfl

theorem parseArray_bulk_ok_iff {buf : Bytes} {room pos next : ℕ} {v : RespValue} {line rest : Bytes} {n : Int}
    (hn : 0 ≤ n) (hline : NumberLine n line) (hbuf : buf.drop pos = line ++ rest) :
    parseArray buf (parseValue buf true (room + 1)) pos = .ok (v, next) ↔
      ∃ vs bs rest', (vs.length : Int) = n ∧ vs.length ≤ respMaxArrayLen ∧ BulksBytes vs bs ∧
        rest = bs ++ rest' ∧
        v = { type := .array, elements := vs } ∧ next = pos + line.length + bs.length := by
  have hread : readNumberLine buf pos = .ok (n, pos + line.length) :=
    readNumberLine_ok_iff.mpr ⟨line, rest, hline, hbuf, rfl⟩
  have hrest : buf.drop (pos + line.length) = rest := by rw [← List.drop_drop, hbuf, List.drop_left]
  unfold parseArray
  rw [hread, Parse.ok_bind]
  simp only
  rw [if_neg (by omega)]
  constructor
  · intro h
    split_ifs at h with h1
    obtain ⟨⟨vs, q⟩, hvs, h⟩ := Parse.bind_eq_ok.mp h
    cases h
    obtain ⟨hl, bs, rest', hbs, hbuf', rfl⟩ := parseElements_ok_iff.mp hvs
    exact ⟨vs, bs, rest', by omega, by omega, hbs, by rw [← hrest, hbuf'], rfl, rfl⟩
  · rintro ⟨vs, bs, rest', hl, hmax, hbs, rfl, rfl, rfl⟩
    rw [if_neg (by omega), Parse.bind_eq_ok]
    exact ⟨(vs, _), parseElements_ok_iff.mpr ⟨by omega, bs, rest', hbs, hrest, rfl⟩, rfl⟩

/-- The parser answers `ok` exactly on the buffers that start with a request, and uses exactly its bytes. -/
theorem respParseCommand_ok_iff {buf : Bytes} {v : RespValue} {used : ℕ} :
    respParseCommand buf = .ok (v, used) ↔ ∃ bs rest, RequestBytes v bs ∧ buf = bs ++ rest ∧
      used = bs.length := by
  unfold respParseCommand
  constructor
  · intro h
    split_ifs at h with h0 hstar
    · obtain ⟨line, rest, hlf, hlen, hs, rfl, rfl, rfl⟩ := (parseInline_ok_iff hstar).mp h
      exact ⟨line ++ [lf], rest, .inline hlf hlen hs, rfl, by simp⟩
    · obtain ⟨⟨n, p⟩, hline, h⟩ := Parse.bind_eq_ok.mp h
      obtain ⟨line, rest, hl, hbuf, rfl⟩ := readNumberLine_ok_iff.mp hline
      simp only at h
      split_ifs at h with hn
      obtain ⟨vs, bs, rest', hvl, hmax, hbs, rfl, rfl, rfl⟩ :=
        (parseArray_bulk_ok_iff (by omega) hl hbuf).mp h
      rw [not_not] at hstar
      obtain ⟨hp, ht⟩ := List.getElem?_eq_some_iff.mp hstar
      refine ⟨42 :: (line ++ bs), rest', .array (hvl ▸ hl) hmax hbs, ?_, ?_⟩
      · rw [← List.drop_zero (l := buf), List.drop_eq_getElem_cons hp, ht, hbuf]
        simp
      · simp only [List.length_cons, List.length_append]
        omega
  · rintro ⟨bs, rest, hv, rfl, rfl⟩
    cases hv with
    | @array vs line bs hl hmax hvs =>
      have hbuf : (42 :: (line ++ bs) ++ rest).drop 1 = line ++ (bs ++ rest) := by simp
      rw [if_neg (by simp), if_neg (by simp),
        readNumberLine_ok_iff.mpr ⟨line, bs ++ rest, hl, hbuf, rfl⟩, Parse.ok_bind]
      simp only
      rw [if_neg (by omega), show respMaxDepth = 15 + 1 from rfl, parseArray_bulk_ok_iff (by omega) hl hbuf]
      refine ⟨vs, bs, rest, rfl, hmax, hvs, rfl, rfl, ?_⟩
      simp only [List.length_cons, List.length_append]
      omega
    | @inline line hlf hlen hs =>
      have hstar : (line ++ [lf] ++ rest)[0]? ≠ some 42 := by
        cases line with
        | nil => simp [lf]
        | cons a line => simpa using hs
      rw [if_neg (by simp), if_pos hstar, parseInline_ok_iff hstar]
      exact ⟨line, rest, hlf, hlen, hs, rfl, rfl, by simp⟩

end PulseDB
