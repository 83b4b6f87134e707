import PulseDB.Resp.Grammar

/-!
# Requests: null arguments and cut streams

Two properties of `resp_parse_command`, each with the exact condition under which it holds.

* A request is an array of non-null bulk strings, unless an element header reads as `-1` (`HasNullBulk`):
  `parse_bulk` then stores a `RESP_NULL` without a string, whatever `bulk_only` says.
* An `error` answer is final, unless the buffer stops in a header line of exactly 33 bytes (`LongHeader`): the
  length test after the scan of `find_line_end` refuses such a line, but the scan itself looks for the CR
  first, so one more byte, a CR, turns the answer into `incomplete`.
-/

namespace PulseDB
open Lib

/-! ## Null elements -/

/-- A bulk string: the type is set and a non-null `str` holds the `len` bytes of the payload. -/
def RespValue.IsBulk (v : RespValue) : Prop := v.type = .bulkString ∧ ∃ s, v.str = some s ∧ v.len = s.length

/-- The buffer starts with an array request that has an element header reading `-1`. -/
def HasNullBulk (buf : Bytes) : Prop :=
  ∃ (vs ws : List RespValue) (header before nullLine after rest : Bytes),
    NumberLine (vs.length + 1 + ws.length : ℕ) header ∧ vs.length + 1 + ws.length ≤ respMaxArrayLen ∧
    BulksBytes vs before ∧ NumberLine (-1) nullLine ∧ BulksBytes ws after ∧
    buf = 42 :: (header ++ (before ++ (36 :: nullLine) ++ after)) ++ rest

theorem RespValue.isBulk_bulk (s : Bytes) : (RespValue.bulk s).IsBulk := ⟨rfl, s, rfl, rfl⟩

theorem RespValue.not_isBulk_null : ¬ RespValue.null.IsBulk := by
  intro h
  exact absurd h.1 (by decide)

theorem BulksBytes.append {vs ws : List RespValue} {b c : Bytes} (hv : BulksBytes vs b)
    (hw : BulksBytes ws c) :
    BulksBytes (vs ++ ws) (b ++ c) := by
  induction hv with
  | nil => exact hw
  | cons h _ ih => rw [List.cons_append, List.append_assoc]; exact .cons h ih

theorem BulksBytes.singleton {v : RespValue} {b : Bytes} (h : BulkBytes v b) : BulksBytes [v] b := by
  have := BulksBytes.cons h .nil
  rwa [List.append_nil] at this

theorem BulksBytes.split {vs : List RespValue} {v : RespValue} {ws : List RespValue} {bs : Bytes}
    (h : BulksBytes (vs ++ v :: ws) bs) :
    ∃ b c d, BulksBytes vs b ∧ BulkBytes v c ∧ BulksBytes ws d ∧ bs = b ++ c ++ d := by
  induction vs generalizing bs with
  | nil =>
    cases h with
    | cons hv hws => exact ⟨[], _, _, .nil, hv, hws, by simp⟩
  | cons u vs ih =>
    cases h with
    | cons hu hvs =>
      obtain ⟨b, c, d, hb, hc, hd, rfl⟩ := ih hvs
      exact ⟨_ ++ b, c, d, .cons hu hb, hc, hd, by simp⟩

/-- Every request is an array; its elements are bulk strings, or null bulks of an array request. -/
theorem RequestBytes.elements {v : RespValue} {bs : Bytes} (h : RequestBytes v bs) :
    v.type = .array ∧ ∀ e ∈ v.elements, e.IsBulk ∨ (e = .null ∧ HasNullBulk bs) := by
  cases h with
  | @array vs line bs hl hmax hvs =>
    refine ⟨rfl, fun e he => ?_⟩
    obtain ⟨us, ws, rfl⟩ := List.append_of_mem he
    obtain ⟨b, c, d, hb, hc, hd, rfl⟩ := hvs.split
    cases hc with
    | bulk _ _ => exact Or.inl (RespValue.isBulk_bulk _)
    | @null nullLine hnull =>
      rw [List.length_append, List.length_cons, show us.length + (ws.length + 1) = us.length + 1 +
        ws.length by omega]
        at hl hmax
      exact Or.inr ⟨rfl, us, ws, line, b, nullLine, d, [], hl, hmax, hb, hnull, hd, by simp⟩
  | inline hlf hlen hstar =>
    refine ⟨rfl, fun e he => ?_⟩
    obtain ⟨s, -, rfl⟩ := List.mem_map.mp he
    exact Or.inl (RespValue.isBulk_bulk s)

theorem HasNullBulk.append {buf : Bytes} (h : HasNullBulk buf) (x : Bytes) : HasNullBulk (buf ++ x) := by
  obtain ⟨vs, ws, header, before, nullLine, after, rest, h1, h2, h3, h4, h5, rfl⟩ := h
  exact ⟨vs, ws, header, before, nullLine, after, rest ++ x, h1, h2, h3, h4, h5, by rw [List.append_assoc]⟩

/-- On a request with a null bulk the parser answers `ok`, with that element null. -/
theorem HasNullBulk.parsed {buf : Bytes} (h : HasNullBulk buf) :
    ∃ v used, respParseCommand buf = .ok (v, used) ∧ RespValue.null ∈ v.elements := by
  obtain ⟨vs, ws, header, before, nullLine, after, rest, h1, h2, h3, h4, h5, rfl⟩ := h
  have hlen : (vs ++ [RespValue.null] ++ ws).length = vs.length + 1 + ws.length := by simp; omega
  refine ⟨_, _, respParseCommand_ok_iff.mpr ⟨_, rest, .array (by rw [hlen]; exact h1) (by rw [hlen]; exact h2)
    ((h3.append (.singleton (.null h4))).append h5), rfl, rfl⟩, ?_⟩
  simp

/-- The parser's requests are arrays of bulk strings exactly when no element header reads as `-1`. -/
theorem respParseCommand_bulk_iff (buf : Bytes) :
    (∀ v used, respParseCommand buf = .ok (v, used) →
        RequestBytes v (buf.take used) ∧ v.type = .array ∧ ∀ e ∈ v.elements, e.IsBulk) ↔
          ¬ HasNullBulk buf := by
  constructor
  · intro h hnull
    obtain ⟨v, used, hp, hmem⟩ := hnull.parsed
    exact RespValue.not_isBulk_null ((h v used hp).2.2 _ hmem)
  · intro hnull v used hp
    obtain ⟨bs, rest, hv, rfl, rfl⟩ := respParseCommand_ok_iff.mp hp
    rw [List.take_left]
    obtain ⟨harr, hel⟩ := hv.elements
    refine ⟨hv, harr, fun e he => ?_⟩
    rcases hel e he with h | ⟨-, h⟩
    · exact h
    · exact absurd (h.append rest) hnull

/-! ## Extensions of a buffer -/

/-- A line of exactly 33 bytes that has not ended. -/
def LongLine (bs : Bytes) : Prop := bs.length = 33 ∧ cr ∉ bs

/-- The start of a request that ends where the digits of a length header are due. -/
inductive HeaderDue : Bytes → Prop
  | array : HeaderDue [42]
  | bulk {n : ℕ} {line bs : Bytes} {vs : List RespValue} (hl : NumberLine n line) (hn : n ≤ respMaxArrayLen)
      (hvs : BulksBytes vs bs) (hlt : vs.length < n) : HeaderDue (42 :: (line ++ (bs ++ [36])))

/-- The buffer stops in a length header of exactly 33 bytes. -/
def LongHeader (buf : Bytes) : Prop := ∃ head line, HeaderDue head ∧ LongLine line ∧ buf = head ++ line

theorem findLineLoop_error_append {maxLine : ℕ} {x : Bytes} : ∀ {bs : Bytes} {off : ℕ}, off ≤ maxLine + 1 →
    findLineLoop maxLine off bs = .error → findLineLoop maxLine off (bs ++ x) = .error ∨
      (cr ∉ bs ∧ off + bs.length = maxLine + 1 ∧ ∃ x', x = cr :: x')
  | [], off, hoff, h => by
    unfold findLineLoop at h
    split at h
    swap
    · cases h
    cases x with
    | nil => exact Or.inl (by simpa [findLineLoop] using by omega)
    | cons c x' =>
      by_cases hc : c = cr
      · exact Or.inr ⟨by simp, by simp; omega, x', by rw [hc]⟩
      · left
        rw [List.nil_append, findLineLoop.eq_def]
        simp only [if_neg hc]
        rw [if_pos (by omega)]
  | b :: bs, off, hoff, h => by
    rw [findLineLoop.eq_def] at h
    simp only at h
    by_cases hb : b = cr
    · rw [if_pos hb] at h
      cases bs with
      | nil => cases h
      | cons c rest =>
        left
        rw [List.cons_append, List.cons_append, findLineLoop.eq_def]
        simp only [if_pos hb]
        simp only at h
        split at h
        · rename_i hc; rw [if_pos hc]
        · cases h
    · rw [if_neg hb] at h
      by_cases hmax : off > maxLine
      · left
        rw [List.cons_append, findLineLoop.eq_def]
        simp only [if_neg hb, if_pos hmax]
      · rw [if_neg hmax] at h
        rw [List.cons_append, findLineLoop_cons hb (by omega), List.length_cons, List.mem_cons, not_or]
        rcases findLineLoop_error_append (by omega) h with h | ⟨hcr, hlen, hx⟩
        · exact Or.inl h
        · exact Or.inr ⟨⟨fun h => hb h.symm, hcr⟩, by omega, hx⟩

theorem findLineLoop_skip {maxLine : ℕ} {x : Bytes} : ∀ {bs : Bytes} {off : ℕ}, cr ∉ bs →
    off + bs.length ≤ maxLine + 1 → findLineLoop maxLine off (bs ++ x) = findLineLoop maxLine
      (off + bs.length) x
  | [], off, _, _ => rfl
  | b :: bs, off, hcr, hlen => by
    rw [List.mem_cons, not_or] at hcr
    rw [List.length_cons] at hlen ⊢
    rw [List.cons_append, findLineLoop_cons (fun h => hcr.1 h.symm) (by omega),
      findLineLoop_skip hcr.2 (by omega), show off + 1 + bs.length = off + (bs.length + 1) by omega]

theorem parseNumber_long {bs : Bytes} (h : 20 < bs.length) : parseNumber bs = none := by
  unfold parseNumber
  rw [if_pos (Or.inr h)]

theorem findLineLoop_long {bs : Bytes} (h : LongLine bs) : findLineLoop 32 0 bs = .error := by
  have := @findLineLoop_skip 32 [] bs 0 h.2 (by rw [h.1])
  rw [List.append_nil, h.1] at this
  rw [this]
  rfl

theorem readNumberLine_long {buf : Bytes} {pos : ℕ} (h : LongLine (buf.drop pos)) :
    readNumberLine buf pos = .error ∧ readNumberLine (buf ++ [cr]) pos = .incomplete := by
  have hpos : pos ≤ buf.length := by
    have := h.1
    rw [List.length_drop] at this
    omega
  rw [readNumberLine_eq, readNumberLine_eq, findLineLoop_long h, List.drop_append_of_le_length hpos,
    findLineLoop_skip h.2 (by rw [h.1]), h.1]
  exact ⟨rfl, rfl⟩

theorem readNumberLine_ok_append {buf : Bytes} {pos : ℕ} {r : Int × ℕ} (h : readNumberLine buf pos = .ok r)
    (x : Bytes) : readNumberLine (buf ++ x) pos = .ok r := by
  obtain ⟨line, rest, hl, hbuf, hnext⟩ :=
    readNumberLine_ok_iff.mp (show readNumberLine buf pos = .ok (r.1, r.2) from h)
  have hpos : pos ≤ buf.length := by
    by_contra hlt
    rw [List.drop_of_length_le (by omega)] at hbuf
    obtain ⟨text, -, rfl⟩ := hl
    simp at hbuf
  refine readNumberLine_ok_iff.mpr ⟨line, rest ++ x, hl, ?_, hnext⟩
  rw [List.drop_append_of_le_length hpos, hbuf, List.append_assoc]

theorem readNumberLine_error_append {buf : Bytes} {pos : ℕ} (hpos : pos ≤ buf.length)
    (h : readNumberLine buf pos = .error) (x : Bytes) :
    readNumberLine (buf ++ x) pos = .error ∨ (x = [cr] ∧ LongLine (buf.drop pos)) := by
  rw [readNumberLine_eq] at h ⊢
  rw [List.drop_append_of_le_length hpos]
  rcases Parse.bind_eq_error.mp h with h | ⟨off, hoff, h⟩
  · rcases @findLineLoop_error_append 32 x _ 0 (by omega) h with h | ⟨hcr, hlen, x', rfl⟩
    · rw [h]; exact Or.inl rfl
    · -- the scan passes all 33 bytes and then looks at what follows the CR
      have hlong : (buf.drop pos).length = 33 := by omega
      rw [findLineLoop_skip hcr (by omega), hlong]
      match x' with
      | [] => exact Or.inr ⟨rfl, hlong, hcr⟩
      | c :: x'' =>
        left
        rw [findLineLoop.eq_def]
        simp only [if_pos]
        by_cases hc : c ≠ lf
        · rw [if_pos hc]; rfl
        · rw [if_neg hc, Parse.ok_bind, List.take_append_of_le_length (by omega),
            List.take_of_length_le (by omega)]
          rw [parseNumber_long (by omega)]
  · left
    obtain ⟨text, rest, hbuf, hcr, rfl⟩ := findLineLoop_ok hoff
    rw [hbuf, Nat.zero_add, List.take_left] at h
    have hlen : text.length ≤ 33 := by
      by_contra hgt
      have hskip := @findLineLoop_skip 32 ((text.drop 33) ++ cr :: lf :: rest) (text.take 33) 0
        (fun hm => hcr (List.mem_of_mem_take hm)) (by rw [List.length_take]; omega)
      rw [← List.append_assoc, List.take_append_drop, ← hbuf, hoff, List.length_take,
        show 0 + min 33 text.length = 33 by omega, List.drop_eq_getElem_cons (by omega), List.cons_append,
        findLineLoop.eq_def] at hskip
      simp only [if_neg fun hc : text[33] = cr => hcr (hc ▸ List.getElem_mem _),
        if_pos (show 33 > 32 by omega)]
        at hskip
      cases hskip
    have hline := @findLineLoop_line 32 (rest ++ x) text 0 hcr (by omega)
    rw [hbuf, List.append_assoc, List.cons_append, List.cons_append, hline, Parse.ok_bind, Nat.zero_add,
      List.take_left]
    exact h

theorem parseBulk_error_append {buf : Bytes} {pos : ℕ} (hpos : pos ≤ buf.length)
    (h : parseBulk buf pos = .error)
    (x : Bytes) : parseBulk (buf ++ x) pos = .error ∨ (x = [cr] ∧ LongLine (buf.drop pos)) := by
  unfold parseBulk at h ⊢
  rcases Parse.bind_eq_error.mp h with h | ⟨⟨blen, p⟩, hline, h⟩
  · rcases readNumberLine_error_append hpos h x with h | h
    · rw [h]; exact Or.inl rfl
    · exact Or.inr h
  · left
    rw [readNumberLine_ok_append hline, Parse.ok_bind]
    simp only at h ⊢
    by_cases h1 : blen = -1
    · rw [if_pos h1] at h; cases h
    rw [if_neg h1] at h ⊢
    by_cases h2 : blen < 0 ∨ (respMaxBulkLen : Int) < blen
    · rw [if_pos h2]
    rw [if_neg h2] at h ⊢
    by_cases h3 : buf.length - p < blen.toNat + 2
    · rw [if_pos h3] at h; cases h
    rw [if_neg h3] at h
    rw [if_neg (by rw [List.length_append]; omega), List.getElem?_append_left (by omega),
      List.getElem?_append_left (by omega)]
    by_cases h4 : buf[p + blen.toNat]? ≠ some cr ∨ buf[p + blen.toNat + 1]? ≠ some lf
    · rw [if_pos h4]
    · rw [if_neg h4] at h; cases h

theorem parseValue_bulk_error_append {buf : Bytes} {room pos : ℕ}
    (h : parseValue buf true (room + 1) pos = .error)
    (x : Bytes) : parseValue (buf ++ x) true (room + 1) pos = .error ∨
      (x = [cr] ∧ ∃ line, buf.drop pos = 36 :: line ∧ LongLine line) := by
  unfold parseValue at h ⊢
  cases htype : buf[pos]? with
  | none => rw [htype] at h; cases h
  | some type =>
    obtain ⟨hp, ht⟩ := List.getElem?_eq_some_iff.mp htype
    rw [htype] at h
    rw [List.getElem?_append_left hp, htype]
    simp only [true_and] at h ⊢
    by_cases h36 : type = 36
    · rw [if_neg (not_not_intro h36), if_pos h36] at h ⊢
      rcases parseBulk_error_append (by omega) h x with h | ⟨hx, hl⟩
      · exact Or.inl h
      · exact Or.inr ⟨hx, buf.drop (pos + 1), by rw [List.drop_eq_getElem_cons hp, ht, h36], hl⟩
    · rw [if_pos h36]
      exact Or.inl rfl

theorem BulkBytes.ne_nil {v : RespValue} {bs : Bytes} (h : BulkBytes v bs) : bs ≠ [] := by
  cases h <;> exact List.cons_ne_nil _ _

theorem parseElements_error_append {buf : Bytes} {room : ℕ} (x : Bytes) {count pos : ℕ}
    (h : parseElements (parseValue buf true (room + 1)) count pos = .error) :
    parseElements (parseValue (buf ++ x) true (room + 1)) count pos = .error ∨
      (x = [cr] ∧ ∃ vs bs line, vs.length < count ∧ BulksBytes vs bs ∧ buf.drop pos = bs ++ (36 :: line) ∧
        LongLine line) := by
  have hc := parseValue_reads_bulk buf room
  rcases hc.error_of (S := fun tail => x = [cr] ∧ ∃ line, tail = 36 :: line ∧ LongLine line)
    (fun h => hc.append BulkBytes.ne_nil (parseValue_reads_bulk (buf ++ x) room) h)
    (fun h => parseValue_bulk_error_append h x) h with h | ⟨vs, bs, _, hlt, hvs, hbuf, hx, line, rfl, hl⟩
  · exact Or.inl h
  · exact Or.inr ⟨hx, vs, bs, line, hlt, bulksBytes_iff.mpr hvs, hbuf, hl⟩

theorem parseInline_error_append {buf : Bytes} (h : parseInline buf = .error) (x : Bytes) :
    parseInline (buf ++ x) = .error := by
  unfold parseInline at h ⊢
  by_cases hmem : lf ∈ buf
  · rw [if_neg (not_not_intro hmem)] at h
    simp only at h
    rw [if_neg (not_not_intro (List.mem_append_left x hmem)), List.idxOf_append_of_mem hmem]
    simp only
    split at h
    · rename_i hmax; rw [if_pos hmax]
    · cases h
  · rw [if_pos hmem] at h
    split at h
    swap
    · cases h
    rename_i hmax
    by_cases hx : lf ∈ buf ++ x
    · rw [if_neg (not_not_intro hx)]
      simp only
      rw [List.idxOf_append_of_notMem hmem, if_pos (by omega)]
    · rw [if_pos hx, if_pos (by rw [List.length_append]; omega)]

theorem respParseCommand_error_append {buf : Bytes} (h : respParseCommand buf = .error) (x : Bytes) :
    respParseCommand (buf ++ x) = .error ∨ (x = [cr] ∧ LongHeader buf) := by
  unfold respParseCommand at h ⊢
  by_cases h0 : buf.length = 0
  · rw [if_pos h0] at h; cases h
  rw [if_neg h0] at h
  rw [if_neg (by rw [List.length_append]; omega), List.getElem?_append_left (by omega)]
  by_cases hstar : buf[0]? ≠ some 42
  · rw [if_pos hstar] at h ⊢
    exact Or.inl (parseInline_error_append h x)
  rw [if_neg hstar] at h ⊢
  rw [not_not] at hstar
  obtain ⟨hp, ht⟩ := List.getElem?_eq_some_iff.mp hstar
  have hcons : buf = 42 :: buf.drop 1 := by
    conv_lhs => rw [← List.drop_zero (l := buf), List.drop_eq_getElem_cons hp, ht]
  rcases Parse.bind_eq_error.mp h with h | ⟨⟨n, p⟩, hline, h⟩
  · rcases readNumberLine_error_append (by omega) h x with h | ⟨hx, hl⟩
    · rw [h]; exact Or.inl rfl
    · exact Or.inr ⟨hx, [42], buf.drop 1, .array, hl, hcons⟩
  · obtain ⟨line, rest, hl, hbuf, rfl⟩ := readNumberLine_ok_iff.mp hline
    rw [readNumberLine_ok_append hline, Parse.ok_bind]
    simp only at h ⊢
    by_cases hn : n < 0
    · rw [if_pos hn]; exact Or.inl rfl
    rw [if_neg hn] at h ⊢
    unfold parseArray at h ⊢
    rw [hline, Parse.ok_bind] at h
    rw [readNumberLine_ok_append hline, Parse.ok_bind]
    simp only at h ⊢
    by_cases h1 : n = -1
    · omega
    rw [if_neg h1] at h ⊢
    by_cases h2 : n < 0 ∨ (respMaxArrayLen : Int) < n
    · rw [if_pos h2]; exact Or.inl rfl
    rw [if_neg h2] at h ⊢
    rcases Parse.bind_eq_error.mp h with h | ⟨r, -, h⟩
    · rw [show respMaxDepth = 15 + 1 from rfl] at h ⊢
      rcases parseElements_error_append x h with h | ⟨hx, vs, bs, tail, hlt, hbs, hbuf', hlong⟩
      · rw [h]; exact Or.inl rfl
      · rw [← List.drop_drop, hbuf, List.drop_left] at hbuf'
        refine Or.inr ⟨hx, 42 :: (line ++ (bs ++ [36])), tail,
          .bulk (n := n.toNat) ?_ (by omega) hbs hlt, hlong, ?_⟩
        · rw [show ((n.toNat : ℕ) : Int) = n by omega]; exact hl
        · rw [hcons, hbuf, hbuf']; simp
    · cases h

theorem respParseCommand_of_header {n : ℕ} {header rest : Bytes} (hl : NumberLine n header)
    (hn : n ≤ respMaxArrayLen) :
    respParseCommand (42 :: (header ++ rest)) =
      (parseElements (parseValue (42 :: (header ++ rest)) true respMaxDepth) n
        (1 + header.length) >>= fun r =>
        .ok ({ type := .array, elements := r.1 }, r.2)) := by
  have hread : readNumberLine (42 :: (header ++ rest)) 1 = .ok ((n : Int), 1 + header.length) :=
    readNumberLine_ok_iff.mpr ⟨header, rest, hl, rfl, rfl⟩
  unfold respParseCommand
  rw [if_neg (by simp), if_neg (by simp), hread, Parse.ok_bind]
  simp only
  rw [if_neg (by omega), parseArray, hread, Parse.ok_bind]
  simp only
  rw [if_neg (by omega), if_neg (by omega), Int.toNat_natCast]
  rfl

/-- On a header of exactly 33 bytes the answer is `error`, and with the next CR it is `incomplete`. -/
theorem LongHeader.answers {buf : Bytes} (h : LongHeader buf) :
    respParseCommand buf = .error ∧ respParseCommand (buf ++ [cr]) = .incomplete := by
  obtain ⟨head, line, hhead, hline, rfl⟩ := h
  cases hhead with
  | array =>
    obtain ⟨h1, h2⟩ := @readNumberLine_long ([42] ++ line) 1 (by simpa using hline)
    unfold respParseCommand
    refine ⟨?_, ?_⟩
    · rw [if_neg (by simp), if_neg (by simp), h1]; rfl
    · rw [if_neg (by simp), if_neg (by simp), h2]; rfl
  | @bulk n header bs vs hl hn hvs hlt =>
    -- the header under way is that of element `vs.length`
    have hchild : ∀ tail, parseBulk (42 :: (header ++ (bs ++ 36 :: tail)))
      (1 + header.length + bs.length + 1) =
        parseValue (42 :: (header ++ (bs ++ 36 :: tail))) true (15 + 1) (1 + header.length + bs.length) := by
      intro tail
      have hget : (42 :: (header ++ (bs ++ 36 :: tail)))[1 + header.length + bs.length]? = some 36 := by
        rw [show 1 + header.length + bs.length = (header.length + bs.length) + 1 by omega,
          List.getElem?_cons_succ,
          List.getElem?_append_right (by omega), List.getElem?_append_right (by omega)]
        simp
      rw [parseValue, hget]
      simp
    have hdrop : ∀ tail, (42 :: (header ++ (bs ++ 36 :: tail))).drop
        (1 + header.length + bs.length + 1) = tail := by
      intro tail
      rw [show 1 + header.length + bs.length + 1 = (header.length + (bs.length + 1)) + 1 by omega,
        List.drop_succ_cons, ← List.drop_drop, List.drop_left, ← List.drop_drop, List.drop_left]
      rfl
    have hlong : LongLine ((42 :: (header ++ (bs ++ 36 :: line))).drop
        (1 + header.length + bs.length + 1)) := by
      rw [hdrop]; exact hline
    obtain ⟨h1, h2⟩ := readNumberLine_long hlong
    have happ : 42 :: (header ++ (bs ++ 36 :: line)) ++ [cr] = 42 ::
        (header ++ (bs ++ 36 :: (line ++ [cr]))) := by
      simp
    rw [happ] at h2
    have hb1 : parseValue (42 :: (header ++ (bs ++ 36 :: line))) true (15 + 1)
      (1 + header.length + bs.length) =
        .error := by rw [← hchild, parseBulk, h1]; rfl
    have hb2 : parseValue (42 :: (header ++ (bs ++ 36 :: (line ++ [cr])))) true (15 + 1)
        (1 + header.length + bs.length) = .incomplete := by rw [← hchild, parseBulk, h2]; rfl
    have hskip : ∀ tail, (42 :: (header ++ (bs ++ 36 :: tail))).drop (1 + header.length) = bs ++
        36 :: tail := by
      intro tail
      rw [Nat.add_comm, List.drop_succ_cons, List.drop_left]
    rw [show 42 :: (header ++ (bs ++ [36])) ++ line = 42 :: (header ++ (bs ++ 36 :: line)) by simp, happ,
      respParseCommand_of_header hl hn, respParseCommand_of_header hl hn, show respMaxDepth = 15 + 1 from rfl,
      ((parseValue_reads_bulk _ 15).stop (bulksBytes_iff.mp hvs) hlt (hskip line)).1 hb1,
      ((parseValue_reads_bulk _ 15).stop (bulksBytes_iff.mp hvs) hlt (hskip _)).2 hb2]
    exact ⟨rfl, rfl⟩

/-- An `error` is final, unless the buffer stops in a header of exactly 33 bytes and only a CR follows. -/
theorem respParseCommand_error_iff {buf : Bytes} (h : respParseCommand buf = .error) (x : Bytes) :
    respParseCommand (buf ++ x) = .error ↔ ¬ (LongHeader buf ∧ x = [cr]) := by
  constructor
  · rintro he ⟨hl, rfl⟩
    rw [hl.answers.2] at he
    cases he
  · intro hno
    rcases respParseCommand_error_append h x with he | ⟨hx, hl⟩
    · exact he
    · exact absurd ⟨hl, hx⟩ hno

theorem respParseCommand_error_incomplete_iff {buf x : Bytes} :
    (respParseCommand buf = .error ∧ respParseCommand (buf ++ x) = .incomplete) ↔ LongHeader buf ∧
      x = [cr] := by
  constructor
  · rintro ⟨he, hi⟩
    rcases respParseCommand_error_append he x with h | ⟨hx, hl⟩
    · rw [h] at hi; cases hi
    · exact ⟨hl, hx⟩
  · rintro ⟨hl, rfl⟩
    exact hl.answers

theorem RequestBytes.ne_nil {v : RespValue} {bs : Bytes} (h : RequestBytes v bs) : 0 < bs.length := by
  cases h <;> simp

theorem respParseCommand_okStable : Parse.OkStable respParseCommand := by
  intro b x a h
  obtain ⟨bs, rest, hv, rfl, hused⟩ :=
    respParseCommand_ok_iff.mp (show respParseCommand b = .ok (a.1, a.2) from h)
  exact respParseCommand_ok_iff.mpr ⟨bs, rest ++ x, hv, by rw [List.append_assoc], hused⟩

theorem respParseCommand_restartable : Restartable respParseCommand where
  progress h := by
    obtain ⟨bs, rest, hv, rfl, rfl⟩ := respParseCommand_ok_iff.mp h
    exact ⟨hv.ne_nil, by rw [List.length_append]; omega⟩
  ok_stable := respParseCommand_okStable
  error_not_ok {b x a} he hok := by
    rcases respParseCommand_error_append he x with h | ⟨rfl, hl⟩
    · rw [h] at hok; cases hok
    · rw [hl.answers.2] at hok; cases hok
  nil := rfl

end PulseDB
