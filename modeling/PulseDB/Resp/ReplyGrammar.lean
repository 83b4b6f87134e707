import PulseDB.Resp.Request

/-!
# The language of replies

What `resp_parse_reply` accepts, as a grammar, and where it takes an `error` answer back.

* `ReplyLayer R v bs` : `bs` spells the value `v`, with the elements of an array spelled as `R` says;
  `ReplyBytes room` is `room` such layers;
* `parseValue_reads`, `respParseReply_ok_iff` : the parser answers `ok` exactly on the buffers that start
  with a reply, and uses exactly its bytes;
* `OverLong room b` : `b` stops in a line that is one byte over its limit. The test after the scan of
  `find_line_end` refuses such a line, and the scan itself accepts it, since it looks for the CR first;
* `respParseReply_error_append` : every other `error` answer is final.
-/

namespace PulseDB
open Lib

/-! ## Replies -/

/-- The value of a simple string or an error. -/
def RespValue.text (type : RespType) (s : Bytes) : RespValue :=
  { type := type, str := some s, len := s.length }

def RespValue.ofInt (n : Int) : RespValue := { type := .integer, integer := n }

def RespValue.ofList (vs : List RespValue) : RespValue := { type := .array, elements := vs }

/-- The text of a value; the elements of an array are spelled by `R`. -/
inductive ReplyLayer (R : RespValue → Bytes → Prop) : RespValue → Bytes → Prop
  | bulk {v : RespValue} {bs : Bytes} (h : BulkBytes v bs) : ReplyLayer R v bs
  | nullArray {line : Bytes} (h : NumberLine (-1) line) : ReplyLayer R .null (42 :: line)
  | array {vs : List RespValue} {line bs : Bytes} (hl : NumberLine vs.length line)
      (hlen : vs.length ≤ respMaxArrayLen)
      (hvs : Spelled R vs bs) : ReplyLayer R (.ofList vs) (42 :: (line ++ bs))
  | simple {s : Bytes} (hcr : cr ∉ s) (hlen : s.length ≤ respMaxInlineLen + 1) :
      ReplyLayer R (.text .simpleString s) (43 :: (s ++ [cr, lf]))
  | error {s : Bytes} (hcr : cr ∉ s) (hlen : s.length ≤ respMaxInlineLen + 1) :
      ReplyLayer R (.text .error s) (45 :: (s ++ [cr, lf]))
  | integer {n : Int} {line : Bytes} (h : NumberLine n line) : ReplyLayer R (.ofInt n) (58 :: line)

/-- The text of a value with at most `room` levels. -/
def ReplyBytes : ℕ → RespValue → Bytes → Prop
  | 0 => fun _ _ => False
  | room + 1 => ReplyLayer (ReplyBytes room)

theorem ReplyLayer.ne_nil {R : RespValue → Bytes → Prop} {v : RespValue} {bs : Bytes}
    (h : ReplyLayer R v bs) :
    bs ≠ [] := by
  cases h with
  | bulk h => cases h <;> exact List.cons_ne_nil _ _
  | nullArray h | array hl hlen hvs | simple hcr hlen | error hcr hlen | integer h =>
    exact List.cons_ne_nil _ _

/-! ## What the parser accepts -/

theorem drop_of_getElem? {buf : Bytes} {pos : ℕ} {b : UInt8} (h : buf[pos]? = some b) :
    buf.drop pos = b :: buf.drop (pos + 1) := by
  obtain ⟨hp, rfl⟩ := List.getElem?_eq_some_iff.mp h
  exact List.drop_eq_getElem_cons hp

theorem getElem?_of_drop {buf rest : Bytes} {pos : ℕ} {b : UInt8} (h : buf.drop pos = b :: rest) :
    buf[pos]? = some b ∧ buf.drop (pos + 1) = rest := by
  have hget : (buf.drop pos)[0]? = some b := by rw [h]; rfl
  rw [List.getElem?_drop] at hget
  exact ⟨hget, @drop_skip buf [b] rest pos h⟩

theorem findLineLoop_le {maxLine : ℕ} : ∀ {bs : Bytes} {off n : ℕ}, off ≤ maxLine + 1 →
    findLineLoop maxLine off bs = .ok n → n ≤ maxLine + 1
  | [], off, n, hoff, h => by
    unfold findLineLoop at h
    split at h <;> cases h
  | b :: bs, off, n, hoff, h => by
    by_cases hb : b = cr
    · obtain ⟨line, rest, heq, hcr, rfl⟩ := findLineLoop_ok h
      cases line with
      | nil => exact hoff
      | cons c line =>
        cases heq
        exact absurd List.mem_cons_self (hb ▸ hcr)
    · by_cases hmax : off > maxLine
      · rw [findLineLoop.eq_def] at h
        simp only [if_neg hb, if_pos hmax] at h
        cases h
      · rw [findLineLoop_cons hb (by omega)] at h
        exact findLineLoop_le (by omega) h

theorem findLineEnd_ok_iff {buf : Bytes} {pos maxLine crPos : ℕ} :
    findLineEnd buf pos maxLine = .ok crPos ↔ ∃ line rest, buf.drop pos = line ++ cr :: lf :: rest ∧
      cr ∉ line ∧
      line.length ≤ maxLine + 1 ∧ crPos = pos + line.length := by
  unfold findLineEnd
  rw [Parse.bind_eq_ok]
  constructor
  · rintro ⟨off, hoff, h⟩
    cases h
    have hle := findLineLoop_le (Nat.zero_le _) hoff
    obtain ⟨line, rest, hbuf, hcr, rfl⟩ := findLineLoop_ok hoff
    exact ⟨line, rest, hbuf, hcr, by omega, by omega⟩
  · rintro ⟨line, rest, hbuf, hcr, hle, rfl⟩
    refine ⟨0 + line.length, ?_, by rw [Nat.zero_add]; rfl⟩
    rw [hbuf]
    exact findLineLoop_line hcr (by omega)

theorem parseText_ok_iff {buf : Bytes} {pos next : ℕ} {type : RespType} {v : RespValue} :
    (do
      let crPos ← findLineEnd buf pos respMaxInlineLen
      let s := (buf.drop pos).take (crPos - pos)
      return ({ type := type, str := some s, len := crPos - pos }, crPos + 2) : Parse (RespValue × ℕ)) =
        .ok (v, next) ↔
      ∃ s rest, v = .text type s ∧ cr ∉ s ∧ s.length ≤ respMaxInlineLen + 1 ∧
        buf.drop pos = s ++ [cr, lf] ++ rest ∧ next = pos + (s.length + 2) := by
  rw [Parse.bind_eq_ok]
  constructor
  · rintro ⟨crPos, hcrPos, h⟩
    obtain ⟨line, rest, hbuf, hcr, hle, rfl⟩ := findLineEnd_ok_iff.mp hcrPos
    rw [Nat.add_sub_cancel_left, hbuf, List.take_left] at h
    cases h
    exact ⟨line, rest, rfl, hcr, hle, by rw [hbuf, List.append_assoc]; rfl, rfl⟩
  · rintro ⟨s, rest, rfl, hcr, hle, hbuf, rfl⟩
    rw [List.append_assoc] at hbuf
    refine ⟨pos + s.length, findLineEnd_ok_iff.mpr ⟨s, rest, hbuf, hcr, hle, rfl⟩, ?_⟩
    rw [Nat.add_sub_cancel_left, hbuf, List.take_left]
    rfl

theorem parseArray_ok_iff {R : RespValue → Bytes → Prop} {buf : Bytes} {c : ℕ → Parse (RespValue × ℕ)}
    (hc : Reads R buf c) {pos next : ℕ} {v : RespValue} :
    parseArray buf c pos = .ok (v, next) ↔ ∃ bs rest,
      ((v = .null ∧ NumberLine (-1) bs) ∨ ∃ vs line body, v = .ofList vs ∧ NumberLine vs.length line ∧
        vs.length ≤ respMaxArrayLen ∧ Spelled R vs body ∧ bs = line ++ body) ∧
      buf.drop pos = bs ++ rest ∧ next = pos + bs.length := by
  unfold parseArray
  rw [Parse.bind_eq_ok]
  constructor
  · rintro ⟨⟨count, p⟩, hline, h⟩
    obtain ⟨line, rest, hl, hbuf, rfl⟩ := readNumberLine_ok_iff.mp hline
    simp only at h
    split_ifs at h with h1 h2
    · cases h
      exact ⟨line, rest, Or.inl ⟨rfl, h1 ▸ hl⟩, hbuf, rfl⟩
    · obtain ⟨⟨vs, q⟩, hvs, h⟩ := Parse.bind_eq_ok.mp h
      cases h
      obtain ⟨body, rest', ⟨hlen, hbody⟩, hbuf', rfl⟩ := (hc.elements _ _ _ _).mp hvs
      have hcount : (vs.length : Int) = count := by omega
      refine ⟨line ++ body, rest', Or.inr ⟨vs, line, body, rfl, hcount ▸ hl, by omega, hbody, rfl⟩, ?_, ?_⟩
      · rw [drop_skip hbuf] at hbuf'
        rw [hbuf, hbuf', List.append_assoc]
      · rw [List.length_append]
        omega
  · rintro ⟨bs, rest, ⟨rfl, hl⟩ | ⟨vs, line, body, rfl, hl, hmax, hbody, rfl⟩, hbuf, rfl⟩
    · refine ⟨(-1, pos + bs.length), readNumberLine_ok_iff.mpr ⟨bs, rest, hl, hbuf, rfl⟩, ?_⟩
      simp only [if_pos]
      rfl
    · rw [List.append_assoc] at hbuf
      refine ⟨(vs.length, pos + line.length), readNumberLine_ok_iff.mpr ⟨line, _, hl, hbuf, rfl⟩, ?_⟩
      simp only [Int.toNat_natCast]
      rw [if_neg (by omega), if_neg (by omega), Parse.bind_eq_ok]
      refine ⟨(vs, pos + line.length + body.length),
        (hc.elements _ _ _ _).mpr ⟨body, rest, ⟨rfl, hbody⟩, drop_skip hbuf, rfl⟩, ?_⟩
      rw [List.length_append, ← Nat.add_assoc]
      rfl

theorem parseValue_reads_layer {R : RespValue → Bytes → Prop} {buf : Bytes} {room : ℕ}
    (hc : Reads R buf (parseValue buf false room)) :
    Reads (ReplyLayer R) buf (parseValue buf false (room + 1)) := by
  intro pos next v
  unfold parseValue
  constructor
  · intro h
    split at h
    · cases h
    · rename_i type htype
      have hdrop := drop_of_getElem? htype
      simp only [Bool.false_eq_true, false_and, if_false] at h
      split_ifs at h with h36 h42 htext hsimple h58
      · obtain ⟨bs, rest, hv, hbuf, rfl⟩ := parseBulk_ok_iff.mp h
        exact ⟨36 :: bs, rest, .bulk hv, by rw [hdrop, hbuf, h36]; rfl, by rw [List.length_cons]; omega⟩
      · obtain ⟨bs, rest, hv, hbuf, rfl⟩ := (parseArray_ok_iff hc).mp h
        refine ⟨42 :: bs, rest, ?_, by rw [hdrop, hbuf, h42]; rfl, by rw [List.length_cons]; omega⟩
        rcases hv with ⟨rfl, hl⟩ | ⟨vs, line, body, rfl, hl, hmax, hbody, rfl⟩
        · exact .nullArray hl
        · exact .array hl hmax hbody
      · obtain ⟨s, rest, rfl, hcr, hle, hbuf, rfl⟩ := parseText_ok_iff.mp h
        exact ⟨43 :: (s ++ [cr, lf]), rest, .simple hcr hle, by rw [hdrop, hbuf, hsimple]; rfl,
          by simp only [List.length_cons, List.length_append, List.length_nil]; omega⟩
      · obtain ⟨s, rest, rfl, hcr, hle, hbuf, rfl⟩ := parseText_ok_iff.mp h
        exact ⟨45 :: (s ++ [cr, lf]), rest, .error hcr hle,
          by rw [hdrop, hbuf, htext.resolve_left hsimple]; rfl,
          by simp only [List.length_cons, List.length_append, List.length_nil]; omega⟩
      · obtain ⟨⟨n, p⟩, hline, h⟩ := Parse.bind_eq_ok.mp h
        cases h
        obtain ⟨line, rest, hl, hbuf, rfl⟩ := readNumberLine_ok_iff.mp hline
        exact ⟨58 :: line, rest, .integer hl, by rw [hdrop, hbuf, h58]; rfl, by rw [List.length_cons]; omega⟩
  · rintro ⟨bs, rest, hv, hbuf, rfl⟩
    cases hv with
    | @bulk v bs h =>
      obtain ⟨tail, rfl⟩ : ∃ tail, bs = 36 :: tail := by cases h <;> exact ⟨_, rfl⟩
      obtain ⟨hget, htail⟩ := getElem?_of_drop (show buf.drop pos = 36 :: (tail ++ rest) from hbuf)
      rw [hget]
      simp only [Bool.false_eq_true, false_and, if_false, if_true]
      exact parseBulk_ok_iff.mpr ⟨tail, rest, h, htail, by rw [List.length_cons]; omega⟩
    | @nullArray line hl =>
      obtain ⟨hget, htail⟩ := getElem?_of_drop (show buf.drop pos = 42 :: (line ++ rest) from hbuf)
      rw [hget]
      exact (parseArray_ok_iff hc).mpr ⟨line, rest, Or.inl ⟨rfl, hl⟩, htail, by rw [List.length_cons]; omega⟩
    | @array vs line body hl hmax hbody =>
      obtain ⟨hget, htail⟩ := getElem?_of_drop (show buf.drop pos = 42 :: (line ++ body ++ rest) from hbuf)
      rw [hget]
      exact (parseArray_ok_iff hc).mpr ⟨line ++ body, rest, Or.inr ⟨vs, line, body, rfl, hl, hmax, hbody,
        rfl⟩, htail, by rw [List.length_cons]; omega⟩
    | @simple s hcr hle =>
      obtain ⟨hget, htail⟩ := getElem?_of_drop (show buf.drop pos = 43 :: (s ++ [cr, lf] ++ rest) from hbuf)
      rw [hget]
      exact parseText_ok_iff.mpr ⟨s, rest, rfl, hcr, hle, htail,
        by simp only [List.length_cons, List.length_append, List.length_nil]; omega⟩
    | @error s hcr hle =>
      obtain ⟨hget, htail⟩ := getElem?_of_drop (show buf.drop pos = 45 :: (s ++ [cr, lf] ++ rest) from hbuf)
      rw [hget]
      exact parseText_ok_iff.mpr ⟨s, rest, rfl, hcr, hle, htail,
        by simp only [List.length_cons, List.length_append, List.length_nil]; omega⟩
    | @integer n line hl =>
      obtain ⟨hget, htail⟩ := getElem?_of_drop (show buf.drop pos = 58 :: (line ++ rest) from hbuf)
      rw [hget]
      refine Parse.bind_eq_ok.mpr ⟨(n, pos + 1 + line.length), readNumberLine_ok_iff.mpr ⟨line, rest, hl,
        htail, rfl⟩, ?_⟩
      rw [List.length_cons, show pos + 1 + line.length = pos + (line.length + 1) by omega]
      rfl

theorem parseValue_reads (buf : Bytes) : ∀ room, Reads (ReplyBytes room) buf (parseValue buf false room)
  | 0 => by
    intro pos next v
    constructor
    · intro h
      cases h
    · rintro ⟨bs, rest, h, -, -⟩
      exact h.elim
  | room + 1 => parseValue_reads_layer (parseValue_reads buf room)

/-- The parser answers `ok` exactly on the buffers that start with a reply, and uses exactly its bytes. -/
theorem respParseReply_ok_iff {buf : Bytes} {v : RespValue} {used : ℕ} :
    respParseReply buf = .ok (v, used) ↔
      ∃ bs rest, ReplyBytes (respMaxDepth + 1) v bs ∧ buf = bs ++ rest ∧ used = bs.length := by
  have h := parseValue_reads buf (respMaxDepth + 1) 0 used v
  rw [List.drop_zero] at h
  simp only [Nat.zero_add] at h
  exact h

theorem respParseReply_okStable : Parse.OkStable respParseReply := by
  intro b x a h
  obtain ⟨bs, rest, hv, rfl, hused⟩ :=
    respParseReply_ok_iff.mp (show respParseReply b = .ok (a.1, a.2) from h)
  exact respParseReply_ok_iff.mpr ⟨bs, rest ++ x, hv, by rw [List.append_assoc], hused⟩

/-! ## Where an error is taken back -/

/-- A line that is one byte over its limit and has not ended. -/
def OverLine (limit : ℕ) (bs : Bytes) : Prop := bs.length = limit + 1 ∧ cr ∉ bs

/-- The start of a reply that ends where a line with this limit is due. -/
inductive LineDue : ℕ → ℕ → Bytes → Prop
  | header {room : ℕ} {b : UInt8} (hb : b = 36 ∨ b = 42 ∨ b = 58) : LineDue (room + 1) 32 [b]
  | text {room : ℕ} {b : UInt8} (hb : b = 43 ∨ b = 45) : LineDue (room + 1) respMaxInlineLen [b]
  | element {room limit n : ℕ} {line bs tail : Bytes} {vs : List RespValue} (hl : NumberLine n line)
      (hn : n ≤ respMaxArrayLen) (hvs : Spelled (ReplyBytes room) vs bs) (hlt : vs.length < n)
      (h : LineDue room limit tail) : LineDue (room + 1) limit (42 :: (line ++ (bs ++ tail)))

/-- The buffer stops in a line that is one byte over its limit. -/
def OverLong (room : ℕ) (buf : Bytes) : Prop :=
  ∃ limit head line, LineDue room limit head ∧ OverLine limit line ∧ buf = head ++ line

theorem ReplyBytes.ne_nil : ∀ {room : ℕ} {v : RespValue} {bs : Bytes}, ReplyBytes room v bs → bs ≠ []
  | 0, _, _, h => h.elim
  | _ + 1, _, _, h => ReplyLayer.ne_nil h

theorem findLineEnd_error_append {α : Type} {buf : Bytes} {pos maxLine : ℕ} (hpos : pos ≤ buf.length)
    (f g : ℕ → α) (h : (do return f (← findLineEnd buf pos maxLine) : Parse α) = .error) (x : Bytes) :
    (do return g (← findLineEnd (buf ++ x) pos maxLine) : Parse α) = .error ∨
      ((∃ x', x = cr :: x') ∧ OverLine maxLine (buf.drop pos)) := by
  unfold findLineEnd at h ⊢
  rw [List.drop_append_of_le_length hpos]
  rcases Parse.bind_eq_error.mp h with h | ⟨crPos, -, h⟩
  · rcases Parse.bind_eq_error.mp h with h | ⟨off, -, h⟩
    · rcases @findLineLoop_error_append maxLine x _ 0 (Nat.zero_le _) h with h | ⟨hcr, hlen, hx⟩
      · rw [h]
        exact Or.inl rfl
      · exact Or.inr ⟨hx, by omega, hcr⟩
    · cases h
  · cases h

theorem parseValue_error_append (buf x : Bytes) : ∀ {room pos : ℕ}, parseValue buf false room pos = .error →
    parseValue (buf ++ x) false room pos = .error ∨ ((∃ x', x = cr :: x') ∧ OverLong room (buf.drop pos))
  | 0, _, _ => Or.inl rfl
  | room + 1, pos, h => by
    have hc := parseValue_reads buf room
    have hok : ∀ {pos r}, parseValue buf false room pos = .ok r →
        parseValue (buf ++ x) false room pos = .ok r :=
      fun h => hc.append ReplyBytes.ne_nil (parseValue_reads (buf ++ x) room) h
    unfold parseValue at h ⊢
    cases htype : buf[pos]? with
    | none => rw [htype] at h; cases h
    | some type =>
      obtain ⟨hp, -⟩ := List.getElem?_eq_some_iff.mp htype
      have hdrop := drop_of_getElem? htype
      rw [htype] at h
      rw [List.getElem?_append_left hp, htype]
      simp only [Bool.false_eq_true, false_and, if_false] at h ⊢
      split_ifs at h ⊢ with h36 h42 htext hsimple h58
      · rcases parseBulk_error_append (by omega) h x with h | ⟨hx, hl⟩
        · exact Or.inl h
        · exact Or.inr ⟨⟨[], hx⟩, 32, [type], _, .header (Or.inl h36), hl, hdrop⟩
      · -- an array: the error is in the header or in an element
        unfold parseArray at h ⊢
        rcases Parse.bind_eq_error.mp h with h | ⟨⟨n, p⟩, hline, h⟩
        · rcases readNumberLine_error_append (by omega) h x with h | ⟨hx, hl⟩
          · rw [h]
            exact Or.inl rfl
          · exact Or.inr ⟨⟨[], hx⟩, 32, [type], _, .header (Or.inr (Or.inl h42)), hl, hdrop⟩
        · obtain ⟨line, rest, hl, hbuf, rfl⟩ := readNumberLine_ok_iff.mp hline
          rw [readNumberLine_ok_append hline, Parse.ok_bind]
          simp only at h ⊢
          split_ifs at h ⊢ with h1 h2
          · exact Or.inl rfl
          · rcases Parse.bind_eq_error.mp h with h | ⟨r, -, h⟩
            · rcases hc.error_of (S := fun tail => (∃ x', x = cr :: x') ∧ OverLong room tail) hok
                (fun h => parseValue_error_append buf x h) h with h | ⟨vs, bs, tail, hlt, hbs,
                  hbuf', hx, hover⟩
              · rw [h]
                exact Or.inl rfl
              · obtain ⟨limit, head, long, hdue, hover, rfl⟩ := hover
                rw [drop_skip hbuf] at hbuf'
                refine Or.inr ⟨hx, limit, 42 :: (line ++ (bs ++ head)), long,
                  .element (n := n.toNat) ?_ (by omega) hbs hlt hdue, hover, ?_⟩
                · rw [show ((n.toNat : ℕ) : Int) = n by omega]
                  exact hl
                · rw [hdrop, hbuf, hbuf', h42]
                  simp
            · cases h
      · rcases findLineEnd_error_append (by omega) _ _ h x with h | ⟨hx, hl⟩
        · exact Or.inl h
        · exact Or.inr ⟨hx, respMaxInlineLen, [type], _, .text htext, hl, hdrop⟩
      · rcases findLineEnd_error_append (by omega) _ _ h x with h | ⟨hx, hl⟩
        · exact Or.inl h
        · exact Or.inr ⟨hx, respMaxInlineLen, [type], _, .text htext, hl, hdrop⟩
      · rcases Parse.bind_eq_error.mp h with h | ⟨r, -, h⟩
        · rcases readNumberLine_error_append (by omega) h x with h | ⟨hx, hl⟩
          · rw [h]
            exact Or.inl rfl
          · exact Or.inr ⟨⟨[], hx⟩, 32, [type], _, .header (Or.inr (Or.inr h58)), hl, hdrop⟩
        · cases h
      · exact Or.inl rfl

/-- In an array with its header read, what stops an element stops the array. -/
theorem parseValue_array_stop {buf line bs rest : Bytes} {room n pos : ℕ} {vs : List RespValue}
    (hl : NumberLine n line)
    (hn : n ≤ respMaxArrayLen) (hvs : Spelled (ReplyBytes room) vs bs) (hlt : vs.length < n)
    (hbuf : buf.drop pos = 42 :: (line ++ (bs ++ rest))) :
    (parseValue buf false room (pos + 1 + line.length + bs.length) = .error →
        parseValue buf false (room + 1) pos = .error) ∧
      (parseValue buf false room (pos + 1 + line.length + bs.length) = .incomplete →
        parseValue buf false (room + 1) pos = .incomplete) := by
  obtain ⟨hget, htail⟩ := getElem?_of_drop hbuf
  obtain ⟨h1, h2⟩ := (parseValue_reads buf room).stop hvs hlt (drop_skip htail)
  have hread : readNumberLine buf (pos + 1) = .ok ((n : Int), pos + 1 + line.length) :=
    readNumberLine_ok_iff.mpr ⟨line, _, hl, htail, rfl⟩
  have harray : parseValue buf false (room + 1) pos =
      (parseElements (parseValue buf false room) n (pos + 1 + line.length) >>= fun r =>
        .ok (.ofList r.1, r.2)) := by
    rw [parseValue, hget]
    simp only [Bool.false_eq_true, false_and, if_false, if_true, if_neg (show ¬ (42 : UInt8) = 36 by decide)]
    rw [parseArray, hread, Parse.ok_bind]
    simp only
    rw [if_neg (by omega), if_neg (by omega), Int.toNat_natCast]
    rfl
  rw [harray]
  exact ⟨fun h => by rw [h1 h]; rfl, fun h => by rw [h2 h]; rfl⟩

/-- The scan stops at a line that is too long, and not if a CR follows. -/
theorem OverLine.answers {maxLine : ℕ} {line : Bytes} (h : OverLine maxLine line) :
    findLineLoop maxLine 0 line = .error ∧ findLineLoop maxLine 0 (line ++ [cr]) = .incomplete := by
  have hskip := fun x => @findLineLoop_skip maxLine x line 0 h.2 (by rw [h.1]; omega)
  refine ⟨?_, ?_⟩
  · rw [← List.append_nil line, hskip, h.1, findLineLoop, if_pos (by omega)]
  · rw [hskip, findLineLoop, if_pos rfl]

/-- Where a reply stops in a line one byte over its limit the answer is `error`, and with the next CR
`incomplete`. -/
theorem LineDue.answers {room limit : ℕ} {head line : Bytes} (hdue : LineDue room limit head)
    (hline : OverLine limit line) : ∀ {buf : Bytes} {pos : ℕ}, buf.drop pos = head ++ line →
      parseValue buf false room pos = .error ∧ parseValue (buf ++ [cr]) false room pos = .incomplete := by
  induction hdue with
  | @header room b hb =>
    intro buf pos hbuf
    obtain ⟨hget, htail⟩ := getElem?_of_drop (show buf.drop pos = b :: line from hbuf)
    have hpos : pos < buf.length := (List.getElem?_eq_some_iff.mp hget).1
    have hget' : (buf ++ [cr])[pos]? = some b := by rw [List.getElem?_append_left hpos, hget]
    obtain ⟨h1, h2⟩ := @readNumberLine_long buf (pos + 1) (by rw [htail]; exact hline)
    rw [parseValue, parseValue, hget, hget']
    rcases hb with rfl | rfl | rfl
    · show parseBulk buf (pos + 1) = _ ∧ parseBulk (buf ++ [cr]) (pos + 1) = _
      rw [parseBulk, h1, parseBulk, h2]
      exact ⟨rfl, rfl⟩
    · show parseArray buf _ (pos + 1) = _ ∧ parseArray (buf ++ [cr]) _ (pos + 1) = _
      rw [parseArray, h1, parseArray, h2]
      exact ⟨rfl, rfl⟩
    · show (readNumberLine buf (pos + 1) >>= _) = _ ∧ (readNumberLine (buf ++ [cr]) (pos + 1) >>= _) = _
      rw [h1, h2]
      exact ⟨rfl, rfl⟩
  | @text room b hb =>
    intro buf pos hbuf
    obtain ⟨hget, htail⟩ := getElem?_of_drop (show buf.drop pos = b :: line from hbuf)
    have hpos : pos < buf.length := (List.getElem?_eq_some_iff.mp hget).1
    have hget' : (buf ++ [cr])[pos]? = some b := by rw [List.getElem?_append_left hpos, hget]
    obtain ⟨h1, h2⟩ := hline.answers
    have h3 : findLineEnd buf (pos + 1) respMaxInlineLen = .error := by
      rw [findLineEnd, htail, h1]
      rfl
    have h4 : findLineEnd (buf ++ [cr]) (pos + 1) respMaxInlineLen = .incomplete := by
      rw [findLineEnd, List.drop_append_of_le_length hpos, htail, h2]
      rfl
    rw [parseValue, parseValue, hget, hget']
    rcases hb with rfl | rfl
    all_goals
      show (findLineEnd buf (pos + 1) _ >>= _) = _ ∧ (findLineEnd (buf ++ [cr]) (pos + 1) _ >>= _) = _
      rw [h3, h4]
      exact ⟨rfl, rfl⟩
  | @element room limit n header bs tail vs hl hn hvs hlt hdue ih =>
    intro buf pos hbuf
    have hbuf₁ : buf.drop pos = 42 :: (header ++ (bs ++ (tail ++ line))) := by
      rw [hbuf]
      simp
    obtain ⟨hget, htail⟩ := getElem?_of_drop hbuf₁
    have hpos : pos ≤ buf.length := Nat.le_of_lt (List.getElem?_eq_some_iff.mp hget).1
    have hbuf₂ : (buf ++ [cr]).drop pos = 42 :: (header ++ (bs ++ (tail ++ line ++ [cr]))) := by
      rw [List.drop_append_of_le_length hpos, hbuf₁]
      simp
    obtain ⟨h1, h2⟩ := ih hline (drop_skip (drop_skip htail))
    exact ⟨(parseValue_array_stop hl hn hvs hlt hbuf₁).1 h1, (parseValue_array_stop hl hn hvs hlt hbuf₂).2 h2⟩

/-- An error is final, unless the buffer stops in a line one byte over its limit and a CR follows. -/
theorem respParseReply_error_append {buf : Bytes} (h : respParseReply buf = .error) (x : Bytes) :
    respParseReply (buf ++ x) = .error ∨ ((∃ x', x = cr :: x') ∧ OverLong (respMaxDepth + 1) buf) := by
  have := parseValue_error_append buf x h
  rwa [List.drop_zero] at this

theorem OverLong.answers {buf : Bytes} (h : OverLong (respMaxDepth + 1) buf) :
    respParseReply buf = .error ∧ respParseReply (buf ++ [cr]) = .incomplete := by
  obtain ⟨limit, head, line, hdue, hline, rfl⟩ := h
  exact hdue.answers hline (List.drop_zero ..)

theorem respParseReply_resumable : Resumable respParseReply where
  progress h := by
    obtain ⟨bs, rest, hv, rfl, rfl⟩ := respParseReply_ok_iff.mp h
    exact ⟨List.length_pos_iff.mpr hv.ne_nil, by rw [List.length_append]; omega⟩
  ok_stable := respParseReply_okStable
  nil := rfl

end PulseDB
