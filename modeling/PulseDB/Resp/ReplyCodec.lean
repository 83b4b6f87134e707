import PulseDB.Resp.Decimal
import PulseDB.Resp.Reply
import PulseDB.Resp.ReplyGrammar

/-!
# Replies are read back

`resp_parse_reply` undoes the encoders of `reply.c`.

* `Reply.value` : the value a client stores for a reply; both nulls become `RESP_NULL`;
* `Reply.Fits`, `Reply.depth` : the limits of the parser, and how deep the arrays are nested;
* `Reply.parsed` : a reply within the limits is read back, and exactly its bytes are used; `Reply.Within` :
  both limits together;
* `Reply.write` : a reply as a tree of calls of the encoders, and `replies_decode` : what the client reads of
  it;
* `Reply.enc_inj` : no encoding is the beginning of another, so that a reply of any size is determined by its
  bytes;
* `RequestBytes.words` : written as a reply, an array of words is a request.
-/

namespace PulseDB
open Lib

namespace Reply

mutual

/-- The value a client stores for a reply. -/
def value : Reply → RespValue
  | .simple line => .text .simpleString line
  | .error line => .text .error line
  | .integer val => .ofInt val
  | .bulk payload => .bulk payload
  | .nullBulk => .null
  | .nullArray => .null
  | .array elements => .ofList (values elements)

def values : List Reply → List RespValue
  | [] => []
  | v :: vs => value v :: values vs

end

mutual

/-- How many arrays enclose the innermost value. -/
def depth : Reply → ℕ
  | .array elements => depths elements
  | _ => 0

/-- The depth of an array with these elements. -/
def depths : List Reply → ℕ
  | [] => 0
  | v :: vs => max (depth v + 1) (depths vs)

end

mutual

/-- The value is within the limits of `resp_parse_reply`, depth aside. -/
def Fits : Reply → Prop
  | .simple line => Line line ∧ line.length ≤ respMaxInlineLen
  | .error line => Line line ∧ line.length ≤ respMaxInlineLen
  | .integer val => int64Min ≤ val ∧ val ≤ int64Max
  | .bulk payload => payload.length ≤ respMaxBulkLen
  | .nullBulk => True
  | .nullArray => True
  | .array elements => elements.length ≤ respMaxArrayLen ∧ AllFit elements

def AllFit : List Reply → Prop
  | [] => True
  | v :: vs => Fits v ∧ AllFit vs

end

theorem length_values : ∀ vs : List Reply, (values vs).length = vs.length
  | [] => rfl
  | v :: vs => by rw [values, List.length_cons, List.length_cons, length_values vs]

theorem bulkBytes_dec {s : Bytes} (h : s.length ≤ respMaxBulkLen) :
    BulkBytes (.bulk s) (Reply.bulk s).enc := by
  have hmax : (s.length : Int) ≤ int64Max := by
    unfold respMaxBulkLen at h
    unfold int64Max
    omega
  have hb := BulkBytes.bulk (numberLine_dec hmax) h
  rw [enc]
  exact hb

theorem nullLine : NumberLine (-1) (ascii "-1" ++ [cr, lf]) := ⟨ascii "-1", by decide, rfl⟩

mutual

theorem spelled : ∀ {v : Reply} {room : ℕ}, v.Fits → v.depth < room → ReplyBytes room v.value v.enc
  | v, 0, _, hd => absurd hd (Nat.not_lt_zero _)
  | .simple line, room + 1, h, _ => by
    rw [value, enc]
    exact .simple h.1.1 (Nat.le_succ_of_le h.2)
  | .error line, room + 1, h, _ => by
    rw [value, enc]
    exact .error h.1.1 (Nat.le_succ_of_le h.2)
  | .integer val, room + 1, h, _ => by
    rw [value, enc]
    exact .integer (numberLine_decInt h.1 h.2)
  | .bulk payload, room + 1, h, _ => by
    rw [value]
    exact .bulk (bulkBytes_dec h)
  | .nullBulk, room + 1, _, _ => by
    rw [value, enc]
    exact .bulk (.null nullLine)
  | .nullArray, room + 1, _, _ => by
    rw [value, enc]
    exact .nullArray nullLine
  | .array elements, room + 1, h, hd => by
    rw [Fits] at h
    rw [depth] at hd
    have hmax : (elements.length : Int) ≤ int64Max := by
      have := h.1
      unfold respMaxArrayLen at this
      unfold int64Max
      omega
    have hl := numberLine_dec hmax
    rw [← length_values] at hl
    have ha := ReplyLayer.array hl (by rw [length_values]; exact h.1)
      (spelled_all h.2 (by omega : depths elements ≤ room))
    rw [value, enc, length_values] at *
    exact ha

theorem spelled_all : ∀ {vs : List Reply} {room : ℕ}, AllFit vs → depths vs ≤ room →
    Spelled (ReplyBytes room) (values vs) (encs vs)
  | [], _, _, _ => by
    rw [values, encs]
    exact .nil
  | v :: vs, room, h, hd => by
    rw [depths, Nat.max_le] at hd
    rw [values, encs]
    exact .cons (spelled h.1 hd.1) (spelled_all h.2 hd.2)

end

/-- A value within the limits is read back, and exactly its bytes are used. -/
theorem parsed {v : Reply} (h : v.Fits) (hd : v.depth ≤ respMaxDepth) (x : Bytes) :
    respParseReply (v.enc ++ x) = .ok (v.value, v.enc.length) :=
  respParseReply_ok_iff.mpr ⟨v.enc, x, spelled h (Nat.lt_succ_of_le hd), rfl, rfl⟩

theorem allFit_iff : ∀ {vs : List Reply}, AllFit vs ↔ ∀ v ∈ vs, v.Fits
  | [] => ⟨fun _ _ hv => absurd hv List.not_mem_nil, fun _ => trivial⟩
  | v :: vs => by rw [AllFit, List.forall_mem_cons, allFit_iff]

theorem depths_le_iff {d : ℕ} : ∀ {vs : List Reply}, depths vs ≤ d + 1 ↔ ∀ v ∈ vs, v.depth ≤ d
  | [] => ⟨fun _ _ hv => absurd hv List.not_mem_nil, fun _ => Nat.zero_le _⟩
  | v :: vs => by rw [depths, Nat.max_le, List.forall_mem_cons, depths_le_iff, Nat.add_le_add_iff_right]

/-- The value is within the limits of `resp_parse_reply` and at most `d` arrays deep. -/
def Within (d : ℕ) (v : Reply) : Prop := v.Fits ∧ v.depth ≤ d

theorem Within.mono {d d' : ℕ} {v : Reply} (h : v.Within d) (hd : d ≤ d') : v.Within d' := ⟨h.1, h.2.trans hd⟩

theorem within_array {d : ℕ} {vs : List Reply} (hlen : vs.length ≤ respMaxArrayLen)
    (h : ∀ v ∈ vs, v.Within d) :
    (Reply.array vs).Within (d + 1) := by
  unfold Within
  rw [Fits, depth]
  exact ⟨⟨hlen, allFit_iff.mpr fun v hv => (h v hv).1⟩, depths_le_iff.mpr fun v hv => (h v hv).2⟩

theorem within_pair {d : ℕ} {v w : Reply} (hv : v.Within d) (hw : w.Within d) :
    (Reply.array [v, w]).Within (d + 1) := by
  have htwo : 2 ≤ respMaxArrayLen := by decide
  exact within_array htwo (List.forall_mem_cons.mpr ⟨hv, List.forall_mem_singleton.mpr hw⟩)

theorem within_error {msg : Bytes} (h : msg.length ≤ respMaxInlineLen) :
    (Reply.error (errorLine msg)).Within 0 := by
  refine ⟨⟨errorLine_line msg, ?_⟩, Nat.le_refl _⟩
  rw [errorLine, List.length_map]
  exact h

theorem Within.accepted {v : Reply} (h : v.Within respMaxDepth) :
    respParseReply v.enc = .ok (v.value, v.enc.length) := by
  have hparsed := parsed h.1 h.2 []
  rwa [List.append_nil] at hparsed

/-! ## The encoders -/

mutual

/-- A reply written by the encoders; an error is given by its message. -/
def write : Reply → Bytes
  | .simple msg => replySimple msg
  | .error msg => replyError msg
  | .integer val => replyInteger val
  | .bulk data => replyBulk data data.length
  | .nullBulk => replyNull
  | .nullArray => replyNullArray
  | .array elements => replyArray elements.length ++ writes elements

def writes : List Reply → Bytes
  | [] => []
  | v :: vs => write v ++ writes vs

end

mutual

/-- The reply that is on the wire: in an error message every CR and LF has become a space. -/
def sent : Reply → Reply
  | .error msg => .error (errorLine msg)
  | .array elements => .array (sents elements)
  | v => v

def sents : List Reply → List Reply
  | [] => []
  | v :: vs => sent v :: sents vs

end

mutual

/-- What the encoders may be given: as `Fits`, with any message in an error. -/
def Writable : Reply → Prop
  | .simple line => Line line ∧ line.length ≤ respMaxInlineLen
  | .error msg => msg.length ≤ respMaxInlineLen
  | .integer val => int64Min ≤ val ∧ val ≤ int64Max
  | .bulk payload => payload.length ≤ respMaxBulkLen
  | .nullBulk => True
  | .nullArray => True
  | .array elements => elements.length ≤ respMaxArrayLen ∧ AllWritable elements

def AllWritable : List Reply → Prop
  | [] => True
  | v :: vs => Writable v ∧ AllWritable vs

end

theorem length_sents : ∀ vs : List Reply, (sents vs).length = vs.length
  | [] => rfl
  | v :: vs => by rw [sents, List.length_cons, List.length_cons, length_sents vs]

mutual

theorem write_eq : ∀ v : Reply, v.write = v.sent.enc
  | .simple line => replySimple_eq line
  | .error msg => replyError_eq msg
  | .integer val => replyInteger_eq val
  | .bulk payload => replyBulkCstr_eq payload
  | .nullBulk => replyNull_eq
  | .nullArray => replyNullArray_eq
  | .array elements => by
    rw [write, sent, ← replyArray_append, length_sents, writes_eq elements]

theorem writes_eq : ∀ vs : List Reply, writes vs = encs (sents vs)
  | [] => rfl
  | v :: vs => by rw [writes, sents, encs, write_eq v, writes_eq vs]

end

mutual

theorem depth_sent : ∀ v : Reply, v.sent.depth = v.depth
  | .simple _ | .error _ | .integer _ | .bulk _ | .nullBulk | .nullArray => rfl
  | .array elements => by rw [sent, depth, depth, depths_sents elements]

theorem depths_sents : ∀ vs : List Reply, depths (sents vs) = depths vs
  | [] => rfl
  | v :: vs => by rw [sents, depths, depths, depth_sent v, depths_sents vs]

end

mutual

theorem Writable.sent : ∀ {v : Reply}, v.Writable → v.sent.Fits
  | .simple _, h | .integer _, h | .bulk _, h | .nullBulk, h | .nullArray, h => h
  | .error msg, h => by
    refine ⟨errorLine_line msg, ?_⟩
    rw [errorLine, List.length_map]
    exact h
  | .array elements, h => by
    rw [Writable] at h
    rw [Reply.sent, Fits, length_sents]
    exact ⟨h.1, AllWritable.sents h.2⟩

theorem AllWritable.sents : ∀ {vs : List Reply}, AllWritable vs → AllFit (sents vs)
  | [], _ => trivial
  | _ :: _, h => ⟨Writable.sent h.1, AllWritable.sents h.2⟩

end

theorem errorLine_of_line {msg : Bytes} (h : Line msg) : errorLine msg = msg := by
  have hkeep : ∀ c ∈ msg, (if c = cr ∨ c = lf then 32 else c) = c := by
    intro c hc
    refine if_neg ?_
    rintro (rfl | rfl)
    · exact h.1 hc
    · exact h.2 hc
  rw [errorLine, List.map_congr_left hkeep, List.map_id']

mutual

theorem WF.sent : ∀ {v : Reply}, v.WF → v.sent = v
  | .simple _, _ | .integer _, _ | .bulk _, _ | .nullBulk, _ | .nullArray, _ => rfl
  | .error msg, h => by rw [Reply.sent, errorLine_of_line h]
  | .array elements, h => by
    rw [WF] at h
    rw [Reply.sent, WFs.sents h]

theorem WFs.sents : ∀ {vs : List Reply}, WFs vs → Reply.sents vs = vs
  | [], _ => rfl
  | v :: vs, h => by rw [Reply.sents, WF.sent h.1, WFs.sents h.2]

end

end Reply

/-- A client reads back what the encoders write: whatever follows, the answer is the tree that was written,
with both nulls as `RESP_NULL`, and exactly the written bytes are used. The tree differs from the one given to
the encoders only in that every CR and LF of an error message is a space. -/
theorem replies_decode {t : Reply} (h : t.Writable) (hd : t.depth ≤ respMaxDepth) (x : Bytes) :
    respParseReply (t.write ++ x) = .ok (t.sent.value, t.write.length) ∧ (t.WF → t.sent = t) := by
  refine ⟨?_, Reply.WF.sent⟩
  rw [Reply.write_eq]
  exact Reply.parsed (Reply.Writable.sent h) (by rw [Reply.depth_sent]; exact hd) x

/-- A nested reply with the least integer and an error message of two lines. -/
theorem replies_decode_nested :
    let t := Reply.array [.array [.integer int64Min, .nullArray], .bulk (ascii "$1\r\n"),
      .error (ascii "a\r\nb")]
    respParseReply (t.write ++ ascii "+") = .ok
      (.ofList [.ofList [.ofInt int64Min, .null], .bulk (ascii "$1\r\n"), .text .error (ascii "a  b")],
        53) := by
  intro t
  have h : t.Writable := by
    refine ⟨by decide, ⟨by decide, ⟨by decide, by decide⟩, trivial, trivial⟩, ?_, ?_, trivial⟩
    · exact show (ascii "$1\r\n").length ≤ respMaxBulkLen by decide
    · exact show (ascii "a\r\nb").length ≤ respMaxInlineLen by decide
  have hlen : t.write.length = 53 := by decide +kernel
  rw [← hlen]
  exact (replies_decode h (by decide) (ascii "+")).1

/-! ## A stream starts with at most one value -/

theorem line_inj : ∀ {a b x y : Bytes}, cr ∉ a → cr ∉ b → a ++ (crlf ++ x) = b ++ (crlf ++ y) → a = b ∧ x = y
  | [], [], _, _, _, _, h => ⟨rfl, (List.cons.inj (List.cons.inj h).2).2⟩
  | [], c :: b, _, _, _, hb, h => absurd (List.mem_cons.mpr (Or.inl (List.cons.inj h).1)) hb
  | c :: a, [], _, _, ha, _, h => absurd (List.mem_cons.mpr (Or.inl (List.cons.inj h).1.symm)) ha
  | c :: a, d :: b, _, _, ha, hb, h => by
    obtain ⟨hcd, hrest⟩ := List.cons.inj h
    obtain ⟨hab, hxy⟩ := line_inj (fun hm => ha (List.mem_cons_of_mem _ hm))
      (fun hm => hb (List.mem_cons_of_mem _ hm)) hrest
    exact ⟨by rw [hcd, hab], hxy⟩

namespace Reply

/-- The first byte of the encoding, the rest of the first line, and the bytes after it. -/
def parts : Reply → UInt8 × Bytes × Bytes
  | .simple line => (43, line, [])
  | .error line => (45, line, [])
  | .integer val => (58, decInt val, [])
  | .bulk payload => (36, dec payload.length, payload ++ crlf)
  | .nullBulk => (36, ascii "-1", [])
  | .nullArray => (42, ascii "-1", [])
  | .array elements => (42, dec elements.length, encs elements)

theorem enc_parts (v : Reply) (x : Bytes) :
    v.enc ++ x = v.parts.1 :: (v.parts.2.1 ++ (crlf ++ (v.parts.2.2 ++ x))) := by
  cases v with
  | nullBulk => rfl
  | nullArray => rfl
  | _ => simp [enc, parts]

theorem parts_line {v : Reply} (h : v.WF) : cr ∉ v.parts.2.1 := by
  cases v with
  | simple line => exact h.1
  | error line => exact h.1
  | integer val => exact cr_not_mem_decInt val
  | bulk payload => exact cr_not_mem_dec _
  | nullBulk => decide
  | nullArray => decide
  | array elements => exact cr_not_mem_dec _

theorem parts_inj {v w : Reply} {x y : Bytes} (hv : v.WF) (hw : w.WF) (h : v.enc ++ x = w.enc ++ y) :
    v.parts.1 = w.parts.1 ∧ v.parts.2.1 = w.parts.2.1 ∧ v.parts.2.2 ++ x = w.parts.2.2 ++ y := by
  rw [enc_parts, enc_parts] at h
  obtain ⟨htag, hrest⟩ := List.cons.inj h
  exact ⟨htag, line_inj (parts_line hv) (parts_line hw) hrest⟩

theorem null_ne_dec (n : ℕ) : ascii "-1" ≠ dec n := fun h => dec_head_ne n (h ▸ rfl)

mutual

theorem enc_inj : ∀ {v w : Reply} {x y : Bytes}, v.WF → w.WF → v.enc ++ x = w.enc ++ y → v = w ∧ x = y
  | .simple line, w, x, y, hv, hw, h => by
    obtain ⟨htag, hline, hrest⟩ := parts_inj hv hw h
    cases w with
    | simple line' => exact ⟨congrArg Reply.simple hline, hrest⟩
    | _ => exact absurd htag (by simp [parts])
  | .error line, w, x, y, hv, hw, h => by
    obtain ⟨htag, hline, hrest⟩ := parts_inj hv hw h
    cases w with
    | error line' => exact ⟨congrArg Reply.error hline, hrest⟩
    | _ => exact absurd htag (by simp [parts])
  | .integer val, w, x, y, hv, hw, h => by
    obtain ⟨htag, hline, hrest⟩ := parts_inj hv hw h
    cases w with
    | integer val' => exact ⟨congrArg Reply.integer (decInt_inj hline), hrest⟩
    | _ => exact absurd htag (by simp [parts])
  | .bulk payload, w, x, y, hv, hw, h => by
    obtain ⟨htag, hline, hrest⟩ := parts_inj hv hw h
    cases w with
    | bulk payload' =>
      rw [parts, parts, List.append_assoc, List.append_assoc] at hrest
      obtain ⟨hpayload, hxy⟩ := List.append_inj hrest (dec_inj hline)
      exact ⟨congrArg Reply.bulk hpayload, List.append_cancel_left hxy⟩
    | nullBulk => exact absurd hline.symm (null_ne_dec _)
    | _ => exact absurd htag (by simp [parts])
  | .nullBulk, w, x, y, hv, hw, h => by
    obtain ⟨htag, hline, hrest⟩ := parts_inj hv hw h
    cases w with
    | bulk payload' => exact absurd hline (null_ne_dec _)
    | nullBulk => exact ⟨rfl, hrest⟩
    | _ => exact absurd htag (by simp [parts])
  | .nullArray, w, x, y, hv, hw, h => by
    obtain ⟨htag, hline, hrest⟩ := parts_inj hv hw h
    cases w with
    | array ws => exact absurd hline (null_ne_dec _)
    | nullArray => exact ⟨rfl, hrest⟩
    | _ => exact absurd htag (by simp [parts])
  | .array vs, w, x, y, hv, hw, h => by
    obtain ⟨htag, hline, hrest⟩ := parts_inj hv hw h
    cases w with
    | array ws =>
      obtain ⟨hvs, hxy⟩ := encs_inj (dec_inj hline) hv hw hrest
      exact ⟨congrArg Reply.array hvs, hxy⟩
    | nullArray => exact absurd hline.symm (null_ne_dec _)
    | _ => exact absurd htag (by simp [parts])

theorem encs_inj : ∀ {vs ws : List Reply} {x y : Bytes}, vs.length = ws.length → WFs vs → WFs ws →
    encs vs ++ x = encs ws ++ y → vs = ws ∧ x = y
  | [], [], _, _, _, _, _, h => ⟨rfl, h⟩
  | [], _ :: _, _, _, hlen, _, _, _ => absurd hlen (by simp)
  | _ :: _, [], _, _, hlen, _, _, _ => absurd hlen (by simp)
  | v :: vs, w :: ws, x, y, hlen, hv, hw, h => by
    rw [encs, encs, List.append_assoc, List.append_assoc] at h
    obtain ⟨hvw, hrest⟩ := enc_inj hv.1 hw.1 h
    obtain ⟨hvs, hxy⟩ := encs_inj (Nat.succ.inj hlen) hv.2 hw.2 hrest
    exact ⟨by rw [hvw, hvs], hxy⟩

end

theorem eq_of_enc {v w : Reply} (hv : v.WF) (hw : w.WF) (h : v.enc = w.enc) : v = w :=
  (enc_inj (x := []) (y := []) hv hw (by rw [h])).1

end Reply

/-! ## Requests -/

theorem bulksBytes_encs : ∀ {words : List Bytes}, (∀ w ∈ words, w.length ≤ respMaxBulkLen) →
    BulksBytes (words.map .bulk) (Reply.encs (words.map .bulk))
  | [], _ => .nil
  | w :: words, h => by
    rw [List.forall_mem_cons] at h
    rw [List.map_cons, List.map_cons, Reply.encs]
    exact .cons (Reply.bulkBytes_dec h.1) (bulksBytes_encs h.2)

theorem RequestBytes.words {words : List Bytes} (hwords : ∀ w ∈ words, w.length ≤ respMaxBulkLen)
    (hcount : words.length ≤ respMaxArrayLen) :
    RequestBytes (.request words) (Reply.array (words.map .bulk)).enc := by
  have hmax : (words.length : Int) ≤ int64Max := by
    unfold respMaxArrayLen at hcount
    unfold int64Max
    omega
  have hl := numberLine_dec hmax
  rw [← List.length_map (f := RespValue.bulk)] at hl hcount
  have hr := RequestBytes.array hl hcount (bulksBytes_encs hwords)
  rw [List.length_map] at hr
  rw [Reply.enc, List.length_map]
  exact hr

end PulseDB
