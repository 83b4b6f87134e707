import PulseDB.Resp.ReplyCodec

/-!
# The command-line client (`tools/cli.c`)

* `sendCommand` : the bytes of a request; `requests_agree` : the server reads exactly the words that were
  given, and nothing from a part of the bytes;
* `readReply` : read one reply, and `readReplies` : call it some times, on a stream that arrives in chunks;
* `replies_restart` : how the stream of replies is cut does not matter, unless a cut falls at the end of a
  line that is one byte over its limit.
-/

namespace PulseDB
open Lib

/-! ## Requests -/

def sendWord (word : Bytes) : Bytes := 36 :: (dec (cstr word).length ++ crlf ++ cstr word ++ crlf)

/-- The bytes `send_command` writes. -/
def sendCommand (argv : List Bytes) : Bytes := 42 :: (dec argv.length ++ crlf ++ argv.flatMap sendWord)

/-- The words of a command that the server can read: not none, and not more or longer than it accepts. -/
structure Sendable (argv : List Bytes) : Prop where
  nonempty : argv ≠ []
  count : argv.length ≤ respMaxArrayLen
  words : ∀ w ∈ argv, (0 : UInt8) ∉ w ∧ w.length ≤ respMaxBulkLen

theorem sendWords_eq : ∀ {words : List Bytes}, (∀ w ∈ words, (0 : UInt8) ∉ w) →
    words.flatMap sendWord = Reply.encs (words.map .bulk)
  | [], _ => rfl
  | w :: words, h => by
    rw [List.forall_mem_cons] at h
    rw [List.flatMap_cons, sendWord, cstr_of_clean h.1, sendWords_eq h.2]
    rfl

theorem sendCommand_spelled {argv : List Bytes} (h : ∀ w ∈ argv, (0 : UInt8) ∉ w ∧ w.length ≤ respMaxBulkLen)
    (hcount : argv.length ≤ respMaxArrayLen) : RequestBytes (.request argv) (sendCommand argv) := by
  have hr := RequestBytes.words (fun w hw => (h w hw).2) hcount
  rw [Reply.enc, List.length_map] at hr
  rw [sendCommand, sendWords_eq fun w hw => (h w hw).1]
  exact hr

theorem RequestBytes.strict_part {v : RespValue} {p y : Bytes} (h : RequestBytes v (p ++ y)) (hy : y ≠ []) :
    respParseCommand p = .incomplete := by
  have hwhole : respParseCommand (p ++ y) = .ok (v, (p ++ y).length) :=
    respParseCommand_ok_iff.mpr ⟨p ++ y, [], h, (List.append_nil _).symm, rfl⟩
  cases hp : respParseCommand p with
  | incomplete => rfl
  | ok r =>
    -- an answer `ok` on the part would be the answer on the whole, with all its bytes
    have hr := respParseCommand_okStable p y r hp
    rw [hwhole] at hr
    cases hr
    have hused := (respParseCommand_restartable.progress hp).2
    rw [List.length_append] at hused
    exact absurd (List.length_eq_zero_iff.mp (by omega)) hy
  | error =>
    rcases respParseCommand_error_append hp y with he | ⟨rfl, hl⟩
    · rw [hwhole] at he
      cases he
    · rw [hl.answers.2] at hwhole
      cases hwhole

/-- The server reads exactly the words that the client was given, whatever follows the request; and it waits
for more on every part of the request. -/
theorem requests_agree {argv : List Bytes} (hwords : ∀ w ∈ argv, (0 : UInt8) ∉ w ∧ w.length ≤ respMaxBulkLen)
    (hcount : argv.length ≤ respMaxArrayLen) :
    (∀ x, respParseCommand (sendCommand argv ++ x) = .ok (.request argv, (sendCommand argv).length)) ∧
      ∀ p y, y ≠ [] → sendCommand argv = p ++ y → respParseCommand p = .incomplete := by
  have hspelled := sendCommand_spelled hwords hcount
  refine ⟨fun x => respParseCommand_ok_iff.mpr ⟨_, x, hspelled, rfl, rfl⟩, fun p y hy heq => ?_⟩
  rw [heq] at hspelled
  exact hspelled.strict_part hy

/-- The words `SET`, `k` and a value that looks like the end of one request and the start of another. -/
theorem requests_agree_fake_header :
    (∀ x, respParseCommand (sendCommand [ascii "SET", ascii "k", ascii "v\r\n*1\r\n$4"] ++ x) =
        .ok (.request [ascii "SET", ascii "k", ascii "v\r\n*1\r\n$4"], 35)) ∧
      ∀ n < 35, respParseCommand ((sendCommand [ascii "SET", ascii "k", ascii "v\r\n*1\r\n$4"]).take n) =
        .incomplete := by
  have hwords : ∀ w ∈ [ascii "SET", ascii "k", ascii "v\r\n*1\r\n$4"],
      (0 : UInt8) ∉ w ∧ w.length ≤ respMaxBulkLen := by decide +kernel
  have hlen : (sendCommand [ascii "SET", ascii "k", ascii "v\r\n*1\r\n$4"]).length = 35 := by decide +kernel
  obtain ⟨hall, hpart⟩ := requests_agree hwords (by decide)
  refine ⟨fun x => ?_, fun n hn => hpart _ (List.drop n _) ?_ (List.take_append_drop n _).symm⟩
  · rw [hall x, hlen]
  · exact fun h => absurd (List.drop_eq_nil_iff.mp h) (by omega)

/-! ## Replies -/

/-- One call of `read_reply` on the buffered bytes and the chunks to come: the value, and what is then
buffered and still to come. `none` is the `NULL` returned on bytes that are no reply and at the end of the
stream. -/
def readReply : List Bytes → Bytes → Option RespValue × Bytes × List Bytes
  | [], inbuf =>
    match (if inbuf.length = 0 then .incomplete else respParseReply inbuf) with
    | .ok (v, used) => (some v, inbuf.drop used, [])
    | .error => (none, inbuf, [])
    | .incomplete => (none, inbuf, [])
  | chunk :: chunks, inbuf =>
    match (if inbuf.length = 0 then .incomplete else respParseReply inbuf) with
    | .ok (v, used) => (some v, inbuf.drop used, chunk :: chunks)
    | .error => (none, inbuf, chunk :: chunks)
    | .incomplete => readReply chunks (inbuf ++ chunk)

/-- The values of at most `calls` calls of `read_reply`, up to the first `NULL`. -/
def readReplies : ℕ → List Bytes → Bytes → List RespValue
  | 0, _, _ => []
  | calls + 1, chunks, inbuf =>
    match readReply chunks inbuf with
    | (none, _, _) => []
    | (some v, inbuf, chunks) => v :: readReplies calls chunks inbuf

/-- What a reader of replies gets from the buffered bytes and the chunks to come. -/
def repliesLeft (chunks : List Bytes) (inbuf : Bytes) : List RespValue :=
  (chunks.foldl (feed respParseReply) (drain respParseReply inbuf)).items

theorem parse_inbuf (inbuf : Bytes) :
    (if inbuf.length = 0 then .incomplete else respParseReply inbuf) = respParseReply inbuf := by
  by_cases h : inbuf.length = 0
  · rw [if_pos h, List.length_eq_zero_iff.mp h]
    rfl
  · rw [if_neg h]

/-- One call of `read_reply` gives the first reply, or `NULL` when there is none. -/
theorem readReply_cases : ∀ (chunks : List Bytes) (inbuf : Bytes),
    ((readReply chunks inbuf).1 = none ∧ repliesLeft chunks inbuf = []) ∨
      ∃ v inbuf' chunks', readReply chunks inbuf = (some v, inbuf', chunks') ∧
        repliesLeft chunks inbuf = v :: repliesLeft chunks' inbuf' := by
  intro chunks
  induction chunks with
  | nil =>
    intro inbuf
    rw [readReply, parse_inbuf]
    cases h : respParseReply inbuf with
    | ok r =>
      refine Or.inr ⟨r.1, inbuf.drop r.2, [], rfl, ?_⟩
      have hr : respParseReply inbuf = .ok (r.1, r.2) := h
      rw [repliesLeft, drain_ok respParseReply_resumable hr, foldl_feed_items]
      rfl
    | error => exact Or.inl ⟨rfl, by rw [repliesLeft, drain_stop respParseReply_resumable (by simp [h])]; rfl⟩
    | incomplete =>
      exact Or.inl ⟨rfl, by rw [repliesLeft, drain_stop respParseReply_resumable (by simp [h])]; rfl⟩
  | cons chunk chunks ih =>
    intro inbuf
    rw [readReply, parse_inbuf]
    cases h : respParseReply inbuf with
    | ok r =>
      refine Or.inr ⟨r.1, inbuf.drop r.2, chunk :: chunks, rfl, ?_⟩
      have hr : respParseReply inbuf = .ok (r.1, r.2) := h
      rw [repliesLeft, drain_ok respParseReply_resumable hr, foldl_feed_items]
      rfl
    | error =>
      have hfailed : (drain respParseReply inbuf).failed = true := by
        rw [drain_stop respParseReply_resumable (by simp [h]), h]
        rfl
      refine Or.inl ⟨rfl, ?_⟩
      rw [repliesLeft, (foldl_feed_failed _ _ hfailed).2, drain_stop respParseReply_resumable (by simp [h])]
    | incomplete =>
      -- the chunk is read, and the call goes on with it
      have hstep : repliesLeft (chunk :: chunks) inbuf = repliesLeft chunks (inbuf ++ chunk) := by
        rw [repliesLeft, drain_stop respParseReply_resumable (by simp [h]), h, List.foldl_cons]
        rfl
      rw [hstep]
      exact ih (inbuf ++ chunk)

/-- The calls of `read_reply` give the replies of the stream one after the other. -/
theorem readReplies_eq : ∀ (calls : ℕ) (chunks : List Bytes) (inbuf : Bytes),
    readReplies calls chunks inbuf = (repliesLeft chunks inbuf).take calls
  | 0, _, _ => rfl
  | calls + 1, chunks, inbuf => by
    rw [readReplies]
    rcases readReply_cases chunks inbuf with ⟨hnone, hleft⟩ | ⟨v, inbuf', chunks', hsome, hleft⟩
    · rw [hleft, show readReply chunks inbuf = (none, (readReply chunks inbuf).2) from Prod.ext hnone rfl]
      rfl
    · rw [hleft, hsome, List.take_succ_cons, ← readReplies_eq calls chunks' inbuf']

theorem repliesLeft_nil (chunks : List Bytes) :
    repliesLeft chunks [] = (feedAll respParseReply chunks).items := by
  rw [repliesLeft, feedAll_eq_foldl_drain respParseReply_resumable]

theorem reaches_iff_spelled {b left : Bytes} {vs : List RespValue} : Reaches respParseReply b vs left ↔
    ∃ bs, Spelled (ReplyBytes (respMaxDepth + 1)) vs bs ∧ b = bs ++ left := by
  constructor
  · intro h
    induction h with
    | done b => exact ⟨[], .nil, rfl⟩
    | item h _ ih =>
      obtain ⟨bs, rest, hv, rfl, rfl⟩ := respParseReply_ok_iff.mp h
      rw [List.drop_left] at ih
      obtain ⟨bs', hvs, rfl⟩ := ih
      exact ⟨bs ++ bs', .cons hv hvs, by rw [List.append_assoc]⟩
  · rintro ⟨bs, hvs, rfl⟩
    induction hvs with
    | nil => exact .done _
    | cons hv _ ih =>
      rw [List.append_assoc]
      refine .item (respParseReply_ok_iff.mpr ⟨_, _, hv, rfl, rfl⟩) ?_
      rw [List.drop_left]
      exact ih

/-- Somewhere a cut falls, after some complete replies, at the end of a line one byte over its limit, in bytes
that with the rest of the stream start with a reply. -/
def CutOverLong (chunks : List Bytes) : Prop :=
  ∃ before after replies bs left v bs' rest, chunks = before ++ after ∧
    Spelled (ReplyBytes (respMaxDepth + 1)) replies bs ∧ before.flatten = bs ++ left ∧
    OverLong (respMaxDepth + 1) left ∧ ReplyBytes (respMaxDepth + 1) v bs' ∧ left ++ after.flatten =
      bs' ++ rest

theorem cutOverLong_iff {chunks : List Bytes} : CutOverLong chunks ↔
    ∃ before after replies left a, chunks = before ++ after ∧
      Reaches respParseReply before.flatten replies left ∧
      respParseReply left = .error ∧ respParseReply (left ++ after.flatten) = .ok a := by
  constructor
  · rintro ⟨before, after, replies, bs, left, v, bs', rest, hcut, hbs, hleft, hover, hv, hrest⟩
    exact ⟨before, after, replies, left, (v, bs'.length), hcut, reaches_iff_spelled.mpr ⟨bs, hbs, hleft⟩,
      hover.answers.1, respParseReply_ok_iff.mpr ⟨bs', rest, hv, hrest, rfl⟩⟩
  · rintro ⟨before, after, replies, left, a, hcut, hreaches, herr, hok⟩
    obtain ⟨bs, hbs, hleft⟩ := reaches_iff_spelled.mp hreaches
    obtain ⟨bs', rest, hv, hrest, -⟩ :=
      respParseReply_ok_iff.mp (show respParseReply (left ++ after.flatten) = .ok (a.1, a.2) from hok)
    rcases respParseReply_error_append herr after.flatten with h | ⟨-, hover⟩
    · rw [h] at hok
      cases hok
    · exact ⟨before, after, replies, bs, left, a.1, bs', rest, hcut, hbs, hleft, hover, hv, hrest⟩

/-- An error of the reply parser is final unless the buffer stops in a line one byte over its limit, and there
it is taken back by a CR alone. -/
theorem respParseReply_error_final {b : Bytes} (h : respParseReply b = .error) :
    ((∀ x, respParseReply (b ++ x) = .error) ↔ ¬ OverLong (respMaxDepth + 1) b) ∧
      ∀ x, x.head? ≠ some cr → respParseReply (b ++ x) = .error := by
  refine ⟨⟨fun hall hover => ?_, fun hno x => ?_⟩, fun x hx => ?_⟩
  · have := hover.answers.2
    rw [hall [cr]] at this
    cases this
  · exact (respParseReply_error_append h x).resolve_right fun hx => hno hx.2
  · refine (respParseReply_error_append h x).resolve_right ?_
    rintro ⟨⟨x', rfl⟩, -⟩
    exact hx rfl

/-- Reading replies can be taken up again: a reply read is read again from every extension, an error is final
unless the buffer stops in a line one byte over its limit, and a client sees the values of the whole stream in
every cutting of it that has no cut there. -/
theorem replies_restart (b : Bytes) (chunks : List Bytes) :
    (∀ x v k, respParseReply b = .ok (v, k) → respParseReply (b ++ x) = .ok (v, k)) ∧
      (respParseReply b = .error →
        ((∀ x, respParseReply (b ++ x) = .error) ↔ ¬ OverLong (respMaxDepth + 1) b) ∧
          ∀ x, x.head? ≠ some cr → respParseReply (b ++ x) = .error) ∧
      ((∀ calls, readReplies calls chunks [] = readReplies calls [chunks.flatten] []) ↔
        ¬ CutOverLong chunks) := by
  refine ⟨fun x v k h => respParseReply_okStable b x _ h, fun h => respParseReply_error_final h, ?_⟩
  rw [cutOverLong_iff, ← feedAll_items_iff respParseReply_resumable chunks]
  simp only [readReplies_eq, repliesLeft_nil]
  constructor
  · intro h
    ext1 i
    rw [← List.getElem?_take_of_lt (Nat.lt_succ_self i), h, List.getElem?_take_of_lt (Nat.lt_succ_self i)]
  · intro h calls
    rw [h]

/-- The line of a simple string that is one byte over the limit. -/
def overLongLine : Bytes := List.replicate (respMaxInlineLen + 1) 97

/-- A simple string with this line is a reply, but its bytes before the CRLF are an error. -/
theorem replies_not_restart : respParseReply (43 :: overLongLine) = .error ∧
    respParseReply (43 :: overLongLine ++ [cr, lf]) = .ok (.text .simpleString overLongLine, 65540) := by
  have hlen : overLongLine.length = respMaxInlineLen + 1 := List.length_replicate
  have hcr : cr ∉ overLongLine := fun h => absurd (List.eq_of_mem_replicate h) (by decide)
  have hover : OverLong (respMaxDepth + 1) (43 :: overLongLine) :=
    ⟨respMaxInlineLen, [43], overLongLine, .text (Or.inl rfl), ⟨hlen, hcr⟩, rfl⟩
  refine ⟨hover.answers.1, respParseReply_ok_iff.mpr
    ⟨_, [], ReplyLayer.simple hcr (Nat.le_of_eq hlen), ?_, ?_⟩⟩
  · rw [List.append_nil]
    rfl
  · rw [List.length_cons, List.length_append, hlen]
    rfl

end PulseDB
