import PulseDB.Lib.Frames
import PulseDB.Resp.Cli

/-!
# Requests and replies as frames

What `send_command` writes and what the server replies within the limits of the client are frames: however the
network cuts them, the other side reads exactly these values and meets no error in between.

* `sendCommand_frame` : the bytes of a request;
* `Reply.frame` : the bytes of a reply. `LineDue.fits` : no line of a reply within the limits is one byte over
  its limit, which is where `resp_parse_reply` takes an error back.
-/

namespace PulseDB
open Lib

/-! ## Requests -/

theorem sendCommand_frame {argv : List Bytes} (h : Sendable argv) :
    Frame respParseCommand (.request argv) (sendCommand argv) where
  whole x := respParseCommand_ok_iff.mpr ⟨_, x, sendCommand_spelled h.words h.count, rfl, rfl⟩
  part q y hy heq := by
    have hspelled := sendCommand_spelled h.words h.count
    rw [heq] at hspelled
    exact hspelled.strict_part hy

/-! ## Replies -/

theorem before_cr {a b x y : Bytes} (ha : cr ∉ a) (hb : cr ∉ b) (h : a ++ cr :: x = b ++ cr :: y) :
    a = b := by
  have htake : ∀ {c z : Bytes}, cr ∉ c → (c ++ cr :: z).takeWhile (· != cr) = c := by
    intro c z hc
    have hall : ∀ k ∈ c, (k != cr) = true := fun k hk => bne_iff_ne.mpr (ne_of_mem_of_not_mem hk hc)
    rw [List.takeWhile_append_of_pos hall]
    simp
  rw [← htake ha, h, htake hb]

theorem length_le_int64Max {α : Type} {elements : List α} (h : elements.length ≤ respMaxArrayLen) :
    (elements.length : Int) ≤ int64Max := by
  unfold respMaxArrayLen at h
  unfold int64Max
  omega

namespace Reply
variable {v : Reply}

/-- The first line of a reply within the limits is within the limit for lines of its type. -/
theorem Fits.first_line (h : v.Fits) : cr ∉ v.parts.2.1 ∧
    ((v.parts.1 = 36 ∨ v.parts.1 = 42 ∨ v.parts.1 = 58) → v.parts.2.1.length ≤ 32) ∧
    ((v.parts.1 = 43 ∨ v.parts.1 = 45) → v.parts.2.1.length ≤ respMaxInlineLen) := by
  have hnumber : ∀ {s : Bytes} {n : Int}, parseNumber s = some n → cr ∉ s ∧ s.length ≤ 32 := fun h =>
    ⟨(parseNumber_some h).1, (parseNumber_some h).2.trans (by decide)⟩
  cases v with
  | simple line | error line => exact ⟨h.1.1, fun hb => absurd hb (by simp [parts]), fun _ => h.2⟩
  | integer val =>
    obtain ⟨hcr, hlen⟩ := hnumber (parseNumber_decInt h.1 h.2)
    exact ⟨hcr, fun _ => hlen, fun hb => absurd hb (by simp [parts])⟩
  | bulk payload =>
    have hmax : (payload.length : Int) ≤ int64Max := by
      have hle : payload.length ≤ respMaxBulkLen := h
      unfold respMaxBulkLen at hle
      unfold int64Max
      omega
    obtain ⟨hcr, hlen⟩ := hnumber (parseNumber_dec hmax)
    exact ⟨hcr, fun _ => hlen, fun hb => absurd hb (by simp [parts])⟩
  | nullBulk | nullArray => exact ⟨by decide, fun _ => by decide, fun hb => absurd hb (by decide)⟩
  | array elements =>
    rw [Fits] at h
    obtain ⟨hcr, hlen⟩ := hnumber (parseNumber_dec (length_le_int64Max h.1))
    exact ⟨hcr, fun _ => hlen, fun hb => absurd hb (by simp [parts])⟩

end Reply

/-- The values spelled at the front of an encoding are those of the first elements. -/
theorem spelled_front {room : ℕ} {vs : List RespValue} {bs : Bytes} (h : Spelled (ReplyBytes room) vs bs) :
    ∀ {elements : List Reply} {tail z : Bytes}, Reply.AllFit elements → Reply.depths elements ≤ room →
      vs.length < elements.length → bs ++ tail = Reply.encs elements ++ z →
      ∃ (w : Reply) (z' : Bytes), w.Fits ∧ w.depth < room ∧ w.enc ++ z' = tail := by
  induction h with
  | nil =>
    intro elements tail z hfit hd hlt heq
    cases elements with
    | nil => exact absurd hlt (by decide)
    | cons w ws =>
      rw [Reply.depths, Nat.max_le] at hd
      exact ⟨w, Reply.encs ws ++ z, hfit.1, hd.1, by rw [← List.append_assoc]; exact heq.symm⟩
  | @cons v vs b bs hv _ ih =>
    intro elements tail z hfit hd hlt heq
    cases elements with
    | nil => exact absurd hlt (Nat.not_lt_zero _)
    | cons w ws =>
      rw [Reply.depths, Nat.max_le] at hd
      have heq' : b ++ (bs ++ tail) = w.enc ++ (Reply.encs ws ++ z) := by
        rw [← List.append_assoc, heq, ← List.append_assoc]
        rfl
      -- the parser reads both, so that they are the same bytes
      have hb := (parseValue_reads (b ++ (bs ++ tail)) room 0 (0 + b.length) v).mpr ⟨b, bs ++ tail,
        hv, rfl, rfl⟩
      have hw := (parseValue_reads (b ++ (bs ++ tail)) room 0 (0 + w.enc.length) w.value).mpr
        ⟨w.enc, _, Reply.spelled hfit.1 hd.1, heq', rfl⟩
      rw [hb] at hw
      obtain ⟨-, hlen⟩ := Prod.mk.inj (Parse.ok.inj hw)
      obtain ⟨rfl, hrest⟩ := List.append_inj heq' (by omega)
      exact ih hfit.2 hd.2 (Nat.lt_of_succ_lt_succ hlt) hrest

/-- In a reply within the limits, a line that is due ends within its limit. -/
theorem LineDue.fits {room limit : ℕ} {head : Bytes} (h : LineDue room limit head) :
    ∀ {v : Reply} {z line x : Bytes}, v.Fits → v.depth < room → v.enc ++ z = head ++ (line ++ cr :: x) →
      cr ∉ line →
      line.length ≤ limit := by
  induction h with
  | @header room b hb =>
    intro v z line x hv _ heq hcr
    obtain ⟨hline, hheader, -⟩ := hv.first_line
    rw [Reply.enc_parts] at heq
    obtain ⟨htag, hrest⟩ := List.cons.inj heq
    rw [← before_cr hline hcr hrest]
    exact hheader (htag ▸ hb)
  | @text room b hb =>
    intro v z line x hv _ heq hcr
    obtain ⟨hline, -, htext⟩ := hv.first_line
    rw [Reply.enc_parts] at heq
    obtain ⟨htag, hrest⟩ := List.cons.inj heq
    rw [← before_cr hline hcr hrest]
    exact htext (htag ▸ hb)
  | @element room limit n line bs tail vs hl hn hvs hlt _ ih =>
    intro v z long x hv hd heq hcr
    obtain ⟨hline, -, -⟩ := hv.first_line
    obtain ⟨text, hnumber, rfl⟩ := hl
    rw [Reply.enc_parts] at heq
    simp only [List.cons_append, List.append_assoc] at heq
    obtain ⟨htag, hrest⟩ := List.cons.inj heq
    obtain ⟨htext, hrest⟩ := line_inj hline (parseNumber_some hnumber).1 hrest
    cases v with
    | simple | error | integer | bulk | nullBulk => exact absurd htag (by simp [Reply.parts])
    | nullArray =>
      rw [← show ascii "-1" = text from htext, show parseNumber (ascii "-1") = some (-1) by decide] at hnumber
      exact absurd (Option.some.inj hnumber) (by omega)
    | array elements =>
      rw [Reply.Fits] at hv
      rw [Reply.depth] at hd
      have hcount : elements.length = n := by
        rw [← show dec elements.length = text from htext,
          parseNumber_dec (length_le_int64Max hv.1)] at hnumber
        exact Int.ofNat.inj (Option.some.inj hnumber)
      obtain ⟨w, z', hw, hwd, hwz⟩ := spelled_front hvs hv.2 (by omega) (hcount ▸ hlt) hrest.symm
      exact ih hw hwd hwz hcr

namespace Reply
variable {v : Reply}

/-- A part of a reply within the limits is neither a reply nor an error. -/
theorem Within.strict_part (h : v.Within respMaxDepth) {q y : Bytes} (hy : y ≠ []) (heq : v.enc = q ++ y) :
    respParseReply q = .incomplete := by
  have hwhole : respParseReply (q ++ y) = .ok (v.value, (q ++ y).length) := heq ▸ h.accepted
  cases hq : respParseReply q with
  | incomplete => rfl
  | ok r =>
    have hr := respParseReply_okStable q y r hq
    rw [hwhole] at hr
    cases hr
    have hused := (respParseReply_resumable.progress hq).2
    rw [List.length_append] at hused
    exact absurd (List.length_eq_zero_iff.mp (by omega)) hy
  | error =>
    rcases respParseReply_error_append hq y with herror | ⟨⟨x, rfl⟩, limit, head, line, hdue,
      ⟨hlen, hcr⟩, rfl⟩
    · rw [hwhole] at herror
      cases herror
    · have hfits := hdue.fits (z := []) h.1 (Nat.lt_succ_of_le h.2)
        (by rw [heq, List.append_nil, List.append_assoc]) hcr
      omega

theorem frame (h : v.Within respMaxDepth) : Frame respParseReply v.value v.enc :=
  ⟨parsed h.1 h.2, fun _ _ => h.strict_part⟩

end Reply
end PulseDB
