import PulseDB.Resp.ReplyCodec
import Mathlib.Data.List.TakeWhile

/-!
# Inline requests

A request can be sent as a line of words, or as an array of bulk strings. The two ways to write it are parsed
by different functions.

* `spacedLine` : words with blanks before them and at the end; `inlineWords_spaced` : the word loop finds the
  words;
* `inline_agrees` : the parser answers the same on both.
-/

namespace PulseDB
open Lib

/-! ## The word loop -/

section Words

theorem inlineWords_length : ∀ (rounds : ℕ) (line : Bytes), (inlineWords rounds line).length ≤ rounds
  | 0, _ => Nat.le_refl _
  | rounds + 1, line => by
    rw [inlineWords]
    split
    · exact Nat.zero_le _
    · exact Nat.succ_le_succ (inlineWords_length rounds _)

theorem inlineWords_word {w : Bytes} :
    ∀ {rounds : ℕ} {line : Bytes}, w ∈ inlineWords rounds line → w.length ≤ line.length
  | 0, _, h => absurd h List.not_mem_nil
  | rounds + 1, line, h => by
    rw [inlineWords] at h
    have hline := (List.dropWhile_sublist isBlank (l := line)).length_le
    split at h
    · exact absurd h List.not_mem_nil
    · rcases List.mem_cons.mp h with rfl | h
      · exact (List.takeWhile_sublist _).length_le.trans hline
      · exact (inlineWords_word h).trans ((List.dropWhile_sublist _).length_le.trans hline)

theorem while_append {p : UInt8 → Bool} {a b : Bytes} (ha : ∀ c ∈ a, p c = true)
    (hb : ∀ c ∈ b.head?, p c = false) :
    (a ++ b).takeWhile p = a ∧ (a ++ b).dropWhile p = b := by
  have hstop : b.takeWhile p = [] ∧ b.dropWhile p = b := by
    cases b with
    | nil => exact ⟨rfl, rfl⟩
    | cons c b =>
      have hc := hb c rfl
      exact ⟨List.takeWhile_cons_of_neg (by rw [hc]; exact Bool.noConfusion),
        List.dropWhile_cons_of_neg (by rw [hc]; exact Bool.noConfusion)⟩
  rw [List.takeWhile_append_of_pos ha, List.dropWhile_append_of_pos ha, hstop.1, hstop.2, List.append_nil]
  exact ⟨rfl, rfl⟩

/-- Words with the blanks before each of them, and the blanks at the end of the line. -/
def spacedLine (words : List (Bytes × Bytes)) (trail : Bytes) : Bytes :=
  words.flatMap (fun w => w.1 ++ w.2) ++ trail

theorem spacedLine_cons (w : Bytes × Bytes) (words : List (Bytes × Bytes)) (trail : Bytes) :
    spacedLine (w :: words) trail = w.1 ++ (w.2 ++ spacedLine words trail) := by
  rw [spacedLine, spacedLine, List.flatMap_cons, List.append_assoc, List.append_assoc]

theorem spacedLine_head {words : List (Bytes × Bytes)} {trail : Bytes}
    (hgaps : ∀ w ∈ words, ∀ c ∈ w.1, isBlank c = true) (hbetween : ∀ w ∈ words, w.1 ≠ [])
    (htrail : ∀ c ∈ trail, isBlank c = true) : ∀ c ∈ (spacedLine words trail).head?, isBlank c = true := by
  intro c hc
  cases words with
  | nil => exact htrail c (List.mem_of_mem_head? hc)
  | cons w words =>
    rw [spacedLine_cons, List.head?_append_of_ne_nil _ (hbetween w List.mem_cons_self)] at hc
    exact hgaps w List.mem_cons_self c (List.mem_of_mem_head? hc)

theorem inlineWords_spaced {trail : Bytes} (htrail : ∀ c ∈ trail, isBlank c = true) :
    ∀ {rounds : ℕ} {words : List (Bytes × Bytes)}, (∀ w ∈ words, w.2 ≠ [] ∧ ∀ c ∈ w.2, isBlank c = false) →
      (∀ w ∈ words, ∀ c ∈ w.1, isBlank c = true) → (∀ w ∈ words.tail, w.1 ≠ []) →
      (spacedLine words trail).length ≤ rounds → inlineWords rounds (spacedLine words trail) =
        words.map Prod.snd
  | 0, [], _, _, _, _ => rfl
  | 0, w :: words, hwords, _, _, hlen => by
    have hne := (hwords w List.mem_cons_self).1
    rw [spacedLine_cons, List.length_append, List.length_append] at hlen
    exact absurd (List.length_eq_zero_iff.mp (by omega)) hne
  | rounds + 1, [], _, _, _, _ => by
    have hnone : (spacedLine [] trail).dropWhile isBlank = [] := List.dropWhile_eq_nil_iff.mpr htrail
    rw [inlineWords, hnone, if_pos rfl]
    rfl
  | rounds + 1, w :: words, hwords, hgaps, hbetween, hlen => by
    rw [List.forall_mem_cons] at hwords hgaps
    obtain ⟨⟨hne, hword⟩, hwords⟩ := hwords
    rw [List.tail_cons] at hbetween
    have hrest := spacedLine_head hgaps.2 hbetween htrail
    have hline : w.2 ++ spacedLine words trail ≠ [] := List.append_ne_nil_of_left_ne_nil hne _
    have hhead : ∀ c ∈ (w.2 ++ spacedLine words trail).head?, isBlank c = false := by
      intro c hc
      rw [List.head?_append_of_ne_nil _ hne] at hc
      exact hword c (List.mem_of_mem_head? hc)
    obtain ⟨htake, hdrop⟩ := while_append (p := (!isBlank ·)) (a := w.2) (b := spacedLine words trail)
      (fun c hc => by rw [hword c hc]; rfl) (fun c hc => by rw [hrest c hc]; rfl)
    rw [spacedLine_cons, List.length_append, List.length_append] at hlen
    have hpos := List.length_pos_iff.mpr hne
    rw [inlineWords, spacedLine_cons, (while_append hgaps.1 hhead).2, if_neg hline, htake, hdrop,
      List.map_cons,
      inlineWords_spaced htrail hwords hgaps.2 (fun v hv => hbetween v (List.mem_of_mem_tail hv)) (by omega)]

end Words

/-! ## The two ways to write a request -/

theorem inlineValue_spaced {words : List (Bytes × Bytes)} {trail eol : Bytes} (hne : words ≠ [])
    (hwords : ∀ w ∈ words, w.2 ≠ [] ∧ ∀ c ∈ w.2, isBlank c = false)
    (hgaps : ∀ w ∈ words, ∀ c ∈ w.1, isBlank c = true) (hbetween : ∀ w ∈ words.tail, w.1 ≠ [])
    (htrail : ∀ c ∈ trail, isBlank c = true) (hlast : (words.getLast hne).2.getLast? ≠ some cr)
    (heol : eol = [] ∨ eol = [cr]) :
    inlineValue (spacedLine words trail ++ eol) = .request (words.map Prod.snd) := by
  have hstrip : (if (spacedLine words trail ++ eol).getLast? = some cr then
    (spacedLine words trail ++ eol).dropLast
      else spacedLine words trail ++ eol) = spacedLine words trail := by
    rcases heol with rfl | rfl
    swap
    · rw [List.getLast?_concat, if_pos rfl, List.dropLast_concat]
    -- the last byte is one of the blanks, or of the last word
    rw [List.append_nil, if_neg]
    intro hcr
    by_cases hnil : trail = []
    · have hw := (hwords _ (List.getLast_mem hne)).1
      rw [spacedLine, hnil, List.append_nil, ← List.dropLast_concat_getLast hne, List.flatMap_append,
        List.flatMap_singleton, ← List.append_assoc, List.getLast?_append_of_ne_nil _ hw] at hcr
      exact hlast hcr
    · rw [spacedLine, List.getLast?_append_of_ne_nil _ hnil] at hcr
      exact absurd (htrail cr (List.mem_of_getLast? hcr)) (by decide)
  unfold inlineValue RespValue.request
  simp only
  rw [hstrip, inlineWords_spaced htrail hwords hgaps hbetween (Nat.le_refl _)]

theorem isBlank_iff (c : UInt8) : isBlank c = true ↔ c = 32 ∨ c = 9 := by
  unfold isBlank
  rw [Bool.or_eq_true, beq_iff_eq, beq_iff_eq]

/-- The parser answers the same on a line of words and on the array of these words, and takes the line with
its LF. The words are separated by blanks, with more of them before the first word and behind the last. -/
theorem inline_agrees {words : List (Bytes × Bytes)} {trail eol : Bytes} (rest : Bytes) (hne : words ≠ [])
    (hwords : ∀ w ∈ words, w.2 ≠ [] ∧ ∀ c ∈ w.2, c ≠ 32 ∧ c ≠ 9 ∧ c ≠ lf)
    (hgaps : ∀ w ∈ words, ∀ c ∈ w.1, c = 32 ∨ c = 9) (hbetween : ∀ w ∈ words.tail, w.1 ≠ [])
    (htrail : ∀ c ∈ trail, c = 32 ∨ c = 9) (hstar : (words.head hne).2.head? ≠ some 42)
    (hlast : (words.getLast hne).2.getLast? ≠ some cr) (heol : eol = [] ∨ eol = [cr])
    (hlen : (spacedLine words trail ++ eol).length ≤ respMaxInlineLen) :
    respParseCommand (spacedLine words trail ++ eol ++ [lf] ++ rest) =
        .ok (.request (words.map Prod.snd), (spacedLine words trail ++ eol ++ [lf]).length) ∧
      respParseCommand ((Reply.array ((words.map Prod.snd).map .bulk)).enc ++ rest) =
        .ok (.request (words.map Prod.snd), (Reply.array ((words.map Prod.snd).map .bulk)).enc.length) := by
  have hblank : ∀ {a : Bytes}, (∀ c ∈ a, c = 32 ∨ c = 9) → ∀ c ∈ a, isBlank c = true := fun h c hc =>
    (isBlank_iff c).mpr (h c hc)
  have hclean : ∀ w ∈ words, w.2 ≠ [] ∧ ∀ c ∈ w.2, isBlank c = false := fun w hw =>
    ⟨(hwords w hw).1, fun c hc => by
      obtain ⟨h1, h2, -⟩ := (hwords w hw).2 c hc
      rw [Bool.eq_false_iff, Ne, isBlank_iff]
      exact fun h => h.elim h1 h2⟩
  have hvalue := inlineValue_spaced hne hclean (fun w hw => hblank (hgaps w hw)) hbetween
    (hblank htrail) hlast heol
  have hnolf : ∀ {a : Bytes}, (∀ c ∈ a, c = 32 ∨ c = 9) → lf ∉ a := fun h hm => (h lf hm).elim (by decide)
    (by decide)
  have hlf : lf ∉ spacedLine words trail ++ eol := by
    rw [spacedLine, List.mem_append, List.mem_append, List.mem_flatMap, not_or, not_or]
    refine ⟨⟨?_, hnolf htrail⟩, ?_⟩
    · rintro ⟨w, hw, hm⟩
      rcases List.mem_append.mp hm with hm | hm
      · exact hnolf (hgaps w hw) hm
      · exact ((hwords w hw).2 lf hm).2.2 rfl
    · rcases heol with rfl | rfl <;> decide
  have hfirst : (spacedLine words trail ++ eol).head? ≠ some 42 := by
    obtain ⟨w, ws, rfl⟩ := List.exists_cons_of_ne_nil hne
    rw [spacedLine_cons, List.append_assoc, List.append_assoc]
    cases hgap : w.1 with
    | nil =>
      rw [List.nil_append, List.head?_append_of_ne_nil _ (hwords w List.mem_cons_self).1]
      exact hstar
    | cons c gap =>
      intro h
      have hc := hgaps w List.mem_cons_self c (hgap ▸ List.mem_cons_self)
      rw [Option.some.inj h] at hc
      exact absurd hc (by decide)
  have hline := RequestBytes.inline hlf hlen hfirst
  rw [hvalue] at hline
  refine ⟨respParseCommand_ok_iff.mpr ⟨_, rest, hline, rfl, rfl⟩, respParseCommand_ok_iff.mpr
    ⟨_, rest, ?_, rfl, rfl⟩⟩
  -- the words and their number are bounded by the length of the line
  have hloop := inlineWords_spaced (hblank htrail) hclean (fun w hw => hblank (hgaps w hw)) hbetween
    (Nat.le_refl _)
  rw [List.length_append] at hlen
  have hshort : (spacedLine words trail).length ≤ respMaxInlineLen := (Nat.le_add_right _ _).trans hlen
  rw [← hloop]
  refine .words (fun w hw => ?_) ?_
  · exact ((inlineWords_word hw).trans hshort).trans (by decide)
  · exact ((inlineWords_length _ _).trans hshort).trans (by decide)

/-- The line ` SET\t k  v\rw \r` and its LF, with more input behind it. -/
theorem inline_agrees_set :
    respParseCommand (ascii " SET\t k  v\rw \r\n" ++ ascii "PING") =
        .ok (.request [ascii "SET", ascii "k", ascii "v\rw"], (ascii " SET\t k  v\rw \r\n").length) ∧
      respParseCommand (ascii "*3\r\n$3\r\nSET\r\n$1\r\nk\r\n$3\r\nv\rw\r\n" ++ ascii "PING") =
        .ok (.request [ascii "SET", ascii "k", ascii "v\rw"],
          (ascii "*3\r\n$3\r\nSET\r\n$1\r\nk\r\n$3\r\nv\rw\r\n").length) := by
  have hne : [(ascii " ", ascii "SET"), (ascii "\t ", ascii "k"), (ascii "  ", ascii "v\rw")] ≠ [] :=
    List.cons_ne_nil _ _
  have hline : spacedLine [(ascii " ", ascii "SET"), (ascii "\t ", ascii "k"), (ascii "  ", ascii "v\rw")]
    (ascii " ") ++
      [cr] ++ [lf] = ascii " SET\t k  v\rw \r\n" := by decide +kernel
  have harray : (Reply.array [.bulk (ascii "SET"), .bulk (ascii "k"), .bulk (ascii "v\rw")]).enc =
      ascii "*3\r\n$3\r\nSET\r\n$1\r\nk\r\n$3\r\nv\rw\r\n" := by decide +kernel
  have h := @inline_agrees _ (ascii " ") [cr] (ascii "PING") hne (by decide +kernel) (by decide +kernel)
    (by decide +kernel) (by decide +kernel) (show (ascii "SET").head? ≠ some 42 by decide +kernel)
    (show (ascii "v\rw").getLast? ≠ some cr by decide +kernel) (Or.inr rfl) (by decide +kernel)
  rw [hline] at h
  simp only [List.map_cons, List.map_nil] at h
  rw [harray] at h
  exact h

end PulseDB
