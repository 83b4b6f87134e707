import PulseDB.Lib.Checked
import PulseDB.Resp.Decimal
import PulseDB.Resp.Request

/-!
# The RESP parser with its bounds (`resp.c`)

The functions of `resp.c` once more, with every byte they read, every element they write and every difference
of lengths they compute as a checked step. They work on positions throughout, as the source does.

* `Bounds.respParseCommand`, `Bounds.respParseReply` : the entry points;
* `findLineEnd_safe` ... `parseValue_safe`, `parseInline_safe` : no function steps outside its bounds, and
  each answers as the one in `PulseDB.Resp.Parse`; a value that is parsed ends within the buffer.
-/

namespace PulseDB.Bounds
open Lib

/-! ## The functions -/

/-- The loop of `find_line_end`. -/
def findLineLoop (buf : Bytes) (pos maxLine i : ℕ) : Checked ℕ :=
  if i < buf.length then do
    let b ← readAt buf i
    if b = cr then
      if i + 1 ≥ buf.length then .incomplete
      else do
        let c ← readAt buf (i + 1)
        if c ≠ lf then .error else return i
    else do
      let off ← subSize i pos
      if off > maxLine then .error else findLineLoop buf pos maxLine (i + 1)
  else do
    let off ← subSize buf.length pos
    if off > maxLine then .error else .incomplete
termination_by buf.length - i

def findLineEnd (buf : Bytes) (pos maxLine : ℕ) : Checked ℕ := findLineLoop buf pos maxLine pos

/-- The digit loop of `parse_number` over `buf[i, last)`. -/
def numberLoop (buf : Bytes) (last : ℕ) (v : Int) (i : ℕ) : Bounded (Option Int) :=
  if i < last then do
    let c ← readAt buf i
    if c < 48 ∨ 57 < c then return none
    else numberLoop buf last (wrap64 (v * 10 + ((c.toNat : Int) - 48))) (i + 1)
  else return some v
termination_by last - i

/-- Parse a signed decimal integer occupying `buf[start, last)`. -/
def parseNumber (buf : Bytes) (start last : ℕ) : Bounded (Option Int) :=
  if start ≥ last then return none
  else do
    let n ← subSize last start
    if n > 20 then return none
    else do
      let c ← readAt buf start
      let i := if c = 45 then start + 1 else start
      if i ≥ last then return none
      else do
        let v ← numberLoop buf last 0 i
        return v.map fun v => if c = 45 then wrap64 (-v) else v

def readNumberLine (buf : Bytes) (pos : ℕ) : Checked (Int × ℕ) := do
  let crPos ← findLineEnd buf pos 32
  match ← (parseNumber buf pos crPos : Bounded (Option Int)) with
  | none => .error
  | some num => return (num, crPos + 2)

def parseBulk (buf : Bytes) (pos : ℕ) : Checked (RespValue × ℕ) := do
  let (blen, p) ← readNumberLine buf pos
  if blen = -1 then return (.null, p)
  else if blen < 0 ∨ (respMaxBulkLen : Int) < blen then .error
  else do
    let left ← subSize buf.length p
    if left < blen.toNat + 2 then .incomplete
    else do
      let b ← readAt buf (p + blen.toNat)
      if b ≠ cr then .error
      else do
        let c ← readAt buf (p + blen.toNat + 1)
        if c ≠ lf then .error
        else do
          let s ← readSlice buf p blen.toNat
          return (.bulk s, p + blen.toNat + 2)

/-- The capacity of an element block that is full. -/
def grow (cap : ℕ) : ℕ := if cap = 0 then 4 else cap * 2

/-- The element loop of `parse_array`: `left` values are to come behind `elements`, in a block with room for
`cap`. -/
def parseElements (parseChild : ℕ → Checked (RespValue × ℕ)) (count : ℕ) :
    (left : ℕ) → (elements : List RespValue) → (cap p : ℕ) → Checked (List RespValue × ℕ)
  | 0, elements, _, p => return (elements, p)
  | left + 1, elements, cap, p => do
    let cap := if elements.length = cap then min (grow cap) count else cap
    writeAt cap elements.length
    let (child, p') ← parseChild p
    parseElements parseChild count left (elements ++ [child]) cap p'

def parseArray (buf : Bytes) (parseChild : ℕ → Checked (RespValue × ℕ)) (pos : ℕ) :
    Checked (RespValue × ℕ) := do
  let (count, p) ← readNumberLine buf pos
  if count = -1 then return (.null, p)
  else if count < 0 ∨ (respMaxArrayLen : Int) < count then .error
  else do
    let (elements, next) ← parseElements parseChild count.toNat count.toNat [] 0 p
    return ({ type := .array, elements := elements }, next)

def parseValue (buf : Bytes) (bulkOnly : Bool) : (room : ℕ) → (pos : ℕ) → Checked (RespValue × ℕ)
  | 0, _ => .error
  | room + 1, pos =>
    if pos ≥ buf.length then .incomplete
    else do
      let type ← readAt buf pos
      let p := pos + 1
      if bulkOnly ∧ type ≠ 36 then .error
      else if type = 36 then parseBulk buf p
      else if type = 42 then parseArray buf (parseValue buf bulkOnly room) p
      else if type = 43 ∨ type = 45 then do
        let crPos ← findLineEnd buf p respMaxInlineLen
        let n ← subSize crPos p
        let s ← readSlice buf p n
        return ({ type := if type = 43 then .simpleString else .error, str := some s, len := n }, crPos + 2)
      else if type = 58 then do
        let (v, next) ← readNumberLine buf p
        return ({ type := .integer, integer := v }, next)
      else .error

/-- The word loop of `parse_inline` on `buf[i, lineLen)`, at most `rounds` times. Every round uses a byte. -/
def inlineWords (buf : Bytes) (lineLen : ℕ) :
    (rounds : ℕ) → (elements : List RespValue) → (cap i : ℕ) → Bounded (List RespValue)
  | 0, elements, _, _ => return elements
  | rounds + 1, elements, cap, i =>
    if i < lineLen then do
      let start ← scanWhile buf isBlank lineLen i
      if start ≥ lineLen then return elements
      else do
        let i ← scanWhile buf (!isBlank ·) lineLen start
        let cap := if elements.length = cap then grow cap else cap
        writeAt cap elements.length
        let n ← subSize i start
        let w ← readSlice buf start n
        inlineWords buf lineLen rounds (elements ++ [.bulk w]) cap i
    else return elements

def parseInline (buf : Bytes) : Checked (RespValue × ℕ) := do
  -- the call of `memchr`; the line is all of the buffer if it finds no LF
  let nl ← scanWhile buf (· != lf) buf.length 0
  if nl ≥ buf.length then
    if respMaxInlineLen < buf.length then .error else .incomplete
  else if respMaxInlineLen < nl then .error
  else do
    let lineLen ← stripCr buf nl
    let elements ← inlineWords buf lineLen lineLen [] 0 0
    return ({ type := .array, elements := elements }, nl + 1)
where
  /-- The length of the line without the CR that may end it. -/
  stripCr (buf : Bytes) (lineLen : ℕ) : Bounded ℕ :=
    if lineLen > 0 then do
      let i ← subSize lineLen 1
      let b ← readAt buf i
      return if b = cr then i else lineLen
    else return lineLen

def respParseCommand (buf : Bytes) : Checked (RespValue × ℕ) :=
  if buf.length = 0 then .incomplete
  else do
    let b ← readAt buf 0
    if b ≠ 42 then parseInline buf
    else do
      let (count, _) ← readNumberLine buf 1
      if count < 0 then .error
      else parseArray buf (parseValue buf true respMaxDepth) 1

def respParseReply (buf : Bytes) : Checked (RespValue × ℕ) := parseValue buf false (respMaxDepth + 1) 0

/-! ## Lines and numbers -/

section Numbers
variable {buf : Bytes}

theorem findLineLoop_safe {pos : ℕ} (maxLine i : ℕ) (hpos : pos ≤ i) (hi : i ≤ buf.length) :
    Safe (findLineLoop buf pos maxLine i)
      (PulseDB.findLineLoop maxLine (i - pos) (buf.drop i) >>= fun off => Pure.pure (pos + off))
      fun c => pos ≤ c ∧ c + 2 ≤ buf.length := by
  rw [findLineLoop]
  by_cases hlt : i < buf.length
  swap
  · rw [if_neg hlt, List.drop_eq_nil_of_le (by omega), show i - pos = buf.length - pos by omega]
    refine .step (subSize_eq (by omega)) ?_
    unfold PulseDB.findLineLoop
    split
    · exact .error
    · exact .incomplete
  rw [if_pos hlt]
  refine .step (readAt_eq hlt) ?_
  rw [List.drop_eq_getElem_cons hlt]
  by_cases hcr : buf[i] = cr
  · rw [if_pos hcr, PulseDB.findLineLoop.eq_def]
    simp only
    rw [if_pos hcr]
    by_cases hend : i + 1 ≥ buf.length
    · rw [if_pos hend, List.drop_eq_nil_of_le hend]
      exact .incomplete
    rw [if_neg hend, List.drop_eq_getElem_cons (by omega)]
    refine .step (readAt_eq (by omega)) ?_
    by_cases hlf : buf[i + 1] ≠ lf
    · rw [if_pos hlf]
      simp only
      rw [if_pos hlf]
      exact .error
    · rw [if_neg hlf]
      simp only
      rw [if_neg hlf, Parse.ok_bind, show pos + (i - pos) = i by omega]
      exact .pure ⟨hpos, by omega⟩
  · rw [if_neg hcr]
    refine .step (subSize_eq hpos) ?_
    by_cases hlong : i - pos > maxLine
    · rw [if_pos hlong, PulseDB.findLineLoop.eq_def]
      simp only
      rw [if_neg hcr, if_pos hlong]
      exact .error
    · rw [if_neg hlong, findLineLoop_cons hcr (by omega), show i - pos + 1 = i + 1 - pos by omega]
      exact findLineLoop_safe maxLine (i + 1) (by omega) hlt
termination_by buf.length - i

theorem findLineEnd_safe {pos : ℕ} (hpos : pos ≤ buf.length) (maxLine : ℕ) :
    Safe (findLineEnd buf pos maxLine) (PulseDB.findLineEnd buf pos maxLine) fun c => pos ≤ c ∧
      c + 2 ≤ buf.length := by
  have h := findLineLoop_safe maxLine pos (Nat.le_refl pos) hpos
  rw [Nat.sub_self] at h
  exact h

theorem numberLoop_eq {last : ℕ} (hlast : last ≤ buf.length) (v : Int) (i : ℕ) :
    numberLoop buf last v i = .ok (PulseDB.numberLoop v ((buf.take last).drop i)) := by
  rw [numberLoop]
  by_cases hlt : i < last
  swap
  · rw [if_neg hlt, List.drop_eq_nil_of_le (by rw [List.length_take]; omega)]
    rfl
  have hlen : i < (buf.take last).length := by rw [List.length_take]; omega
  rw [if_pos hlt, readAt_eq (by omega), ok_bind, List.drop_eq_getElem_cons hlen, List.getElem_take,
    PulseDB.numberLoop]
  split
  · rfl
  · exact numberLoop_eq hlast _ (i + 1)
termination_by last - i

theorem parseNumber_eq {start last : ℕ} (hlast : last ≤ buf.length) :
    parseNumber buf start last = .ok (PulseDB.parseNumber ((buf.drop start).take (last - start))) := by
  rw [← List.drop_take, parseNumber]
  have hlen : ((buf.take last).drop start).length = last - start := by
    rw [List.length_drop, List.length_take]
    omega
  by_cases hempty : start ≥ last
  · rw [if_pos hempty, List.length_eq_zero_iff.mp (hlen.trans (by omega))]
    rfl
  rw [if_neg hempty, subSize_eq (by omega), ok_bind]
  by_cases hlong : last - start > 20
  · rw [if_pos hlong, parseNumber_long (hlen ▸ hlong)]
    rfl
  rw [if_neg hlong, readAt_eq (by omega), ok_bind]
  have hcons : (buf.take last).drop start = buf[start] :: (buf.take last).drop (start + 1) := by
    rw [List.drop_eq_getElem_cons (by rw [List.length_take]; omega), List.getElem_take]
  rw [hcons] at hlen ⊢
  rw [List.length_cons] at hlen
  by_cases hminus : buf[start] = 45
  · simp only [hminus, if_pos]
    rw [parseNumber_minus (by omega)]
    by_cases hnone : start + 1 ≥ last
    · rw [if_pos hnone, if_pos (List.length_eq_zero_iff.mp (by omega))]
      rfl
    · rw [if_neg hnone, if_neg (fun h => by rw [h, List.length_nil] at hlen; omega), numberLoop_eq hlast]
      rfl
  · simp only [if_neg hminus]
    rw [if_neg hempty, numberLoop_eq hlast, hcons, parseNumber_digits (List.cons_ne_nil _ _)
      (by rw [List.length_cons]; omega) (fun h => hminus (Option.some.inj h))]
    show Except.ok (Option.map id _) = _
    rw [Option.map_id]
    rfl

theorem readNumberLine_safe {pos : ℕ} (hpos : pos ≤ buf.length) :
    Safe (readNumberLine buf pos) (PulseDB.readNumberLine buf pos) fun r => pos < r.2 ∧ r.2 ≤ buf.length := by
  refine (findLineEnd_safe hpos 32).bind fun c hc => ?_
  refine .step (parseNumber_eq (by omega)) ?_
  cases PulseDB.parseNumber ((buf.drop pos).take (c - pos)) with
  | none => exact .error
  | some num => exact .pure ⟨by omega, hc.2⟩

end Numbers

/-! ## Values -/

section Values
variable {buf : Bytes}

theorem parseBulk_safe {pos : ℕ} (hpos : pos ≤ buf.length) :
    Safe (parseBulk buf pos) (PulseDB.parseBulk buf pos) fun r => pos < r.2 ∧ r.2 ≤ buf.length := by
  refine (readNumberLine_safe hpos).bind fun r hr => ?_
  obtain ⟨blen, p⟩ := r
  simp only at hr ⊢
  split
  · exact .pure hr
  split
  · exact .error
  refine .step (subSize_eq hr.2) ?_
  split
  · exact .incomplete
  rename_i hleft
  have h1 : p + blen.toNat < buf.length := by omega
  have h2 : p + blen.toNat + 1 < buf.length := by omega
  rw [List.getElem?_eq_getElem h1, List.getElem?_eq_getElem h2]
  refine .step (readAt_eq h1) ?_
  by_cases hcr : buf[p + blen.toNat] ≠ cr
  · rw [if_pos hcr, if_pos (Or.inl fun h => hcr (Option.some.inj h))]
    exact .error
  rw [if_neg hcr]
  refine .step (readAt_eq h2) ?_
  by_cases hlf : buf[p + blen.toNat + 1] ≠ lf
  · rw [if_pos hlf, if_pos (Or.inr fun h => hlf (Option.some.inj h))]
    exact .error
  rw [if_neg hlf, if_neg]
  · refine .step (readSlice_eq (by omega)) ?_
    exact .pure ⟨by omega, by omega⟩
  · rw [not_not] at hcr hlf
    rw [hcr, hlf]
    exact fun h => h.elim (fun h => h rfl) fun h => h rfl

theorem parseElements_safe {parseChild : ℕ → Checked (RespValue × ℕ)} {child : ℕ → Parse (RespValue × ℕ)}
    {count : ℕ}
    (hchild : ∀ p, p ≤ buf.length → Safe (parseChild p) (child p) fun r => p < r.2 ∧ r.2 ≤ buf.length) :
    ∀ (left : ℕ) (elements : List RespValue) {cap p : ℕ}, elements.length + left = count →
      elements.length ≤ cap →
      p ≤ buf.length → Safe (parseElements parseChild count left elements cap p)
        (PulseDB.parseElements child left p >>= fun r => Pure.pure (elements ++ r.1, r.2))
        fun r => p ≤ r.2 ∧ r.2 ≤ buf.length
  | 0, elements, cap, p, _, _, hp => by
    rw [parseElements, PulseDB.parseElements, Parse.pure_eq, Parse.ok_bind, List.append_nil]
    exact .pure ⟨Nat.le_refl p, hp⟩
  | left + 1, elements, cap, p, hcount, hcap, hp => by
    have hroom : elements.length < if elements.length = cap then min (grow cap) count else cap := by
      unfold grow
      split
      · split <;> omega
      · omega
    rw [parseElements, PulseDB.parseElements]
    refine .step (writeAt_eq hroom) ?_
    rw [Parse.bind_assoc]
    refine (hchild p hp).bind fun r hr => ?_
    have hlen : (elements ++ [r.1]).length = elements.length + 1 := List.length_append
    have hcount' : (elements ++ [r.1]).length + left = count := by omega
    have hcap' : (elements ++ [r.1]).length ≤ if elements.length = cap then min (grow cap) count
        else cap := by
      rw [hlen]
      exact hroom
    have hnext := parseElements_safe hchild left _ hcount' hcap' hr.2
    have hsame : (do let (rest, next) ← PulseDB.parseElements child left r.2; return (r.1 :: rest, next)) >>=
        (fun q : List RespValue × ℕ => (Pure.pure (elements ++ q.1, q.2) : Parse (List RespValue × ℕ))) =
        PulseDB.parseElements child left r.2 >>= fun q => Pure.pure (elements ++ [r.1] ++ q.1, q.2) := by
      cases PulseDB.parseElements child left r.2 with
      | ok q =>
        rw [Parse.ok_bind, Parse.ok_bind, List.append_assoc]
        rfl
      | incomplete => rfl
      | error => rfl
    simp only
    rw [hsame]
    exact hnext.mono fun q hq => ⟨by omega, hq.2⟩

theorem parseArray_safe {parseChild : ℕ → Checked (RespValue × ℕ)}
    {child : ℕ → Parse (RespValue × ℕ)} {pos : ℕ}
    (hchild : ∀ p, p ≤ buf.length → Safe (parseChild p) (child p) fun r => p < r.2 ∧ r.2 ≤ buf.length)
    (hpos : pos ≤ buf.length) :
    Safe (parseArray buf parseChild pos) (PulseDB.parseArray buf child pos) fun r => pos < r.2 ∧
      r.2 ≤ buf.length := by
  refine (readNumberLine_safe hpos).bind fun r hr => ?_
  obtain ⟨count, p⟩ := r
  simp only at hr ⊢
  split
  · exact .pure hr
  split
  · exact .error
  have helements := parseElements_safe hchild count.toNat [] (Nat.zero_add _) (Nat.le_refl 0) hr.2
  have hsame : PulseDB.parseElements child count.toNat p >>= (fun r => Pure.pure ([] ++ r.1, r.2)) =
      PulseDB.parseElements child count.toNat p := by
    cases PulseDB.parseElements child count.toNat p <;> rfl
  rw [hsame] at helements
  refine helements.bind fun q hq => ?_
  exact .pure ⟨by omega, hq.2⟩

theorem parseValue_safe (bulkOnly : Bool) : ∀ (room : ℕ) {pos : ℕ}, pos ≤ buf.length →
    Safe (parseValue buf bulkOnly room pos) (PulseDB.parseValue buf bulkOnly room pos)
      fun r => pos < r.2 ∧ r.2 ≤ buf.length
  | 0, pos, _ => .error
  | room + 1, pos, hpos => by
    rw [parseValue, PulseDB.parseValue]
    by_cases hend : pos ≥ buf.length
    · rw [if_pos hend, List.getElem?_eq_none hend]
      exact .incomplete
    rw [if_neg hend, List.getElem?_eq_getElem (by omega)]
    refine .step (readAt_eq (by omega)) ?_
    generalize buf[pos] = type
    have hp : pos + 1 ≤ buf.length := by omega
    simp only
    split
    · exact .error
    split
    · exact (parseBulk_safe hp).mono fun r hr => ⟨by omega, hr.2⟩
    split
    · have hchild := fun p (h : p ≤ buf.length) => parseValue_safe bulkOnly room h
      exact (parseArray_safe hchild hp).mono fun r hr => ⟨by omega, hr.2⟩
    split
    · refine (findLineEnd_safe hp respMaxInlineLen).bind fun c hc => ?_
      refine .step (subSize_eq hc.1) (.step (readSlice_eq (by omega)) ?_)
      exact .pure ⟨by omega, hc.2⟩
    split
    · refine (readNumberLine_safe hp).bind fun r hr => ?_
      exact .pure ⟨by omega, hr.2⟩
    · exact .error

end Values

/-! ## Inline commands -/

section Inline
variable {buf : Bytes}

theorem inlineWords_eq {lineLen : ℕ} (hline : lineLen ≤ buf.length) :
    ∀ (rounds : ℕ) (elements : List RespValue) {cap i : ℕ}, elements.length ≤ cap → i ≤ lineLen →
      inlineWords buf lineLen rounds elements cap i =
        .ok (elements ++ (PulseDB.inlineWords rounds ((buf.take lineLen).drop i)).map .bulk)
  | 0, elements, cap, i, _, _ => by
    rw [inlineWords, PulseDB.inlineWords, List.map_nil, List.append_nil]
    rfl
  | rounds + 1, elements, cap, i, hcap, hi => by
    rw [inlineWords, PulseDB.inlineWords]
    by_cases hlt : i < lineLen
    swap
    · rw [if_neg hlt, List.drop_eq_nil_of_le (by rw [List.length_take]; omega), List.dropWhile_nil,
        if_pos rfl, List.map_nil, List.append_nil]
      rfl
    obtain ⟨start, hscan, -, hstart, -, hdrop⟩ := exists_scanWhile isBlank hline hi
    rw [if_pos hlt, hscan, ok_bind, hdrop]
    by_cases hend : start ≥ lineLen
    · rw [if_pos hend, if_pos (List.drop_eq_nil_of_le (by rw [List.length_take]; omega)), List.map_nil,
        List.append_nil]
      rfl
    have hmore : (buf.take lineLen).drop start ≠ [] := by
      rw [Ne, List.drop_eq_nil_iff, List.length_take]
      omega
    obtain ⟨j, hscan', hj, hjn, htake, hdrop'⟩ := exists_scanWhile (!isBlank ·) hline hstart
    have hroom : elements.length < if elements.length = cap then grow cap else cap := by
      unfold grow
      split
      · split <;> omega
      · omega
    rw [if_neg hend, if_neg hmore, hscan', ok_bind, htake, hdrop']
    simp only
    rw [writeAt_eq hroom, ok_bind, subSize_eq hj, ok_bind, readSlice_eq (by omega), ok_bind]
    have hcap' : (elements ++ [RespValue.bulk ((buf.drop start).take (j - start))]).length ≤
        if elements.length = cap then grow cap else cap := by
      rw [List.length_append]
      exact hroom
    have hrest := inlineWords_eq hline rounds _ hcap' hjn
    rw [List.append_assoc] at hrest
    exact hrest

theorem words_rounds : ∀ {n m : ℕ} {line : Bytes}, line.length ≤ n → line.length ≤ m →
    PulseDB.inlineWords n line = PulseDB.inlineWords m line
  | 0, 0, _, _, _ => rfl
  | 0, m + 1, line, h, _ => by
    rw [List.length_eq_zero_iff.mp (Nat.le_zero.mp h)]
    rfl
  | n + 1, 0, line, _, h => by
    rw [List.length_eq_zero_iff.mp (Nat.le_zero.mp h)]
    rfl
  | n + 1, m + 1, line, hn, hm => by
    rw [PulseDB.inlineWords, PulseDB.inlineWords]
    split
    · rfl
    · rename_i hne
      obtain ⟨c, rest, hrest⟩ := List.exists_cons_of_ne_nil hne
      have hc : isBlank c = false := by
        have hhead := List.head?_dropWhile_not isBlank line
        rw [hrest] at hhead
        exact hhead
      have hshort : ((line.dropWhile isBlank).dropWhile (!isBlank ·)).length < line.length := by
        have h1 := (List.dropWhile_sublist isBlank (l := line)).length_le
        have h2 := (List.dropWhile_sublist (!isBlank ·) (l := rest)).length_le
        rw [hrest, List.length_cons] at h1
        rw [hrest, List.dropWhile_cons_of_pos (by rw [hc]; rfl)]
        omega
      rw [words_rounds (n := n) (m := m) (by omega) (by omega)]

theorem inlineWords_rounds {lineLen rounds : ℕ} (hline : lineLen ≤ buf.length) (hrounds : lineLen ≤ rounds) :
    inlineWords buf lineLen rounds [] 0 0 = inlineWords buf lineLen lineLen [] 0 0 := by
  have hlen : ((buf.take lineLen).drop 0).length = lineLen := by
    rw [List.drop_zero, List.length_take]
    omega
  rw [inlineWords_eq hline _ [] (Nat.le_refl 0) (Nat.zero_le _), inlineWords_eq hline _ [] (Nat.le_refl 0)
    (Nat.zero_le _), words_rounds (hlen.trans_le hrounds) (Nat.le_of_eq hlen)]

theorem stripCr_eq {lineLen : ℕ} (hline : lineLen ≤ buf.length) :
    ∃ n, parseInline.stripCr buf lineLen = .ok n ∧ n ≤ lineLen ∧
      buf.take n = if (buf.take lineLen).getLast? = some cr then (buf.take lineLen).dropLast
        else buf.take lineLen := by
  rw [parseInline.stripCr]
  by_cases hpos : lineLen > 0
  swap
  · refine ⟨lineLen, if_neg hpos, Nat.le_refl _, ?_⟩
    rw [show lineLen = 0 by omega, List.take_zero]
    rfl
  have hlast : (buf.take lineLen).getLast? = some buf[lineLen - 1] := by
    rw [List.getLast?_eq_getElem?, List.length_take, Nat.min_eq_left hline,
      List.getElem?_take_of_lt (by omega), List.getElem?_eq_getElem]
  rw [if_pos hpos, subSize_eq hpos, hlast]
  refine ⟨if buf[lineLen - 1] = cr then lineLen - 1 else lineLen, ?_, by split <;> omega, ?_⟩
  · rw [ok_bind, readAt_eq (by omega)]
    rfl
  · by_cases hcr : buf[lineLen - 1] = cr
    · rw [if_pos hcr, if_pos (congrArg some hcr), List.dropLast_eq_take, List.length_take,
        Nat.min_eq_left hline, List.take_take, Nat.min_eq_left (Nat.sub_le _ _)]
    · rw [if_neg hcr, if_neg fun h => hcr (Option.some.inj h)]

theorem length_takeWhile_ne (b : UInt8) : ∀ bs : Bytes, (bs.takeWhile (· != b)).length = bs.idxOf b
  | [] => rfl
  | c :: bs => by
    by_cases h : c = b
    · simp [h]
    · simp [h, List.idxOf_cons_ne, length_takeWhile_ne b bs]

theorem parseInline_safe : Safe (parseInline buf) (PulseDB.parseInline buf) fun r => 1 ≤ r.2 ∧
    r.2 ≤ buf.length := by
  unfold parseInline PulseDB.parseInline
  refine .step (scanWhile_eq (Nat.le_refl _) 0) ?_
  rw [List.take_length, List.drop_zero, Nat.zero_add, length_takeWhile_ne]
  by_cases hlf : lf ∈ buf
  swap
  · rw [if_pos hlf, if_pos (Nat.le_of_eq (List.idxOf_eq_length_iff.mpr hlf).symm)]
    split
    · exact .error
    · exact .incomplete
  have hlt : buf.idxOf lf < buf.length := List.idxOf_lt_length_iff.mpr hlf
  rw [if_neg (not_not_intro hlf), if_neg (by omega)]
  simp only
  split
  · exact .error
  obtain ⟨n, hstrip, hn, hline⟩ := stripCr_eq (Nat.le_of_lt hlt)
  refine .step hstrip ?_
  have hwords := inlineWords_eq (by omega : n ≤ buf.length) n [] (Nat.le_refl 0) (Nat.zero_le n)
  refine .step hwords ?_
  have hlen : (buf.take n).length = n := by rw [List.length_take]; omega
  rw [← hline, hlen]
  exact .pure ⟨by omega, by omega⟩

end Inline

/-! ## Entry points -/

theorem respParseCommand_safe (buf : Bytes) :
    Safe (respParseCommand buf) (PulseDB.respParseCommand buf) fun r => 1 ≤ r.2 ∧ r.2 ≤ buf.length := by
  unfold respParseCommand PulseDB.respParseCommand
  by_cases hempty : buf.length = 0
  · rw [if_pos hempty, if_pos hempty]
    exact .incomplete
  have hlen : 1 ≤ buf.length := by omega
  rw [if_neg hempty, if_neg hempty, List.getElem?_eq_getElem hlen]
  refine .step (readAt_eq hlen) ?_
  by_cases hstar : buf[0] ≠ 42
  · rw [if_pos hstar, if_pos fun h => hstar (Option.some.inj h)]
    exact parseInline_safe
  rw [if_neg hstar, if_neg fun h => hstar fun heq => h (congrArg some heq)]
  refine (readNumberLine_safe hlen).bind fun r _ => ?_
  simp only
  split
  · exact .error
  · have hchild := fun p (h : p ≤ buf.length) => parseValue_safe true respMaxDepth h
    exact (parseArray_safe hchild hlen).mono fun r hr => ⟨by omega, hr.2⟩

theorem respParseReply_safe (buf : Bytes) :
    Safe (respParseReply buf) (PulseDB.respParseReply buf) fun r => 1 ≤ r.2 ∧ r.2 ≤ buf.length :=
  (parseValue_safe false _ (Nat.zero_le _)).mono fun _ hr => ⟨hr.1, hr.2⟩

end PulseDB.Bounds
