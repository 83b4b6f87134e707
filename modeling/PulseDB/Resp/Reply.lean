import PulseDB.Bytes

/-!
# Replies (`reply.c`)

* `replySimple`, `replyError`, ... : the bytes each encoder appends to its buffer;
* `Reply` : a RESP value as a tree, `Reply.enc` its encoding by the RESP grammar, and `Reply.WF` : the lines
  of simple strings and errors hold no CR or LF;
* `replyError_eq`, `replyBulkCstr_eq`, ... : an encoder writes the encoding of one tree.
-/

namespace PulseDB

def crlf : Bytes := [cr, lf]

/-! ## The encoders -/

def replySimple (msg : Bytes) : Bytes := 43 :: (msg ++ crlf)

/-- The loop of `reply_error`: a CR or LF becomes a space. -/
def errorLine (msg : Bytes) : Bytes := msg.map fun c => if c = cr ∨ c = lf then 32 else c

def replyError (msg : Bytes) : Bytes := 45 :: (errorLine msg ++ crlf)

/-- The encoder `reply_errorf`, given the formatted text: the buffer of `vsnprintf` holds 511 bytes of it. -/
def replyErrorf (text : Bytes) : Bytes := replyError (text.take 511)

def replyInteger (val : Int) : Bytes := 58 :: (decInt val ++ crlf)

def replyBulk (data : Bytes) (len : ℕ) : Bytes := 36 :: (dec len ++ crlf ++ data.take len ++ crlf)

def replyBulkCstr (s : Bytes) : Bytes := replyBulk s s.length

def replyNull : Bytes := ascii "$-1" ++ crlf

def replyNullArray : Bytes := ascii "*-1" ++ crlf

def replyArray (count : ℕ) : Bytes := 42 :: (dec count ++ crlf)

/-! ## RESP values -/

/-- A RESP value. -/
inductive Reply where
  | simple (line : Bytes)
  | error (line : Bytes)
  | integer (val : Int)
  | bulk (payload : Bytes)
  | nullBulk
  | nullArray
  | array (elements : List Reply)

namespace Reply

mutual

def enc : Reply → Bytes
  | .simple line => 43 :: (line ++ crlf)
  | .error line => 45 :: (line ++ crlf)
  | .integer val => 58 :: (decInt val ++ crlf)
  | .bulk payload => 36 :: (dec payload.length ++ crlf ++ payload ++ crlf)
  | .nullBulk => ascii "$-1" ++ crlf
  | .nullArray => ascii "*-1" ++ crlf
  | .array elements => 42 :: (dec elements.length ++ crlf ++ encs elements)

/-- The encodings of some values, one after the other. -/
def encs : List Reply → Bytes
  | [] => []
  | v :: vs => enc v ++ encs vs

end

/-- A line ends at the first CR, so it holds neither CR nor LF. -/
def Line (bs : Bytes) : Prop := cr ∉ bs ∧ lf ∉ bs

instance : DecidablePred Line := fun bs => inferInstanceAs (Decidable (cr ∉ bs ∧ lf ∉ bs))

mutual

/-- The lines in the value are lines. -/
def WF : Reply → Prop
  | .simple line => Line line
  | .error line => Line line
  | .array elements => WFs elements
  | _ => True

def WFs : List Reply → Prop
  | [] => True
  | v :: vs => WF v ∧ WFs vs

end

def IsError : Reply → Prop
  | .error _ => True
  | _ => False

theorem encs_nil : encs [] = [] := rfl

theorem encs_cons (v : Reply) (vs : List Reply) : encs (v :: vs) = enc v ++ encs vs := rfl

theorem encs_append : ∀ vs ws : List Reply, encs (vs ++ ws) = encs vs ++ encs ws
  | [], _ => rfl
  | v :: vs, ws => by
    rw [List.cons_append, encs_cons, encs_cons, encs_append vs ws, List.append_assoc]

theorem encs_snoc (vs : List Reply) (v : Reply) : encs (vs ++ [v]) = encs vs ++ enc v := by
  rw [encs_append, encs_cons, encs_nil, List.append_nil]

theorem WFs_append : ∀ vs ws : List Reply, WFs (vs ++ ws) ↔ WFs vs ∧ WFs ws
  | [], _ => (iff_of_eq (true_and _)).symm
  | v :: vs, ws => by
    show (v.WF ∧ WFs (vs ++ ws)) ↔ (v.WF ∧ WFs vs) ∧ WFs ws
    rw [WFs_append vs ws, and_assoc]

theorem WFs_snoc {vs : List Reply} {v : Reply} (hvs : WFs vs) (hv : WF v) : WFs (vs ++ [v]) :=
  (WFs_append vs [v]).mpr ⟨hvs, hv, trivial⟩

theorem WFs_bulks : ∀ texts : List Bytes, WFs (texts.map .bulk)
  | [] => trivial
  | _ :: texts => ⟨trivial, WFs_bulks texts⟩

theorem enc_head (v : Reply) : v.enc.head? = some 45 ↔ v.IsError := by
  cases v <;> simp [enc, IsError, ascii] <;> decide

end Reply

/-! ## Encoders and values -/

theorem replySimple_eq (msg : Bytes) : replySimple msg = (Reply.simple msg).enc := rfl

theorem replyError_eq (msg : Bytes) : replyError msg = (Reply.error (errorLine msg)).enc := rfl

theorem replyInteger_eq (val : Int) : replyInteger val = (Reply.integer val).enc := rfl

theorem replyBulkCstr_eq (s : Bytes) : replyBulkCstr s = (Reply.bulk s).enc := by
  rw [replyBulkCstr, replyBulk, List.take_length]
  rfl

theorem replyNull_eq : replyNull = Reply.nullBulk.enc := rfl

theorem replyNullArray_eq : replyNullArray = Reply.nullArray.enc := rfl

theorem replyArray_append (elements : List Reply) :
    replyArray elements.length ++ Reply.encs elements = (Reply.array elements).enc := rfl

theorem replyBulkPairs_eq {α : Type} (f g : α → Bytes) : ∀ xs : List α,
    (xs.flatMap fun x => replyBulkCstr (f x) ++ replyBulkCstr (g x)) =
      Reply.encs ((xs.flatMap fun x => [f x, g x]).map .bulk)
  | [] => rfl
  | x :: xs => by
    rw [List.flatMap_cons, replyBulkPairs_eq f g xs, List.flatMap_cons, List.map_append, Reply.encs_append,
      replyBulkCstr_eq, replyBulkCstr_eq, List.map_cons, List.map_cons, List.map_nil, Reply.encs_cons,
      Reply.encs_cons, Reply.encs_nil, List.append_nil]

theorem length_pairs {α : Type} (f g : α → Bytes) : ∀ xs : List α,
    (xs.flatMap fun x => [f x, g x]).length = xs.length * 2
  | [] => rfl
  | x :: xs => by
    rw [List.flatMap_cons, List.length_append, length_pairs f g xs]
    show 2 + xs.length * 2 = (xs.length + 1) * 2
    omega

theorem errorLine_line (msg : Bytes) : Reply.Line (errorLine msg) := by
  have h : ∀ c ∈ errorLine msg, c ≠ cr ∧ c ≠ lf := by
    intro c hc
    obtain ⟨b, -, rfl⟩ := List.mem_map.mp hc
    by_cases hb : b = cr ∨ b = lf
    · rw [if_pos hb]
      decide
    · rw [if_neg hb]
      exact not_or.mp hb
  exact ⟨fun hm => (h cr hm).1 rfl, fun hm => (h lf hm).2 rfl⟩

end PulseDB
