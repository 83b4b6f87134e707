import PulseDB.Buffer
import PulseDB.Lib.Trace
import PulseDB.Server.EventLoop

/-!
# Output buffers

The event loop keeps the bytes for a client in a byte string. Here they are in the buffer of the source, and
`write_to_client` hands parts of that buffer to `write`.

* `Output.writeToClient` : the function on the buffer, with the bytes that `write` has taken;
* `writeLoop_spec`, `writeToClient_spec` : what is taken and what stays in the buffer, put together, is what
  was there;
* `Outlet.Rep` : the buffer and the flags stand for the client of the event loop; `writeToClient_refines`,
  `append_refines` : the functions keep that;
* `OutputStep` : appends and writes in any order; `output_in_order` : nothing is lost, sent twice or out of
  order.
-/

namespace PulseDB.Output
open Lib Lib.Prog

/-! ## Writing to a client -/

/-- What `write_to_client` uses of a client. -/
structure Outlet where
  out : Buffer
  closeAfterReply : Bool
  closed : Bool
  deriving DecidableEq

/-- What the loop of `write_to_client` leaves: the bytes that were taken, how many, whether the connection is
gone. -/
structure Sent where
  taken : Bytes
  sent : ℕ
  failed : Bool

/-- The loop of `write_to_client`, of whose bytes `sent` have been taken. -/
def writeLoop (b : Buffer) : List WriteResult → ℕ → Option Sent
  | [], sent => some ⟨[], sent, false⟩
  | result :: rest, sent =>
    if b.len ≤ sent then some ⟨[], sent, false⟩
    else do
      let chunk ← slice b.data sent (b.len - sent)
      match result with
      | .sent 0 => some ⟨[], sent, true⟩
      | .sent n => do
        let later ← writeLoop b rest (sent + (chunk.take n).length)
        return { later with taken := chunk.take n ++ later.taken }
      | .interrupted => writeLoop b rest sent
      | .wouldBlock => some ⟨[], sent, false⟩
      | .failed => some ⟨[], sent, true⟩

/-- The function `write_to_client`, with the bytes that were taken. -/
def writeToClient (results : List WriteResult) (c : Outlet) : Option (Outlet × Bytes) := do
  let w ← writeLoop c.out results 0
  let out ← bufferConsume c.out w.sent
  return (⟨out, c.closeAfterReply, c.closed || w.failed || c.closeAfterReply && decide (out.len = 0)⟩,
    w.taken)

/-- The loop stops where the loop of the event loop does; what it has taken stands in the buffer before that
place. -/
theorem writeLoop_spec {b : Buffer} (h : b.Sound) (results : List WriteResult) (sent : ℕ)
    (hsent : sent ≤ b.len) :
    ∃ taken, writeLoop b results sent =
        some ⟨taken, (PulseDB.writeLoop b.len results sent).1, (PulseDB.writeLoop b.len results sent).2⟩ ∧
      b.contents.drop sent = taken ++ b.contents.drop (PulseDB.writeLoop b.len results sent).1 := by
  fun_induction PulseDB.writeLoop b.len results sent with
  | case1 sent => exact ⟨[], rfl, rfl⟩
  | case2 sent result rest hall => exact ⟨[], by rw [writeLoop, if_pos hall], rfl⟩
  | case3 rest sent hmore =>
    refine ⟨[], ?_, rfl⟩
    rw [writeLoop, if_neg hmore, h.slice_contents hsent]
    rfl
  | case4 rest sent hmore n hn ih =>
    have hlen : ((b.contents.drop sent).take n).length = min n (b.len - sent) := by
      rw [List.length_take, List.length_drop, h.length_contents]
    obtain ⟨taken, hloop, htaken⟩ := ih (by omega)
    refine ⟨(b.contents.drop sent).take n ++ taken, ?_, ?_⟩
    · rw [writeLoop, if_neg hmore, h.slice_contents hsent, Option.bind_eq_bind, Option.bind_some]
      cases n with
      | zero => exact absurd rfl hn
      | succ n =>
        simp only [hlen, hloop]
        rfl
    · have hsame : (b.contents.drop sent).take n = (b.contents.drop sent).take (min n (b.len - sent)) := by
        rw [List.take_eq_take_iff, List.length_drop, h.length_contents]
        omega
      rw [List.append_assoc, ← htaken, ← List.drop_drop, hsame, List.take_append_drop]
  | case5 rest sent hmore ih =>
    obtain ⟨taken, hloop, htaken⟩ := ih hsent
    refine ⟨taken, ?_, htaken⟩
    rw [writeLoop, if_neg hmore, h.slice_contents hsent]
    exact hloop
  | case6 rest sent hmore =>
    refine ⟨[], ?_, rfl⟩
    rw [writeLoop, if_neg hmore, h.slice_contents hsent]
    rfl
  | case7 rest sent hmore =>
    refine ⟨[], ?_, rfl⟩
    rw [writeLoop, if_neg hmore, h.slice_contents hsent]
    rfl

theorem writeToClient_spec {c : Outlet} (h : c.out.Sound) (results : List WriteResult) :
    ∃ out taken, out.Sound ∧ c.out.contents = taken ++ out.contents ∧
      out.contents = c.out.contents.drop (PulseDB.writeLoop c.out.len results 0).1 ∧
      writeToClient results c = some (⟨out, c.closeAfterReply,
        c.closed || (PulseDB.writeLoop c.out.len results 0).2 ||
        c.closeAfterReply && decide (out.len = 0)⟩, taken) := by
  obtain ⟨taken, hloop, htaken⟩ := writeLoop_spec h results 0 (Nat.zero_le _)
  obtain ⟨out, hconsume, hsound, hcontents⟩ := bufferConsume_spec h (PulseDB.writeLoop c.out.len results 0).1
  refine ⟨out, taken, hsound, ?_, hcontents, ?_⟩
  · rw [hcontents, ← htaken, List.drop_zero]
  · rw [writeToClient, hloop, Option.bind_eq_bind, Option.bind_some, hconsume]
    rfl

/-! ## The client of the event loop -/

/-- The buffer and the flags stand for a client of the event loop. -/
structure Outlet.Rep (c : Outlet) (client : Client) : Prop where
  sound : c.out.Sound
  out : c.out.contents = client.out
  closeAfterReply : c.closeAfterReply = client.closeAfterReply
  closed : c.closed = client.closed

/-- A reply that is appended to the buffer is appended for the event loop. -/
theorem append_refines {c : Outlet} {client : Client} (h : c.Rep client) {src : Bytes} (fresh : ℕ → UInt8)
    (hlen : c.out.len + src.length < 2 ^ 63) : ∃ out, bufferAppend c.out src fresh = some out ∧
      Outlet.Rep { c with out := out } { client with out := client.out ++ src } := by
  obtain ⟨out, happend, hsound, hcontents⟩ := bufferAppend_spec h.sound fresh hlen
  exact ⟨out, happend, hsound, hcontents.trans (by rw [h.out]), h.closeAfterReply, h.closed⟩

/-- `write_to_client` on the buffer does for the client what the event loop does. -/
theorem writeToClient_refines {D : Type} {e : Env D} {s : Sess D} {c : Outlet} (h : c.Rep s.client)
    (results : List WriteResult) : ∃ c' taken, writeToClient results c = some (c', taken) ∧
      wp (PulseDB.writeToClient results) e s fun _ s' => c'.Rep s'.client ∧ s.client.out = taken ++
        s'.client.out := by
  obtain ⟨out, taken, hsound, htaken, hcontents, hwrite⟩ := writeToClient_spec h.sound results
  have hlen : c.out.len = s.client.out.length := by rw [← h.out, h.sound.length_contents]
  rw [hlen, h.out] at hcontents
  refine ⟨_, taken, hwrite, ?_⟩
  rw [PulseDB.writeToClient, wp_bind, wp_get, wp_bind]
  refine wp_modify.mpr (wp_modify.mpr ⟨⟨hsound, hcontents, h.closeAfterReply, ?_⟩, ?_⟩)
  · show (c.closed || (PulseDB.writeLoop c.out.len results 0).2 || c.closeAfterReply && decide
      (out.len = 0)) = _
    rw [← hsound.length_contents, hcontents, hlen, h.closeAfterReply, h.closed]
  · exact h.out.symm.trans (htaken.trans (congrArg (taken ++ ·) hcontents))

/-! ## Runs -/

/-- A call: a reply is appended, or the client is written to and some bytes are taken. -/
inductive OutputEvent where
  | append (src : Bytes) (fresh : ℕ → UInt8)
  | write (results : List WriteResult) (taken : Bytes)

/-- The bytes that a call appends. -/
def OutputEvent.appended : OutputEvent → Bytes
  | append src _ => src
  | write .. => []

/-- The bytes that a call hands over. -/
def OutputEvent.taken : OutputEvent → Bytes
  | append .. => []
  | write _ taken => taken

/-- A call on the buffer of a client. The buffer has to hold fewer than `2^63` bytes. -/
inductive OutputStep : Outlet → OutputEvent → Outlet → Prop
  | append {c : Outlet} {src : Bytes} {fresh : ℕ → UInt8} {out : Buffer}
      (hlen : c.out.len + src.length < 2 ^ 63)
      (h : bufferAppend c.out src fresh = some out) : OutputStep c (.append src fresh) { c with out := out }
  | write {c c' : Outlet} {results : List WriteResult} {taken : Bytes}
      (h : writeToClient results c = some (c', taken)) :
      OutputStep c (.write results taken) c'

/-- The calls so far, and the buffer: what was handed over and what is left, put together, is what was
appended. -/
structure InOrder (evs : List OutputEvent) (c : Outlet) : Prop where
  sound : c.out.Sound
  bytes : evs.flatMap OutputEvent.taken ++ c.out.contents = evs.flatMap OutputEvent.appended

theorem InOrder.step {evs : List OutputEvent} {c c' : Outlet} {ev : OutputEvent} (h : InOrder evs c)
    (hstep : OutputStep c ev c') : InOrder (evs ++ [ev]) c' := by
  cases hstep with
  | append hlen happend =>
    obtain ⟨out, hout, hsound, hcontents⟩ := bufferAppend_spec h.sound _ hlen
    cases hout.symm.trans happend
    refine ⟨hsound, ?_⟩
    rw [List.flatMap_append, List.flatMap_append, List.flatMap_singleton,
      List.flatMap_singleton, ← h.bytes, hcontents, List.append_assoc, List.append_assoc]
    rfl
  | write hwrite =>
    obtain ⟨out, taken, hsound, htaken, -, heq⟩ := writeToClient_spec h.sound _
    cases heq.symm.trans hwrite
    refine ⟨hsound, ?_⟩
    rw [List.flatMap_append, List.flatMap_append, List.flatMap_singleton,
      List.flatMap_singleton, ← h.bytes, htaken, List.append_assoc]
    exact (List.append_nil _).symm

theorem InOrder.run {evs : List OutputEvent} {c c' : Outlet} (h : InOrder [] c)
    (hrun : Run OutputStep c evs c') :
    InOrder evs c' :=
  hrun.history (P := fun _ => True) InOrder (fun _ _ _ _ h _ hstep => h.step hstep) (fun _ _ => trivial) h

/-- In every run of appends and writes on a fresh buffer, whatever the socket takes of each write: the bytes
handed over are a prefix of the bytes appended, the buffer holds the rest, and its length is within its
capacity, for which there is memory. Every further append below `2^63` bytes and every further write has its
result. -/
theorem output_in_order {c₀ c : Outlet} {evs : List OutputEvent} (hinit : c₀.out = bufferInit)
    (hrun : Run OutputStep c₀ evs c) :
    evs.flatMap OutputEvent.taken <+: evs.flatMap OutputEvent.appended ∧
      evs.flatMap OutputEvent.appended = evs.flatMap OutputEvent.taken ++ c.out.data.take c.out.len ∧
      c.out.len ≤ c.out.cap ∧ c.out.data.length = c.out.cap ∧
      (∀ src fresh, c.out.len + src.length < 2 ^ 63 → ∃ c', OutputStep c (.append src fresh) c') ∧
      ∀ results, ∃ taken c', OutputStep c (.write results taken) c' := by
  have hfresh : InOrder [] c₀ := by
    refine ⟨?_, ?_⟩
    · rw [hinit]
      exact .empty
    · rw [hinit]
      rfl
  obtain ⟨hsound, hbytes⟩ := hfresh.run hrun
  refine ⟨⟨_, hbytes⟩, hbytes.symm, hsound.fits, hsound.size, fun src fresh hlen => ?_, fun results => ?_⟩
  · obtain ⟨out, happend, -⟩ := bufferAppend_spec hsound fresh hlen
    exact ⟨_, .append hlen happend⟩
  · obtain ⟨out, taken, -, -, -, hwrite⟩ := writeToClient_spec hsound results
    exact ⟨taken, _, .write hwrite⟩

/-- Two replies, with a write between them that is interrupted and of which two bytes are taken. -/
theorem output_in_order_partial :
    let first := (bufferAppend bufferInit (ascii "+OK\r\n") fun _ => 0).getD bufferInit
    let written := (writeToClient [.interrupted, .sent 2, .wouldBlock] ⟨first, false, false⟩).getD
      (⟨first, false, false⟩, [])
    let second := (bufferAppend written.1.out (ascii ":1\r\n") fun _ => 0).getD bufferInit
    written.2 = ascii "+O" ∧ second.data.take second.len = ascii "K\r\n:1\r\n" ∧ second.len ≤ second.cap := by
  intro first written second
  have hfirst : bufferAppend bufferInit (ascii "+OK\r\n") (fun _ => 0) = some first := by decide +kernel
  have hwritten : writeToClient [.interrupted, .sent 2, .wouldBlock] ⟨first, false, false⟩ =
      some (written.1, written.2) := by decide +kernel
  have hsecond : bufferAppend written.1.out (ascii ":1\r\n") (fun _ => 0) = some second := by decide +kernel
  have htaken : written.2 = ascii "+O" := by decide +kernel
  have hroom : written.1.out.len + (ascii ":1\r\n").length < 2 ^ 63 := by decide +kernel
  have hone : OutputStep ⟨bufferInit, false, false⟩ _ ⟨first, false, false⟩ := .append (by decide) hfirst
  have hrun := ((Run.one hone).snoc (.write hwritten)).snoc (.append hroom hsecond)
  obtain ⟨-, hbytes, hfits, -⟩ := output_in_order rfl hrun
  refine ⟨htaken, ?_, hfits⟩
  have hall : ascii "+O" ++ ascii "K\r\n:1\r\n" = written.2 ++ second.data.take second.len := by
    have hsplit : ascii "+O" ++ ascii "K\r\n:1\r\n" = ascii "+OK\r\n" ++ ascii ":1\r\n" := by decide
    rw [hsplit]
    exact hbytes.trans (by simp [OutputEvent.taken])
  rw [htaken] at hall
  exact (List.append_cancel_left hall).symm

end PulseDB.Output
