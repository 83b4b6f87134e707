import PulseDB.Cmd.Queue
import PulseDB.Cmd.StreamText

/-!
# The streams as logs

What the clients see of a stream are the texts of its entries.

* `StreamEntry.text` : an entry as a client sees it; `Reply.entries` : the entries in a reply of `XREAD` for
  one stream;
* `cmdXadd_appends` : `XADD` appends the entry that its reply tells, or none;
* `cmdXread_polls` : `XREAD` for one stream returns the entries after the ID, up to the limit.
-/

namespace PulseDB
open Lib Lib.Prog

/-! ## What the clients see -/

def Reply.text : Reply → Bytes
  | .bulk str => str
  | _ => []

/-- An entry in a reply: the text of its ID, and its fields and values. -/
def Reply.entry : Reply → Bytes × List Bytes
  | .array [.bulk id, .array fields] => (id, fields.map Reply.text)
  | _ => ([], [])

/-- The entries in a reply of `XREAD` for one stream. -/
def Reply.entries : Reply → List (Bytes × List Bytes)
  | .array [.array [.bulk _, .array es]] => es.map Reply.entry
  | _ => []

def StreamEntry.text (entry : StreamEntry) : Bytes × List Bytes :=
  (streamIdText entry.id, entry.fields.flatMap fun f => [f.field, f.value])

theorem StreamEntry.value_entry (entry : StreamEntry) : entry.value.entry = entry.text := by
  have hfields : ∀ strs : List Bytes, (strs.map Reply.bulk).map Reply.text = strs := by
    intro strs
    rw [List.map_map]
    exact List.map_id strs
  exact congrArg (streamIdText entry.id, ·) (hfields _)

/-- The entry that the reply of `XADD` tells, if the call was on the key `k`. -/
def xaddEntry (k : Bytes) (args : List Bytes) : Option Reply → List (Bytes × List Bytes)
  | some (.bulk id) => if args.getD 1 [] = k then [(id, args.drop 3)] else []
  | _ => []

/-- The arguments of `XREAD` for the stream `k` after the ID `cursor`, with or without a limit. -/
inductive Polls (k cursor : Bytes) : List Bytes → Prop
  | all {name streams : Bytes} (hstreams : strcaseEq streams (ascii "STREAMS") = true) :
      Polls k cursor [name, streams, k, cursor]
  | limited {name count text streams : Bytes} {n : Int} (hcount : strcaseEq count (ascii "COUNT") = true)
      (htext : parseInt64 text = some n) (hn : 0 ≤ n)
        (hstreams : strcaseEq streams (ascii "STREAMS") = true) :
      Polls k cursor [name, count, text, streams, k, cursor]

/-! ## The two commands -/

variable {D : Type} [LinearOrder D] {ctx : CommandCtx} {e : Env D} {s s' : Sess D}

theorem Called.appended {idSpec key : Bytes} {fields : List StreamField} {r : Except StoreStatus StreamId}
    (hv : s.store.Valid) (hc : Called e s (.streamAdd idSpec fields) key r s') :
    streamEntries (s'.store.cells key) = streamEntries (s.store.cells key) ++
      (r.toOption.map fun id => ⟨id, fields, fields.length⟩).toList := by
  have hstep := streamAdd_entries idSpec fields (e.clock (s.tick + 1))
    (live (e.clock s.tick) (s.store.cells key))
  rw [← hc.result, hv.streamEntries_live] at hstep
  rw [hc.cells, Function.update_self]
  cases r with
  | ok id => exact hstep
  | error st =>
    rw [show _ = live (e.clock s.tick) (s.store.cells key) from hstep, hv.streamEntries_live]
    exact (List.append_nil _).symm

/-- The stream under each key has grown by entries with these texts. -/
def Grew (store store' : Store D) (added : Bytes → List (Bytes × List Bytes)) : Prop :=
  ∀ k, ∃ more : List StreamEntry, streamEntries (store'.cells k) = streamEntries (store.cells k) ++ more ∧
    more.map StreamEntry.text = added k

omit [LinearOrder D] in
theorem Grew.nothing {store store' : Store D} {added : Bytes → List (Bytes × List Bytes)}
    (h : ∀ k, streamEntries (store'.cells k) = streamEntries (store.cells k)) (hadded : ∀ k, added k = []) :
    Grew store store' added := by
  intro k
  refine ⟨[], ?_, (hadded k).symm⟩
  rw [h k, List.append_nil]

theorem cmdXadd_appends (hc : ctx.req.Clean) (hn : 5 ≤ ctx.argc) (hv : s.store.Valid) :
    wp (cmdXadd ctx) e s fun st s' => ∃ v, Wrote s st (some v) s' ∧
      Grew s.store s'.store fun k => xaddEntry k ctx.req.args (some v) := by
  -- an error
  have herror : ∀ {s₁ : Sess D} (msg : Bytes), Quiet e s [] s₁ →
    wp (answer (replyError msg)) e s₁ fun st s' =>
      ∃ v, Wrote s st (some v) s' ∧ Grew s.store s'.store fun k => xaddEntry k ctx.req.args (some v) := by
    intro s₁ msg hq
    refine wp_answer.mpr ⟨.error _, ⟨errorLine_line msg, ?_⟩, .nothing (hq.purged.streamEntries hv)
      fun k => rfl⟩
    rw [← replyError_eq, hq.client, List.append_nil]
  unfold cmdXadd
  split
  · exact herror _ (.start hv)
  · rw [wp_bind]
    refine wp_mono (xaddFields_wp hc (by omega) (by omega)) fun r s₁ ⟨hs, fields, hr, hfields⟩ => ?_
    subst hs hr
    simp only
    rw [wp_bind, wp_arg hc (by omega), wp_bind, wp_arg hc (by omega), wp_bind]
    refine wp_call hv fun r s₂ hcall => ?_
    have happended := hcall.appended hv
    cases r with
    | ok id =>
      refine wp_answer.mpr ⟨.bulk (streamIdText id), ⟨trivial, ?_⟩, fun k => ?_⟩
      · rw [hcall.client, ← replyBulkCstr_eq]
        rfl
      · have hkey : ctx.req.args.getD 1 [] = ctx.argv 1 := RespValue.args_getD ..
        simp only [xaddEntry, hkey]
        split
        · rename_i hkey
          subst hkey
          refine ⟨_, happended, ?_⟩
          rw [hfields]
          rfl
        · rename_i hkey
          refine ⟨[], ?_, rfl⟩
          rw [hcall.cells, Function.update_of_ne (Ne.symm hkey), List.append_nil]
    | error st =>
      have hq := (Quiet.start (e := e) hv).called hcall fun _ _ hr => Cell.alter_error hr
      cases st <;> exact herror _ hq

theorem xreadStreams_polls {a : ℕ} {limit : Int} {id : StreamId} (hc : ctx.req.Clean)
    (hargc : ctx.argc = a + 3)
    (hstreams : strcaseEq (ctx.argv a) (ascii "STREAMS") = true)
      (hid : streamIdParse (ctx.argv (a + 2)) 0 = some id)
    (hv : s.store.Valid) :
    wp (xreadStreams ctx a limit) e s fun st s' => ∃ v, Wrote s st (some v) s' ∧
      v.entries = (xreadBatch limit (streamEntries (s.store.cells (ctx.argv (a + 1)))) id).map
        StreamEntry.text := by
  have hkeys : (ctx.argc - (a + 1)) / 2 = 1 := by omega
  unfold xreadStreams xreadStreamsWith
  rw [if_neg (by omega), wp_bind, wp_arg hc (by omega), hstreams, if_neg (by decide)]
  simp only
  rw [if_neg (by omega), hkeys, wp_bind]
  refine wp_mono (xreadCheck_wp hc (by omega) hv (.start hv)) fun r s₁ h₁ => ?_
  rcases r with st | after
  · -- an error: the key holds no stream
    obtain ⟨-, rfl, ⟨msg, hwf, hout⟩, j, hj, hcause⟩ := h₁
    obtain rfl : j = 0 := by omega
    refine ⟨.error msg, ⟨hwf, hout⟩, ?_⟩
    rcases hcause with hnil | hnone
    · rw [hnil, xreadBatch_nil]
      rfl
    · exact absurd (hid.symm.trans hnone) (Option.some_ne_none _)
  · obtain ⟨hq₁, hafter, hids⟩ := h₁
    simp only
    rw [wp_bind]
    refine wp_mono (xreadCollect_wp hc (by omega) hafter.ge hv hq₁) fun r s₂ ⟨hr, hq, hvs, hle, hw⟩ => ?_
    subst hr
    have hlast : after.getD 0 ⟨0, 0⟩ = id := by
      rw [List.getD_eq_getElem?_getD, hids 0 (by omega) id hid]
      rfl
    have hvalues : xreadValues ctx s.store (a + 1) 1 limit after = (xreadValue (ctx.argv (a + 1))
        (xreadBatch limit (streamEntries (s.store.cells (ctx.argv (a + 1)))) id)).toList := by
      rw [xreadValues_succ, hlast]
      rfl
    simp only
    generalize xreadBatch limit (streamEntries (s.store.cells (ctx.argv (a + 1)))) id = batch at hvalues ⊢
    rw [hvalues] at hvs ⊢
    by_cases hbatch : batch = []
    · subst hbatch
      refine wp_answer.mpr ⟨.nullArray, ⟨trivial, ?_⟩, rfl⟩
      rw [hq.client, List.append_nil, replyNullArray_eq]
    · rw [xreadValue, if_neg hbatch] at hvs ⊢
      refine wp_answer.mpr ⟨.array [.array [.bulk (ctx.argv (a + 1)), .array (batch.map StreamEntry.value)]],
        ⟨hvs, ?_⟩, ?_⟩
      · rw [hq.client, List.append_nil, ← replyArray_append [_]]
        rfl
      · rw [Reply.entries, List.map_map]
        exact List.map_congr_left fun entry _ => entry.value_entry

/-- `XREAD` for one stream returns the entries after the ID, up to a limit that is not negative. -/
theorem cmdXread_polls {k cursor : Bytes} {id : StreamId} (hc : ctx.req.Clean)
    (hp : Polls k cursor ctx.req.args) (hid : streamIdParse cursor 0 = some id) (hv : s.store.Valid) :
    wp (cmdXread ctx) e s fun st s' => ∃ v limit, 0 ≤ limit ∧ Wrote s st (some v) s' ∧
      v.entries = (xreadBatch limit (streamEntries (s.store.cells k)) id).map StreamEntry.text := by
  have hlen := ctx.args_length
  have harg : ∀ i, ctx.argv i = ctx.req.args.getD i [] := fun i => (RespValue.args_getD ..).symm
  unfold cmdXread cmdXreadWith
  generalize ctx.req.args = args at hp hlen harg
  cases hp with
  | @all name streams hstreams =>
    have hcount : strcaseEq streams (ascii "COUNT") = false := by
      rw [strcaseEq, eq_of_beq hstreams]
      decide
    have hargc : ctx.argc = 1 + 3 := hlen.symm
    have h1 : ctx.argv 1 = streams := harg 1
    have h2 : ctx.argv 2 = k := harg 2
    have h3 : ctx.argv 3 = cursor := harg 3
    rw [wp_bind, wp_arg hc (by omega), h1, hcount, if_neg (by decide)]
    refine wp_mono (xreadStreams_polls hc hargc (h1 ▸ hstreams) (h3 ▸ hid) hv) fun st s' ⟨v, hwrote,
      hentries⟩ => ?_
    rw [h2] at hentries
    exact ⟨v, 0, Int.le_refl 0, hwrote, hentries⟩
  | @limited name count text streams n hcount htext hn hstreams =>
    have hargc : ctx.argc = 3 + 3 := hlen.symm
    have h1 : ctx.argv 1 = count := harg 1
    have h2 : ctx.argv 2 = text := harg 2
    have h3 : ctx.argv 3 = streams := harg 3
    have h4 : ctx.argv 4 = k := harg 4
    have h5 : ctx.argv 5 = cursor := harg 5
    rw [wp_bind, wp_arg hc (by omega), h1, hcount, if_pos rfl, if_neg (by omega), wp_bind,
      wp_arg hc (by omega), h2, htext]
    simp only
    rw [if_neg (not_lt.mpr hn)]
    refine wp_mono (xreadStreams_polls hc hargc (h3 ▸ hstreams) (h5 ▸ hid) hv) fun st s' ⟨v, hwrote,
      hentries⟩ => ?_
    rw [h4] at hentries
    exact ⟨v, n, hn, hwrote, hentries⟩

end PulseDB
