import PulseDB.Cmd.String

/-!
# Expiry times (`cmd_set`, `ttl_common`)

`SET` stores the expiry of its last option, the clock reading of that option plus the amount it gives. The sum
is made in 64 bits: the guard on `EX` keeps the amount below half of the range, and nothing keeps an amount of
`PX` below `INT64_MAX`.

* `setOptions_last` : the expiry the options give;
* `ExpiresAt` : the key is live up to its expiry, `PTTL` tells how long, and it is absent afterwards;
* `expiresAt_iff` : a key with the wrapped expiry does so exactly if the expiry fits into 64 bits.
-/

namespace PulseDB
open Lib Lib.Prog

variable {D : Type} [LinearOrder D]

/-! ## The options of SET -/

/-- The milliseconds that the amount `n` means under the option `opt`. -/
def optionMs (opt : Bytes) (n : Int) : Int := if strcaseEq opt (ascii "EX") then n * 1000 else n

/-- The last of `k` options: its name and amount, and the expiry of the clock reading made for it. -/
def LastOption (ctx : CommandCtx) (e : Env D) (s : Sess D) (k : ℕ) (expiresAt : Int) : Prop :=
  ∃ n, parseInt64 (ctx.argv (2 * k + 2)) = some n ∧ 0 < n ∧
    (strcaseEq (ctx.argv (2 * k + 1)) (ascii "EX") = true ∨ strcaseEq (ctx.argv (2 * k + 1))
      (ascii "PX") = true) ∧
    expiresAt = wrap64 (e.clock (s.tick + (k - 1)) + optionMs (ctx.argv (2 * k + 1)) n)

omit [LinearOrder D] in
/-- The options are answered with an error, or they are pairs and the last of them gives the expiry. Each of
them reads the clock once. -/
theorem setOptions_last {ctx : CommandCtx} {e : Env D} {s : Sess D} (hc : ctx.req.Clean) (hn : 3 ≤ ctx.argc) :
    wp (setOptions ctx) e s fun r s' =>
      match r with
      | .inl _ => ∃ msg, s'.client.out = s.client.out ++ replyError msg
      | .inr expiresAt => ∃ k, ctx.argc = 2 * k + 3 ∧ s' = { s with tick := s.tick + k } ∧
          (k = 0 ∨ LastOption ctx e s k expiresAt) := by
  unfold setOptions
  refine wp_forFrom
    (fun i b s' => ∃ k, i = 2 * k + 3 ∧ i ≤ ctx.argc ∧ s' = { s with tick := s.tick + k } ∧
      (k = 0 ∨ LastOption ctx e s k b))
    ⟨0, rfl, hn, rfl, Or.inl rfl⟩ (fun i b s' h hi => ?_) fun i b s' ⟨k, hk, hle, hs, hlast⟩ hge =>
      ⟨k, by omega, hs, hlast⟩
  obtain ⟨k, rfl, -, rfl, -⟩ := h
  rw [wp_bind, wp_arg hc hi]
  simp only
  split
  · rename_i hopt
    rw [Bool.and_eq_true, Bool.or_eq_true, decide_eq_true_eq] at hopt
    rw [wp_bind, wp_arg hc hopt.2]
    split
    · exact ⟨_, rfl⟩
    · rename_i n hnum
      split
      · exact ⟨_, rfl⟩
      · rename_i hpos
        rw [wp_bind, wp_nowMs]
        exact ⟨by omega, k + 1, by omega, by omega, rfl, Or.inr ⟨n, hnum, by omega, hopt.1, rfl⟩⟩
  · exact ⟨_, rfl⟩

theorem replySimple_ne_replyError (msg : Bytes) : replySimple (ascii "OK") ≠ replyError msg := by
  intro h
  rw [replySimple_eq, replyError_eq] at h
  cases h

/-- An accepted `SET` with options stores the value with the expiry of the last option. -/
theorem cmdSet_stored {ctx : CommandCtx} {e : Env D} {s s' : Sess D} (hc : ctx.req.Clean) (hn : 3 < ctx.argc)
    (hv : s.store.Valid) (hset : cmdSet ctx e s = .ok (.done, s'))
    (hok : s'.client.out = s.client.out ++ replySimple (ascii "OK")) :
    ∃ k expiresAt, ctx.argc = 2 * k + 3 ∧ LastOption ctx e s k expiresAt ∧
      s'.store.cells (ctx.argv 1) = some ⟨.str (ctx.argv 2), expiresAt⟩ := by
  suffices hwp : wp (cmdSet ctx) e s fun _ s' =>
      (∃ msg, s'.client.out = s.client.out ++ replyError msg) ∨
        ∃ k expiresAt, ctx.argc = 2 * k + 3 ∧ LastOption ctx e s k expiresAt ∧
          s'.store.cells (ctx.argv 1) = some ⟨.str (ctx.argv 2), expiresAt⟩ by
    rcases wp_post hwp hset with ⟨msg, herr⟩ | h
    · exact absurd (List.append_cancel_left (hok.symm.trans herr)) (replySimple_ne_replyError msg)
    · exact h
  unfold cmdSet
  rw [wp_bind]
  refine wp_mono (setOptions_last hc (by omega)) fun r s₁ h => ?_
  rcases r with st | expiresAt
  · exact Or.inl h
  · obtain ⟨k, hk, rfl, hlast⟩ := h
    simp only
    rw [wp_bind, wp_arg hc (by omega), wp_bind, wp_arg hc (by omega), wp_bind]
    refine wp_call (s := { s with tick := s.tick + k }) hv fun _ s₂ hcall => ?_
    refine Or.inr ⟨k, expiresAt, hk, hlast.resolve_left (by omega), ?_⟩
    exact (congrFun hcall.cells _).trans (Function.update_self ..)

/-! ## An expiry that is honoured -/

/-- From the time `t` on, the key holds `value` up to the time `expiry` and nothing afterwards. `PTTL`, run at
the time `now` on any store in good order that has the cell, replies the time that is left. -/
structure ExpiresAt (cell : Option (Cell D)) (key value : Bytes) (t expiry : Int) : Prop where
  stored : cell = some ⟨.str value, expiry⟩
  live : ∀ now, t ≤ now → now ≤ expiry → live now cell = some ⟨.str value, expiry⟩
  pttl : ∀ now, t ≤ now → now ≤ expiry → ∀ (ctx : CommandCtx) (e : Env D) (s : Sess D),
    (∀ n, e.clock n = now) → s.store.Valid → s.store.cells key = cell →
    ctx.req.Clean → 2 ≤ ctx.argc → ctx.argv 1 = key →
    ∃ s', cmdPttl ctx e s = .ok (.done, s') ∧ s'.client.out = s.client.out ++ replyInteger (expiry - now)
  absent : ∀ now, expiry < now → PulseDB.live now cell = none

omit [LinearOrder D] in
theorem live_until {value : Bytes} {expiry : Int} (h0 : expiry ≠ 0) (now : Int) :
    live now (some (⟨.str value, expiry⟩ : Cell D)) = if expiry < now then none
      else some ⟨.str value, expiry⟩ := by
  rw [live]
  exact if_congr (and_iff_right h0) rfl rfl

/-- For a live key with an expiry, `PTTL` replies the time that is left. -/
theorem cmdPttl_left {ctx : CommandCtx} {e : Env D} {s : Sess D} {now expiry : Int} {v : Value D}
    (hc : ctx.req.Clean) (hn : 2 ≤ ctx.argc) (hv : s.store.Valid) (hclock : ∀ n, e.clock n = now)
    (hlive : live now (s.store.cells (ctx.argv 1)) = some ⟨v, expiry⟩) (hpos : 0 < expiry)
    (hleft : 0 ≤ expiry - now) (hmax : expiry - now ≤ int64Max) :
    wp (cmdPttl ctx) e s fun st s' => st = .done ∧ s'.client.out = s.client.out ++ replyInteger
      (expiry - now) := by
  unfold cmdPttl ttlCommon
  rw [wp_bind, wp_arg hc (by omega), wp_bind]
  refine wp_call hv fun r s' hcall => ?_
  have hr : r = expiry := by
    rw [hcall.result, hclock s.tick, hlive]
    exact if_neg hpos.ne'
  have hwrap : wrap64 (expiry - now) = expiry - now :=
    wrap64_of_range (le_trans (by decide) hleft) hmax
  subst hr
  rw [if_neg (by omega), wp_bind, wp_nowMs, wp_answer]
  simp only [hclock, hwrap, if_neg (not_lt.mpr hleft), if_true, hcall.client]
  exact ⟨trivial, trivial⟩

theorem expiresAt_iff {key value : Bytes} {t expiry : Int} (ht : 0 ≤ t) (hlt : t < expiry) :
    ExpiresAt (D := D) (some ⟨.str value, wrap64 expiry⟩) key value t expiry ↔ expiry ≤ int64Max := by
  constructor
  · intro h
    have heq : wrap64 expiry = expiry := congrArg Cell.expiresAt (Option.some.inj h.stored)
    exact heq ▸ wrap64_le expiry
  · intro hmax
    have hwrap : wrap64 expiry = expiry :=
      wrap64_of_range (le_trans (by decide) (ht.trans hlt.le)) hmax
    rw [hwrap]
    have hlive : ∀ now, now ≤ expiry →
        live now (some (⟨.str value, expiry⟩ : Cell D)) = some ⟨.str value, expiry⟩ := by
      intro now hnow
      rw [live_until (by omega), if_neg (not_lt.mpr hnow)]
    refine ⟨rfl, fun now _ => hlive now, fun now hfrom hnow ctx e s hclock hv hcell hc hn hkey => ?_,
      fun now hnow => ?_⟩
    · have hl : live now (s.store.cells (ctx.argv 1)) = some ⟨.str value, expiry⟩ := by
        rw [hkey, hcell]
        exact hlive now hnow
      obtain ⟨st, s', hrun, rfl, hout⟩ :=
        wp_iff.mp (cmdPttl_left hc hn hv hclock hl (by omega) (by omega) (by omega))
      exact ⟨s', hrun, hout⟩
    · rw [live_until (by omega), if_pos hnow]

/-- An accepted `SET` with options is honoured exactly if the expiry of its last option fits into 64 bits. The
options are pairs, and each of them reads the clock once: the last one is the pair that ends the request, and
its reading is the one numbered `(argc - 5) / 2` from the start of the command. -/
theorem set_expiry_honoured {ctx : CommandCtx} {e : Env D} {s s' : Sess D} (hc : ctx.req.Clean)
    (hn : 3 < ctx.argc) (hv : s.store.Valid) (hset : cmdSet ctx e s = .ok (.done, s'))
    (hok : s'.client.out = s.client.out ++ replySimple (ascii "OK")) :
    let opt := ctx.argv (ctx.argc - 2)
    let t := e.clock (s.tick + (ctx.argc - 5) / 2)
    (strcaseEq opt (ascii "EX") = true ∨ strcaseEq opt (ascii "PX") = true) ∧
      ∃ n, parseInt64 (ctx.argv (ctx.argc - 1)) = some n ∧ 0 < n ∧
        (0 ≤ t → (ExpiresAt (s'.store.cells (ctx.argv 1)) (ctx.argv 1) (ctx.argv 2) t (t + optionMs opt n) ↔
          t + optionMs opt n ≤ int64Max)) := by
  obtain ⟨k, expiresAt, hk, ⟨n, hnum, hpos, hopt, rfl⟩, hcell⟩ := cmdSet_stored hc hn hv hset hok
  rw [show ctx.argc - 2 = 2 * k + 1 by omega, show ctx.argc - 1 = 2 * k + 2 by omega,
    show (ctx.argc - 5) / 2 = k - 1 by omega]
  refine ⟨hopt, n, hnum, hpos, fun ht => ?_⟩
  have hms : 0 < optionMs (ctx.argv (2 * k + 1)) n := by
    unfold optionMs
    split <;> omega
  rw [hcell]
  exact expiresAt_iff ht (by omega)

/-- After `SET k v EX 1 px 30` the second option counts, with the reading made for it. -/
theorem set_expiry_honoured_two_options :
    let ctx : CommandCtx :=
      ⟨.request [ascii "set", ascii "k", ascii "v", ascii "EX", ascii "1", ascii "px", ascii "30"],
        true, false⟩
    let e := Env.integers (fun n => 100 + n) fun n => n
    ∃ s', cmdSet ctx e { store := storeCreate, client := {} } = .ok (.done, s') ∧
      ExpiresAt (s'.store.cells (ascii "k")) (ascii "k") (ascii "v") 101 131 := by
  intro ctx e
  have hout : (cmdSet ctx e { store := storeCreate, client := {} }).toOption.map
    (fun p => (p.1, p.2.client.out)) =
      some (.done, replySimple (ascii "OK")) := by decide +kernel
  obtain ⟨⟨st, s'⟩, hrun, hend⟩ := ok_of_toOption hout
  obtain ⟨rfl, hok⟩ := Prod.mk.inj hend
  have hc : ctx.req.Clean := RespValue.clean_request (by decide)
  obtain ⟨-, n, hnum, -, h⟩ := set_expiry_honoured hc (by decide) storeCreate_valid hrun hok
  obtain rfl : n = 30 := Option.some.inj (hnum.symm.trans (by decide +kernel))
  have ht : e.clock (0 + (ctx.argc - 5) / 2) = 101 := by decide
  have hms : optionMs (ctx.argv (ctx.argc - 2)) 30 = 30 := by decide +kernel
  simp only [ht, hms] at h
  exact ⟨s', hrun, (h (by decide)).mpr (by decide)⟩

/-- After `SET k v PX 9223372036854775807` at the time 1 the reply is `OK`, the stored expiry is the least
64-bit integer, and the key is absent at once. -/
theorem set_expiry_honoured_px_max :
    let ctx : CommandCtx :=
      ⟨.request [ascii "set", ascii "k", ascii "v", ascii "PX", ascii "9223372036854775807"], true, false⟩
    let e := Env.integers (fun _ => 1) fun n => n
    (cmdSet ctx e { store := storeCreate, client := {} }).toOption.map
        (fun p => (p.2.client.out, (p.2.store.cells (ascii "k")).map (·.expiresAt),
          (live 1 (p.2.store.cells (ascii "k"))).isSome)) =
      some (replySimple (ascii "OK"), some int64Min, false) := by
  decide +kernel

end PulseDB
