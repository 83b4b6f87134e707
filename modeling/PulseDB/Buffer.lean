import PulseDB.Bytes
import PulseDB.Lib.Growable

/-!
# Byte buffers (`util.c`)

The buffer of bytes to be sent, with its capacity: `size_t` arithmetic, the growth by doubling, the move to
the front.

* `bufferInit`, `bufferAppend`, `bufferConsume` : the functions; `bufferGrow_spec` : there is room after the
  growth;
* `bufferAppend_spec`, `bufferConsume_spec` : bytes are added at the end and taken from the front.
-/

namespace PulseDB
open Lib

/-- The numbers of `size_t`. -/
def sizeLimit : ℕ := 18446744073709551616

/-- The structure `Buffer`. -/
abbrev Buffer := Block UInt8

def bufferInit : Buffer := Block.empty

/-- The growth in `buffer_append`. What `xrealloc` leaves in new cells is given by `fresh`. The loop that
doubles the capacity makes at most 65 tests: after 64 rounds the capacity is 0, and stays 0. -/
def bufferGrow (b : Buffer) (need : ℕ) (fresh : ℕ → UInt8) : Option Buffer :=
  if need > b.cap then do
    let cap ← doubling sizeLimit need 65 (if b.cap = 0 then 256 else b.cap)
    return ⟨resize b.data cap fresh, b.len, cap⟩
  else some b

/-- The function `buffer_append`. -/
def bufferAppend (b : Buffer) (src : Bytes) (fresh : ℕ → UInt8) : Option Buffer := do
  let b ← bufferGrow b ((b.len + src.length) % sizeLimit) fresh
  let data ← copyTo b.data b.len src
  return ⟨data, (b.len + src.length) % sizeLimit, b.cap⟩

/-- The function `buffer_consume`. -/
def bufferConsume (b : Buffer) (n : ℕ) : Option Buffer :=
  if n ≥ b.len then some ⟨b.data, 0, b.cap⟩
  else do
    let moved ← slice b.data n (b.len - n)
    let data ← copyTo b.data 0 moved
    return ⟨data, b.len - n, b.cap⟩

variable {b : Buffer}

theorem bufferGrow_spec (h : b.Sound) {need : ℕ} (fresh : ℕ → UInt8) (hneed : need < 2 ^ 63) :
    ∃ b', bufferGrow b need fresh = some b' ∧ b'.Sound ∧ b'.contents = b.contents ∧ b'.len = b.len ∧
      need ≤ b'.cap := by
  unfold bufferGrow
  by_cases hgrow : need > b.cap
  · have hlimit : 2 * need ≤ sizeLimit := by
      unfold sizeLimit
      omega
    have hfirst : 0 < (if b.cap = 0 then 256 else b.cap) ∧ b.cap ≤ if b.cap = 0 then 256 else b.cap := by
      split <;> omega
    obtain ⟨cap, hloop, hroom, hle⟩ := doubling_eq hlimit hfirst.1 (show need ≤ _ * 2 ^ 64 by omega)
    obtain ⟨hsound, hcontents⟩ := h.resized fresh (hfirst.2.trans hle)
    refine ⟨_, ?_, hsound, hcontents, rfl, hroom⟩
    rw [if_pos hgrow, hloop, Option.bind_eq_bind, Option.bind_some]
    rfl
  · exact ⟨b, if_neg hgrow, h, rfl, rfl, Nat.not_lt.mp hgrow⟩

/-- An append puts the bytes at the end, if there are fewer than `2^63` then. -/
theorem bufferAppend_spec (h : b.Sound) {src : Bytes} (fresh : ℕ → UInt8)
    (hlen : b.len + src.length < 2 ^ 63) :
    ∃ b', bufferAppend b src fresh = some b' ∧ b'.Sound ∧ b'.contents = b.contents ++ src := by
  have hmod : (b.len + src.length) % sizeLimit = b.len + src.length := by
    apply Nat.mod_eq_of_lt
    unfold sizeLimit
    omega
  obtain ⟨grown, hgrown, hsound, hcontents, hsame, hroom⟩ := bufferGrow_spec h fresh hlen
  rw [← hsame] at hroom
  obtain ⟨data, hcopy, hsound', hcontents'⟩ := hsound.appended hroom
  refine ⟨_, ?_, hsound', hcontents'.trans (by rw [hcontents])⟩
  rw [bufferAppend, hmod, hgrown, Option.bind_eq_bind, Option.bind_some, hcopy, hsame, hmod]
  rfl

theorem bufferConsume_spec (h : b.Sound) (n : ℕ) :
    ∃ b', bufferConsume b n = some b' ∧ b'.Sound ∧ b'.contents = b.contents.drop n := by
  unfold bufferConsume
  by_cases hall : n ≥ b.len
  · obtain ⟨hsound, hcontents⟩ := h.cleared
    refine ⟨_, if_pos hall, hsound, ?_⟩
    rw [hcontents, List.drop_eq_nil_of_le (h.length_contents.trans_le hall)]
  · obtain ⟨data, hcopy, hsound, hcontents⟩ := h.shifted n
    refine ⟨_, ?_, hsound, hcontents⟩
    rw [if_neg hall, h.slice_contents (Nat.le_of_not_le hall), Option.bind_eq_bind, Option.bind_some, hcopy]
    rfl

end PulseDB
