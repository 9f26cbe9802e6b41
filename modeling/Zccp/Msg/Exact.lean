import Zccp.Msg.Format

/-!
# `Zccp/Msg/Exact.lean` — the decoder as an attack surface

Everything that can be said of `zccp_msg_decode` on frames that an attacker has made up: it
accepts the format and nothing else, it does not read outside the frame, and a count of up to
2^32 - 1 does not make its dictionary loop turn more often than the frame has room for.

For the last, `getPairsCounted` is the loop with a counter of its full iterations. The measure
behind the bound is what is left of the frame: an iteration that reads a key and a value uses up
the five bytes of their lengths at least.
-/

set_option autoImplicit false

namespace Zccp

open Lib Lib.Reader

/-! ## The dictionary loop, counted -/

/-- `getPairs`, with the number of iterations that got to the end of the loop body. -/
def getPairsCounted : Nat → Zhash → List UInt8 → Nat → Except ReadError (Zhash × Nat) × Nat
  | 0, headers, _, needle => (.ok (headers, needle), 0)
  | hashSize + 1, headers, buf, needle =>
    match getString buf needle with
    | .error e => (.error e, 0)
    | .ok (key, needle) =>
      match getLongstr buf needle with
      | .error e => (.error e, 0)
      | .ok (value, needle) =>
        let (result, iterations) := getPairsCounted hashSize (headers.insert key value) buf needle
        (result, iterations + 1)

/-- Counting the iterations changes nothing about what is read. -/
theorem getPairsCounted_fst (n : Nat) (h : Zhash) (buf : List UInt8) (needle : Nat) :
    (getPairsCounted n h buf needle).1 = getPairs n h buf needle := by
  induction n generalizing h needle with
  | zero => rfl
  | succ n ih =>
    rw [getPairsCounted, getPairs]
    cases hkey : getString buf needle with
    | error e => rw [bind_error hkey]
    | ok r =>
      obtain ⟨key, needle₁⟩ := r
      rw [bind_ok hkey]
      cases hvalue : getLongstr buf needle₁ with
      | error e => simp only [hvalue, bind_error hvalue]
      | ok r =>
        obtain ⟨value, needle₂⟩ := r
        simp only [hvalue, bind_ok hvalue]
        exact ih (h.insert key value) needle₂

/-- A string behind a length of `k` bytes uses up these at least. -/
theorem sized_ok {k needle needle' : Nat} {buf : List UInt8} {s : CStr}
    (h : (do let size ← number k; let host ← octets size; pure (CStr.ofBytes host) : Reader CStr)
      buf needle = .ok (s, needle')) : needle + k ≤ needle' ∧ needle' ≤ buf.length := by
  obtain ⟨size, needle₁, hsize, htail⟩ := bind_eq_ok h
  obtain ⟨host, needle₂, hhost, hs⟩ := bind_eq_ok htail
  cases hs
  have hfirst := number_ok hsize
  have hsecond := octets_ok hhost
  omega

/-- **At least five bytes an iteration.** -/
theorem getPairsCounted_snd_le (n : Nat) (h : Zhash) (buf : List UInt8) (needle : Nat) :
    5 * (getPairsCounted n h buf needle).2 ≤ buf.length - needle := by
  induction n generalizing h needle with
  | zero => exact Nat.zero_le _
  | succ n ih =>
    rw [getPairsCounted]
    cases hkey : getString buf needle with
    | error e => exact Nat.zero_le _
    | ok r =>
      obtain ⟨key, needle₁⟩ := r
      cases hvalue : getLongstr buf needle₁ with
      | error e =>
        simp only [hvalue]
        exact Nat.zero_le _
      | ok r =>
        obtain ⟨value, needle₂⟩ := r
        simp only [hvalue]
        have hk := sized_ok (k := 1) hkey
        have hv := sized_ok (k := 4) hvalue
        have hrest := ih (h.insert key value) needle₂
        omega

/-! ## The decoder -/

/-- **The decoder is total, in bounds and exact.** Whatever the frames: no read is outside the
first of them; there is a message if and only if they are well formed; it then has the fields they
encode, a key of its headers being mapped to the value of its first occurrence; and the dictionary
loop, at whatever needle and with whatever count, completes no more iterations than a fifth of the
frame's size. -/
theorem zccpMsgDecode_exact (frames : List Frame) :
    zccpMsgDecode frames ≠ .error .wild ∧
    ((∃ m, zccpMsgDecode frames = .ok m) ↔ WellFormed frames) ∧
    (∀ m, zccpMsgDecode frames = .ok m →
      ∃ rest id fields trailing, id ≠ .unset ∧ IsFields rest id m fields ∧
        frames = ([0xAA, 0xAA, UInt8.ofNat id.code] ++ (fields ++ trailing)) :: rest) ∧
    (∀ pairs key, (Zhash.ofPairs pairs).lookup key = (pairs.find? (·.1 = key)).map Prod.snd) ∧
    (∀ frame ∈ frames.head?, ∀ needle hashSize headers,
      (getPairsCounted hashSize headers frame needle).1 = getPairs hashSize headers frame needle ∧
      5 * (getPairsCounted hashSize headers frame needle).2 ≤ frame.length) := by
  refine ⟨zccpMsgDecode_ne_wild frames, zccpMsgDecode_ok_iff frames, ?_, Zhash.lookup_ofPairs, ?_⟩
  · intro m hm
    rcases zccpMsgDecode_cases frames with ⟨rest, id, m', fields, trailing, hid, hf, hmsg, h⟩ | h |
      ⟨_, h⟩ <;> rw [h] at hm
    · obtain rfl := Except.ok.inj hm
      exact ⟨rest, id, fields, trailing, hid, hf, hmsg⟩
    · cases hm
    · cases hm
  · intro frame _ needle hashSize headers
    have hle := getPairsCounted_snd_le hashSize headers frame needle
    exact ⟨getPairsCounted_fst hashSize headers frame needle, by omega⟩

end Zccp
