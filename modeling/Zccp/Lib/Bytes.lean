import Mathlib.Data.List.Basic
import Mathlib.Data.Nat.Basic
import Mathlib.Tactic.Ring

/-!
# `Zccp/Lib/Bytes.lean` — numbers in network byte order

The two directions of a big-endian number of a fixed width: `bigEndian` reads it, `beBytes`
writes it. `beBytes` takes any natural number and keeps its low `k` bytes, which is what a
sequence of `(byte) ((host >> 8 * i) & 255)` stores does, so the round trip is stated modulo
`256 ^ k` and the caller supplies the bound.
-/

set_option autoImplicit false

namespace Zccp.Lib

/-- The number whose digits, most significant first, are `bs`. -/
def bigEndian (bs : List UInt8) : Nat := bs.foldl (fun acc b => acc * 256 + b.toNat) 0

/-- The low `k` bytes of `v`, most significant first. -/
def beBytes : Nat → Nat → List UInt8
  | 0, _ => []
  | k + 1, v => UInt8.ofNat (v / 256 ^ k) :: beBytes k v

@[simp] theorem beBytes_length (k v : Nat) : (beBytes k v).length = k := by
  induction k with
  | zero => rfl
  | succ k ih => simp [beBytes, ih]

theorem foldl_bigEndian (bs : List UInt8) (acc : Nat) :
    bs.foldl (fun acc b => acc * 256 + b.toNat) acc = acc * 256 ^ bs.length + bigEndian bs := by
  induction bs generalizing acc with
  | nil => simp [bigEndian]
  | cons b bs ih =>
    simp only [bigEndian, List.foldl_cons, List.length_cons, ih (acc * 256 + b.toNat),
      ih (0 * 256 + b.toNat)]
    ring

@[simp] theorem bigEndian_nil : bigEndian [] = 0 := rfl

theorem bigEndian_cons (b : UInt8) (bs : List UInt8) :
    bigEndian (b :: bs) = b.toNat * 256 ^ bs.length + bigEndian bs := by
  have h := foldl_bigEndian bs (0 * 256 + b.toNat)
  simpa [bigEndian] using h

theorem bigEndian_lt (bs : List UInt8) : bigEndian bs < 256 ^ bs.length := by
  induction bs with
  | nil => simp
  | cons b bs ih =>
    have hb : b.toNat ≤ 255 := Nat.le_of_lt_succ b.toNat_lt
    have hmul : b.toNat * 256 ^ bs.length ≤ 255 * 256 ^ bs.length := Nat.mul_le_mul_right _ hb
    rw [bigEndian_cons, List.length_cons, Nat.pow_succ]
    omega

/-- **The round trip**: what was written is read back, up to the width. -/
theorem bigEndian_beBytes (k v : Nat) : bigEndian (beBytes k v) = v % 256 ^ k := by
  induction k with
  | zero => simp [beBytes, Nat.mod_one]
  | succ k ih =>
    rw [beBytes, bigEndian_cons, ih, beBytes_length]
    have hd : (UInt8.ofNat (v / 256 ^ k)).toNat = v / 256 ^ k % 256 := by
      simp [UInt8.toNat_ofNat']
    rw [hd, Nat.pow_succ, Nat.mod_mul, Nat.mul_comm (256 ^ k), Nat.add_comm]

theorem bigEndian_beBytes_of_lt {k v : Nat} (h : v < 256 ^ k) : bigEndian (beBytes k v) = v := by
  rw [bigEndian_beBytes, Nat.mod_eq_of_lt h]

/-- The other round trip: the digits of a number are the bytes it was read from. -/
theorem beBytes_bigEndian (bs : List UInt8) : beBytes bs.length (bigEndian bs) = bs := by
  -- generalised over the leading digits, which `beBytes` ignores
  suffices h : ∀ (bs : List UInt8) (hi : Nat),
      beBytes bs.length (hi * 256 ^ bs.length + bigEndian bs) = bs by
    simpa using h bs 0
  intro bs
  induction bs with
  | nil => intro hi; rfl
  | cons b bs ih =>
    intro hi
    have hlt := bigEndian_lt bs
    have hsplit : hi * 256 ^ (bs.length + 1) + bigEndian (b :: bs)
        = (hi * 256 + b.toNat) * 256 ^ bs.length + bigEndian bs := by
      rw [bigEndian_cons, Nat.pow_succ]; ring
    have hdiv : ((hi * 256 + b.toNat) * 256 ^ bs.length + bigEndian bs) / 256 ^ bs.length
        = hi * 256 + b.toNat := by
      rw [Nat.add_comm, Nat.add_mul_div_right _ _ (Nat.pow_pos (by omega)),
        Nat.div_eq_of_lt hlt, Nat.zero_add]
    rw [List.length_cons, hsplit, beBytes, hdiv, ih]
    congr 1
    apply UInt8.toNat_inj.mp
    have := b.toNat_lt
    rw [UInt8.toNat_ofNat']
    omega

theorem beBytes_mod (k v : Nat) : beBytes k (v % 256 ^ k) = beBytes k v := by
  have h := beBytes_bigEndian (beBytes k v)
  rwa [beBytes_length, bigEndian_beBytes] at h

end Zccp.Lib
