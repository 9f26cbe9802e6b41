import Mathlib.Data.List.TakeWhile
import Mathlib.Data.Nat.Digits.Defs

/-!
# `Zccp/Lib/Decimal.lean` — numbers as text

A number goes out as its decimal digits and comes back as `atoi` reads it: white space, a sign, and
digits up to the first byte that is none. `atoi_decimal` is that it comes back as it was.
-/

set_option autoImplicit false

namespace Zccp.Lib

def isDigit (b : UInt8) : Bool := 48 ≤ b && b ≤ 57

/-- `isspace`, in the C locale. -/
def isSpace (b : UInt8) : Bool := b = 32 || (9 ≤ b && b ≤ 13)

/-- The number that a text begins with, 0 if there is none. -/
def leadingNat (bs : List UInt8) : Nat :=
  (bs.takeWhile isDigit).foldl (fun n b => n * 10 + (b.toNat - 48)) 0

/-- `atoi`, but for what it makes of a number that is no `int`. -/
def atoi (bs : List UInt8) : Int :=
  match bs.dropWhile isSpace with
  | 45 :: bs => -leadingNat bs
  | 43 :: bs => leadingNat bs
  | bs => leadingNat bs

/-- The digits of a number, most significant first. -/
def decimalNat (n : Nat) : List UInt8 :=
  if n = 0 then [48] else (Nat.digits 10 n).reverse.map fun d => UInt8.ofNat (48 + d)

/-- `"%d"` -/
def decimal : Int → List UInt8
  | .ofNat n => decimalNat n
  | .negSucc n => 45 :: decimalNat (n + 1)

theorem toNat_digit {d : Nat} (h : d < 10) : (UInt8.ofNat (48 + d)).toNat = 48 + d := by
  rw [UInt8.toNat_ofNat']
  omega

theorem isDigit_digit {d : Nat} (h : d < 10) : isDigit (UInt8.ofNat (48 + d)) = true := by
  have hd := toNat_digit h
  rw [isDigit, Bool.and_eq_true, decide_eq_true_eq, decide_eq_true_eq, UInt8.le_iff_toNat_le,
    UInt8.le_iff_toNat_le, hd]
  constructor
  · exact Nat.le_add_right 48 d
  · show 48 + d ≤ 57
    omega

/-- A number is written with digits, and with at least one. -/
theorem isDigit_of_mem_decimalNat {n : Nat} {b : UInt8} (h : b ∈ decimalNat n) :
    isDigit b = true := by
  unfold decimalNat at h
  split at h
  · rw [List.mem_singleton.mp h]
    rfl
  · obtain ⟨d, hd, rfl⟩ := List.mem_map.mp h
    exact isDigit_digit (Nat.digits_lt_base (by decide) (List.mem_reverse.mp hd))

theorem decimalNat_ne_nil (n : Nat) : decimalNat n ≠ [] := by
  unfold decimalNat
  split
  · nofun
  · rename_i hn
    simp [Nat.digits_ne_nil_iff_ne_zero.mpr hn]

theorem foldl_digits (ds : List Nat) (h : ∀ d ∈ ds, d < 10) :
    (ds.reverse.map fun d => UInt8.ofNat (48 + d)).foldl (fun n b => n * 10 + (b.toNat - 48)) 0 =
      Nat.ofDigits 10 ds := by
  induction ds with
  | nil => rfl
  | cons d ds ih =>
    have hd := toNat_digit (h d List.mem_cons_self)
    rw [List.reverse_cons, List.map_append, List.foldl_append,
      ih fun d hd => h d (List.mem_cons_of_mem _ hd), Nat.ofDigits_cons]
    simp only [List.map_cons, List.map_nil, List.foldl_cons, List.foldl_nil, hd]
    omega

theorem leadingNat_decimalNat (n : Nat) : leadingNat (decimalNat n) = n := by
  have hall : (decimalNat n).takeWhile isDigit = decimalNat n :=
    List.takeWhile_eq_self_iff.mpr fun b hb => isDigit_of_mem_decimalNat hb
  rw [leadingNat, hall]
  unfold decimalNat
  split
  · rename_i hn
    rw [hn]
    rfl
  · rw [foldl_digits _ fun d hd => Nat.digits_lt_base (by decide) hd, Nat.ofDigits_digits]

/-- A digit is none of the bytes that `atoi` treats otherwise: a space, a sign, or the end. -/
theorem not_sign_of_isDigit {b : UInt8} (h : isDigit b = true) :
    isSpace b = false ∧ b ≠ 45 ∧ b ≠ 43 ∧ b ≠ 0 := by
  rw [isDigit, Bool.and_eq_true, decide_eq_true_eq, decide_eq_true_eq] at h
  obtain ⟨hle, -⟩ := h
  refine ⟨?_, ?_, ?_, ?_⟩
  · by_contra hspace
    rw [Bool.not_eq_false, isSpace, Bool.or_eq_true, Bool.and_eq_true] at hspace
    simp only [decide_eq_true_eq] at hspace
    rcases hspace with rfl | ⟨-, hspace⟩
    · exact absurd hle (by decide)
    · exact absurd (UInt8.le_trans hle hspace) (by decide)
  all_goals
    rintro rfl
    exact absurd hle (by decide)

/-- **The round trip.** -/
theorem atoi_decimal (i : Int) : atoi (decimal i) = i := by
  cases i with
  | ofNat n =>
    obtain ⟨b, bs, hbs⟩ := List.exists_cons_of_ne_nil (decimalNat_ne_nil n)
    have hb := isDigit_of_mem_decimalNat (n := n) (b := b) (by rw [hbs]; exact List.mem_cons_self)
    obtain ⟨hspace, hminus, hplus, -⟩ := not_sign_of_isDigit hb
    have hread := leadingNat_decimalNat n
    rw [hbs] at hread
    rw [decimal, hbs, atoi, List.dropWhile_cons_of_neg (by simp [hspace])]
    split
    · rename_i heq
      exact absurd (List.cons.inj heq).1 hminus
    · rename_i heq
      exact absurd (List.cons.inj heq).1 hplus
    · rw [hread]
      rfl
  | negSucc n =>
    show -((leadingNat (decimalNat (n + 1)) : Nat) : Int) = _
    rw [leadingNat_decimalNat]
    rfl

theorem zero_notMem_decimal (i : Int) : 0 ∉ decimal i := by
  intro h
  have hdigit : ∀ n, 0 ∉ decimalNat n := fun n hn =>
    (not_sign_of_isDigit (isDigit_of_mem_decimalNat hn)).2.2.2 rfl
  cases i with
  | ofNat n => exact hdigit n h
  | negSucc n =>
    rcases List.mem_cons.mp h with h | h
    · cases h
    · exact hdigit (n + 1) h

end Zccp.Lib
