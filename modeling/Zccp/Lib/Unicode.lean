import Mathlib.Data.List.Basic
import Mathlib.Algebra.GroupWithZero.Nat
import Mathlib.Algebra.BigOperators.Group.List.Basic

/-!
# `Zccp/Lib/Unicode.lean` — strings of characters, and two ways to measure them

A program whose strings are made of UTF-16 units writes them out in UTF-8. The one length is never
more than the other, and they are the same for ASCII only (`utf16Length_eq_iff`).
-/

set_option autoImplicit false

namespace Zccp.Lib

/-- The encoding of a string in UTF-8. -/
def utf8 (s : List Char) : List UInt8 := s.flatMap String.utf8EncodeChar

/-- How many units of UTF-16 a character takes. -/
def utf16Size (c : Char) : Nat := if c.val ≤ 0xffff then 1 else 2

def utf16Length (s : List Char) : Nat := (s.map utf16Size).sum

/-- Every character is one of the first 128. -/
def Ascii (s : List Char) : Prop := ∀ c ∈ s, c.val ≤ 0x7f

instance (s : List Char) : Decidable (Ascii s) := inferInstanceAs (Decidable (∀ c ∈ s, c.val ≤ 0x7f))

@[simp] theorem utf8_nil : utf8 [] = [] := rfl

theorem utf8_cons (c : Char) (s : List Char) : utf8 (c :: s) = String.utf8EncodeChar c ++ utf8 s :=
  List.flatMap_cons

theorem utf8_append (s t : List Char) : utf8 (s ++ t) = utf8 s ++ utf8 t := List.flatMap_append

theorem utf16Length_append (s t : List Char) :
    utf16Length (s ++ t) = utf16Length s + utf16Length t := by
  rw [utf16Length, List.map_append, List.sum_append]
  rfl

theorem ascii_append {s t : List Char} : Ascii (s ++ t) ↔ Ascii s ∧ Ascii t := List.forall_mem_append

theorem utf8_injective {s t : List Char} (h : utf8 s = utf8 t) : s = t := by
  have hencode : s.utf8Encode = t.utf8Encode := congrArg List.toByteArray h
  rw [← String.toByteArray_ofList, ← String.toByteArray_ofList] at hencode
  have hstring := congrArg String.toList (String.toByteArray_inj.mp hencode)
  rwa [String.toList_ofList, String.toList_ofList] at hstring

/-- Bytes that are the encoding of a string. -/
def IsUtf8 (bytes : List UInt8) : Prop := ∃ s, bytes = utf8 s

/-! ## The lengths -/

/-- Up to three bytes are one unit, and four are two. -/
theorem utf16Size_eq (c : Char) : utf16Size c = if c.utf8Size ≤ 3 then 1 else 2 := by
  have hiff : c.val ≤ 0xffff ↔ c.utf8Size ≤ 3 := by
    rw [Char.utf8Size]
    by_cases h₁ : c.val ≤ 0x7f <;> by_cases h₂ : c.val ≤ 0x7ff <;> by_cases h₃ : c.val ≤ 0xffff <;>
      simp [h₁, h₂, h₃]
    · exact h₃ (UInt32.le_trans h₁ (by decide))
    · exact h₃ (UInt32.le_trans h₁ (by decide))
    · exact h₃ (UInt32.le_trans h₂ (by decide))
  rw [utf16Size]
  by_cases h : c.val ≤ 0xffff
  · rw [if_pos h, if_pos (hiff.mp h)]
  · rw [if_neg h, if_neg (mt hiff.mpr h)]

theorem utf16Size_le (c : Char) : utf16Size c ≤ (String.utf8EncodeChar c).length := by
  have hpos := c.utf8Size_pos
  rw [String.length_utf8EncodeChar, utf16Size_eq]
  split <;> omega

theorem utf16Size_eq_iff (c : Char) :
    utf16Size c = (String.utf8EncodeChar c).length ↔ c.val ≤ 0x7f := by
  have hpos := c.utf8Size_pos
  rw [String.length_utf8EncodeChar, utf16Size_eq, ← Char.utf8Size_eq_one_iff]
  split <;> omega

theorem utf16Length_le (s : List Char) : utf16Length s ≤ (utf8 s).length := by
  induction s with
  | nil => exact Nat.le_refl 0
  | cons c s ih =>
    rw [utf8_cons, List.length_append]
    exact Nat.add_le_add (utf16Size_le c) ih

/-- **The lengths are the same for ASCII only.** -/
theorem utf16Length_eq_iff (s : List Char) : utf16Length s = (utf8 s).length ↔ Ascii s := by
  induction s with
  | nil => exact ⟨fun _ => nofun, fun _ => rfl⟩
  | cons c s ih =>
    have hc := utf16Size_le c
    have hs := utf16Length_le s
    rw [utf8_cons, List.length_append, Ascii, List.forall_mem_cons, ← utf16Size_eq_iff]
    show utf16Size c + utf16Length s = _ ↔ _ ∧ Ascii s
    rw [← ih]
    omega

end Zccp.Lib
