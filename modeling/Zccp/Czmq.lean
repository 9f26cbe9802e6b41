import Mathlib.Data.List.Basic
import Mathlib.Data.List.Infix
import Mathlib.Data.List.Nodup
import Mathlib.Data.List.TakeWhile

/-!
# `Zccp/Czmq.lean` — what the code takes from C and from CZMQ

The broker and its clients are written on CZMQ, which is not part of the repository. This file
holds the little of it that the code relies on, in three kinds:

* **types with a fixed meaning**: a C string (`CStr`, the bytes before the NUL, so that a NUL
  inside cannot be written down), a frame, a dictionary (`Zhash`, with its one invariant, that a
  key occurs once), and the hexadecimal printing of a frame that the server uses as a hash key;
* **functions with a fixed meaning**: `zhash_insert`, which refuses a key it has, and
  `zframe_strhex`, which loses nothing (`zframeStrhex_injective`);
* **functions left open**: the regular expressions, the formatter and the connecting of sockets,
  collected in `Czmq`, over which everything else is parametric.
-/

set_option autoImplicit false

namespace Zccp

/-- A frame of a multipart message. -/
abbrev Frame : Type := List UInt8

/-! ## C strings -/

/-- A C string: the bytes before its terminating NUL. -/
@[ext] structure CStr where
  bytes : List UInt8
  nulFree : (0 : UInt8) ∉ bytes
deriving DecidableEq

namespace CStr

/-- What C reads from a NUL-terminated copy of `bs`: the bytes up to the first NUL. -/
def ofBytes (bs : List UInt8) : CStr where
  bytes := bs.takeWhile (· ≠ 0)
  nulFree h := by simpa using List.mem_takeWhile_imp h

def strlen (s : CStr) : Nat := s.bytes.length

/-- `""` -/
def empty : CStr := { bytes := [], nulFree := by simp }

/-- Copying a C string out of its own bytes gives it back. -/
@[simp] theorem ofBytes_bytes (s : CStr) : ofBytes s.bytes = s := by
  ext1
  simp only [ofBytes]
  rw [List.takeWhile_eq_self_iff]
  intro b hb
  have : b ≠ 0 := fun h => s.nulFree (h ▸ hb)
  simpa using this

end CStr

/-! ## Dictionaries -/

/-- A `zhash_t` of strings. The items stand in the order in which the hash is walked, which CZMQ
leaves unspecified; no result below depends on it. -/
structure Zhash where
  items : List (CStr × CStr)
  nodup : (items.map Prod.fst).Nodup
deriving DecidableEq

namespace Zhash

/-- `zhash_new` -/
def empty : Zhash := { items := [], nodup := by simp }

/-- `zhash_lookup` -/
def lookup (h : Zhash) (key : CStr) : Option CStr :=
  (h.items.find? (·.1 = key)).map Prod.snd

/-- `zhash_insert`: a key that is present already keeps its value. -/
def insert (h : Zhash) (key value : CStr) : Zhash :=
  if hk : key ∈ h.items.map Prod.fst then h
  else
    { items := h.items ++ [(key, value)]
      nodup := by
        rw [List.map_append, List.nodup_append]
        refine ⟨h.nodup, by simp, ?_⟩
        rintro a ha b hb rfl
        simp only [List.map_cons, List.map_nil, List.mem_singleton] at hb
        exact hk (hb ▸ ha) }

/-- A dictionary that may be `NULL`, as a map. -/
def get? (h : Option Zhash) (key : CStr) : Option CStr := h.bind (·.lookup key)

theorem lookup_eq_some_of_mem {h : Zhash} {key value : CStr} (hm : (key, value) ∈ h.items) :
    ∃ v, h.lookup key = some v := by
  cases hf : h.items.find? (·.1 = key) with
  | none =>
    rw [List.find?_eq_none] at hf
    exact absurd (hf _ hm) (by simp)
  | some p => exact ⟨p.2, by simp [lookup, hf]⟩

/-- A key occurs once, so what is found under it is what is there. -/
theorem lookup_eq_some_iff {h : Zhash} {key value : CStr} :
    h.lookup key = some value ↔ (key, value) ∈ h.items := by
  rw [lookup, Option.map_eq_some_iff]
  constructor
  · rintro ⟨⟨key', value'⟩, hfind, rfl⟩
    obtain rfl : key' = key := by simpa using List.find?_some hfind
    exact List.mem_of_find?_eq_some hfind
  · intro hm
    cases hf : h.items.find? (·.1 = key) with
    | none => exact absurd (List.find?_eq_none.mp hf _ hm) (by simp)
    | some p =>
      have hkey : p.1 = key := by simpa using List.find?_some hf
      have hp := List.inj_on_of_nodup_map h.nodup (List.mem_of_find?_eq_some hf) hm hkey
      exact ⟨p, rfl, by rw [hp]⟩

theorem lookup_insert (h : Zhash) (key value k : CStr) :
    (h.insert key value).lookup k = (h.lookup k).or (if key = k then some value else none) := by
  unfold insert
  split
  · case isTrue hk =>
    -- the key is there already, so whatever is looked up is found or not as before
    obtain ⟨⟨key', v⟩, hm, rfl⟩ := List.mem_map.mp hk
    obtain ⟨v', hv'⟩ := lookup_eq_some_of_mem hm
    by_cases hkk : key' = k
    · rw [← hkk, hv', Option.some_or]
    · rw [if_neg hkk, Option.or_none]
  · case isFalse hk =>
    simp only [lookup, List.find?_append, Option.map_or]
    by_cases hkk : key = k <;> simp [hkk]

/-- The order of the walk makes no difference to what is found. -/
theorem lookup_eq_of_perm {h h' : Zhash} (hp : h.items.Perm h'.items) (key : CStr) :
    h.lookup key = h'.lookup key := by
  apply Option.ext
  intro value
  rw [lookup_eq_some_iff, lookup_eq_some_iff]
  exact hp.mem_iff

end Zhash

/-! ## Hash keys -/

/-- One hexadecimal digit, in upper case. -/
def hexChar (n : Nat) : UInt8 := if n < 10 then UInt8.ofNat (48 + n) else UInt8.ofNat (55 + n)

/-- `zframe_strhex`: two digits a byte. -/
def zframeStrhex (frame : Frame) : CStr where
  bytes := frame.flatMap fun b => [hexChar (b.toNat / 16), hexChar (b.toNat % 16)]
  nulFree := by
    have hne : ∀ n < 16, hexChar n ≠ 0 := by decide
    intro h
    obtain ⟨b, -, hb⟩ := List.mem_flatMap.mp h
    have hlt : b.toNat < 256 := b.toNat_lt
    rcases List.mem_cons.mp hb with h0 | hb
    · exact hne _ (by omega) h0.symm
    · exact hne _ (by omega) (List.mem_singleton.mp hb).symm

theorem hexChar_inj {m n : Nat} (hm : m < 16) (hn : n < 16) (h : hexChar m = hexChar n) :
    m = n := by
  have hall : ∀ m < 16, ∀ n < 16, hexChar m = hexChar n → m = n := by decide
  exact hall m hm n hn h

/-- **The key loses nothing**: two routing ids with the same hash key are the same. -/
theorem zframeStrhex_injective {f g : Frame} (h : zframeStrhex f = zframeStrhex g) : f = g := by
  have hb : (zframeStrhex f).bytes = (zframeStrhex g).bytes := by rw [h]
  simp only [zframeStrhex] at hb
  clear h
  induction f generalizing g with
  | nil =>
    cases g with
    | nil => rfl
    | cons => simp at hb
  | cons b f ih =>
    cases g with
    | nil => simp at hb
    | cons c g =>
      simp only [List.flatMap_cons, List.cons_append, List.nil_append, List.cons.injEq] at hb
      obtain ⟨h1, h2, h3⟩ := hb
      have hlb : b.toNat < 256 := b.toNat_lt
      have hlc : c.toNat < 256 := c.toNat_lt
      have e1 := hexChar_inj (by omega) (by omega) h1
      have e2 := hexChar_inj (by omega) (by omega) h2
      have hbc : b = c := UInt8.toNat_inj.mp (by omega)
      rw [hbc, ih h3]

@[simp] theorem zframeStrhex_inj {f g : Frame} : zframeStrhex f = zframeStrhex g ↔ f = g :=
  ⟨zframeStrhex_injective, fun h => h ▸ rfl⟩

/-! ## Regular expressions and formatting -/

/-- A compiled expression. `zrex_new` answers an object also for an expression that does not
compile; `zrex_valid` tells the two apart. -/
structure Zrex where
  expression : CStr
  valid : Bool
deriving DecidableEq

/-- The functions of CZMQ whose behaviour the code does not depend on. -/
structure Czmq where
  /-- `zrex_new`; `none` is `NULL`. -/
  zrexNew : CStr → Option Zrex
  /-- `zrex_matches` -/
  zrexMatches : Zrex → CStr → Bool
  /-- `zsys_vprintf` with a format and no arguments. -/
  zsysVprintf : CStr → CStr
  /-- Whether `zsock_connect` accepts an endpoint. -/
  zsockConnect : CStr → Bool

/-- Whether a pattern on `expression` would match `address`. -/
def Czmq.matches (z : Czmq) (expression address : CStr) : Bool :=
  (z.zrexNew expression).any (z.zrexMatches · address)

/-- Printing a format with no arguments: a double percent sign comes out as one. A single one asks
for an argument that is not there, and what comes out then is left open (`none`). -/
def unpercent : List UInt8 → Option (List UInt8)
  | [] => some []
  | [b] => if b = 37 then none else some [b]
  | b :: b' :: bs =>
    if b = 37 then
      if b' = 37 then (unpercent bs).map (37 :: ·) else none
    else (unpercent (b' :: bs)).map (b :: ·)

/-- **What is assumed of `zsys_vprintf`**, where anything is. -/
def Printf (vprintf : CStr → CStr) : Prop :=
  ∀ format text : CStr, unpercent format.bytes = some text.bytes → vprintf format = text

theorem unpercent_of_not_mem {bs : List UInt8} (h : 37 ∉ bs) : unpercent bs = some bs := by
  induction bs using unpercent.induct with
  | case1 => rfl
  | case2 => exact absurd (by simp) h
  | case3 b hb => simp [unpercent, hb]
  | case4 => exact absurd (by simp) h
  | case5 => exact absurd (by simp) h
  | case6 b b' bs hb ih =>
    rw [unpercent, if_neg hb, ih fun hm => h (List.mem_cons_of_mem _ hm), Option.map_some]

/-- A percent sign makes the text shorter than its format. -/
theorem length_of_unpercent {bs bs' : List UInt8} (h : unpercent bs = some bs') :
    bs'.length ≤ bs.length ∧ (37 ∈ bs → bs'.length < bs.length) := by
  induction bs using unpercent.induct generalizing bs' with
  | case1 =>
    rw [unpercent, Option.some.injEq] at h
    simp [← h]
  | case2 => simp [unpercent] at h
  | case3 b hb =>
    rw [unpercent, if_neg hb, Option.some.injEq] at h
    simp [← h, Ne.symm hb]
  | case4 bs ih =>
    rw [unpercent, if_pos rfl, if_pos rfl, Option.map_eq_some_iff] at h
    obtain ⟨t, ht, rfl⟩ := h
    have := (ih ht).1
    simp only [List.length_cons]
    omega
  | case5 b' bs hb' => simp [unpercent, hb'] at h
  | case6 b b' bs hb ih =>
    rw [unpercent, if_neg hb, Option.map_eq_some_iff] at h
    obtain ⟨t, ht, rfl⟩ := h
    obtain ⟨hle, hlt⟩ := ih ht
    refine ⟨Nat.succ_le_succ hle, fun hm => Nat.succ_lt_succ (hlt ?_)⟩
    exact (List.mem_cons.mp hm).resolve_left (Ne.symm hb)

/-- A `zsys_vprintf` that prints nothing where it may print anything. -/
def strictPrintf (format : CStr) : CStr := .ofBytes ((unpercent format.bytes).getD [])

theorem strictPrintf_printf : Printf strictPrintf := by
  intro format text h
  rw [strictPrintf, h, Option.getD_some, CStr.ofBytes_bytes]

/-- It never prints more than the format has, and a format with a percent sign it never prints as it is: each
pair of them becomes one, or nothing is printed at all. -/
theorem strictPrintf_length (format : CStr) :
    (strictPrintf format).strlen ≤ format.strlen ∧
      (37 ∈ format.bytes → strictPrintf format ≠ format) := by
  have htake : (strictPrintf format).strlen ≤ ((unpercent format.bytes).getD []).length :=
    (List.takeWhile_sublist _).length_le
  cases h : unpercent format.bytes with
  | none =>
    rw [h, Option.getD_none, List.length_nil] at htake
    refine ⟨by omega, fun hm he => ?_⟩
    rw [he, CStr.strlen] at htake
    have := List.length_pos_of_mem hm
    omega
  | some bs =>
    rw [h, Option.getD_some] at htake
    obtain ⟨hle, hlt⟩ := length_of_unpercent h
    refine ⟨Nat.le_trans htake hle, fun hm he => ?_⟩
    have := hlt hm
    rw [he, CStr.strlen] at htake
    omega

/-- The same functions, but for the formatter. -/
def Czmq.printing (z : Czmq) (vprintf : CStr → CStr) : Czmq := { z with zsysVprintf := vprintf }

/-- The functions as they are on expressions without metacharacters, which match where they occur,
on formats without percent signs and on endpoints that can be connected to. -/
def Czmq.literal : Czmq where
  zrexNew e := some { expression := e, valid := true }
  zrexMatches rex s := decide (rex.expression.bytes <:+: s.bytes)
  zsysVprintf format := format
  zsockConnect _ := true

end Zccp
