import Zccp.Lib.Bytes

/-!
# `Zccp/Lib/Reader.lean` — reading a buffer through a needle

A decoder written in C walks a buffer with a pointer (the *needle*) that it compares with the
end of the buffer (the *ceiling*) before every read. `Reader` is that: the buffer, the needle's
offset, and two ways to fail that must not be confused. `malformed` is the decoder's own
verdict, the `goto` it takes when the comparison fails; `wild` is a read outside the buffer,
which no verdict covers and which a correct decoder never performs.

`Reads p fmt` is the specification a reader is proved against: `fmt a bs` says that the bytes
`bs` are an encoding of `a`, and `p` reads exactly the values that some prefix of the rest of
the buffer encodes, advances the needle over that prefix and nothing else, answers `malformed`
on every other rest, and never reads wild. The rules below build it along the reader's own
`do` block, so that a format is proved the way its decoder is written.
-/

set_option autoImplicit false

namespace Zccp.Lib

/-- The two ways in which a read does not produce a value. -/
inductive ReadError
  | malformed
  | wild
deriving DecidableEq, Repr

/-- A reader of `α`: from the buffer and the needle's offset to a value and the new offset. -/
def Reader (α : Type) : Type := List UInt8 → Nat → Except ReadError (α × Nat)

namespace Reader

variable {α β : Type}

instance : Monad Reader where
  pure a := fun _ n => .ok (a, n)
  bind p f := fun buf n =>
    match p buf n with
    | .ok (a, n') => f a buf n'
    | .error e => .error e

theorem pure_apply (a : α) (buf : List UInt8) (n : Nat) :
    (pure a : Reader α) buf n = .ok (a, n) := rfl

theorem bind_ok {p : Reader α} {f : α → Reader β} {buf : List UInt8} {n n' : Nat} {a : α}
    (h : p buf n = .ok (a, n')) : (p >>= f) buf n = f a buf n' := by
  show (match p buf n with | .ok (a, n') => f a buf n' | .error e => .error e) = _
  rw [h]

theorem bind_error {p : Reader α} {f : α → Reader β} {buf : List UInt8} {n : Nat}
    {e : ReadError} (h : p buf n = .error e) : (p >>= f) buf n = .error e := by
  show (match p buf n with | .ok (a, n') => f a buf n' | .error e => .error e) = _
  rw [h]

instance : LawfulMonad Reader := by
  refine LawfulMonad.mk' Reader ?_ (fun _ _ => rfl) ?_
  · intro α p
    funext buf n
    show (match p buf n with | .ok (a, n') => _ | .error e => _) = _
    cases p buf n <;> rfl
  · intro α β γ p f g
    funext buf n
    show (match (match p buf n with | .ok (a, n') => f a buf n' | .error e => _) with
      | .ok (b, n') => g b buf n' | .error e => _) =
        (match p buf n with | .ok (a, n') => (f a >>= g) buf n' | .error e => _)
    cases p buf n <;> rfl

theorem map_apply (f : α → β) (p : Reader α) (buf : List UInt8) (n : Nat) :
    (f <$> p) buf n = (p buf n).map fun r => (f r.1, r.2) := by
  show (match p buf n with | .ok (a, n') => _ | .error e => _) = _
  cases p buf n <;> rfl

/-- A sequence that has been read to its end was read in two parts. -/
theorem bind_eq_ok {p : Reader α} {f : α → Reader β} {buf : List UInt8} {n : Nat} {r : β × Nat}
    (h : (p >>= f) buf n = .ok r) : ∃ a n', p buf n = .ok (a, n') ∧ f a buf n' = .ok r := by
  cases hp : p buf n with
  | error e =>
    rw [bind_error hp] at h
    cases h
  | ok r' =>
    obtain ⟨a, n'⟩ := r'
    rw [bind_ok hp] at h
    exact ⟨a, n', rfl, h⟩

theorem bind_eq_ok_iff {p : Reader α} {f : α → Reader β} {buf : List UInt8} {n : Nat} {r : β × Nat} :
    (p >>= f) buf n = .ok r ↔ ∃ a n', p buf n = .ok (a, n') ∧ f a buf n' = .ok r := by
  refine ⟨bind_eq_ok, ?_⟩
  rintro ⟨a, n', hp, hf⟩
  rw [bind_ok hp, hf]

/-- The comparison with the ceiling: `if (needle + size > ceiling) goto malformed`. -/
def need (size : Nat) : Reader Unit := fun buf n =>
  if n + size > buf.length then .error .malformed else .ok ((), n)

/-- The copy itself, which does not compare: it is wild when it leaves the buffer. -/
def copy (size : Nat) : Reader (List UInt8) := fun buf n =>
  if n + size ≤ buf.length then .ok ((buf.drop n).take size, n + size) else .error .wild

/-- A block of octets, checked first. -/
def octets (size : Nat) : Reader (List UInt8) := do
  need size
  copy size

/-- A number of `size` octets in network byte order. -/
def number (size : Nat) : Reader Nat := do
  let bs ← octets size
  pure (bigEndian bs)

/-! ## What it is to read a format -/

/-- `p` reads the format `fmt`, at every needle and in every buffer. -/
structure Reads (p : Reader α) (fmt : α → List UInt8 → Prop) : Prop where
  /-- An encoding at the needle is read, and the needle ends behind it. -/
  complete : ∀ (pre bs rest : List UInt8) {a : α}, fmt a bs →
    p (pre ++ (bs ++ rest)) pre.length = .ok (a, (pre ++ bs).length)
  /-- Whatever is at the needle, either an encoding is there and was read, or the verdict is
  `malformed`; in particular the read is never wild. -/
  sound : ∀ (pre tail : List UInt8),
    (∃ a bs rest, fmt a bs ∧ tail = bs ++ rest ∧
      p (pre ++ tail) pre.length = .ok (a, (pre ++ bs).length)) ∨
    p (pre ++ tail) pre.length = .error .malformed

theorem Reads.congr {p : Reader α} {f g : α → List UInt8 → Prop} (h : Reads p f)
    (hfg : ∀ a bs, f a bs ↔ g a bs) : Reads p g where
  complete pre bs rest _ hg := h.complete pre bs rest ((hfg _ _).mpr hg)
  sound pre tail := by
    rcases h.sound pre tail with ⟨a, bs, rest, hf, ht, hp⟩ | hm
    · exact Or.inl ⟨a, bs, rest, (hfg _ _).mp hf, ht, hp⟩
    · exact Or.inr hm

theorem reads_pure (a : α) : Reads (pure a : Reader α) fun b bs => b = a ∧ bs = [] where
  complete := by
    rintro pre bs rest b ⟨rfl, rfl⟩
    simp [pure_apply]
  sound pre tail := Or.inl ⟨a, [], tail, ⟨rfl, rfl⟩, rfl, by simp [pure_apply]⟩

/-- Two readers in sequence read the two formats in sequence. The second format may depend on
the value of the first, as a string depends on its length. -/
theorem Reads.bind {p : Reader α} {q : α → Reader β} {f : α → List UInt8 → Prop}
    {g : α → β → List UInt8 → Prop} (hp : Reads p f) (hq : ∀ a, Reads (q a) (g a)) :
    Reads (p >>= q) fun b bs => ∃ a bs₁ bs₂, bs = bs₁ ++ bs₂ ∧ f a bs₁ ∧ g a b bs₂ where
  complete := by
    rintro pre bs rest b ⟨a, bs₁, bs₂, rfl, hf, hg⟩
    have h₁ := hp.complete pre bs₁ (bs₂ ++ rest) hf
    have h₂ := (hq a).complete (pre ++ bs₁) bs₂ rest hg
    simp only [List.append_assoc] at h₁ h₂ ⊢
    rw [bind_ok h₁, h₂]
  sound pre tail := by
    rcases hp.sound pre tail with ⟨a, bs₁, rest, hf, rfl, h₁⟩ | hm
    · rw [bind_ok h₁]
      have h₂ := (hq a).sound (pre ++ bs₁) rest
      rcases h₂ with ⟨b, bs₂, rest', hg, rfl, h₂⟩ | hm
      · refine Or.inl ⟨b, bs₁ ++ bs₂, rest', ⟨a, bs₁, bs₂, rfl, hf, hg⟩, ?_, ?_⟩
        · simp
        · simpa using h₂
      · exact Or.inr (by simpa using hm)
    · exact Or.inr (bind_error hm)

section Verdicts

variable {p : Reader α} {fmt : α → List UInt8 → Prop} (h : Reads p fmt) (pre tail : List UInt8)

include h

/-- **What is read** is an encoding at the needle. -/
theorem Reads.ok_iff {a : α} {n : Nat} :
    p (pre ++ tail) pre.length = .ok (a, n) ↔
      ∃ bs rest, fmt a bs ∧ tail = bs ++ rest ∧ n = (pre ++ bs).length := by
  constructor
  · intro hp
    rcases h.sound pre tail with ⟨a', bs, rest, hf, ht, hp'⟩ | hm
    · rw [hp'] at hp
      cases hp
      exact ⟨bs, rest, hf, ht, rfl⟩
    · rw [hm] at hp
      cases hp
  · rintro ⟨bs, rest, hf, rfl, rfl⟩
    exact h.complete pre bs rest hf

/-- **What is not read** is no encoding of anything. -/
theorem Reads.error_iff :
    (∃ e, p (pre ++ tail) pre.length = .error e) ↔ ∀ a bs rest, fmt a bs → tail ≠ bs ++ rest := by
  constructor
  · rintro ⟨e, he⟩ a bs rest hf rfl
    rw [h.complete pre bs rest hf] at he
    cases he
  · intro hnone
    rcases h.sound pre tail with ⟨a, bs, rest, hf, ht, -⟩ | hm
    · exact absurd ht (hnone a bs rest hf)
    · exact ⟨_, hm⟩

end Verdicts

/-- Post-processing a value changes the format only in the value. -/
theorem Reads.bindPure {p : Reader α} {f : α → List UInt8 → Prop} (hp : Reads p f)
    (h : α → β) : Reads (p >>= fun a => pure (h a)) fun b bs => ∃ a, b = h a ∧ f a bs :=
  (hp.bind fun a => reads_pure (h a)).congr fun b bs => by
    constructor
    · rintro ⟨a, bs₁, bs₂, rfl, hf, rfl, rfl⟩
      exact ⟨a, rfl, by simpa using hf⟩
    · rintro ⟨a, rfl, hf⟩
      exact ⟨a, bs, [], by simp, hf, rfl, rfl⟩

/-! A fixed number of values, one behind the other. -/

section Repeated

variable {P : α → Prop} {encode : α → List UInt8}

theorem reads_nil : Reads (pure [] : Reader (List α)) fun as bs =>
    as.length = 0 ∧ (∀ a ∈ as, P a) ∧ bs = as.flatMap encode :=
  (reads_pure []).congr fun as bs => by
    constructor
    · rintro ⟨rfl, rfl⟩
      exact ⟨rfl, List.forall_mem_nil _, rfl⟩
    · rintro ⟨hl, -, rfl⟩
      obtain rfl := List.length_eq_zero_iff.mp hl
      exact ⟨rfl, rfl⟩

theorem Reads.cons {p : Reader α} {q : Reader (List α)} {n : Nat}
    (hp : Reads p fun a bs => P a ∧ bs = encode a)
    (hq : Reads q fun as bs => as.length = n ∧ (∀ a ∈ as, P a) ∧ bs = as.flatMap encode) :
    Reads (p >>= fun a => q >>= fun as => pure (a :: as)) fun as bs =>
      as.length = n + 1 ∧ (∀ a ∈ as, P a) ∧ bs = as.flatMap encode :=
  (hp.bind fun a => hq.bindPure (a :: ·)).congr fun as bs => by
    constructor
    · rintro ⟨a, _, _, rfl, ⟨ha, rfl⟩, as, rfl, rfl, has, rfl⟩
      exact ⟨rfl, List.forall_mem_cons.mpr ⟨ha, has⟩, rfl⟩
    · rintro ⟨hl, has, rfl⟩
      obtain ⟨a, as, rfl⟩ := List.exists_cons_of_length_eq_add_one hl
      obtain ⟨ha, has⟩ := List.forall_mem_cons.mp has
      exact ⟨a, _, _, rfl, ⟨ha, rfl⟩, as, rfl, Nat.succ.inj hl, has, rfl⟩

end Repeated

theorem octets_apply (size : Nat) (buf : List UInt8) (n : Nat) :
    octets size buf n =
      if n + size ≤ buf.length then .ok ((buf.drop n).take size, n + size)
      else .error .malformed := by
  unfold octets
  by_cases h : n + size ≤ buf.length
  · have hn : need size buf n = .ok ((), n) := if_neg (Nat.not_lt.mpr h)
    rw [bind_ok hn, if_pos h]
    exact if_pos h
  · have hn : need size buf n = .error .malformed := if_pos (Nat.lt_of_not_le h)
    rw [bind_error hn, if_neg h]

theorem octets_ok {size n n' : Nat} {buf bs : List UInt8} (h : octets size buf n = .ok (bs, n')) :
    n' = n + size ∧ n' ≤ buf.length := by
  rw [octets_apply] at h
  split at h
  · cases h
    exact ⟨rfl, by assumption⟩
  · cases h

theorem octets_length {size n n' : Nat} {buf bs : List UInt8}
    (h : octets size buf n = .ok (bs, n')) : bs.length = size := by
  rw [octets_apply] at h
  split at h
  · rename_i hle
    cases h
    rw [List.length_take_of_le]
    rw [List.length_drop]
    omega
  · cases h

theorem number_ok {size n n' v : Nat} {buf : List UInt8} (h : number size buf n = .ok (v, n')) :
    n' = n + size ∧ n' ≤ buf.length := by
  obtain ⟨bs, n₁, hbs, hv⟩ := bind_eq_ok h
  cases hv
  exact octets_ok hbs

theorem number_lt {size n n' v : Nat} {buf : List UInt8} (h : number size buf n = .ok (v, n')) :
    v < 256 ^ size := by
  obtain ⟨bs, n₁, hbs, hv⟩ := bind_eq_ok h
  cases hv
  rw [← octets_length hbs]
  exact bigEndian_lt bs

/-- `octets` takes as many bytes as it is told, whatever they are, or fails where fewer are left. -/
theorem reads_octets (size : Nat) :
    Reads (octets size) fun a bs => a = bs ∧ bs.length = size where
  complete := by
    rintro pre bs rest a ⟨rfl, rfl⟩
    rw [octets_apply, if_pos (by simp)]
    simp
  sound pre tail := by
    by_cases h : size ≤ tail.length
    · refine Or.inl ⟨tail.take size, tail.take size, tail.drop size, ⟨rfl, by simp [h]⟩,
        (List.take_append_drop size tail).symm, ?_⟩
      rw [octets_apply, if_pos (by simp; omega)]
      simp [h]
    · refine Or.inr ?_
      rw [octets_apply, if_neg (by simp; omega)]

theorem reads_number (size : Nat) :
    Reads (number size) fun v bs => v = bigEndian bs ∧ bs.length = size :=
  ((reads_octets size).bindPure bigEndian).congr fun v bs => by
    constructor
    · rintro ⟨a, rfl, rfl, rfl⟩; exact ⟨rfl, rfl⟩
    · rintro ⟨rfl, rfl⟩; exact ⟨bs, rfl, rfl, rfl⟩

/-! ## Readers that compare before they copy -/

/-- It leaves no buffer, wherever the needle is. -/
def Tame (p : Reader α) : Prop := ∀ buf n, p buf n ≠ .error .wild

theorem tame_pure (a : α) : Tame (pure a : Reader α) := by
  intro buf n h
  cases h

theorem Tame.bind {p : Reader α} {f : α → Reader β} (hp : Tame p) (hf : ∀ a, Tame (f a)) :
    Tame (p >>= f) := by
  intro buf n h
  cases hr : p buf n with
  | error e =>
    rw [bind_error hr] at h
    cases h
    exact hp buf n hr
  | ok r =>
    obtain ⟨a, n'⟩ := r
    rw [bind_ok hr] at h
    exact hf a buf n' h

theorem tame_octets (size : Nat) : Tame (octets size) := by
  intro buf n h
  rw [octets_apply] at h
  split at h <;> cases h

theorem tame_number (size : Nat) : Tame (number size) :=
  (tame_octets size).bind fun bs => tame_pure (bigEndian bs)

end Reader

end Zccp.Lib
