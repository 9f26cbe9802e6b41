import Mathlib.Data.List.AList

/-!
# `Zccp/Lib/Pairs.lean` — lists of keys and values

A list in which a key may be repeated, and the two maps it is commonly taken for: the one that keeps
the first value of a key (`firstValue`), and the one that keeps the last (`lastValue`), which is what
assigning them to an `AList` one after the other comes to (`lookup_foldl_insert`).

Both are functions from keys, so that two lists can be compared by what they say of each key, whatever
order they are in and however often they repeat themselves. Of an `AList` the same is said through the
list of its pairs.
-/

set_option autoImplicit false

namespace Zccp.Lib

variable {κ ν : Type} [DecidableEq κ]

/-- The value of the first occurrence of a key. -/
def firstValue (pairs : List (κ × ν)) (key : κ) : Option ν :=
  (pairs.find? (·.1 = key)).map Prod.snd

/-- The value of the last. -/
def lastValue (pairs : List (κ × ν)) (key : κ) : Option ν := firstValue pairs.reverse key

@[simp] theorem firstValue_nil (key : κ) : firstValue ([] : List (κ × ν)) key = none := rfl

theorem firstValue_cons (p : κ × ν) (pairs : List (κ × ν)) (key : κ) :
    firstValue (p :: pairs) key = if p.1 = key then some p.2 else firstValue pairs key := by
  rw [firstValue, List.find?_cons]
  by_cases h : p.1 = key <;> simp [h, firstValue]

theorem firstValue_append (pairs pairs' : List (κ × ν)) (key : κ) :
    firstValue (pairs ++ pairs') key = (firstValue pairs key).or (firstValue pairs' key) := by
  rw [firstValue, List.find?_append, Option.map_or]
  rfl

@[simp] theorem lastValue_nil (key : κ) : lastValue ([] : List (κ × ν)) key = none := rfl

theorem lastValue_cons (p : κ × ν) (pairs : List (κ × ν)) (key : κ) :
    lastValue (p :: pairs) key =
      (lastValue pairs key).or (if p.1 = key then some p.2 else none) := by
  rw [lastValue, List.reverse_cons, firstValue_append, firstValue_cons]
  rfl

/-- A value that is kept is one of those in the list. -/
theorem mem_of_firstValue {pairs : List (κ × ν)} {key : κ} {value : ν}
    (h : firstValue pairs key = some value) : (key, value) ∈ pairs := by
  obtain ⟨p, hp, rfl⟩ := Option.map_eq_some_iff.mp h
  obtain rfl : p.1 = key := by simpa using List.find?_some hp
  exact List.mem_of_find?_eq_some hp

/-- A key has a value if it is in the list at all, whichever of its values is kept. -/
theorem firstValue_isSome_iff {pairs : List (κ × ν)} {key : κ} :
    (firstValue pairs key).isSome ↔ ∃ value, (key, value) ∈ pairs := by
  constructor
  · intro h
    obtain ⟨value, hvalue⟩ := Option.isSome_iff_exists.mp h
    exact ⟨value, mem_of_firstValue hvalue⟩
  · rintro ⟨value, hmem⟩
    rw [firstValue, Option.isSome_map, List.find?_isSome]
    exact ⟨_, hmem, by simp⟩

theorem lastValue_isSome_iff {pairs : List (κ × ν)} {key : κ} :
    (lastValue pairs key).isSome ↔ ∃ value, (key, value) ∈ pairs := by
  rw [lastValue, firstValue_isSome_iff]
  simp only [List.mem_reverse]

/-- Keys that are renamed one by one, and values that are changed. Renaming need only be injective where
the key in question is concerned. -/
theorem firstValue_map {κ' ν' : Type} [DecidableEq κ'] (f : κ → κ') (g : ν → ν')
    (pairs : List (κ × ν)) (key : κ) (h : ∀ p ∈ pairs, f p.1 = f key → p.1 = key) :
    firstValue (pairs.map fun p => (f p.1, g p.2)) (f key) = (firstValue pairs key).map g := by
  induction pairs with
  | nil => rfl
  | cons p pairs ih =>
    obtain ⟨hp, hpairs⟩ := List.forall_mem_cons.mp h
    rw [List.map_cons, firstValue_cons, firstValue_cons, ih hpairs]
    by_cases hkey : p.1 = key
    · simp [hkey]
    · have hkey' : ¬ f p.1 = f key := fun heq => hkey (hp heq)
      simp [hkey, hkey']

theorem lastValue_map {κ' ν' : Type} [DecidableEq κ'] (f : κ → κ') (g : ν → ν')
    (pairs : List (κ × ν)) (key : κ) (h : ∀ p ∈ pairs, f p.1 = f key → p.1 = key) :
    lastValue (pairs.map fun p => (f p.1, g p.2)) (f key) = (lastValue pairs key).map g := by
  rw [lastValue, ← List.map_reverse]
  exact firstValue_map f g _ key fun p hp => h p (List.mem_reverse.mp hp)

/-- Where no key is repeated, the order of the pairs makes no difference. -/
theorem firstValue_eq_of_perm {pairs pairs' : List (κ × ν)} (hp : pairs.Perm pairs')
    (hnodup : (pairs.map Prod.fst).Nodup) (key : κ) : firstValue pairs key = firstValue pairs' key := by
  have hmem : ∀ {pairs : List (κ × ν)}, (pairs.map Prod.fst).Nodup → ∀ value,
      firstValue pairs key = some value ↔ (key, value) ∈ pairs := by
    intro pairs hnodup value
    refine ⟨mem_of_firstValue, fun hmem => ?_⟩
    obtain ⟨value', hvalue'⟩ := Option.isSome_iff_exists.mp (firstValue_isSome_iff.mpr ⟨value, hmem⟩)
    have heq := List.inj_on_of_nodup_map hnodup (mem_of_firstValue hvalue') hmem rfl
    rw [hvalue', (Prod.mk.inj heq).2]
  apply Option.ext
  intro value
  rw [hmem hnodup, hmem ((hp.map Prod.fst).nodup_iff.mp hnodup)]
  exact hp.mem_iff

/-- **Assigning keeps the last value**, and what was there before where there is none. The map is general,
for the induction to go through. -/
theorem lookup_foldl_insert (pairs : List (κ × ν)) (m : AList fun _ : κ => ν) (key : κ) :
    (pairs.foldl (fun m p => m.insert p.1 p.2) m).lookup key =
      (lastValue pairs key).or (m.lookup key) := by
  induction pairs generalizing m with
  | nil => rfl
  | cons p pairs ih =>
    rw [List.foldl_cons, ih, lastValue_cons, Option.or_assoc]
    congr 1
    by_cases hkey : p.1 = key
    · subst hkey
      rw [AList.lookup_insert, if_pos rfl]
      rfl
    · rw [AList.lookup_insert_ne (Ne.symm hkey), if_neg hkey]
      rfl

/-! ## An `AList` as a list of pairs -/

/-- The entries, in the order in which they are walked. -/
def toPairs (m : AList fun _ : κ => ν) : List (κ × ν) := m.entries.map fun e => (e.1, e.2)

theorem mem_toPairs {m : AList fun _ : κ => ν} {key : κ} {value : ν} :
    (key, value) ∈ toPairs m ↔ m.lookup key = some value := by
  rw [toPairs, List.mem_map]
  constructor
  · rintro ⟨e, he, heq⟩
    cases heq
    exact AList.mem_lookup_iff.mpr he
  · intro h
    exact ⟨⟨key, value⟩, AList.mem_lookup_iff.mp h, rfl⟩

theorem firstValue_toPairs (m : AList fun _ : κ => ν) (key : κ) :
    firstValue (toPairs m) key = m.lookup key := by
  cases hvalue : firstValue (toPairs m) key with
  | some value => exact (mem_toPairs.mp (mem_of_firstValue hvalue)).symm
  | none =>
    cases hlookup : m.lookup key with
    | none => rfl
    | some value =>
      have hsome := firstValue_isSome_iff.mpr ⟨value, mem_toPairs.mpr hlookup⟩
      rw [hvalue] at hsome
      cases hsome

omit [DecidableEq κ] in
/-- No key of an `AList` is repeated, and so it does not matter which value is kept. -/
theorem nodup_toPairs (m : AList fun _ : κ => ν) : ((toPairs m).map Prod.fst).Nodup := by
  rw [toPairs, List.map_map]
  exact m.nodupKeys

/-! ## What may be missing, up to a relation -/

section Missing

variable {α : Type} {r : α → α → Prop} {x y w : Option α}

theorem optionRel_refl (hr : ∀ a, r a a) (x : Option α) : Option.Rel r x x := by
  cases x with
  | none => exact .none
  | some a => exact .some (hr a)

theorem optionRel_symm (hr : ∀ {a b}, r a b → r b a) (h : Option.Rel r x y) : Option.Rel r y x := by
  cases h with
  | none => exact .none
  | some hab => exact .some (hr hab)

theorem optionRel_trans (hr : ∀ {a b c}, r a b → r b c → r a c) (h : Option.Rel r x y)
    (h' : Option.Rel r y w) : Option.Rel r x w := by
  cases h with
  | none => exact h'
  | some hab =>
    cases h' with
    | some hbc => exact .some (hr hab hbc)

theorem optionRel_map {f : α → α} (hf : ∀ a, r a (f a)) (x : Option α) :
    Option.Rel r x (x.map f) := by
  cases x with
  | none => exact .none
  | some a => exact .some (hf a)

theorem optionRel_getD {d : α} (hd : r d d) (h : Option.Rel r x y) : r (x.getD d) (y.getD d) := by
  cases h with
  | none => exact hd
  | some hab => exact hab

end Missing

end Zccp.Lib
