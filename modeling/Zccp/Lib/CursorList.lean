import Mathlib.Data.List.Basic
import Mathlib.Data.List.Nodup

/-!
# `Zccp/Lib/CursorList.lean` — lists that carry their own cursor

A list whose iteration state lives in the list itself: `first` and `next` move one embedded
cursor, `append` forgets it, `remove` may move it. A loop

    for (x = first (l); x; x = next (l)) body (x)

is therefore only a loop over the items of `l` as long as `body` leaves that one cursor where it
found it, and nothing in the loop says so. `walk` is the loop taken literally, over a list that
sits somewhere inside a larger state the body may change at will, with a fuel argument because
a body that moves the cursor back never ends it. `walk_spec` is the rule that turns it into an
induction over positions, and its hypothesis is the missing sentence: the body returns with the
cursor where it was. `seek` is the loop that stops early at the first node of a kind.

A node is named by its position. That is a faithful name for a pointer to a node for as long as
no earlier node is removed, which is the reason `remove` shifts the cursor.
-/

set_option autoImplicit false

namespace Zccp.Lib

/-- A list and the position of its cursor; `none` is the null cursor. -/
structure CursorList (α : Type) where
  items : List α
  cursor : Option Nat
deriving DecidableEq, Repr

namespace CursorList

variable {α : Type}

/-- A fresh list: no items, null cursor. -/
def empty : CursorList α := { items := [], cursor := none }

/-- Move the cursor to the first node, if there is one. -/
def first (l : CursorList α) : CursorList α :=
  { l with cursor := if l.items.isEmpty then none else some 0 }

/-- Move the cursor one node on. A null cursor starts over at the first node. -/
def next (l : CursorList α) : CursorList α :=
  match l.cursor with
  | none => l.first
  | some i => { l with cursor := if i + 1 < l.items.length then some (i + 1) else none }

/-- Append an item and forget the cursor. -/
def append (l : CursorList α) (x : α) : CursorList α :=
  { items := l.items ++ [x], cursor := none }

/-- Unlink the first node whose item is `p`, if there is one. A cursor on that node steps back to
the node before it, or becomes null when there is none. -/
def remove (l : CursorList α) (p : α → Bool) : CursorList α :=
  match l.items.findIdx? p with
  | none => l
  | some k =>
    { items := l.items.eraseIdx k
      cursor :=
        match l.cursor with
        | none => none
        | some i => if i < k then some i else if i = 0 then none else some (i - 1) }

@[simp] theorem first_items (l : CursorList α) : l.first.items = l.items := rfl

@[simp] theorem next_items (l : CursorList α) : l.next.items = l.items := by
  unfold next; split <;> rfl

theorem first_cursor_of_ne_nil {l : CursorList α} (h : 0 < l.items.length) :
    l.first.cursor = some 0 := by
  have : l.items.isEmpty = false := by
    cases hl : l.items with
    | nil => rw [hl] at h; simp at h
    | cons => rfl
  simp [first, this]

theorem first_cursor_of_nil {l : CursorList α} (h : l.items = []) : l.first.cursor = none := by
  simp [first, h]

theorem next_cursor {l : CursorList α} {i : Nat} (h : l.cursor = some i) :
    l.next.cursor = if i + 1 < l.items.length then some (i + 1) else none := by
  simp [next, h]

@[simp] theorem append_items (l : CursorList α) (x : α) :
    (l.append x).items = l.items ++ [x] := rfl

@[simp] theorem empty_items : (empty : CursorList α).items = [] := rfl

theorem remove_of_forall_not {l : CursorList α} {p : α → Bool}
    (h : ∀ x ∈ l.items, p x = false) : l.remove p = l := by
  have : l.items.findIdx? p = none := by
    rw [List.findIdx?_eq_none_iff]; exact h
  simp [remove, this]

/-- Removal from a list without repetitions is a filter, when the predicate picks out one item. -/
theorem remove_items_eq_filter [DecidableEq α] {l : CursorList α} (hn : l.items.Nodup) (a : α) :
    (l.remove (· = a)).items = l.items.filter (· ≠ a) := by
  by_cases ha : a ∈ l.items
  · cases hk : l.items.findIdx? (fun x => decide (x = a)) with
    | none =>
      rw [List.findIdx?_eq_none_iff] at hk
      exact absurd (hk a ha) (by simp)
    | some k =>
      have hidx : l.items.idxOf? a = some k := by
        rw [List.idxOf?, ← hk]; congr 1
      have herase : l.items.eraseIdx k = l.items.erase a := by
        rw [List.erase_eq_eraseIdx, hidx]
      simp only [remove, hk, herase, hn.erase_eq_filter]
      congr 1
      funext x
      by_cases hx : x = a <;> simp [hx]
  · rw [remove_of_forall_not (fun x hx => by
      simp only [decide_eq_false_iff_not]; rintro rfl; exact ha hx)]
    symm
    rw [List.filter_eq_self]
    intro x hx
    simp only [ne_eq, decide_not, Bool.not_eq_eq_eq_not, Bool.not_true, decide_eq_false_iff_not]
    rintro rfl
    exact ha hx

/-! ## The loop -/

section Walk

variable {σ : Type} (get : σ → CursorList α) (set : CursorList α → σ → σ)

/-- `while (cursor) { body (node at the cursor); next }`: the loop of a `for` over the list that
`get` and `set` reach, entered with the cursor already on the first node. -/
def walk (body : Nat → σ → Option σ) : Nat → σ → Option σ
  | 0, s => if (get s).cursor = none then some s else none
  | fuel + 1, s =>
    match (get s).cursor with
    | none => some s
    | some i => do
      let s ← body i s
      walk body fuel (set (get s).next s)

/-- The whole `for`: put the cursor on the first node and walk. -/
def forEach (body : Nat → σ → Option σ) (fuel : Nat) (s : σ) : Option σ :=
  walk get set body fuel (set (get s).first s)

variable {Q : σ → Prop} (hget : ∀ s, Q s → ∀ l, get (set l s) = l)

include hget

/-- **The rule for `walk`.** `P i` is what holds when the cursor has just come to position `i`
(position `n` standing for the end). The body has to establish `P (i + 1)` for the state in
which the loop has moved on, *and to return with the cursor and the length as they were*, in a
state (`Q`) in which there is a list to move on in. -/
theorem walk_spec (body : Nat → σ → Option σ) {P : Nat → σ → Prop} {n : Nat}
    (hstep : ∀ i s, i < n → P i s → (get s).cursor = some i → (get s).items.length = n →
      ∃ s', body i s = some s' ∧ Q s' ∧ (get s').cursor = some i ∧ (get s').items.length = n ∧
        P (i + 1) (set (get s').next s')) :
    ∀ (k i fuel : Nat) (s : σ), i + k = n → k ≤ fuel → P i s →
      (get s).cursor = (if i < n then some i else none) → (get s).items.length = n →
      ∃ s', walk get set body fuel s = some s' ∧ P n s' ∧ (get s').cursor = none ∧
        (get s').items.length = n := by
  intro k
  -- induction on the number of nodes still ahead of the cursor
  induction k with
  | zero =>
    intro i fuel s hik _ hP hc hlen
    have hin : i = n := by omega
    subst hin
    have hnone : (get s).cursor = none := by simpa using hc
    refine ⟨s, ?_, hP, hnone, hlen⟩
    cases fuel with
    | zero => simp [walk, hnone]
    | succ f => simp [walk, hnone]
  | succ k ih =>
    intro i fuel s hik hf hP hc hlen
    have hlt : i < n := by omega
    have hsome : (get s).cursor = some i := by rw [hc, if_pos hlt]
    obtain ⟨f, rfl⟩ : ∃ f, fuel = f + 1 := ⟨fuel - 1, by omega⟩
    obtain ⟨s₁, hb, hQ₁, hc₁, hl₁, hP₁⟩ := hstep i s hlt hP hsome hlen
    have hc₂ : (get (set (get s₁).next s₁)).cursor = if i + 1 < n then some (i + 1) else none := by
      rw [hget s₁ hQ₁, next_cursor hc₁, hl₁]
    have hl₂ : (get (set (get s₁).next s₁)).items.length = n := by
      rw [hget s₁ hQ₁, next_items, hl₁]
    obtain ⟨s', hw, hP', hc', hl'⟩ :=
      ih (i + 1) f (set (get s₁).next s₁) (by omega) (by omega) hP₁ hc₂ hl₂
    refine ⟨s', ?_, hP', hc', hl'⟩
    simp only [walk, hsome, hb, Option.bind_eq_bind, Option.bind_some]
    exact hw

/-- **The rule for `forEach`**: `walk_spec` from the first node. -/
theorem forEach_spec (body : Nat → σ → Option σ) {P : Nat → σ → Prop} {s : σ} {fuel : Nat}
    (hQ : Q s) (h₀ : P 0 (set (get s).first s))
    (hstep : ∀ i s₁, i < (get s).items.length → P i s₁ → (get s₁).cursor = some i →
      (get s₁).items.length = (get s).items.length →
      ∃ s', body i s₁ = some s' ∧ Q s' ∧ (get s').cursor = some i ∧
        (get s').items.length = (get s).items.length ∧ P (i + 1) (set (get s').next s'))
    (hfuel : (get s).items.length ≤ fuel) :
    ∃ s', forEach get set body fuel s = some s' ∧ P (get s).items.length s' ∧
      (get s').cursor = none ∧ (get s').items.length = (get s).items.length := by
  refine walk_spec get set hget body hstep (get s).items.length 0 fuel _ (by omega) hfuel h₀ ?_ ?_
  · rw [hget s hQ]
    by_cases hn : 0 < (get s).items.length
    · rw [if_pos hn, first_cursor_of_ne_nil hn]
    · rw [if_neg hn, first_cursor_of_nil (List.eq_nil_of_length_eq_zero (by omega))]
  · rw [hget s hQ, first_items]

end Walk

/-! ## A loop that changes each item -/

/-- What a loop that applies `f` to each item has made of the items when it comes to the one at
position `i`. -/
def mapBefore (f : α → α) (i : Nat) (l : List α) : List α :=
  l.mapIdx fun j x => if j < i then f x else x

@[simp] theorem mapBefore_zero (f : α → α) (l : List α) : mapBefore f 0 l = l := by
  refine List.ext_getElem? fun j => ?_
  cases h : l[j]? <;> simp [mapBefore, h]

theorem mapBefore_getElem? (f : α → α) (i : Nat) (l : List α) : (mapBefore f i l)[i]? = l[i]? := by
  cases h : l[i]? <;> simp [mapBefore, h]

theorem mapBefore_succ (f : α → α) (i : Nat) (l : List α) :
    mapBefore f (i + 1) l = (mapBefore f i l).modify i f := by
  refine List.ext_getElem? fun j => ?_
  simp only [mapBefore, List.getElem?_modify, List.getElem?_mapIdx]
  cases l[j]? with
  | none => rfl
  | some x =>
    rcases Nat.lt_trichotomy j i with h | rfl | h
    · simp [h, Nat.lt_succ_of_lt h, Nat.ne_of_gt h]
    · simp
    · have h₁ : ¬ j < i + 1 := by omega
      have h₂ : ¬ j < i := by omega
      simp [h₁, h₂, Nat.ne_of_lt h]

theorem mapBefore_length (f : α → α) (l : List α) : mapBefore f l.length l = l.map f := by
  refine List.ext_getElem? fun j => ?_
  simp only [mapBefore, List.getElem?_mapIdx, List.getElem?_map]
  cases h : l[j]? with
  | none => rfl
  | some x => simp [(List.getElem?_eq_some_iff.mp h).1]

/-! ## The search -/

/-- `x = first (l); while (x) { if (p (x)) break; x = next (l); }`: the position the loop stops
at, `none` when it ran off the end, and the list with its cursor there. -/
def seekFrom (p : α → Bool) : Nat → CursorList α → Option (Option Nat × CursorList α)
  | 0, l => if l.cursor = none then some (none, l) else none
  | fuel + 1, l =>
    match l.cursor with
    | none => some (none, l)
    | some i =>
      match l.items[i]? with
      | none => none
      | some x => if p x then some (some i, l) else seekFrom p fuel l.next

def seek (p : α → Bool) (fuel : Nat) (l : CursorList α) : Option (Option Nat × CursorList α) :=
  seekFrom p fuel l.first

/-- Where `seek` stops is where `List.findIdx?` points, and it leaves the cursor there. By induction on
how much of the list is still to be searched, with nothing found in what is behind the cursor. -/
theorem seekFrom_eq (p : α → Bool) :
    ∀ (k i fuel : Nat) (l : CursorList α), i + k = l.items.length → k ≤ fuel →
      (∀ j < i, ∀ x, l.items[j]? = some x → p x = false) →
      l.cursor = (if i < l.items.length then some i else none) →
      seekFrom p fuel l =
        some (l.items.findIdx? p, { l with cursor := l.items.findIdx? p }) := by
  intro k
  induction k with
  | zero =>
    intro i fuel l hik _ hpre hc
    have hnone : l.cursor = none := by rw [hc, if_neg (by omega)]
    have hfind : l.items.findIdx? p = none := by
      rw [List.findIdx?_eq_none_iff]
      intro x hx
      obtain ⟨j, hj, rfl⟩ := List.getElem_of_mem hx
      exact hpre j (by omega) _ (List.getElem?_eq_getElem hj)
    have hl : l = { l with cursor := none } := by rw [← hnone]
    rw [hfind, ← hl]
    cases fuel with
    | zero => simp [seekFrom, hnone]
    | succ f => simp [seekFrom, hnone]
  | succ k ih =>
    intro i fuel l hik hf hpre hc
    have hlt : i < l.items.length := by omega
    have hsome : l.cursor = some i := by rw [hc, if_pos hlt]
    obtain ⟨f, rfl⟩ : ∃ f, fuel = f + 1 := ⟨fuel - 1, by omega⟩
    simp only [seekFrom, hsome, List.getElem?_eq_getElem hlt]
    by_cases hp : p l.items[i] = true
    · have hfind : l.items.findIdx? p = some i := by
        rw [List.findIdx?_eq_some_iff_getElem]
        refine ⟨hlt, hp, fun j hj => ?_⟩
        have := hpre j hj _ (List.getElem?_eq_getElem (by omega))
        simp [this]
      rw [if_pos hp, hfind, ← hsome]
    · rw [if_neg hp]
      have hstep := ih (i + 1) f l.next (by rw [next_items]; omega) (by omega)
        (fun j hj x hx => by
          rw [next_items] at hx
          rcases Nat.lt_succ_iff_lt_or_eq.mp hj with hj | rfl
          · exact hpre j hj x hx
          · rw [List.getElem?_eq_getElem hlt, Option.some.injEq] at hx
            subst hx
            simpa using hp)
        (by rw [next_cursor hsome, next_items])
      rw [hstep, next_items]

theorem seek_eq (p : α → Bool) {fuel : Nat} {l : CursorList α} (h : l.items.length ≤ fuel) :
    seek p fuel l = some (l.items.findIdx? p, { l with cursor := l.items.findIdx? p }) := by
  have hc : l.first.cursor = if 0 < l.first.items.length then some 0 else none := by
    by_cases hn : 0 < l.items.length
    · rw [first_items, if_pos hn, first_cursor_of_ne_nil hn]
    · rw [first_items, if_neg hn,
        first_cursor_of_nil (List.eq_nil_of_length_eq_zero (by omega))]
  have hs := seekFrom_eq p l.items.length 0 fuel l.first (by simp) h
    (fun j hj => absurd hj (Nat.not_lt_zero j)) hc
  simpa [seek] using hs

end CursorList

end Zccp.Lib
