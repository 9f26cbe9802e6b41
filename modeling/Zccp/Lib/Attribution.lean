import Mathlib.Data.List.Basic
import Mathlib.Data.List.Forall2
import Mathlib.Data.List.Sublists

/-!
# `Zccp/Lib/Attribution.lean` — lists whose entries come from somewhere

A list of tagged entries, `List (α × β)`, says of each entry where it is from. Someone who reads it with
a partial function keeps the tags of what can be read; the first two lemmas are that reading and
looking at the tags do not get into each other's way.

What has come from one place is then compared with what has been sent from there. Mathlib's
`List.SublistForall₂ R l l'` says just that: `l` is related, entry by entry and in order, to a part of
`l'`, so that nothing in `l` is made up, out of order, or there more often than in `l'`. The rest are
ways to come by such a comparison, and to get a plain sublist out of it where `R` is a function.
-/

set_option autoImplicit false

namespace Zccp.Lib

open scoped List

variable {α β γ : Type}

/-- Reading the entries and forgetting the tags is forgetting the tags and reading the entries. -/
theorem map_snd_filterMap (g : β → Option γ) (l : List (α × β)) :
    (l.filterMap fun x => (g x.2).map (x.1, ·)).map Prod.snd = (l.map Prod.snd).filterMap g := by
  induction l with
  | nil => rfl
  | cons x l ih =>
    rw [List.filterMap_cons, List.map_cons, List.filterMap_cons]
    cases hg : g x.2 <;> simp [ih]

/-- The readings of the entries with one tag are the readings with that tag. -/
theorem filter_filterMap_tag [DecidableEq α] (g : β → Option γ) (p : α) (l : List (α × β)) :
    (l.filterMap fun x => (g x.2).map (x.1, ·)).filter (·.1 = p) =
      (l.filter (·.1 = p)).filterMap fun x => (g x.2).map (x.1, ·) := by
  induction l with
  | nil => rfl
  | cons x l ih =>
    rw [List.filterMap_cons, List.filter_cons]
    by_cases hp : x.1 = p <;> cases hg : g x.2 <;> simp [hp, hg, ih]

/-- Two readings of one list, of which the second has something wherever the first has. -/
theorem sublistForall₂_filterMap {R : β → γ → Prop} {f : α → Option β} {g : α → Option γ}
    {l : List α} (h : ∀ a ∈ l, ∀ b, f a = some b → ∃ x, g a = some x ∧ R b x) :
    List.SublistForall₂ R (l.filterMap f) (l.filterMap g) := by
  induction l with
  | nil => exact .nil
  | cons a l ih =>
    have hrest := ih fun a' ha' => h a' (List.mem_cons_of_mem _ ha')
    cases hf : f a with
    | some b =>
      obtain ⟨x, hx, hR⟩ := h a List.mem_cons_self b hf
      rw [List.filterMap_cons_some hf, List.filterMap_cons_some hx]
      exact .cons hR hrest
    | none =>
      rw [List.filterMap_cons_none hf]
      cases hg : g a with
      | none =>
        rw [List.filterMap_cons_none hg]
        exact hrest
      | some x =>
        rw [List.filterMap_cons_some hg]
        exact .cons_right hrest

/-- A shorter list on the left, and a longer one on the right. -/
theorem sublistForall₂_of_sublist {R : β → γ → Prop} {l₁ l₁' : List β} {l₂ l₂' : List γ}
    (h : List.SublistForall₂ R l₁ l₂) (h₁ : l₁' <+ l₁) (h₂ : l₂ <+ l₂') :
    List.SublistForall₂ R l₁' l₂' := by
  suffices hleft : List.SublistForall₂ R l₁' l₂ by
    obtain ⟨l, hl, hsub⟩ := List.sublistForall₂_iff.mp hleft
    exact List.sublistForall₂_iff.mpr ⟨l, hl, hsub.trans h₂⟩
  induction h generalizing l₁' with
  | nil =>
    rw [List.sublist_nil.mp h₁]
    exact .nil
  | cons hR _ ih =>
    rcases List.sublist_cons_iff.mp h₁ with hskip | ⟨l, rfl, hkeep⟩
    · exact .cons_right (ih hskip (List.sublist_of_cons_sublist h₂))
    · exact .cons hR (ih hkeep (List.sublist_of_cons_sublist h₂))
  | cons_right _ ih => exact .cons_right (ih h₁ (List.sublist_of_cons_sublist h₂))

/-- Where the relation is that of a function, that is a list of its values. -/
theorem sublist_map_of_sublistForall₂ {R : β → γ → Prop} {f : α → β} {g : α → γ} {l : List β}
    {xs : List α} (h : List.SublistForall₂ R l (xs.map g))
    (hR : ∀ x ∈ xs, ∀ b, R b (g x) → b = f x) : l <+ xs.map f := by
  obtain ⟨ys, hall, hsub⟩ := List.sublistForall₂_iff.mp h
  obtain ⟨xs', hxs', rfl⟩ := List.sublist_map_iff.mp hsub
  refine List.Sublist.trans ?_ (hxs'.map f)
  have heq : l = xs'.map f := by
    have hmem : ∀ x ∈ xs', ∀ b, R b (g x) → b = f x := fun x hx => hR x (hxs'.subset hx)
    rw [List.forall₂_map_right_iff] at hall
    clear hsub hxs' h
    induction hall with
    | nil => rfl
    | cons hone _ ih =>
      rw [hmem _ List.mem_cons_self _ hone, List.map_cons,
        ih fun x hx => hmem x (List.mem_cons_of_mem _ hx)]
  rw [heq]

end Zccp.Lib
