import Zccp.Lib.Run

/-!
# `Zccp/Lib/Commute.lean` — runs up to the order of independent inputs

Two inputs commute when it makes no difference which of them comes first, neither to the state nor to
what any observer is shown. Lists that arise from each other by swapping such neighbours are
`Reorder`ings, and runs over them end alike and look alike (`Reorder.foldl_eq`,
`Reorder.outputs_eq`).

When two lists are that is not easily seen from the swaps. `Reorder.of_filter` tells it from the lists
themselves: any two inputs that are not independent occur in the same order in both.
-/

set_option autoImplicit false

namespace Zccp.Lib

variable {α ι κ ω : Type}

/-- One list is the other with independent neighbours swapped. -/
inductive Reorder (R : ι → ι → Prop) : List ι → List ι → Prop
  | refl (l : List ι) : Reorder R l l
  | cons (i : ι) {l l' : List ι} : Reorder R l l' → Reorder R (i :: l) (i :: l')
  | swap {i j : ι} (l : List ι) : R i j → Reorder R (i :: j :: l) (j :: i :: l)
  | trans {l₁ l₂ l₃ : List ι} : Reorder R l₁ l₂ → Reorder R l₂ l₃ → Reorder R l₁ l₃

/-! ## Runs -/

section Runs

variable {step : α → ι → α} {out : κ → α → ι → List ω} {R : ι → ι → Prop}

/-- Which of two inputs comes first makes no difference. -/
structure Commutes (step : α → ι → α) (out : κ → α → ι → List ω) (i j : ι) : Prop where
  state : ∀ a, step (step a i) j = step (step a j) i
  shown : ∀ c a, out c a i ++ out c (step a i) j = out c a j ++ out c (step a j) i

/-- A reordered run ends in the same state. -/
theorem Reorder.foldl_eq (hR : ∀ i j, R i j → Commutes step out i j) {l l' : List ι}
    (h : Reorder R l l') (a : α) : l.foldl step a = l'.foldl step a := by
  induction h generalizing a with
  | refl => rfl
  | cons i _ ih => exact ih (step a i)
  | swap l hij => simp only [List.foldl_cons, (hR _ _ hij).state]
  | trans _ _ ih₁ ih₂ => exact (ih₁ a).trans (ih₂ a)

/-- **A reordered run looks the same** to every observer. -/
theorem Reorder.outputs_eq (hR : ∀ i j, R i j → Commutes step out i j) {l l' : List ι}
    (h : Reorder R l l') (c : κ) (a : α) : outputs step out c a l = outputs step out c a l' := by
  induction h generalizing a with
  | refl => rfl
  | cons i _ ih => exact congrArg (out c a i ++ ·) (ih (step a i))
  | swap l hij =>
    simp only [outputs, ← List.append_assoc, (hR _ _ hij).shown, (hR _ _ hij).state]
  | trans _ _ ih₁ ih₂ => exact (ih₁ a).trans (ih₂ a)

end Runs

/-! ## Which lists are reorderings -/

variable {R : ι → ι → Prop}

/-- An input that is independent of all before it can come first. -/
theorem Reorder.move {i : ι} {pre : List ι} (h : ∀ j ∈ pre, R i j) (post : List ι) :
    Reorder R (i :: (pre ++ post)) (pre ++ i :: post) := by
  induction pre with
  | nil => exact .refl _
  | cons j pre ih =>
    have hrest := ih fun j' hj' => h j' (List.mem_cons_of_mem _ hj')
    exact .trans (.swap _ (h j List.mem_cons_self)) (.cons j hrest)

variable [DecidableEq ι]

/-- The occurrences of two inputs. -/
def occurrences (i j : ι) (l : List ι) : List ι := l.filter fun k => k = i ∨ k = j

theorem occurrences_append (i j : ι) (l l' : List ι) :
    occurrences i j (l ++ l') = occurrences i j l ++ occurrences i j l' := List.filter_append ..

theorem mem_occurrences {i j k : ι} {l : List ι} :
    k ∈ occurrences i j l ↔ k ∈ l ∧ (k = i ∨ k = j) := by
  simp [occurrences]

/-- **Lists in which dependent inputs occur in the same order are reorderings of each other.** -/
theorem Reorder.of_filter (hself : ∀ i, ¬ R i i) (hsymm : ∀ i j, R i j → R j i) {l l' : List ι}
    (h : ∀ i j, ¬ R i j → occurrences i j l = occurrences i j l') : Reorder R l l' := by
  induction l generalizing l' with
  | nil =>
    cases l' with
    | nil => exact .refl []
    | cons j l' =>
      have hmem : j ∈ occurrences j j (j :: l') := mem_occurrences.mpr ⟨List.mem_cons_self, .inl rfl⟩
      rw [← h j j (hself j)] at hmem
      cases hmem
  | cons i l ih =>
    have hmem : i ∈ l' := by
      have hi : i ∈ occurrences i i (i :: l) := mem_occurrences.mpr ⟨List.mem_cons_self, .inl rfl⟩
      rw [h i i (hself i)] at hi
      exact (mem_occurrences.mp hi).1
    obtain ⟨pre, post, rfl, hpre⟩ := List.eq_append_cons_of_mem hmem
    -- whatever comes before the first `i` is independent of it
    have hindep : ∀ j ∈ pre, R i j := by
      intro j hj
      by_contra hdep
      have heq := h i j hdep
      obtain ⟨k, rest, hk⟩ : ∃ k rest, occurrences i j pre = k :: rest :=
        List.exists_cons_of_ne_nil (List.ne_nil_of_mem (mem_occurrences.mpr ⟨hj, .inr rfl⟩))
      have hkpre : k ∈ pre := (mem_occurrences.mp (hk ▸ List.mem_cons_self)).1
      rw [occurrences_append, hk, occurrences, List.filter_cons_of_pos (by simp)] at heq
      exact hpre ((List.cons.inj heq).1 ▸ hkpre)
    refine .trans (.cons i (ih fun a b hab => ?_)) (.move hindep post)
    have heq := h a b hab
    rw [occurrences_append] at heq ⊢
    by_cases hi : i = a ∨ i = b
    · -- then nothing before it is one of the two
      have hnone : occurrences a b pre = [] := by
        refine List.filter_eq_nil_iff.mpr fun k hk => ?_
        have hdep : ¬ k = a ∧ ¬ k = b := by
          refine ⟨?_, ?_⟩
          · rintro rfl
            rcases hi with rfl | rfl
            · exact hpre hk
            · exact hab (hsymm _ _ (hindep k hk))
          · rintro rfl
            rcases hi with rfl | rfl
            · exact hab (hindep k hk)
            · exact hpre hk
        simp [hdep]
      rw [hnone, List.nil_append, occurrences, occurrences, List.filter_cons_of_pos (by simpa using hi),
        List.filter_cons_of_pos (by simpa using hi)] at heq
      rw [hnone]
      exact (List.cons.inj heq).2
    · have hnot : decide (i = a ∨ i = b) = false := decide_eq_false hi
      rw [occurrences, List.filter_cons_of_neg (by simpa using hi), occurrences, occurrences,
        List.filter_cons_of_neg (by simpa using hi)] at heq
      exact heq

end Zccp.Lib
