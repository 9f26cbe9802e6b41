import Mathlib.Algebra.Group.Prod
import Mathlib.Data.List.Induction

/-!
# `Zccp/Lib/Run.lean` — runs of a step function

A system given by a partial step function `step : σ → ι → Option σ`, where `ι` is what happens to
it (an input, or the label of a step) and `none` is that it cannot. `runFrom step s is` is what
it has become after the inputs `is`.

The rules reduce a statement about all runs to one about a step: `runFrom_preserves` for an
invariant, `runFrom_refines` for a simulation by a total abstract system that also says what is
observed on the way, `runFrom_seen` for the history of a run, `runFrom_projects` for a part of a
system that is a system itself, `runFrom_costs` for an account of what goes wrong on the way,
`runFrom_always_iff` for a property that some steps lose, `runFrom_since` for the step that has
brought a property about, `length_le_of_decreasing` and `exists_bound_of_wellFounded` for
termination by a measure.
-/

set_option autoImplicit false

namespace Zccp.Lib

variable {σ ι α κ ω : Type}

/-- The state after a list of inputs. -/
def runFrom (step : σ → ι → Option σ) (s : σ) (is : List ι) : Option σ := is.foldlM step s

section Basic

variable {step : σ → ι → Option σ}

@[simp] theorem runFrom_nil (s : σ) : runFrom step s [] = some s := rfl

theorem runFrom_cons (s : σ) (i : ι) (is : List ι) :
    runFrom step s (i :: is) = (step s i).bind fun s' => runFrom step s' is := by
  simp [runFrom, List.foldlM_cons]

@[simp] theorem runFrom_singleton (s : σ) (i : ι) : runFrom step s [i] = step s i := by
  rw [runFrom_cons]
  cases step s i <;> rfl

theorem runFrom_append (s : σ) (is is' : List ι) :
    runFrom step s (is ++ is') = (runFrom step s is).bind fun s' => runFrom step s' is' := by
  simp only [runFrom, List.foldlM_append, Option.bind_eq_bind]

theorem runFrom_append_singleton (s : σ) (is : List ι) (i : ι) :
    runFrom step s (is ++ [i]) = (runFrom step s is).bind fun s' => step s' i := by
  rw [runFrom_append]
  congr 1
  funext s'
  rw [runFrom_cons]
  cases step s' i <;> rfl

/-- A run that gets through has got through every part of the way. -/
theorem runFrom_of_append {s s' : σ} {is is' : List ι} (h : runFrom step s (is ++ is') = some s') :
    ∃ s₁, runFrom step s is = some s₁ ∧ runFrom step s₁ is' = some s' := by
  rw [runFrom_append] at h
  exact Option.bind_eq_some_iff.mp h

/-- **Invariants.** What every step preserves, every run preserves. -/
theorem runFrom_preserves {I : σ → Prop} (hstep : ∀ s i s', I s → step s i = some s' → I s')
    {s s' : σ} {is : List ι} (hs : I s) (h : runFrom step s is = some s') : I s' := by
  induction is generalizing s with
  | nil =>
    rw [runFrom_nil, Option.some.injEq] at h
    exact h ▸ hs
  | cons i is ih =>
    rw [runFrom_cons] at h
    obtain ⟨s₁, h₁, hrest⟩ := Option.bind_eq_some_iff.mp h
    exact ih (hstep s i s₁ hs h₁) hrest

/-- **Invariants as long as something lasts.** What every step into a state in `Q` preserves, a run
preserves that never leaves `Q`. -/
theorem runFrom_preserves_along {I Q : σ → Prop}
    (hstep : ∀ s i s', I s → step s i = some s' → Q s' → I s') {s s' : σ} {is : List ι} (hs : I s)
    (h : runFrom step s is = some s')
    (hQ : ∀ is', is' <+: is → ∀ s₁, runFrom step s is' = some s₁ → Q s₁) : I s' := by
  induction is generalizing s with
  | nil =>
    rw [runFrom_nil, Option.some.injEq] at h
    exact h ▸ hs
  | cons i is ih =>
    rw [runFrom_cons] at h
    obtain ⟨s₁, h₁, hrest⟩ := Option.bind_eq_some_iff.mp h
    have hQ₁ : Q s₁ := hQ [i] ⟨is, rfl⟩ s₁ (by rw [runFrom_cons, h₁]; rfl)
    refine ih (hstep s i s₁ hs h₁ hQ₁) hrest fun is' hpre s₂ h₂ => ?_
    refine hQ (i :: is') (List.cons_prefix_cons.mpr ⟨rfl, hpre⟩) s₂ ?_
    rw [runFrom_cons, h₁]
    exact h₂

/-- What the steps of a run cost, each at its price in the state it is taken in. The currency is any
monoid: a number, or several accounts in one. -/
def costFrom {M : Type} [AddMonoid M] (step : σ → ι → Option σ) (cost : σ → ι → M) : σ → List ι → M
  | _, [] => 0
  | s, i :: is => cost s i + (step s i).elim 0 fun s' => costFrom step cost s' is

/-- **Accounts.** Where every step adds its price to an account, a run adds what it costs. -/
theorem runFrom_costs {M : Type} [AddMonoid M] {cost : σ → ι → M} {I : σ → M → Prop}
    (hstep : ∀ s i s' n, I s n → step s i = some s' → I s' (n + cost s i)) {s s' : σ} {is : List ι}
    {n : M} (hs : I s n) (h : runFrom step s is = some s') : I s' (n + costFrom step cost s is) := by
  induction is generalizing s n with
  | nil =>
    rw [runFrom_nil, Option.some.injEq] at h
    rw [costFrom, add_zero]
    exact h ▸ hs
  | cons i is ih =>
    rw [runFrom_cons] at h
    obtain ⟨s₁, h₁, hrest⟩ := Option.bind_eq_some_iff.mp h
    have hkept := ih (hstep s i s₁ n hs h₁) hrest
    rw [costFrom, h₁, Option.elim_some, ← add_assoc]
    exact hkept

/-- Two accounts that are kept together come to what each comes to by itself. -/
theorem costFrom_mk {M N : Type} [AddMonoid M] [AddMonoid N] (f : σ → ι → M) (g : σ → ι → N) (s : σ)
    (is : List ι) :
    costFrom step (fun s i => (f s i, g s i)) s is = (costFrom step f s is, costFrom step g s is) := by
  induction is generalizing s with
  | nil => rfl
  | cons i is ih =>
    simp only [costFrom]
    cases step s i with
    | none => rfl
    | some s' => simp only [Option.elim_some, ih, Prod.mk_add_mk]

/-- What the steps of a run show, each in the state it is taken in. -/
def seenFrom (step : σ → ι → Option σ) (see : σ → ι → List ω) : σ → List ι → List ω
  | _, [] => []
  | s, i :: is => see s i ++ (step s i).elim [] fun s' => seenFrom step see s' is

/-- What is seen of a run is seen of one of its steps. -/
theorem mem_seenFrom {see : σ → ι → List ω} {s : σ} {is : List ι} {x : ω}
    (h : x ∈ seenFrom step see s is) :
    ∃ pre i s', pre ++ [i] <+: is ∧ runFrom step s pre = some s' ∧ x ∈ see s' i := by
  induction is generalizing s with
  | nil => cases h
  | cons i is ih =>
    rcases List.mem_append.mp h with hnow | hlater
    · exact ⟨[], i, s, List.cons_prefix_cons.mpr ⟨rfl, List.nil_prefix⟩, rfl, hnow⟩
    · cases hs : step s i with
      | none =>
        rw [hs] at hlater
        cases hlater
      | some s₁ =>
        rw [hs] at hlater
        obtain ⟨pre, j, s', hpre, hrun, hx⟩ := ih hlater
        refine ⟨i :: pre, j, s', List.cons_prefix_cons.mpr ⟨rfl, hpre⟩, ?_, hx⟩
        rw [runFrom_cons, hs]
        exact hrun

/-- **Histories.** What relates a state to what has been seen, and is preserved by every step, holds
after every run. -/
theorem runFrom_seen {see : σ → ι → List ω} {I : σ → List ω → Prop}
    (hstep : ∀ s i s' l, I s l → step s i = some s' → I s' (l ++ see s i)) {s s' : σ} {is : List ι}
    {l : List ω} (hs : I s l) (h : runFrom step s is = some s') : I s' (l ++ seenFrom step see s is) := by
  induction is generalizing s l with
  | nil =>
    rw [runFrom_nil, Option.some.injEq] at h
    rw [seenFrom, List.append_nil]
    exact h ▸ hs
  | cons i is ih =>
    rw [runFrom_cons] at h
    obtain ⟨s₁, h₁, hrest⟩ := Option.bind_eq_some_iff.mp h
    have hkept := ih (hstep s i s₁ l hs h₁) hrest
    rw [seenFrom, h₁, Option.elim_some, ← List.append_assoc]
    exact hkept

/-- What is seen of a run and depends on the inputs alone. -/
theorem seenFrom_filterMap {β : Type} {see : σ → ι → List ω} {I : σ → Prop} {f : ω → Option β}
    {g : ι → Option β}
    (hstep : ∀ s i s', I s → step s i = some s' → I s' ∧ (see s i).filterMap f = (g i).toList)
    {s s' : σ} {is : List ι} (hs : I s) (h : runFrom step s is = some s') :
    (seenFrom step see s is).filterMap f = is.filterMap g := by
  induction is generalizing s with
  | nil => rfl
  | cons i is ih =>
    rw [runFrom_cons] at h
    obtain ⟨s₁, h₁, hrest⟩ := Option.bind_eq_some_iff.mp h
    obtain ⟨hs₁, hnow⟩ := hstep s i s₁ hs h₁
    rw [seenFrom, h₁, Option.elim_some, List.filterMap_append, hnow, ih hs₁ hrest, List.filterMap_cons]
    cases g i <;> rfl

/-- **Projections.** Where the steps of another system, as many as are seen of each step, lead from
one projection to the next, a run projects to a run of that system. -/
theorem runFrom_projects {tstep : α → κ → Option α} {f : σ → α} {see : σ → ι → List κ}
    (hstep : ∀ s i s', step s i = some s' → runFrom tstep (f s) (see s i) = some (f s'))
    {s s' : σ} {is : List ι} (h : runFrom step s is = some s') :
    runFrom tstep (f s) (seenFrom step see s is) = some (f s') := by
  refine runFrom_seen (I := fun s₁ l => runFrom tstep (f s) l = some (f s₁)) (l := []) ?_ rfl h
  intro s₁ i s₂ l hl h₁
  rw [runFrom_append, hl, Option.bind_some]
  exact hstep s₁ i s₂ h₁

/-- A run that gets through has taken every step of the way. -/
theorem runFrom_of_prefix {s s' : σ} {pre is : List ι} {i : ι} (hpre : pre ++ [i] <+: is)
    (h : runFrom step s is = some s') :
    ∃ s₁ s₂, runFrom step s pre = some s₁ ∧ step s₁ i = some s₂ ∧
      runFrom step s (pre ++ [i]) = some s₂ := by
  obtain ⟨post, rfl⟩ := hpre
  obtain ⟨s₂, hs₂, -⟩ := runFrom_of_append h
  have hlast := hs₂
  rw [runFrom_append_singleton] at hlast
  obtain ⟨s₁, hs₁, hstep⟩ := Option.bind_eq_some_iff.mp hlast
  exact ⟨s₁, s₂, hs₁, hstep, hs₂⟩

/-- **Always.** Where it depends on the step whether a property is kept, a run has it all the way if
and only if it takes no step that loses it. -/
theorem runFrom_always_iff {I P : σ → Prop} {ok : σ → ι → Prop}
    (hI : ∀ s i s', I s → step s i = some s' → I s')
    (hP : ∀ s i s', I s → step s i = some s' → P s → (P s' ↔ ok s i))
    {s s' : σ} {is : List ι} (hs : I s) (hPs : P s) (h : runFrom step s is = some s') :
    (∀ pre, pre <+: is → ∀ s₁, runFrom step s pre = some s₁ → P s₁) ↔
      ∀ pre i, pre ++ [i] <+: is → ∀ s₁, runFrom step s pre = some s₁ → ok s₁ i := by
  constructor
  · intro hall pre i hpre s₁ hs₁
    obtain ⟨s₁', s₂, hs₁', hstep, hs₂⟩ := runFrom_of_prefix hpre h
    obtain rfl := Option.some.inj (hs₁.symm.trans hs₁')
    have hPs₁ := hall pre ((List.prefix_append pre [i]).trans hpre) s₁ hs₁
    exact (hP s₁ i s₂ (runFrom_preserves hI hs hs₁) hstep hPs₁).mp (hall (pre ++ [i]) hpre s₂ hs₂)
  · intro hok pre
    induction pre using List.reverseRecOn with
    | nil =>
      intro _ s₁ hs₁
      rw [runFrom_nil, Option.some.injEq] at hs₁
      exact hs₁ ▸ hPs
    | append_singleton pre i ih =>
      intro hpre s₂ hs₂
      obtain ⟨s₁, s₂', hs₁, hstep, hs₂'⟩ := runFrom_of_prefix hpre h
      obtain rfl := Option.some.inj (hs₂.symm.trans hs₂')
      have hPs₁ := ih ((List.prefix_append pre [i]).trans hpre) s₁ hs₁
      exact (hP s₁ i s₂ (runFrom_preserves hI hs hs₁) hstep hPs₁).mpr (hok pre i hpre s₁ hs₁)

/-- **Since when.** Where a state has a property only because the last step has brought it about, or
because it was there before and that step is of no account, a run that ends with it has a step that
has brought it about, and it has been there ever since. -/
theorem runFrom_since {I P : σ → Prop} {N : σ → ι → σ → Prop} {Q : ι → Prop}
    (hI : ∀ s i s', I s → step s i = some s' → I s')
    (hP : ∀ s i s', I s → step s i = some s' → P s' → N s i s' ∨ (Q i ∧ P s))
    {s s' : σ} {is : List ι} (hs : I s) (hnot : ¬ P s) (h : runFrom step s is = some s') (hPs' : P s') :
    ∃ pre i post s₁ s₂, is = pre ++ i :: post ∧ runFrom step s pre = some s₁ ∧
      step s₁ i = some s₂ ∧ N s₁ i s₂ ∧ (∀ j ∈ post, Q j) ∧
      ∀ mid, mid <+: post → ∀ s₃, runFrom step s₂ mid = some s₃ → P s₃ := by
  induction is using List.reverseRecOn generalizing s' with
  | nil =>
    rw [runFrom_nil, Option.some.injEq] at h
    exact absurd (h ▸ hPs') hnot
  | append_singleton is i ih =>
    have hrun := h
    rw [runFrom_append_singleton] at hrun
    obtain ⟨t, ht, hstep⟩ := Option.bind_eq_some_iff.mp hrun
    rcases hP t i s' (runFrom_preserves hI hs ht) hstep hPs' with hnew | ⟨hidle, hPt⟩
    · refine ⟨is, i, [], t, s', rfl, ht, hstep, hnew, by simp, fun mid hmid s₃ hs₃ => ?_⟩
      rw [List.prefix_nil.mp hmid, runFrom_nil, Option.some.injEq] at hs₃
      exact hs₃ ▸ hPs'
    · obtain ⟨pre, i₁, post, s₁, s₂, rfl, hs₁, hstep₁, hnew, hpost, hsince⟩ := ih ht hPt
      refine ⟨pre, i₁, post ++ [i], s₁, s₂, by simp, hs₁, hstep₁, hnew, ?_, fun mid hmid s₃ hs₃ => ?_⟩
      · intro j hj
        rcases List.mem_append.mp hj with hj | hj
        · exact hpost j hj
        · rw [List.mem_singleton.mp hj]
          exact hidle
      · rcases List.prefix_concat_iff.mp hmid with rfl | hmid
        · rw [List.append_assoc, runFrom_append, hs₁, Option.bind_some, List.cons_append,
            runFrom_cons, hstep₁, Option.bind_some, hs₃, Option.some.injEq] at h
          exact h ▸ hPs'
        · exact hsince mid hmid s₃ hs₃

/-- **Termination.** Where every step makes a number smaller, a run is no longer than the number
it starts with. -/
theorem length_le_of_decreasing {I : σ → Prop} {μ : σ → Nat}
    (hstep : ∀ s i s', I s → step s i = some s' → I s' ∧ μ s' < μ s)
    {s s' : σ} {is : List ι} (hs : I s) (h : runFrom step s is = some s') :
    is.length + μ s' ≤ μ s := by
  induction is generalizing s with
  | nil =>
    rw [runFrom_nil, Option.some.injEq] at h
    simp [h]
  | cons i is ih =>
    rw [runFrom_cons] at h
    obtain ⟨s₁, h₁, hrest⟩ := Option.bind_eq_some_iff.mp h
    obtain ⟨hs₁, hlt⟩ := hstep s i s₁ hs h₁
    have := ih hs₁ hrest
    rw [List.length_cons]
    omega

/-- **Termination, with a bound.** Where every step takes a measure down in a well-founded order, and
there are only so many steps to choose from, there is a bound on the length of runs; what the
measure may come down to from one step to the next need not be bounded itself. -/
theorem exists_bound_of_wellFounded {β : Type} {r : β → β → Prop} (hr : WellFounded r) {μ : σ → β}
    {I : σ → Prop} {choices : List ι}
    (hstep : ∀ s i s', I s → step s i = some s' → i ∈ choices ∧ I s' ∧ r (μ s') (μ s)) {s : σ}
    (hs : I s) : ∃ bound, ∀ is s', runFrom step s is = some s' → is.length ≤ bound := by
  induction hμ : μ s using hr.induction generalizing s with
  | _ m ih =>
  -- a bound for what comes after each choice
  have hone : ∀ i, ∃ bound, ∀ s₁, step s i = some s₁ →
      ∀ is s', runFrom step s₁ is = some s' → is.length ≤ bound := by
    intro i
    cases hi : step s i with
    | none => exact ⟨0, nofun⟩
    | some s₁ =>
      obtain ⟨-, hs₁, hlt⟩ := hstep s i s₁ hs hi
      obtain ⟨bound, hbound⟩ := ih (μ s₁) (hμ ▸ hlt) hs₁ rfl
      exact ⟨bound, fun s₂ h₂ => Option.some.inj h₂ ▸ hbound⟩
  choose bounds hbounds using hone
  have hmax : ∀ is : List ι, ∃ bound, ∀ i ∈ is, bounds i ≤ bound := by
    intro is
    induction is with
    | nil => exact ⟨0, nofun⟩
    | cons i is ih =>
      obtain ⟨bound, hbound⟩ := ih
      refine ⟨max (bounds i) bound, fun j hj => ?_⟩
      rcases List.mem_cons.mp hj with rfl | hj
      · exact Nat.le_max_left _ _
      · exact Nat.le_trans (hbound j hj) (Nat.le_max_right _ _)
  obtain ⟨bound, hbound⟩ := hmax choices
  refine ⟨bound + 1, fun is s' h => ?_⟩
  cases is with
  | nil => exact Nat.zero_le _
  | cons i is =>
    rw [runFrom_cons] at h
    obtain ⟨s₁, h₁, hrest⟩ := Option.bind_eq_some_iff.mp h
    obtain ⟨hi, -⟩ := hstep s i s₁ hs h₁
    exact Nat.succ_le_succ (Nat.le_trans (hbounds i s₁ h₁ is s' hrest) (hbound i hi))

end Basic

/-! ## Simulation by an abstract system -/

section Abstract

variable (astep : α → ι → α) (aout : κ → α → ι → List ω)

/-- What an abstract system shows to the observer `c` in a run. -/
def outputs (c : κ) : α → List ι → List ω
  | _, [] => []
  | a, i :: is => aout c a i ++ outputs c (astep a i) is

theorem outputs_append (c : κ) (a : α) (is is' : List ι) :
    outputs astep aout c a (is ++ is') =
      outputs astep aout c a is ++ outputs astep aout c (is.foldl astep a) is' := by
  induction is generalizing a with
  | nil => rfl
  | cons i is ih => simp [outputs, ih]

theorem outputs_map {β : Type} (f : β → ι) (c : κ) (a : α) (is : List β) :
    outputs (fun a i => astep a (f i)) (fun c a i => aout c a (f i)) c a is =
      outputs astep aout c a (is.map f) := by
  induction is generalizing a with
  | nil => rfl
  | cons i is ih => simp only [outputs, List.map_cons, ih]

theorem outputs_mapOut {β : Type} (f : κ → ω → β) (c : κ) (a : α) (is : List ι) :
    outputs astep (fun c a i => (aout c a i).map (f c)) c a is =
      (outputs astep aout c a is).map (f c) := by
  induction is generalizing a with
  | nil => rfl
  | cons i is ih => simp only [outputs, ih, List.map_append]

/-- **Invariants of a history.** What holds of the inputs so far, the state and the outputs so far,
and is preserved by every step, holds after every run. -/
theorem outputs_invariant {c : κ} {J : List ι → α → List ω → Prop} {a : α}
    (hstep : ∀ is a o i, J is a o → J (is ++ [i]) (astep a i) (o ++ aout c a i))
    (h₀ : J [] a []) (is : List ι) : J is (is.foldl astep a) (outputs astep aout c a is) := by
  induction is using List.reverseRecOn with
  | nil => exact h₀
  | append_singleton is i ih =>
    have := hstep is _ _ i ih
    rw [List.foldl_append, outputs_append]
    simpa [outputs] using this

/-- **Refinement.** When every step the environment may take is possible, keeps the relation to the
abstract system and shows each observer what the abstract step shows, then so is every run. -/
theorem runFrom_refines (step : σ → ι → Option σ) (astep : α → ι → α) (aout : κ → α → ι → List ω)
    (obs : κ → σ → List ω) (R : σ → α → Prop) (ok : ι → Prop)
    (hstep : ∀ s a i, R s a → ok i → ∃ s', step s i = some s' ∧ R s' (astep a i) ∧
      ∀ c, obs c s' = obs c s ++ aout c a i)
    {s : σ} {a : α} {is : List ι} (hs : R s a) (hok : ∀ i ∈ is, ok i) :
    ∃ s', runFrom step s is = some s' ∧ R s' (is.foldl astep a) ∧
      ∀ c, obs c s' = obs c s ++ outputs astep aout c a is := by
  induction is generalizing s a with
  | nil => exact ⟨s, rfl, hs, fun c => by simp [outputs]⟩
  | cons i is ih =>
    obtain ⟨s₁, h₁, hR₁, hobs₁⟩ := hstep s a i hs (hok i List.mem_cons_self)
    obtain ⟨s', h', hR', hobs'⟩ := ih hR₁ fun j hj => hok j (List.mem_cons_of_mem _ hj)
    refine ⟨s', by rw [runFrom_cons, h₁, Option.bind_some, h'], hR', fun c => ?_⟩
    rw [hobs', hobs₁, outputs, List.append_assoc]

end Abstract

end Zccp.Lib
