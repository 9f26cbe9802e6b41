import Mathlib.Algebra.Order.Group.Multiset
import Mathlib.Tactic.Abel

/-!
# `Zccp/Lib/Ownership.lean` — programs with a heap, and what they own

A heap has objects at addresses. A program on it is undefined (`none`) where it touches an address
without one, be it freed or never allocated. What a program needs of the heap, and what it leaves there,
are its `Cells`: a multiset of addresses with the objects at them, so that two owners of one address are
one too many (`Heap.Is`).

`Spec` says both at once, and of any heap with more in it: the program ends, and whatever else there is
stays as it is (`Spec.frame`). So a program of several parts is proved part by part (`Spec.bind`,
`Spec.call`), and one that leaves no cell has freed all of its own.
-/

set_option autoImplicit false

namespace Zccp.Lib

variable {β α γ : Type}

/-- Objects at addresses; none has been given out from `brk` on. -/
structure Heap (β : Type) where
  cells : Nat → Option β
  brk : Nat
  fresh : ∀ a, brk ≤ a → cells a = none

def Heap.empty : Heap β where
  cells _ := none
  brk := 0
  fresh _ _ := rfl

/-- A program. -/
abbrev Prog (β α : Type) := StateT (Heap β) Option α

/-! ## The primitives -/

/-- What cannot be. -/
def undefined : Prog β α := fun _ => none

/-- A new object. -/
def alloc (b : β) : Prog β Nat := fun h =>
  some (h.brk, {
    cells := Function.update h.cells h.brk (some b)
    brk := h.brk + 1
    fresh := fun a ha => by
      rw [Function.update_of_ne (Nat.ne_of_gt ha)]
      exact h.fresh a (Nat.le_of_succ_le ha) })

def load (a : Nat) : Prog β β := fun h => (h.cells a).map fun b => (b, h)

def assign (a : Nat) (b : β) : Prog β Unit := fun h =>
  if ha : (h.cells a).isSome then
    some ((), { h with
      cells := Function.update h.cells a (some b)
      fresh := fun a' ha' => by
        have hne : a' ≠ a := by
          rintro rfl
          rw [h.fresh a' ha'] at ha
          cases ha
        rw [Function.update_of_ne hne]
        exact h.fresh a' ha' })
  else none

def free (a : Nat) : Prog β Unit := fun h =>
  if (h.cells a).isSome then
    some ((), { h with
      cells := Function.update h.cells a none
      fresh := fun a' ha' => by
        by_cases heq : a' = a
        · rw [heq, Function.update_self]
        · rw [Function.update_of_ne heq]
          exact h.fresh a' ha' })
  else none

/-! ## What is in a heap -/

/-- Addresses, and the objects at them. -/
abbrev Cells (β : Type) := Multiset (Nat × β)

/-- These and no others. -/
structure Heap.Is (h : Heap β) (M : Cells β) : Prop where
  nodup : (M.map Prod.fst).Nodup
  mem_iff : ∀ a b, (a, b) ∈ M ↔ h.cells a = some b

theorem Heap.is_empty : (Heap.empty : Heap β).Is 0 where
  nodup := Multiset.nodup_zero
  mem_iff a b := by
    constructor
    · intro h
      exact absurd h (Multiset.notMem_zero _)
    · intro h
      cases h

section Is

variable {h : Heap β} {M : Cells β} {a : Nat} {b c : β}

theorem Heap.Is.cells_eq (his : h.Is ({(a, b)} + M)) : h.cells a = some b :=
  (his.mem_iff a b).mp (Multiset.mem_add.mpr (.inl (Multiset.mem_singleton_self _)))

/-- Nobody else has the address. -/
theorem Heap.Is.not_mem (his : h.Is ({(a, b)} + M)) : (a, c) ∉ M := by
  intro hmem
  have hnodup := his.nodup
  rw [Multiset.map_add, Multiset.map_singleton, Multiset.singleton_add, Multiset.nodup_cons] at hnodup
  exact hnodup.1 (Multiset.mem_map.mpr ⟨(a, c), hmem, rfl⟩)

/-- One cell is changed or goes, the others stay. -/
theorem Heap.Is.update (his : h.Is ({(a, b)} + M)) {h' : Heap β} {o : Option β}
    (hcells : h'.cells = Function.update h.cells a o) :
    h'.Is ((o.elim 0 fun c => {(a, c)}) + M) := by
  have hnodup := his.nodup
  rw [Multiset.map_add, Multiset.map_singleton, Multiset.singleton_add, Multiset.nodup_cons] at hnodup
  constructor
  · cases o with
    | none => simpa using hnodup.2
    | some c => simpa using hnodup
  · intro a' c'
    rw [hcells, Multiset.mem_add]
    by_cases heq : a' = a
    · subst heq
      rw [Function.update_self, or_iff_left his.not_mem]
      cases o with
      | none => simp
      | some c => simp [eq_comm]
    · rw [Function.update_of_ne heq, ← his.mem_iff, Multiset.mem_add]
      have hnot : ∀ d : β, (a', c') ∉ ({(a, d)} : Cells β) := by
        intro d hmem
        exact heq (Prod.mk.inj (Multiset.mem_singleton.mp hmem)).1
      rw [or_iff_right (hnot b)]
      cases o with
      | none => simp
      | some c => exact or_iff_right (hnot c)

end Is

/-! ## What programs do -/

/-- **From these cells the program ends**, with a result and cells as `Q` says, and nothing else in the
heap has changed. -/
def Spec (M : Cells β) (x : Prog β α) (Q : α → Cells β → Prop) : Prop :=
  ∀ F h, h.Is (M + F) → ∃ r h' M', x h = some (r, h') ∧ Q r M' ∧ h'.Is (M' + F)

section Rules

variable {M N F : Cells β} {x : Prog β α} {f : α → Prog β γ} {Q Q' : α → Cells β → Prop}
  {R : γ → Cells β → Prop} {a : Nat} {b c : β}

theorem Spec.pure {r : α} (h : Q r M) : Spec M (pure r) Q :=
  fun _ heap his => ⟨r, heap, M, rfl, h, his⟩

theorem Spec.mono (hx : Spec M x Q) (h : ∀ r M', Q r M' → Q' r M') : Spec M x Q' := by
  intro F heap his
  obtain ⟨r, heap', M', hrun, hQ, his'⟩ := hx F heap his
  exact ⟨r, heap', M', hrun, h r M' hQ, his'⟩

theorem Spec.bind (hx : Spec M x Q) (hf : ∀ r M', Q r M' → Spec M' (f r) R) :
    Spec M (x >>= f) R := by
  intro F heap his
  obtain ⟨r, heap₁, M₁, hrun₁, hQ, his₁⟩ := hx F heap his
  obtain ⟨r₂, heap₂, M₂, hrun₂, hR, his₂⟩ := hf r M₁ hQ F heap₁ his₁
  refine ⟨r₂, heap₂, M₂, ?_, hR, his₂⟩
  show (x heap).bind (fun p => f p.1 p.2) = some (r₂, heap₂)
  rw [hrun₁]
  exact hrun₂

/-- **The frame rule.** -/
theorem Spec.frame (hx : Spec M x Q) (F : Cells β) :
    Spec (M + F) x fun r M' => ∃ M₀, Q r M₀ ∧ M' = M₀ + F := by
  intro F' heap his
  rw [add_assoc] at his
  obtain ⟨r, heap', M', hrun, hQ, his'⟩ := hx (F + F') heap his
  refine ⟨r, heap', M' + F, hrun, ⟨M', hQ, rfl⟩, ?_⟩
  rwa [add_assoc]

/-- A part of a program that needs some of the cells. -/
theorem Spec.call (hx : Spec M x Q) (hN : N = M + F) (hf : ∀ r M', Q r M' → Spec (M' + F) (f r) R) :
    Spec N (x >>= f) R := by
  subst hN
  refine (hx.frame F).bind fun r M' hM' => ?_
  obtain ⟨M₀, hQ, rfl⟩ := hM'
  exact hf r M₀ hQ

/-- The last part of it. -/
theorem Spec.tail (hx : Spec M x Q) (hN : N = M + F) (hf : ∀ r M', Q r M' → Q' r (M' + F)) :
    Spec N x Q' := by
  subst hN
  refine (hx.frame F).mono fun r M' hM' => ?_
  obtain ⟨M₀, hQ, rfl⟩ := hM'
  exact hf r M₀ hQ

/-- A part that frees what it needs. -/
theorem Spec.drop {u : Prog β Unit} {y : Prog β γ} (hu : Spec M u fun _ M' => M' = 0) (hN : N = M + F)
    (hy : Spec F y R) : Spec N (u >>= fun _ => y) R := by
  refine hu.call hN fun _ M' hM' => ?_
  rw [hM', zero_add]
  exact hy

/-- A new block is at an address that no block of the frame has, since all of those are below the break. -/
theorem spec_alloc (b : β) : Spec 0 (alloc b) fun a M => M = {(a, b)} := by
  intro F h his
  rw [zero_add] at his
  refine ⟨h.brk, _, {(h.brk, b)}, rfl, rfl, ?_⟩
  have hnone : ∀ c, (h.brk, c) ∉ F := by
    intro c hmem
    cases ((his.mem_iff _ _).mp hmem).symm.trans (h.fresh _ (Nat.le_refl _))
  constructor
  · rw [Multiset.map_add, Multiset.map_singleton, Multiset.singleton_add, Multiset.nodup_cons]
    refine ⟨fun hmem => ?_, his.nodup⟩
    obtain ⟨p, hp, heq⟩ := Multiset.mem_map.mp hmem
    obtain ⟨a, c⟩ := p
    obtain rfl : a = h.brk := heq
    exact hnone c hp
  · intro a c
    show _ ↔ Function.update h.cells h.brk (some b) a = some c
    rw [Multiset.mem_add, Multiset.mem_singleton]
    by_cases heq : a = h.brk
    · subst heq
      rw [Function.update_self, or_iff_left (hnone c)]
      simp [eq_comm]
    · rw [Function.update_of_ne heq, ← his.mem_iff]
      exact or_iff_right fun hp => heq (Prod.mk.inj hp).1

theorem spec_load (a : Nat) (b : β) : Spec {(a, b)} (load a) fun r M => r = b ∧ M = {(a, b)} := by
  intro F h his
  refine ⟨b, h, {(a, b)}, ?_, ⟨rfl, rfl⟩, his⟩
  rw [load, his.cells_eq]
  rfl

/-- To read takes no more than that the cell is there. -/
theorem spec_load_of_mem (h : (a, b) ∈ M) : Spec M (load a) fun r M' => r = b ∧ M' = M := by
  obtain ⟨N, rfl⟩ := Multiset.exists_cons_of_mem h
  rw [← Multiset.singleton_add]
  refine (spec_load a b).tail rfl fun r M' hM' => ?_
  obtain ⟨rfl, rfl⟩ := hM'
  exact ⟨rfl, rfl⟩

theorem spec_assign (a : Nat) (b c : β) : Spec {(a, b)} (assign a c) fun _ M => M = {(a, c)} := by
  intro F h his
  have hsome : (h.cells a).isSome := Option.isSome_of_eq_some his.cells_eq
  exact ⟨(), _, {(a, c)}, dif_pos hsome, rfl, his.update (o := some c) rfl⟩

theorem spec_free (a : Nat) (b : β) : Spec {(a, b)} (free a) fun _ M => M = 0 := by
  intro F h his
  have hsome : (h.cells a).isSome := Option.isSome_of_eq_some his.cells_eq
  exact ⟨(), _, 0, if_pos hsome, rfl, his.update (o := none) rfl⟩

end Rules

/-! ## Whole heaps -/

section Whole

variable {M N : Cells β} {x : Prog β α} {f : α → Prog β γ} {Q : α → Cells β → Prop} {h : Heap β}

/-- A program that needs nothing, from the start. -/
theorem Spec.run (hx : Spec 0 x Q) : ∃ r h M, x .empty = some (r, h) ∧ Q r M ∧ h.Is M := by
  have hempty : (Heap.empty : Heap β).Is (0 + 0) := by
    rw [add_zero]
    exact Heap.is_empty
  obtain ⟨r, h, M, hrun, hQ, his⟩ := hx 0 .empty hempty
  rw [add_zero] at his
  exact ⟨r, h, M, hrun, hQ, his⟩

/-- What is in a heap is one thing. -/
theorem Heap.Is.eq (hM : h.Is M) (hN : h.Is N) : M = N := by
  refine (Multiset.Nodup.ext hM.nodup.of_map hN.nodup.of_map).mpr fun p => ?_
  obtain ⟨a, b⟩ := p
  rw [hM.mem_iff, hN.mem_iff]

/-- **On a heap with these cells and no others the program is undefined.** -/
def Fault (M : Cells β) (x : Prog β α) : Prop := ∀ h, h.Is M → x h = none

theorem Fault.bind (hx : Spec M x Q) (hf : ∀ r M', Q r M' → Fault M' (f r)) : Fault M (x >>= f) := by
  intro h his
  rw [← add_zero M] at his
  obtain ⟨r, h', M', hrun, hQ, his'⟩ := hx 0 h his
  rw [add_zero] at his'
  show (x h).bind (fun p => f p.1 p.2) = none
  rw [hrun]
  exact hf r M' hQ h' his'

theorem Fault.bind_left (hx : Fault M x) : Fault M (x >>= f) := by
  intro h his
  show (x h).bind (fun p => f p.1 p.2) = none
  rw [hx h his]
  rfl

theorem fault_load {a : Nat} (ha : ∀ b, (a, b) ∉ M) : Fault M (load a) := by
  intro h his
  rw [load]
  cases hb : h.cells a with
  | none => rfl
  | some b => exact absurd ((his.mem_iff a b).mpr hb) (ha b)

end Whole

end Zccp.Lib
