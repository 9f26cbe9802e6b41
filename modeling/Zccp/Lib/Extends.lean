import Zccp.Lib.CursorList

/-!
# `Zccp/Lib/Extends.lean` — bounds that do not matter

A loop or a recursion given a bound answers `none` when the bound is used up. `Extends x y` says
that `y` answers whatever `x` answers, and possibly more; a function whose answers only get more
as its bound grows has the same answer for all bounds that are enough. The lemmas say which ways
of putting functions together keep this.
-/

set_option autoImplicit false

namespace Zccp.Lib

variable {α β σ : Type}

/-- Whatever `x` answers, `y` answers too. -/
def Extends (x y : Option α) : Prop := ∀ a, x = some a → y = some a

namespace Extends

theorem refl (x : Option α) : Extends x x := fun _ h => h

theorem none (y : Option α) : Extends Option.none y := by
  intro a h
  cases h

theorem bind {x y : Option α} {f g : α → Option β} (h : Extends x y)
    (hfg : ∀ a, x = some a → Extends (f a) (g a)) : Extends (x.bind f) (y.bind g) := by
  intro b hb
  obtain ⟨a, ha, hfa⟩ := Option.bind_eq_some_iff.mp hb
  rw [h a ha, Option.bind_some]
  exact hfg a ha b hfa

/-- The same first step, and then something that extends. -/
theorem bind_right (x : Option α) {f g : α → Option β} (hfg : ∀ a, Extends (f a) (g a)) :
    Extends (x.bind f) (x.bind g) :=
  (refl x).bind fun a _ => hfg a

theorem map {x y : Option α} (h : Extends x y) (f : α → β) : Extends (x.map f) (y.map f) := by
  intro b hb
  obtain ⟨a, ha, rfl⟩ := Option.map_eq_some_iff.mp hb
  rw [h a ha, Option.map_some]

theorem ite {p : Prop} [Decidable p] {x x' y y' : Option α} (h : p → Extends x y)
    (h' : ¬ p → Extends x' y') : Extends (if p then x else x') (if p then y else y') := by
  by_cases hp : p
  · simpa only [if_pos hp] using h hp
  · simpa only [if_neg hp] using h' hp

theorem foldlM {f g : σ → α → Option σ} (h : ∀ s a, Extends (f s a) (g s a)) (l : List α) (s : σ) :
    Extends (l.foldlM f s) (l.foldlM g s) := by
  induction l generalizing s with
  | nil => exact refl _
  | cons a l ih =>
    rw [List.foldlM_cons, List.foldlM_cons]
    exact (h s a).bind fun s' _ => ih s'

end Extends

namespace CursorList

/-- A walk with a larger bound goes through the same steps. By induction on the smaller bound: as long as it
lasts, both walks are at the same element, and where it ends with a result the list has ended too. -/
theorem walk_extends (get : σ → CursorList α) (set : CursorList α → σ → σ)
    {body body' : Nat → σ → Option σ} (h : ∀ i s, Extends (body i s) (body' i s)) {f f' : Nat}
    (hf : f ≤ f') (s : σ) : Extends (walk get set body f s) (walk get set body' f' s) := by
  induction f generalizing f' s with
  | zero =>
    -- a walk without room is one that has arrived
    intro a ha
    simp only [walk] at ha
    split at ha
    · next hc =>
      cases f' with
      | zero => simpa only [walk, if_pos hc] using ha
      | succ f' => simpa only [walk, hc] using ha
    · cases ha
  | succ f ih =>
    obtain ⟨g, rfl⟩ : ∃ g, f' = g + 1 := ⟨f' - 1, by omega⟩
    simp only [walk]
    cases (get s).cursor with
    | none => exact .refl _
    | some i => exact (h i s).bind fun s' _ => ih (by omega) _

theorem forEach_extends (get : σ → CursorList α) (set : CursorList α → σ → σ)
    {body body' : Nat → σ → Option σ} (h : ∀ i s, Extends (body i s) (body' i s)) {f f' : Nat}
    (hf : f ≤ f') (s : σ) : Extends (forEach get set body f s) (forEach get set body' f' s) :=
  walk_extends get set h hf _

/-- The same for a search, which stops at the first hit. -/
theorem seekFrom_extends (p : α → Bool) {f f' : Nat} (hf : f ≤ f') (l : CursorList α) :
    Extends (seekFrom p f l) (seekFrom p f' l) := by
  induction f generalizing f' l with
  | zero =>
    intro a ha
    simp only [seekFrom] at ha
    split at ha
    · next hc =>
      cases f' with
      | zero => simpa only [seekFrom, if_pos hc] using ha
      | succ f' => simpa only [seekFrom, hc] using ha
    · cases ha
  | succ f ih =>
    obtain ⟨g, rfl⟩ : ∃ g, f' = g + 1 := ⟨f' - 1, by omega⟩
    simp only [seekFrom]
    cases l.cursor with
    | none => exact .refl _
    | some i =>
      cases hx : l.items[i]? with
      | none =>
        simp only [hx]
        exact .refl _
      | some x =>
        simp only [hx]
        exact .ite (fun _ => .refl _) fun _ => ih (Nat.le_of_succ_le_succ hf) _

theorem seek_extends (p : α → Bool) {f f' : Nat} (hf : f ≤ f') (l : CursorList α) :
    Extends (seek p f l) (seek p f' l) :=
  seekFrom_extends p hf _

end CursorList

end Zccp.Lib
