import Mathlib

/-!
# Forests of parent pointers

`Root parent x r` says that the parent pointers lead from `x` to `r`, which has
none. Redirecting elements to their own root changes no root; giving a root a
parent in another tree changes the roots of its own tree only.
-/

namespace Forests

universe u

variable {α : Type u} {parent parent' : α → Option α} {x y p r s : α}

inductive Root (parent : α → Option α) : α → α → Prop
  | top {x : α} : parent x = none → Root parent x x
  | up {x p r : α} : parent x = some p → Root parent p r → Root parent x r

namespace Root

theorem parentless (root : Root parent x r) : parent r = none := by
  induction root with
  | top none_ => exact none_
  | up _ _ ih => exact ih

theorem unique (first : Root parent x r) (second : Root parent x s) : r = s := by
  induction first with
  | top none_ =>
    cases second with
    | top _ => rfl
    | up some_ _ => exact nomatch none_.symm.trans some_
  | up some_ _ ih =>
    cases second with
    | top none_ => exact nomatch some_.symm.trans none_
    | up some' rest =>
      obtain rfl := Option.some.inj (some_.symm.trans some')
      exact ih rest

/-- No root is above an element that is its own parent. -/
theorem not_loop (loop : parent x = some x) : ¬ Root parent x r := by
  intro root
  have stays : ∀ {y : α}, Root parent y r → y ≠ x := by
    intro y above
    induction above with
    | top none_ =>
      rintro rfl
      exact nomatch none_.symm.trans loop
    | up some_ _ ih =>
      rintro rfl
      exact ih root (Option.some.inj (some_.symm.trans loop))
  exact stays root rfl

end Root

/-- Some elements that have a parent point to their root. -/
def Compressed (parent parent' : α → Option α) : Prop :=
  ∀ x, parent' x = parent x ∨ ∃ r, parent x ≠ none ∧ Root parent x r ∧ parent' x = some r

theorem Compressed.refl (parent : α → Option α) : Compressed parent parent := fun _ => .inl rfl

theorem Root.compressed (small : Compressed parent parent') (root : Root parent x r) :
    Root parent' x r := by
  have kept : ∀ {s}, parent s = none → Root parent' s s := by
    intro s none_
    rcases small s with same | ⟨_, some_, -⟩
    · exact .top (same.trans none_)
    · exact absurd none_ some_
  induction root with
  | top none_ => exact kept none_
  | up some_ rest ih =>
    rename_i x p r
    rcases small x with same | ⟨s, -, above, jump⟩
    · exact .up (same.trans some_) ih
    · obtain rfl := above.unique (.up some_ rest)
      exact .up jump (kept rest.parentless)

/-- One more element points to its root. -/
theorem Compressed.update [DecidableEq α] (small : Compressed parent parent')
    (some_ : parent x ≠ none) (root : Root parent x r) :
    Compressed parent (Function.update parent' x (some r)) := by
  intro y
  by_cases same : y = x
  · subst same
    exact .inr ⟨r, some_, root, Function.update_self _ _ _⟩
  · rw [Function.update_of_ne same]
    exact small y

/-- The tree of the root `s` is hung below the root `r`. -/
theorem Root.link [DecidableEq α] {t : α} (root : Root parent x t) (top : parent r = none)
    (low : parent s = none) (other : r ≠ s) :
    Root (Function.update parent s (some r)) x (if t = s then r else t) := by
  induction root with
  | top none_ =>
    rename_i x
    by_cases same : x = s
    · subst same
      rw [if_pos rfl]
      exact .up (Function.update_self _ _ _) (.top ((Function.update_of_ne other _ _).trans top))
    · rw [if_neg same]
      exact .top ((Function.update_of_ne same _ _).trans none_)
  | up some_ _ ih =>
    refine .up ((Function.update_of_ne ?_ _ _).trans some_) ih
    rintro rfl
    exact nomatch low.symm.trans some_

/-- A root that becomes its own parent takes the roots of its tree away. -/
theorem Root.lost [DecidableEq α] {t : α} (root : Root parent x s) :
    ¬ Root (Function.update parent s (some s)) x t := by
  induction root with
  | top _ => exact Root.not_loop (Function.update_self _ _ _)
  | up some_ rest ih =>
    rename_i x p s
    intro above
    have apart : x ≠ s := by
      rintro rfl
      exact nomatch rest.parentless.symm.trans some_
    have other : Function.update parent s (some s) x = some p :=
      (Function.update_of_ne apart _ _).trans some_
    cases above with
    | top none_ => exact nomatch none_.symm.trans other
    | up some' above =>
      obtain rfl := Option.some.inj (other.symm.trans some')
      exact ih above

end Forests
