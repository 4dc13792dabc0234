import Mathlib.Data.List.Basic

namespace Library

/-!
# Lists with some elements left out
-/

variable {X : Type} {P Q : X -> Prop} {xs xs' ys ys' : List X}

/-- The second list is the first one without some of the elements that may be left out. -/
inductive Omits (P : X -> Prop) : List X -> List X -> Prop
  | nil : Omits P [] []
  | keep {xs ys : List X} (x : X) (rest : Omits P xs ys) : Omits P (x :: xs) (x :: ys)
  | leave {xs ys : List X} (x : X) (may : P x) (rest : Omits P xs ys) : Omits P (x :: xs) ys

namespace Omits

theorem append (front : Omits P xs ys) (back : Omits P xs' ys') : Omits P (xs ++ xs') (ys ++ ys') := by
  induction front with
  | nil => exact back
  | keep x _ inductionHypothesis => exact .keep x inductionHypothesis
  | leave x may _ inductionHypothesis => exact .leave x may inductionHypothesis

/-- Nothing is left out. -/
theorem refl (P : X -> Prop) (xs : List X) : Omits P xs xs := by
  induction xs with
  | nil => exact .nil
  | cons x xs inductionHypothesis => exact .keep x inductionHypothesis

end Omits
end Library
