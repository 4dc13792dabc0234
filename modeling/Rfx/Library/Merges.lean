import Mathlib.Data.List.Basic

namespace Library

/-!
# Merged lists
-/

variable {X B : Type} {xs ys zs xs' ys' zs' : List X}

/-- The third list consists of the other two, each of them in order. -/
inductive Merges : List X -> List X -> List X -> Prop
  | nil : Merges [] [] []
  | left {xs ys zs : List X} (x : X) (rest : Merges xs ys zs) : Merges (x :: xs) ys (x :: zs)
  | right {xs ys zs : List X} (y : X) (rest : Merges xs ys zs) : Merges xs (y :: ys) (y :: zs)

namespace Merges

theorem append (front : Merges xs ys zs) (back : Merges xs' ys' zs') :
    Merges (xs ++ xs') (ys ++ ys') (zs ++ zs') := by
  induction front with
  | nil => exact back
  | left x _ inductionHypothesis => exact .left x inductionHypothesis
  | right y _ inductionHypothesis => exact .right y inductionHypothesis

theorem appendLeft (merged : Merges xs ys zs) (x : X) : Merges (xs ++ [x]) ys (zs ++ [x]) :=
  List.append_nil ys ▸ merged.append (.left x .nil)

theorem appendRight (merged : Merges xs ys zs) (y : X) : Merges xs (ys ++ [y]) (zs ++ [y]) :=
  List.append_nil xs ▸ merged.append (.right y .nil)

theorem mem_left (merged : Merges xs ys zs) {x : X} (member : x ∈ xs) : x ∈ zs := by
  induction merged with
  | nil => exact member
  | left first _ inductionHypothesis =>
      rcases List.mem_cons.mp member with rfl | later
      · exact List.mem_cons_self
      · exact List.mem_cons_of_mem first (inductionHypothesis later)
  | right y _ inductionHypothesis => exact List.mem_cons_of_mem y (inductionHypothesis member)

/-- Elements that change nothing may as well be missing. -/
theorem foldl_eq (merged : Merges xs ys zs) {f : B -> X -> B}
    (idle : forall y, y ∈ ys -> forall b, f b y = b) (b : B) : zs.foldl f b = xs.foldl f b := by
  induction merged generalizing b with
  | nil => rfl
  | left x _ inductionHypothesis => exact inductionHypothesis idle (f b x)
  | right y _ inductionHypothesis =>
      rcases List.forall_mem_cons.mp idle with ⟨first, later⟩
      rw [List.foldl_cons, first]
      exact inductionHypothesis later b

end Merges
end Library
