import Mathlib.Data.List.DropRight

namespace Library

/-!
# Spans and trimmed lists

A scan with a little memory goes through a list until it finds an element where it has to
stop.  It splits the list at the only place where it can be split so that nothing before
the place stops the scan and what stands there does.
-/

namespace Span

variable {X S : Type} (next : X -> S) (stop : S -> X -> Bool)

/-- The list up to where the scan stops, and the rest of it.  The scan remembers something
about the element before. -/
def span : S -> List X -> List X × List X
  | _, [] => ([], [])
  | s, x :: xs =>
      if stop s x then ([], x :: xs) else (x :: (span (next x) xs).1, (span (next x) xs).2)

/-- Nothing in the list stops the scan. -/
def Passes : S -> List X -> Prop
  | _, [] => True
  | s, x :: xs => stop s x = false ∧ Passes (next x) xs

/-- What is remembered behind a list. -/
def after : S -> List X -> S
  | s, [] => s
  | _, x :: xs => after (next x) xs

variable {next stop}

theorem span_append (s : S) (xs : List X) : (span next stop s xs).1 ++ (span next stop s xs).2 = xs := by
  induction xs generalizing s with
  | nil => rfl
  | cons x xs inductionHypothesis =>
      rw [span]
      split
      · rfl
      · exact congrArg (List.cons x) (inductionHypothesis (next x))

theorem passes_span (s : S) (xs : List X) : Passes next stop s (span next stop s xs).1 := by
  induction xs generalizing s with
  | nil => exact trivial
  | cons x xs inductionHypothesis =>
      rw [span]
      split
      · exact trivial
      · rename_i goesOn
        exact ⟨Bool.eq_false_iff.mpr goesOn, inductionHypothesis (next x)⟩

theorem Passes.of_append {s : S} {front back : List X} (passes : Passes next stop s (front ++ back)) :
    Passes next stop (after next s front) back := by
  induction front generalizing s with
  | nil => exact passes
  | cons x front inductionHypothesis => exact inductionHypothesis passes.2

/-- The scan stops only where it has to. -/
theorem stop_span (s : S) {xs rest : List X} {x : X} (behind : (span next stop s xs).2 = x :: rest) :
    stop (after next s (span next stop s xs).1) x = true := by
  induction xs generalizing s with
  | nil => cases behind
  | cons y xs inductionHypothesis =>
      rw [span] at behind ⊢
      split at behind
      · rename_i stops
        cases behind
        rw [if_pos stops]
        exact stops
      · rename_i goesOn
        rw [if_neg goesOn]
        exact inductionHypothesis (next y) behind

/-- There is no other place where it could stop. -/
theorem span_eq {s : S} {front back : List X} (passes : Passes next stop s front)
    (stops : forall x, back.head? = some x -> stop (after next s front) x = true) :
    span next stop s (front ++ back) = (front, back) := by
  induction front generalizing s with
  | nil =>
      cases back with
      | nil => rfl
      | cons x back => exact if_pos (stops x rfl)
  | cons x front inductionHypothesis =>
      rw [List.cons_append, span, passes.1, inductionHypothesis passes.2 stops]
      rfl

end Span

/-! ## Trimmed lists -/

namespace Trim

variable {X : Type} {blank : X -> Bool} {xs ys : List X}

/-- The list does not start with a blank. -/
def Left (blank : X -> Bool) (xs : List X) : Prop :=
  forall x, xs.head? = some x -> blank x = false

/-- The list does not end with a blank. -/
def Right (blank : X -> Bool) (xs : List X) : Prop :=
  forall x, xs.getLast? = some x -> blank x = false

theorem left_dropWhile (xs : List X) : Left blank (xs.dropWhile blank) := by
  intro x first
  have blanks := List.head?_dropWhile_not blank xs
  rw [first] at blanks
  simpa using blanks

theorem right_rdropWhile (xs : List X) : Right blank (xs.rdropWhile blank) := by
  intro x last
  have some : xs.rdropWhile blank ≠ [] := by
    intro none
    rw [none] at last
    cases last
  have same : (xs.rdropWhile blank).getLast some = x :=
    Option.some.inj ((List.getLast?_eq_some_getLast some).symm.trans last)
  rw [← same]
  exact Bool.eq_false_iff.mpr (List.rdropWhile_last_not blank xs some)

theorem Left.dropWhile_eq (left : Left blank xs) : xs.dropWhile blank = xs := by
  cases xs with
  | nil => rfl
  | cons x xs => exact List.dropWhile_cons_of_neg (Bool.eq_false_iff.mp (left x rfl))

theorem Right.rdropWhile_eq (right : Right blank xs) : xs.rdropWhile blank = xs := by
  apply List.rdropWhile_eq_self_iff.mpr
  exact fun some => Bool.eq_false_iff.mp (right _ (List.getLast?_eq_some_getLast some))

theorem Left.of_front (left : Left blank ys) (front : xs <+: ys) : Left blank xs := by
  intro x first
  rcases front with ⟨rest, rfl⟩
  apply left
  rw [List.head?_append, first]
  rfl

/-- Blanks at the end go, and so does a blank that is added there. -/
theorem rdropWhile_append_blank {x : X} (is : blank x = true) (xs : List X) :
    (xs ++ [x]).rdropWhile blank = xs.rdropWhile blank :=
  List.rdropWhile_concat_pos blank xs x is

end Trim
end Library
