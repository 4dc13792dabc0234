import Mathlib.Data.List.Basic

namespace Library
namespace Unique

/-!
# At most one match

Where no two elements of a list, at different places, satisfy a predicate, a loop
that stops at the first such element and one that goes through all of them come
to the same.
-/

variable {E : Type}

theorem length_filter_le_one {p : E -> Bool} {l : List E} :
    (l.filter p).length ≤ 1 <-> l.Pairwise fun a b => ¬ (p a = true ∧ p b = true) := by
  induction l with
  | nil => simp
  | cons a l inductionHypothesis =>
      rw [List.pairwise_cons, ← inductionHypothesis]
      by_cases here : p a = true
      · rw [List.filter_cons_of_pos here, List.length_cons]
        constructor
        · intro atMostOne
          have none : l.filter p = [] := List.length_eq_zero_iff.mp (by omega)
          refine ⟨fun b member both => ?_, by rw [none]; exact Nat.zero_le 1⟩
          exact List.filter_eq_nil_iff.mp none b member both.2
        · rintro ⟨alone, _⟩
          have none : l.filter p = [] :=
            List.filter_eq_nil_iff.mpr fun b member there => alone b member ⟨here, there⟩
          rw [none]
          exact Nat.le_refl 1
      · rw [List.filter_cons_of_neg here]
        constructor
        · exact fun atMostOne => ⟨fun b _ both => here both.1, atMostOne⟩
        · exact fun rest => rest.2

/-- Where what comes before or behind an element does not satisfy the predicate with it,
only this element is left. -/
theorem filter_eq_singleton {R : E -> E -> Prop} {p : E -> Bool} {l : List E} {e : E}
    (apart : l.Pairwise R) (member : e ∈ l) (here : p e = true)
    (others : forall a, a ∈ l -> R a e ∨ R e a -> ¬ p a = true) : l.filter p = [e] := by
  rcases List.append_of_mem member with ⟨front, back, rfl⟩
  rcases List.pairwise_append.mp apart with ⟨_, behind, across⟩
  have noneBefore : front.filter p = [] :=
    List.filter_eq_nil_iff.mpr fun a inFront =>
      others a (List.mem_append_left _ inFront) (Or.inl (across a inFront e List.mem_cons_self))
  have noneBehind : back.filter p = [] :=
    List.filter_eq_nil_iff.mpr fun a inBack =>
      others a (List.mem_append_right _ (List.mem_cons_of_mem _ inBack))
        (Or.inr ((List.pairwise_cons.mp behind).1 a inBack))
  rw [List.filter_append, List.filter_cons_of_pos here, noneBefore, noneBehind, List.nil_append]

/-- The first match is the only one. -/
theorem filter_eq_find {p : E -> Bool} {l : List E} (atMostOne : (l.filter p).length ≤ 1) :
    l.filter p = (l.find? p).toList := by
  rw [← List.head?_filter]
  match filtered : l.filter p with
  | [] => rfl
  | [a] => rfl
  | _ :: _ :: _ =>
      rw [filtered] at atMostOne
      simp at atMostOne

theorem find_eq_some {p : E -> Bool} {l : List E} {e : E} (only : l.filter p = [e]) :
    l.find? p = some e := by
  rw [← List.head?_filter, only]
  rfl

end Unique
end Library
