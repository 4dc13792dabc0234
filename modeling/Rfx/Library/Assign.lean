import Mathlib.Data.List.Basic
import Mathlib.Logic.Function.Basic

namespace Library
namespace Assign

/-!
# Assignments in a row

Each assignment gives one place a value.  Behind all of them a place has the value
of the last one that it got, so that nothing has changed exactly if the last value
of every assigned place is the one that it had.
-/

variable {K V : Type}

/-- An assignment that no later one overwrites. -/
def Last (writes : List (K × V)) (w : K × V) : Prop :=
  Exists fun front => Exists fun back => writes = front ++ w :: back ∧
    forall later, later ∈ back -> later.1 ≠ w.1

theorem Last.cons {writes : List (K × V)} {w : K × V} (last : Last writes w) (first : K × V) :
    Last (first :: writes) w := by
  rcases last with ⟨front, back, rfl, untouched⟩
  exact ⟨first :: front, back, rfl, untouched⟩

/-- A place that something is assigned to has a last assignment. -/
theorem exists_last {writes : List (K × V)} {w : K × V} (member : w ∈ writes) :
    Exists fun last => Last writes last ∧ last.1 = w.1 := by
  induction writes generalizing w with
  | nil => cases member
  | cons first writes inductionHypothesis =>
      by_cases again : Exists fun later => later ∈ writes ∧ later.1 = w.1
      · rcases again with ⟨later, inside, sameKey⟩
        rcases inductionHypothesis inside with ⟨last, isLast, same⟩
        exact ⟨last, isLast.cons first, same.trans sameKey⟩
      · rcases List.mem_cons.mp member with rfl | inside
        · exact ⟨w, ⟨[], writes, rfl, fun later inside same => again ⟨later, inside, same⟩⟩, rfl⟩
        · exact absurd ⟨w, inside, rfl⟩ again

variable [DecidableEq K]

/-- Make all assignments. -/
def assignAll (f : K -> V) (writes : List (K × V)) : K -> V :=
  writes.foldl (fun g w => Function.update g w.1 w.2) f

theorem assignAll_cons (f : K -> V) (w : K × V) (writes : List (K × V)) :
    assignAll f (w :: writes) = assignAll (Function.update f w.1 w.2) writes := rfl

theorem assignAll_append (f : K -> V) (first second : List (K × V)) :
    assignAll f (first ++ second) = assignAll (assignAll f first) second :=
  List.foldl_append

/-- A place that nothing is assigned to keeps its value. -/
theorem assignAll_of_forall_ne {writes : List (K × V)} {k : K} (f : K -> V)
    (untouched : forall w, w ∈ writes -> w.1 ≠ k) : assignAll f writes k = f k := by
  induction writes generalizing f with
  | nil => rfl
  | cons w writes inductionHypothesis =>
      rw [List.forall_mem_cons] at untouched
      rw [assignAll_cons, inductionHypothesis _ untouched.2, Function.update_of_ne untouched.1.symm]

/-- The last assignment to a place wins. -/
theorem assignAll_of_last {writes : List (K × V)} {w : K × V} (f : K -> V) (last : Last writes w) :
    assignAll f writes w.1 = w.2 := by
  rcases last with ⟨front, back, rfl, untouched⟩
  rw [assignAll_append, assignAll_cons, assignAll_of_forall_ne _ untouched, Function.update_self]

/-- Assignments change nothing exactly if the last one of every place does not. -/
theorem assignAll_eq_self_iff {f : K -> V} {writes : List (K × V)} :
    assignAll f writes = f <-> forall w, Last writes w -> f w.1 = w.2 := by
  constructor
  · intro same w last
    rw [← assignAll_of_last f last, same]
  · intro kept
    funext k
    by_cases touched : Exists fun w => w ∈ writes ∧ w.1 = k
    · rcases touched with ⟨w, member, rfl⟩
      rcases exists_last member with ⟨last, isLast, same⟩
      rw [← same, assignAll_of_last f isLast, kept last isLast]
    · exact assignAll_of_forall_ne f fun w member same => touched ⟨w, member, same⟩

end Assign
end Library
