import Mathlib.Data.List.Basic

namespace Library
namespace Scan

variable {X : Type}

/-!
# Looking for two adjacent elements

A scan goes through a list until two adjacent elements are related, and yields
what follows them.  A pair at the very end, with nothing behind it, does not
count.  Two scans with different relations find the same place exactly if the
first place that one of them would accept is one that the other accepts too.
-/

/-- The elements at `k` and behind it are related. -/
def HoldsAt (related : X -> X -> Prop) (xs : List X) (k : Nat) : Prop :=
  Exists fun a => Exists fun b => xs[k]? = some a ∧ xs[k + 1]? = some b ∧ related a b

/-- What follows the first two adjacent elements that are related. -/
def afterFirst (related : X -> X -> Prop) [DecidableRel related] : List X -> Option (List X)
  | a :: b :: c :: xs =>
      if related a b then some (c :: xs) else afterFirst related (b :: c :: xs)
  | _ => none

/-- The first place where the relation holds, with something behind it. -/
structure First (related : X -> X -> Prop) (xs : List X) (k : Nat) : Prop where
  behind : k + 2 < xs.length
  holds : HoldsAt related xs k
  least : forall j, j < k -> ¬ HoldsAt related xs j

section Places

variable {related : X -> X -> Prop}

@[simp] theorem holdsAt_zero (a b : X) (xs : List X) :
    HoldsAt related (a :: b :: xs) 0 <-> related a b := by
  simp [HoldsAt]

@[simp] theorem holdsAt_succ (a : X) (xs : List X) (k : Nat) :
    HoldsAt related (a :: xs) (k + 1) <-> HoldsAt related xs k := by
  simp [HoldsAt]

/-- There is at most one first place. -/
theorem First.unique {xs : List X} {j k : Nat} (first : First related xs j)
    (second : First related xs k) : j = k := by
  rcases Nat.lt_trichotomy j k with before | same | behind
  · exact absurd first.holds (second.least j before)
  · exact same
  · exact absurd second.holds (first.least k behind)

theorem First.zero {a b c : X} {xs : List X} (holds : related a b) :
    First related (a :: b :: c :: xs) 0 where
  behind := by simp
  holds := (holdsAt_zero _ _ _).mpr holds
  least := fun j before => absurd before (Nat.not_lt_zero j)

theorem First.succ {a b : X} {xs : List X} {k : Nat} (not : ¬ related a b)
    (first : First related (b :: xs) k) : First related (a :: b :: xs) (k + 1) where
  behind := Nat.succ_lt_succ first.behind
  holds := (holdsAt_succ _ _ _).mpr first.holds
  least := by
    intro j before
    cases j with
    | zero => exact fun holds => not ((holdsAt_zero _ _ _).mp holds)
    | succ j =>
        intro holds
        exact first.least j (Nat.lt_of_succ_lt_succ before) ((holdsAt_succ _ _ _).mp holds)

end Places

variable (related : X -> X -> Prop) [DecidableRel related]

/-- A scan finds the first place, or there is no place. -/
theorem outcome (xs : List X) :
    (Exists fun k => First related xs k ∧ afterFirst related xs = some (xs.drop (k + 2))) ∨
      (forall k, k + 2 < xs.length -> ¬ HoldsAt related xs k) ∧ afterFirst related xs = none := by
  induction xs with
  | nil => exact Or.inr ⟨fun k behind => absurd behind (Nat.not_lt_zero (k + 2)), rfl⟩
  | cons a tail inductionHypothesis =>
      match tail, inductionHypothesis with
      | [], _ => exact Or.inr ⟨fun k behind => absurd behind (by simp), rfl⟩
      | [_], _ => exact Or.inr ⟨fun k behind => absurd behind (by simp), rfl⟩
      | b :: c :: xs, inductionHypothesis =>
          rw [afterFirst]
          split
          · rename_i holds
            exact Or.inl ⟨0, .zero holds, rfl⟩
          · rename_i not
            rcases inductionHypothesis with ⟨k, first, same⟩ | ⟨none, same⟩
            · exact Or.inl ⟨k + 1, .succ not first, same⟩
            · refine Or.inr ⟨?_, same⟩
              intro k behind
              cases k with
              | zero => exact fun holds => not ((holdsAt_zero _ _ _).mp holds)
              | succ k =>
                  intro holds
                  exact none k (Nat.lt_of_succ_lt_succ behind) ((holdsAt_succ _ _ _).mp holds)

variable {related}

theorem afterFirst_of_first {xs : List X} {k : Nat} (first : First related xs k) :
    afterFirst related xs = some (xs.drop (k + 2)) := by
  rcases outcome related xs with ⟨j, other, same⟩ | ⟨none, _⟩
  · rw [same, other.unique first]
  · exact absurd first.holds (none k first.behind)

/-- A scan for a stronger relation finds the same place exactly if the first
place of the weaker one satisfies the stronger one too. -/
theorem afterFirst_eq_iff {stronger : X -> X -> Prop} [DecidableRel stronger]
    (weaken : forall a b, stronger a b -> related a b) (xs : List X) :
    afterFirst related xs = afterFirst stronger xs <->
      forall k, First related xs k -> HoldsAt stronger xs k := by
  have weakenAt {k : Nat} (holds : HoldsAt stronger xs k) : HoldsAt related xs k := by
    rcases holds with ⟨a, b, here, next, holds⟩
    exact ⟨a, b, here, next, weaken a b holds⟩
  constructor
  · intro same k first
    rw [afterFirst_of_first first] at same
    rcases outcome stronger xs with ⟨j, other, found⟩ | ⟨_, found⟩
    · have lengths := congrArg List.length (Option.some.inj (same.trans found))
      have front := first.behind
      have back := other.behind
      simp only [List.length_drop] at lengths
      have places : k = j := by omega
      exact places ▸ other.holds
    · cases same.trans found
  · intro accepted
    rcases outcome related xs with ⟨k, first, found⟩ | ⟨none, found⟩
    · have other : First stronger xs k :=
        ⟨first.behind, accepted k first, fun j before holds => first.least j before (weakenAt holds)⟩
      rw [found, afterFirst_of_first other]
    · rcases outcome stronger xs with ⟨k, second, _⟩ | ⟨_, nothing⟩
      · exact absurd (weakenAt second.holds) (none k second.behind)
      · rw [found, nothing]

end Scan
end Library
