import Mathlib.Data.Nat.Basic

namespace Library
namespace Loop

variable {S R : Type}

/-!
# Loops and what they return

One turn of a loop yields the next state or a result.  `run` makes turns as long as
there is fuel, and `Returns` says which result comes out with fuel enough, so that a
loop that goes on for ever returns nothing.  There is one rule for what every result
satisfies, and one for loops in which some measure goes down with every turn.
-/

/-- The end of a turn. -/
inductive Step (S R : Type)
  | next (s : S)
  | done (r : R)

/-- Make turns until there is a result, or the fuel is used up. -/
def run (body : S -> Step S R) : Nat -> S -> Option R
  | 0, _ => none
  | fuel + 1, s =>
      match body s with
      | .next s => run body fuel s
      | .done r => some r

/-- The loop returns a result, if it gets enough fuel. -/
def Returns (body : S -> Step S R) (s : S) (r : R) : Prop :=
  Exists fun fuel => run body fuel s = some r

variable {body : S -> Step S R} {s next : S} {r other : R}

theorem run_of_next (more : body s = .next next) (fuel : Nat) :
    run body (fuel + 1) s = run body fuel next := by
  rw [run, more]

theorem run_of_done (last : body s = .done r) (fuel : Nat) : run body (fuel + 1) s = some r := by
  rw [run, last]

theorem returns_of_next (more : body s = .next next) : Returns body s r <-> Returns body next r := by
  constructor
  · rintro ⟨fuel, ran⟩
    cases fuel with
    | zero => cases ran
    | succ fuel => exact ⟨fuel, (run_of_next more fuel).symm.trans ran⟩
  · rintro ⟨fuel, ran⟩
    exact ⟨fuel + 1, (run_of_next more fuel).trans ran⟩

theorem returns_of_done (last : body s = .done r) : Returns body s other <-> other = r := by
  constructor
  · rintro ⟨fuel, ran⟩
    cases fuel with
    | zero => cases ran
    | succ fuel => exact Option.some.inj (ran.symm.trans (run_of_done last fuel))
  · intro same
    exact ⟨1, same ▸ run_of_done last 0⟩

/-- More fuel changes nothing. -/
theorem run_of_le {fuel more : Nat} (ran : run body fuel s = some r) (le : fuel ≤ more) :
    run body more s = some r := by
  induction fuel generalizing s more with
  | zero => cases ran
  | succ fuel inductionHypothesis =>
      cases more with
      | zero => exact absurd le (Nat.not_succ_le_zero fuel)
      | succ more =>
          cases turn : body s with
          | next next =>
              rw [run_of_next turn] at ran ⊢
              exact inductionHypothesis ran (Nat.le_of_succ_le_succ le)
          | done last =>
              rw [run_of_done turn] at ran ⊢
              exact ran

/-- What every turn preserves holds when the loop returns. -/
theorem post_of_returns (invariant : S -> Prop) (post : R -> Prop)
    (preserved : forall s next, invariant s -> body s = .next next -> invariant next)
    (exits : forall s r, invariant s -> body s = .done r -> post r)
    (start : invariant s) (returned : Returns body s r) : post r := by
  rcases returned with ⟨fuel, ran⟩
  induction fuel generalizing s with
  | zero => cases ran
  | succ fuel inductionHypothesis =>
      cases turn : body s with
      | next next =>
          rw [run_of_next turn] at ran
          exact inductionHypothesis (preserved s next start turn) ran
      | done last =>
          rw [run_of_done turn] at ran
          cases ran
          exact exits s _ start turn

/-- There is only one result. -/
theorem Returns.unique (returned : Returns body s r) (again : Returns body s other) : r = other := by
  rcases returned with ⟨fuel, ran⟩
  induction fuel generalizing s with
  | zero => cases ran
  | succ fuel inductionHypothesis =>
      cases turn : body s with
      | next next =>
          rw [run_of_next turn] at ran
          exact inductionHypothesis ((returns_of_next turn).mp again) ran
      | done last =>
          rw [run_of_done turn] at ran
          cases ran
          exact ((returns_of_done turn).mp again).symm

/-- A loop returns if every turn is the last one, or makes a measure smaller. -/
theorem returns_of_turns (invariant : S -> Prop) (post : R -> Prop) (measure : S -> Nat)
    (turn : forall s, invariant s ->
      (Exists fun next => body s = .next next ∧ invariant next ∧ measure next < measure s) ∨
        Exists fun r => body s = .done r ∧ post r)
    (start : invariant s) : Exists fun r => Returns body s r ∧ post r := by
  induction measured : measure s using Nat.strongRecOn generalizing s with
  | ind n inductionHypothesis =>
      rcases turn s start with ⟨next, more, kept, less⟩ | ⟨r, last, holds⟩
      · rcases inductionHypothesis _ (measured ▸ less) kept rfl with ⟨r, returned, holds⟩
        exact ⟨r, (returns_of_next more).mpr returned, holds⟩
      · exact ⟨r, (returns_of_done last).mpr rfl, holds⟩

/-- The same rule for a result that is known. -/
theorem returns_result (invariant : S -> Prop) (measure : S -> Nat)
    (turn : forall s, invariant s ->
      (Exists fun next => body s = .next next ∧ invariant next ∧ measure next < measure s) ∨
        body s = .done r)
    (start : invariant s) : Returns body s r := by
  apply exists_eq_right.mp
  apply returns_of_turns invariant (fun result => result = r) measure ?_ start
  intro s holds
  rcases turn s holds with more | last
  · exact Or.inl more
  · exact Or.inr ⟨r, last, rfl⟩

end Loop
end Library
