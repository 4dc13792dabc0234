import Mathlib.Data.List.Basic

namespace Library
namespace Calls

/-!
# Calls with a verdict

A list of calls is made on a state, one after the other.  Each call changes the
state and says whether it was accepted; a call may have no result.  Where an
accepted call replaces what the state holds under its key and nothing else ever
changes that, the state holds what the last accepted call left there.
-/

variable {S C : Type}

/-- Make all calls, and collect them with their verdicts. -/
def performAll (call : S -> C -> Option (S × Bool)) : S -> List C -> Option (S × List (C × Bool))
  | s, [] => some (s, [])
  | s, c :: calls =>
      (call s c).bind fun first =>
        (performAll call first.1 calls).map fun rest => (rest.1, (c, first.2) :: rest.2)

variable {call : S -> C -> Option (S × Bool)}

@[simp] theorem performAll_nil (s : S) : performAll call s [] = some (s, []) := rfl

theorem performAll_cons {s final : S} {c : C} {calls : List C} {answered : List (C × Bool)} :
    performAll call s (c :: calls) = some (final, answered) <->
      Exists fun middle => Exists fun accepted => Exists fun rest =>
        call s c = some (middle, accepted) ∧ performAll call middle calls = some (final, rest) ∧
          answered = (c, accepted) :: rest := by
  simp only [performAll, Option.bind_eq_some_iff, Option.map_eq_some_iff, Prod.exists,
    Prod.mk.injEq]
  constructor
  · rintro ⟨middle, accepted, first, last, rest, performed, same, answeredEq⟩
    exact ⟨middle, accepted, rest, first, same ▸ performed, answeredEq.symm⟩
  · rintro ⟨middle, accepted, rest, first, performed, answeredEq⟩
    exact ⟨middle, accepted, first, final, rest, performed, rfl, answeredEq.symm⟩

theorem performAll_append {s final : S} {front back : List C} {answered : List (C × Bool)} :
    performAll call s (front ++ back) = some (final, answered) <->
      Exists fun middle => Exists fun first => Exists fun second =>
        performAll call s front = some (middle, first) ∧
          performAll call middle back = some (final, second) ∧ answered = first ++ second := by
  induction front generalizing s answered with
  | nil =>
      constructor
      · exact fun performed => ⟨s, [], answered, rfl, performed, rfl⟩
      · rintro ⟨middle, first, second, none, performed, same⟩
        cases none
        exact same ▸ performed
  | cons c front inductionHypothesis =>
      rw [List.cons_append, performAll_cons]
      constructor
      · rintro ⟨next, accepted, rest, called, performed, same⟩
        rcases inductionHypothesis.mp performed with ⟨middle, first, second, before, after, both⟩
        exact ⟨middle, (c, accepted) :: first, second,
          performAll_cons.mpr ⟨next, accepted, first, called, before, rfl⟩, after,
          by rw [same, both, List.cons_append]⟩
      · rintro ⟨middle, answeredFront, second, before, after, same⟩
        rcases performAll_cons.mp before with ⟨next, accepted, first, called, performed, front⟩
        refine ⟨next, accepted, first ++ second, called, ?_, ?_⟩
        · exact inductionHypothesis.mpr ⟨middle, first, second, performed, after, rfl⟩
        · rw [same, front, List.cons_append]

/-- Every call is answered once, in order. -/
theorem performAll_calls {s final : S} {calls : List C} {answered : List (C × Bool)}
    (performed : performAll call s calls = some (final, answered)) :
    answered.map Prod.fst = calls := by
  induction calls generalizing s answered with
  | nil =>
      cases performed
      rfl
  | cons c calls inductionHypothesis =>
      rcases performAll_cons.mp performed with ⟨_, _, _, _, later, same⟩
      rw [same, List.map_cons, inductionHypothesis later]

/-- A relation that every call keeps, whatever its verdict, is kept by all calls. -/
theorem performAll_relation {related : S -> S -> Prop} {s final : S} {calls : List C}
    {answered : List (C × Bool)} (refl : forall s, related s s)
    (trans : forall a b c, related a b -> related b c -> related a c)
    (kept : forall c, c ∈ calls -> forall s next accepted,
      call s c = some (next, accepted) -> related s next)
    (performed : performAll call s calls = some (final, answered)) : related s final := by
  induction calls generalizing s answered with
  | nil =>
      cases performed
      exact refl final
  | cons c calls inductionHypothesis =>
      rcases performAll_cons.mp performed with ⟨middle, accepted, rest, called, later, _⟩
      exact trans _ _ _ (kept c List.mem_cons_self s middle accepted called)
        (inductionHypothesis (fun other member => kept other (List.mem_cons_of_mem _ member)) later)

section LastAccepted

variable {K X : Type} [DecidableEq K] (key : C -> K)

/-- The last call under a key that was accepted. -/
def lastAccepted (k : K) (answered : List (C × Bool)) : Option C :=
  (answered.filter fun a => key a.1 = k ∧ a.2 = true).getLast?.map Prod.fst

theorem lastAccepted_append (k : K) (first second : List (C × Bool)) :
    lastAccepted key k (first ++ second) =
      (lastAccepted key k second).or (lastAccepted key k first) := by
  simp only [lastAccepted, List.filter_append, List.getLast?_append, Option.map_or]

theorem lastAccepted_cons (k : K) (a : C × Bool) (answered : List (C × Bool)) :
    lastAccepted key k (a :: answered) =
      (lastAccepted key k answered).or (if key a.1 = k ∧ a.2 = true then some a.1 else none) := by
  have split := lastAccepted_append key k [a] answered
  by_cases here : key a.1 = k ∧ a.2 = true
  · simpa [lastAccepted, here] using split
  · simp [lastAccepted, here]

/-- Some call under the key was accepted. -/
theorem lastAccepted_isSome {k : K} {answered : List (C × Bool)} :
    (lastAccepted key k answered).isSome = true <->
      Exists fun c => (c, true) ∈ answered ∧ key c = k := by
  simp [lastAccepted, and_comm]

/-- A call with another key leaves alone what the state holds under `k`, and a
call with this key replaces it when it is accepted. -/
def ReplacesAt (call : S -> C -> Option (S × Bool)) (get : S -> X) (stored : C -> X) (k : K)
    (c : C) : Prop :=
  forall s next accepted, call s c = some (next, accepted) ->
    get next = if key c = k ∧ accepted = true then stored c else get s

/-- The last accepted call wins. -/
theorem get_performAll {get : S -> X} {stored : C -> X} {k : K} {s final : S} {calls : List C}
    {answered : List (C × Bool)}
    (replaces : forall c, c ∈ calls -> ReplacesAt key call get stored k c)
    (performed : performAll call s calls = some (final, answered)) :
    get final = ((lastAccepted key k answered).map stored).getD (get s) := by
  induction calls generalizing s answered with
  | nil =>
      cases performed
      rfl
  | cons c calls inductionHypothesis =>
      rcases performAll_cons.mp performed with ⟨middle, accepted, rest, called, later, same⟩
      have first := replaces c List.mem_cons_self s middle accepted called
      have last := inductionHypothesis
        (fun other member => replaces other (List.mem_cons_of_mem _ member)) later
      rw [last, same, lastAccepted_cons]
      cases lastAccepted key k rest with
      | some other => rfl
      | none =>
          rw [first]
          by_cases here : key c = k ∧ accepted = true
          · simp [here]
          · simp [here]

end LastAccepted

end Calls
end Library
