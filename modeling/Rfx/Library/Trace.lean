import Mathlib.Data.List.Basic

namespace Library

/-!
# Traces

A program that only prints and writes is described by what it does, in order, and
by how it ends.  Behind a fault nothing more happens; a loop whose fuel is used up is still
running.  Traces are put together by `andThen`, for every element of a list by
`sequence`, and by `loop`.

With more fuel a program only gets further.  So whether it ends, and what it does
whatever its fuel, can be told of its parts.
-/

/-- How a program ends. -/
inductive Ending
  | returned
  | faulted
  | running
  deriving DecidableEq

/-- What a program does, and how it ends. -/
structure Trace (E : Type) where
  events : List E
  ending : Ending

namespace Trace

variable {E S X : Type}

/-- The program returns. -/
def Returns (trace : Trace E) : Prop :=
  trace.ending = .returned

/-- Every event satisfies a condition. -/
def Always (p : E -> Prop) (trace : Trace E) : Prop :=
  forall e, e ∈ trace.events -> p e

/-- Do something and return. -/
def emit (events : List E) : Trace E :=
  ⟨events, .returned⟩

/-- Run the second program when the first one returns. -/
def andThen (first second : Trace E) : Trace E :=
  match first.ending with
  | .returned => ⟨first.events ++ second.events, second.ending⟩
  | .faulted | .running => first

@[simp] theorem returns_emit (events : List E) : (emit events).Returns := rfl

@[simp] theorem always_emit {p : E -> Prop} {events : List E} :
    (emit events).Always p <-> forall e, e ∈ events -> p e := Iff.rfl

theorem andThen_of_returns {first : Trace E} (returned : first.Returns) (second : Trace E) :
    first.andThen second = ⟨first.events ++ second.events, second.ending⟩ := by
  unfold andThen
  rw [returned]

theorem andThen_of_not_returns {first : Trace E} (stopped : ¬ first.Returns) (second : Trace E) :
    first.andThen second = first := by
  unfold andThen
  split
  · next returned => exact absurd returned stopped
  · rfl
  · rfl

@[simp] theorem returns_andThen {first second : Trace E} :
    (first.andThen second).Returns <-> first.Returns ∧ second.Returns := by
  by_cases returned : first.Returns
  · rw [andThen_of_returns returned]
    exact (and_iff_right returned).symm
  · rw [andThen_of_not_returns returned]
    exact iff_of_false returned fun both => returned both.1

theorem always_andThen {p : E -> Prop} {first second : Trace E} :
    (first.andThen second).Always p <->
      first.Always p ∧ (first.Returns -> second.Always p) := by
  by_cases returned : first.Returns
  · rw [andThen_of_returns returned]
    simp only [Always, List.mem_append, or_imp, forall_and, returned, forall_const]
  · rw [andThen_of_not_returns returned]
    exact ⟨fun all => ⟨all, fun returns => absurd returns returned⟩, And.left⟩

theorem events_prefix_andThen (first second : Trace E) :
    first.events <+: (first.andThen second).events := by
  by_cases returned : first.Returns
  · rw [andThen_of_returns returned]
    exact List.prefix_append ..
  · exact ⟨[], by rw [andThen_of_not_returns returned, List.append_nil]⟩

/-! ## One program for every element of a list -/

def sequence (f : X -> Trace E) : List X -> Trace E
  | [] => emit []
  | x :: xs => (f x).andThen (sequence f xs)

/-! ## Loops -/

/-- Run a body until it yields no state to go on with. -/
def loop (body : S -> List E × Option S) : Nat -> S -> Trace E
  | 0, _ => ⟨[], .running⟩
  | fuel + 1, s =>
      match (body s).2 with
      | none => emit (body s).1
      | some next => (emit (body s).1).andThen (loop body fuel next)

/-- The program returns, if it gets enough fuel. -/
def Ends (f : Nat -> Trace E) : Prop :=
  Exists fun fuel => (f fuel).Returns

/-- Whatever the fuel, every event satisfies a condition. -/
def Throughout (p : E -> Prop) (f : Nat -> Trace E) : Prop :=
  forall fuel, (f fuel).Always p

variable {body : S -> List E × Option S}

theorem loop_of_none {s : S} (last : (body s).2 = none) (fuel : Nat) :
    loop body (fuel + 1) s = emit (body s).1 := by
  rw [loop, last]

theorem loop_of_some {s next : S} (more : (body s).2 = some next) (fuel : Nat) :
    loop body (fuel + 1) s = (emit (body s).1).andThen (loop body fuel next) := by
  rw [loop, more]

theorem not_returns_loop_zero (s : S) : ¬ (loop body 0 s).Returns :=
  fun returned => by cases returned

/-- The rule for what a loop does: what the body preserves, and what it does then. -/
theorem throughout_loop {p : E -> Prop} (invariant : S -> Prop)
    (does : forall s, invariant s -> forall e, e ∈ (body s).1 -> p e)
    (preserved : forall s next, invariant s -> (body s).2 = some next -> invariant next)
    {s : S} (start : invariant s) : Throughout p fun fuel => loop body fuel s := by
  intro fuel
  dsimp only
  induction fuel generalizing s with
  | zero => exact fun e member => absurd member List.not_mem_nil
  | succ fuel inductionHypothesis =>
      cases followed : (body s).2 with
      | none =>
          rw [loop_of_none followed]
          exact does s start
      | some next =>
          rw [loop_of_some followed, always_andThen]
          exact ⟨does s start, fun _ => inductionHypothesis (preserved s next start followed)⟩

/-- What the first round does. -/
theorem Throughout.first {p : E -> Prop} {s : S} (all : Throughout p fun fuel => loop body fuel s)
    {e : E} (member : e ∈ (body s).1) : p e := by
  have one : (loop body 1 s).Always p := all 1
  apply one e
  cases followed : (body s).2 with
  | none =>
      rw [loop_of_none followed]
      exact member
  | some next =>
      rw [loop_of_some followed]
      exact (events_prefix_andThen ..).subset member

theorem ends_loop_of_none {s : S} (last : (body s).2 = none) : Ends fun fuel => loop body fuel s := by
  refine ⟨1, ?_⟩
  dsimp only
  rw [loop_of_none last]
  exact returns_emit _

theorem ends_loop_of_some {s next : S} (more : (body s).2 = some next)
    (ended : Ends fun fuel => loop body fuel next) : Ends fun fuel => loop body fuel s := by
  rcases ended with ⟨fuel, returned⟩
  refine ⟨fuel + 1, ?_⟩
  dsimp only
  rw [loop_of_some more, returns_andThen]
  exact ⟨returns_emit _, returned⟩

/-- The rule for the end of a loop: with every round a measure decreases. -/
theorem ends_loop (invariant : S -> Prop) (measure : S -> Nat)
    (preserved : forall s next, invariant s -> (body s).2 = some next ->
      invariant next ∧ measure next < measure s)
    {s : S} (start : invariant s) : Ends fun fuel => loop body fuel s := by
  induction left : measure s using Nat.strongRecOn generalizing s with
  | ind n inductionHypothesis =>
      cases followed : (body s).2 with
      | none => exact ends_loop_of_none followed
      | some next =>
          rcases preserved s next start followed with ⟨kept, less⟩
          exact ends_loop_of_some followed (inductionHypothesis (measure next) (left ▸ less) kept rfl)

/-- What holds of a state with which the loop ends, and goes from a state back to the one before,
holds of every state from which the loop returns. -/
theorem of_ends_loop {p : S -> Prop} (last : forall s, (body s).2 = none -> p s)
    (back : forall s next, (body s).2 = some next -> p next -> p s)
    {s : S} (ended : Ends fun fuel => loop body fuel s) : p s := by
  rcases ended with ⟨fuel, returned⟩
  dsimp only at returned
  induction fuel generalizing s with
  | zero => exact absurd returned (not_returns_loop_zero s)
  | succ fuel inductionHypothesis =>
      cases followed : (body s).2 with
      | none => exact last s followed
      | some next =>
          rw [loop_of_some followed, returns_andThen] at returned
          exact back s next followed (inductionHypothesis returned.2)

/-! ## More fuel -/

/-- The second trace is what becomes of the first one with more fuel. -/
def Approx (first second : Trace E) : Prop :=
  first = second ∨ first.ending = .running ∧ first.events <+: second.events

theorem Approx.andThen {first first' second second' : Trace E} (one : Approx first first')
    (other : Approx second second') : Approx (first.andThen second) (first'.andThen second') := by
  rcases one with rfl | ⟨running, begins⟩
  · by_cases returned : first.Returns
    · rw [andThen_of_returns returned, andThen_of_returns returned]
      rcases other with rfl | ⟨running, begins⟩
      · exact Or.inl rfl
      · exact Or.inr ⟨running, (List.prefix_append_right_inj _).mpr begins⟩
    · rw [andThen_of_not_returns returned, andThen_of_not_returns returned]
      exact Or.inl rfl
  · have stopped : ¬ first.Returns := by
      intro returned
      rw [Returns, running] at returned
      cases returned
    rw [andThen_of_not_returns stopped]
    exact Or.inr ⟨running, begins.trans (events_prefix_andThen ..)⟩

/-- A program that only gets further with more fuel. -/
def Fueled (f : Nat -> Trace E) : Prop :=
  forall fuel more, fuel ≤ more -> Approx (f fuel) (f more)

theorem fueled_const (trace : Trace E) : Fueled fun _ => trace :=
  fun _ _ _ => Or.inl rfl

theorem ends_const {trace : Trace E} : Ends (fun _ => trace) <-> trace.Returns :=
  exists_const Nat

theorem throughout_const {p : E -> Prop} {trace : Trace E} :
    Throughout p (fun _ => trace) <-> trace.Always p :=
  forall_const Nat

theorem fueled_loop (body : S -> List E × Option S) (s : S) : Fueled fun fuel => loop body fuel s := by
  intro fuel more le
  induction fuel generalizing s more with
  | zero => exact Or.inr ⟨rfl, List.nil_prefix⟩
  | succ fuel inductionHypothesis =>
      cases more with
      | zero => cases le
      | succ more =>
          dsimp only
          cases followed : (body s).2 with
          | none =>
              rw [loop_of_none followed, loop_of_none followed]
              exact Or.inl rfl
          | some next =>
              rw [loop_of_some followed, loop_of_some followed]
              exact Approx.andThen (Or.inl rfl)
                (inductionHypothesis next more (Nat.le_of_succ_le_succ le))

section Composition

variable {f g : Nat -> Trace E} {p : E -> Prop}

theorem Fueled.andThen (first : Fueled f) (second : Fueled g) :
    Fueled fun fuel => (f fuel).andThen (g fuel) :=
  fun fuel more le => (first fuel more le).andThen (second fuel more le)

theorem Fueled.returns (fueled : Fueled f) {fuel more : Nat} (returned : (f fuel).Returns)
    (le : fuel ≤ more) : (f more).Returns := by
  rcases fueled fuel more le with same | ⟨running, _⟩
  · exact same ▸ returned
  · rw [Returns, running] at returned
    cases returned

theorem Fueled.always (fueled : Fueled f) {fuel more : Nat} (all : (f more).Always p)
    (le : fuel ≤ more) : (f fuel).Always p := by
  rcases fueled fuel more le with same | ⟨_, begins⟩
  · exact same ▸ all
  · exact fun e member => all e (begins.subset member)

theorem ends_andThen (first : Fueled f) (second : Fueled g) :
    (Ends fun fuel => (f fuel).andThen (g fuel)) <-> Ends f ∧ Ends g := by
  constructor
  · rintro ⟨fuel, returned⟩
    rw [returns_andThen] at returned
    exact ⟨⟨fuel, returned.1⟩, fuel, returned.2⟩
  · rintro ⟨⟨one, here⟩, other, there⟩
    refine ⟨max one other, ?_⟩
    rw [returns_andThen]
    exact ⟨first.returns here (Nat.le_max_left ..), second.returns there (Nat.le_max_right ..)⟩

theorem throughout_andThen (first : Fueled f) (second : Fueled g) :
    Throughout p (fun fuel => (f fuel).andThen (g fuel)) <->
      Throughout p f ∧ (Ends f -> Throughout p g) := by
  constructor
  · intro all
    refine ⟨fun fuel => (always_andThen.mp (all fuel)).1, ?_⟩
    rintro ⟨enough, returned⟩ fuel
    have later := (always_andThen.mp (all (max enough fuel))).2
      (first.returns returned (Nat.le_max_left ..))
    exact second.always later (Nat.le_max_right ..)
  · rintro ⟨here, later⟩ fuel
    exact always_andThen.mpr ⟨here fuel, fun returned => later ⟨fuel, returned⟩ fuel⟩

end Composition

section Sequences

variable {f : Nat -> X -> Trace E} {p : E -> Prop} {xs : List X}

theorem fueled_sequence (fueled : forall x, Fueled fun fuel => f fuel x) (xs : List X) :
    Fueled fun fuel => sequence (f fuel) xs := by
  induction xs with
  | nil => exact fueled_const _
  | cons x xs inductionHypothesis => exact (fueled x).andThen inductionHypothesis

theorem ends_sequence (fueled : forall x, Fueled fun fuel => f fuel x) :
    (Ends fun fuel => sequence (f fuel) xs) <-> forall x, x ∈ xs -> Ends fun fuel => f fuel x := by
  induction xs with
  | nil => exact iff_of_true ⟨0, returns_emit _⟩ (by simp)
  | cons x xs inductionHypothesis =>
      rw [List.forall_mem_cons, ← inductionHypothesis]
      exact ends_andThen (fueled x) (fueled_sequence fueled xs)

/-- What a sequence does is what is done for the elements that it reaches. -/
theorem throughout_sequence (fueled : forall x, Fueled fun fuel => f fuel x) :
    Throughout p (fun fuel => sequence (f fuel) xs) <->
      forall before x after, xs = before ++ x :: after ->
        (forall y, y ∈ before -> Ends fun fuel => f fuel y) -> Throughout p fun fuel => f fuel x := by
  induction xs with
  | nil =>
      refine iff_of_true (fun _ => by simp [sequence]) ?_
      intro before x after same
      cases before <;> cases same
  | cons first xs inductionHypothesis =>
      have composed : Throughout p (fun fuel => sequence (f fuel) (first :: xs)) <->
          Throughout p (fun fuel => f fuel first) ∧
            ((Ends fun fuel => f fuel first) -> Throughout p fun fuel => sequence (f fuel) xs) :=
        throughout_andThen (fueled first) (fueled_sequence fueled xs)
      rw [composed, inductionHypothesis]
      constructor
      · rintro ⟨here, later⟩ before x after same ended
        cases before with
        | nil =>
            cases same
            exact here
        | cons y before =>
            cases same
            rw [List.forall_mem_cons] at ended
            exact later ended.1 before x after rfl ended.2
      · intro all
        refine ⟨all [] first xs rfl (by simp), ?_⟩
        intro ended before x after same earlier
        exact all (first :: before) x after (congrArg (first :: ·) same)
          (List.forall_mem_cons.mpr ⟨ended, earlier⟩)

end Sequences

end Trace
end Library
