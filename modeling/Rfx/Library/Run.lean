import Mathlib.Data.List.Basic

namespace Library
namespace Run

variable {S L : Type}

/-!
# Runs of a partial step function

A machine is a partial function from a state and a label to the next state;
`none` says that the label is not possible there.  A run folds a list of
labels.  Invariants are established once, here, by induction on the labels:
what one possible step preserves, every run preserves.
-/

/-- The state after a list of labels, when all of them are possible in turn. -/
def run (step : S -> L -> Option S) : S -> List L -> Option S
  | state, [] => some state
  | state, label :: labels => (step state label).bind fun next => run step next labels

variable {step : S -> L -> Option S}

@[simp] theorem run_nil (state : S) : run step state [] = some state := rfl

theorem run_cons_eq_some {state final : S} {label : L} {labels : List L} :
    run step state (label :: labels) = some final <->
      Exists fun next => step state label = some next ∧ run step next labels = some final := by
  simp only [run, Option.bind_eq_some_iff]

theorem run_one {state next : S} {label : L} (taken : step state label = some next) :
    run step state [label] = some next :=
  run_cons_eq_some.mpr ⟨next, taken, rfl⟩

theorem run_two {state middle next : S} {first second : L} (taken : step state first = some middle)
    (taken' : step middle second = some next) : run step state [first, second] = some next :=
  run_cons_eq_some.mpr ⟨middle, taken, run_one taken'⟩

/-- Every step of the run from `state` on meets a condition on the state before
it and on its label. -/
def Meets (step : S -> L -> Option S) (condition : S -> L -> Prop) : S -> List L -> Prop
  | _, [] => True
  | state, label :: labels =>
      condition state label ∧ forall next, step state label = some next -> Meets step condition next labels

/-- The condition on a run can be tested by making the run. -/
instance decidableMeets {condition : S -> L -> Prop}
    [forall state label, Decidable (condition state label)] :
    (state : S) -> (labels : List L) -> Decidable (Meets step condition state labels)
  | _, [] => isTrue trivial
  | state, label :: labels =>
      match taken : step state label with
      | none => decidable_of_iff (condition state label) (by simp [Meets, taken])
      | some next =>
          have : Decidable (Meets step condition next labels) := decidableMeets next labels
          decidable_of_iff (condition state label ∧ Meets step condition next labels)
            (by simp [Meets, taken])

theorem meets_true (state : S) (labels : List L) : Meets step (fun _ _ => True) state labels := by
  induction labels generalizing state with
  | nil => exact trivial
  | cons label labels inductionHypothesis => exact ⟨trivial, fun next _ => inductionHypothesis next⟩

/-- A condition on the labels alone can be added. -/
theorem Meets.and_labels {condition : S -> L -> Prop} {allowed : L -> Prop} {state : S} {labels : List L}
    (met : Meets step condition state labels) (all : forall label, label ∈ labels -> allowed label) :
    Meets step (fun state label => condition state label ∧ allowed label) state labels := by
  induction labels generalizing state with
  | nil => exact trivial
  | cons label labels inductionHypothesis =>
      refine ⟨⟨met.1, all label List.mem_cons_self⟩, fun next stepped => ?_⟩
      exact inductionHypothesis (met.2 next stepped) fun label member =>
        all label (List.mem_cons_of_mem _ member)

/-- A run meets a condition if its first part does, and then the rest does. -/
theorem meets_append {condition : S -> L -> Prop} {state : S} {first second : List L} :
    Meets step condition state (first ++ second) <->
      Meets step condition state first ∧
        forall middle, run step state first = some middle -> Meets step condition middle second := by
  induction first generalizing state with
  | nil => simp [Meets]
  | cons label labels inductionHypothesis =>
      simp only [List.cons_append, Meets, inductionHypothesis, run_cons_eq_some]
      constructor
      · rintro ⟨now, later⟩
        refine ⟨⟨now, fun next stepped => (later next stepped).1⟩, ?_⟩
        rintro middle ⟨next, stepped, front⟩
        exact (later next stepped).2 middle front
      · rintro ⟨⟨now, front⟩, back⟩
        exact ⟨now, fun next stepped => ⟨front next stepped, fun middle reached =>
          back middle ⟨next, stepped, reached⟩⟩⟩

/-- The invariant rule for runs whose steps all meet a condition. -/
theorem run_invariant_of_meets {condition : S -> L -> Prop} (invariant : S -> Prop)
    (preserved : forall state label next, invariant state -> condition state label ->
      step state label = some next -> invariant next)
    {state final : S} {labels : List L} (start : invariant state)
    (met : Meets step condition state labels) (reached : run step state labels = some final) :
    invariant final := by
  induction labels generalizing state with
  | nil =>
      cases reached
      exact start
  | cons label labels inductionHypothesis =>
      rcases run_cons_eq_some.mp reached with ⟨next, stepped, rest⟩
      exact inductionHypothesis (preserved state label next start met.1 stepped)
        (met.2 next stepped) rest

/-- The invariant rule: a predicate that every possible step preserves holds
at the end of every run that starts in it. -/
theorem run_invariant (invariant : S -> Prop)
    (preserved : forall state label next, invariant state ->
      step state label = some next -> invariant next)
    {state final : S} {labels : List L} (start : invariant state)
    (reached : run step state labels = some final) : invariant final :=
  run_invariant_of_meets invariant (fun state label next holds _ => preserved state label next holds) start
    (meets_true state labels) reached

/-- The simulation rule: where every step of one machine is matched by a step of
another under the same label, and related states stay related, every run is. -/
theorem run_simulation {S' : Type} {step' : S' -> L -> Option S'} (related : S -> S' -> Prop)
    (simulates : forall state state' label next, related state state' ->
      step state label = some next ->
        Exists fun next' => step' state' label = some next' ∧ related next next')
    {state final : S} {state' : S'} {labels : List L} (start : related state state')
    (reached : run step state labels = some final) :
    Exists fun final' => run step' state' labels = some final' ∧ related final final' := by
  induction labels generalizing state state' with
  | nil =>
      cases reached
      exact ⟨state', rfl, start⟩
  | cons label labels inductionHypothesis =>
      rcases run_cons_eq_some.mp reached with ⟨next, stepped, rest⟩
      rcases simulates state state' label next start stepped with ⟨next', stepped', later⟩
      rcases inductionHypothesis later rest with ⟨final', reached', last⟩
      exact ⟨final', run_cons_eq_some.mpr ⟨next', stepped', reached'⟩, last⟩

/-- The simulation rule where the other machine does not take the hidden steps. -/
theorem run_simulation_hiding {S' : Type} {step' : S' -> L -> Option S'} (hidden : L -> Bool)
    {condition : S -> L -> Prop} (related : S -> S' -> Prop)
    (stutters : forall state state' label next, related state state' -> condition state label ->
      step state label = some next -> hidden label = true -> related next state')
    (simulates : forall state state' label next, related state state' -> condition state label ->
      step state label = some next -> hidden label = false ->
        Exists fun next' => step' state' label = some next' ∧ related next next')
    {state final : S} {state' : S'} {labels : List L} (start : related state state')
    (met : Meets step condition state labels) (reached : run step state labels = some final) :
    Exists fun final' => run step' state' (labels.filter fun label => !hidden label) = some final' ∧
      related final final' := by
  induction labels generalizing state state' with
  | nil =>
      cases reached
      exact ⟨state', rfl, start⟩
  | cons label labels inductionHypothesis =>
      rcases run_cons_eq_some.mp reached with ⟨next, stepped, rest⟩
      have later := met.2 next stepped
      rw [List.filter_cons]
      cases unseen : hidden label with
      | true =>
          have now := stutters state state' label next start met.1 stepped unseen
          exact inductionHypothesis now later rest
      | false =>
          rcases simulates state state' label next start met.1 stepped unseen with
            ⟨next', stepped', now⟩
          rcases inductionHypothesis now later rest with ⟨final', reached', last⟩
          exact ⟨final', run_cons_eq_some.mpr ⟨next', stepped', reached'⟩, last⟩

/-- The simulation rule for steps that meet a condition, and for a machine that needs
fuel enough for each of its steps. -/
theorem run_simulation_of_meets {S' : Type} {step' : Nat -> S' -> L -> Option S'}
    {condition : S -> L -> Prop} (related : S -> S' -> Prop)
    (simulates : forall state state' label next, related state state' -> condition state label ->
      step state label = some next ->
        Exists fun next' => (Exists fun enough => forall fuel, enough ≤ fuel ->
          step' fuel state' label = some next') ∧ related next next')
    {state final : S} {state' : S'} {labels : List L} (start : related state state')
    (met : Meets step condition state labels) (reached : run step state labels = some final) :
    Exists fun final' => (Exists fun enough => forall fuel, enough ≤ fuel ->
      run (step' fuel) state' labels = some final') ∧ related final final' := by
  induction labels generalizing state state' with
  | nil =>
      cases reached
      exact ⟨state', ⟨0, fun _ _ => rfl⟩, start⟩
  | cons label labels inductionHypothesis =>
      rcases run_cons_eq_some.mp reached with ⟨next, stepped, rest⟩
      rcases simulates state state' label next start met.1 stepped with
        ⟨next', ⟨first, stepped'⟩, later⟩
      rcases inductionHypothesis later (met.2 next stepped) rest with
        ⟨final', ⟨others, reached'⟩, last⟩
      refine ⟨final', ⟨max first others, fun fuel enough => ?_⟩, last⟩
      exact run_cons_eq_some.mpr ⟨next', stepped' fuel (Nat.le_trans (Nat.le_max_left _ _) enough),
        reached' fuel (Nat.le_trans (Nat.le_max_right _ _) enough)⟩

/-- What the steps of a run yield, in turn. -/
def collect {A : Type} (step : S -> L -> Option S) (yields : S -> L -> List A) : S -> List L -> List A
  | _, [] => []
  | state, label :: labels =>
      yields state label ++
        match step state label with
        | some next => collect step yields next labels
        | none => []

/-- The invariant rule for a state together with what the run has yielded so far. -/
theorem run_collect {A : Type} {yields : S -> L -> List A} (invariant : S -> List A -> Prop)
    (preserved : forall state label next gone, invariant state gone ->
      step state label = some next -> invariant next (gone ++ yields state label))
    {state final : S} {labels : List L} {gone : List A} (start : invariant state gone)
    (reached : run step state labels = some final) :
    invariant final (gone ++ collect step yields state labels) := by
  induction labels generalizing state gone with
  | nil =>
      cases reached
      rw [collect, List.append_nil]
      exact start
  | cons label labels inductionHypothesis =>
      rcases run_cons_eq_some.mp reached with ⟨next, stepped, rest⟩
      have later := inductionHypothesis (preserved state label next gone start stepped) rest
      rw [List.append_assoc] at later
      simp only [collect, stepped]
      exact later

theorem run_append {state final : S} {first second : List L} :
    run step state (first ++ second) = some final <->
      Exists fun middle => run step state first = some middle ∧
        run step middle second = some final := by
  induction first generalizing state with
  | nil => simp
  | cons label labels inductionHypothesis =>
      simp only [List.cons_append, run_cons_eq_some, inductionHypothesis]
      constructor
      · rintro ⟨next, stepped, middle, front, back⟩
        exact ⟨middle, ⟨next, stepped, front⟩, back⟩
      · rintro ⟨middle, ⟨next, stepped, front⟩, back⟩
        exact ⟨next, stepped, middle, front, back⟩

end Run
end Library
