import Mathlib.Data.List.TakeWhile

namespace Library
namespace Words

/-!
# The words of a list

A predicate cuts a list into its longest front whose elements satisfy it and what
is left.  This is what `takeWhile` and `dropWhile` compute; stated without them,
it is how a text is divided into the words that it consists of.  Where the text is
to be set in lines, what counts is that every word is shorter than a line.
-/

variable {X : Type} {p : X -> Bool} {xs front rest : List X}

/-- The longest front of the elements that satisfy `p`, and the rest. -/
structure Front (p : X -> Bool) (xs front rest : List X) : Prop where
  eq : xs = front ++ rest
  all : forall x, x ∈ front -> p x = true
  stop : forall x, rest.head? = some x -> p x = false

theorem front_takeWhile (p : X -> Bool) (xs : List X) :
    Front p xs (xs.takeWhile p) (xs.dropWhile p) where
  eq := List.takeWhile_append_dropWhile.symm
  all := fun x member => List.mem_takeWhile_imp member
  stop := by
    intro x first
    have stopped := List.head?_dropWhile_not p xs
    rw [first] at stopped
    exact stopped

theorem dropWhile_eq_self (stop : forall x, rest.head? = some x -> p x = false) :
    rest.dropWhile p = rest := by
  cases rest with
  | nil => rfl
  | cons x tail => rw [List.dropWhile_cons, stop x rfl, if_neg Bool.false_ne_true]

theorem Front.dropWhile_eq (cut : Front p xs front rest) : xs.dropWhile p = rest := by
  rw [cut.eq, List.dropWhile_append_of_pos cut.all, dropWhile_eq_self cut.stop]

theorem Front.drop_eq (cut : Front p xs front rest) : xs.drop front.length = rest := by
  rw [cut.eq, List.drop_left]

theorem Front.takeWhile_eq (cut : Front p xs front rest) : xs.takeWhile p = front := by
  have whole : xs.takeWhile p ++ rest = front ++ rest := by
    rw [← cut.eq, ← cut.dropWhile_eq, List.takeWhile_append_dropWhile]
  exact List.append_cancel_right whole

/-! ## Bounded runs -/

/-- Every run of elements that satisfy `p` has fewer than `n` of them. -/
def Shorter (p : X -> Bool) (n : Nat) (xs : List X) : Prop :=
  forall run, run <:+: xs -> (forall x, x ∈ run -> p x = true) -> run.length < n

theorem Shorter.pos {n : Nat} (short : Shorter p n xs) : 0 < n :=
  short [] List.nil_infix fun _ member => absurd member List.not_mem_nil

theorem Shorter.within {n : Nat} (short : Shorter p n xs) (inside : rest <:+: xs) :
    Shorter p n rest :=
  fun run part => short run (part.trans inside)

theorem shorter_of_length {n : Nat} (less : xs.length < n) : Shorter p n xs :=
  fun _ inside _ => Nat.lt_of_le_of_lt inside.length_le less

/-- The longest front is a run of its own. -/
theorem Front.shorter_iff {n : Nat} (cut : Front p xs front rest) :
    Shorter p n xs <-> front.length < n ∧ Shorter p n rest := by
  rw [cut.eq]
  constructor
  · intro short
    exact ⟨short front List.infix_append_left cut.all, short.within List.infix_append_right⟩
  · rintro ⟨first, later⟩ run inside all
    rcases List.infix_append_iff_ne_nil.mp inside with here | there | ⟨one, other, _, some, rfl, _, begins⟩
    · exact Nat.lt_of_le_of_lt here.length_le first
    · exact later run there all
    · rcases begins with ⟨behind, rfl⟩
      cases other with
      | nil => exact absurd rfl some
      | cons x other =>
          have stopped := cut.stop x rfl
          rw [all x (by simp)] at stopped
          cases stopped

/-- What stands between the runs does not count. -/
theorem shorter_append {n : Nat} (between : forall x, x ∈ front -> p x = false)
    (short : Shorter p n rest) : Shorter p n (front ++ rest) := by
  intro run inside all
  rcases List.infix_append_iff_ne_nil.mp inside with here | there | ⟨one, other, some, _, rfl, ends, _⟩
  · cases run with
    | nil => exact short.pos
    | cons x run =>
        have outside := between x (here.subset List.mem_cons_self)
        rw [all x List.mem_cons_self] at outside
        cases outside
  · exact short run there all
  · cases one with
    | nil => exact absurd rfl some
    | cons x one =>
        have outside := between x (ends.subset List.mem_cons_self)
        rw [all x (by simp)] at outside
        cases outside

/-! ## Words -/

/-- The runs of elements that satisfy `p`, in order. -/
def words (p : X -> Bool) (xs : List X) : List (List X) :=
  (xs.splitOnP fun x => !p x).filter fun run => !run.isEmpty

@[simp] theorem words_nil : words p [] = [] := rfl

theorem words_append_cons (xs ys : List X) {x : X} (outside : p x = false) :
    words p (xs ++ x :: ys) = words p xs ++ words p ys := by
  rw [words, List.splitOnP_append_cons _ _ (by rw [outside]; rfl), List.filter_append]
  rfl

/-- What stands in front of the first word does not count. -/
theorem words_append_left (outside : forall x, x ∈ front -> p x = false) (xs : List X) :
    words p (front ++ xs) = words p xs := by
  induction front with
  | nil => rfl
  | cons x front inductionHypothesis =>
      rcases List.forall_mem_cons.mp outside with ⟨first, later⟩
      rw [List.cons_append, ← inductionHypothesis later]
      exact words_append_cons [] _ first

theorem words_eq_nil (outside : forall x, x ∈ xs -> p x = false) : words p xs = [] := by
  rw [← List.append_nil xs, words_append_left outside, words_nil]

/-- What stands behind the last word does not count. -/
theorem words_append_right (outside : forall x, x ∈ rest -> p x = false) (xs : List X) :
    words p (xs ++ rest) = words p xs := by
  cases rest with
  | nil => rw [List.append_nil]
  | cons x rest =>
      rcases List.forall_mem_cons.mp outside with ⟨first, later⟩
      rw [words_append_cons xs rest first, words_eq_nil later, List.append_nil]

/-- No word reaches from one list into the other one. -/
def Seam (p : X -> Bool) (xs ys : List X) : Prop :=
  (forall x, xs.getLast? = some x -> p x = false) ∨ forall y, ys.head? = some y -> p y = false

theorem words_append {ys : List X} (apart : Seam p xs ys) :
    words p (xs ++ ys) = words p xs ++ words p ys := by
  rcases apart with last | first
  · rcases List.eq_nil_or_concat xs with rfl | ⟨before, x, rfl⟩
    · rfl
    · rw [List.concat_eq_append] at last ⊢
      have outside := last x List.getLast?_concat
      rw [List.append_assoc, List.singleton_append, words_append_cons before ys outside,
        words_append_right (fun y member => List.mem_singleton.mp member ▸ outside)]
  · cases ys with
    | nil => rw [List.append_nil, words_nil, List.append_nil]
    | cons y ys =>
        have outside := first y rfl
        rw [words_append_cons xs ys outside]
        exact congrArg (words p xs ++ ·) (words_append_cons [] ys outside).symm

/-- The longest front is a word of its own, or there is none in front. -/
theorem Front.words_eq (cut : Front p xs front rest) : words p xs = words p front ++ words p rest := by
  rw [cut.eq]
  exact words_append (Or.inr cut.stop)

end Words
end Library
