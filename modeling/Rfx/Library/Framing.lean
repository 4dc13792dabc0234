import Mathlib.Data.List.Basic

namespace Library
namespace Framing

variable {X : Type}

/-!
# Length-prefixed framing of a stream

A format says how many elements a header has and which total frame size a
header announces.  A stream is *split* into complete frames and a pending rest
that does not complete another one.  The split of a stream does not depend on
the pieces in which the stream arrives: the rest of the first piece, followed
by the second piece, splits into the remaining frames.

A header may announce a size smaller than the header itself.  Such a stream has
no split; the streams that have one are exactly the legal streams.
-/

/-- A framing format: the size announced by a header depends on the header only. -/
structure Format (X : Type) where
  header : Nat
  size : List X -> Nat
  header_pos : 0 < header
  size_append : forall front back, header ≤ front.length -> size (front ++ back) = size front

namespace Format

variable {format : Format X}

/-- A complete frame: its header announces its own length. -/
structure IsFrame (format : Format X) (frame : List X) : Prop where
  header_le : format.header ≤ frame.length
  size_eq : format.size frame = frame.length

/-- A pending rest: the header is not complete, or the announced frame is not. -/
def IsPending (format : Format X) (rest : List X) : Prop :=
  rest.length < format.header ∨
    (format.header ≤ rest.length ∧ rest.length < format.size rest)

/-- Every header that the stream completes at a frame boundary announces at
least its own length. -/
inductive Legal (format : Format X) : List X -> Prop
  | short {stream : List X} (incomplete : stream.length < format.header) : Legal format stream
  | frame {stream : List X} (complete : format.header ≤ stream.length)
      (announced : format.header ≤ format.size stream)
      (rest : Legal format (stream.drop (format.size stream))) : Legal format stream

/-- The stream consists of these complete frames and this pending rest. -/
structure Splits (format : Format X) (stream : List X) (frames : List (List X))
    (rest : List X) : Prop where
  stream_eq : stream = frames.flatten ++ rest
  isFrame : forall frame, frame ∈ frames -> format.IsFrame frame
  isPending : format.IsPending rest

theorem isPending_nil (format : Format X) : format.IsPending [] :=
  Or.inl format.header_pos

theorem splits_nil (format : Format X) : format.Splits [] [] [] :=
  ⟨rfl, fun _ member => absurd member List.not_mem_nil, format.isPending_nil⟩

theorem Splits.of_pending {rest : List X} (pending : format.IsPending rest) :
    format.Splits rest [] rest :=
  ⟨rfl, fun _ member => absurd member List.not_mem_nil, pending⟩

/-- A proper prefix of a complete frame is pending. -/
theorem IsFrame.pending_of_prefix {frame front back : List X} (complete : format.IsFrame frame)
    (same : frame = front ++ back) (proper : front.length < frame.length) :
    format.IsPending front := by
  by_cases short : front.length < format.header
  · exact Or.inl short
  · have known : format.header ≤ front.length := Nat.le_of_not_lt short
    have announced : format.size front = frame.length := by
      rw [← complete.size_eq, same, format.size_append front back known]
    exact Or.inr ⟨known, announced ▸ proper⟩

/-- A pending rest has no complete frame at its start. -/
theorem IsPending.no_frame_first {frame rest : List X} (pending : format.IsPending (frame ++ rest))
    (complete : format.IsFrame frame) : False := by
  have announced : format.size (frame ++ rest) = frame.length := by
    rw [format.size_append frame rest complete.header_le, complete.size_eq]
  have header := complete.header_le
  rcases pending with short | ⟨_, longer⟩
  · rw [List.length_append] at short
    omega
  · rw [announced, List.length_append] at longer
    omega

/-- Put one more complete frame before a split stream. -/
theorem Splits.cons {frame stream : List X} {frames : List (List X)} {rest : List X}
    (complete : format.IsFrame frame) (split : format.Splits stream frames rest) :
    format.Splits (frame ++ stream) (frame :: frames) rest where
  stream_eq := by rw [split.stream_eq, List.flatten_cons, List.append_assoc]
  isFrame := by
    intro candidate member
    rcases List.mem_cons.mp member with same | later
    · exact same ▸ complete
    · exact split.isFrame candidate later
  isPending := split.isPending

/-- Once the header is complete, the announced size decides between the two
shapes of a split: either a first frame of exactly that size, or no frame yet. -/
theorem Splits.of_header {stream : List X} {frames : List (List X)} {rest : List X}
    (split : format.Splits stream frames rest) (known : format.header ≤ stream.length) :
    (stream.length < format.size stream ∧ frames = [] ∧ rest = stream) ∨
      (format.header ≤ format.size stream ∧ format.size stream ≤ stream.length ∧
        Exists fun later =>
          frames = stream.take (format.size stream) :: later ∧
            format.Splits (stream.drop (format.size stream)) later rest) := by
  cases frames with
  | nil =>
      have same : stream = rest := split.stream_eq
      rcases split.isPending with short | ⟨_, longer⟩
      · rw [← same] at short
        omega
      · exact Or.inl ⟨same ▸ longer, rfl, same.symm⟩
  | cons frame later =>
      have complete : format.IsFrame frame := split.isFrame frame List.mem_cons_self
      have same : stream = frame ++ (later.flatten ++ rest) := by
        rw [split.stream_eq, List.flatten_cons, List.append_assoc]
      have announced : format.size stream = frame.length := by
        rw [same, format.size_append _ _ complete.header_le, complete.size_eq]
      have within : frame.length ≤ stream.length := by
        rw [same, List.length_append]
        omega
      refine Or.inr ⟨announced ▸ complete.header_le, announced ▸ within, later, ?_, ?_⟩
      · rw [announced, same, List.take_left]
      · rw [announced]
        exact ⟨by rw [same, List.drop_left],
          fun candidate member => split.isFrame candidate (List.mem_cons_of_mem _ member),
          split.isPending⟩

/-- A split whose stream has no complete header has no frame. -/
theorem Splits.of_short {stream : List X} {frames : List (List X)} {rest : List X}
    (split : format.Splits stream frames rest) (short : stream.length < format.header) :
    frames = [] ∧ rest = stream := by
  cases frames with
  | nil => exact ⟨rfl, split.stream_eq.symm⟩
  | cons frame later =>
      have header := (split.isFrame frame List.mem_cons_self).header_le
      rw [split.stream_eq, List.flatten_cons, List.length_append, List.length_append] at short
      omega

/-- Cut a split stream anywhere: the first piece splits, and its rest followed
by the second piece splits into the remaining frames. -/
theorem Splits.cut {first second : List X} {frames : List (List X)} {rest : List X}
    (split : format.Splits (first ++ second) frames rest) :
    Exists fun before => Exists fun middle => Exists fun after =>
      format.Splits first before middle ∧ format.Splits (middle ++ second) after rest ∧
        frames = before ++ after := by
  induction frames generalizing first with
  | nil =>
      have same : first ++ second = rest := split.stream_eq
      have pending : format.IsPending first := by
        by_cases short : first.length < format.header
        · exact Or.inl short
        · have known : format.header ≤ first.length := Nat.le_of_not_lt short
          have announced := format.size_append first second known
          rcases split.isPending with shorter | ⟨_, longer⟩
          · rw [← same, List.length_append] at shorter
            omega
          · rw [← same, announced, List.length_append] at longer
            exact Or.inr ⟨known, by omega⟩
      exact ⟨[], first, [], .of_pending pending, split, rfl⟩
  | cons frame frames inductionHypothesis =>
      have complete : format.IsFrame frame := split.isFrame frame List.mem_cons_self
      have same : first ++ second = frame ++ (frames.flatten ++ rest) := by
        rw [split.stream_eq, List.flatten_cons, List.append_assoc]
      rcases List.append_eq_append_iff.mp same with ⟨back, frameEq, _⟩ | ⟨back, firstEq, tailEq⟩
      · by_cases whole : back = []
        · subst whole
          rw [List.append_nil] at frameEq
          have tail : format.Splits second frames rest := by
            refine ⟨?_, fun candidate member =>
              split.isFrame candidate (List.mem_cons_of_mem _ member), split.isPending⟩
            rw [frameEq] at same
            exact List.append_cancel_left same
          refine ⟨[first], [], frames, ?_, by simpa using tail, by rw [frameEq]; rfl⟩
          have frameSplit := Splits.cons complete format.splits_nil
          rwa [List.append_nil, frameEq] at frameSplit
        · have proper : first.length < frame.length := by
            rw [frameEq, List.length_append]
            have := List.length_pos_iff.mpr whole
            omega
          exact ⟨[], first, frame :: frames,
            .of_pending (complete.pending_of_prefix frameEq proper), split, rfl⟩
      · have tail : format.Splits (back ++ second) frames rest :=
          ⟨tailEq.symm, fun candidate member =>
            split.isFrame candidate (List.mem_cons_of_mem _ member), split.isPending⟩
        rcases inductionHypothesis tail with ⟨before, middle, after, front, later, joined⟩
        exact ⟨frame :: before, middle, after, firstEq ▸ Splits.cons complete front, later,
          by rw [joined, List.cons_append]⟩

/-- The converse of `cut`: splitting piece by piece splits the whole stream. -/
theorem Splits.join {first second : List X} {before after : List (List X)}
    {middle rest : List X} (front : format.Splits first before middle)
    (later : format.Splits (middle ++ second) after rest) :
    format.Splits (first ++ second) (before ++ after) rest where
  stream_eq := by
    rw [front.stream_eq, List.append_assoc, later.stream_eq, List.flatten_append,
      List.append_assoc]
  isFrame := by
    intro frame member
    rcases List.mem_append.mp member with early | late
    · exact front.isFrame frame early
    · exact later.isFrame frame late
  isPending := later.isPending

/-- A stream has at most one split. -/
theorem Splits.unique {stream : List X} {left right : List (List X)} {leftRest rightRest : List X}
    (first : format.Splits stream left leftRest) (second : format.Splits stream right rightRest) :
    left = right ∧ leftRest = rightRest := by
  induction left generalizing stream right with
  | nil =>
      cases right with
      | nil => exact ⟨rfl, by rw [← show stream = leftRest from first.stream_eq]; exact second.stream_eq⟩
      | cons frame later =>
          have same : frame ++ (later.flatten ++ rightRest) = leftRest := by
            rw [← List.append_assoc, ← List.flatten_cons, ← second.stream_eq]
            exact first.stream_eq
          exact ((same ▸ first.isPending).no_frame_first
            (second.isFrame frame List.mem_cons_self)).elim
  | cons frame left inductionHypothesis =>
      have complete : format.IsFrame frame := first.isFrame frame List.mem_cons_self
      have known : format.header ≤ stream.length := by
        rw [first.stream_eq, List.flatten_cons, List.length_append, List.length_append]
        have := complete.header_le
        omega
      rcases first.of_header known with ⟨_, impossible, _⟩ | ⟨_, _, later, leftEq, leftSplit⟩
      · cases impossible
      · rcases second.of_header known with ⟨longer, _, _⟩ | ⟨_, _, other, rightEq, rightSplit⟩
        · rcases first.of_header known with ⟨_, impossible, _⟩ | ⟨_, within, _⟩
          · cases impossible
          · omega
        · have heads := List.cons.inj leftEq
          have tails := inductionHypothesis (heads.2 ▸ leftSplit) rightSplit
          exact ⟨by rw [rightEq, heads.1, tails.1], tails.2⟩

/-- The legal streams are the streams that have a split. -/
theorem legal_iff_splits {stream : List X} :
    format.Legal stream <-> Exists fun frames => Exists fun rest => format.Splits stream frames rest := by
  constructor
  · intro legal
    induction legal with
    | short incomplete => exact ⟨[], _, .of_pending (Or.inl incomplete)⟩
    | @frame stream complete announced _ inductionHypothesis =>
        by_cases within : format.size stream ≤ stream.length
        · rcases inductionHypothesis with ⟨frames, rest, split⟩
          have takeLength : (stream.take (format.size stream)).length = format.size stream := by
            rw [List.length_take, Nat.min_eq_left within]
          have whole : format.IsFrame (stream.take (format.size stream)) := by
            have header : format.header ≤ (stream.take (format.size stream)).length := by
              rw [takeLength]
              exact announced
            refine ⟨header, ?_⟩
            rw [takeLength, ← format.size_append _ (stream.drop (format.size stream)) header,
              List.take_append_drop]
          have joined := Splits.cons whole split
          rw [List.take_append_drop] at joined
          exact ⟨_, _, joined⟩
        · exact ⟨[], stream, .of_pending (Or.inr ⟨complete, Nat.lt_of_not_le within⟩)⟩
  · rintro ⟨frames, rest, split⟩
    induction frames generalizing stream with
    | nil =>
        have same : stream = rest := split.stream_eq
        rcases split.isPending with short | ⟨known, longer⟩
        · exact .short (same ▸ short)
        · subst same
          refine .frame known (by omega) (.short ?_)
          rw [List.length_drop]
          have := format.header_pos
          omega
    | cons frame later inductionHypothesis =>
        have complete := split.isFrame frame List.mem_cons_self
        have known : format.header ≤ stream.length := by
          rw [split.stream_eq, List.flatten_cons, List.length_append, List.length_append]
          have := complete.header_le
          omega
        rcases split.of_header known with ⟨_, impossible, _⟩ | ⟨announced, _, tail, eq, tailSplit⟩
        · cases impossible
        · have tails := (List.cons.inj eq).2
          exact .frame known announced (inductionHypothesis (tails ▸ tailSplit))

/-- Every prefix of a legal stream is legal. -/
theorem Legal.of_append {first second : List X} (legal : format.Legal (first ++ second)) :
    format.Legal first := by
  rcases legal_iff_splits.mp legal with ⟨frames, rest, split⟩
  rcases split.cut with ⟨before, middle, _, front, _, _⟩
  exact legal_iff_splits.mpr ⟨before, middle, front⟩

end Format

end Framing
end Library
