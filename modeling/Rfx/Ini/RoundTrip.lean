import Mathlib.Data.List.Chain
import Rfx.Ini
import Rfx.Library.Span

namespace Rfx
namespace Ini

open Library Library.Span Library.Trim
open RfxLoot (isspace)

/-!
# Reading back a configuration file

What a line can say is printed in the plainest way: a blank line, a section in brackets,
or a name and a value around an equals sign.  A printed file says what it was printed
from exactly if no line runs into one of the rules of the format: blanks at the ends are
stripped, a semicolon behind a blank starts a comment, and what is too long is cut.
-/

/-! ## Lines and their texts -/

/-- No comment starts inside a text. -/
def NoComment (s : List Byte) : Prop :=
  s.IsChain fun a b => isspace a = true -> b ≠ 0x3b

/-- A text that can stand in a line. -/
def Storable (s : List Byte) : Prop :=
  (0 : Byte) ∉ s ∧ (0x0a : Byte) ∉ s

/-- A name that a line can start with. -/
structure PlainName (name : List Byte) : Prop where
  storable : Storable name
  left : Left isspace name
  right : Right isspace name
  first : forall c, name.head? = some c -> c ≠ 0x3b ∧ c ≠ 0x23 ∧ c ≠ 0x5b
  equals : (0x3d : Byte) ∉ name
  comment : NoComment name

/-- A value that a line can end with. -/
structure PlainValue (value : List Byte) : Prop where
  storable : Storable value
  left : Left isspace value
  right : Right isspace value
  comment : NoComment value

/-- The name of a section. -/
structure PlainSection (name : List Byte) : Prop where
  storable : Storable name
  bracket : (0x5d : Byte) ∉ name
  comment : NoComment name
  short : name.length < maxSection

namespace Line

/-- What a line can say. -/
def Plain : Line -> Prop
  | .nothing => True
  | .header name => PlainSection name
  | .pair name value => PlainName name ∧ PlainValue value
  | .malformed => False

/-- The text of a line. -/
def print : Line -> List Byte
  | .nothing => []
  | .header name => 0x5b :: (name ++ [0x5d])
  | .pair name value => name ++ 0x3d :: value
  | .malformed => []

end Line

/-- The text of a file. -/
def printLines (lines : List Line) : List Byte :=
  lines.flatMap fun line => line.print ++ [0x0a]

/-! ## Where a scan stops -/

/-- The end of the loop of `find_char_or_comment`. -/
def stopsAt (c : Byte) (wasWhitespace : Bool) (b : Byte) : Bool :=
  b = c ∨ wasWhitespace = true ∧ b = 0x3b

theorem findCharOrComment_eq (c : Byte) (wasWhitespace : Bool) (s : List Byte) :
    findCharOrComment c wasWhitespace s = span isspace (stopsAt c) wasWhitespace s := by
  induction s generalizing wasWhitespace with
  | nil => rfl
  | cons b s inductionHypothesis =>
      simp only [findCharOrComment, span, stopsAt, decide_eq_true_eq, inductionHypothesis]

theorem passes_iff {c : Byte} {wasWhitespace : Bool} {s : List Byte} :
    Passes isspace (stopsAt c) wasWhitespace s <->
      c ∉ s ∧ (wasWhitespace = true -> s.head? ≠ some 0x3b) ∧ NoComment s := by
  induction s generalizing wasWhitespace with
  | nil => simp [Passes, NoComment]
  | cons b s inductionHypothesis =>
      have chain : NoComment (b :: s) <->
          (isspace b = true -> s.head? ≠ some 0x3b) ∧ NoComment s := by
        refine List.isChain_cons.trans (and_congr_left fun _ => ?_)
        constructor
        · exact fun each blank first => each 0x3b first blank rfl
        · rintro each d first blank rfl
          exact each blank first
      have goesOn : stopsAt c wasWhitespace b = false <->
          c ≠ b ∧ (wasWhitespace = true -> b ≠ 0x3b) := by
        rw [stopsAt, decide_eq_false_iff_not, not_or, not_and, @eq_comm _ b c]
      rw [Passes, inductionHypothesis, chain, goesOn, List.mem_cons, not_or, List.head?_cons]
      simp only [ne_eq, Option.some.injEq]
      tauto

/-- What a scan finds in front of the place where it stops. -/
theorem findCharOrComment_eq_of {c : Byte} {front back : List Byte} (clear : c ∉ front)
    (comment : NoComment front) (stops : forall b, back.head? = some b -> b = c) :
    findCharOrComment c false (front ++ back) = (front, back) := by
  rw [findCharOrComment_eq]
  apply span_eq (passes_iff.mpr ⟨clear, fun impossible => Bool.noConfusion impossible, comment⟩)
  intro b first
  simp only [stopsAt, stops b first, true_or, decide_true]

theorem findCharOrComment_spec (c : Byte) (s : List Byte) :
    (findCharOrComment c false s).1 ++ (findCharOrComment c false s).2 = s ∧
      c ∉ (findCharOrComment c false s).1 ∧ NoComment (findCharOrComment c false s).1 := by
  rw [findCharOrComment_eq]
  have passes : Passes isspace (stopsAt c) false (span isspace (stopsAt c) false s).1 := passes_span false s
  rcases passes_iff.mp passes with ⟨clear, _, comment⟩
  exact ⟨span_append false s, clear, comment⟩

/-! ## What a line says -/

theorem rstrip_front (s : List Byte) : rstrip s <+: s :=
  List.rdropWhile_prefix isspace s

theorem lskip_suffix (s : List Byte) : lskip s <:+ s :=
  List.dropWhile_suffix isspace

theorem right_rstrip (s : List Byte) : Right isspace (rstrip s) :=
  right_rdropWhile s

theorem left_lskip (s : List Byte) : Left isspace (lskip s) :=
  left_dropWhile s

theorem rstrip_of_right {s : List Byte} (right : Right isspace s) : rstrip s = s :=
  right.rdropWhile_eq

theorem lskip_of_left {s : List Byte} (left : Left isspace s) : lskip s = s :=
  left.dropWhile_eq

theorem Storable.of_subset {s t : List Byte} (storable : Storable t) (inside : s ⊆ t) : Storable s :=
  ⟨fun zero => storable.1 (inside zero), fun newline => storable.2 (inside newline)⟩

theorem NoComment.of_front {s t : List Byte} (comment : NoComment t) (front : s <+: t) : NoComment s :=
  List.IsChain.prefix comment front

/-- Before the place where a colon is looked for there is no equals sign that was not found. -/
theorem equals_not_in_colon {start : List Byte}
    (notFound : (findCharOrComment 0x3d false start).2.head? ≠ some 0x3d) :
    (0x3d : Byte) ∉ (findCharOrComment 0x3a false start).1 := by
  have equals := findCharOrComment_spec 0x3d start
  have colon := findCharOrComment_spec 0x3a start
  have passes : Passes isspace (stopsAt 0x3a) false (span isspace (stopsAt 0x3a) false start).1 :=
    passes_span false start
  rw [findCharOrComment_eq] at notFound equals
  rw [findCharOrComment_eq] at colon ⊢
  intro inside
  have front : (span isspace (stopsAt 0x3d) false start).1 <+: start := ⟨_, equals.1⟩
  have front' : (span isspace (stopsAt 0x3a) false start).1 <+: start := ⟨_, colon.1⟩
  rcases List.prefix_or_prefix_of_prefix front front' with shorter | longer
  · rcases shorter with ⟨rest, same⟩
    cases rest with
    | nil =>
        rw [List.append_nil] at same
        exact equals.2.1 (same ▸ inside)
    | cons b rest =>
        rw [← same] at passes
        -- The first scan stopped at a comment, where the second one stops as well.
        have goesOn := passes.of_append.1
        have behind : Exists fun later => (span isspace (stopsAt 0x3d) false start).2 = b :: later := by
          rcases front' with ⟨later, whole⟩
          rw [← same, List.append_assoc] at whole
          exact ⟨_, List.append_cancel_left (equals.1.trans whole.symm)⟩
        rcases behind with ⟨later, behind⟩
        have stops := stop_span false behind
        rw [behind] at notFound
        simp only [stopsAt, decide_eq_true_eq, decide_eq_false_iff_not, List.head?_cons, ne_eq,
          Option.some.injEq] at stops goesOn notFound
        exact goesOn (Or.inr (stops.resolve_left notFound))
  · exact equals.2.1 (longer.subset inside)

/-- A line with a name has a sign behind the name. -/
theorem parsePair_spec (start : List Byte) :
    parsePair start = .malformed ∨ Exists fun front => Exists fun behind => Exists fun c =>
      start = front ++ c :: behind ∧ (0x3d : Byte) ∉ front ∧ NoComment front ∧
        parsePair start =
          .pair (rstrip front) (rstrip (findCharOrComment 0 false (lskip behind)).1) := by
  have found (scanned : List Byte × List Byte) (whole : scanned.1 ++ scanned.2 = start)
      (equals : (0x3d : Byte) ∉ scanned.1) (comment : NoComment scanned.1)
      (chosen : (if (findCharOrComment 0x3d false start).2.head? = some 0x3d then
        findCharOrComment 0x3d false start else findCharOrComment 0x3a false start) = scanned) :
      parsePair start = .malformed ∨ Exists fun front => Exists fun behind => Exists fun c =>
        start = front ++ c :: behind ∧ (0x3d : Byte) ∉ front ∧ NoComment front ∧
          parsePair start =
            .pair (rstrip front) (rstrip (findCharOrComment 0 false (lskip behind)).1) := by
    rcases scanned with ⟨front, back⟩
    rw [parsePair, chosen]
    cases back with
    | nil => exact Or.inl rfl
    | cons c behind =>
        simp only
        split
        · exact Or.inr ⟨front, behind, c, whole.symm, equals, comment, rfl⟩
        · exact Or.inl rfl
  by_cases first : (findCharOrComment 0x3d false start).2.head? = some 0x3d
  · have spec := findCharOrComment_spec 0x3d start
    exact found _ spec.1 spec.2.1 spec.2.2 (if_pos first)
  · have spec := findCharOrComment_spec 0x3a start
    exact found _ spec.1 (equals_not_in_colon first) spec.2.2 (if_neg first)

/-- What is read from a text is plain, and takes no more room than the text. -/
structure Fits (t : List Byte) (line : Line) : Prop where
  plain : line = .malformed ∨ line.Plain
  short : line.print.length ≤ t.length

theorem fits_nothing (t : List Byte) : Fits t .nothing :=
  ⟨Or.inr trivial, Nat.zero_le _⟩

theorem fits_malformed (t : List Byte) : Fits t .malformed :=
  ⟨Or.inl rfl, Nat.zero_le _⟩

theorem fits_header {rest front back : List Byte} (storable : Storable rest)
    (scanned : findCharOrComment 0x5d false rest = (front, back)) (closed : back.head? = some 0x5d) :
    Fits (0x5b :: rest) (.header (front.take (maxSection - 1))) := by
  have spec := findCharOrComment_spec 0x5d rest
  rw [scanned] at spec
  have shorter := List.take_prefix (maxSection - 1) front
  have inside : front.take (maxSection - 1) ⊆ rest :=
    List.Subset.trans shorter.subset (List.IsPrefix.subset ⟨_, spec.1⟩)
  refine ⟨Or.inr ⟨storable.of_subset inside, fun there => spec.2.1 (shorter.subset there),
    spec.2.2.of_front shorter, ?_⟩, ?_⟩
  · rw [List.length_take, maxSection]
    omega
  · cases back with
    | nil => cases closed
    | cons c back =>
        have whole := congrArg List.length spec.1
        have less := shorter.length_le
        simp only [Line.print, List.length_cons, List.length_append, List.length_nil] at whole ⊢
        omega

theorem fits_pair {start front behind : List Byte} {c : Byte} (storable : Storable start)
    (left : Left isspace start)
    (first : forall c, start.head? = some c -> c ≠ 0x3b ∧ c ≠ 0x23 ∧ c ≠ 0x5b)
    (whole : start = front ++ c :: behind) (equals : (0x3d : Byte) ∉ front) (comment : NoComment front) :
    Fits start (.pair (rstrip front) (rstrip (findCharOrComment 0 false (lskip behind)).1)) := by
  have spec := findCharOrComment_spec 0 (lskip behind)
  have name : rstrip front <+: start := (rstrip_front front).trans ⟨_, whole.symm⟩
  have scanned : (findCharOrComment 0 false (lskip behind)).1 <+: lskip behind := ⟨_, spec.1⟩
  have value := (rstrip_front _).trans scanned
  have inside : rstrip (findCharOrComment 0 false (lskip behind)).1 ⊆ start := by
    refine List.Subset.trans value.subset (List.Subset.trans (lskip_suffix behind).subset ?_)
    rw [whole]
    exact fun b member => List.mem_append_right _ (List.mem_cons_of_mem _ member)
  refine ⟨Or.inr ⟨⟨storable.of_subset name.subset, left.of_front name, right_rstrip front, ?_,
    fun there => equals ((rstrip_front front).subset there), comment.of_front (rstrip_front front)⟩,
    ⟨storable.of_subset inside, (left_lskip behind).of_front value, right_rstrip _,
      spec.2.2.of_front (rstrip_front _)⟩⟩, ?_⟩
  · intro b head
    rcases name with ⟨rest, same⟩
    apply first b
    rw [← same, List.head?_append, head]
    rfl
  · have one := (rstrip_front front).length_le
    have other := value.length_le.trans (lskip_suffix behind).length_le
    simp only [Line.print, whole, List.length_append, List.length_cons]
    omega

/-- Whatever is read is plain, and takes no more room than where it was read from. -/
theorem parseLine_spec {t : List Byte} (storable : Storable (rstrip t)) :
    Fits (rstrip t) (parseLine t) := by
  have suffix := lskip_suffix (rstrip t)
  have left := left_lskip (rstrip t)
  have inside := storable.of_subset suffix.subset
  have shorter {line : Line} (fits : Fits (lskip (rstrip t)) line) : Fits (rstrip t) line :=
    ⟨fits.plain, fits.short.trans suffix.length_le⟩
  rw [parseLine]
  apply shorter
  cases start : lskip (rstrip t) with
  | nil => exact fits_nothing []
  | cons c rest =>
      rw [start] at inside left
      simp only
      split
      · exact fits_nothing _
      · rename_i noComment
        split
        · rename_i bracket
          subst bracket
          split
          · rename_i closed
            apply fits_header (inside.of_subset fun b member => List.mem_cons_of_mem _ member) rfl closed
          · exact fits_malformed _
        · rename_i noBracket
          rcases parsePair_spec (c :: rest) with bad | ⟨front, behind, d, whole, equals, comment, same⟩
          · rw [bad]
            exact fits_malformed _
          · rw [same]
            refine fits_pair inside left ?_ whole equals comment
            intro b head
            cases head
            exact ⟨fun same => noComment (Or.inl same), fun same => noComment (Or.inr same), noBracket⟩

/-! ## Reading what was printed -/

theorem rstrip_newline (s : List Byte) : rstrip (s ++ [0x0a]) = rstrip s :=
  rdropWhile_append_blank rfl s

/-- Whatever is plain is read from its text. -/
theorem parseLine_print {line : Line} (plain : line.Plain) : parseLine (line.print ++ [0x0a]) = line := by
  cases line with
  | nothing => rfl
  | header name =>
      have right : Right isspace (Line.print (.header name)) := by
        intro c last
        rw [Line.print, ← List.cons_append, List.getLast?_append] at last
        cases last
        rfl
      have left : Left isspace (Line.print (.header name)) := by
        intro c first
        cases first
        rfl
      have scanned : findCharOrComment 0x5d false (name ++ [0x5d]) = (name, [0x5d]) :=
        findCharOrComment_eq_of plain.bracket plain.comment fun b first => (Option.some.inj first).symm
      have whole : name.take (maxSection - 1) = name := List.take_of_length_le (Nat.le_sub_one_of_lt plain.short)
      rw [parseLine, rstrip_newline, rstrip_of_right right, lskip_of_left left, Line.print]
      simp only [scanned, whole]
      rfl
  | pair name value =>
      have right : Right isspace (Line.print (.pair name value)) := by
        intro c last
        rw [Line.print, List.getLast?_append_cons] at last
        cases value with
        | nil =>
            cases last
            rfl
        | cons b value => exact plain.2.right c last
      have left : Left isspace (Line.print (.pair name value)) := by
        intro c first
        cases name with
        | nil =>
            cases first
            rfl
        | cons b name => exact plain.1.left c first
      have start : parseLine (Line.print (.pair name value) ++ [0x0a]) =
          parsePair (name ++ 0x3d :: value) := by
        rw [parseLine, rstrip_newline, rstrip_of_right right, lskip_of_left left, Line.print]
        cases name with
        | nil => rfl
        | cons b name =>
            have first := plain.1.first b rfl
            simp only [List.cons_append, first.1, first.2.1, first.2.2, or_self, if_false]
      have equals : findCharOrComment 0x3d false (name ++ 0x3d :: value) = (name, 0x3d :: value) :=
        findCharOrComment_eq_of plain.1.equals plain.1.comment fun b first => (Option.some.inj first).symm
      have rest : findCharOrComment 0 false value = (value, []) := by
        have scanned : findCharOrComment 0 false (value ++ []) = (value, []) :=
          findCharOrComment_eq_of plain.2.storable.1 plain.2.comment fun b first => nomatch first
        rwa [List.append_nil] at scanned
      rw [start, parsePair, equals]
      simp only [List.head?_cons, if_true, true_or, lskip_of_left plain.2.left, rest,
        rstrip_of_right plain.1.right, rstrip_of_right plain.2.right]
  | malformed => exact False.elim plain

end Ini
end Rfx
