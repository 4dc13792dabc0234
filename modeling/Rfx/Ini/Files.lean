import Rfx.Ini.RoundTrip

namespace Rfx
namespace Ini

open Library Library.Span Library.Trim Library.Calls
open RfxLoot (isspace)

/-!
# Whole configuration files

A file is read in pieces, which end with a newline or where the array is full.  As long as
its lines fit into the array the pieces are the lines.
-/

/-! ## Pieces -/

/-- A piece of a file has a newline at its end, or none. -/
def Piece (t : List Byte) : Prop :=
  Exists fun u => (0x0a : Byte) ∉ u ∧ (t = u ∨ t = u ++ [0x0a])

theorem piece_cons {c : Byte} {t : List Byte} (other : c ≠ 0x0a) (piece : Piece t) : Piece (c :: t) := by
  rcases piece with ⟨u, none, rfl | rfl⟩
  · exact ⟨c :: t, List.not_mem_cons_of_ne_of_not_mem other.symm none, Or.inl rfl⟩
  · exact ⟨c :: u, List.not_mem_cons_of_ne_of_not_mem other.symm none, Or.inr rfl⟩

theorem Piece.of_front {s t : List Byte} (piece : Piece t) (front : s <+: t) : Piece s := by
  rcases piece with ⟨u, none, rfl | rfl⟩
  · exact ⟨s, fun there => none (front.subset there), Or.inl rfl⟩
  · rcases List.prefix_concat_iff.mp front with whole | shorter
    · exact ⟨u, none, Or.inr whole⟩
    · exact ⟨s, fun there => none (shorter.subset there), Or.inl rfl⟩

theorem piece_singleton (c : Byte) : Piece [c] := by
  by_cases newline : c = 0x0a
  · subst newline
    exact ⟨[], List.not_mem_nil, Or.inr rfl⟩
  · exact ⟨[c], fun member => newline (List.mem_singleton.mp member).symm, Or.inl rfl⟩

/-- What `fgets` delivers are pieces that fit. -/
theorem fgets_spec {room : Nat} (positive : 0 < room) (content : List Byte) :
    (forall t, (fgets room content).head? = some t -> Piece t ∧ t.length ≤ room) ∧
      forall t, t ∈ (fgets room content).tail -> Piece t ∧ t.length < maxLine := by
  induction content generalizing room with
  | nil => exact ⟨fun t first => (nomatch first), fun t member => absurd member List.not_mem_nil⟩
  | cons c content inductionHypothesis =>
      rw [fgets]
      split
      · have later := inductionHypothesis (show 0 < maxLine - 1 by decide)
        refine ⟨fun t first => ?_, fun t member => ?_⟩
        · cases first
          exact ⟨piece_singleton c, positive⟩
        · have member : t ∈ fgets (maxLine - 1) content := member
          cases pieces : fgets (maxLine - 1) content with
          | nil =>
              rw [pieces] at member
              cases member
          | cons line lines =>
              rw [pieces] at member later
              rcases List.mem_cons.mp member with same | behind
              · subst same
                rcases later.1 t rfl with ⟨piece, fits⟩
                exact ⟨piece, Nat.lt_of_le_of_lt fits (by decide)⟩
              · exact later.2 t behind
      · rename_i goesOn
        rcases not_or.mp goesOn with ⟨other, larger⟩
        have later := inductionHypothesis (show 0 < room - 1 by omega)
        cases pieces : fgets (room - 1) content with
        | nil =>
            refine ⟨fun t first => ?_, fun t member => absurd member List.not_mem_nil⟩
            cases first
            exact ⟨piece_singleton c, positive⟩
        | cons line lines =>
            rw [pieces] at later
            refine ⟨fun t first => ?_, later.2⟩
            cases first
            rcases later.1 line rfl with ⟨piece, fits⟩
            refine ⟨piece_cons other piece, ?_⟩
            rw [List.length_cons]
            omega

theorem mem_fgets {content t : List Byte} (member : t ∈ fgets (maxLine - 1) content) :
    Piece t ∧ t.length < maxLine := by
  have spec := fgets_spec (show 0 < maxLine - 1 by decide) content
  cases pieces : fgets (maxLine - 1) content with
  | nil =>
      rw [pieces] at member
      cases member
  | cons line lines =>
      rw [pieces] at member spec
      rcases List.mem_cons.mp member with same | behind
      · rcases spec.1 t (same ▸ rfl) with ⟨piece, fits⟩
        exact ⟨piece, Nat.lt_of_le_of_lt fits (by decide)⟩
      · exact spec.2 t behind

/-- A line that fits is one piece. -/
theorem fgets_line {room : Nat} {t : List Byte} (none : (0x0a : Byte) ∉ t) (fits : t.length < room)
    (rest : List Byte) :
    fgets room (t ++ 0x0a :: rest) = (t ++ [0x0a]) :: fgets (maxLine - 1) rest := by
  induction t generalizing room with
  | nil => exact if_pos (Or.inl rfl)
  | cons c t inductionHypothesis =>
      rcases List.ne_and_not_mem_of_not_mem_cons none with ⟨other, none⟩
      have longer : t.length + 1 < room := fits
      have goesOn : ¬ (c = 0x0a ∨ room ≤ 1) := by
        rintro (same | full)
        · exact other same.symm
        · omega
      have one := inductionHypothesis none (show t.length < room - 1 by omega)
      rw [List.cons_append, fgets, if_neg goesOn, one]
      rfl

/-- A line that does not fit is more than one piece. -/
theorem length_fgets_line {room : Nat} {t : List Byte} (none : (0x0a : Byte) ∉ t) (positive : 0 < room)
    (rest : List Byte) : Exists fun more =>
      (fgets room (t ++ 0x0a :: rest)).length = more + 1 + (fgets (maxLine - 1) rest).length ∧
        (more = 0 -> t.length < room) := by
  induction t generalizing room with
  | nil =>
      refine ⟨0, ?_, fun _ => positive⟩
      rw [List.nil_append, fgets, if_pos (Or.inl rfl), List.length_cons]
      omega
  | cons c t inductionHypothesis =>
      rcases List.ne_and_not_mem_of_not_mem_cons none with ⟨other, none⟩
      rw [List.cons_append, fgets]
      by_cases full : room ≤ 1
      · rcases inductionHypothesis none (show 0 < maxLine - 1 by decide) with ⟨more, count, _⟩
        refine ⟨more + 1, ?_, fun impossible => by omega⟩
        rw [if_pos (Or.inr full), List.length_cons, count]
        omega
      · rcases inductionHypothesis none (show 0 < room - 1 by omega) with ⟨more, count, fits⟩
        have goesOn : ¬ (c = 0x0a ∨ room ≤ 1) := by
          rintro (same | small)
          · exact other same.symm
          · exact full small
        refine ⟨more, ?_, fun alone => ?_⟩
        · rw [if_neg goesOn, ← count]
          cases pieces : fgets (room - 1) (t ++ 0x0a :: rest) with
          | nil =>
              rw [pieces, List.length_nil] at count
              omega
          | cons line lines => rfl
        · have small := fits alone
          rw [List.length_cons]
          omega

/-! ## What is read from a file -/

/-- A line is plain, and its text fits. -/
def Short (line : Line) : Prop :=
  line = .malformed ∨ line.Plain ∧ line.print.length < maxLine

/-- A text that a line is read from. -/
structure Text (t : List Byte) : Prop where
  piece : Piece t
  zero : (0 : Byte) ∉ t
  short : t.length < maxLine

theorem Text.rstrip {t : List Byte} (text : Text t) : Storable (rstrip t) := by
  have nonzero : (0 : Byte) ∉ Ini.rstrip t := fun there => text.zero ((rstrip_front t).subset there)
  refine ⟨nonzero, ?_⟩
  rcases text.piece with ⟨u, none, rfl | rfl⟩
  · exact fun there => none ((rstrip_front t).subset there)
  · rw [rstrip_newline]
    exact fun there => none ((rstrip_front u).subset there)

theorem Text.parseLine {t : List Byte} (text : Text t) : Short (parseLine t) := by
  rcases parseLine_spec text.rstrip with ⟨plain, short⟩
  rcases plain with bad | plain
  · exact Or.inl bad
  · have fits := short.trans (rstrip_front t).length_le
    exact Or.inr ⟨plain, Nat.lt_of_le_of_lt fits text.short⟩

theorem Text.drop {t : List Byte} (text : Text t) (n : Nat) : Text (t.drop n) := by
  have suffix := List.drop_suffix n t
  refine ⟨?_, fun there => text.zero (suffix.subset there), Nat.lt_of_le_of_lt suffix.length_le text.short⟩
  rcases text.piece with ⟨u, none, rfl | rfl⟩
  · exact ⟨t.drop n, fun there => none (suffix.subset there), Or.inl rfl⟩
  · rw [List.drop_append]
    have front : (0x0a : Byte) ∉ u.drop n := fun there => none (List.mem_of_mem_drop there)
    cases n - u.length with
    | zero => exact ⟨_, front, Or.inr rfl⟩
    | succ more => exact ⟨_, front, Or.inl (by rw [List.drop_succ_cons, List.drop_nil, List.append_nil])⟩

theorem Text.skipBom {t : List Byte} (text : Text t) : Text (skipBom t) := by
  rw [Ini.skipBom]
  split
  · exact text.drop 3
  · exact text

theorem text_of_mem {content t : List Byte} (member : t ∈ fgets (maxLine - 1) content) :
    Text (t.takeWhile (· ≠ 0)) := by
  rcases mem_fgets member with ⟨piece, short⟩
  have front : t.takeWhile (· ≠ 0) <+: t := List.takeWhile_prefix _
  refine ⟨piece.of_front front, fun there => ?_, Nat.lt_of_le_of_lt front.length_le short⟩
  have nonzero := List.mem_takeWhile_imp (p := fun c => decide (c ≠ 0)) there
  exact of_decide_eq_true nonzero rfl

/-- Whatever is read from a file is plain and fits into a line. -/
theorem short_of_mem {content : List Byte} {line : Line} (member : line ∈ readLines content) :
    Short line := by
  rw [readLines] at member
  cases pieces : fgets (maxLine - 1) content with
  | nil =>
      rw [pieces] at member
      cases member
  | cons first rest =>
      have all (t : List Byte) (there : t ∈ first :: rest) : Text (t.takeWhile (· ≠ 0)) :=
        text_of_mem (pieces ▸ there)
      rw [pieces] at member
      rcases List.mem_cons.mp member with same | behind
      · rw [same]
        exact (all first List.mem_cons_self).skipBom.parseLine
      · rcases List.mem_map.mp behind with ⟨t, mapped, rfl⟩
        rcases List.mem_map.mp mapped with ⟨piece, there, rfl⟩
        exact (all piece (List.mem_cons_of_mem _ there)).parseLine

/-! ## Reading a file that was printed -/

/-- What is skipped at the start of a file. -/
def bom : List Byte :=
  [0xef, 0xbb, 0xbf]

theorem skipBom_of_other {t : List Byte} (other : ¬ bom <+: t) : skipBom t = t := by
  apply if_neg
  intro same
  apply other
  have front := List.take_prefix 3 t
  rwa [same] at front

/-- The bytes of a text that is printed. -/
theorem storable_print {line : Line} (plain : line = .malformed ∨ line.Plain) :
    Storable line.print := by
  cases line with
  | nothing => exact ⟨List.not_mem_nil, List.not_mem_nil⟩
  | malformed => exact ⟨List.not_mem_nil, List.not_mem_nil⟩
  | header name =>
      rcases plain with bad | plain
      · cases bad
      · have bytes := plain.storable
        constructor
        · simp [Line.print, bytes.1]
        · simp [Line.print, bytes.2]
  | pair name value =>
      rcases plain with bad | plain
      · cases bad
      · have front := plain.1.storable
        have back := plain.2.storable
        constructor
        · simp [Line.print, front.1, back.1]
        · simp [Line.print, front.2, back.2]

theorem printLines_cons (line : Line) (lines : List Line) :
    printLines (line :: lines) = line.print ++ 0x0a :: printLines lines := by
  rw [printLines, List.flatMap_cons, List.append_assoc]
  rfl

/-- Each line of a printed file takes a piece at least, and more than one if it is too long. -/
theorem length_fgets_printLines {lines : List Line}
    (plain : forall line, line ∈ lines -> line = .malformed ∨ line.Plain) :
    lines.length ≤ (fgets (maxLine - 1) (printLines lines)).length ∧
      ((fgets (maxLine - 1) (printLines lines)).length = lines.length ->
        forall line, line ∈ lines -> line.print.length < maxLine - 1) := by
  induction lines with
  | nil => exact ⟨Nat.zero_le _, fun _ line member => absurd member List.not_mem_nil⟩
  | cons line lines inductionHypothesis =>
      rcases inductionHypothesis fun line member => plain line (List.mem_cons_of_mem _ member) with
        ⟨least, alone⟩
      have bytes := storable_print (plain line List.mem_cons_self)
      rcases length_fgets_line bytes.2 (show 0 < maxLine - 1 by decide) (printLines lines) with
        ⟨more, count, fits⟩
      rw [printLines_cons, count, List.length_cons]
      refine ⟨by omega, fun same other member => ?_⟩
      rcases List.mem_cons.mp member with here | later
      · rw [here]
        exact fits (by omega)
      · exact alone (by omega) other later

/-- The pieces of a printed file are its lines if they fit. -/
theorem fgets_printLines {lines : List Line}
    (plain : forall line, line ∈ lines -> line = .malformed ∨ line.Plain)
    (fits : forall line, line ∈ lines -> line.print.length < maxLine - 1) :
    (fgets (maxLine - 1) (printLines lines)).map (fun t => t.takeWhile (· ≠ 0)) =
      lines.map fun line => line.print ++ [0x0a] := by
  induction lines with
  | nil => rfl
  | cons line lines inductionHypothesis =>
      have bytes := storable_print (plain line List.mem_cons_self)
      have rest := inductionHypothesis (fun line member => plain line (List.mem_cons_of_mem _ member))
        fun line member => fits line (List.mem_cons_of_mem _ member)
      have whole : (line.print ++ [0x0a]).takeWhile (· ≠ 0) = line.print ++ [0x0a] := by
        apply List.takeWhile_eq_self_iff.mpr
        intro c member
        apply decide_eq_true
        rcases List.mem_append.mp member with inside | last
        · exact fun same => bytes.1 (same ▸ inside)
        · rw [List.mem_singleton.mp last]
          decide
      rw [printLines_cons, fgets_line bytes.2 (fits line List.mem_cons_self), List.map_cons,
        List.map_cons, rest, whole]

/-- A file is read back if its lines are plain and fit. -/
theorem readLines_printLines {lines : List Line} (plain : forall line, line ∈ lines -> line.Plain)
    (fits : forall line, line ∈ lines -> line.print.length < maxLine - 1)
    (start : ¬ bom <+: printLines lines) : readLines (printLines lines) = lines := by
  have pieces := fgets_printLines (fun line member => Or.inr (plain line member)) fits
  rw [readLines, pieces]
  cases lines with
  | nil => rfl
  | cons line lines =>
      have other : ¬ bom <+: line.print ++ [0x0a] := by
        rintro front
        apply start
        refine front.trans ⟨printLines lines, ?_⟩
        rw [printLines_cons, List.append_assoc]
        rfl
      have each : forall line, line ∈ lines -> (parseLine ∘ fun line => line.print ++ [0x0a]) line = line :=
        fun line member => parseLine_print (plain line (List.mem_cons_of_mem _ member))
      rw [List.map_cons]
      simp only [skipBom_of_other other, parseLine_print (plain line List.mem_cons_self), List.map_map]
      rw [List.map_congr_left each, List.map_id'']
      exact fun _ => rfl

/-- The first line decides whether the file seems to start with a mark. -/
theorem bom_prefix_line {line : Line} {lines : List Line} (front : bom <+: printLines (line :: lines)) :
    bom <+: line.print ++ [0x0a] := by
  have text : line.print ++ [0x0a] <+: printLines (line :: lines) := by
    refine ⟨printLines lines, ?_⟩
    rw [printLines_cons, List.append_assoc]
    rfl
  rcases List.prefix_or_prefix_of_prefix front text with shorter | longer
  · exact shorter
  · have newline : (0x0a : Byte) ∈ bom := longer.subset (List.mem_append_right _ (List.mem_singleton_self _))
    exact absurd newline (by decide)

/-- A line is not read from a text that starts with a mark, which is skipped. -/
theorem not_bom_prefix {line : Line} (text : Text (line.print ++ [0x0a]))
    (same : parseLine (skipBom (line.print ++ [0x0a])) = line) : ¬ bom <+: line.print ++ [0x0a] := by
  intro front
  have skipped : skipBom (line.print ++ [0x0a]) = (line.print ++ [0x0a]).drop 3 :=
    if_pos (List.prefix_iff_eq_take.mp front).symm
  have long := front.length_le
  have fits := (parseLine_spec (text.drop 3).rstrip).short
  rw [← skipped, same, skipped] at fits
  have less := fits.trans (rstrip_front _).length_le
  rw [List.length_append, List.length_singleton] at long
  rw [List.length_drop, List.length_append, List.length_singleton] at less
  have three : bom.length = 3 := rfl
  omega

/-- What is read from its own text is no malformed line. -/
theorem plain_of_parseLine {line : Line} (plain : line = .malformed ∨ line.Plain)
    (same : parseLine (line.print ++ [0x0a]) = line) : line.Plain := by
  rcases plain with bad | plain
  · subst bad
    cases same
  · exact plain

theorem length_readLines (content : List Byte) :
    (readLines content).length = (fgets (maxLine - 1) content).length := by
  rw [readLines]
  cases fgets (maxLine - 1) content with
  | nil => rfl
  | cons first rest => simp only [List.map_cons, List.length_cons, List.length_map]

/-- A printed file says what it was printed from exactly if every line can be said: names
and values have no blanks at their ends, no comments and no characters that mean something
else, sections have less than fifty bytes, no comment and no bracket, nothing has a zero or
the end of a line inside, all lines fit into the array, and the file does not look as if it
started with a byte order mark. -/
theorem printed_lines_read_back (lines : List Line) :
    readLines (printLines lines) = lines <->
      (forall line, line ∈ lines -> line.Plain ∧ line.print.length + 1 < maxLine) ∧
        ¬ bom <+: printLines lines := by
  constructor
  · intro same
    have plain (line : Line) (member : line ∈ lines) : line = .malformed ∨ line.Plain := by
      rw [← same] at member
      exact (short_of_mem member).imp_right And.left
    have count := (length_readLines (printLines lines)).symm.trans (congrArg List.length same)
    have fits := (length_fgets_printLines plain).2 count
    have pieces := fgets_printLines plain fits
    have room {n : Nat} (fits : n < maxLine - 1) : n + 1 < maxLine := Nat.add_lt_of_lt_sub fits
    rw [readLines, pieces] at same
    cases lines with
    | nil => exact ⟨fun line member => absurd member List.not_mem_nil, by decide⟩
    | cons line lines =>
        simp only [List.map_cons, List.map_map] at same
        rcases List.cons.inj same with ⟨first, later⟩
        have bytes := storable_print (plain line List.mem_cons_self)
        have text : Text (line.print ++ [0x0a]) := by
          refine ⟨⟨line.print, bytes.2, Or.inr rfl⟩, ?_, ?_⟩
          · simp [bytes.1]
          · rw [List.length_append]
            exact room (fits line List.mem_cons_self)
        have start := not_bom_prefix text first
        rw [skipBom_of_other start] at first
        refine ⟨fun other member => ⟨?_, room (fits other member)⟩, fun front => start (bom_prefix_line front)⟩
        apply plain_of_parseLine (plain other member)
        rcases List.mem_cons.mp member with here | there
        · exact here ▸ first
        · exact List.map_inj_left.mp (later.trans (List.map_id lines).symm) other there
  · rintro ⟨each, start⟩
    have fits (line : Line) (member : line ∈ lines) : line.print.length < maxLine - 1 :=
      Nat.lt_sub_of_add_lt (each line member).2
    exact readLines_printLines (fun line member => (each line member).1) fits start

/-! ## What is reported about a file -/

/-- The number of the first line that is not good, or zero. -/
def firstError : Nat -> List Bool -> Int
  | _, [] => 0
  | lineno, good :: later => if good then firstError (lineno + 1) later else lineno

/-- Which lines are good: a line with a pair is if the handler says so. -/
def goodLines : List Line -> List Bool -> List Bool
  | [], _ => []
  | .malformed :: lines, verdicts => false :: goodLines lines verdicts
  | .pair _ _ :: lines, verdict :: verdicts => verdict :: goodLines lines verdicts
  | _ :: lines, verdicts => true :: goodLines lines verdicts

variable {S : Type}

/-- An error that was found earlier stays the first one. -/
theorem parseFile_reports {handler : S -> List Byte -> List Byte -> List Byte -> Option (S × Bool)}
    {lines : List Line} {lineno : Nat} {sec : List Byte} {error result : Int} {s final : S}
    (numbered : 0 < lineno)
    (parsed : parseFile handler lines lineno sec error s = some (final, result)) :
    Exists fun answered =>
      performAll (fun s pair => handler s pair.sec pair.name pair.value) s (pairs sec lines) =
        some (final, answered) ∧
      result = if error = 0 then firstError lineno (goodLines lines (answered.map Prod.snd)) else error := by
  have failed : ¬ (if error = 0 then (lineno : Int) else error) = 0 := by
    split <;> omega
  induction lines generalizing lineno sec error s with
  | nil =>
      cases parsed
      refine ⟨[], rfl, ?_⟩
      split
      · assumption
      · rfl
  | cons line lines inductionHypothesis =>
      have later (lineno : Nat) (error : Int) (numbered : 0 < lineno) :
          ¬ (if error = 0 then (lineno : Int) else error) = 0 := by
        split <;> omega
      cases line with
      | nothing =>
          exact inductionHypothesis (Nat.succ_pos lineno) parsed (later _ _ (Nat.succ_pos lineno))
      | header name =>
          exact inductionHypothesis (Nat.succ_pos lineno) parsed (later _ _ (Nat.succ_pos lineno))
      | malformed =>
          rcases inductionHypothesis (Nat.succ_pos lineno) parsed (later _ _ (Nat.succ_pos lineno)) with
            ⟨answered, performed, reported⟩
          refine ⟨answered, performed, ?_⟩
          rw [if_neg failed] at reported
          exact reported
      | pair name value =>
          rcases Option.bind_eq_some_iff.mp parsed with ⟨⟨middle, accepted⟩, handled, rest⟩
          rcases inductionHypothesis (Nat.succ_pos lineno) rest (later _ _ (Nat.succ_pos lineno)) with
            ⟨answered, performed, reported⟩
          refine ⟨(⟨sec, name, value⟩, accepted) :: answered, ?_, ?_⟩
          · exact performAll_cons.mpr ⟨middle, accepted, answered, handled, performed, rfl⟩
          · cases accepted with
            | true => exact reported
            | false =>
                simp only [Bool.false_eq_true, if_false] at reported
                rw [if_neg failed] at reported
                exact reported

/-- The pairs of lines that are plain. -/
theorem plain_pairs {lines : List Line} {sec : List Byte} (start : PlainSection sec)
    (plain : forall line, line ∈ lines -> line = .malformed ∨ line.Plain) (pair : Pair)
    (member : pair ∈ pairs sec lines) :
    PlainSection pair.sec ∧ PlainName pair.name ∧ PlainValue pair.value := by
  induction lines generalizing sec with
  | nil => cases member
  | cons line lines inductionHypothesis =>
      have rest (line : Line) (member : line ∈ lines) := plain line (List.mem_cons_of_mem _ member)
      have first := plain line List.mem_cons_self
      cases line with
      | nothing => exact inductionHypothesis start rest member
      | malformed => exact inductionHypothesis start rest member
      | header name => exact inductionHypothesis (first.resolve_left Line.noConfusion) rest member
      | pair name value =>
          rcases List.mem_cons.mp member with here | later
          · have both := first.resolve_left Line.noConfusion
            rw [here]
            exact ⟨start, both.1, both.2⟩
          · exact inductionHypothesis start rest later

/-- What `ini_parse` promises.  For every file and every handler: the handler is called for
all pairs in order, also behind an error, with names and values that are stripped and
without comments, and with sections that fit into their array and have no comment either;
and the result is the number of the first line that is malformed or that the handler
rejects, and zero if there is none. -/
theorem parse_reports_first_error
    (handler : S -> List Byte -> List Byte -> List Byte -> Option (S × Bool)) (content : List Byte)
    (s final : S) (result : Int) (parsed : parse handler s (some (readLines content)) = some (final, result)) :
    Exists fun answered =>
      performAll (fun s pair => handler s pair.sec pair.name pair.value) s (pairs [] (readLines content)) =
        some (final, answered) ∧
      result = firstError 1 (goodLines (readLines content) (answered.map Prod.snd)) ∧
      forall pair, pair ∈ pairs [] (readLines content) ->
        PlainSection pair.sec ∧ PlainName pair.name ∧ PlainValue pair.value := by
  rcases parseFile_reports Nat.one_pos parsed with ⟨answered, performed, reported⟩
  refine ⟨answered, performed, reported, ?_⟩
  apply plain_pairs
  · exact ⟨⟨List.not_mem_nil, List.not_mem_nil⟩, List.not_mem_nil, List.isChain_nil, by decide⟩
  · exact fun line member => (short_of_mem member).imp_right And.left

/-- A handler that keeps what it accepts, and accepts no `b`. -/
def keepAll (kept : List Pair) (sec name value : List Byte) : Option (List Pair × Bool) :=
  if name = text "b" then some (kept, false) else some (kept ++ [⟨sec, name, value⟩], true)

theorem parse_reports_first_error_third :
    Exists fun answered =>
      performAll (fun kept pair => keepAll kept pair.sec pair.name pair.value) []
        (pairs [] (readLines (text "[x]\n a = 1 ; one\nb:2\nc\nd=4"))) =
          some ([⟨text "x", text "a", text "1"⟩, ⟨text "x", text "d", text "4"⟩], answered) ∧
        (3 : Int) = firstError 1 (goodLines (readLines (text "[x]\n a = 1 ; one\nb:2\nc\nd=4"))
          (answered.map Prod.snd)) := by
  have parsed : parse keepAll [] (some (readLines (text "[x]\n a = 1 ; one\nb:2\nc\nd=4"))) =
      some ([⟨text "x", text "a", text "1"⟩, ⟨text "x", text "d", text "4"⟩], 3) := by decide +kernel
  rcases parse_reports_first_error keepAll _ [] _ 3 parsed with ⟨answered, performed, reported, _⟩
  exact ⟨answered, performed, reported⟩

end Ini
end Rfx
