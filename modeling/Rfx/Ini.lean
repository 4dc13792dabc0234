import Rfx.Library.Calls
import Rfx.Loot

namespace Rfx

/-!
# Configuration files

The model of `ini.c` as it is compiled, without `INI_ALLOW_MULTILINE` and with
`INI_ALLOW_BOM`.  What a line says does not depend on the handler, so a file is
first read into lines, and the handler is then called for them in turn.
-/

namespace Ini

open RfxLoot (isspace)
open Library.Calls

/-- `INI_MAX_LINE`, the size of the array that a line is read into. -/
def maxLine : Nat := 200

/-- `MAX_SECTION`, the size of the array that the section is copied to. -/
def maxSection : Nat := 50

/-- What the calls of `fgets` deliver: a line at a time, or as much of one as
there is room for. -/
def fgets : Nat -> List Byte -> List (List Byte)
  | _, [] => []
  | room, c :: file =>
      if c = 0x0a ∨ room ≤ 1 then [c] :: fgets (maxLine - 1) file
      else
        match fgets (room - 1) file with
        | [] => [[c]]
        | line :: lines => (c :: line) :: lines

/-- Strip whitespace chars off the end. -/
def rstrip (s : List Byte) : List Byte :=
  (s.reverse.dropWhile isspace).reverse

/-- From the first non-whitespace char on. -/
def lskip (s : List Byte) : List Byte :=
  s.dropWhile isspace

/-- Split at the first `c`, or at a comment, which starts with `;` behind a
whitespace char. -/
def findCharOrComment (c : Byte) : Bool -> List Byte -> List Byte × List Byte
  | _, [] => ([], [])
  | wasWhitespace, b :: s =>
      if b = c ∨ wasWhitespace = true ∧ b = 0x3b then ([], b :: s)
      else
        let found := findCharOrComment c (isspace b) s
        (b :: found.1, found.2)

/-- What a line says. -/
inductive Line
  | nothing
  | header (name : List Byte)
  | pair (name value : List Byte)
  | malformed
  deriving DecidableEq

/-- A line that starts with neither a comment nor a bracket. -/
def parsePair (start : List Byte) : Line :=
  let equals := findCharOrComment 0x3d false start
  let found := if equals.2.head? = some 0x3d then equals else findCharOrComment 0x3a false start
  match found.2 with
  | [] => .malformed
  | c :: behind =>
      if c = 0x3d ∨ c = 0x3a then
        .pair (rstrip found.1) (rstrip (findCharOrComment 0 false (lskip behind)).1)
      else .malformed

def parseLine (line : List Byte) : Line :=
  match lskip (rstrip line) with
  | [] => .nothing
  | c :: rest =>
      if c = 0x3b ∨ c = 0x23 then .nothing
      else if c = 0x5b then
        let found := findCharOrComment 0x5d false rest
        if found.2.head? = some 0x5d then .header (found.1.take (maxSection - 1)) else .malformed
      else parsePair (c :: rest)

/-- A UTF-8 BOM at the start of the file is skipped. -/
def skipBom (line : List Byte) : List Byte :=
  if line.take 3 = [0xef, 0xbb, 0xbf] then line.drop 3 else line

/-- The lines of a file. -/
def readLines (content : List Byte) : List Line :=
  match (fgets (maxLine - 1) content).map fun line => line.takeWhile (· ≠ 0) with
  | [] => []
  | first :: rest => parseLine (skipBom first) :: rest.map parseLine

variable {S : Type}

/-- The loop of `ini_parse_file`.  `handler` may have no result; `error` is the
number of the first line with an error, and zero before there is one. -/
def parseFile (handler : S -> List Byte -> List Byte -> List Byte -> Option (S × Bool)) :
    List Line -> Nat -> List Byte -> Int -> S -> Option (S × Int)
  | [], _, _, error, s => some (s, error)
  | line :: lines, lineno, sec, error, s =>
      let failed := if error = 0 then (lineno : Int) else error
      match line with
      | .nothing => parseFile handler lines (lineno + 1) sec error s
      | .header name => parseFile handler lines (lineno + 1) name error s
      | .malformed => parseFile handler lines (lineno + 1) sec failed s
      | .pair name value =>
          (handler s sec name value).bind fun done =>
            parseFile handler lines (lineno + 1) sec (if done.2 then error else failed) done.1

/-- What the handler is called with: a section, a name and a value. -/
structure Pair where
  sec : List Byte
  name : List Byte
  value : List Byte
  deriving DecidableEq

/-- The pairs of a file, each with the section it is in. -/
def pairs : List Byte -> List Line -> List Pair
  | _, [] => []
  | _, .header name :: lines => pairs name lines
  | sec, .pair name value :: lines => ⟨sec, name, value⟩ :: pairs sec lines
  | sec, _ :: lines => pairs sec lines

/-- The handler is called for all pairs in order, and no error is reported when every
line is well formed and every pair is handled. -/
theorem parseFile_eq {handler : S -> List Byte -> List Byte -> List Byte -> Option (S × Bool)}
    {lines : List Line} {lineno : Nat} {sec : List Byte} {error result : Int} {s final : S}
    (numbered : 0 < lineno)
    (parsed : parseFile handler lines lineno sec error s = some (final, result)) :
    Exists fun answered =>
      performAll (fun s pair => handler s pair.sec pair.name pair.value) s (pairs sec lines) =
        some (final, answered) ∧
      (result = 0 <-> error = 0 ∧ Line.malformed ∉ lines ∧ forall a, a ∈ answered -> a.2 = true) := by
  induction lines generalizing lineno sec error s with
  | nil =>
      cases parsed
      exact ⟨[], rfl, by simp⟩
  | cons line lines inductionHypothesis =>
      have failed : ¬ (if error = 0 then (lineno : Int) else error) = 0 := by
        split <;> omega
      cases line with
      | nothing =>
          rcases inductionHypothesis (Nat.succ_pos lineno) parsed with ⟨answered, performed, clean⟩
          exact ⟨answered, performed, by simp [clean]⟩
      | header name =>
          rcases inductionHypothesis (Nat.succ_pos lineno) parsed with ⟨answered, performed, clean⟩
          exact ⟨answered, performed, by simp [clean]⟩
      | malformed =>
          rcases inductionHypothesis (Nat.succ_pos lineno) parsed with ⟨answered, performed, clean⟩
          exact ⟨answered, performed, by simp [clean, failed]⟩
      | pair name value =>
          rcases Option.bind_eq_some_iff.mp parsed with ⟨⟨middle, accepted⟩, handled, rest⟩
          rcases inductionHypothesis (Nat.succ_pos lineno) rest with ⟨answered, performed, clean⟩
          refine ⟨(⟨sec, name, value⟩, accepted) :: answered, ?_, ?_⟩
          · exact performAll_cons.mpr ⟨middle, accepted, answered, handled, performed, rfl⟩
          · cases accepted with
            | true => simp [clean]
            | false => simp [clean, failed]

/-- `ini_parse`, given the lines of the file, if it can be opened. -/
def parse (handler : S -> List Byte -> List Byte -> List Byte -> Option (S × Bool)) (s : S) :
    Option (List Line) -> Option (S × Int)
  | none => some (s, -1)
  | some lines => parseFile handler lines 1 [] 0 s

end Ini

end Rfx
