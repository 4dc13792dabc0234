import Mathlib.Data.List.DropRight
import Rfx.Library.Trace
import Rfx.Library.Words
import Rfx.Mconf

namespace Rfx
namespace Mconf

open Library

/-!
# The help text

The model of `mconf_help_msg`.  Every line is built in `line`, an array of 128 bytes, between
its start and the pointer `d`, so a line under construction is the list of the bytes in
front of `d`.  Nothing checks that a write is inside the array; every write is an event, wherever
it goes.
-/

/-- A write to `line` at an index, a call of `puts`, or a pass of the loop that
constructs the description: how much of the comment there was in front of it, and is behind
it. -/
inductive HelpEvent
  | write (index : Nat)
  | puts (line : List Byte)
  | pass (before after : Nat)
  deriving DecidableEq

/-- The size of `line`. -/
def lineSize : Nat := 128

/-- Writes from an index on up to another one. -/
def writes (start stop : Nat) : List HelpEvent :=
  (List.range' start (stop - start)).map .write

theorem mem_writes {start stop : Nat} {e : HelpEvent} :
    e ∈ writes start stop <-> Exists fun i => start ≤ i ∧ i < stop ∧ e = .write i := by
  rw [writes, List.mem_map]
  constructor
  · rintro ⟨i, member, rfl⟩
    rw [List.mem_range'_1] at member
    exact ⟨i, member.1, by omega, rfl⟩
  · rintro ⟨i, from', below, rfl⟩
    exact ⟨i, List.mem_range'_1.mpr ⟨from', by omega⟩, rfl⟩

/-- `is_ws`. -/
def isWs (c : Byte) : Bool :=
  c = 0x20 || c = 0x09 || c = 0x0d || c = 0x0a

variable {M : Type}

/-! ## The option column -/

/-- `name|comment`: the name, if there is one, and the comment. -/
def splitComment (comment : List Byte) : Option (List Byte) × List Byte :=
  if 0x7c ∈ comment then
    (some (comment.takeWhile (· ≠ 0x7c)), (comment.dropWhile (· ≠ 0x7c)).drop 1)
  else (none, comment)

/-- The name in the comment of a parameter. -/
def argName (p : MetadParam M) : Option (List Byte) :=
  p.comment.bind fun comment => (splitComment comment).1

/-- What is to be shown in the description column, `NULL` without a comment. -/
def description (p : MetadParam M) : Option (List Byte) :=
  p.comment.map fun comment => (splitComment comment).2

/-- The width of an option. -/
def optionWidth (p : MetadParam M) : Nat :=
  let commaSpc := if p.optShort = 0 then 0 else 2
  commaSpc +
    (match p.optLong with
    | none => 0
    | some name => 2 + name.length + commaSpc) +
    (match argName p with
    | none => 0
    | some name => name.length + 1)

/-- The parameters of all blocks. -/
def params (cf : Mconf M) : List (MetadParam M) :=
  cf.cb.flatMap MconfBlock.opt

/-- `opt_w`.  The width of an option is an `unsigned`. -/
def optW (cf : Mconf M) : Nat :=
  cf.params.foldl (fun optW p => max optW (optionWidth p % 2 ^ 32)) 0

/-- Is there an option to show? -/
def Displayed (p : MetadParam M) : Prop :=
  p.optShort ≠ 0 ∨ p.optLong ≠ none

instance (p : MetadParam M) : Decidable (Displayed p) :=
  inferInstanceAs (Decidable (_ ∨ _))

/-- The line up to the end of the option column. -/
def optionColumn (p : MetadParam M) : List Byte :=
  [0x20, 0x20] ++ (if p.optShort = 0 then [] else [0x2d, p.optShort]) ++
    (match p.optLong with
    | none => []
    | some name => (if p.optShort = 0 then [] else [0x2c, 0x20]) ++ 0x2d :: 0x2d :: name) ++
    (match argName p with
    | none => []
    | some name => 0x20 :: name)

theorem length_optionColumn (p : MetadParam M) : (optionColumn p).length = 2 + optionWidth p := by
  unfold optionColumn optionWidth
  by_cases short : p.optShort = 0 <;> cases p.optLong <;> cases argName p <;>
    simp only [short, ↓reduceIte, List.length_append, List.length_cons, List.length_nil] <;> omega

/-! ## The description column -/

/-- The spaces in front of a column. -/
def pad (column : Nat) (line : List Byte) : List Byte :=
  line ++ List.replicate (column - line.length) 0x20

@[simp] theorem length_pad (column : Nat) (line : List Byte) :
    (pad column line).length = max line.length column := by
  rw [pad, List.length_append, List.length_replicate]
  omega

/-- Is a character part of a word? -/
def inWord (c : Byte) : Bool :=
  !isWs c

/-- The line when no more words fit on it, the rest of the comment, and how many characters of
its first word were written behind the line all the same. -/
structure Filled where
  line : List Byte
  s : List Byte
  j : Nat

/-- A word, and the whitespace behind it, are not empty. -/
theorem length_behind_word {s : List Byte} (some : s ≠ []) {room : Nat} (positive : 0 < room) :
    ((s.drop ((s.takeWhile inWord).take room).length).dropWhile isWs).length < s.length := by
  cases s with
  | nil => exact absurd rfl some
  | cons c s =>
      have skipped (xs : List Byte) : (xs.dropWhile isWs).length ≤ xs.length :=
        (List.dropWhile_sublist isWs).length_le
      by_cases word : inWord c = true
      · have shorter := skipped ((c :: s).drop (((c :: s).takeWhile inWord).take room).length)
        rw [List.length_drop, List.takeWhile_cons_of_pos word, List.length_take, List.length_cons,
          List.length_cons] at shorter
        rw [List.takeWhile_cons_of_pos word, List.length_take, List.length_cons, List.length_cons]
        omega
      · rw [List.takeWhile_cons_of_neg word, List.take_nil, List.length_nil, List.drop_zero]
        have space : isWs c = true := by
          rw [inWord, Bool.not_eq_true', Bool.not_eq_false] at word
          exact word
        rw [List.dropWhile_cons_of_pos space, List.length_cons]
        exact Nat.lt_succ_of_le (skipped s)

/-- The loop that copies words to a line, which ends at `e`. -/
def copyWords (e : Nat) (line s : List Byte) : Filled :=
  if _open : line.length < e ∧ s ≠ [] then
    let word := (s.takeWhile inWord).take (e - line.length)
    if e ≤ line.length + word.length then ⟨line, s, word.length⟩
    else
      let behind := s.drop word.length
      copyWords e (line ++ word ++ if behind.head?.any isWs then [0x20] else [])
        (behind.dropWhile isWs)
  else ⟨line, s, 0⟩
termination_by s.length
decreasing_by
  exact length_behind_word _open.2 (Nat.sub_pos_of_lt _open.1)

/-- The end of a pass: the spaces at the end of the line and the byte behind it are set to zero, and
the line is put out. -/
def finish (line : List Byte) : List HelpEvent :=
  let cut := line.rdropWhile (· = 0x20)
  writes cut.length (line.length + 1) ++ [.puts cut]

/-- The line that is constructed and the comment that is still to be shown. -/
structure Cursor where
  line : List Byte
  s : List Byte

/-- One pass of the loop that constructs the description column. -/
def helpPass (column e : Nat) (c : Cursor) : List HelpEvent × Option Cursor :=
  let padded := pad column c.line
  let filled := copyWords e padded c.s
  (writes c.line.length padded.length ++ writes padded.length (filled.line.length + filled.j) ++
      finish filled.line ++ [.pass c.s.length filled.s.length],
    if filled.s = [] then none else some ⟨[], filled.s⟩)

/-- What this loop does without a comment: it reads it when the line has room for a word, and when
the pass is over. -/
def helpNull (column e : Nat) (line : List Byte) : Trace HelpEvent :=
  let padded := pad column line
  ⟨writes line.length padded.length ++ if padded.length < e then [] else finish padded, .faulted⟩

/-! ## Defaults -/

/-- Where a default is printed: in the description column, behind the text `default: `. -/
def defaultIndex (optW : Nat) : Nat :=
  optW + 6 + (text "default: ").length

/-- `maxlen` for `to_string`: what is left of the line. -/
def maxlen (optW : Nat) : Int :=
  Int.bmod (lineSize - defaultIndex optW) (2 ^ 32)

/-- Show the value that a parameter has, if it can be printed. -/
def helpDefault (optW : Nat) (m : M) (p : MetadParam M) : Trace HelpEvent :=
  let d := defaultIndex optW
  let constructed := writes 0 ((optW + 6) % 2 ^ 32) ++ writes (optW + 6) (d + 1)
  match p.toString with
  | none => .emit []
  | some print =>
      match print p.ptr (maxlen optW) m with
      | none => ⟨constructed, .faulted⟩
      | some printed =>
          .emit (constructed ++ writes d (d + printed.buf.length) ++
            if 0 < printed.l then
              [.write (d + printed.l.toNat),
                .puts (List.replicate (optW + 6) 0x20 ++ text "default: " ++
                  (printed.buf.take printed.l.toNat).takeWhile (· ≠ 0))]
            else [])

/-! ## The whole text -/

/-- Show the description of a parameter, behind its option column. -/
def helpDescription (optW width fuel : Nat) (p : MetadParam M) : Trace HelpEvent :=
  match description p with
  | none => helpNull (optW + 6) width (optionColumn p)
  | some s => Trace.loop (helpPass (optW + 6) width) fuel ⟨optionColumn p, s⟩

/-- The help for one parameter. -/
def helpParam (optW width fuel : Nat) (m : M) (p : MetadParam M) : Trace HelpEvent :=
  if Displayed p then
    (Trace.emit (writes 0 (optionColumn p).length)).andThen
      ((helpDescription optW width fuel p).andThen (helpDefault optW m p))
  else .emit []

/-- `mconf_help_msg`.  Every description gets the same fuel. -/
def mconfHelpMsg (cf : Mconf M) (width : Nat) (m : M) (fuel : Nat) : Trace HelpEvent :=
  Trace.sequence (helpParam cf.optW width fuel m) cf.params

end Mconf
end Rfx
