import Mathlib.Data.List.Induction
import Mathlib.Data.List.Infix

namespace Library
namespace Getopt

/-!
# `getopt_long`

What `getopt_long` is documented to do, when it is called until it has gone
through all arguments.  Arguments that are no options are skipped, wherever they
are; the argument `--` ends the options.  Short options can be in one argument,
the last of them with its own argument behind it; a long option can be abbreviated as
long as the abbreviation is unique.
-/

/-- A string that is part of an argument: the number of the argument, how far from its
start, and what is there. -/
structure Arg where
  index : Nat
  offset : Nat
  text : List UInt8
  deriving DecidableEq

inductive HasArg
  | noArgument
  | requiredArgument
  | optionalArgument
  deriving DecidableEq

structure LongOption where
  name : List UInt8
  hasArg : HasArg
  deriving DecidableEq

/-- The string of short options, and the table of long ones. -/
structure Options where
  optstring : List UInt8
  longOptions : List LongOption

/-- What a call returns: a short option, the place of a long one in the table, or `?`. -/
inductive Report
  | short (c : UInt8) (optarg : Option Arg)
  | long (index : Nat) (optarg : Option Arg)
  | invalid
  deriving DecidableEq

def Report.optarg : Report -> Option Arg
  | .short _ optarg | .long _ optarg => optarg
  | .invalid => none

/-- Look a short option up; `-`, `:` and `;` are none. -/
def shortArg (optstring : List UInt8) (c : UInt8) : Option HasArg :=
  if c = 0x2d ∨ c = 0x3a ∨ c = 0x3b then none
  else
    match optstring.dropWhile (· ≠ c) with
    | [] => none
    | _ :: behind =>
        if behind.take 2 = [0x3a, 0x3a] then some .optionalArgument
        else if behind.take 1 = [0x3a] then some .requiredArgument
        else some .noArgument

/-- Look a long option up, by its name or else by an abbreviation of only one name. -/
def resolve (longOptions : List LongOption) (name : List UInt8) : Option Nat :=
  (longOptions.findIdx? fun o => o.name = name).or
    (if (longOptions.filter fun o => name <+: o.name).length = 1 then
      longOptions.findIdx? fun o => name <+: o.name
    else none)

theorem resolve_lt {longOptions : List LongOption} {name : List UInt8} {k : Nat}
    (resolved : resolve longOptions name = some k) : k < longOptions.length := by
  rcases Option.or_eq_some_iff.mp resolved with exactly | ⟨_, abbreviated⟩
  · exact (List.findIdx?_eq_some_iff_getElem.mp exactly).1
  · split at abbreviated
    · exact (List.findIdx?_eq_some_iff_getElem.mp abbreviated).1
    · cases abbreviated

/-- What an argument with options comes to, and if the argument behind it belongs to it. -/
structure Element where
  reports : List Report
  takesNext : Bool

/-- The argument behind an option that needs one. -/
def separate (report : Option Arg -> Report) (index : Nat) : Option (List UInt8) -> Element
  | none => ⟨[.invalid], false⟩
  | some next => ⟨[report (some ⟨index + 1, 0, next⟩)], true⟩

/-- Short options in one argument. -/
def shortElement (opts : Options) (index : Nat) (next : Option (List UInt8)) :
    Nat -> List UInt8 -> Element
  | _, [] => ⟨[], false⟩
  | offset, c :: cs =>
      match shortArg opts.optstring c with
      | none =>
          let rest := shortElement opts index next (offset + 1) cs
          ⟨.invalid :: rest.reports, rest.takesNext⟩
      | some .noArgument =>
          let rest := shortElement opts index next (offset + 1) cs
          ⟨.short c none :: rest.reports, rest.takesNext⟩
      | some .requiredArgument =>
          if cs = [] then separate (.short c) index next
          else ⟨[.short c (some ⟨index, offset + 1, cs⟩)], false⟩
      | some .optionalArgument =>
          ⟨[.short c (if cs = [] then none else some ⟨index, offset + 1, cs⟩)], false⟩

/-- A long option, whose argument can be behind a `=`. -/
def longElement (opts : Options) (index : Nat) (next : Option (List UInt8)) (body : List UInt8) :
    Element :=
  let name := body.takeWhile (· ≠ 0x3d)
  let own : Option Arg :=
    if name.length < body.length then
      some ⟨index, name.length + 3, body.drop (name.length + 1)⟩
    else none
  match resolve opts.longOptions name with
  | none => ⟨[.invalid], false⟩
  | some i =>
      match opts.longOptions[i]?.map LongOption.hasArg, own with
      | some .requiredArgument, none => separate (.long i) index next
      | some .noArgument, some _ => ⟨[.invalid], false⟩
      | _, own => ⟨[.long i own], false⟩

/-- An argument starts with `-` and is longer than that. -/
def isOption (arg : List UInt8) : Bool :=
  arg.head? = some 0x2d && 1 < arg.length

def element (opts : Options) (index : Nat) (arg : List UInt8) (next : Option (List UInt8)) : Element :=
  if arg.take 2 = [0x2d, 0x2d] then longElement opts index next (arg.drop 2)
  else shortElement opts index next 1 (arg.drop 1)

/-- What all calls return, from the argument `index` on. -/
def reports (opts : Options) : Nat -> List (List UInt8) -> List Report
  | _, [] => []
  | index, [arg] =>
      if isOption arg ∧ arg ≠ [0x2d, 0x2d] then (element opts index arg none).reports else []
  | index, arg :: next :: args =>
      if arg = [0x2d, 0x2d] then []
      else if isOption arg then
        let here := element opts index arg (some next)
        here.reports ++
          if here.takesNext then reports opts (index + 2) args
          else reports opts (index + 1) (next :: args)
      else reports opts (index + 1) (next :: args)

variable {opts : Options}

theorem reports_cons (index : Nat) (arg : List UInt8) (args : List (List UInt8)) :
    reports opts index (arg :: args) =
      if arg = [0x2d, 0x2d] then []
      else if isOption arg then
        (element opts index arg args.head?).reports ++
          if (element opts index arg args.head?).takesNext then reports opts (index + 2) args.tail
          else reports opts (index + 1) args
      else reports opts (index + 1) args := by
  cases args with
  | nil =>
      simp only [reports, List.head?_nil, List.tail_nil, ite_self, List.append_nil]
      by_cases terminator : arg = [0x2d, 0x2d]
      · simp [terminator]
      · simp [terminator]
  | cons next args => rfl

/-! ## The argument behind an option -/

/-- Behind the option, in the argument that follows or in the one that has the option. -/
def Arg.From (index : Nat) (next : Option (List UInt8)) (takesNext : Bool) (a : Arg) : Prop :=
  (takesNext = true ∧ a.index = index + 1 ∧ a.offset = 0 ∧ next = some a.text) ∨
    (a.index = index ∧ 2 ≤ a.offset)

/-- An argument from `index` on: the one behind an option, or a part of the option itself. -/
def Arg.Beyond (index : Nat) (a : Arg) : Prop :=
  (a.offset = 0 ∧ index < a.index) ∨ (2 ≤ a.offset ∧ index ≤ a.index)

theorem Arg.Beyond.mono {index index' : Nat} {a : Arg} (beyond : a.Beyond index')
    (earlier : index ≤ index') : a.Beyond index := by
  unfold Arg.Beyond at *
  omega

theorem Arg.From.beyond {index : Nat} {next : Option (List UInt8)} {takesNext : Bool} {a : Arg}
    (own : a.From index next takesNext) : a.Beyond index := by
  unfold Arg.Beyond
  rcases own with ⟨_, follows, start, _⟩ | ⟨same, inside⟩
  · omega
  · omega

end Getopt
end Library
