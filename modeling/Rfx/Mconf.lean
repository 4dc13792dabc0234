import Mathlib.Logic.Function.Basic
import Rfx.Ini
import Rfx.Library.Getopt

namespace Rfx

open Library

/-!
# Configuration parameters

The model of `mconf.h` and `mconf.c`.  A program registers blocks of parameters;
each can be set from a line of the configuration file and from the command line.

Everything a `set` function can change is a memory of some type `M`, and a
string that may be `NULL` is an option.  The help text is not part of this module; here
`mconf_parse` goes on behind it.  `has_default` is not modelled, as nothing reads it, nor are
the messages on `stderr`.
-/

/-- `opt_args`. -/
inductive MoptArgument
  | noArgument
  | requiredArgument
  | optionalArgument
  deriving DecidableEq

/-- A `set` function, called with `ptr` and `is_set` of its parameter, a section and a
value.  It may fail to return. -/
abbrev Setter (M : Type) :=
  Nat -> Bool -> Option (List Byte) -> Option (List Byte) -> M -> Option (M × Int)

/-- What a `to_string` function has put into the buffer, from its start on, and what it
returns.  It returns no more than it has written. -/
structure Printed where
  buf : List Byte
  l : Int
  written : l ≤ buf.length

/-- A `to_string` function, called with `ptr` of its parameter and `maxlen`. -/
abbrev Printer (M : Type) :=
  Nat -> Int -> M -> Option Printed

/-- `struct metad_param`.  `address` is where the structure is, `is_set` is kept
under it in the state.  There is no short option when `optShort` is zero.  As in C, a member that
can be `NULL` and is not given is `NULL`. -/
structure MetadParam (M : Type) where
  address : Nat
  optShort : Byte
  optLong : Option (List Byte)
  confName : Option (List Byte)
  set : Setter M
  toString : Option (Printer M) := none
  ptr : Nat
  optArgs : MoptArgument
  comment : Option (List Byte) := none
  optIdx : Int

/-- `struct mconf_block`. -/
structure MconfBlock (M : Type) where
  opt : List (MetadParam M)
  sec : Option (List Byte)

/-- `struct mconf`, with the address it is at.  The tables for `getopt_long` are built when
they are used. -/
structure Mconf (M : Type) where
  address : Nat
  cfgPath : Option (List Byte)
  argv : List (List Byte)
  cb : List (MconfBlock M)
  shortLen : UInt32
  longCount : UInt32
  longIdx : Nat
  helpOnly : Bool

namespace Mconf

variable {M : Type}

/-! ## Registration -/

/-- What the loop of `mconf_init` finds in the arguments: a path, which is a part of one of
them, a request for help, or nothing. -/
inductive Scanned
  | path (conf : Getopt.Arg)
  | help
  | nothing
  deriving DecidableEq

/-- One round of the loop, for the argument `index` and the one behind it; there is no result when
the loop goes on. -/
def scanArgument (index : Nat) (arg : List Byte) (next : Option (List Byte)) : Option Scanned :=
  (if arg = text "--conf" ∨ arg = text "-c" then
    next.map fun next => .path ⟨index + 1, 0, next⟩
  else none).or
    (if text "--conf=" <+: arg then some (.path ⟨index, 7, arg.drop 7⟩)
    else if arg = text "-h" ∨ arg = text "--help" then some .help
    else none)

/-- The loop of `mconf_init`, from the argument `index` on. -/
def scanArguments : Nat -> List (List Byte) -> Scanned
  | _, [] => .nothing
  | index, arg :: args =>
      (scanArgument index arg args.head?).getD (scanArguments (index + 1) args)

/-- `mconf_init`. -/
def mconfInit (address : Nat) (cfgPath : Option (List Byte)) (argv : List (List Byte)) : Mconf M where
  address := address
  cfgPath :=
    match scanArguments 1 argv.tail with
    | .path conf => some conf.text
    | .help | .nothing => cfgPath
  argv := argv
  cb := []
  shortLen := 0
  longCount := 0
  longIdx := 256
  helpOnly := scanArguments 1 argv.tail = .help

/-- Is there a config name conflict?  Sections are compared only when the names are equal,
and there is no result when one of them is `NULL`. -/
def confNameConflict (blockSection sec : Option (List Byte)) (p opt : MetadParam M) : Option Bool :=
  if p.confName.isSome ∧ p.confName = opt.confName then
    blockSection.bind fun one => sec.map fun other => decide (one = other)
  else some false

/-- The tests of `mconf_check_conflict` for one registered parameter. -/
def conflict (blockSection sec : Option (List Byte)) (p opt : MetadParam M) : Option Bool :=
  (confNameConflict blockSection sec p opt).map fun found =>
    found || (p.optShort ≠ 0 && p.optShort = opt.optShort) ||
      (p.optLong.isSome && p.optLong = opt.optLong)

/-- The inner loop of `mconf_check_conflict`. -/
def checkBlock (blockSection sec : Option (List Byte)) (opt : MetadParam M) :
    List (MetadParam M) -> Option Bool
  | [] => some false
  | p :: ps =>
      (conflict blockSection sec p opt).bind fun found =>
        if found then some true else checkBlock blockSection sec opt ps

/-- `mconf_check_conflict`. -/
def mconfCheckConflict (sec : Option (List Byte)) (opt : MetadParam M) :
    List (MconfBlock M) -> Option Bool
  | [] => some false
  | block :: blocks =>
      (checkBlock block.sec sec opt block.opt).bind fun found =>
        if found then some true else mconfCheckConflict sec opt blocks

/-- A `char` as an `int`: from 128 on it is a negative number. -/
def charInt (c : Byte) : Int :=
  c.toInt8.toInt

theorem charInt_lt (c : Byte) : charInt c < 256 := by
  have bound := c.toInt8.toInt_lt
  rw [charInt]
  omega

theorem charInt_inj {a b : Byte} : charInt a = charInt b <-> a = b := by
  constructor
  · intro same
    have bytes := congrArg Int8.toUInt8 (Int8.toInt_inj.mp same)
    rwa [UInt8.toUInt8_toInt8, UInt8.toUInt8_toInt8] at bytes
  · exact congrArg charInt

/-- How many characters a short option takes in the string for `getopt_long`. -/
def shortWidth (opt : MetadParam M) : UInt32 :=
  if opt.optShort = 0 then 0
  else
    match opt.optArgs with
    | .noArgument => 1
    | .requiredArgument => 2
    | .optionalArgument => 3

/-- The counters and `opt_idx` for a parameter without a conflict.  There is no result when
`long_idx` leaves the range of `int`. -/
def account (cf : Mconf M) (opt : MetadParam M) : Option (Mconf M × MetadParam M) :=
  let counted := { cf with shortLen := cf.shortLen + shortWidth opt }
  if opt.optLong = none then some (counted, opt)
  else if opt.optShort ≠ 0 then
    some ({ counted with longCount := cf.longCount + 1 }, { opt with optIdx := charInt opt.optShort })
  else if cf.longIdx < 2 ^ 31 - 1 then
    some ({ counted with longCount := cf.longCount + 1, longIdx := cf.longIdx + 1 },
      { opt with optIdx := cf.longIdx })
  else none

/-- The loop of `mconf_add`: the parameters as it leaves them, and whether it went
through all of them without a conflict. -/
def addParams (sec : Option (List Byte)) :
    Mconf M -> List (MetadParam M) -> Option (Mconf M × List (MetadParam M) × Bool)
  | cf, [] => some (cf, [], true)
  | cf, opt :: opts =>
      (mconfCheckConflict sec opt cf.cb).bind fun found =>
        if found then some (cf, opt :: opts, false)
        else
          (account cf opt).bind fun counted =>
            (addParams sec counted.1 opts).map fun rest =>
              (rest.1, counted.2 :: rest.2.1, rest.2.2)

/-- `mconf_add`, with the parameters as they are afterwards. -/
def mconfAdd (cf : Mconf M) (sec : Option (List Byte)) (opts : List (MetadParam M)) :
    Option (Mconf M × List (MetadParam M) × Int) :=
  (addParams sec cf opts).map fun added =>
    if added.2.2 then ({ added.1 with cb := added.1.cb ++ [⟨added.2.1, sec⟩] }, added.2.1, 0)
    else (added.1, added.2.1, -1)

/-! ## Setting parameters -/

/-- What `set` is called with. -/
structure Request (M : Type) where
  sec : Option (List Byte)
  param : MetadParam M
  value : Option (List Byte)

/-- What changes while a configuration is parsed.  `calls` is the record of the calls of
`set` with their verdicts; nothing reads it. -/
structure State (M : Type) where
  memory : M
  isSet : Nat -> Bool
  calls : List (Request M × Bool)

/-- Call `set`; it accepts the value when it returns zero, and then `is_set` is set. -/
def callSet (s : State M) (r : Request M) : Option (State M × Bool) :=
  (r.param.set r.param.ptr (s.isSet r.param.address) r.sec r.value s.memory).map
    fun (memory, code) =>
      ({ memory := memory
         isSet := if code = 0 then Function.update s.isSet r.param.address true else s.isSet
         calls := s.calls ++ [(r, decide (code = 0))] },
        decide (code = 0))

/-! ## The command line -/

/-- An entry of the table `opt_long`. -/
structure LongOption where
  name : List Byte
  hasArg : Getopt.HasArg
  val : Int
  deriving DecidableEq

/-- `has_arg` for `opt_args`. -/
def hasArg : MoptArgument -> Getopt.HasArg
  | .noArgument => .noArgument
  | .requiredArgument => .requiredArgument
  | .optionalArgument => .optionalArgument

/-- `c:` and the short options of all blocks. -/
def optShort (cf : Mconf M) : List Byte :=
  0x63 :: 0x3a :: cf.cb.flatMap fun block => block.opt.flatMap fun p =>
    if p.optShort = 0 then []
    else
      match p.optArgs with
      | .noArgument => [p.optShort]
      | .requiredArgument => [p.optShort, 0x3a]
      | .optionalArgument => [p.optShort, 0x3a, 0x3a]

/-- The long options of all blocks, without the terminator. -/
def optLong (cf : Mconf M) : List LongOption :=
  cf.cb.flatMap fun block => block.opt.filterMap fun p =>
    p.optLong.map fun name => ⟨name, hasArg p.optArgs, p.optIdx⟩

/-- Is every short option an index of `cmap`? -/
def cmapInBounds (cf : Mconf M) : Bool :=
  cf.cb.all fun block => block.opt.all fun p => p.optShort < 0x80

/-- What a call of `getopt_long` reports: a short option, the index of a long option, or
that there is an invalid option. -/
inductive Reported
  | short (c : Byte) (optarg : Option (List Byte))
  | long (optionIndex : Nat) (optarg : Option (List Byte))
  | invalid
  deriving DecidableEq

/-- `c`, `option_index` unless it is -1, and `optarg`. -/
def result (table : List LongOption) : Reported -> Option (Int × Option LongOption × Option (List Byte))
  | .short c optarg => some (charInt c, none, optarg)
  | .long optionIndex optarg =>
      (table[optionIndex]?).map fun option => (option.val, some option, optarg)
  | .invalid => some (0x3f, none, none)

/-- The condition under which the loop calls `set` of a parameter. -/
def hit (c : Int) (option : Option LongOption) (p : MetadParam M) : Bool :=
  (p.optShort ≠ 0 && charInt p.optShort = c) ||
    option.any fun o => p.optLong.isSome && o.val = p.optIdx

/-- The inner loop of `mconf_parse_cmdline`, over the parameters of a block. -/
def setParams (c : Int) (option : Option LongOption) (sec optarg : Option (List Byte)) :
    List (MetadParam M) -> State M -> Option (State M)
  | [], s => some s
  | p :: ps, s =>
      if hit c option p then
        (callSet s ⟨sec, p, optarg⟩).bind fun done => setParams c option sec optarg ps done.1
      else setParams c option sec optarg ps s

/-- The loop of `mconf_parse_cmdline` over the blocks. -/
def setBlocks (c : Int) (option : Option LongOption) (optarg : Option (List Byte)) :
    List (MconfBlock M) -> State M -> Option (State M)
  | [], s => some s
  | block :: blocks, s =>
      (setParams c option block.sec optarg block.opt s).bind (setBlocks c option optarg blocks)

/-- The loop of `mconf_parse_cmdline` over what `getopt_long` reports. -/
def parseReports (cf : Mconf M) : List Reported -> State M -> Option (State M × Int)
  | [], s => some (s, 0)
  | reported :: rest, s =>
      (result cf.optLong reported).bind fun got =>
        if got.1 = 0x3f then some (s, -1)
        else if got.1 = 0x63 then parseReports cf rest s
        else (setBlocks got.1 got.2.1 got.2.2 cf.cb s).bind (parseReports cf rest)

/-- `mconf_parse_cmdline`. -/
def mconfParseCmdline (cf : Mconf M) (reports : List Reported) (s : State M) :
    Option (State M × Int) :=
  if cf.cmapInBounds then parseReports cf reports s else none

/-! ## The configuration file -/

/-- The inner loop of `ini_handler`, with what it returns when it finds the parameter. -/
def handleParams (sec name value : List Byte) :
    List (MetadParam M) -> State M -> Option (State M × Option Bool)
  | [], s => some (s, none)
  | p :: ps, s =>
      if p.confName = some name then
        (callSet s ⟨some sec, p, some value⟩).map fun done => (done.1, some done.2)
      else handleParams sec name value ps s

def handleBlocks (sec name value : List Byte) :
    List (MconfBlock M) -> State M -> Option (State M × Bool)
  | [], s => some (s, false)
  | block :: blocks, s =>
      if block.sec = some sec then
        (handleParams sec name value block.opt s).bind fun done =>
          match done.2 with
          | some returned => some (done.1, returned)
          | none => handleBlocks sec name value blocks done.1
      else handleBlocks sec name value blocks s

/-- `ini_handler`. -/
def iniHandler (cf : Mconf M) (s : State M) (sec name value : List Byte) : Option (State M × Bool) :=
  handleBlocks sec name value cf.cb s

/-- The file that can be opened under a path, as the lines it is read into. -/
abbrev Conf := List Byte -> Option (List Ini.Line)

/-- The lines of the files that there are. -/
def Conf.ofFiles (files : Files) : Conf :=
  fun path => (files path).map Ini.readLines

/-- `mconf_parse_conf`. -/
def mconfParseConf (cf : Mconf M) (conf : Conf) (path : List Byte) (s : State M) :
    Option (State M × Int) :=
  (Ini.parse (iniHandler cf) s (conf path)).map fun done =>
    (done.1, if done.2 ≠ 0 then -1 else 0)

/-! ## Both -/

/-- How `mconf_parse` ends. -/
inductive Ended (M : Type)
  | returned (s : State M) (code : Int)
  | exited (memory : M)

/-- `mconf_parse`.  When help is requested, the help handler gets the address of the
configuration itself, and whatever it answers the program ends. -/
def mconfParse (cf : Mconf M) (conf : Conf) (reports : List Reported) (s : State M) :
    Option (Ended M) :=
  if cf.helpOnly then
    match (cf.cb.flatMap MconfBlock.opt).find? fun p => p.optShort = 0x68 with
    | none => some (.exited s.memory)
    | some p =>
        (p.set cf.address (s.isSet p.address) none none s.memory).map fun done => .exited done.1
  else
    match cf.cfgPath with
    | none => (mconfParseCmdline cf reports s).map fun done => .returned done.1 done.2
    | some path =>
        (mconfParseConf cf conf path s).bind fun read =>
          if read.2 ≠ 0 then some (.returned read.1 (-1))
          else (mconfParseCmdline cf reports read.1).map fun done => .returned done.1 done.2

end Mconf

end Rfx
