import Rfx.Mconf

namespace Rfx
namespace Mconf

open Library Library.Getopt

/-!
# The path of the configuration file

`mconf_init` looks for the path in the arguments itself, before any option is
known, and `mconf_parse_cmdline` ignores the option `-c` when it comes across it again.
The two read the same arguments by different rules.  Which command lines they
agree on is said by `Agree`, a grammar that follows `getopt_long` from one option
to the next.
-/

variable {M : Type}

/-! ## What `getopt_long` makes of the path -/

/-- What `getopt_long` is called with. -/
def options (cf : Mconf M) : Options :=
  ⟨cf.optShort, cf.optLong.map fun o => ⟨o.name, o.hasArg⟩⟩

/-- A report, with its argument as a string. -/
def Reported.of : Report -> Reported
  | .short c optarg => .short c (optarg.map Arg.text)
  | .long index optarg => .long index (optarg.map Arg.text)
  | .invalid => .invalid

/-- What `getopt_long` returns. -/
def returned (cf : Mconf M) (r : Report) : Option Int :=
  (result cf.optLong (Reported.of r)).map Prod.fst

/-- Whether the loop of `mconf_parse_cmdline` gets to the option `c` or ends with `?`, and what
argument `c` has then. -/
def decision (cf : Mconf M) (rs : List Report) : Option (Option Arg) :=
  (rs.find? fun r => cf.returned r = some 0x3f ∨ cf.returned r = some 0x63).map fun r =>
    if cf.returned r = some 0x63 then r.optarg else none

/-- The argument of the first option `c`. -/
def attributed (cf : Mconf M) (rs : List Report) : Option Arg :=
  (cf.decision rs).getD none

/-- The path that the loop of `mconf_init` chooses. -/
def Scanned.conf : Scanned -> Option Arg
  | .path conf => some conf
  | .help | .nothing => none

theorem mconfInit_cfgPath (address : Nat) (cfgPath : Option (List Byte)) (argv : List (List Byte)) :
    (mconfInit address cfgPath argv : Mconf M).cfgPath =
      ((scanArguments 1 argv.tail).conf.map Arg.text).or cfgPath := by
  unfold mconfInit
  cases scanArguments 1 argv.tail <;> rfl

/-- Options that `mconf_init` accepts, and arguments that are no options. -/
inductive OnlyConf : List (List Byte) -> Prop
  | nil : OnlyConf []
  | operand {arg : List Byte} {args : List (List Byte)} :
      isOption arg = false -> OnlyConf args -> OnlyConf (arg :: args)
  | terminator {args : List (List Byte)} : OnlyConf (text "--" :: args)
  | short {conf : List Byte} {args : List (List Byte)} :
      OnlyConf args -> OnlyConf (text "-c" :: conf :: args)
  | long {conf : List Byte} {args : List (List Byte)} :
      OnlyConf args -> OnlyConf (text "--conf" :: conf :: args)
  | longOwn {conf : List Byte} {args : List (List Byte)} :
      OnlyConf args -> OnlyConf ((text "--conf=" ++ conf) :: args)

/-- No command line of such options is rejected as invalid. -/
def FormsAccepted (cf : Mconf M) : Prop :=
  forall args, OnlyConf args -> forall r, r ∈ reports cf.options 1 args -> cf.returned r ≠ some 0x3f

/-! ## The grammar -/

/-- An argument that `mconf_init` takes the path from. -/
def IsConf (arg : List Byte) (next : Option (List Byte)) : Prop :=
  ((arg = text "--conf" ∨ arg = text "-c") ∧ next ≠ none) ∨ text "--conf=" <+: arg

/-- An argument that makes `mconf_init` stop. -/
def IsHelp (arg : List Byte) : Prop :=
  arg = text "-h" ∨ arg = text "--help"

/-- `mconf_init` finds no path. -/
def Silent : List (List Byte) -> Prop
  | [] => True
  | arg :: args => IsHelp arg ∨ (¬ IsConf arg args.head? ∧ Silent args)

/-- The registered option that `--conf` is read as. -/
def ConfReads (cf : Mconf M) (o : LongOption) : Prop :=
  Exists fun k =>
    resolve cf.options.longOptions (text "conf") = some k ∧ cf.optLong[k]? = some o

/-- This option is the option `c`. -/
def ConfIsLong (cf : Mconf M) (o : LongOption) : Prop :=
  o.val = 0x63 ∧ cf.ConfReads o

/-- Both options have an argument behind them, and `--conf` does not look like a failure. -/
def ConfTaken (cf : Mconf M) : Prop :=
  shortArg cf.optShort 0x63 = some .requiredArgument ∧
    Exists fun o => cf.ConfReads o ∧ o.hasArg = .requiredArgument ∧ o.val ≠ 0x3f

/-- The command lines, from the argument `index` on, in which no option `c` with an argument
is read. -/
inductive Unread (cf : Mconf M) : Nat -> List (List Byte) -> Prop
  | nil {index : Nat} : Unread cf index []
  | operand {index : Nat} {arg : List Byte} {args : List (List Byte)} :
      isOption arg = false -> Unread cf (index + 1) args -> Unread cf index (arg :: args)
  | terminator {index : Nat} {args : List (List Byte)} : Unread cf index (text "--" :: args)
  /-- An invalid option ends the search, and so does an option `c` without argument. -/
  | undone {index : Nat} {arg : List Byte} {args : List (List Byte)} :
      isOption arg = true -> arg ≠ text "--" ->
      cf.decision (element cf.options index arg args.head?).reports = some none ->
      Unread cf index (arg :: args)
  | option {index : Nat} {arg : List Byte} {args : List (List Byte)} :
      isOption arg = true -> arg ≠ text "--" ->
      cf.decision (element cf.options index arg args.head?).reports = none ->
      (element cf.options index arg args.head?).takesNext = false ->
      Unread cf (index + 1) args -> Unread cf index (arg :: args)
  | optionArgument {index : Nat} {arg next : List Byte} {args : List (List Byte)} :
      isOption arg = true -> arg ≠ text "--" ->
      cf.decision (element cf.options index arg (some next)).reports = none ->
      (element cf.options index arg (some next)).takesNext = true ->
      Unread cf (index + 2) args -> Unread cf index (arg :: next :: args)

/-- The command lines, from the argument `index` on, on which both agree. -/
inductive Agree (cf : Mconf M) : Nat -> List (List Byte) -> Prop
  | nil {index : Nat} : Agree cf index []
  /-- Both skip what is no option. -/
  | operand {index : Nat} {arg : List Byte} {args : List (List Byte)} :
      isOption arg = false -> Agree cf (index + 1) args -> Agree cf index (arg :: args)
  /-- Nothing behind `--` may look like the path. -/
  | terminator {index : Nat} {args : List (List Byte)} :
      Silent args -> Agree cf index (text "--" :: args)
  /-- Nor may anything from an invalid option on, or from an option `c` without argument. -/
  | undone {index : Nat} {arg : List Byte} {args : List (List Byte)} :
      isOption arg = true -> arg ≠ text "--" ->
      cf.decision (element cf.options index arg args.head?).reports = some none ->
      Silent (arg :: args) -> Agree cf index (arg :: args)
  /-- `-c` with its argument behind it. -/
  | short {index : Nat} {conf : List Byte} {args : List (List Byte)} :
      shortArg cf.optShort 0x63 = some .requiredArgument ->
      Agree cf index (text "-c" :: conf :: args)
  /-- `--conf`, when it is registered with the short option `c` beside it. -/
  | long {index : Nat} {conf : List Byte} {args : List (List Byte)} {o : LongOption} :
      cf.ConfIsLong o -> o.hasArg = .requiredArgument ->
      Agree cf index (text "--conf" :: conf :: args)
  | longOwn {index : Nat} {conf : List Byte} {args : List (List Byte)} {o : LongOption} :
      cf.ConfIsLong o -> o.hasArg ≠ .noArgument ->
      Agree cf index ((text "--conf=" ++ conf) :: args)
  /-- Other options may not look like the path. -/
  | option {index : Nat} {arg : List Byte} {args : List (List Byte)} :
      isOption arg = true -> arg ≠ text "--" ->
      cf.decision (element cf.options index arg args.head?).reports = none ->
      (element cf.options index arg args.head?).takesNext = false ->
      ¬ IsConf arg args.head? -> ¬ IsHelp arg -> Agree cf (index + 1) args ->
      Agree cf index (arg :: args)
  /-- Nor may their arguments. -/
  | optionArgument {index : Nat} {arg next : List Byte} {args : List (List Byte)} :
      isOption arg = true -> arg ≠ text "--" ->
      cf.decision (element cf.options index arg (some next)).reports = none ->
      (element cf.options index arg (some next)).takesNext = true ->
      ¬ IsConf arg (some next) -> ¬ IsHelp arg -> ¬ IsConf next args.head? -> ¬ IsHelp next ->
      Agree cf (index + 2) args -> Agree cf index (arg :: next :: args)
  /-- Where `mconf_init` stops for help, no option `c` may follow. -/
  | help {index : Nat} {arg : List Byte} {args : List (List Byte)} :
      IsHelp arg -> Unread cf index (arg :: args) -> Agree cf index (arg :: args)
  | helpArgument {index : Nat} {arg next : List Byte} {args : List (List Byte)} :
      isOption arg = true -> arg ≠ text "--" ->
      cf.decision (element cf.options index arg (some next)).reports = none ->
      (element cf.options index arg (some next)).takesNext = true ->
      ¬ IsConf arg (some next) -> ¬ IsHelp arg -> IsHelp next ->
      Unread cf (index + 2) args -> Agree cf index (arg :: next :: args)

/-! ## The loop of `mconf_init` -/

theorem scanArgument_eq_none {index : Nat} {arg : List Byte} {next : Option (List Byte)} :
    scanArgument index arg next = none <-> ¬ IsConf arg next ∧ ¬ IsHelp arg := by
  unfold scanArgument IsConf IsHelp
  by_cases named : arg = text "--conf" ∨ arg = text "-c"
  · rw [if_pos named]
    cases next with
    | none =>
        by_cases own : text "--conf=" <+: arg <;> by_cases help : arg = text "-h" ∨ arg = text "--help" <;>
          simp [own, help]
    | some next => simp [named]
  · rw [if_neg named]
    by_cases own : text "--conf=" <+: arg <;> by_cases help : arg = text "-h" ∨ arg = text "--help" <;>
      simp [own, help, named]

theorem scanArgument_help {index : Nat} {arg : List Byte} (next : Option (List Byte))
    (help : IsHelp arg) : scanArgument index arg next = some .help := by
  rcases help with rfl | rfl
  · cases next <;> rfl
  · cases next <;> rfl

theorem scanArgument_conf (index : Nat) {arg : List Byte} {next : Option (List Byte)}
    (conf : IsConf arg next) : Exists fun a => scanArgument index arg next = some (.path a) := by
  rcases conf with ⟨named, follows⟩ | own
  · rcases Option.ne_none_iff_exists'.mp follows with ⟨n, here⟩
    exact ⟨⟨index + 1, 0, n⟩, by rw [scanArgument, if_pos named, here]; rfl⟩
  · rcases own with ⟨conf, rfl⟩
    exact ⟨⟨index, 7, conf⟩, by cases next <;> rfl⟩

theorem scanArguments_goes_on {index : Nat} {arg : List Byte} {args : List (List Byte)}
    (conf : ¬ IsConf arg args.head?) (help : ¬ IsHelp arg) :
    scanArguments index (arg :: args) = scanArguments (index + 1) args := by
  rw [scanArguments, scanArgument_eq_none.mpr ⟨conf, help⟩]
  rfl

theorem scanArguments_stops {index : Nat} {arg : List Byte} (args : List (List Byte))
    (help : IsHelp arg) : scanArguments index (arg :: args) = .help := by
  rw [scanArguments, scanArgument_help _ help]
  rfl

theorem scanArguments_conf (index : Nat) {arg : List Byte} {args : List (List Byte)}
    (conf : IsConf arg args.head?) :
    Exists fun a => scanArgument index arg args.head? = some (.path a) ∧
      scanArguments index (arg :: args) = .path a := by
  rcases scanArgument_conf index conf with ⟨a, found⟩
  exact ⟨a, found, by rw [scanArguments, found]; rfl⟩

theorem silent_iff (index : Nat) (args : List (List Byte)) :
    Silent args <-> (scanArguments index args).conf = none := by
  induction args generalizing index with
  | nil => exact ⟨fun _ => rfl, fun _ => trivial⟩
  | cons arg args inductionHypothesis =>
      by_cases help : IsHelp arg
      · rw [scanArguments_stops args help]
        exact ⟨fun _ => rfl, fun _ => Or.inl help⟩
      · by_cases conf : IsConf arg args.head?
        · rcases scanArguments_conf index conf with ⟨a, _, found⟩
          rw [found]
          constructor
          · rintro (isHelp | ⟨noConf, _⟩)
            · exact absurd isHelp help
            · exact absurd conf noConf
          · exact nofun
        · rw [scanArguments_goes_on conf help, ← inductionHypothesis (index + 1), Silent,
            or_iff_right help, and_iff_right conf]

/-- What is no option, or ends the options, is nothing to `mconf_init` either. -/
theorem quiet_of_not_isOption {arg : List Byte} (next : Option (List Byte))
    (operand : isOption arg = false) : ¬ IsConf arg next ∧ ¬ IsHelp arg := by
  constructor
  · rintro (⟨rfl | rfl, _⟩ | ⟨conf, rfl⟩)
    · cases operand
    · cases operand
    · cases operand
  · rintro (rfl | rfl)
    · cases operand
    · cases operand

theorem quiet_terminator (next : Option (List Byte)) :
    ¬ IsConf (text "--") next ∧ ¬ IsHelp (text "--") := by
  constructor
  · rintro (⟨same | same, _⟩ | own)
    · exact absurd same (by decide)
    · exact absurd same (by decide)
    · exact absurd own (by decide)
  · rintro (same | same)
    · exact absurd same (by decide)
    · exact absurd same (by decide)

/-! ## The loop of `mconf_parse_cmdline` -/

variable {cf : Mconf M}

theorem decision_append (first second : List Report) :
    cf.decision (first ++ second) = (cf.decision first).or (cf.decision second) := by
  rw [decision, List.find?_append, Option.map_or]
  rfl

theorem attributed_append (first second : List Report) :
    cf.attributed (first ++ second) = (cf.decision first).getD (cf.attributed second) := by
  rw [attributed, decision_append]
  cases cf.decision first with
  | none => rfl
  | some found => rfl

theorem attributed_terminator (index : Nat) (args : List (List Byte)) :
    cf.attributed (reports cf.options index (text "--" :: args)) = none := by
  rw [reports_cons, if_pos (by decide)]
  rfl

theorem attributed_operand {index : Nat} {arg : List Byte} (args : List (List Byte))
    (operand : isOption arg = false) :
    cf.attributed (reports cf.options index (arg :: args)) =
      cf.attributed (reports cf.options (index + 1) args) := by
  have notTerminator : arg ≠ [0x2d, 0x2d] := by
    rintro rfl
    cases operand
  rw [reports_cons, if_neg notTerminator, operand]
  rfl

/-- An argument with options decides, or those behind it and its own argument do. -/
theorem attributed_option {index : Nat} {arg : List Byte} (args : List (List Byte))
    (option : isOption arg = true) (notTerminator : arg ≠ text "--") :
    cf.attributed (reports cf.options index (arg :: args)) =
      (cf.decision (element cf.options index arg args.head?).reports).getD
        (cf.attributed
          (if (element cf.options index arg args.head?).takesNext then
            reports cf.options (index + 2) args.tail
          else reports cf.options (index + 1) args)) := by
  have notDashes : arg ≠ [0x2d, 0x2d] := notTerminator
  rw [reports_cons, if_neg notDashes, if_pos option, attributed_append]

/-! ## Where no path is read -/

theorem Unread.attributed_eq_none {index : Nat} {args : List (List Byte)} (unread : Unread cf index args) :
    cf.attributed (reports cf.options index args) = none := by
  induction unread with
  | nil => rfl
  | operand operand _ inductionHypothesis =>
      rw [attributed_operand _ operand]
      exact inductionHypothesis
  | terminator => exact attributed_terminator _ _
  | undone option notTerminator decided =>
      rw [attributed_option _ option notTerminator, decided]
      rfl
  | option option notTerminator passes alone _ inductionHypothesis =>
      rw [attributed_option _ option notTerminator, passes, alone]
      exact inductionHypothesis
  | optionArgument option notTerminator passes takes _ inductionHypothesis =>
      rw [attributed_option _ option notTerminator, List.head?_cons, passes, takes]
      exact inductionHypothesis

theorem decision_singleton {r : Report} {a : Arg} :
    cf.decision [r] = some (some a) <-> cf.returned r = some 0x63 ∧ r.optarg = some a := by
  rw [decision, List.find?_singleton]
  by_cases conf : cf.returned r = some 0x63
  · simp [conf]
  · by_cases invalid : cf.returned r = some 0x3f
    · simp [invalid]
    · simp [conf, invalid]

theorem returned_long (k : Nat) (optarg : Option Arg) :
    cf.returned (.long k optarg) = (cf.optLong[k]?).map LongOption.val := by
  rw [returned, Reported.of, result, Option.map_map]
  rfl

/-- The table that `getopt_long` looks `--conf` up in. -/
theorem options_getElem (k : Nat) :
    (cf.options.longOptions[k]?).map Getopt.LongOption.hasArg =
      (cf.optLong[k]?).map LongOption.hasArg := by
  rw [options, List.getElem?_map, Option.map_map]
  rfl

theorem exists_of_resolve {name : List Byte} {k : Nat}
    (resolved : resolve cf.options.longOptions name = some k) :
    Exists fun o => cf.optLong[k]? = some o := by
  have inside := resolve_lt resolved
  rw [options, List.length_map] at inside
  exact ⟨cf.optLong[k], List.getElem?_eq_getElem inside⟩

theorem confReads_iff {k : Nat} {o o' : LongOption}
    (resolved : resolve cf.options.longOptions (text "conf") = some k)
    (found : cf.optLong[k]? = some o) : cf.ConfReads o' <-> o = o' := by
  constructor
  · rintro ⟨k', resolved', found'⟩
    rw [resolved] at resolved'
    cases resolved'
    rw [found] at found'
    exact Option.some.inj found'
  · rintro rfl
    exact ⟨k, resolved, found⟩

theorem not_confReads (unknown : resolve cf.options.longOptions (text "conf") = none)
    (o : LongOption) : ¬ cf.ConfReads o := by
  rintro ⟨k, resolved, _⟩
  rw [unknown] at resolved
  cases resolved

theorem longElement_unknown (index : Nat) (next : Option (List Byte)) {body : List Byte}
    (name : body.takeWhile (· ≠ 0x3d) = text "conf")
    (unknown : resolve cf.options.longOptions (text "conf") = none) :
    longElement cf.options index next body = ⟨[.invalid], false⟩ := by
  rw [longElement, name, unknown]

theorem element_short (index : Nat) (conf : List Byte)
    (required : shortArg cf.optShort 0x63 = some .requiredArgument) :
    element cf.options index (text "-c") (some conf) =
      ⟨[.short 0x63 (some ⟨index + 1, 0, conf⟩)], true⟩ := by
  have single : element cf.options index (text "-c") (some conf) =
      shortElement cf.options index (some conf) 1 [0x63] := rfl
  have sameString : cf.options.optstring = cf.optShort := rfl
  rw [single, shortElement, sameString, required]
  rfl

theorem element_long (index : Nat) (next : Option (List Byte)) {k : Nat} {o : LongOption}
    (resolved : resolve cf.options.longOptions (text "conf") = some k)
    (found : cf.optLong[k]? = some o) :
    element cf.options index (text "--conf") next =
      if o.hasArg = .requiredArgument then separate (.long k) index next
      else ⟨[.long k none], false⟩ := by
  have body : element cf.options index (text "--conf") next =
      longElement cf.options index next (text "conf") := rfl
  have noOwn : ¬ ((text "conf").takeWhile (· ≠ 0x3d)).length < (text "conf").length := by decide
  have name : (text "conf").takeWhile (· ≠ 0x3d) = text "conf" := by decide
  rw [body, longElement, if_neg noOwn, name, resolved]
  simp only [options_getElem, found, Option.map_some]
  cases o.hasArg <;> rfl

theorem element_longOwn (index : Nat) (conf : List Byte) (next : Option (List Byte)) {k : Nat}
    {o : LongOption} (resolved : resolve cf.options.longOptions (text "conf") = some k)
    (found : cf.optLong[k]? = some o) :
    element cf.options index (text "--conf=" ++ conf) next =
      ⟨if o.hasArg = .noArgument then [.invalid] else [.long k (some ⟨index, 7, conf⟩)], false⟩ := by
  have body : element cf.options index (text "--conf=" ++ conf) next =
      longElement cf.options index next (text "conf=" ++ conf) := rfl
  have name : (text "conf=" ++ conf).takeWhile (· ≠ 0x3d) = text "conf" := rfl
  have own : (text "conf").length < (text "conf=" ++ conf).length := by
    rw [List.length_append]
    exact Nat.lt_of_lt_of_le (by decide : (text "conf").length < (text "conf=").length)
      (Nat.le_add_right _ _)
  have behind : (text "conf=" ++ conf).drop ((text "conf").length + 1) = conf := rfl
  have offset : (text "conf").length + 3 = 7 := rfl
  rw [body, longElement, name, if_pos own, behind, offset, resolved]
  simp only [options_getElem, found, Option.map_some]
  cases o.hasArg <;> rfl

/-- `-c` is read with the argument behind it when it needs one. -/
theorem decision_short (index : Nat) (next : List Byte) :
    cf.decision (element cf.options index (text "-c") (some next)).reports =
        some (some ⟨index + 1, 0, next⟩) <->
      shortArg cf.optShort 0x63 = some .requiredArgument := by
  constructor
  · intro decided
    have single : element cf.options index (text "-c") (some next) =
        shortElement cf.options index (some next) 1 [0x63] := rfl
    have sameString : cf.options.optstring = cf.optShort := rfl
    rw [single, shortElement, sameString] at decided
    cases needs : shortArg cf.optShort 0x63 with
    | none =>
        rw [needs] at decided
        cases decided
    | some hasArg =>
        rw [needs] at decided
        cases hasArg with
        | noArgument => cases decided
        | requiredArgument => rfl
        | optionalArgument => cases decided
  · intro required
    rw [element_short index next required]
    rfl

/-- `--conf` is read with the argument behind it when it is the option `c` and needs an
argument. -/
theorem decision_long (index : Nat) (next : List Byte) :
    cf.decision (element cf.options index (text "--conf") (some next)).reports =
        some (some ⟨index + 1, 0, next⟩) <->
      Exists fun o => cf.ConfIsLong o ∧ o.hasArg = .requiredArgument := by
  cases resolved : resolve cf.options.longOptions (text "conf") with
  | none =>
      have unknown : element cf.options index (text "--conf") (some next) = ⟨[.invalid], false⟩ :=
        longElement_unknown index (some next) (by decide) resolved
      simp [unknown, decision_singleton, Report.optarg, ConfIsLong, not_confReads resolved]
  | some k =>
      rcases exists_of_resolve resolved with ⟨o, found⟩
      rw [element_long index (some next) resolved found]
      simp only [ConfIsLong, confReads_iff resolved found]
      by_cases required : o.hasArg = .requiredArgument
      · rw [if_pos required]
        simp [separate, decision_singleton, returned_long, found, required, Report.optarg]
      · rw [if_neg required]
        simp [decision_singleton, required, Report.optarg]

/-- `--conf=` is read with what is behind it when it is the option `c` and can have an argument. -/
theorem decision_longOwn (index : Nat) (conf : List Byte) (next : Option (List Byte)) :
    cf.decision (element cf.options index (text "--conf=" ++ conf) next).reports =
        some (some ⟨index, 7, conf⟩) <->
      Exists fun o => cf.ConfIsLong o ∧ o.hasArg ≠ .noArgument := by
  cases resolved : resolve cf.options.longOptions (text "conf") with
  | none =>
      have unknown : element cf.options index (text "--conf=" ++ conf) next = ⟨[.invalid], false⟩ :=
        longElement_unknown index next rfl resolved
      simp [unknown, decision_singleton, Report.optarg, ConfIsLong, not_confReads resolved]
  | some k =>
      rcases exists_of_resolve resolved with ⟨o, found⟩
      rw [element_longOwn index conf next resolved found]
      simp only [ConfIsLong, confReads_iff resolved found]
      by_cases no : o.hasArg = .noArgument
      · rw [if_pos no]
        simp [decision_singleton, no, Report.optarg]
      · rw [if_neg no]
        simp [decision_singleton, returned_long, found, no, Report.optarg]

/-! ## When they agree -/

/-- The command lines of the grammar are read alike. -/
theorem Agree.same {index : Nat} {args : List (List Byte)} (agree : Agree cf index args) :
    (scanArguments index args).conf = cf.attributed (reports cf.options index args) := by
  induction agree with
  | nil => rfl
  | operand operand _ inductionHypothesis =>
      rw [scanArguments_goes_on (quiet_of_not_isOption _ operand).1 (quiet_of_not_isOption none operand).2,
        attributed_operand _ operand]
      exact inductionHypothesis
  | terminator silent =>
      rw [scanArguments_goes_on (quiet_terminator _).1 (quiet_terminator none).2, attributed_terminator]
      exact (silent_iff _ _).mp silent
  | undone option notTerminator decided silent =>
      rw [attributed_option _ option notTerminator, decided]
      exact (silent_iff _ _).mp silent
  | short required =>
      rw [attributed_option _ (by decide) (by decide), List.head?_cons, (decision_short _ _).mpr required]
      rfl
  | long isLong required =>
      rw [attributed_option _ (by decide) (by decide), List.head?_cons,
        (decision_long _ _).mpr ⟨_, isLong, required⟩]
      rfl
  | @longOwn index conf args o isLong takes =>
      have notTerminator : text "--conf=" ++ conf ≠ text "--" := fun same =>
        Bool.false_ne_true (congrArg (fun l => (l.drop 2).isEmpty) same)
      rw [attributed_option _ rfl notTerminator, (decision_longOwn _ _ _).mpr ⟨_, isLong, takes⟩, scanArguments,
        scanArgument]
      cases args <;> rfl
  | option option notTerminator passes alone noConf noHelp _ inductionHypothesis =>
      rw [scanArguments_goes_on noConf noHelp, attributed_option _ option notTerminator, passes, alone]
      exact inductionHypothesis
  | optionArgument option notTerminator passes takes noConf noHelp noConfNext noHelpNext _
      inductionHypothesis =>
      rw [scanArguments_goes_on noConf noHelp, scanArguments_goes_on noConfNext noHelpNext,
        attributed_option _ option notTerminator, List.head?_cons, passes, takes]
      exact inductionHypothesis
  | help help unread =>
      rw [scanArguments_stops _ help, unread.attributed_eq_none]
      rfl
  | helpArgument option notTerminator passes takes noConf noHelp help unread =>
      rw [scanArguments_goes_on noConf noHelp, scanArguments_stops _ help,
        attributed_option _ option notTerminator, List.head?_cons, passes, takes]
      exact unread.attributed_eq_none.symm

/-- Where both options have an argument behind them, none of their forms is invalid. -/
theorem ConfTaken.accepted (taken : cf.ConfTaken) {args : List (List Byte)} (only : OnlyConf args)
    {index : Nat} {r : Report} (member : r ∈ reports cf.options index args) :
    cf.returned r ≠ some 0x3f := by
  rcases taken with ⟨shortTakes, o, ⟨k, resolved, found⟩, longTakes, valid⟩
  have validLong (a : Option Arg) : cf.returned (.long k a) ≠ some 0x3f := by
    rw [returned_long, found]
    exact fun same => valid (Option.some.inj same)
  induction only generalizing index with
  | nil => cases member
  | @operand arg args operand _ inductionHypothesis =>
      have notTerminator : arg ≠ [0x2d, 0x2d] := by
        rintro rfl
        cases operand
      rw [reports_cons, if_neg notTerminator, operand] at member
      exact inductionHypothesis member
  | terminator =>
      rw [reports_cons, if_pos (by decide)] at member
      cases member
  | @short conf args _ inductionHypothesis =>
      rw [reports_cons, if_neg (by decide), if_pos (by decide), List.head?_cons,
        element_short index conf shortTakes] at member
      rcases List.mem_append.mp member with here | later
      · rw [List.mem_singleton.mp here]
        have returns : cf.returned (.short 0x63 (some ⟨index + 1, 0, conf⟩)) = some 0x63 := rfl
        rw [returns]
        decide
      · exact inductionHypothesis later
  | @long conf args _ inductionHypothesis =>
      rw [reports_cons, if_neg (by decide), if_pos (by decide), List.head?_cons,
        element_long index (some conf) resolved found, if_pos longTakes] at member
      rcases List.mem_append.mp member with here | later
      · rw [List.mem_singleton.mp here]
        exact validLong _
      · exact inductionHypothesis later
  | @longOwn conf args _ inductionHypothesis =>
      have notTerminator : text "--conf=" ++ conf ≠ [0x2d, 0x2d] := fun same =>
        Bool.false_ne_true (congrArg (fun l => (l.drop 2).isEmpty) same)
      have needs : ¬ o.hasArg = .noArgument := by rw [longTakes]; nofun
      have option : isOption (text "--conf=" ++ conf) = true := rfl
      rw [reports_cons, if_neg notTerminator, if_pos option,
        element_longOwn index conf args.head? resolved found, if_neg needs] at member
      rcases List.mem_append.mp member with here | later
      · rw [List.mem_singleton.mp here]
        exact validLong _
      · exact inductionHypothesis later

/-- `-:` is invalid, whatever is registered. -/
theorem invalid_mem (index : Nat) : Report.invalid ∈ reports cf.options index [text "-:"] := by
  rw [reports_cons, if_neg (by decide), if_pos (by decide)]
  exact List.mem_append_left _ List.mem_cons_self

/-- Without an argument of its own, `-c` leaves `-:` to be read as options. -/
theorem FormsAccepted.shortTakes (accepted : cf.FormsAccepted) :
    shortArg cf.optShort 0x63 = some .requiredArgument := by
  by_contra other
  refine accepted [text "-c", text "-:"] (.short .nil) .invalid ?_ rfl
  have single : element cf.options 1 (text "-c") (some (text "-:")) =
      shortElement cf.options 1 (some (text "-:")) 1 [0x63] := rfl
  have sameString : cf.options.optstring = cf.optShort := rfl
  rw [reports_cons, if_neg (by decide), if_pos (by decide), List.head?_cons, single, shortElement,
    sameString]
  cases needs : shortArg cf.optShort 0x63 with
  | none => exact List.mem_append_left _ List.mem_cons_self
  | some hasArg =>
      cases hasArg with
      | noArgument => exact List.mem_append_right _ (invalid_mem 2)
      | requiredArgument => exact absurd needs other
      | optionalArgument => exact List.mem_append_right _ (invalid_mem 2)

end Mconf

end Rfx
