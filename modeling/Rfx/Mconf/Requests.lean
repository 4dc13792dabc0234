import Rfx.Mconf

namespace Rfx
namespace Mconf

open Library.Calls

/-!
# What is asked of the parameters

The loops of `mconf.c` find out which parameters a pair of the file or an option
of the command line is for.  This does not depend on what was set before, so
both come down to lists of calls of `set`, and `mconf_parse` to making first the
calls for the file and then those for the command line.
-/

variable {M : Type}

/-- A registered parameter with the section of its block. -/
structure Entry (M : Type) where
  sec : Option (List Byte)
  param : MetadParam M

/-- The call of `set` with a value. -/
def Entry.ask (e : Entry M) (value : Option (List Byte)) : Request M :=
  ⟨e.sec, e.param, value⟩

def blockEntries (block : MconfBlock M) : List (Entry M) :=
  block.opt.map fun p => ⟨block.sec, p⟩

/-- All parameters, in the order in which they were registered. -/
def entries (cf : Mconf M) : List (Entry M) :=
  cf.cb.flatMap blockEntries

/-! ## The command line -/

/-- The calls for what one call of `getopt_long` returned. -/
def asked (cf : Mconf M) (c : Int) (option : Option LongOption) (optarg : Option (List Byte)) :
    List (Request M) :=
  if c = 0x63 then [] else (cf.entries.filter fun e => hit c option e.param).map fun e => e.ask optarg

/-- The calls for a command line, up to the first invalid option. -/
def lineRequests (cf : Mconf M) : List Reported -> List (Request M)
  | [] => []
  | reported :: rest =>
      match result cf.optLong reported with
      | none => lineRequests cf rest
      | some got =>
          if got.1 = 0x3f then [] else cf.asked got.1 got.2.1 got.2.2 ++ lineRequests cf rest

/-- Does `getopt_long` return `?`? -/
def isInvalid (cf : Mconf M) (reported : Reported) : Bool :=
  (result cf.optLong reported).any fun got => got.1 = 0x3f

/-- The calls made, without their verdicts. -/
def callAll (requests : List (Request M)) (s : State M) : Option (State M) :=
  (performAll callSet s requests).map Prod.fst

@[simp] theorem callAll_nil (s : State M) : callAll [] s = some s := rfl

theorem callAll_cons (r : Request M) (requests : List (Request M)) (s : State M) :
    callAll (r :: requests) s = (callSet s r).bind fun done => callAll requests done.1 := by
  simp only [callAll, performAll, Option.map_bind, Function.comp_def, Option.map_map]

theorem callAll_append (first second : List (Request M)) (s : State M) :
    callAll (first ++ second) s = (callAll first s).bind (callAll second) := by
  induction first generalizing s with
  | nil => rfl
  | cons r first inductionHypothesis =>
      rw [List.cons_append, callAll_cons, callAll_cons, Option.bind_assoc]
      exact congrArg _ (funext fun done => inductionHypothesis done.1)

theorem setParams_eq (c : Int) (option : Option LongOption) (sec optarg : Option (List Byte))
    (ps : List (MetadParam M)) (s : State M) :
    setParams c option sec optarg ps s =
      callAll ((ps.filter (hit c option)).map fun p => ⟨sec, p, optarg⟩) s := by
  induction ps generalizing s with
  | nil => rfl
  | cons p ps inductionHypothesis =>
      rw [setParams]
      by_cases here : hit c option p = true
      · rw [if_pos here, List.filter_cons_of_pos here, List.map_cons, callAll_cons]
        exact congrArg _ (funext fun done => inductionHypothesis done.1)
      · rw [if_neg here, List.filter_cons_of_neg here, inductionHypothesis]

theorem setBlocks_eq (c : Int) (option : Option LongOption) (optarg : Option (List Byte))
    (blocks : List (MconfBlock M)) (s : State M) :
    setBlocks c option optarg blocks s =
      callAll (((blocks.flatMap blockEntries).filter fun e => hit c option e.param).map
        fun e => e.ask optarg) s := by
  induction blocks generalizing s with
  | nil => rfl
  | cons block blocks inductionHypothesis =>
      rw [setBlocks, setParams_eq, List.flatMap_cons, List.filter_append, List.map_append,
        callAll_append, blockEntries, List.filter_map, List.map_map]
      exact congrArg _ (funext fun middle => inductionHypothesis middle)

/-- The command line makes its calls, and it fails when there is an invalid option. -/
theorem parseReports_eq {cf : Mconf M} {reports : List Reported} {s final : State M} {code : Int}
    (parsed : parseReports cf reports s = some (final, code)) :
    callAll (cf.lineRequests reports) s = some final ∧
      code = if reports.any cf.isInvalid then -1 else 0 := by
  induction reports generalizing s with
  | nil =>
      cases parsed
      exact ⟨rfl, rfl⟩
  | cons reported rest inductionHypothesis =>
      rcases Option.bind_eq_some_iff.mp parsed with ⟨got, returned, later⟩
      simp only [lineRequests, List.any_cons, isInvalid, returned, Option.any_some]
      by_cases invalid : got.1 = 0x3f
      · rw [if_pos invalid] at later
        cases later
        simp only [invalid, if_true, decide_true, Bool.true_or, callAll_nil, and_self]
      · rw [if_neg invalid] at later
        simp only [if_neg invalid, decide_eq_false invalid, Bool.false_or, callAll_append, asked]
        by_cases conf : got.1 = 0x63
        · rw [if_pos conf] at later ⊢
          exact inductionHypothesis later
        · rw [if_neg conf, setBlocks_eq] at later
          rw [if_neg conf]
          rcases Option.bind_eq_some_iff.mp later with ⟨middle, called, behind⟩
          rw [entries, called]
          exact inductionHypothesis behind

/-! ## The configuration file -/

/-- Is this the parameter that a pair of the file is for? -/
def Entry.named (sec name : List Byte) (e : Entry M) : Bool :=
  e.sec = some sec && e.param.confName = some name

/-- The first such parameter. -/
def addressee (cf : Mconf M) (sec name : List Byte) : Option (Entry M) :=
  cf.entries.find? (Entry.named sec name)

/-- The call for a pair, if there is such a parameter. -/
def pairRequest (cf : Mconf M) (pair : Ini.Pair) : Option (Request M) :=
  (cf.addressee pair.sec pair.name).map fun e => e.ask (some pair.value)

/-- The calls for the lines of a file. -/
def confRequests (cf : Mconf M) (lines : List Ini.Line) : List (Request M) :=
  (Ini.pairs [] lines).filterMap cf.pairRequest

theorem handleParams_eq (sec name value : List Byte) (ps : List (MetadParam M)) (s : State M) :
    handleParams sec name value ps s =
      match ps.find? fun p => p.confName = some name with
      | none => some (s, none)
      | some p => (callSet s ⟨some sec, p, some value⟩).map fun done => (done.1, some done.2) := by
  induction ps with
  | nil => rfl
  | cons p ps inductionHypothesis =>
      rw [handleParams]
      by_cases here : p.confName = some name
      · rw [if_pos here, List.find?_cons_of_pos (by simpa using here)]
      · rw [if_neg here, List.find?_cons_of_neg (by simpa using here), inductionHypothesis]

theorem handleBlocks_eq (sec name value : List Byte) (blocks : List (MconfBlock M)) (s : State M) :
    handleBlocks sec name value blocks s =
      match (blocks.flatMap blockEntries).find? (Entry.named sec name) with
      | none => some (s, false)
      | some e => callSet s (e.ask (some value)) := by
  induction blocks with
  | nil => rfl
  | cons block blocks inductionHypothesis =>
      have inside : (blockEntries block).find? (Entry.named sec name) =
          if block.sec = some sec then
            (block.opt.find? fun p => p.confName = some name).map fun p => ⟨block.sec, p⟩
          else none := by
        have tested : (Entry.named sec name ∘ fun p => (⟨block.sec, p⟩ : Entry M)) =
            fun p => decide (block.sec = some sec) && decide (p.confName = some name) := rfl
        rw [blockEntries, List.find?_map, tested]
        by_cases here : block.sec = some sec
        · simp only [here, decide_true, Bool.true_and, if_true]
        · simp [here]
      rw [handleBlocks, List.flatMap_cons, List.find?_append, inside]
      by_cases here : block.sec = some sec
      · rw [if_pos here, if_pos here, handleParams_eq]
        cases block.opt.find? fun p => decide (p.confName = some name) with
        | none => exact inductionHypothesis
        | some p =>
            simp only [Option.bind_map, Function.comp_def, Option.map_some, Option.some_or]
            rw [here]
            exact Option.bind_fun_some _
      · rw [if_neg here, if_neg here, inductionHypothesis]
        rfl

/-- The handler calls `set` of the parameter that a pair is for, and fails when there is none. -/
theorem iniHandler_eq (cf : Mconf M) (s : State M) (sec name value : List Byte) :
    iniHandler cf s sec name value =
      match cf.addressee sec name with
      | none => some (s, false)
      | some e => callSet s (e.ask (some value)) :=
  handleBlocks_eq sec name value cf.cb s

/-- Handling pairs makes the calls for them, and all pairs are handled when each has a
parameter that accepts the value. -/
theorem performAll_pairs {cf : Mconf M} {pairs : List Ini.Pair} {s final : State M}
    {answered : List (Ini.Pair × Bool)}
    (handled : performAll (fun s pair => iniHandler cf s pair.sec pair.name pair.value) s pairs =
      some (final, answered)) :
    Exists fun called =>
      performAll callSet s (pairs.filterMap cf.pairRequest) = some (final, called) ∧
      ((forall a, a ∈ answered -> a.2 = true) <->
        (forall pair, pair ∈ pairs -> cf.addressee pair.sec pair.name ≠ none) ∧
          forall a, a ∈ called -> a.2 = true) := by
  induction pairs generalizing s answered with
  | nil =>
      cases handled
      exact ⟨[], rfl, by simp⟩
  | cons pair pairs inductionHypothesis =>
      rcases performAll_cons.mp handled with ⟨middle, accepted, rest, first, later, same⟩
      rcases inductionHypothesis later with ⟨called, performed, clean⟩
      simp only [iniHandler_eq] at first
      cases found : cf.addressee pair.sec pair.name with
      | none =>
          rw [found] at first
          cases first
          refine ⟨called, ?_, ?_⟩
          · rw [List.filterMap_cons_none (by simp [pairRequest, found])]
            exact performed
          · simp [same, found]
      | some e =>
          rw [found] at first
          refine ⟨(e.ask (some pair.value), accepted) :: called, ?_, ?_⟩
          · rw [List.filterMap_cons_some (by simp only [pairRequest, found]; rfl)]
            exact performAll_cons.mpr ⟨middle, accepted, called, first, performed, rfl⟩
          · simp only [same, List.forall_mem_cons, clean, found]
            constructor
            · rintro ⟨here, known, others⟩
              exact ⟨⟨nofun, known⟩, here, others⟩
            · rintro ⟨⟨_, known⟩, here, others⟩
              exact ⟨here, known, others⟩

/-! ## Both -/

/-- The record of the calls is the calls that were made. -/
theorem calls_eq {requests : List (Request M)} {s final : State M} {answered : List (Request M × Bool)}
    (performed : performAll callSet s requests = some (final, answered)) :
    final.calls = s.calls ++ answered := by
  induction requests generalizing s answered with
  | nil =>
      cases performed
      exact (List.append_nil _).symm
  | cons r requests inductionHypothesis =>
      rcases performAll_cons.mp performed with ⟨middle, accepted, rest, called, later, same⟩
      rcases Option.map_eq_some_iff.mp called with ⟨done, _, made⟩
      cases made
      rw [inductionHypothesis later, same, List.append_assoc]
      rfl

/-- The lines of the file that is parsed; none when there is no file. -/
def confLines (cf : Mconf M) (conf : Conf) : List Ini.Line :=
  (cf.cfgPath.bind conf).getD []

/-- The file cannot be opened, or it has a line without a meaning or a pair without a
parameter. -/
def ConfBroken (cf : Mconf M) (conf : Conf) : Prop :=
  (Exists fun path => cf.cfgPath = some path ∧ conf path = none) ∨
    Ini.Line.malformed ∈ cf.confLines conf ∨
      Exists fun pair => pair ∈ Ini.pairs [] (cf.confLines conf) ∧
        cf.addressee pair.sec pair.name = none

theorem mconfParseConf_eq {cf : Mconf M} {conf : Conf} {path : List Byte} {s final : State M}
    {code : Int} (here : cf.cfgPath = some path)
    (parsed : mconfParseConf cf conf path s = some (final, code)) :
    Exists fun front =>
      performAll callSet s (cf.confRequests (cf.confLines conf)) = some (final, front) ∧
      (code = 0 <-> ¬ cf.ConfBroken conf ∧ forall a, a ∈ front -> a.2 = true) := by
  rcases Option.map_eq_some_iff.mp parsed with ⟨⟨last, error⟩, read, same⟩
  cases same
  have code : (if error ≠ 0 then (-1 : Int) else 0) = 0 <-> error = 0 := by
    split <;> simp_all
  simp only [code, confLines, here, Option.bind_some, ConfBroken]
  cases opened : conf path with
  | none =>
      rw [opened] at read
      cases read
      exact ⟨[], rfl, by simp [opened]⟩
  | some lines =>
      rw [opened] at read
      rcases Ini.parseFile_eq Nat.one_pos read with ⟨answered, handled, clean⟩
      rcases performAll_pairs handled with ⟨front, performed, accepted⟩
      refine ⟨front, performed, ?_⟩
      rw [clean, accepted]
      simp [opened, and_assoc]

/-- What is done for the command line: the calls for it, in turn. -/
theorem mconfParseCmdline_eq {cf : Mconf M} {reports : List Reported} {s final : State M} {code : Int}
    (parsed : mconfParseCmdline cf reports s = some (final, code)) :
    Exists fun back =>
      performAll callSet s (cf.lineRequests reports) = some (final, back) ∧
      code = if reports.any cf.isInvalid then -1 else 0 := by
  unfold mconfParseCmdline at parsed
  split at parsed
  · rcases parseReports_eq parsed with ⟨called, returned⟩
    rcases Option.map_eq_some_iff.mp called with ⟨⟨last, back⟩, performed, same⟩
    cases same
    exact ⟨back, performed, returned⟩
  · cases parsed

/-- What is done when the program goes on: the calls for the file, and then, unless there
was an error, those for the command line. -/
theorem mconfParse_eq {cf : Mconf M} {conf : Conf} {reports : List Reported} {s final : State M}
    {code : Int} (parsed : mconfParse cf conf reports s = some (.returned final code)) :
    Exists fun middle => Exists fun front =>
      performAll callSet s (cf.confRequests (cf.confLines conf)) = some (middle, front) ∧
      ((cf.ConfBroken conf ∨ Exists fun r => (r, false) ∈ front) ∧ final = middle ∧ code = -1 ∨
        (¬ cf.ConfBroken conf ∧ forall a, a ∈ front -> a.2 = true) ∧
          Exists fun back =>
            performAll callSet middle (cf.lineRequests reports) = some (final, back) ∧
            code = if reports.any cf.isInvalid then -1 else 0) := by
  have cmdline {start : State M}
      (cmd : (mconfParseCmdline cf reports start).map (fun done => Ended.returned done.1 done.2) =
        some (.returned final code)) :
      Exists fun back =>
        performAll callSet start (cf.lineRequests reports) = some (final, back) ∧
        code = if reports.any cf.isInvalid then -1 else 0 := by
    rcases Option.map_eq_some_iff.mp cmd with ⟨done, parsedLine, same⟩
    cases same
    exact mconfParseCmdline_eq parsedLine
  unfold mconfParse at parsed
  split at parsed
  · split at parsed
    · cases parsed
    · rcases Option.map_eq_some_iff.mp parsed with ⟨_, _, different⟩
      cases different
  · split at parsed
    · next noPath =>
        have noLines : cf.confLines conf = [] := by rw [confLines, noPath]; rfl
        rcases cmdline parsed with ⟨back, performed, returned⟩
        refine ⟨s, [], by rw [noLines]; rfl, Or.inr ⟨⟨?_, by simp⟩, back, performed, returned⟩⟩
        simp [ConfBroken, noLines, noPath, Ini.pairs]
    · next path here =>
        rcases Option.bind_eq_some_iff.mp parsed with ⟨⟨middle, error⟩, read, behind⟩
        rcases mconfParseConf_eq here read with ⟨front, performed, clean⟩
        refine ⟨middle, front, performed, ?_⟩
        by_cases failed : error = 0
        · rw [if_neg (by simpa using failed)] at behind
          exact Or.inr ⟨clean.mp failed, cmdline behind⟩
        · rw [if_pos failed] at behind
          cases behind
          refine Or.inl ⟨?_, rfl, rfl⟩
          by_contra fine
          rw [not_or] at fine
          refine failed (clean.mpr ⟨fine.1, fun a member => ?_⟩)
          by_contra rejected
          refine fine.2 ⟨a.1, ?_⟩
          rwa [← Bool.eq_false_iff.mpr rejected]

end Mconf

end Rfx
