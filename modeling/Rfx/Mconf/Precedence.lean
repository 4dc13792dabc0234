import Rfx.Mconf.Dispatch

namespace Rfx
namespace Mconf

open Library Library.Calls

/-!
# The command line overrides the file

Where the parameters have targets, options and config names of their own, a
parameter ends up with the last value that was accepted for it: one from the
command line if there is one, else one from the file, else what it held before.
-/

/-- The setters that replace what the target holds, and what they store. -/
def replacing : List (Setter Memory × (List Byte -> Cell)) :=
  [(mconfSetString, fun v => .string (some v) true), (mconfSetAval, fun v => .word (avalOf v)),
    (mconfSetUintSize, fun v => .word (uintSizeOf v))]

/-- The setters of `mconf.c`. -/
def shippedSetters : List (Setter Memory) :=
  [mconfSetString, mconfSetAval, mconfSetUintSize, mconfSetLogopts, mconfSetLoglevel]

theorem replacing_of_mem {r : Setter Memory × (List Byte -> Cell)} (member : r ∈ replacing) :
    Replacing r.1 r.2 := by
  simp only [replacing, List.mem_cons, List.not_mem_nil, or_false] at member
  rcases member with rfl | rfl | rfl
  · exact mconfSetString_replacing
  · exact mconfSetAval_replacing
  · exact mconfSetUintSize_replacing

theorem local_of_mem {set : Setter Memory} (member : set ∈ shippedSetters) : Local set := by
  simp only [shippedSetters, List.mem_cons, List.not_mem_nil, or_false] at member
  rcases member with rfl | rfl | rfl | rfl | rfl
  · exact mconfSetString_local
  · exact mconfSetAval_local
  · exact mconfSetUintSize_local
  · exact mconfSetLogopts_local
  · exact mconfSetLoglevel_local

/-- Every parameter is a structure of its own, with a target, options and a config name of its
own, and none has the option `-c`. -/
structure Distinct (cf : Mconf Memory) : Prop where
  objects : (cf.entries.map fun e => e.param.address).Nodup
  targets : (cf.entries.map fun e => e.param.ptr).Nodup
  shorts : cf.entries.Pairwise fun a b =>
    a.param.optShort ≠ 0 -> a.param.optShort ≠ b.param.optShort
  longs : cf.entries.Pairwise fun a b =>
    a.param.optLong ≠ none -> a.param.optLong ≠ b.param.optLong
  confNames : cf.entries.Pairwise fun a b =>
    a.sec = b.sec -> a.param.confName ≠ none -> a.param.confName ≠ b.param.confName
  free : forall e, e ∈ cf.entries -> e.param.optShort ≠ 0x63

/-- A setter that a program brings along writes to no target but its own, as those of
`mconf.c` do. -/
def CallbacksLocal (cf : Mconf Memory) : Prop :=
  forall e, e ∈ cf.entries -> e.param.set ∉ shippedSetters -> Local e.param.set

/-! ## What an option is for -/

/-- Does the parameter declare the option that is reported? -/
def declares (cf : Mconf Memory) (reported : Reported) (e : Entry Memory) : Bool :=
  match reported with
  | .short c _ => e.param.optShort ≠ 0 && e.param.optShort = c
  | .long optionIndex _ =>
      e.param.optLong.isSome && e.param.optLong = (cf.optLong[optionIndex]?).map LongOption.name
  | .invalid => false

/-- The argument of the option that is reported. -/
def Reported.argument : Reported -> Option (List Byte)
  | .short _ optarg | .long _ optarg => optarg
  | .invalid => none

/-- An occurrence of an option, with the parameter it is for. -/
def occurrence (cf : Mconf Memory) (reported : Reported) : Option (Request Memory) :=
  (cf.entries.find? (cf.declares reported)).map fun e => e.ask reported.argument

/-- The occurrences on a command line. -/
def occurrences (cf : Mconf Memory) (reports : List Reported) : List (Request Memory) :=
  reports.filterMap cf.occurrence

/-- The last value that was accepted for a parameter. -/
def lastFor (e : Entry Memory) (answered : List (Request Memory × Bool)) : Option (Request Memory) :=
  lastAccepted (fun r => r.param.address) e.param.address answered

/-! ## What holds at the end -/

/-- The calls that are made: those for the pairs of the file, which all are accepted, and those
for the occurrences on the command line. -/
structure Answered (cf : Mconf Memory) (conf : Conf) (reports : List Reported)
    (s final : State Memory) (file line : List (Request Memory × Bool)) : Prop where
  calls : final.calls = s.calls ++ (file ++ line)
  fileCalls : file.map Prod.fst = cf.confRequests (cf.confLines conf)
  lineCalls : line.map Prod.fst = cf.occurrences reports
  accepted : forall a, a ∈ file -> a.2 = true

/-- A parameter holds its last value, and `is_set` says if there is one. -/
structure HoldsLast (s final : State Memory) (file line : List (Request Memory × Bool))
    (e : Entry Memory) : Prop where
  value : forall r, r ∈ replacing -> e.param.set = r.1 ->
    final.memory.cell e.param.ptr =
      (((lastFor e line).or (lastFor e file)).map fun q => r.2 (q.value.getD [])).getD
        (s.memory.cell e.param.ptr)
  isSet : final.isSet e.param.address = true <->
    s.isSet e.param.address = true ∨
      Exists fun r => (r, true) ∈ file ++ line ∧ r.param.address = e.param.address

/-- What a parameter holds, and `is_set`, are as before. -/
def SameAt (e : Entry Memory) (before after : State Memory) : Prop :=
  after.memory.cell e.param.ptr = before.memory.cell e.param.ptr ∧
    after.isSet e.param.address = before.isSet e.param.address

/-- What is for another parameter leaves this one alone, in every state. -/
structure LeftAlone (cf : Mconf Memory) (e : Entry Memory) : Prop where
  line : forall reported before after code,
    (forall r, cf.occurrence reported = some r -> r.param.address ≠ e.param.address) ->
      mconfParseCmdline cf [reported] before = some (after, code) -> SameAt e before after
  file : forall pair before after handled,
    (forall r, cf.pairRequest pair = some r -> r.param.address ≠ e.param.address) ->
      iniHandler cf before pair.sec pair.name pair.value = some (after, handled) ->
        SameAt e before after

/-! ## Requests for the occurrences -/

variable {cf : Mconf Memory}

theorem Distinct.told (distinct : cf.Distinct) (registered : Registered cf) :
    cf.entries.Pairwise Told := by
  have apart := (distinct.shorts.and distinct.longs).and distinct.confNames
  refine (apart.imp fun {a b} both => ?_).and registered.ordered
  exact ⟨fun nonzero same => absurd same (both.1.1 nonzero), both.1.2, fun _ => both.2⟩

/-- The loop calls `set` of the parameter that declares a short option. -/
theorem asked_short (distinct : cf.Distinct) (c : Byte) (optarg : Option (List Byte)) :
    cf.asked (charInt c) none optarg = (cf.occurrence (.short c optarg)).toList := by
  have samePredicate : (fun e : Entry Memory => hit (charInt c) none e.param) =
      cf.declares (.short c optarg) := by
    funext e
    simp only [hit, declares, Option.any_none, Bool.or_false, charInt_inj]
  have only : (cf.entries.filter (cf.declares (.short c optarg))) =
      (cf.entries.find? (cf.declares (.short c optarg))).toList := by
    refine Unique.filter_eq_find (Unique.length_filter_le_one.mpr ?_)
    refine distinct.shorts.imp fun {a b} different both => ?_
    have hereA := Bool.and_eq_true_iff.mp both.1
    have hereB := Bool.and_eq_true_iff.mp both.2
    exact different (of_decide_eq_true hereA.1)
      ((of_decide_eq_true hereA.2).trans (of_decide_eq_true hereB.2).symm)
  unfold asked occurrence
  rw [samePredicate, only]
  by_cases conf : charInt c = 0x63
  · have none : cf.entries.find? (cf.declares (.short c optarg)) = none := by
      rw [List.find?_eq_none]
      intro e member declared
      have here := of_decide_eq_true (Bool.and_eq_true_iff.mp declared).2
      exact distinct.free e member (here.trans (charInt_inj.mp conf))
    rw [if_pos conf, none]
    rfl
  · rw [if_neg conf, Option.toList_map]
    rfl

/-- The loop calls `set` of the parameter that declares a long option. -/
theorem asked_long (distinct : cf.Distinct) (registered : Registered cf) {index : Nat}
    {o : LongOption} (found : cf.optLong[index]? = some o) (optarg : Option (List Byte)) :
    cf.asked o.val (some o) optarg = (cf.occurrence (.long index optarg)).toList := by
  rcases declared_of_mem (List.mem_of_getElem? found) with ⟨e, declared, long, number⟩
  have told := distinct.told registered
  have isLong : e.param.optLong ≠ none := Option.ne_none_iff_exists'.mpr ⟨_, long⟩
  have samePredicate : cf.declares (.long index optarg) =
      fun a : Entry Memory => a.param.optLong = some o.name := by
    funext a
    rw [declares, found, Option.map_some]
    cases named : a.param.optLong <;> simp [named]
  have finds : cf.entries.find? (cf.declares (.long index optarg)) = some e := by
    rw [samePredicate]
    exact Unique.find_eq_some (declares_long told declared long)
  have dispatched : o.val ≠ 0x63 := by
    rw [number]
    exact (registered.numbered e declared).optIdx_ne isLong (distinct.free e declared)
  unfold asked occurrence
  rw [if_neg dispatched, finds, number, hits_long registered told declared isLong number]
  rfl

/-- The loop calls `set` of the parameter that declares what is reported. -/
theorem asked_eq_occurrence (distinct : cf.Distinct) (registered : Registered cf) {reported : Reported}
    {c : Int} {option : Option LongOption} {optarg : Option (List Byte)}
    (returned : result cf.optLong reported = some (c, option, optarg)) (valid : c ≠ 0x3f) :
    cf.asked c option optarg = (cf.occurrence reported).toList := by
  cases reported with
  | invalid =>
      cases returned
      exact absurd rfl valid
  | short ch value =>
      cases returned
      exact asked_short distinct ch optarg
  | long index value =>
      rcases Option.map_eq_some_iff.mp returned with ⟨o, found, same⟩
      cases same
      exact asked_long distinct registered found optarg

/-- What is not reported from the table is no occurrence. -/
theorem occurrence_eq_none {reported : Reported} (unknown : result cf.optLong reported = none) :
    cf.occurrence reported = none := by
  cases reported with
  | short c optarg => cases unknown
  | invalid => cases unknown
  | long index optarg =>
      have beyond : cf.optLong[index]? = none := Option.map_eq_none_iff.mp unknown
      have nobody : cf.entries.find? (cf.declares (.long index optarg)) = none := by
        rw [List.find?_eq_none]
        intro e _ declared
        have here := Bool.and_eq_true_iff.mp declared
        rw [beyond] at here
        rw [of_decide_eq_true here.2] at here
        cases here.1
      rw [occurrence, nobody]
      rfl

/-- Without an invalid option, the calls for the command line are those for the occurrences. -/
theorem lineRequests_eq (distinct : cf.Distinct) (registered : Registered cf) {reports : List Reported}
    (valid : ¬ reports.any cf.isInvalid = true) :
    cf.lineRequests reports = cf.occurrences reports := by
  induction reports with
  | nil => rfl
  | cons reported rest inductionHypothesis =>
      rw [List.any_cons, Bool.or_eq_true, not_or] at valid
      have later := inductionHypothesis valid.2
      rw [lineRequests, occurrences, List.filterMap_cons]
      cases returned : result cf.optLong reported with
      | none =>
          rw [occurrence_eq_none returned]
          exact later
      | some got =>
          have ordinary : got.1 ≠ 0x3f := by
            intro question
            refine valid.1 ?_
            rw [isInvalid, returned, Option.any_some]
            exact decide_eq_true question
          have asks := asked_eq_occurrence distinct registered returned ordinary
          dsimp only
          rw [if_neg ordinary, asks, later]
          cases cf.occurrence reported with
          | none => rfl
          | some r => rfl

/-! ## What a call changes -/

/-- The parameters that values are for are registered. -/
def AsksFor (cf : Mconf Memory) (r : Request Memory) : Prop :=
  Exists fun e => e ∈ cf.entries ∧ r.param = e.param

theorem asksFor_of_occurrence {reported : Reported} {r : Request Memory}
    (occurs : cf.occurrence reported = some r) : cf.AsksFor r := by
  rcases Option.map_eq_some_iff.mp occurs with ⟨e, found, rfl⟩
  exact ⟨e, List.mem_of_find?_eq_some found, rfl⟩

theorem asksFor_of_pairRequest {pair : Ini.Pair} {r : Request Memory}
    (asks : cf.pairRequest pair = some r) : cf.AsksFor r := by
  rcases Option.map_eq_some_iff.mp asks with ⟨e, found, rfl⟩
  exact ⟨e, List.mem_of_find?_eq_some found, rfl⟩

theorem CallbacksLocal.local (callbacks : cf.CallbacksLocal) {r : Request Memory}
    (asks : cf.AsksFor r) : Local r.param.set := by
  rcases asks with ⟨e, member, same⟩
  rw [same]
  by_cases shipped : e.param.set ∈ shippedSetters
  · exact local_of_mem shipped
  · exact callbacks e member shipped

/-- A structure at the same address is the same parameter. -/
theorem Distinct.same_param (distinct : cf.Distinct) {r : Request Memory} {e : Entry Memory}
    (asks : cf.AsksFor r) (member : e ∈ cf.entries) (same : r.param.address = e.param.address) :
    r.param = e.param := by
  rcases asks with ⟨e', member', sameParam⟩
  rw [sameParam] at same
  rw [sameParam, List.inj_on_of_nodup_map distinct.objects member' member same]

theorem Distinct.other_ptr (distinct : cf.Distinct) {r : Request Memory} {e : Entry Memory}
    (asks : cf.AsksFor r) (member : e ∈ cf.entries) (other : r.param.address ≠ e.param.address) :
    e.param.ptr ≠ r.param.ptr := by
  rcases asks with ⟨e', member', sameParam⟩
  rw [sameParam] at other ⊢
  intro same
  rw [List.inj_on_of_nodup_map distinct.targets member member' same] at other
  exact other rfl

/-- A call for another parameter leaves this one alone. -/
theorem sameAt_of_callSet (distinct : cf.Distinct) (callbacks : cf.CallbacksLocal) {r : Request Memory}
    {e : Entry Memory} (asks : cf.AsksFor r) (member : e ∈ cf.entries)
    (other : r.param.address ≠ e.param.address) {before after : State Memory} {accepted : Bool}
    (called : callSet before r = some (after, accepted)) : SameAt e before after := by
  rcases Option.map_eq_some_iff.mp called with ⟨⟨memory, code⟩, set, same⟩
  cases same
  refine ⟨callbacks.local asks _ _ _ _ _ _ _ set _ (distinct.other_ptr asks member other), ?_⟩
  dsimp only
  split
  · exact Function.update_of_ne (Ne.symm other) ..
  · rfl

/-- An accepted call replaces what a parameter holds. -/
theorem replacesAt_cell (distinct : cf.Distinct) (callbacks : cf.CallbacksLocal) {r : Request Memory}
    {e : Entry Memory} {stored : List Byte -> Cell} (asks : cf.AsksFor r) (member : e ∈ cf.entries)
    (replaces : Replacing e.param.set stored) :
    ReplacesAt (fun r : Request Memory => r.param.address) callSet
      (fun s => s.memory.cell e.param.ptr) (fun q => stored (q.value.getD [])) e.param.address r := by
  intro s next accepted called
  by_cases same : r.param.address = e.param.address
  · have sameParam := distinct.same_param asks member same
    rcases Option.map_eq_some_iff.mp called with ⟨⟨memory, code⟩, set, made⟩
    cases made
    rw [sameParam] at set
    rcases replaces _ _ _ _ _ _ _ set with ⟨v, given, cell⟩
    simp only [cell, given, Option.getD_some, same, true_and, decide_eq_true_eq]
  · rw [if_neg fun both => same both.1]
    exact (sameAt_of_callSet distinct callbacks asks member same called).1

/-- An accepted call sets `is_set`. -/
theorem replacesAt_isSet (address : Nat) (r : Request Memory) :
    ReplacesAt (fun r : Request Memory => r.param.address) callSet
      (fun s => s.isSet address) (fun _ => true) address r := by
  intro s next accepted called
  rcases Option.map_eq_some_iff.mp called with ⟨⟨memory, code⟩, set, made⟩
  cases made
  by_cases zero : code = 0
  · by_cases same : r.param.address = address
    · simp [zero, same]
    · simp [zero, same, Function.update_of_ne (Ne.symm same)]
  · simp [zero]

/-! ## Precedence -/

theorem SameAt.refl (e : Entry Memory) (s : State Memory) : SameAt e s s :=
  ⟨rfl, rfl⟩

theorem SameAt.trans {e : Entry Memory} {a b c : State Memory} (first : SameAt e a b)
    (second : SameAt e b c) : SameAt e a c :=
  ⟨second.1.trans first.1, second.2.trans first.2⟩

/-- Every call for the command line is for an occurrence on it. -/
theorem mem_lineRequests (distinct : cf.Distinct) (registered : Registered cf) {reports : List Reported}
    {r : Request Memory} (asked : r ∈ cf.lineRequests reports) :
    Exists fun reported => reported ∈ reports ∧ cf.occurrence reported = some r := by
  induction reports with
  | nil => cases asked
  | cons reported rest inductionHypothesis =>
      have later : r ∈ cf.lineRequests rest ->
          Exists fun other => other ∈ reported :: rest ∧ cf.occurrence other = some r := by
        intro behind
        rcases inductionHypothesis behind with ⟨other, member, occurs⟩
        exact ⟨other, List.mem_cons_of_mem _ member, occurs⟩
      rw [lineRequests] at asked
      cases returned : result cf.optLong reported with
      | none =>
          rw [returned] at asked
          exact later asked
      | some got =>
          rw [returned] at asked
          dsimp only at asked
          split at asked
          · cases asked
          · next ordinary =>
              rcases List.mem_append.mp asked with here | behind
              · rw [asked_eq_occurrence distinct registered returned ordinary] at here
                exact ⟨reported, List.mem_cons_self, Option.mem_toList.mp here⟩
              · exact later behind

theorem leftAlone (distinct : cf.Distinct) (registered : Registered cf) (callbacks : cf.CallbacksLocal)
    {e : Entry Memory} (member : e ∈ cf.entries) : cf.LeftAlone e := by
  constructor
  · intro reported before after code others parsed
    rcases mconfParseCmdline_eq parsed with ⟨answered, performed, _⟩
    refine performAll_relation (SameAt.refl e) (fun _ _ _ => SameAt.trans) ?_ performed
    intro r asked s next accepted called
    rcases mem_lineRequests distinct registered asked with ⟨other, here, occurs⟩
    rw [List.mem_singleton] at here
    subst here
    exact sameAt_of_callSet distinct callbacks (asksFor_of_occurrence occurs) member (others r occurs)
      called
  · intro pair before after handled others made
    rw [iniHandler_eq] at made
    cases found : cf.addressee pair.sec pair.name with
    | none =>
        rw [found] at made
        cases made
        exact SameAt.refl e _
    | some e' =>
        rw [found] at made
        have asks : cf.pairRequest pair = some (e'.ask (some pair.value)) := by
          rw [pairRequest, found]
          rfl
        exact sameAt_of_callSet distinct callbacks (asksFor_of_pairRequest asks) member (others _ asks) made

/-- When `mconf_parse` returns 0, every parameter holds the last value that was accepted for it
on the command line, else the last in the file, else what it held before; `is_set` says whether
there is such a value; and what is for another parameter leaves it alone. -/
theorem last_accepted_wins {address : Nat} {cfgPath : Option (List Byte)} {argv : List (List Byte)}
    {blocks : List (MconfBlock Memory)} {conf : Conf} {reports : List Reported} {s final : State Memory}
    (added : Run.run addBlock (mconfInit address cfgPath argv) blocks = some cf)
    (distinct : cf.Distinct) (callbacks : cf.CallbacksLocal)
    (parsed : mconfParse cf conf reports s = some (.returned final 0)) :
    Exists fun file => Exists fun line => cf.Answered conf reports s final file line ∧
      forall e, e ∈ cf.entries -> HoldsLast s final file line e ∧ cf.LeftAlone e := by
  have registered := registered_of_run added
  rcases mconfParse_eq parsed with ⟨middle, file, performed, outcome⟩
  rcases outcome with ⟨_, _, failed⟩ | ⟨⟨_, accepted⟩, line, later, returned⟩
  · cases failed
  · have valid : ¬ reports.any cf.isInvalid = true := by
      intro invalid
      rw [if_pos invalid] at returned
      cases returned
    have lineCalls := lineRequests_eq distinct registered valid
    have both : performAll callSet s (cf.confRequests (cf.confLines conf) ++ cf.lineRequests reports) =
        some (final, file ++ line) :=
      performAll_append.mpr ⟨middle, file, line, performed, later, rfl⟩
    have asks : forall r,
        r ∈ cf.confRequests (cf.confLines conf) ++ cf.lineRequests reports -> cf.AsksFor r := by
      intro r asked
      rcases List.mem_append.mp asked with inFile | onLine
      · rcases List.mem_filterMap.mp inFile with ⟨pair, _, made⟩
        exact asksFor_of_pairRequest made
      · rcases mem_lineRequests distinct registered onLine with ⟨_, _, occurs⟩
        exact asksFor_of_occurrence occurs
    refine ⟨file, line, ⟨calls_eq both, performAll_calls performed, ?_, accepted⟩, ?_⟩
    · rw [performAll_calls later, lineCalls]
    · intro e member
      refine ⟨⟨fun r replaces isSetter => ?_, ?_⟩, leftAlone distinct registered callbacks member⟩
      · have replacing : Replacing e.param.set r.2 := by
          rw [isSetter]
          exact replacing_of_mem replaces
        have cell := get_performAll (fun r : Request Memory => r.param.address)
          (fun r asked => replacesAt_cell distinct callbacks (asks r asked) member replacing) both
        rw [cell, lastAccepted_append]
        rfl
      · have flag := get_performAll (fun r : Request Memory => r.param.address)
          (fun r _ => replacesAt_isSet e.param.address r) both
        rw [flag, ← lastAccepted_isSome (fun r : Request Memory => r.param.address)]
        cases lastAccepted (fun r : Request Memory => r.param.address) e.param.address (file ++ line) with
        | none => simp
        | some r => simp

/-- The file sets both sizes and the port; then `-s 2k` sets one of the sizes again. -/
theorem last_accepted_wins_sizes :
    Exists fun final : State Memory =>
      [2, 4, 6, 8].map final.memory.cell = [.word 2048, .word 80, .word 4096, .word 0] ∧
      [1, 3, 5, 7].map final.isSet = [true, true, true, false] ∧
      (Exists fun file => Exists fun line =>
        twoConf.Answered
          (Conf.ofFiles fun _ => some (text "[main]\nsize = 1k\nport = 80\n[log]\nsize = 4k\n"))
          [.short 0x73 (some (text "2k"))] freshState final file line ∧
        forall e, e ∈ twoConf.entries -> HoldsLast freshState final file line e) ∧
      forall value before after code,
        mconfParseCmdline twoConf [.short 0x73 (some value)] before = some (after, code) ->
          SameAt ⟨some (text "main"), portParam⟩ before after := by
  have added : Run.run addBlock (mconfInit 0 (some (text "conf")) []) [mainBlock, logBlock] =
      some twoConf := rfl
  have distinct : twoConf.Distinct := {
    objects := by decide
    targets := by decide
    shorts := by decide
    longs := by decide
    confNames := by decide
    free := by decide }
  have callbacks : twoConf.CallbacksLocal := by
    intro e member notShipped
    have shipped : e.param.set ∈ shippedSetters := by
      simp only [twoConf, entries, mainBlock, logBlock, blockEntries, List.flatMap_cons, List.flatMap_nil,
        List.map_cons, List.map_nil, List.cons_append, List.nil_append, List.append_nil, List.mem_cons,
        List.not_mem_nil, or_false] at member
      rcases member with rfl | rfl | rfl | rfl <;>
        simp [shippedSetters, sizeParam, portParam, limitParam, levelParam]
    exact absurd shipped notShipped
  have parsed : Exists fun final : State Memory =>
      mconfParse twoConf
        (Conf.ofFiles fun _ => some (text "[main]\nsize = 1k\nport = 80\n[log]\nsize = 4k\n"))
        [.short 0x73 (some (text "2k"))] freshState = some (.returned final 0) ∧
      [2, 4, 6, 8].map final.memory.cell = [.word 2048, .word 80, .word 4096, .word 0] ∧
      [1, 3, 5, 7].map final.isSet = [true, true, true, false] :=
    ⟨_, rfl, rfl, rfl⟩
  rcases parsed with ⟨final, parsed, cells, set⟩
  rcases last_accepted_wins added distinct callbacks parsed with ⟨file, line, answered, kept⟩
  refine ⟨final, cells, set, ⟨file, line, answered, fun e member => (kept e member).1⟩, ?_⟩
  intro value before after code parsed
  have member : ⟨some (text "main"), portParam⟩ ∈ twoConf.entries :=
    List.mem_cons_of_mem _ List.mem_cons_self
  refine (kept _ member).2.line _ before after code (fun r occurs => ?_) parsed
  cases occurs
  exact (by decide : 1 ≠ 3)

end Mconf

end Rfx
