import Rfx.Library.Unique
import Rfx.Mconf.Registration
import Rfx.Mconf.Setters

namespace Rfx
namespace Mconf

open Library Library.Calls

/-!
# Which parameter an option is for

The comment in `mconf_add` promises that collisions are found, but only the
parameters of other blocks are looked at, and the option `-c` is not among them.
When no block has a collision inside, every option is for the one parameter
that declares it.
-/

variable {M : Type}

/-! ## Unique dispatch -/

/-- The same parameter, whose `set` does nothing but accept the value. -/
def answering (p : MetadParam M) : MetadParam Unit where
  address := p.address
  optShort := p.optShort
  optLong := p.optLong
  confName := p.confName
  set := fun _ _ _ _ memory => some (memory, 0)
  ptr := p.ptr
  optArgs := p.optArgs
  optIdx := p.optIdx

/-- The same configuration with such parameters. -/
def answeringConf (cf : Mconf M) : Mconf Unit where
  address := cf.address
  cfgPath := cf.cfgPath
  argv := cf.argv
  cb := cf.cb.map fun block => ⟨block.opt.map answering, block.sec⟩
  shortLen := cf.shortLen
  longCount := cf.longCount
  longIdx := cf.longIdx
  helpOnly := cf.helpOnly

def answeringEntry (e : Entry M) : Entry Unit :=
  ⟨e.sec, answering e.param⟩

/-- Nothing is set, and no call was made. -/
def blank : State Unit where
  memory := ()
  isSet := fun _ => false
  calls := []

/-- For what `getopt_long` reports, `set` of one parameter is called, once and with the
section of its block. -/
def CallsOnly (cf : Mconf M) (reported : Reported) (e : Entry M) (optarg : Option (List Byte)) : Prop :=
  (mconfParseCmdline cf.answeringConf [reported] blank).map (fun done => done.1.calls) =
    some [((answeringEntry e).ask optarg, true)]

/-- A character that can be an option: `-`, `:` and `;` mean something else to `getopt_long`. -/
def isOptionChar (c : Byte) : Bool :=
  c ≠ 0 && c ≠ 0x2d && c ≠ 0x3a && c ≠ 0x3b

/-- Every option is for the one parameter that declares it, and at most one
parameter is found for a section and a name.  For a long option its first entry in the table is reported. -/
structure DispatchesUniquely (cf : Mconf M) : Prop where
  short : forall e, e ∈ cf.entries -> isOptionChar e.param.optShort = true ->
    forall optarg, cf.CallsOnly (.short e.param.optShort optarg) e optarg
  long : forall e, e ∈ cf.entries -> forall name, e.param.optLong = some name ->
    forall index, cf.optLong.findIdx? (fun option => option.name = name) = some index ->
      forall optarg, cf.CallsOnly (.long index optarg) e optarg
  conf : forall sec name, (cf.entries.filter (Entry.named sec name)).length ≤ 1

/-! ## Blocks without collisions -/

/-- Two parameters with different options and, in one section, different config names.  Only
what is no option character, and no long option goes with, may be the same. -/
structure Apart (sec sec' : Option (List Byte)) (a b : Names) : Prop where
  short : a.optShort ≠ 0 -> a.optShort = b.optShort ->
    isOptionChar a.optShort = false ∧ a.optLong = none ∧ b.optLong = none
  long : a.optLong ≠ none -> a.optLong ≠ b.optLong
  conf : sec ≠ none -> sec = sec' -> a.confName ≠ none -> a.confName ≠ b.confName

theorem apart_iff {sec sec' : Option (List Byte)} {a b : Names} :
    Apart sec sec' a b <->
      (a.optShort ≠ 0 -> a.optShort = b.optShort ->
        isOptionChar a.optShort = false ∧ a.optLong = none ∧ b.optLong = none) ∧
      (a.optLong ≠ none -> a.optLong ≠ b.optLong) ∧
      (sec ≠ none -> sec = sec' -> a.confName ≠ none -> a.confName ≠ b.confName) :=
  ⟨fun apart => ⟨apart.short, apart.long, apart.conf⟩, fun parts => ⟨parts.1, parts.2.1, parts.2.2⟩⟩

instance (sec sec' : Option (List Byte)) : DecidableRel (Apart sec sec') := fun _ _ =>
  decidable_of_iff _ apart_iff.symm

/-- The short options that are never dispatched: `c`, `?`, and what is no index of `cmap`. -/
def Taken (c : Byte) : Prop :=
  c = 0x63 ∨ c = 0x3f ∨ 0x80 ≤ c

instance : DecidablePred Taken := fun _ => inferInstanceAs (Decidable (_ ∨ _))

/-- A block without collisions inside, and with options that are dispatched. -/
structure Separate (block : MconfBlock M) : Prop where
  apart : block.opt.Pairwise fun p q => Apart block.sec block.sec (names p) (names q)
  free : forall p, p ∈ block.opt -> ¬ Taken p.optShort

def EntriesApart (a b : Entry M) : Prop :=
  Apart a.sec b.sec (names a.param) (names b.param)

/-- Only the names matter. -/
theorem separate_iff_names {block : MconfBlock M} :
    Separate block <->
      (blockNames block).2.Pairwise (Apart (blockNames block).1 (blockNames block).1) ∧
        forall n, n ∈ (blockNames block).2 -> ¬ Taken n.optShort := by
  simp only [blockNames, List.pairwise_map, List.forall_mem_map]
  exact ⟨fun separate => ⟨separate.apart, separate.free⟩, fun both => ⟨both.1, both.2⟩⟩

instance (block : MconfBlock M) : Decidable (Separate block) :=
  decidable_of_iff _ separate_iff_names.symm

theorem separate_congr {blocks blocks' : List (MconfBlock M)}
    (same : blocks.map blockNames = blocks'.map blockNames) :
    (forall block, block ∈ blocks -> Separate block) <->
      forall block, block ∈ blocks' -> Separate block := by
  have byNames (list : List (MconfBlock M)) : (forall block, block ∈ list -> Separate block) <->
      forall n, n ∈ list.map blockNames ->
        n.2.Pairwise (Apart n.1 n.1) ∧ forall m, m ∈ n.2 -> ¬ Taken m.optShort := by
    simp only [List.forall_mem_map, separate_iff_names]
  rw [byNames, byNames, same]

/-- What `mconf_check_conflict` compares is different. -/
theorem apart_of_conflict {sec sec' : Option (List Byte)} {p q : MetadParam M}
    (checked : conflict sec sec' p q = some false) : Apart sec sec' (names p) (names q) := by
  rcases Option.map_eq_some_iff.mp checked with ⟨found, compared, none⟩
  simp only [Bool.or_eq_false_iff, Bool.and_eq_false_iff, decide_eq_false_iff_not, not_not] at none
  rcases none with ⟨⟨rfl, shorts⟩, longs⟩
  refine ⟨fun nonzero same => ?_, fun some same => ?_, fun here same some sameName => ?_⟩
  · rcases shorts with zero | different
    · exact absurd zero nonzero
    · exact absurd same different
  · rcases longs with none | different
    · exact some (Option.isNone_iff_eq_none.mp (Option.isSome_eq_false_iff.mp none))
    · exact absurd same different
  · unfold confNameConflict at compared
    rw [if_pos ⟨Option.isSome_iff_ne_none.mpr some, sameName⟩, ← same] at compared
    cases sec with
    | none => exact here rfl
    | some sec => simp at compared

/-- Among registered parameters, collisions are inside blocks. -/
theorem Registered.entries_apart_iff {cf : Mconf M} (registered : Registered cf) :
    (cf.entries.Pairwise EntriesApart ∧ forall e, e ∈ cf.entries -> ¬ Taken e.param.optShort) <->
      forall block, block ∈ cf.cb -> Separate block := by
  have across : cf.cb.Pairwise fun one other => forall e, e ∈ blockEntries one ->
      forall e', e' ∈ blockEntries other -> EntriesApart e e' := by
    refine registered.apart.imp fun {one other} checked e member e' member' => ?_
    rcases List.mem_map.mp member with ⟨p, inside, rfl⟩
    rcases List.mem_map.mp member' with ⟨q, inside', rfl⟩
    exact apart_of_conflict (checked p inside q inside')
  simp only [entries, List.pairwise_flatMap, and_iff_left across, List.forall_mem_flatMap]
  constructor
  · rintro ⟨apart, free⟩ block member
    exact ⟨(List.pairwise_map (R := EntriesApart)).mp (apart block member),
      fun p inside => free block member _ (List.mem_map.mpr ⟨p, inside, rfl⟩)⟩
  · intro separate
    refine ⟨fun block member => List.pairwise_map.mpr (separate block member).apart, ?_⟩
    intro block member e inside
    rcases List.mem_map.mp inside with ⟨p, there, rfl⟩
    exact (separate block member).free p there

/-! ## Calls that are answered -/

theorem answering_entries (cf : Mconf M) :
    cf.answeringConf.entries = cf.entries.map answeringEntry := by
  simp only [entries, answeringConf, List.flatMap_map, List.map_flatMap, blockEntries, List.map_map]
  rfl

theorem answering_optLong (cf : Mconf M) : cf.answeringConf.optLong = cf.optLong := by
  simp only [optLong, answeringConf, List.flatMap_map, List.filterMap_map]
  rfl

theorem answering_cmapInBounds (cf : Mconf M) : cf.answeringConf.cmapInBounds = cf.cmapInBounds := by
  simp only [cmapInBounds, answeringConf, List.all_map, Function.comp_def]
  rfl

/-- Setters that accept everything are called for all requests. -/
theorem callAll_answering (es : List (Entry M)) (optarg : Option (List Byte)) (s : State Unit) :
    (callAll (es.map fun e => (answeringEntry e).ask optarg) s).map State.calls =
      some (s.calls ++ es.map fun e => ((answeringEntry e).ask optarg, true)) := by
  induction es generalizing s with
  | nil => simp
  | cons e es inductionHypothesis =>
      rw [List.map_cons, callAll_cons]
      simp only [callSet, answeringEntry, Entry.ask, answering, Option.map_some, Option.bind_some]
      refine (inductionHypothesis _).trans ?_
      simp [answeringEntry, Entry.ask, answering]

/-- The calls for one report. -/
theorem calls_of_report {cf : Mconf M} {reported : Reported} {c : Int} {option : Option LongOption}
    {optarg : Option (List Byte)} (bounded : cf.cmapInBounds = true)
    (returned : result cf.optLong reported = some (c, option, optarg)) (valid : c ≠ 0x3f) :
    (mconfParseCmdline cf.answeringConf [reported] blank).map (fun done => done.1.calls) =
      some ((if c = 0x63 then [] else cf.entries.filter fun e => hit c option e.param).map
        fun e => ((answeringEntry e).ask optarg, true)) := by
  rw [mconfParseCmdline, answering_cmapInBounds, if_pos bounded, parseReports, answering_optLong,
    returned, Option.bind_some, if_neg valid]
  by_cases conf : c = 0x63
  · rw [if_pos conf, if_pos conf]
    rfl
  · rw [if_neg conf, if_neg conf, setBlocks_eq]
    have same : (cf.answeringConf.cb.flatMap blockEntries).filter (fun e => hit c option e.param) =
        (cf.entries.filter fun e => hit c option e.param).map answeringEntry := by
      rw [← entries, answering_entries, List.filter_map]
      rfl
    have called := callAll_answering (cf.entries.filter fun e => hit c option e.param) optarg blank
    rw [same, List.map_map, Option.map_bind]
    simp only [parseReports, Function.comp_def, Option.map_some]
    rw [Option.map_eq_bind] at called
    exact called

/-- When nothing but `e` is called, it is hit and nothing else is. -/
theorem CallsOnly.alone {cf : Mconf M} {reported : Reported} {c : Int} {option : Option LongOption}
    {e : Entry M} {optarg : Option (List Byte)} (only : cf.CallsOnly reported e optarg)
    (returned : result cf.optLong reported = some (c, option, optarg)) :
    cf.cmapInBounds = true ∧ c ≠ 0x3f ∧ c ≠ 0x63 ∧ hit c option e.param = true ∧
      cf.entries.Pairwise fun a b => ¬ (hit c option a.param = true ∧ hit c option b.param = true) := by
  unfold CallsOnly at only
  have bounded : cf.cmapInBounds = true := by
    by_contra outside
    rw [mconfParseCmdline, answering_cmapInBounds, if_neg outside] at only
    cases only
  have valid : c ≠ 0x3f := by
    intro invalid
    rw [mconfParseCmdline, answering_cmapInBounds, if_pos bounded, parseReports, answering_optLong,
      returned, Option.bind_some, if_pos invalid] at only
    cases only
  rw [calls_of_report bounded returned valid] at only
  by_cases conf : c = 0x63
  · rw [if_pos conf] at only
    cases only
  · rw [if_neg conf] at only
    have mapped := Option.some.inj only
    have one : (cf.entries.filter fun e => hit c option e.param).length = 1 := by
      have lengths := congrArg List.length mapped
      rwa [List.length_map] at lengths
    refine ⟨bounded, valid, conf, ?_, Unique.length_filter_le_one.mp (Nat.le_of_eq one)⟩
    rcases List.length_eq_one_iff.mp one with ⟨f, found⟩
    have member : f ∈ cf.entries.filter fun e => hit c option e.param := by
      rw [found]
      exact List.mem_singleton_self f
    rw [found] at mapped
    have sameParam : answering f.param = answering e.param :=
      congrArg (fun a : Request Unit × Bool => a.1.param) (List.singleton_injective mapped)
    have sameHit : hit c option e.param = hit c option f.param :=
      (congrArg (hit c option) sameParam).symm
    rw [sameHit]
    exact (List.mem_filter.mp member).2

/-- And the other way round. -/
theorem callsOnly_of_alone {cf : Mconf M} {reported : Reported} {c : Int}
    {option : Option LongOption} {e : Entry M} {optarg : Option (List Byte)}
    (bounded : cf.cmapInBounds = true)
    (returned : result cf.optLong reported = some (c, option, optarg)) (valid : c ≠ 0x3f)
    (dispatched : c ≠ 0x63) (alone : (cf.entries.filter fun e => hit c option e.param) = [e]) :
    cf.CallsOnly reported e optarg := by
  unfold CallsOnly
  rw [calls_of_report bounded returned valid, if_neg dispatched, alone]
  rfl

/-! ## The table of long options -/

theorem optLong_eq (cf : Mconf M) :
    cf.optLong = cf.entries.filterMap fun e =>
      e.param.optLong.map fun name => ⟨name, hasArg e.param.optArgs, e.param.optIdx⟩ := by
  simp only [optLong, entries, List.filterMap_flatMap, blockEntries, List.filterMap_map]
  rfl

/-- A long option that is declared is in the table. -/
theorem exists_index {cf : Mconf M} {e : Entry M} {name : List Byte} (member : e ∈ cf.entries)
    (long : e.param.optLong = some name) :
    Exists fun index => cf.optLong.findIdx? (fun option => option.name = name) = some index := by
  rw [← Option.isSome_iff_exists, List.findIdx?_isSome, List.any_eq_true, optLong_eq]
  refine ⟨⟨name, hasArg e.param.optArgs, e.param.optIdx⟩, ?_, by simp⟩
  exact List.mem_filterMap.mpr ⟨e, member, by rw [long]; rfl⟩

/-- An entry of the table is a parameter that declares the option, with its number. -/
theorem declared_of_mem {cf : Mconf M} {option : LongOption} (member : option ∈ cf.optLong) :
    Exists fun e => e ∈ cf.entries ∧ e.param.optLong = some option.name ∧
      option.val = e.param.optIdx := by
  rw [optLong_eq] at member
  rcases List.mem_filterMap.mp member with ⟨e, declared, same⟩
  rcases Option.map_eq_some_iff.mp same with ⟨name, long, rfl⟩
  exact ⟨e, declared, long, rfl⟩

/-- What is reported for a long option is the number of a parameter that declares it. -/
theorem result_long {cf : Mconf M} {name : List Byte} {index : Nat}
    (first : cf.optLong.findIdx? (fun option => option.name = name) = some index)
    (optarg : Option (List Byte)) :
    Exists fun e => Exists fun option => e ∈ cf.entries ∧ e.param.optLong = some name ∧
      option.val = e.param.optIdx ∧
      result cf.optLong (.long index optarg) = some (e.param.optIdx, some option, optarg) := by
  rcases List.findIdx?_eq_some_iff_getElem.mp first with ⟨inside, named, _⟩
  rcases declared_of_mem (List.getElem_mem inside) with ⟨e, declared, long, number⟩
  rw [of_decide_eq_true named] at long
  refine ⟨e, cf.optLong[index], declared, long, number, ?_⟩
  rw [result, List.getElem?_eq_getElem inside, Option.map_some, number]

/-! ## When options are dispatched uniquely -/

/-- A parameter is hit by its short option, or by its number in the table. -/
theorem hit_iff {c : Int} {option : Option LongOption} {p : MetadParam M} :
    hit c option p = true <->
      p.optShort ≠ 0 ∧ charInt p.optShort = c ∨
        Exists fun o => option = some o ∧ p.optLong ≠ none ∧ o.val = p.optIdx := by
  cases option with
  | none => simp [hit]
  | some o => simp [hit, Option.isSome_iff_ne_none]

theorem hit_short {e : Entry M} (nonzero : e.param.optShort ≠ 0) (option : Option LongOption) :
    hit (charInt e.param.optShort) option e.param = true :=
  hit_iff.mpr (Or.inl ⟨nonzero, rfl⟩)

theorem optShort_ne_zero {c : Byte} (option : isOptionChar c = true) : c ≠ 0 := by
  intro zero
  rw [zero] at option
  cases option

/-- A parameter with a short option that is hit has the one that is reported. -/
theorem short_of_hit {low high : Nat} {c : Int} {option : Option LongOption} {p : MetadParam M}
    (numbered : Numbered low high p) (short : p.optShort ≠ 0)
    (reported : forall o, option = some o -> o.val = c) (here : hit c option p = true) :
    charInt p.optShort = c := by
  rcases hit_iff.mp here with ⟨_, byShort⟩ | ⟨o, given, long, byLong⟩
  · exact byShort
  · have number := numbered long
    rw [if_neg short] at number
    rw [← number, ← byLong]
    exact reported o given

/-- Where a character is reported, only parameters with a short option are hit. -/
theorem optShort_ne_zero_of_hit {high : Nat} {c : Int} {option : Option LongOption} {p : MetadParam M}
    (numbered : Numbered 256 high p) (below : c < 256)
    (reported : forall o, option = some o -> o.val = c) (here : hit c option p = true) :
    p.optShort ≠ 0 := by
  rcases hit_iff.mp here with ⟨short, _⟩ | ⟨o, given, long, byLong⟩
  · exact short
  · intro zero
    have number := numbered long
    rw [if_pos zero] at number
    have same := reported o given
    omega

/-- Where no character is reported, only the parameters that it numbers are hit. -/
theorem longOnly_of_hit {low high : Nat} {c : Int} {option : Option LongOption} {p : MetadParam M}
    (numbered : Numbered low high p) (above : 256 ≤ c)
    (reported : forall o, option = some o -> o.val = c) (here : hit c option p = true) :
    LongOnly p ∧ p.optIdx = c := by
  have noShort : p.optShort = 0 := by
    by_contra short
    have same := short_of_hit numbered short reported here
    have bound := charInt_lt p.optShort
    omega
  rcases hit_iff.mp here with ⟨short, _⟩ | ⟨o, given, long, byLong⟩
  · exact absurd noShort short
  · exact ⟨⟨long, noShort⟩, byLong.symm.trans (reported o given)⟩

/-- Where options are dispatched uniquely, no other parameter has the short option of a
parameter with a long option. -/
theorem DispatchesUniquely.short_alone {cf : Mconf M} (unique : cf.DispatchesUniquely)
    (registered : Registered cf) {e : Entry M} (member : e ∈ cf.entries)
    (long : e.param.optLong ≠ none) (short : e.param.optShort ≠ 0) :
    cf.entries.Pairwise fun a b =>
      ¬ (a.param.optShort = e.param.optShort ∧ b.param.optShort = e.param.optShort) := by
  rcases Option.ne_none_iff_exists'.mp long with ⟨name, named⟩
  rcases exists_index member named with ⟨index, first⟩
  rcases result_long first none with ⟨e', option, _, _, number, returned⟩
  have alone := (unique.long e member name named index first none).alone returned
  have same : charInt e.param.optShort = e'.param.optIdx :=
    short_of_hit (registered.numbered e member) short (fun o is => by cases is; exact number)
      alone.2.2.2.1
  refine alone.2.2.2.2.imp fun {a b} notBoth both => notBoth ?_
  rw [← same]
  constructor
  · rw [← both.1]
    exact hit_short (both.1 ▸ short) _
  · rw [← both.2]
    exact hit_short (both.2 ▸ short) _

theorem DispatchesUniquely.entries_apart {cf : Mconf M} (unique : cf.DispatchesUniquely)
    (registered : Registered cf) : cf.entries.Pairwise EntriesApart := by
  rw [List.pairwise_iff_forall_sublist]
  intro a b two
  have inA : a ∈ cf.entries := two.subset List.mem_cons_self
  have inB : b ∈ cf.entries := two.subset (List.mem_cons_of_mem _ List.mem_cons_self)
  have notBoth {p : Entry M -> Entry M -> Prop} (apart : cf.entries.Pairwise p) : p a b :=
    List.pairwise_iff_forall_sublist.mp apart two
  refine ⟨fun nonzero same => ⟨?_, ?_, ?_⟩, fun some same => ?_, fun here same some sameName => ?_⟩
  · by_contra option
    rw [Bool.not_eq_false] at option
    have alone := (unique.short a inA option none).alone rfl
    have sameShort : a.param.optShort = b.param.optShort := same
    have nonzero' : b.param.optShort ≠ 0 := fun zero => nonzero (Eq.trans same zero)
    refine notBoth alone.2.2.2.2 ⟨hit_short nonzero _, ?_⟩
    rw [sameShort]
    exact hit_short nonzero' _
  · by_contra long
    exact notBoth (unique.short_alone registered inA long nonzero) ⟨rfl, Eq.symm same⟩
  · by_contra long
    have nonzero' : b.param.optShort ≠ 0 := fun zero => nonzero (Eq.trans same zero)
    exact notBoth (unique.short_alone registered inB long nonzero') ⟨same, rfl⟩
  · rcases Option.ne_none_iff_exists'.mp some with ⟨name, named⟩
    rcases exists_index inA named with ⟨index, first⟩
    rcases result_long first none with ⟨e', option, _, _, _, returned⟩
    have aloneA := (unique.long a inA name named index first none).alone returned
    have aloneB := (unique.long b inB name (Eq.trans (Eq.symm same) named) index first none).alone
      returned
    exact notBoth aloneA.2.2.2.2 ⟨aloneA.2.2.2.1, aloneB.2.2.2.1⟩
  · rcases Option.ne_none_iff_exists'.mp here with ⟨sec, inSec⟩
    rcases Option.ne_none_iff_exists'.mp some with ⟨name, named⟩
    refine notBoth (Unique.length_filter_le_one.mp (unique.conf sec name)) ⟨?_, ?_⟩
    · exact Bool.and_eq_true_iff.mpr ⟨decide_eq_true inSec, decide_eq_true named⟩
    · exact Bool.and_eq_true_iff.mpr
        ⟨decide_eq_true (same ▸ inSec), decide_eq_true (Eq.trans (Eq.symm sameName) named)⟩

theorem isOptionChar_of_taken {c : Byte} (taken : Taken c) : isOptionChar c = true := by
  rcases taken with rfl | rfl | beyond
  · rfl
  · rfl
  · simp only [isOptionChar, Bool.and_eq_true, decide_eq_true_eq]
    refine ⟨⟨⟨?_, ?_⟩, ?_⟩, ?_⟩ <;> · intro same; rw [same] at beyond; exact absurd beyond (by decide)

/-- A parameter with one of the options that are never dispatched is never called for it. -/
theorem DispatchesUniquely.free {cf : Mconf M} (unique : cf.DispatchesUniquely) {e : Entry M}
    (member : e ∈ cf.entries) : ¬ Taken e.param.optShort := by
  intro taken
  rcases (unique.short e member (isOptionChar_of_taken taken) none).alone rfl with
    ⟨bounded, valid, dispatched, _⟩
  rcases taken with conf | question | beyond
  · exact dispatched (by rw [conf]; rfl)
  · exact valid (by rw [question]; rfl)
  · simp only [cmapInBounds, List.all_eq_true, decide_eq_true_eq] at bounded
    rcases List.mem_flatMap.mp member with ⟨block, inBlocks, inBlock⟩
    rcases List.mem_map.mp inBlock with ⟨p, inside, rfl⟩
    exact absurd (bounded block inBlocks p inside) (UInt8.not_lt.mpr beyond)

theorem cmapInBounds_of_free {cf : Mconf M}
    (free : forall e, e ∈ cf.entries -> ¬ Taken e.param.optShort) : cf.cmapInBounds = true := by
  simp only [cmapInBounds, List.all_eq_true, decide_eq_true_eq]
  intro block inBlocks p inside
  by_contra beyond
  refine free ⟨block.sec, p⟩ ?_ (Or.inr (Or.inr (UInt8.not_lt.mp beyond)))
  exact List.mem_flatMap.mpr ⟨block, inBlocks, List.mem_map.mpr ⟨p, inside, rfl⟩⟩

/-! ## The other way round -/

/-- What is known of two registered parameters without collisions, the first before the
second. -/
def Told (a b : Entry M) : Prop :=
  EntriesApart a b ∧ (LongOnly a.param -> LongOnly b.param -> a.param.optIdx < b.param.optIdx)

theorem Told.optLong_ne {a b : Entry M} (told : Told a b ∨ Told b a) (long : b.param.optLong ≠ none) :
    a.param.optLong ≠ b.param.optLong := by
  intro same
  rcases told with before | behind
  · exact before.1.long (by rw [names, same]; exact long) same
  · exact behind.1.long long (Eq.symm same)

/-- Only the parameter that declares a short option is hit. -/
theorem Told.not_hit_short {a b : Entry M} (told : Told a b ∨ Told b a)
    (option : isOptionChar b.param.optShort = true) :
    ¬ hit (charInt b.param.optShort) none a.param = true := by
  intro here
  rcases hit_iff.mp here with ⟨nonzero, byShort⟩ | ⟨_, none, _⟩
  · have same : a.param.optShort = b.param.optShort := charInt_inj.mp byShort
    rcases told with before | behind
    · have notOption := (before.1.short nonzero same).1
      rw [names, same, option] at notOption
      cases notOption
    · have notOption := (behind.1.short (optShort_ne_zero option) (Eq.symm same)).1
      rw [names, option] at notOption
      cases notOption
  · cases none

/-- Only the parameter that declares a long option is hit. -/
theorem Told.not_hit_long {a b : Entry M} {high : Nat} {o : LongOption}
    (told : Told a b ∨ Told b a) (numberedA : Numbered 256 high a.param)
    (numberedB : Numbered 256 high b.param) (long : b.param.optLong ≠ none)
    (number : o.val = b.param.optIdx) : ¬ hit b.param.optIdx (some o) a.param = true := by
  intro here
  have reported (o' : LongOption) (given : some o = some o') : o'.val = b.param.optIdx := by
    cases given
    exact number
  have numberB := numberedB long
  by_cases short : b.param.optShort = 0
  · rw [if_pos short] at numberB
    rcases longOnly_of_hit numberedA numberB.1 reported here with ⟨longOnly, same⟩
    rcases told with before | behind
    · have less := before.2 longOnly ⟨long, short⟩
      omega
    · have less := behind.2 ⟨long, short⟩ longOnly
      omega
  · rw [if_neg short] at numberB
    have below : b.param.optIdx < 256 := numberB ▸ charInt_lt b.param.optShort
    have shortA := optShort_ne_zero_of_hit numberedA below reported here
    have same : a.param.optShort = b.param.optShort :=
      charInt_inj.mp ((short_of_hit numberedA shortA reported here).trans numberB)
    rcases told with before | behind
    · exact long (before.1.short shortA same).2.2
    · exact long (behind.1.short short (Eq.symm same)).2.1

/-- A long option is dispatched to the parameter with its number only. -/
theorem hits_long {cf : Mconf M} (registered : Registered cf) (told : cf.entries.Pairwise Told)
    {e : Entry M} (member : e ∈ cf.entries) (long : e.param.optLong ≠ none) {o : LongOption}
    (number : o.val = e.param.optIdx) :
    (cf.entries.filter fun a => hit e.param.optIdx (some o) a.param) = [e] :=
  Unique.filter_eq_singleton told member (hit_iff.mpr (Or.inr ⟨o, rfl, long, number⟩))
    fun a inside either => Told.not_hit_long either (registered.numbered a inside)
      (registered.numbered e member) long number

/-- A long option is declared by one parameter only. -/
theorem declares_long {cf : Mconf M} (told : cf.entries.Pairwise Told) {e : Entry M}
    (member : e ∈ cf.entries) {name : List Byte} (long : e.param.optLong = some name) :
    (cf.entries.filter fun a => a.param.optLong = some name) = [e] :=
  Unique.filter_eq_singleton told member (decide_eq_true long) fun _ _ either named =>
    Told.optLong_ne either (Option.ne_none_iff_exists'.mpr ⟨name, long⟩)
      ((of_decide_eq_true named).trans long.symm)

theorem dispatchesUniquely_of_apart {cf : Mconf M} (registered : Registered cf)
    (apart : cf.entries.Pairwise EntriesApart)
    (free : forall e, e ∈ cf.entries -> ¬ Taken e.param.optShort) : cf.DispatchesUniquely := by
  have told : cf.entries.Pairwise Told := apart.and registered.ordered
  have bounded := cmapInBounds_of_free free
  refine ⟨?_, ?_, ?_⟩
  · intro e member option optarg
    refine callsOnly_of_alone bounded rfl ?_ ?_ ?_
    · exact fun question => free e member (Or.inr (Or.inl (charInt_inj.mp question)))
    · exact fun conf => free e member (Or.inl (charInt_inj.mp conf))
    · exact Unique.filter_eq_singleton told member (hit_short (optShort_ne_zero option) none)
        fun a _ either => Told.not_hit_short either option
  · intro e member name long index first optarg
    rcases result_long first optarg with ⟨e', option, declared, long', mine, returned⟩
    have same : e' = e := by
      have inFound : e' ∈ cf.entries.filter fun a => a.param.optLong = some name :=
        List.mem_filter.mpr ⟨declared, decide_eq_true long'⟩
      rw [declares_long told member long] at inFound
      exact List.mem_singleton.mp inFound
    subst same
    have isLong : e'.param.optLong ≠ none := Option.ne_none_iff_exists'.mpr ⟨name, long⟩
    have numbered := registered.numbered e' member
    refine callsOnly_of_alone bounded returned ?_ ?_ (hits_long registered told member isLong mine)
    · exact numbered.optIdx_ne isLong fun question => free e' member (Or.inr (Or.inl question))
    · exact numbered.optIdx_ne isLong fun conf => free e' member (Or.inl conf)
  · intro sec name
    refine Unique.length_filter_le_one.mpr (apart.imp fun {a b} different both => ?_)
    have namedA := Bool.and_eq_true_iff.mp both.1
    have namedB := Bool.and_eq_true_iff.mp both.2
    have inSec : a.sec = some sec := of_decide_eq_true namedA.1
    have named : a.param.confName = some name := of_decide_eq_true namedA.2
    refine different.conf (by rw [inSec]; nofun) (inSec.trans (of_decide_eq_true namedB.1).symm) ?_ ?_
    · exact fun none => by rw [names, named] at none; cases none
    · exact named.trans (of_decide_eq_true namedB.2).symm

/-- Accepted blocks dispatch uniquely exactly when none of them has a collision inside, or an
option that is never dispatched. -/
theorem dispatches_uniquely_iff {address : Nat} {cfgPath : Option (List Byte)}
    {argv : List (List Byte)} {blocks : List (MconfBlock M)} {cf : Mconf M}
    (accepted : Run.run acceptBlock (mconfInit address cfgPath argv) blocks = some cf) :
    cf.DispatchesUniquely <-> forall block, block ∈ blocks -> Separate block := by
  have registered := registered_of_accepted accepted
  have sameNames : cf.cb.map blockNames = blocks.map blockNames := run_names accepted
  rw [← separate_congr sameNames, ← registered.entries_apart_iff]
  constructor
  · exact fun unique => ⟨unique.entries_apart registered, fun _ member => unique.free member⟩
  · exact fun apart => dispatchesUniquely_of_apart registered apart.1 apart.2

/-- Two blocks with options of all kinds, and with one config name in both sections. -/
theorem dispatches_uniquely_two_blocks :
    Exists fun cf : Mconf Memory =>
      Run.run acceptBlock (mconfInit 0 none []) [mainBlock, logBlock] = some cf ∧
        (forall block, block ∈ [mainBlock, logBlock] -> Separate block) ∧ cf.DispatchesUniquely := by
  have separate : forall block, block ∈ [mainBlock, logBlock] -> Separate block := by decide
  exact ⟨_, rfl, separate, (dispatches_uniquely_iff rfl).mpr separate⟩

/-- Two parameters with the option `-s` are accepted in one block, and `-s` sets both. -/
theorem same_option_in_block :
    Exists fun cf : Mconf Memory =>
      Run.run acceptBlock (mconfInit 0 none [])
        [⟨[sizeParam, { sizeParam with
          address := 3, optLong := none, confName := none, ptr := 4 }], some (text "main")⟩] =
        some cf ∧
      ¬ cf.DispatchesUniquely := by
  refine ⟨_, rfl, fun unique => ?_⟩
  have only := unique.short _ List.mem_cons_self rfl (some (text "1"))
  have lengths := congrArg (Option.map List.length) only
  cases lengths

end Mconf

end Rfx
