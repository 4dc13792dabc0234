import Rfx.Library.Words
import Rfx.Mconf.Registration
import Rfx.Mconf.Setters

namespace Rfx
namespace Mconf

open Library

/-!
# What `mconf_add` counts

`mconf_add` counts the parameters of a block while it looks for a conflict, so that
those in front of a conflict are counted for a block that is not registered.  The
counters have 32 bits; the totals of what they count are kept apart from them here.
-/

variable {M : Type}

/-- The characters that the short options take in the string for `getopt_long`. -/
def shortTotal (params : List (MetadParam M)) : Nat :=
  (params.map fun p => (shortWidth p).toNat).sum

/-- How many long options there are. -/
def longTotal (params : List (MetadParam M)) : Nat :=
  params.countP fun p => p.optLong.isSome

/-- How many of them need a number of their own. -/
def longOnlyTotal (params : List (MetadParam M)) : Nat :=
  params.countP fun p => p.optLong.isSome && p.optShort = 0

/-- The counters after some parameters. -/
def countParams (cf : Mconf M) (params : List (MetadParam M)) : Mconf M :=
  { cf with
    shortLen := cf.shortLen + .ofNat (shortTotal params)
    longCount := cf.longCount + .ofNat (longTotal params)
    longIdx := cf.longIdx + longOnlyTotal params }

/-- The parameters of a block in front of the first conflict. -/
def unhindered (cf : Mconf M) (sec : Option (List Byte)) (opts : List (MetadParam M)) :
    List (MetadParam M) :=
  opts.takeWhile fun opt => mconfCheckConflict sec opt cf.cb = some false

theorem shortTotal_cons (p : MetadParam M) (params : List (MetadParam M)) :
    shortTotal (p :: params) = (shortWidth p).toNat + shortTotal params := by
  rw [shortTotal, List.map_cons, List.sum_cons, shortTotal]

theorem countParams_nil (cf : Mconf M) : countParams cf [] = cf := by
  simp [countParams, shortTotal, longTotal, longOnlyTotal]

theorem countParams_cons (cf : Mconf M) (p : MetadParam M) (params : List (MetadParam M)) :
    countParams (countParams cf [p]) params = countParams cf (p :: params) := by
  have short : shortTotal (p :: params) = shortTotal [p] + shortTotal params := by
    rw [shortTotal_cons, shortTotal_cons]
    rfl
  have long : longTotal (p :: params) = longTotal [p] + longTotal params := by
    rw [longTotal, ← List.singleton_append, List.countP_append, longTotal, longTotal]
  have longOnly : longOnlyTotal (p :: params) = longOnlyTotal [p] + longOnlyTotal params := by
    rw [longOnlyTotal, ← List.singleton_append, List.countP_append, longOnlyTotal, longOnlyTotal]
  simp only [countParams, short, long, longOnly, UInt32.ofNat_add, UInt32.add_assoc, Nat.add_assoc]

/-- One parameter is counted, and gets a number if it has a long option. -/
theorem account_counts {cf counted : Mconf M} {opt opt' : MetadParam M}
    (accounted : account cf opt = some (counted, opt')) :
    counted = countParams cf [opt] ∧
      (opt.optLong = none -> opt' = opt) ∧
      (opt.optLong ≠ none -> opt.optShort ≠ 0 -> opt' = { opt with optIdx := charInt opt.optShort }) := by
  have short : UInt32.ofNat (shortTotal [opt]) = shortWidth opt := by
    simp [shortTotal]
  unfold account at accounted
  dsimp only at accounted
  split at accounted
  · next noLong =>
      cases accounted
      refine ⟨?_, fun _ => rfl, fun long => absurd noLong long⟩
      simp [countParams, short, longTotal, longOnlyTotal, noLong]
  · next long =>
      have isSome : opt.optLong.isSome = true := Option.isSome_iff_ne_none.mpr long
      split at accounted
      · next both =>
          cases accounted
          refine ⟨?_, fun noLong => absurd noLong long, fun _ _ => rfl⟩
          simp [countParams, short, longTotal, longOnlyTotal, isSome, both]
      · next longOnly =>
          split at accounted
          · cases accounted
            refine ⟨?_, fun noLong => absurd noLong long, fun _ both => absurd both longOnly⟩
            simp only [not_not] at longOnly
            simp [countParams, short, longTotal, longOnlyTotal, isSome, longOnly]
          · cases accounted

/-- The loop counts what it goes through, which is everything in front of the first
conflict. -/
theorem addParams_counts {cf final : Mconf M} {sec : Option (List Byte)}
    {opts opts' : List (MetadParam M)} {complete : Bool}
    (added : addParams sec cf opts = some (final, opts', complete)) :
    final = countParams cf (unhindered cf sec opts) ∧ (complete = true -> unhindered cf sec opts = opts) := by
  induction opts generalizing cf opts' with
  | nil =>
      cases added
      exact ⟨(countParams_nil _).symm, fun _ => rfl⟩
  | cons opt opts inductionHypothesis =>
      rcases Option.bind_eq_some_iff.mp added with ⟨found, tested, rest⟩
      rw [unhindered, List.takeWhile_cons]
      cases found with
      | true =>
          cases rest
          rw [tested, if_neg (by decide)]
          exact ⟨(countParams_nil _).symm, fun complete => by cases complete⟩
      | false =>
          rcases Option.bind_eq_some_iff.mp rest with ⟨⟨counted, opt'⟩, accounted, behind⟩
          rcases Option.map_eq_some_iff.mp behind with ⟨⟨last, others, whole⟩, later, same⟩
          cases same
          have sameCb := (account_eq accounted).1
          rcases inductionHypothesis later with ⟨lastEq, allEq⟩
          rw [unhindered, sameCb] at lastEq allEq
          rw [tested, if_pos (by decide)]
          refine ⟨?_, fun complete => by rw [allEq complete]⟩
          rw [lastEq, (account_counts accounted).1, countParams_cons]

/-! ## A block that is not registered -/

/-- Parameters that leave no trace when they are counted. -/
structure LeavesNoTrace (params : List (MetadParam M)) : Prop where
  short : shortTotal params % 2 ^ 32 = 0
  long : longTotal params % 2 ^ 32 = 0
  numbered : forall p, p ∈ params -> p.optLong ≠ none -> p.optShort ≠ 0 ∧ p.optIdx = charInt p.optShort

theorem add_ofNat_eq_self {a : UInt32} {n : Nat} : a + .ofNat n = a <-> n % 2 ^ 32 = 0 := by
  rw [← UInt32.toNat_inj, UInt32.toNat_add, UInt32.toNat_ofNat']
  have bound := UInt32.toNat_lt a
  omega

theorem countParams_eq_self {cf : Mconf M} {params : List (MetadParam M)} :
    countParams cf params = cf <-> shortTotal params % 2 ^ 32 = 0 ∧ longTotal params % 2 ^ 32 = 0 ∧
      longOnlyTotal params = 0 := by
  rw [← add_ofNat_eq_self, ← add_ofNat_eq_self]
  constructor
  · intro same
    exact ⟨congrArg shortLen same, congrArg longCount same,
      Nat.add_eq_left.mp (congrArg longIdx same)⟩
  · rintro ⟨short, long, longOnly⟩
    rw [countParams, short, long, longOnly]
    rfl

theorem longOnlyTotal_eq_zero {params : List (MetadParam M)} :
    longOnlyTotal params = 0 <-> forall p, p ∈ params -> p.optLong ≠ none -> p.optShort ≠ 0 := by
  rw [longOnlyTotal, List.countP_eq_zero]
  simp only [Bool.and_eq_true, Option.isSome_iff_ne_none, decide_eq_true_eq, not_and]

/-- Without long options that need a number, the parameters keep theirs if they have it already. -/
theorem addParams_keeps {cf final : Mconf M} {sec : Option (List Byte)}
    {opts opts' : List (MetadParam M)} {complete : Bool}
    (added : addParams sec cf opts = some (final, opts', complete))
    (both : forall p, p ∈ unhindered cf sec opts -> p.optLong ≠ none -> p.optShort ≠ 0) :
    opts' = opts <-> forall p, p ∈ unhindered cf sec opts -> p.optLong ≠ none ->
      p.optIdx = charInt p.optShort := by
  induction opts generalizing cf opts' with
  | nil =>
      cases added
      exact iff_of_true rfl nofun
  | cons opt opts inductionHypothesis =>
      rcases Option.bind_eq_some_iff.mp added with ⟨found, tested, rest⟩
      rw [unhindered, List.takeWhile_cons, tested] at both ⊢
      cases found with
      | true =>
          cases rest
          exact iff_of_true rfl nofun
      | false =>
          rcases Option.bind_eq_some_iff.mp rest with ⟨⟨counted, opt'⟩, accounted, behind⟩
          rcases Option.map_eq_some_iff.mp behind with ⟨⟨last, others, whole⟩, later, same⟩
          cases same
          rw [if_pos (by decide)] at both ⊢
          rw [List.forall_mem_cons] at both ⊢
          have sameCb := (account_eq accounted).1
          have others := inductionHypothesis later
          rw [unhindered, sameCb] at others
          rw [List.cons.injEq, others both.2]
          refine and_congr_left fun _ => ?_
          rcases account_counts accounted with ⟨_, noLong, withShort⟩
          by_cases long : opt.optLong = none
          · exact iff_of_true (noLong long) fun some => absurd long some
          · rw [withShort long (both.1 long)]
            constructor
            · intro same _
              exact (congrArg MetadParam.optIdx same).symm
            · intro number
              rw [← number long]

theorem shortWidth_le (p : MetadParam M) : (shortWidth p).toNat ≤ 3 := by
  unfold shortWidth
  split
  · decide
  · split <;> decide

theorem shortWidth_eq_zero {p : MetadParam M} : (shortWidth p).toNat = 0 <-> p.optShort = 0 := by
  unfold shortWidth
  split
  · next none => exact iff_of_true rfl none
  · next short => split <;> exact iff_of_false (by decide) short

theorem shortTotal_le (params : List (MetadParam M)) : shortTotal params ≤ 3 * params.length := by
  induction params with
  | nil => exact Nat.le_refl 0
  | cons p params inductionHypothesis =>
      have here := shortWidth_le p
      rw [shortTotal_cons, List.length_cons]
      omega

theorem shortTotal_eq_zero {params : List (MetadParam M)} :
    shortTotal params = 0 <-> forall p, p ∈ params -> p.optShort = 0 := by
  induction params with
  | nil => exact iff_of_true rfl nofun
  | cons p params inductionHypothesis =>
      rw [shortTotal_cons, Nat.add_eq_zero_iff, inductionHypothesis, shortWidth_eq_zero,
        List.forall_mem_cons]

/-- In a block of any size that fits into memory, only parameters without options leave no trace. -/
theorem leavesNoTrace_of_short {params : List (MetadParam M)} (few : params.length < 2 ^ 30) :
    LeavesNoTrace params <-> forall p, p ∈ params -> p.optShort = 0 ∧ p.optLong = none := by
  have bound := shortTotal_le params
  constructor
  · intro traceless p member
    have none : shortTotal params = 0 := by
      have short := traceless.short
      omega
    have here : p.optShort = 0 := shortTotal_eq_zero.mp none p member
    exact ⟨here, not_not.mp fun long => (traceless.numbered p member long).1 here⟩
  · intro without
    have short : shortTotal params = 0 :=
      shortTotal_eq_zero.mpr fun p member => (without p member).1
    have long : longTotal params = 0 := by
      rw [longTotal, List.countP_eq_zero]
      intro p member
      rw [(without p member).2]
      exact Bool.false_ne_true
    exact ⟨by rw [short]; rfl, by rw [long]; rfl,
      fun p member some => absurd (without p member).2 some⟩

/-- A rejected block leaves everything as it was exactly if the parameters in front of
the first conflict leave no trace; in a block of less than 2^30 parameters, these are the ones
without a short or a long option. -/
theorem mconfAdd_rejected_iff {cf final : Mconf M} {sec : Option (List Byte)}
    {opts opts' : List (MetadParam M)} (rejected : cf.mconfAdd sec opts = some (final, opts', -1)) :
    (final = cf ∧ opts' = opts <-> LeavesNoTrace (unhindered cf sec opts)) ∧
      (opts.length < 2 ^ 30 -> (LeavesNoTrace (unhindered cf sec opts) <->
        forall p, p ∈ unhindered cf sec opts -> p.optShort = 0 ∧ p.optLong = none)) := by
  constructor
  · rcases Option.map_eq_some_iff.mp rejected with ⟨⟨last, others, complete⟩, loop, same⟩
    cases complete with
    | true => cases congrArg (fun result => result.2.2) same
    | false =>
        cases same
        rw [(addParams_counts loop).1, countParams_eq_self, longOnlyTotal_eq_zero]
        constructor
        · rintro ⟨⟨short, long, both⟩, kept⟩
          have numbers := (addParams_keeps loop both).mp kept
          exact ⟨short, long, fun p member some => ⟨both p member some, numbers p member some⟩⟩
        · intro traceless
          have both : forall p, p ∈ unhindered cf sec opts -> p.optLong ≠ none -> p.optShort ≠ 0 :=
            fun p member some => (traceless.numbered p member some).1
          exact ⟨⟨traceless.short, traceless.long, both⟩, (addParams_keeps loop both).mpr
            fun p member some => (traceless.numbered p member some).2⟩
  · intro few
    exact leavesNoTrace_of_short
      (Nat.lt_of_le_of_lt (List.takeWhile_sublist _).length_le few)

/-- A parameter with a short option and nothing else. -/
def flagParam (optShort : Byte) (optArgs : MoptArgument) : MetadParam Memory where
  address := optShort.toNat
  optShort := optShort
  optLong := none
  confName := none
  set := mconfSetAval
  ptr := 0
  optArgs := optArgs
  optIdx := 0

/-- What `-a` is registered as. -/
def flagConf : Mconf Memory :=
  { (mconfInit 0 none [] : Mconf Memory) with
    cb := [⟨[flagParam 0x61 .noArgument], none⟩]
    shortLen := 1 }

/-- A parameter that only the file can set stands in front of a conflict, and leaves no trace. -/
theorem mconfAdd_rejected_iff_config_name :
    Exists fun final => Exists fun opts' =>
      twoConf.mconfAdd (some (text "net")) [limitParam, flagParam 0x73 .noArgument] =
          some (final, opts', -1) ∧
        unhindered twoConf (some (text "net")) [limitParam, flagParam 0x73 .noArgument] = [limitParam] ∧
        final = twoConf ∧ opts' = [limitParam, flagParam 0x73 .noArgument] := by
  have rejected : Exists fun final => Exists fun opts' =>
      twoConf.mconfAdd (some (text "net")) [limitParam, flagParam 0x73 .noArgument] =
        some (final, opts', -1) :=
    ⟨_, _, rfl⟩
  have front :
      unhindered twoConf (some (text "net")) [limitParam, flagParam 0x73 .noArgument] = [limitParam] :=
    rfl
  rcases rejected with ⟨final, opts', rejected⟩
  rcases mconfAdd_rejected_iff rejected with ⟨exactly, small⟩
  refine ⟨final, opts', rejected, front, exactly.mpr ((small (by decide)).mpr ?_)⟩
  rw [front]
  intro p member
  rw [List.mem_singleton.mp member]
  exact ⟨rfl, rfl⟩

/-- A conflict in the second parameter comes too late for the first one. -/
theorem mconfAdd_rejected_counts :
    flagConf.mconfAdd none [flagParam 0x62 .noArgument, flagParam 0x61 .noArgument] =
        some ({ flagConf with shortLen := 2 },
          [flagParam 0x62 .noArgument, flagParam 0x61 .noArgument], -1) ∧
      flagConf.shortLen ≠ 2 :=
  ⟨rfl, by decide⟩

/-! ## The tables -/

theorem length_optShort (cf : Mconf M) :
    cf.optShort.length = 2 + (cf.cb.map fun block => shortTotal block.opt).sum := by
  rw [optShort, List.length_cons, List.length_cons, List.length_flatMap, Nat.add_comm 2]
  refine congrArg (fun lengths : List Nat => lengths.sum + 2) (List.map_congr_left fun block _ => ?_)
  rw [List.length_flatMap, shortTotal]
  refine congrArg List.sum (List.map_congr_left fun p _ => ?_)
  unfold shortWidth
  by_cases none : p.optShort = 0
  · rw [if_pos none, if_pos none]
    rfl
  · rw [if_neg none, if_neg none]
    cases p.optArgs <;> rfl

theorem length_optLong (cf : Mconf M) :
    cf.optLong.length = (cf.cb.map fun block => longTotal block.opt).sum := by
  have one (block : MconfBlock M) : (block.opt.filterMap fun p => p.optLong.map fun name =>
      (⟨name, hasArg p.optArgs, p.optIdx⟩ : LongOption)).length = longTotal block.opt := by
    rw [List.length_filterMap_eq_countP, longTotal]
    simp
  rw [optLong, List.length_flatMap]
  simp only [one]

/-- A loop that goes through all parameters leaves their options as they are. -/
theorem addParams_totals {cf final : Mconf M} {sec : Option (List Byte)}
    {opts opts' : List (MetadParam M)} {complete : Bool}
    (added : addParams sec cf opts = some (final, opts', complete)) :
    shortTotal opts' = shortTotal opts ∧ longTotal opts' = longTotal opts := by
  induction opts generalizing cf opts' with
  | nil =>
      cases added
      exact ⟨rfl, rfl⟩
  | cons opt opts inductionHypothesis =>
      rcases Option.bind_eq_some_iff.mp added with ⟨found, _, rest⟩
      split at rest
      · cases rest
        exact ⟨rfl, rfl⟩
      · rcases Option.bind_eq_some_iff.mp rest with ⟨⟨counted, opt'⟩, accounted, behind⟩
        rcases Option.map_eq_some_iff.mp behind with ⟨⟨last, others, whole⟩, later, same⟩
        cases same
        rcases inductionHypothesis later with ⟨short, long⟩
        rw [longTotal, longTotal] at long
        rw [(account_eq accounted).2.2.1, shortTotal_cons, shortTotal_cons, longTotal, longTotal,
          List.countP_cons, List.countP_cons, short, long]
        exact ⟨rfl, rfl⟩

/-- From one configuration to a later one: what was counted, and at most how much was
registered. -/
structure Counts (cf final : Mconf M) (short long : Nat) : Prop where
  shortLen_eq : final.shortLen = cf.shortLen + .ofNat short
  longCount_eq : final.longCount = cf.longCount + .ofNat long
  optShort_le : final.optShort.length ≤ cf.optShort.length + short
  optLong_le : final.optLong.length ≤ cf.optLong.length + long

theorem Counts.refl (cf : Mconf M) : Counts cf cf 0 0 where
  shortLen_eq := (UInt32.add_zero _).symm
  longCount_eq := (UInt32.add_zero _).symm
  optShort_le := Nat.le_refl _
  optLong_le := Nat.le_refl _

theorem Counts.trans {cf middle final : Mconf M} {short long short' long' : Nat}
    (front : Counts cf middle short long) (back : Counts middle final short' long') :
    Counts cf final (short + short') (long + long') where
  shortLen_eq := by rw [back.shortLen_eq, front.shortLen_eq, UInt32.ofNat_add, UInt32.add_assoc]
  longCount_eq := by rw [back.longCount_eq, front.longCount_eq, UInt32.ofNat_add, UInt32.add_assoc]
  optShort_le := by
    have first := front.optShort_le
    have second := back.optShort_le
    omega
  optLong_le := by
    have first := front.optLong_le
    have second := back.optLong_le
    omega

/-- One call of `mconf_add`, accepted or not. -/
theorem addBlock_counts {cf final : Mconf M} {block : MconfBlock M}
    (added : cf.addBlock block = some final) :
    Counts cf final (shortTotal (unhindered cf block.sec block.opt))
      (longTotal (unhindered cf block.sec block.opt)) := by
  rcases Option.map_eq_some_iff.mp added with ⟨⟨last, opts', code⟩, made, same⟩
  rcases Option.map_eq_some_iff.mp made with ⟨⟨middle, others, complete⟩, loop, outcome⟩
  rcases addParams_counts loop with ⟨middleEq, wholeEq⟩
  have sameCb := (addParams_frame loop).1
  cases same
  cases complete with
  | false =>
      cases outcome
      refine ⟨by rw [middleEq]; rfl, by rw [middleEq]; rfl, ?_, ?_⟩
      · rw [length_optShort, length_optShort, sameCb]
        omega
      · rw [length_optLong, length_optLong, sameCb]
        omega
  | true =>
      cases outcome
      rcases addParams_totals loop with ⟨short, long⟩
      refine ⟨by rw [middleEq]; rfl, by rw [middleEq]; rfl, ?_, ?_⟩
      · rw [length_optShort, length_optShort, wholeEq rfl, sameCb]
        simp [short, Nat.add_assoc]
      · rw [length_optLong, length_optLong, wholeEq rfl, sameCb]
        simp [long]

/-- What all calls of `mconf_add` count, each up to its first conflict. -/
def countedBy (total : List (MetadParam M) -> Nat) : Mconf M -> List (MconfBlock M) -> Nat
  | _, [] => 0
  | cf, block :: blocks =>
      total (unhindered cf block.sec block.opt) +
        (cf.addBlock block).elim 0 fun next => countedBy total next blocks

theorem run_counts {cf final : Mconf M} {blocks : List (MconfBlock M)}
    (added : Run.run addBlock cf blocks = some final) :
    Counts cf final (countedBy shortTotal cf blocks) (countedBy longTotal cf blocks) := by
  induction blocks generalizing cf with
  | nil =>
      cases added
      exact .refl _
  | cons block blocks inductionHypothesis =>
      rcases Run.run_cons_eq_some.mp added with ⟨next, step, rest⟩
      rw [countedBy, countedBy, step]
      exact (addBlock_counts step).trans (inductionHypothesis rest)

/-- The tables for `getopt_long` fit into what is allocated for them, whatever was added
and whether it was accepted, as long as the counters have not wrapped around. -/
theorem getopt_tables_fit {address : Nat} {cfgPath : Option (List Byte)} {argv : List (List Byte)}
    {blocks : List (MconfBlock M)} {cf : Mconf M}
    (added : Run.run addBlock (mconfInit address cfgPath argv) blocks = some cf) :
    (countedBy shortTotal (mconfInit address cfgPath argv : Mconf M) blocks + 3 < 2 ^ 32 ->
      cf.optShort.length + 1 ≤ (cf.shortLen + 1 + 2).toNat) ∧
    (countedBy longTotal (mconfInit address cfgPath argv : Mconf M) blocks + 1 < 2 ^ 32 ->
      cf.optLong.length + 1 ≤ (cf.longCount + 1).toNat) := by
  have counts := run_counts added
  have noShort : (mconfInit address cfgPath argv : Mconf M).shortLen = 0 := rfl
  have noLong : (mconfInit address cfgPath argv : Mconf M).longCount = 0 := rfl
  have leading : (mconfInit address cfgPath argv : Mconf M).optShort.length = 2 := rfl
  have empty : (mconfInit address cfgPath argv : Mconf M).optLong.length = 0 := rfl
  have short := counts.optShort_le
  have long := counts.optLong_le
  rw [counts.shortLen_eq, counts.longCount_eq, noShort, noLong, UInt32.zero_add, UInt32.zero_add]
  constructor
  · intro small
    simp only [UInt32.toNat_add, UInt32.toNat_ofNat', UInt32.reduceToNat]
    omega
  · intro small
    simp only [UInt32.toNat_add, UInt32.toNat_ofNat', UInt32.reduceToNat]
    omega

/-- A block that is rejected for its second parameter, when `-v` and `--verbose` have been counted. -/
def refusedBlock : MconfBlock Memory where
  opt := [{ flagParam 0x76 .noArgument with optLong := some (text "verbose") },
    flagParam 0x73 .noArgument]
  sec := none

/-- Between two blocks that are registered, one is rejected. -/
theorem getopt_tables_fit_refused :
    Exists fun cf : Mconf Memory =>
      Run.run addBlock (mconfInit 0 none []) [mainBlock, refusedBlock, logBlock] = some cf ∧
        cf.cb.length = 2 ∧ cf.shortLen = 5 ∧ cf.longCount = 3 ∧
        cf.optShort.length + 1 ≤ (cf.shortLen + 1 + 2).toNat ∧
        cf.optLong.length + 1 ≤ (cf.longCount + 1).toNat := by
  have added : Exists fun cf : Mconf Memory =>
      Run.run addBlock (mconfInit 0 none []) [mainBlock, refusedBlock, logBlock] = some cf ∧
        cf.cb.length = 2 ∧ cf.shortLen = 5 ∧ cf.longCount = 3 :=
    ⟨_, rfl, rfl, rfl, rfl⟩
  rcases added with ⟨cf, added, two, short, long⟩
  rcases getopt_tables_fit added with ⟨shortFits, longFits⟩
  exact ⟨cf, added, two, short, long, shortFits (by decide), longFits (by decide)⟩

/-- A block that is rejected for its second parameter. -/
def rejectedBlock : MconfBlock Memory where
  opt := [flagParam 0x78 .optionalArgument, flagParam 0x61 .noArgument]
  sec := none

theorem run_rejectedBlock (n : Nat) (shortLen : UInt32) :
    Run.run addBlock { flagConf with shortLen := shortLen } (List.replicate n rejectedBlock) =
      some { flagConf with shortLen := shortLen + .ofNat (3 * n) } := by
  induction n generalizing shortLen with
  | zero =>
      have nothing : shortLen + .ofNat (3 * 0) = shortLen := UInt32.add_zero shortLen
      rw [nothing]
      rfl
  | succ n inductionHypothesis =>
      have step : addBlock { flagConf with shortLen := shortLen } rejectedBlock =
          some { flagConf with shortLen := shortLen + 3 } := rfl
      rw [List.replicate_succ, Run.run_cons_eq_some]
      refine ⟨_, step, ?_⟩
      rw [inductionHypothesis, UInt32.add_assoc, Nat.mul_succ, Nat.add_comm (3 * n), UInt32.ofNat_add]
      rfl

/-- After enough rejected calls the string for `getopt_long` is longer than what is allocated. -/
theorem getopt_string_too_long :
    Exists fun cf : Mconf Memory =>
      Run.run addBlock (mconfInit 0 none [])
          (⟨[flagParam 0x61 .noArgument], none⟩ :: List.replicate 1431655765 rejectedBlock) = some cf ∧
        (cf.shortLen + 1 + 2).toNat < cf.optShort.length + 1 := by
  refine ⟨{ flagConf with shortLen := 1 + .ofNat (3 * 1431655765) }, ?_, by decide⟩
  rw [Run.run_cons_eq_some]
  exact ⟨flagConf, rfl, run_rejectedBlock 1431655765 1⟩

end Mconf
end Rfx
