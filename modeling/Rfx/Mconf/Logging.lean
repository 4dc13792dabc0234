import Mathlib.Data.List.TakeWhile
import Rfx.Mconf.Atomicity
import Rfx.Mconf.Printers

namespace Rfx
namespace Mconf

open RfxLoot (isspace)

/-!
# Reading back the logging settings

`mconf_get_loglevel` prints the names of the bits that have one, each bit under its first
name, and `mconf_set_loglevel` sets the bits of the names that it reads.  The facility is
printed under its first name as well; of the options only `LOG_PERROR` has a text.
-/

/-! ## The names of a mask -/

/-- The names that are printed for a mask. -/
def namedLevels : List (List Byte × Nat) -> UInt32 -> List (List Byte × Nat)
  | [], _ => []
  | c :: names, mask =>
      let m : UInt32 := 1 <<< c.2.toUInt32
      if mask &&& m = 0 then namedLevels names (mask &&& ~~~m) else c :: namedLevels names (mask &&& ~~~m)

/-- Names with commas between them, behind what has been printed already. -/
def joinNames : List Byte -> List (List Byte × Nat) -> List Byte
  | out, [] => out
  | out, c :: names => joinNames (if out = [] then c.1 else out ++ 0x2c :: c.1) names

/-- The text for a mask. -/
def levelText (mask : UInt32) : List Byte :=
  joinNames [] (namedLevels prioritynames mask)

theorem length_le_joinNames (out : List Byte) (names : List (List Byte × Nat)) :
    out.length ≤ (joinNames out names).length := by
  induction names generalizing out with
  | nil => exact Nat.le_refl _
  | cons c names inductionHypothesis =>
      refine Nat.le_trans ?_ (inductionHypothesis _)
      split
      · rename_i empty
        rw [empty]
        exact Nat.zero_le _
      · rw [List.length_append]
        exact Nat.le_add_right _ _

/-- Behind other names there has to be room for all names and a zero. -/
theorem levelNames_behind {maxlen : Nat} (names : List (List Byte × Nat)) (mask : UInt32)
    {out : List Byte} (behind : out ≠ []) (room : out.length < maxlen) :
    ((levelNames maxlen names mask out).2 = true <->
        (joinNames out (namedLevels names mask)).length < maxlen) ∧
      ((levelNames maxlen names mask out).2 = true ->
        (levelNames maxlen names mask out).1 = joinNames out (namedLevels names mask)) := by
  induction names generalizing mask out with
  | nil => exact ⟨iff_of_true rfl room, fun _ => rfl⟩
  | cons c names inductionHypothesis =>
      rw [levelNames, namedLevels]
      split
      · exact inductionHypothesis _ behind room
      · rw [joinNames, if_neg behind, unsigned_natCast]
        have longer : (out ++ 0x2c :: c.1).length = out.length + c.1.length + 1 := by
          rw [List.length_append, List.length_cons]
          omega
        split
        · rename_i full
          have least := length_le_joinNames (out ++ 0x2c :: c.1)
            (namedLevels names (mask &&& ~~~(1 <<< c.2.toUInt32)))
          refine ⟨iff_of_false Bool.false_ne_true ?_, fun impossible => absurd impossible Bool.false_ne_true⟩
          omega
        · rename_i fits
          exact inductionHypothesis _ (by simp) (by omega)

/-- The room that the names need: the first one needs a byte more than the zero behind it. -/
def levelRoom : List (List Byte × Nat) -> Nat
  | [] => 0
  | [c] => c.1.length + 2
  | c :: names => (joinNames c.1 names).length + 1

theorem levelRoom_cons (c : List Byte × Nat) (names : List (List Byte × Nat)) (some : c.1 ≠ [])
    (maxlen : Nat) : levelRoom (c :: names) ≤ maxlen <->
      c.1.length + 1 < maxlen ∧ (joinNames c.1 names).length < maxlen := by
  cases names with
  | nil =>
      rw [levelRoom, joinNames]
      omega
  | cons d names =>
      have longer := length_le_joinNames (c.1 ++ 0x2c :: d.1) names
      rw [List.length_append, List.length_cons] at longer
      rw [levelRoom, joinNames, if_neg some]
      · omega
      · nofun

theorem levelNames_iff (maxlen : Nat) {names : List (List Byte × Nat)} (mask : UInt32)
    (words : forall c, c ∈ names -> c.1 ≠ []) :
    ((levelNames maxlen names mask []).2 = true <-> levelRoom (namedLevels names mask) ≤ maxlen) ∧
      ((levelNames maxlen names mask []).2 = true ->
        (levelNames maxlen names mask []).1 = joinNames [] (namedLevels names mask)) := by
  induction names generalizing mask with
  | nil => exact ⟨iff_of_true rfl (Nat.zero_le _), fun _ => rfl⟩
  | cons c names inductionHypothesis =>
      rw [levelNames, namedLevels]
      split
      · exact inductionHypothesis _ fun c member => words c (List.mem_cons_of_mem _ member)
      · have first := words c List.mem_cons_self
        rw [levelRoom_cons c _ first, joinNames, if_pos rfl, unsigned_natCast, List.length_nil,
          Nat.zero_add]
        split
        · rename_i full
          refine ⟨iff_of_false Bool.false_ne_true ?_, fun impossible => absurd impossible Bool.false_ne_true⟩
          omega
        · rename_i fits
          have rest := levelNames_behind names (mask &&& ~~~(1 <<< c.2.toUInt32)) first
            (show c.1.length < maxlen by omega)
          refine ⟨rest.1.trans ?_, rest.2⟩
          omega

/-! ## What is set for a text -/

/-- A word of letters and digits. -/
def IsWord (s : List Byte) : Prop :=
  s ≠ [] ∧ forall c, c ∈ s -> isalnum c = true

/-- A word is read up to where it ends. -/
theorem IsWord.takeWhile {s rest : List Byte} (word : IsWord s)
    (ends : forall c, rest.head? = some c -> isalnum c = false) :
    (s ++ rest).takeWhile isalnum = s ∧ (s ++ rest).dropWhile isalnum = rest := by
  cases rest with
  | nil =>
      rw [List.append_nil]
      exact ⟨List.takeWhile_eq_self_iff.mpr word.2, List.dropWhile_eq_nil_iff.mpr word.2⟩
  | cons c rest =>
      have stops : ¬ isalnum c = true := Bool.eq_false_iff.mp (ends c rfl)
      rw [List.takeWhile_append_of_pos word.2, List.takeWhile_cons_of_neg stops,
        List.dropWhile_append_of_pos word.2, List.dropWhile_cons_of_neg stops]
      exact ⟨List.append_nil s, rfl⟩

/-- The names of a table are words, and none of them stands for two codes. -/
def Readable (names : List (List Byte × Nat)) (c : List Byte × Nat) : Prop :=
  IsWord c.1 ∧ names.find? (fun named => named.1 = c.1) = some c

instance (names : List (List Byte × Nat)) (c : List Byte × Nat) : Decidable (Readable names c) :=
  inferInstanceAs (Decidable ((_ ∧ _) ∧ _))

theorem readable_prioritynames : forall c, c ∈ prioritynames -> Readable prioritynames c := by
  decide +kernel

theorem readable_facilitynames : forall c, c ∈ facilitynames -> Readable facilitynames c := by
  decide +kernel

theorem Readable.lookup {names : List (List Byte × Nat)} {c : List Byte × Nat}
    (readable : Readable names c) {rest : List Byte}
    (ends : forall b, rest.head? = some b -> isalnum b = false) :
    lookup names (c.1 ++ rest) = some c.2 := by
  rw [Mconf.lookup, (readable.1.takeWhile ends).1, readable.2]
  rfl

/-- What is printed behind the first name. -/
def commaNames (names : List (List Byte × Nat)) : List Byte :=
  names.flatMap fun c => 0x2c :: c.1

theorem joinNames_eq {out : List Byte} (some : out ≠ []) (names : List (List Byte × Nat)) :
    joinNames out names = out ++ commaNames names := by
  induction names generalizing out with
  | nil => exact (List.append_nil out).symm
  | cons c names inductionHypothesis =>
      have longer : out ++ 0x2c :: c.1 ≠ [] := by simp
      rw [joinNames, if_neg some, inductionHypothesis longer, List.append_assoc]
      rfl

theorem ends_commaNames (names : List (List Byte × Nat)) (c : Byte)
    (first : (commaNames names).head? = some c) : isalnum c = false := by
  cases names with
  | nil => cases first
  | cons d names =>
      cases first
      rfl

/-- Set the bits of a list of names. -/
def setLevels (names : List (List Byte × Nat)) (mask : UInt32) : UInt32 :=
  names.foldl (fun (mask : UInt32) (c : List Byte × Nat) => mask ||| 1 <<< c.2.toUInt32) mask

/-- A name that is read sets its bit. -/
theorem loglevels_name {c : List Byte × Nat} (readable : Readable prioritynames c) {rest : List Byte}
    (ends : forall b, rest.head? = some b -> isalnum b = false) (mask : UInt32) :
    loglevels (c.1 ++ rest) mask =
      loglevels (rest.dropWhile fun b => isspace b || b = 0x2c) (mask ||| 1 <<< c.2.toUInt32) := by
  have word := readable.1.takeWhile ends
  have found := readable.lookup ends
  have letters := readable.1
  generalize c.1 = s at word found letters ⊢
  cases s with
  | nil => exact absurd rfl letters.1
  | cons b s =>
      have noDash : b ≠ 0x2d := by
        rintro rfl
        exact absurd (letters.2 _ List.mem_cons_self) (by decide)
      rw [List.cons_append] at word found ⊢
      rw [loglevels]
      simp only [if_neg noDash, word, found, reduceCtorEq, false_and, dite_false]

theorem not_blank_of_isalnum {c : Byte} (letter : isalnum c = true) :
    ¬ (isspace c || decide (c = 0x2c)) = true := by
  revert c
  apply forall_byte
  decide +kernel

/-- Each name that is read sets its bit. -/
theorem loglevels_names {c : List Byte × Nat} {names : List (List Byte × Nat)}
    (known : forall d, d ∈ c :: names -> d ∈ prioritynames) (mask : UInt32) :
    loglevels (c.1 ++ commaNames names) mask = (setLevels (c :: names) mask, 0) := by
  induction names generalizing c mask with
  | nil =>
      have readable := readable_prioritynames c (known c List.mem_cons_self)
      rw [loglevels_name readable (ends_commaNames [])]
      exact loglevels.eq_1 _
  | cons d names inductionHypothesis =>
      have readable := readable_prioritynames c (known c List.mem_cons_self)
      have later (e : List Byte × Nat) (member : e ∈ d :: names) := known e (List.mem_cons_of_mem _ member)
      have next := (readable_prioritynames d (later d List.mem_cons_self)).1
      have skipped : (commaNames (d :: names)).dropWhile (fun b => isspace b || b = 0x2c) =
          d.1 ++ commaNames names := by
        have split : commaNames (d :: names) = 0x2c :: (d.1 ++ commaNames names) := rfl
        rw [split, List.dropWhile_cons_of_pos (by decide)]
        cases letters : d.1 with
        | nil => exact absurd letters next.1
        | cons b s =>
            have letter := next.2 b (letters ▸ List.mem_cons_self)
            apply List.dropWhile_cons_of_neg
            exact not_blank_of_isalnum letter
      rw [loglevels_name readable (ends_commaNames _), skipped, inductionHypothesis later]
      rfl

/-! ## The bits -/

/-- The bits that have names. -/
def namedBits : UInt32 := 0x100ff

theorem bits_setLevels {names : List (List Byte × Nat)} (small : forall c, c ∈ names -> c.2 < 32)
    (mask : UInt32) (i : Nat) :
    bits (setLevels names mask) i = (bits mask i || names.any fun c => i = c.2) := by
  induction names generalizing mask with
  | nil => exact (Bool.or_false _).symm
  | cons c names inductionHypothesis =>
      have first := bits_store mask (small c List.mem_cons_self) False
      rw [if_neg not_false] at first
      have rest := inductionHypothesis (fun c member => small c (List.mem_cons_of_mem _ member))
        (mask ||| 1 <<< c.2.toUInt32)
      rw [first] at rest
      refine rest.trans ?_
      rw [List.any_cons]
      by_cases here : i = c.2
      · rw [here, Function.update_self]
        simp
      · rw [Function.update_of_ne here, decide_eq_false here, Bool.false_or]

theorem bits_and (one other : UInt32) (i : Nat) : bits (one &&& other) i = (bits one i && bits other i) := by
  rw [bits, UInt32.toBitVec_and, BitVec.getLsbD_and]
  rfl

theorem bits_or (one other : UInt32) (i : Nat) : bits (one ||| other) i = (bits one i || bits other i) := by
  rw [bits, UInt32.toBitVec_or, BitVec.getLsbD_or]
  rfl

theorem and_shift_eq_zero {code : Nat} (small : code < 32) (mask : UInt32) :
    mask &&& 1 <<< code.toUInt32 = 0 <-> bits mask code = false := by
  have bit (i : Nat) : bits (mask &&& 1 <<< code.toUInt32) i = (bits mask i && decide (i = code)) := by
    rw [bits_and, bits_shift small]
  constructor
  · intro zero
    have here := bit code
    rw [zero, decide_eq_true rfl, Bool.and_true] at here
    rw [← here, bits]
    exact BitVec.getLsbD_zero
  · intro unset
    apply bits_injective
    funext i
    rw [bit]
    by_cases here : i = code
    · rw [here, unset, Bool.false_and, bits]
      exact BitVec.getLsbD_zero.symm
    · rw [decide_eq_false here, Bool.and_false, bits]
      exact BitVec.getLsbD_zero.symm

theorem mem_namedLevels {names : List (List Byte × Nat)} {mask : UInt32} {c : List Byte × Nat}
    (member : c ∈ namedLevels names mask) : c ∈ names := by
  induction names generalizing mask with
  | nil => cases member
  | cons d names inductionHypothesis =>
      rw [namedLevels] at member
      split at member
      · exact List.mem_cons_of_mem _ (inductionHypothesis member)
      · rcases List.mem_cons.mp member with here | later
        · exact here ▸ List.mem_cons_self
        · exact List.mem_cons_of_mem _ (inductionHypothesis later)

/-- A bit is printed if it is set and has a name. -/
theorem any_namedLevels {names : List (List Byte × Nat)} (small : forall c, c ∈ names -> c.2 < 32)
    (mask : UInt32) (i : Nat) :
    ((namedLevels names mask).any fun c => i = c.2) = (bits mask i && names.any fun c => i = c.2) := by
  induction names generalizing mask with
  | nil => exact (Bool.and_false _).symm
  | cons c names inductionHypothesis =>
      have first := bits_store mask (small c List.mem_cons_self) True
      rw [if_pos trivial] at first
      have rest := inductionHypothesis (fun c member => small c (List.mem_cons_of_mem _ member))
        (mask &&& ~~~(1 <<< c.2.toUInt32))
      rw [first] at rest
      have small' := small c List.mem_cons_self
      rw [namedLevels, List.any_cons]
      by_cases here : i = c.2
      · rw [here] at rest ⊢
        rw [Function.update_self] at rest
        rw [decide_eq_true rfl, Bool.true_or, Bool.and_true]
        split
        · rename_i zero
          rw [(and_shift_eq_zero small' mask).mp zero]
          exact rest.trans (Bool.false_and _)
        · rename_i set
          rw [List.any_cons, decide_eq_true rfl, Bool.true_or]
          exact (Bool.eq_true_of_not_eq_false fun unset => set ((and_shift_eq_zero small' mask).mpr unset)).symm
      · rw [Function.update_of_ne here] at rest
        rw [decide_eq_false here, Bool.false_or]
        split
        · exact rest
        · rw [List.any_cons, decide_eq_false here, Bool.false_or]
          exact rest

theorem any_prioritynames (i : Nat) : (prioritynames.any fun c => i = c.2) = bits namedBits i := by
  by_cases below : i < 32
  · have all : forall i : Fin 32, (prioritynames.any fun c => i.val = c.2) = bits namedBits i := by
      decide +kernel
    exact all ⟨i, below⟩
  · rw [bits, BitVec.getLsbD_of_ge _ i (Nat.le_of_not_lt below), List.any_eq_false]
    intro c member
    have small : forall c, c ∈ prioritynames -> c.2 < 32 := by decide
    have less := small c member
    rw [decide_eq_true_eq]
    omega

/-- The names that are printed for a mask set its bits that have names. -/
theorem setLevels_namedLevels (mask old : UInt32) :
    setLevels (namedLevels prioritynames mask) old = old ||| mask &&& namedBits := by
  have small : forall c, c ∈ prioritynames -> c.2 < 32 := by decide
  apply bits_injective
  funext i
  rw [bits_setLevels, any_namedLevels small, any_prioritynames, bits_or, bits_and]
  exact fun c member => small c (mem_namedLevels member)

/-! ## Both ways -/

/-- What is printed for a mask sets its named bits. -/
theorem loglevels_levelText (mask old : UInt32) :
    loglevels (levelText mask) old = (old ||| mask &&& namedBits, 0) := by
  have known (c : List Byte × Nat) (member : c ∈ namedLevels prioritynames mask) : c ∈ prioritynames :=
    mem_namedLevels member
  rw [← setLevels_namedLevels, levelText]
  generalize namedLevels prioritynames mask = shown at known ⊢
  cases shown with
  | nil => exact loglevels.eq_1 _
  | cons c names =>
      have some := (readable_prioritynames c (known c List.mem_cons_self)).1.1
      rw [joinNames, if_pos rfl, joinNames_eq some]
      exact loglevels_names known old

/-- The room for the text of a mask. -/
def levelsRoom (mask : UInt32) : Nat :=
  levelRoom (namedLevels prioritynames mask)

/-- A mask of log levels is read back.  What `mconf_get_loglevel` prints for a mask, if there
is room for it, is accepted by `mconf_set_loglevel` for every target, where it sets the bits
of the mask that have names and no others; without the room the printer returns -1. -/
theorem readBack_loglevel (mask : UInt32) (maxlen : Nat) {ptr : Nat} {m : Memory}
    (held : m.cell ptr = .word mask) :
    Exists fun printed => mconfGetLoglevel ptr maxlen m = some printed ∧
      (maxlen < levelsRoom mask -> printed.l = -1) ∧
      (levelsRoom mask ≤ maxlen -> printed.l = (levelText mask).length ∧
        forall (target : Nat) (isSet : Bool) (sec : Option (List Byte)) (m' : Memory) (old : UInt32),
          m'.cell target = .word old ->
          Exists fun next =>
            mconfSetLoglevel target isSet sec (some (printed.buf.take printed.l.toNat)) m' =
                some (next, 0) ∧
              next.cell target = .word (old ||| mask &&& namedBits)) := by
  have words : forall c, c ∈ prioritynames -> c.1 ≠ [] := fun c member => (readable_prioritynames c member).1.1
  rcases levelNames_iff maxlen mask words with ⟨room, whole⟩
  have called : Exists fun printed => mconfGetLoglevel ptr maxlen m = some printed ∧
      printed.buf = (if (levelNames maxlen prioritynames mask []).1 = [] then []
        else (levelNames maxlen prioritynames mask []).1 ++ [0]) ∧
      printed.l = if (levelNames maxlen prioritynames mask []).2
        then ((levelNames maxlen prioritynames mask []).1.length : Int) else -1 := by
    rw [mconfGetLoglevel, held]
    exact ⟨_, rfl, rfl, rfl⟩
  rcases called with ⟨printed, called, buf, length⟩
  refine ⟨printed, called, ?_, ?_⟩
  · intro tight
    rw [length]
    exact if_neg fun fits => Nat.not_le.mpr tight (room.mp fits)
  · intro enough
    have fits := room.mpr enough
    have named : (levelNames maxlen prioritynames mask []).1 = levelText mask := whole fits
    rw [named] at buf length
    rw [if_pos fits] at length
    refine ⟨length, ?_⟩
    intro target isSet sec m' old here
    have shown : printed.buf.take printed.l.toNat = levelText mask := by
      rw [buf, length, Int.toNat_natCast]
      split
      · rename_i none
        rw [none]
        rfl
      · exact List.take_left
    refine ⟨m'.store target (.word (old ||| mask &&& namedBits)), ?_, m'.store_same target _⟩
    have sets := loglevels_levelText mask old
    rw [shown]
    simp only [mconfSetLoglevel, here, sets]

/-- The names of the levels 1 and 7, with a bit that has none. -/
theorem readBack_loglevel_two :
    Exists fun printed =>
      mconfGetLoglevel 2 12 (freshState.memory.store 2 (.word 0x882)) = some printed ∧ printed.l = 11 ∧
        Exists fun next =>
          mconfSetLoglevel 5 false none (some (printed.buf.take printed.l.toNat)) freshState.memory =
              some (next, 0) ∧
            next.cell 5 = .word 0x82 := by
  rcases readBack_loglevel 0x882 12 (freshState.memory.store_same 2 (.word 0x882)) with
    ⟨printed, called, -, enough⟩
  rcases enough (by decide +kernel) with ⟨length, reads⟩
  rcases reads 5 false none freshState.memory 0 rfl with ⟨next, set, stored⟩
  exact ⟨printed, called, length.trans (by decide +kernel), next, set, stored.trans (by decide +kernel)⟩

/-! ## The facility -/

/-- The name of a facility, if it has one. -/
def facilityName (facility : Int) : Option (List Byte × Nat) :=
  facilitynames.find? fun c => facility = c.2

theorem facilityName_some {facility : Int} {c : List Byte × Nat} (named : facilityName facility = some c) :
    Readable facilitynames c ∧ facility = c.2 := by
  rw [facilityName] at named
  have same := List.find?_some named
  exact ⟨readable_facilitynames c (List.mem_of_find?_eq_some named), of_decide_eq_true same⟩

/-- The text for a facility and options. -/
def logoptsText (facility opts : Int) : List Byte :=
  ((facilityName facility).map Prod.fst).getD [] ++
    if opts / logPerror % 2 = 0 then [] else text "(stderr)"

/-- Nothing needs no room, and otherwise there is a zero behind the text. -/
def textRoom (s : List Byte) : Nat :=
  if s = [] then 0 else s.length + 1

/-- What `printStderr` adds, or that there is no room for it. -/
theorem printStderr_eq {maxlen : Nat} (opts : Int) {facility buf : List Byte}
    (written : facility.length ≤ buf.length) (same : buf.take facility.length = facility)
    (room : facility = [] ∨ facility.length < maxlen) {all : List Byte}
    (whole : all = facility ++ if opts / logPerror % 2 = 0 then [] else text "(stderr)") :
    (maxlen < textRoom all -> (printStderr maxlen opts facility buf written).l = -1) ∧
      (textRoom all ≤ maxlen -> (printStderr maxlen opts facility buf written).l = all.length ∧
        (printStderr maxlen opts facility buf written).buf.take all.length = all) := by
  rw [printStderr, textRoom]
  by_cases plain : opts / logPerror % 2 = 0
  · rw [if_pos plain, List.append_nil] at whole
    rw [if_pos plain, whole]
    refine ⟨fun tight => ?_, fun _ => ⟨rfl, same⟩⟩
    rcases room with empty | fits
    · rw [if_pos empty] at tight
      cases tight
    · split at tight <;> omega
  · have eight : (text "(stderr)").length = 8 := rfl
    rw [if_neg plain] at whole
    have size : all.length = facility.length + 8 := by
      rw [whole, List.length_append, eight]
    have some : all ≠ [] := by
      rintro rfl
      cases size
    rw [if_neg plain, if_neg some, unsigned_natCast, size]
    by_cases full : maxlen ≤ facility.length + 8
    · rw [if_pos full]
      exact ⟨fun _ => rfl, fun enough => by omega⟩
    · rw [if_neg full]
      refine ⟨fun tight => by omega, fun _ => ?_⟩
      rw [← size, whole]
      exact ⟨rfl, List.take_left⟩

/-- The printer prints the text, or returns -1 if there is no room for it. -/
theorem printer_logopts (facility opts : Int) (maxlen : Nat) {ptr : Nat} {m : Memory}
    (held : m.cell ptr = .logopts facility opts) :
    Exists fun printed => mconfGetLogopts ptr maxlen m = some printed ∧
      (maxlen < textRoom (logoptsText facility opts) -> printed.l = -1) ∧
      (textRoom (logoptsText facility opts) ≤ maxlen ->
        printed.l = (logoptsText facility opts).length ∧
          printed.buf.take (logoptsText facility opts).length = logoptsText facility opts) := by
  refine ⟨_, by rw [mconfGetLogopts, held], ?_⟩
  have whole : logoptsText facility opts = _ := rfl
  conv at whole => rhs; rw [logoptsText, facilityName]
  cases found : facilitynames.find? fun c => facility = c.2 with
  | none =>
      rw [found] at whole
      exact @printStderr_eq maxlen opts [] [] (Nat.le_refl 0) rfl (Or.inl rfl) _ whole
  | some c =>
      rw [found] at whole
      by_cases tight : maxlen ≤ c.1.length
      · have longer : c.1.length ≤ (logoptsText facility opts).length := by
          rw [whole]
          exact (List.prefix_append c.1 _).length_le
        have first := (facilityName_some found).1.1.1
        have some : logoptsText facility opts ≠ [] := by
          intro none
          rw [none] at longer
          exact first (List.eq_nil_of_length_eq_zero (Nat.le_zero.mp longer))
        have full : (maxlen : Int) ≤ c.1.length := Int.ofNat_le.mpr tight
        rw [textRoom, if_neg some]
        simp only [if_pos full]
        exact ⟨fun _ => trivial, fun enough => by omega⟩
      · have fits : ¬ (maxlen : Int) ≤ c.1.length := by omega
        simp only [if_neg fits]
        exact printStderr_eq opts _ List.take_left (Or.inr (by omega)) whole

/-- The facility is behind the text that is read for it. -/
theorem lookup_logoptsText (facility opts : Int) :
    lookup facilitynames (logoptsText facility opts) = (facilityName facility).map Prod.snd := by
  rw [logoptsText]
  cases named : facilityName facility with
  | none =>
      split
      · rfl
      · rfl
  | some c =>
      refine (facilityName_some named).1.lookup ?_
      intro b first
      split at first
      · cases first
      · cases first
        rfl

/-- Only the options have a bracket in their text. -/
theorem stderr_infix_logoptsText (facility opts : Int) :
    text "(stderr)" <:+: logoptsText facility opts <-> ¬ opts / logPerror % 2 = 0 := by
  rw [logoptsText]
  constructor
  · intro contained plain
    rw [if_pos plain, List.append_nil] at contained
    have bracket := contained.subset (List.mem_cons_self : (0x28 : Byte) ∈ text "(stderr)")
    cases named : facilityName facility with
    | none =>
        rw [named] at bracket
        cases bracket
    | some c =>
        rw [named] at bracket
        have word := (facilityName_some named).1.1
        exact absurd (word.2 _ bracket) (by decide)
  · intro set
    rw [if_neg set]
    exact (List.suffix_append _ _).isInfix

/-- The options that are read back: `LOG_PERROR` or nothing. -/
def stderrOption (opts : Int) : Int :=
  if opts / logPerror % 2 = 0 then 0 else logPerror

/-- Logging options are read back.  What `mconf_get_logopts` prints, if there is room for it,
makes `mconf_set_logopts` restore the facility and `LOG_PERROR` in every target, whatever it
held, if the facility has a name; without a name the setter clears its target and returns -1.
Without the room the printer returns -1. -/
theorem readBack_logopts (facility opts : Int) (maxlen : Nat) {ptr : Nat} {m : Memory}
    (held : m.cell ptr = .logopts facility opts) :
    Exists fun printed => mconfGetLogopts ptr maxlen m = some printed ∧
      (maxlen < textRoom (logoptsText facility opts) -> printed.l = -1) ∧
      (textRoom (logoptsText facility opts) ≤ maxlen ->
        printed.l = (logoptsText facility opts).length ∧
          forall (target : Nat) (isSet : Bool) (sec : Option (List Byte)) (m' : Memory) (f o : Int),
            m'.cell target = .logopts f o ->
            Exists fun next => Exists fun code =>
              mconfSetLogopts target isSet sec (some (printed.buf.take printed.l.toNat)) m' =
                  some (next, code) ∧
                code = (if (facilityName facility).isSome then 0 else -1) ∧
                next.cell target =
                  if (facilityName facility).isSome then .logopts facility (stderrOption opts)
                  else .logopts 0 0) := by
  rcases printer_logopts facility opts maxlen held with ⟨printed, called, tight, enough⟩
  refine ⟨printed, called, tight, fun room => ?_⟩
  rcases enough room with ⟨length, shown⟩
  refine ⟨length, ?_⟩
  intro target isSet sec m' f o here
  have read := lookup_logoptsText facility opts
  rw [length, Int.toNat_natCast, shown]
  simp only [mconfSetLogopts, here, read]
  cases named : facilityName facility with
  | none => exact ⟨_, _, rfl, rfl, m'.store_same target _⟩
  | some c =>
      have same := (facilityName_some named).2
      have options : (if text "(stderr)" <:+: logoptsText facility opts then logPerror else 0) =
          stderrOption opts := by
        rw [stderrOption]
        by_cases plain : opts / logPerror % 2 = 0
        · rw [if_pos plain, if_neg fun contained => (stderr_infix_logoptsText facility opts).mp contained plain]
        · rw [if_neg plain, if_pos ((stderr_infix_logoptsText facility opts).mpr plain)]
      refine ⟨_, _, rfl, rfl, ?_⟩
      rw [options, ← same]
      exact m'.store_same target _

/-- `security` is printed under its first name. -/
theorem readBack_logopts_auth :
    Exists fun printed =>
      mconfGetLogopts 3 13 (freshState.memory.store 3 (.logopts 32 0x21)) = some printed ∧
        printed.l = 12 ∧
        Exists fun next => Exists fun code =>
          mconfSetLogopts 3 false none (some (printed.buf.take printed.l.toNat))
              (freshState.memory.store 3 (.logopts 8 0)) = some (next, code) ∧
            code = 0 ∧ next.cell 3 = .logopts 32 0x20 := by
  rcases readBack_logopts 32 0x21 13 (freshState.memory.store_same 3 (.logopts 32 0x21)) with
    ⟨printed, called, -, enough⟩
  rcases enough (by decide) with ⟨length, reads⟩
  rcases reads 3 false none _ 8 0 (freshState.memory.store_same 3 (.logopts 8 0)) with
    ⟨next, code, set, accepted, stored⟩
  exact ⟨printed, called, length, next, code, set, accepted, stored⟩

end Mconf
end Rfx
