import Rfx.Mconf.Setters

namespace Rfx
namespace Mconf

open RfxLoot (isspace)

/-!
# Numbers as they are written and as they are stored

`mconf_set_aval` and `mconf_set_uint_size` read a number in 64 bits and keep the low
32 bits of it.  Here what is stored is compared with the number as it is written, an
integer of any size with the factor of its suffix.  The test for `ERANGE` finds the
numbers that do not fit a `long`, and nothing finds the others that do not fit the
target, so that the two agree exactly for the numbers below.
-/

/-- The setters of numbers. -/
inductive Numeric
  | aval
  | uintSize
  deriving DecidableEq

def Numeric.set : Numeric -> Setter Memory
  | .aval => mconfSetAval
  | .uintSize => mconfSetUintSize

/-- The number itself. -/
def Number.value (n : Number) : Int :=
  if n.negative then -(n.magnitude : Int) else n.magnitude

/-- A string is a number if the end pointer is moved over it. -/
def IsNumber (v : List Byte) : Prop :=
  (number v).ep ≠ v

instance (v : List Byte) : Decidable (IsNumber v) :=
  inferInstanceAs (Decidable (_ ≠ _))

/-- What a string says, with the suffix of a size. -/
def Numeric.written (v : List Byte) : Numeric -> Int
  | .aval => (number v).value
  | .uintSize => (number v).value * 2 ^ ((sizeShift (number v).ep.head?).getD 0).toNat

/-- The numbers that the type of the target has. -/
def Numeric.Fits (n : Int) : Numeric -> Prop
  | .aval => -2 ^ 31 ≤ n ∧ n < 2 ^ 31
  | .uintSize => 0 ≤ n ∧ n < 2 ^ 32

instance (n : Int) (kind : Numeric) : Decidable (kind.Fits n) := by
  cases kind <;> exact inferInstanceAs (Decidable (_ ∧ _))

/-- What a program reads in the target: an `int` or an `unsigned`. -/
def Numeric.read (w : UInt32) : Numeric -> Int
  | .aval => w.toBitVec.toInt
  | .uintSize => w.toNat

/-- What a call of a setter left in its target, and what it returned, are as the string says. -/
structure Faithful (kind : Numeric) (v : List Byte) (cell : Cell) (code : Int) : Prop where
  stored : code = 0 -> IsNumber v ->
    Exists fun w => cell = .word w ∧ kind.read w = kind.written v
  rejected : IsNumber v -> ¬ kind.Fits (kind.written v) -> code = -1
  auto : kind = .aval -> code = 0 -> cell = .word 0xffffffff ->
    v.map tolower = text "auto" ∨ (IsNumber v ∧ kind.written v = -1)

/-- The strings that are stored as they are written, or rejected. -/
def Numeric.Sound (errno : Int) (v : List Byte) : Numeric -> Prop
  | .aval =>
      Numeric.Fits (number v).value .aval ∨
      (number v).value < longMin ∨ longMax < (number v).value ∨
      ((number v).ep.head?.any fun c => c ≠ 0 && !isspace c) = true ∨
      (errno = erange ∧ ((number v).value = longMin ∨ (number v).value = longMax))
  | .uintSize =>
      sizeShift (number v).ep.head? = none ∨ Numeric.Fits (Numeric.written v .uintSize) .uintSize

/-! ## What is read -/

theorem digits_suffix (base n : Nat) (s : List Byte) : (digits base n s).2 <:+ s := by
  induction s generalizing n with
  | nil => exact List.suffix_rfl
  | cons c s inductionHypothesis =>
      rw [digits]
      split
      · exact (inductionHypothesis _).trans (List.suffix_cons c s)
      · exact List.suffix_rfl

/-- At least one digit is read. -/
theorem length_magnitude {s : List Byte} {read : Nat × List Byte} (found : magnitude s = some read) :
    read.2.length < s.length := by
  cases s with
  | nil => cases found
  | cons c x =>
      rw [magnitude] at found
      have behind : read.2.length ≤ x.length := by
        split at found
        · split at found
          · cases found
            have behindPrefix := (digits_suffix 16 0 (x.drop 1)).length_le
            rw [List.length_drop] at behindPrefix
            omega
          · cases found
            exact (digits_suffix 8 0 x).length_le
        · split at found
          · next first =>
              cases found
              rw [digits, if_pos first]
              exact (digits_suffix 10 _ x).length_le
          · cases found
      rw [List.length_cons]
      omega

/-- What is no number is read as zero. -/
theorem value_of_not_isNumber {v : List Byte} (none : ¬ IsNumber v) : (number v).value = 0 := by
  have unmoved : (number v).ep = v := by
    by_contra moved
    exact none moved
  unfold number at unmoved ⊢
  dsimp only at unmoved ⊢
  split at unmoved
  · rfl
  · next read found =>
      have skipped := (@List.dropWhile_sublist _ v isspace).length_le
      have shorter := length_magnitude found
      have same := congrArg List.length unmoved
      dsimp only at same
      split at shorter
      · rw [List.length_drop] at shorter
        omega
      · omega

theorem isNumber_of_value {v : List Byte} (nonzero : (number v).value ≠ 0) : IsNumber v := by
  by_contra none
  exact nonzero (value_of_not_isNumber none)

theorem tolower_eq_a {c : Byte} (lower : tolower c = 0x61) : c = 0x61 ∨ c = 0x41 := by
  unfold tolower at lower
  split at lower
  · right
    have back := congrArg (· - 0x20) lower
    simpa using back
  · exact Or.inl lower

theorem not_isNumber_of_auto {v : List Byte} (auto : v.map tolower = text "auto") : ¬ IsNumber v := by
  have named : text "auto" = [0x61, 0x75, 0x74, 0x6f] := by decide
  rw [named] at auto
  cases v with
  | nil => cases auto
  | cons c rest =>
      rw [List.map_cons] at auto
      have first : c = 0x61 ∨ c = 0x41 := tolower_eq_a (List.cons.inj auto).1
      have unmoved : (number (c :: rest)).ep = c :: rest := by
        rcases first with lower | upper
        · subst lower
          rfl
        · subst upper
          rfl
      exact fun moved => moved unmoved

/-! ## What is kept of it -/

theorem toBitVec_ofInt (x : Int) : (UInt32.ofInt x).toBitVec = BitVec.ofInt 32 x := by
  have below : (x % 2 ^ 32).toNat < 2 ^ 32 := by omega
  apply BitVec.eq_of_toNat_eq
  rw [UInt32.toNat_toBitVec, UInt32.ofInt, UInt32.toNat_ofNat_of_lt' below, BitVec.toNat_ofInt]
  rfl

/-- An `int` that fits is kept. -/
theorem read_ofInt {x : Int} (fits : Numeric.Fits x .aval) :
    Numeric.read (UInt32.ofInt x) .aval = x := by
  have lower : -2 ^ 31 ≤ x := fits.1
  have upper : x < 2 ^ 31 := fits.2
  rw [Numeric.read, toBitVec_ofInt, BitVec.toInt_ofInt]
  apply Int.bmod_eq_of_le
  · omega
  · omega

theorem toNat_shifted {magnitude : Nat} {shift : UInt64} (small : shift.toNat < 64)
    (fits : magnitude * 2 ^ shift.toNat < 2 ^ 32) :
    (magnitude.toUInt64 <<< shift).toUInt32.toNat = magnitude * 2 ^ shift.toNat := by
  have below : magnitude ≤ magnitude * 2 ^ shift.toNat :=
    Nat.le_mul_of_pos_right magnitude (Nat.two_pow_pos _)
  have inLong : magnitude.toUInt64.toNat = magnitude :=
    UInt64.toNat_ofNat_of_lt' (Nat.lt_of_le_of_lt below (Nat.lt_trans fits (by decide)))
  have shiftedInLong : magnitude * 2 ^ shift.toNat < 2 ^ 64 := by omega
  rw [UInt64.toNat_toUInt32, UInt64.toNat_shiftLeft, Nat.mod_eq_of_lt small, inLong,
    Nat.shiftLeft_eq, Nat.mod_eq_of_lt shiftedInLong, Nat.mod_eq_of_lt fits]

theorem sizeShift_lt (suffix : Option Byte) : ((sizeShift suffix).getD 0).toNat < 64 := by
  unfold sizeShift
  cases suffix with
  | none => decide
  | some c =>
      dsimp only
      split_ifs <;> decide

/-- A size that fits is kept. -/
theorem read_uintSizeOf {v : List Byte} (fits : Numeric.Fits (Numeric.written v .uintSize) .uintSize) :
    Numeric.read (uintSizeOf v) .uintSize = Numeric.written v .uintSize := by
  have small := sizeShift_lt (number v).ep.head?
  unfold uintSizeOf
  simp only [Numeric.written, Numeric.Fits, Numeric.read] at fits ⊢
  generalize (sizeShift (number v).ep.head?).getD 0 = shift at fits small ⊢
  generalize number v = n at fits ⊢
  have positive : (0 : Int) < 2 ^ shift.toNat := Int.pow_pos (by decide)
  have unsigned : n.value = n.magnitude := by
    have notBelow : 0 ≤ n.value := Int.nonneg_of_mul_nonneg_left fits.1 positive
    unfold Number.value at notBelow ⊢
    split
    · next minus =>
        rw [if_pos minus] at notBelow
        omega
    · rfl
  rw [unsigned] at fits ⊢
  have fitsNat : n.magnitude * 2 ^ shift.toNat < 2 ^ 32 := by exact_mod_cast fits.2
  have got : (strtoul n).1 = n.magnitude.toUInt64 := by
    have le : n.magnitude ≤ n.magnitude * 2 ^ shift.toNat :=
      Nat.le_mul_of_pos_right _ (Nat.two_pow_pos _)
    have below : ¬ 2 ^ 64 ≤ n.magnitude := by omega
    rw [strtoul, if_neg below]
    split
    · next minus =>
        have zero : n.magnitude = 0 := by
          rw [Number.value, if_pos minus] at unsigned
          omega
        rw [zero]
        rfl
    · rfl
  rw [got, toNat_shifted small fitsNat]
  push_cast
  rfl

/-- What a setter stores. -/
def Numeric.stored (v : List Byte) : Numeric -> UInt32
  | .aval => avalOf v
  | .uintSize => uintSizeOf v

theorem strtol_of_lt {n : Number} (below : n.value < longMin) : strtol n = (longMin, true) := by
  have notAbove : ¬ longMax < n.value := by
    unfold longMin at below
    unfold longMax
    omega
  rw [Number.value] at below notAbove
  rw [strtol, if_neg notAbove, if_pos below]

theorem strtol_of_gt {n : Number} (above : longMax < n.value) : strtol n = (longMax, true) := by
  rw [Number.value] at above
  rw [strtol, if_pos above]

theorem strtol_of_long {n : Number} (lower : longMin ≤ n.value) (upper : n.value ≤ longMax) :
    strtol n = (n.value, false) := by
  rw [Number.value] at lower upper
  rw [strtol, if_neg (Int.not_lt.mpr upper), if_neg (Int.not_lt.mpr lower), Number.value]

theorem fits_long {x : Int} (fits : Numeric.Fits x .aval) : longMin ≤ x ∧ x ≤ longMax := by
  simp only [Numeric.Fits] at fits
  unfold longMin longMax
  omega

theorem avalOf_of_fits {v : List Byte} (number : IsNumber v)
    (fits : Numeric.Fits (Numeric.written v .aval) .aval) :
    avalOf v = UInt32.ofInt (Numeric.written v .aval) := by
  have inLong := fits_long fits
  rw [avalOf, if_neg fun auto => not_isNumber_of_auto auto number, strtol_of_long inLong.1 inLong.2]
  rfl

/-- Whatever is read has the type of the target. -/
theorem fits_read (kind : Numeric) (w : UInt32) : kind.Fits (kind.read w) := by
  cases kind with
  | aval =>
      constructor
      · exact BitVec.le_toInt w.toBitVec
      · exact BitVec.toInt_lt
  | uintSize =>
      constructor
      · exact Int.natCast_nonneg _
      · have below := w.toNat_lt
        rw [Numeric.read]
        omega

/-- A number is stored as it is written exactly if it fits. -/
theorem read_stored_iff {kind : Numeric} {v : List Byte} (number : IsNumber v) :
    kind.read (kind.stored v) = kind.written v <-> kind.Fits (kind.written v) := by
  constructor
  · intro same
    rw [← same]
    exact fits_read kind _
  · intro fits
    cases kind with
    | aval => rw [Numeric.stored, avalOf_of_fits number fits, read_ofInt fits]
    | uintSize => exact read_uintSizeOf fits

theorem written_of_not_isNumber {v : List Byte} (none : ¬ IsNumber v) (kind : Numeric) :
    kind.written v = 0 := by
  cases kind with
  | aval => exact value_of_not_isNumber none
  | uintSize => rw [Numeric.written, value_of_not_isNumber none, Int.zero_mul]

theorem fits_of_not_isNumber {v : List Byte} (none : ¬ IsNumber v) (kind : Numeric) :
    kind.Fits (kind.written v) := by
  rw [written_of_not_isNumber none kind]
  cases kind <;> decide

/-! ## What the setters do -/

/-- The tests of the setters. -/
def Numeric.Rejects (errno : Int) (v : List Byte) : Numeric -> Prop
  | .aval =>
      v.map tolower ≠ text "auto" ∧
      ((((strtol (number v)).1 = longMin ∨ (strtol (number v)).1 = longMax) ∧
          ((strtol (number v)).2 = true ∨ errno = erange)) ∨
        ((number v).ep.head?.any fun c => c ≠ 0 && !isspace c) = true)
  | .uintSize => sizeShift (number v).ep.head? = none

/-- A setter rejects a string and leaves its target alone, or stores what the string says. -/
theorem set_word (kind : Numeric) {ptr : Nat} (isSet : Bool) (sec : Option (List Byte))
    (v : List Byte) {m : Memory} {old : UInt32} (target : m.cell ptr = .word old) :
    Exists fun next => Exists fun code => kind.set ptr isSet sec (some v) m = some (next, code) ∧
      ((kind.Rejects m.errno v ∧ code = -1 ∧ next.cell ptr = .word old) ∨
        (¬ kind.Rejects m.errno v ∧ code = 0 ∧ next.cell ptr = .word (kind.stored v))) := by
  cases kind with
  | aval =>
      by_cases auto : v.map tolower = text "auto"
      · have accepts : ¬ Numeric.Rejects m.errno v .aval := fun rejects => rejects.1 auto
        refine ⟨m.store ptr (.word 0xffffffff), 0, ?_, Or.inr ⟨accepts, rfl, ?_⟩⟩
        · simp only [Numeric.set, mconfSetAval, target, if_pos auto]
        · rw [Memory.store_same, Numeric.stored, avalOf, if_pos auto]
      · have errno : (m.outOfRange (strtol (number v)).2).errno = erange <->
            (strtol (number v)).2 = true ∨ m.errno = erange := by
          cases (strtol (number v)).2 <;> simp [Memory.outOfRange]
        by_cases rejects : Numeric.Rejects m.errno v .aval
        · refine ⟨m.outOfRange (strtol (number v)).2, -1, ?_, Or.inl ⟨rejects, rfl, ?_⟩⟩
          · simp only [Numeric.set, mconfSetAval, target, if_neg auto, errno]
            rcases rejects.2 with beyond | garbage
            · rw [if_pos beyond]
            · rw [if_pos garbage]
              split <;> rfl
          · rw [Memory.outOfRange_cell, target]
        · have inRange := fun beyond => rejects ⟨auto, Or.inl beyond⟩
          have clean := fun garbage => rejects ⟨auto, Or.inr garbage⟩
          refine ⟨(m.outOfRange (strtol (number v)).2).store ptr
            (.word (UInt32.ofInt (strtol (number v)).1)), 0, ?_, Or.inr ⟨rejects, rfl, ?_⟩⟩
          · simp only [Numeric.set, mconfSetAval, target, if_neg auto, errno, if_neg inRange,
              if_neg clean]
          · rw [Memory.store_same, Numeric.stored, avalOf, if_neg auto]
  | uintSize =>
      cases suffix : sizeShift (number v).ep.head? with
      | none =>
          refine ⟨m.outOfRange (strtoul (number v)).2, -1, ?_, Or.inl ⟨suffix, rfl, ?_⟩⟩
          · simp only [Numeric.set, mconfSetUintSize, target, suffix]
          · rw [Memory.outOfRange_cell, target]
      | some shift =>
          refine ⟨(m.outOfRange (strtoul (number v)).2).store ptr (.word (uintSizeOf v)), 0, ?_,
            Or.inr ⟨?_, rfl, ?_⟩⟩
          · simp only [Numeric.set, mconfSetUintSize, target, suffix, uintSizeOf, Option.getD_some]
          · rw [Numeric.Rejects, suffix]
            exact Option.some_ne_none shift
          · rw [Memory.store_same, Numeric.stored]

/-! ## Which strings are stored as they are written -/

/-- A string that is rejected is none of the strings that have to be stored. -/
theorem faithful_of_rejected (kind : Numeric) (v : List Byte) (cell : Cell) :
    Faithful kind v cell (-1) where
  stored := nofun
  rejected := fun _ _ => rfl
  auto := fun _ accepted => nomatch accepted

/-- A string that is accepted is stored as it is written exactly if it fits. -/
theorem faithful_stored_iff (kind : Numeric) (v : List Byte) :
    Faithful kind v (.word (kind.stored v)) 0 <-> kind.Fits (kind.written v) := by
  constructor
  · intro faithful
    by_cases number : IsNumber v
    · rcases faithful.stored rfl number with ⟨w, here, same⟩
      cases here
      exact (read_stored_iff number).mp same
    · exact fits_of_not_isNumber number kind
  · intro fits
    constructor
    · intro _ number
      exact ⟨_, rfl, (read_stored_iff number).mpr fits⟩
    · intro _ unfit
      exact absurd fits unfit
    · intro isAval _ ones
      subst isAval
      have all : avalOf v = 0xffffffff := Cell.word.inj ones
      by_cases auto : v.map tolower = text "auto"
      · exact Or.inl auto
      · right
        have inLong := fits_long fits
        rw [avalOf, if_neg auto, strtol_of_long inLong.1 inLong.2] at all
        have minus : Numeric.written v .aval = -1 := by
          rw [← read_ofInt fits]
          change Numeric.read (UInt32.ofInt (number v).value) .aval = -1
          rw [all]
          rfl
        refine ⟨isNumber_of_value ?_, minus⟩
        change Numeric.written v .aval ≠ 0
        rw [minus]
        decide

/-- The test for `ERANGE` finds what is out of the range of a `long`, and what is at an end of it
when `errno` is `ERANGE` already. -/
theorem beyond_iff (n : Number) (errno : Int) :
    ((strtol n).1 = longMin ∨ (strtol n).1 = longMax) ∧ ((strtol n).2 = true ∨ errno = erange) <->
      n.value < longMin ∨ longMax < n.value ∨
        (errno = erange ∧ (n.value = longMin ∨ n.value = longMax)) := by
  by_cases below : n.value < longMin
  · simp [strtol_of_lt below, below]
  · by_cases above : longMax < n.value
    · simp [strtol_of_gt above, above]
    · rw [strtol_of_long (Int.not_lt.mp below) (Int.not_lt.mp above)]
      simp [below, above, and_comm]

theorem sound_iff (kind : Numeric) (errno : Int) (v : List Byte) :
    kind.Sound errno v <-> kind.Rejects errno v ∨ kind.Fits (kind.written v) := by
  cases kind with
  | uintSize => exact Iff.rfl
  | aval =>
      simp only [Numeric.Sound, Numeric.Rejects, Numeric.written, beyond_iff]
      by_cases auto : v.map tolower = text "auto"
      · have fits := fits_of_not_isNumber (not_isNumber_of_auto auto) .aval
        exact iff_of_true (Or.inl fits) (Or.inr fits)
      · tauto

/-- A call leaves its target as the string says, or rejects the string, exactly for the strings that are
sound. -/
theorem faithful_iff_sound (kind : Numeric) {ptr : Nat} (isSet : Bool) (sec : Option (List Byte))
    (v : List Byte) {m : Memory} {old : UInt32} (target : m.cell ptr = .word old) :
    (Exists fun next => Exists fun code =>
      kind.set ptr isSet sec (some v) m = some (next, code) ∧ Faithful kind v (next.cell ptr) code) <->
      kind.Sound m.errno v := by
  rw [sound_iff]
  rcases set_word kind isSet sec v target with
    ⟨next, code, called, ⟨rejects, rfl, left⟩ | ⟨accepts, rfl, here⟩⟩
  · refine iff_of_true ⟨next, -1, called, ?_⟩ (Or.inl rejects)
    exact faithful_of_rejected kind v _
  · rw [or_iff_right accepts, ← faithful_stored_iff, ← here]
    constructor
    · rintro ⟨next', code', called', faithful⟩
      rw [called] at called'
      cases called'
      exact faithful
    · intro faithful
      exact ⟨next, 0, called, faithful⟩

/-- The size `16k` is stored as it is written, and the size `4g` is not. -/
theorem faithful_iff_sound_sizes :
    ((Exists fun next => Exists fun code =>
        Numeric.uintSize.set 2 false none (some (text "16k")) freshState.memory = some (next, code) ∧
          Faithful .uintSize (text "16k") (next.cell 2) code) <->
      Numeric.uintSize.Sound 0 (text "16k")) ∧
    Numeric.uintSize.Sound 0 (text "16k") ∧ ¬ Numeric.uintSize.Sound 0 (text "4g") := by
  refine ⟨faithful_iff_sound .uintSize false none (text "16k") rfl, ?_, ?_⟩
  · exact Or.inr (by decide)
  · rintro (unknown | fits)
    · exact absurd unknown (by decide)
    · exact absurd fits (by decide)

/-- 4294967295 is accepted as -1. -/
theorem not_faithful_aval :
    ¬ (forall (kind : Numeric) (ptr : Nat) (isSet : Bool) (sec : Option (List Byte)) (v : List Byte)
        (m : Memory) (old : UInt32), m.cell ptr = .word old ->
        Exists fun next => Exists fun code =>
          kind.set ptr isSet sec (some v) m = some (next, code) ∧
            Faithful kind v (next.cell ptr) code) := by
  intro all
  rcases all .aval 2 false none (text "4294967295") freshState.memory 0 rfl with
    ⟨next, code, called, faithful⟩
  have returned : mconfSetAval 2 false none (some (text "4294967295")) freshState.memory =
      some (freshState.memory.store 2 (.word 0xffffffff), 0) := by
    rfl
  cases called.symm.trans returned
  have unfit : (0 : Int) = -1 := faithful.rejected (by decide) (by decide)
  cases unfit

end Mconf
end Rfx
