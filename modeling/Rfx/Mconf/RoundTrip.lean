import Rfx.Mconf.Numbers
import Rfx.Mconf.Printers

namespace Rfx
namespace Mconf

open RfxLoot (decimal isspace)

/-!
# Numbers as they are printed and read again

Whatever 32 bits a target holds, `mconf_get_aval` and `mconf_get_uint_size` print a text
that the setter of the same parameter reads as these 32 bits.  The suffix of a size is
the largest one that leaves no remainder, zero is printed with a suffix too, and the
value -1 of an `int` is printed as `auto`, and every other negative one as the unsigned
number that has the same bits.
-/

/-! ## Decimal digits are read back -/

theorem digits_behind {base a k : Nat} {s : List Byte} (read : digits base a s = (k, []))
    (t : List Byte) : digits base a (s ++ t) = digits base k t := by
  induction s generalizing a with
  | nil =>
      cases read
      rfl
  | cons c s inductionHypothesis =>
      rw [digits] at read
      split at read
      · next isDigit =>
          rw [List.cons_append, digits, if_pos isDigit]
          exact inductionHypothesis read
      · cases read

/-- Reading ends in front of what is no digit. -/
theorem digits_stop {base : Nat} {t : List Byte} (stop : forall c, t.head? = some c -> base ≤ digit c)
    (n : Nat) : digits base n t = (n, t) := by
  cases t with
  | nil => rfl
  | cons c t => rw [digits, if_neg (Nat.not_lt.mpr (stop c rfl))]

theorem decimal_of_lt {n : Nat} (single : n < 10) : decimal n = [n.digitChar.toNat.toUInt8] := by
  rw [decimal, Nat.toDigits_of_lt_base single]
  rfl

theorem decimal_of_le {n : Nat} (longer : 10 ≤ n) :
    decimal n = decimal (n / 10) ++ decimal (n % 10) := by
  rw [decimal, decimal, decimal, Nat.toDigits_of_base_le (by decide) longer,
    Nat.toDigits_of_lt_base (Nat.mod_lt n (by decide)), List.map_append]

theorem decimal_ne_nil (n : Nat) : decimal n ≠ [] := by
  unfold decimal
  intro empty
  exact Nat.toDigits_ne_nil (List.map_eq_nil_iff.mp empty)

theorem digit_digitChar {n : Nat} (single : n < 10) : digit n.digitChar.toNat.toUInt8 = n := by
  have all : forall n : Fin 10, digit n.val.digitChar.toNat.toUInt8 = n.val := by decide
  exact all ⟨n, single⟩

theorem digits_decimal (n : Nat) : digits 10 0 (decimal n) = (n, []) := by
  induction n using Nat.strongRecOn with
  | ind n inductionHypothesis =>
      by_cases single : n < 10
      · rw [decimal_of_lt single, digits, digit_digitChar single, if_pos single, digits]
        simp
      · have longer := Nat.le_of_not_lt single
        have last : n % 10 < 10 := Nat.mod_lt n (by decide)
        have shorter : n / 10 < n := by omega
        rw [decimal_of_le longer, digits_behind (inductionHypothesis _ shorter), decimal_of_lt last,
          digits, digit_digitChar last, if_pos last, digits]
        congr 1
        omega

/-- The first digit of a positive number. -/
theorem head_decimal {n : Nat} (positive : 0 < n) :
    Exists fun c => Exists fun rest => decimal n = c :: rest ∧ 0x31 ≤ c ∧ c ≤ 0x39 := by
  induction n using Nat.strongRecOn with
  | ind n inductionHypothesis =>
      by_cases single : n < 10
      · have all : forall n : Fin 10, 0 < n.val ->
            0x31 ≤ n.val.digitChar.toNat.toUInt8 ∧ n.val.digitChar.toNat.toUInt8 ≤ 0x39 := by decide
        exact ⟨_, [], decimal_of_lt single, all ⟨n, single⟩ positive⟩
      · have shorter : n / 10 < n := by omega
        rcases inductionHypothesis _ shorter (by omega) with ⟨c, rest, first, range⟩
        refine ⟨c, rest ++ decimal (n % 10), ?_, range⟩
        rw [decimal_of_le (Nat.le_of_not_lt single), first, List.cons_append]

/-- What stands behind a number does not belong to it. -/
def Ends (t : List Byte) : Prop :=
  forall c, t.head? = some c -> 10 ≤ digit c ∧ c ≠ 0x78 ∧ c ≠ 0x58

theorem magnitude_decimal (n : Nat) {t : List Byte} (ends : Ends t) :
    magnitude (decimal n ++ t) = some (n, t) := by
  by_cases zero : n = 0
  · subst zero
    have notHex : ¬ (t.head? = some 0x78 ∨ t.head? = some 0x58) := by
      rintro (lower | upper)
      · exact (ends _ lower).2.1 rfl
      · exact (ends _ upper).2.2 rfl
    have octal : digits 8 0 t = (0, t) :=
      digits_stop (fun c first => Nat.le_trans (by decide) (ends c first).1) 0
    change magnitude (0x30 :: t) = _
    rw [magnitude, if_pos rfl, if_neg fun hex => notHex hex.1, octal]
  · rcases head_decimal (Nat.pos_of_ne_zero zero) with ⟨c, rest, first, lower, upper⟩
    have nonzero : c ≠ 0x30 := by
      intro same
      subst same
      exact absurd lower (by decide)
    have isDigit : digit c < 10 := by
      have inRange : 0x30 ≤ c ∧ c ≤ 0x39 := ⟨UInt8.le_trans (by decide) lower, upper⟩
      rw [digit, if_pos inRange]
      have below := UInt8.le_iff_toNat_le.mp upper
      change c.toNat ≤ 0x39 at below
      omega
    have read : digits 10 0 (decimal n ++ t) = (n, t) := by
      rw [digits_behind (digits_decimal n)]
      exact digits_stop (fun c first => (ends c first).1) n
    rw [first, List.cons_append] at read ⊢
    rw [magnitude, if_neg nonzero, if_pos isDigit, read]

theorem number_decimal (n : Nat) {t : List Byte} (ends : Ends t) :
    number (decimal n ++ t) = ⟨false, n, t⟩ := by
  have first : Exists fun c => Exists fun rest => decimal n = c :: rest ∧ 0x30 ≤ c ∧ c ≤ 0x39 := by
    by_cases zero : n = 0
    · subst zero
      exact ⟨0x30, [], rfl, by decide, by decide⟩
    · rcases head_decimal (Nat.pos_of_ne_zero zero) with ⟨c, rest, first, lower, upper⟩
      exact ⟨c, rest, first, UInt8.le_trans (by decide) lower, upper⟩
  rcases first with ⟨c, rest, first, range⟩
  have plain : isspace c = false ∧ c ≠ 0x2d ∧ c ≠ 0x2b := by
    clear first
    revert c
    apply forall_byte
    decide +kernel
  have skipped : (decimal n ++ t).dropWhile isspace = decimal n ++ t := by
    rw [first, List.cons_append, List.dropWhile_cons_of_neg (by rw [plain.1]; decide)]
  have head : (decimal n ++ t).head? = some c := by rw [first]; rfl
  have unsigned : ¬ ((decimal n ++ t).head? = some 0x2d ∨ (decimal n ++ t).head? = some 0x2b) := by
    rw [head]
    simpa using plain.2
  rw [number]
  simp only [skipped, if_neg unsigned, magnitude_decimal n ends]
  rw [head]
  simp [plain.2.1]

theorem ends_nil : Ends [] :=
  nofun

theorem ends_singleton {c : Byte} (stop : 10 ≤ digit c ∧ c ≠ 0x78 ∧ c ≠ 0x58) : Ends [c] := by
  rintro _ ⟨⟩
  exact stop

/-! ## What is printed is read back -/

/-- The text of the 32 bits of a target. -/
def Numeric.shown (v : UInt32) : Numeric -> List Byte
  | .aval => if v = 0xffffffff then text "auto" else decimal v.toNat
  | .uintSize => sizeText v

/-- A multiple of the factor of a suffix is read back. -/
theorem uintSizeOf_decimal {v : UInt32} {suffix : List Byte} {shift : UInt64} (ends : Ends suffix)
    (known : sizeShift suffix.head? = some shift) (exact : v.toNat % 2 ^ shift.toNat = 0) :
    uintSizeOf (decimal (v.toNat / 2 ^ shift.toNat) ++ suffix) = v := by
  have back : v.toNat / 2 ^ shift.toNat * 2 ^ shift.toNat = v.toNat :=
    Nat.div_mul_cancel (Nat.dvd_of_mod_eq_zero exact)
  have written :
      Numeric.written (decimal (v.toNat / 2 ^ shift.toNat) ++ suffix) .uintSize = v.toNat := by
    rw [Numeric.written, number_decimal _ ends]
    simp only [known, Option.getD_some, Number.value, Bool.false_eq_true, if_false]
    exact_mod_cast back
  have fits : Numeric.Fits (Numeric.written (decimal (v.toNat / 2 ^ shift.toNat) ++ suffix) .uintSize)
      .uintSize := by
    rw [written]
    exact fits_read .uintSize v
  have same := read_uintSizeOf fits
  rw [written, Numeric.read] at same
  exact UInt32.toNat_inj.mp (Int.ofNat_inj.mp same)

/-- The low bits of a word are its remainder. -/
theorem mod_of_and {v : UInt32} {k : Nat} {mask : UInt32} (low : mask.toNat = 2 ^ k - 1)
    (zero : v &&& mask = 0) : v.toNat % 2 ^ k = 0 := by
  have bits := congrArg UInt32.toNat zero
  rw [UInt32.toNat_and, low, Nat.and_two_pow_sub_one_eq_mod] at bits
  exact bits

theorem toNat_shiftRight {v shift : UInt32} (small : shift.toNat < 32) :
    (v >>> shift).toNat = v.toNat / 2 ^ shift.toNat := by
  rw [UInt32.toNat_shiftRight, Nat.mod_eq_of_lt small, Nat.shiftRight_eq_div_pow]

/-- The number in front of the suffix of a size, and the suffix. -/
theorem sizeText_cases (v : UInt32) :
    Exists fun suffix => Exists fun shift : UInt64 => Ends suffix ∧
      sizeShift suffix.head? = some shift ∧ v.toNat % 2 ^ shift.toNat = 0 ∧
      sizeText v = decimal (v.toNat / 2 ^ shift.toNat) ++ suffix := by
  unfold sizeText
  split
  · next zero =>
      refine ⟨text "g", 30, ends_singleton (by decide), by decide, mod_of_and (by decide) zero, ?_⟩
      rw [toNat_shiftRight (by decide)]
      rfl
  · split
    · next zero =>
        refine ⟨text "m", 20, ends_singleton (by decide), by decide, mod_of_and (by decide) zero, ?_⟩
        rw [toNat_shiftRight (by decide)]
        rfl
    · split
      · next zero =>
          refine ⟨text "k", 10, ends_singleton (by decide), by decide, mod_of_and (by decide) zero, ?_⟩
          rw [toNat_shiftRight (by decide)]
          rfl
      · refine ⟨[], 0, ends_nil, rfl, Nat.mod_one _, ?_⟩
        rw [List.append_nil]
        change _ = decimal (v.toNat / 1)
        rw [Nat.div_one]

/-- The setters find nothing wrong with a text that is printed, and read the same bits. -/
theorem shown_accepted (kind : Numeric) (errno : Int) (v : UInt32) :
    ¬ kind.Rejects errno (kind.shown v) ∧ kind.stored (kind.shown v) = v := by
  cases kind with
  | aval =>
      by_cases ones : v = 0xffffffff
      · subst ones
        constructor
        · exact fun rejects => rejects.1 rfl
        · rfl
      · have shown : Numeric.shown v .aval = decimal v.toNat := if_neg ones
        have got := number_decimal v.toNat ends_nil
        rw [List.append_nil] at got
        have notAuto : (decimal v.toNat).map tolower ≠ text "auto" := by
          intro auto
          apply not_isNumber_of_auto auto
          rw [IsNumber, got]
          exact (decimal_ne_nil v.toNat).symm
        have below := v.toNat_lt
        have value : (⟨false, v.toNat, []⟩ : Number).value = v.toNat := rfl
        have read : strtol ⟨false, v.toNat, []⟩ = ((v.toNat : Int), false) := by
          apply strtol_of_long
          · rw [value, longMin]
            omega
          · rw [value, longMax]
            omega
        rw [shown]
        constructor
        · rw [Numeric.Rejects, got, read]
          rintro ⟨-, ⟨atEnd, -⟩ | garbage⟩
          · unfold longMin longMax at atEnd
            omega
          · cases garbage
        · rw [Numeric.stored, avalOf, if_neg notAuto, got, read]
          have kept : (((v.toNat : Nat) : Int) % 2 ^ 32).toNat = v.toNat := by omega
          rw [UInt32.ofInt, kept, UInt32.ofNat_toNat]
  | uintSize =>
      rcases sizeText_cases v with ⟨suffix, shift, ends, known, exact, shown⟩
      rw [Numeric.shown, shown]
      constructor
      · rw [Numeric.Rejects, number_decimal _ ends, known]
        exact Option.some_ne_none shift
      · exact uintSizeOf_decimal ends known exact

/-! ## The whole way -/

def Numeric.printer : Numeric -> Printer Memory
  | .aval => mconfGetAval
  | .uintSize => mconfGetUintSize

/-- The room that a text needs, with a zero behind it where `snprintf` prints it. -/
def Numeric.room (v : UInt32) (kind : Numeric) : Nat :=
  if kind = .aval ∧ v = 0xffffffff then 4 else (kind.shown v).length + 1

theorem printText_of_lt {maxlen : Nat} {s : List Byte} (room : s.length < maxlen) :
    (printText maxlen s).l = s.length ∧ (printText maxlen s).buf.take s.length = s := by
  constructor
  · exact if_pos (Int.ofNat_lt.mpr room)
  · cases maxlen with
    | zero => cases room
    | succ size =>
        change (snprintf ((size + 1 : Nat) : Int) s).take s.length = s
        rw [snprintf, unsigned_natCast]
        dsimp only
        rw [List.take_of_length_le (Nat.le_of_lt_succ room), List.take_left]

theorem printText_of_le {maxlen : Nat} {s : List Byte} (tight : maxlen ≤ s.length) :
    (printText maxlen s).l = -1 :=
  if_neg (by omega)

/-- The printers print the text, or return -1 if there is no room for it. -/
theorem printer_word (kind : Numeric) (v : UInt32) (maxlen : Nat) {ptr : Nat} {m : Memory}
    (held : m.cell ptr = .word v) :
    Exists fun printed => kind.printer ptr maxlen m = some printed ∧
      (maxlen < kind.room v -> printed.l = -1) ∧
      (kind.room v ≤ maxlen -> printed.l = (kind.shown v).length ∧
        printed.buf.take (kind.shown v).length = kind.shown v) := by
  by_cases auto : kind = .aval ∧ v = 0xffffffff
  · rcases auto with ⟨rfl, rfl⟩
    have room : Numeric.room 0xffffffff .aval = 4 := rfl
    rw [room]
    by_cases tight : maxlen < 4
    · refine ⟨⟨[], -1, by decide⟩, ?_, fun _ => rfl, fun enough => absurd tight (by omega)⟩
      rw [Numeric.printer, mconfGetAval, held]
      simp only [if_true, unsigned_natCast, if_pos tight]
    · refine ⟨⟨text "auto", 4, by decide⟩, ?_, fun less => absurd less tight, fun _ => ⟨rfl, rfl⟩⟩
      rw [Numeric.printer, mconfGetAval, held]
      simp only [if_true, unsigned_natCast, if_neg tight]
  · have room : kind.room v = (kind.shown v).length + 1 := if_neg auto
    have called : kind.printer ptr maxlen m = some (printText maxlen (kind.shown v)) := by
      cases kind with
      | aval =>
          have notOnes : v ≠ 0xffffffff := fun ones => auto ⟨rfl, ones⟩
          rw [Numeric.printer, mconfGetAval, held]
          simp only [if_neg notOnes, Numeric.shown]
      | uintSize =>
          rw [Numeric.printer, mconfGetUintSize, held]
          rfl
    refine ⟨_, called, ?_, ?_⟩
    · intro tight
      exact printText_of_le (by omega)
    · intro enough
      exact printText_of_lt (by omega)

/-- What is printed for a target is read back into any other one, and no number is cut off. -/
theorem readBack_printed (kind : Numeric) (v : UInt32) (maxlen : Nat) {ptr : Nat} {m : Memory}
    (held : m.cell ptr = .word v) :
    Exists fun printed => kind.printer ptr maxlen m = some printed ∧
      (maxlen < kind.room v -> printed.l = -1) ∧
      (kind.room v ≤ maxlen -> printed.l = (kind.shown v).length ∧
        forall (target : Nat) (isSet : Bool) (sec : Option (List Byte)) (m' : Memory) (old : UInt32),
          m'.cell target = .word old ->
          Exists fun next =>
            kind.set target isSet sec (some (printed.buf.take printed.l.toNat)) m' = some (next, 0) ∧
              next.cell target = .word v) := by
  rcases printer_word kind v maxlen held with ⟨printed, called, tight, enough⟩
  refine ⟨printed, called, tight, ?_⟩
  intro room
  rcases enough room with ⟨length, shown⟩
  refine ⟨length, ?_⟩
  intro target isSet sec m' old here
  rw [length, Int.toNat_natCast, shown]
  rcases shown_accepted kind m'.errno v with ⟨accepts, same⟩
  rcases set_word kind isSet sec (kind.shown v) here with
    ⟨next, code, read, ⟨rejects, -⟩ | ⟨-, rfl, kept⟩⟩
  · exact absurd rejects accepts
  · rw [same] at kept
    exact ⟨next, read, kept⟩

/-- Three bytes have room for `5m`, which a target that held another size gets then; two have not. -/
theorem readBack_printed_size :
    (Exists fun printed =>
      Numeric.uintSize.printer 2 3 (freshState.memory.store 2 (.word 5242880)) = some printed ∧
        printed.buf.take printed.l.toNat = text "5m" ∧
        Exists fun next =>
          mconfSetUintSize 6 true none (some (printed.buf.take printed.l.toNat))
              (freshState.memory.store 6 (.word 77)) = some (next, 0) ∧
            next.cell 6 = .word 5242880) ∧
      Exists fun printed =>
        Numeric.uintSize.printer 2 2 (freshState.memory.store 2 (.word 5242880)) = some printed ∧
          printed.l = -1 := by
  have held := freshState.memory.store_same 2 (.word 5242880)
  constructor
  · rcases readBack_printed .uintSize 5242880 3 held with ⟨printed, called, -, enough⟩
    rcases enough (by decide +kernel) with ⟨length, reads⟩
    rcases reads 6 true none (freshState.memory.store 6 (.word 77)) 77
      (freshState.memory.store_same 6 (.word 77)) with ⟨next, set, stored⟩
    refine ⟨printed, called, ?_, next, set, stored⟩
    cases called.symm.trans rfl
    decide +kernel
  · rcases readBack_printed .uintSize 5242880 2 held with ⟨printed, called, tight, -⟩
    exact ⟨printed, called, tight (by decide +kernel)⟩

end Mconf
end Rfx
