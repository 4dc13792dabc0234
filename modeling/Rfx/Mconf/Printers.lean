import Rfx.Mconf.Setters

namespace Rfx
namespace Mconf

open RfxLoot (decimal)

/-!
# The printers

The model of the `to_string` functions of `mconf.c`.  Each of them gets a buffer
with room for `maxlen` bytes and returns the length of what it has printed, or -1
when there is not enough room.  `mconf_get_string` and `mconf_get_aval` may fill the
buffer to the last byte, while the others leave room for a zero.
-/

/-- An `int` as an unsigned number. -/
def unsigned (width : Nat) (n : Int) : Nat :=
  (if n < 0 then 2 ^ width + n else n).toNat

@[simp] theorem unsigned_natCast (width n : Nat) : unsigned width n = n := by
  rw [unsigned, if_neg (by omega), Int.toNat_natCast]

/-- `mconf_get_string`. -/
def mconfGetString : Printer Memory := fun ptr maxlen m =>
  match m.cell ptr with
  | .string none _ => some ⟨[], 0, Int.le_refl 0⟩
  | .string (some s) _ =>
      let copied := s.take (unsigned 32 maxlen)
      some ⟨copied, copied.length, Int.le_refl _⟩
  | _ => none

/-- What `snprintf` writes: as much as there is room for, and a zero. -/
def snprintf (maxlen : Int) (s : List Byte) : List Byte :=
  match unsigned 64 maxlen with
  | 0 => []
  | size + 1 => s.take size ++ [0]

theorem length_le_snprintf {maxlen : Int} {s : List Byte} (fits : s.length < maxlen) :
    s.length ≤ (snprintf maxlen s).length := by
  have room : Exists fun size => unsigned 64 maxlen = size + 1 ∧ s.length ≤ size := by
    rw [unsigned, if_neg (by omega)]
    exact ⟨maxlen.toNat - 1, by omega, by omega⟩
  rcases room with ⟨size, sizeEq, le⟩
  rw [snprintf, sizeEq]
  simp only [List.length_append, List.length_take]
  omega

theorem length_snprintf_le {maxlen : Nat} (s : List Byte) : (snprintf maxlen s).length ≤ maxlen := by
  rw [snprintf, unsigned_natCast]
  cases maxlen with
  | zero => exact Nat.le_refl 0
  | succ size =>
      simp only [List.length_append, List.length_take, List.length_singleton]
      omega

/-- Print with `snprintf`, and return the length if there was room. -/
def printText (maxlen : Int) (s : List Byte) : Printed where
  buf := snprintf maxlen s
  l := if s.length < maxlen then s.length else -1
  written := by
    split
    · next fits => exact Int.ofNat_le.mpr (length_le_snprintf fits)
    · omega

/-- `mconf_get_aval`. -/
def mconfGetAval : Printer Memory := fun ptr maxlen m =>
  match m.cell ptr with
  | .word v =>
      some
        (if v = 0xffffffff then
          if unsigned 64 maxlen < 4 then ⟨[], -1, by decide⟩ else ⟨text "auto", 4, by decide⟩
        else printText maxlen (decimal v.toNat))
  | _ => none

/-- The number that `mconf_get_uint_size` prints, with its suffix. -/
def sizeText (v : UInt32) : List Byte :=
  if v &&& 0x3fffffff = 0 then decimal (v >>> 30).toNat ++ text "g"
  else if v &&& 0xfffff = 0 then decimal (v >>> 20).toNat ++ text "m"
  else if v &&& 0x3ff = 0 then decimal (v >>> 10).toNat ++ text "k"
  else decimal v.toNat

/-- `mconf_get_uint_size`. -/
def mconfGetUintSize : Printer Memory := fun ptr maxlen m =>
  match m.cell ptr with
  | .word v => some (printText maxlen (sizeText v))
  | _ => none

/-- `(stderr)` behind what is printed so far, if `LOG_PERROR` is set in the options. -/
def printStderr (maxlen opts : Int) (facility : List Byte) (buf : List Byte)
    (written : facility.length ≤ buf.length) : Printed :=
  if opts / logPerror % 2 = 0 then ⟨buf, facility.length, Int.ofNat_le.mpr written⟩
  else if unsigned 64 maxlen ≤ facility.length + 8 then ⟨buf, -1, by omega⟩
  else
    let named := facility ++ text "(stderr)"
    ⟨named ++ [0], named.length,
      Int.ofNat_le.mpr (List.prefix_append named [0]).length_le⟩

/-- `mconf_get_logopts`. -/
def mconfGetLogopts : Printer Memory := fun ptr maxlen m =>
  match m.cell ptr with
  | .logopts facility opts =>
      some
        (match facilitynames.find? fun c => facility = c.2 with
        | none => printStderr maxlen opts [] [] (Nat.le_refl _)
        | some c =>
            if maxlen ≤ c.1.length then ⟨[], -1, by decide⟩
            else printStderr maxlen opts c.1 (c.1 ++ [0]) (by simp))
  | _ => none

/-- The loop of `mconf_get_loglevel`: what it has printed, without the zero, and whether there was
room for all names. -/
def levelNames (maxlen : Int) : List (List Byte × Nat) -> UInt32 -> List Byte -> List Byte × Bool
  | [], _, out => (out, true)
  | c :: names, mask, out =>
      let m : UInt32 := 1 <<< c.2.toUInt32
      if mask &&& m = 0 then levelNames maxlen names (mask &&& ~~~m) out
      else if unsigned 32 maxlen ≤ out.length + c.1.length + 1 then (out, false)
      else levelNames maxlen names (mask &&& ~~~m) (if out = [] then c.1 else out ++ 0x2c :: c.1)

/-- `mconf_get_loglevel`. -/
def mconfGetLoglevel : Printer Memory := fun ptr maxlen m =>
  match m.cell ptr with
  | .word mask =>
      let named := levelNames maxlen prioritynames mask []
      let buf := if named.1 = [] then [] else named.1 ++ [0]
      some ⟨buf, if named.2 then named.1.length else -1, by
        have le : named.1.length ≤ buf.length := by
          dsimp only [buf]
          split
          · next empty => rw [empty]
          · simp
        split <;> omega⟩
  | _ => none

/-! ## All of them -/

/-- What can be shown as a default. -/
inductive Shows
  | string
  | aval
  | uintSize
  | logopts
  | loglevel
  deriving DecidableEq

def Shows.printer : Shows -> Printer Memory
  | .string => mconfGetString
  | .aval => mconfGetAval
  | .uintSize => mconfGetUintSize
  | .logopts => mconfGetLogopts
  | .loglevel => mconfGetLoglevel

/-- The targets that a printer is for. -/
def Shows.Of (cell : Cell) : Shows -> Prop
  | .string => Exists fun value => Exists fun allocated => cell = .string value allocated
  | .aval => Exists fun v => cell = .word v
  | .uintSize => Exists fun v => cell = .word v
  | .logopts => Exists fun facility => Exists fun opts => cell = .logopts facility opts
  | .loglevel => Exists fun mask => cell = .word mask

/-- Every printer returns for the targets that it is for. -/
theorem printer_isSome_iff {which : Shows} {ptr : Nat} {maxlen : Int} {m : Memory} :
    (which.printer ptr maxlen m).isSome = true <-> which.Of (m.cell ptr) := by
  cases which with
  | string =>
      change (mconfGetString ptr maxlen m).isSome = true <-> _
      rw [mconfGetString]
      cases m.cell ptr with
      | string value allocated => cases value <;> simp [Shows.Of]
      | _ => simp [Shows.Of]
  | aval =>
      change (mconfGetAval ptr maxlen m).isSome = true <-> _
      rw [mconfGetAval]
      cases m.cell ptr <;> simp [Shows.Of]
  | uintSize =>
      change (mconfGetUintSize ptr maxlen m).isSome = true <-> _
      rw [mconfGetUintSize]
      cases m.cell ptr <;> simp [Shows.Of]
  | logopts =>
      change (mconfGetLogopts ptr maxlen m).isSome = true <-> _
      rw [mconfGetLogopts]
      cases m.cell ptr <;> simp [Shows.Of]
  | loglevel =>
      change (mconfGetLoglevel ptr maxlen m).isSome = true <-> _
      rw [mconfGetLoglevel]
      cases m.cell ptr <;> simp [Shows.Of]

/-- The values that a printer leaves room for a zero behind. -/
def Shows.Short (maxlen : Nat) (cell : Cell) : Shows -> Prop
  | .string => forall s allocated, cell = .string (some s) allocated -> s.length < maxlen
  | .aval => cell = .word 0xffffffff -> maxlen ≠ 4
  | .uintSize => True
  | .logopts => True
  | .loglevel => True

/-! ## How much they print -/

/-- What is printed leaves room for a zero behind the length that is returned. -/
structure Bounded (maxlen : Nat) (printed : Printed) : Prop where
  buf : printed.buf.length ≤ maxlen
  room : printed.l < maxlen

theorem printText_bounded (maxlen : Nat) (s : List Byte) : Bounded maxlen (printText maxlen s) where
  buf := length_snprintf_le s
  room := by
    unfold printText
    dsimp only
    split <;> omega

theorem printStderr_bounded {maxlen : Nat} (opts : Int) {facility buf : List Byte}
    (short : facility.length < maxlen) (written : facility.length ≤ buf.length)
    (inside : buf.length ≤ maxlen) : Bounded maxlen (printStderr maxlen opts facility buf written) := by
  unfold printStderr
  split
  · exact ⟨inside, Int.ofNat_lt.mpr short⟩
  · split
    · exact ⟨inside, by dsimp only; omega⟩
    · next room =>
        have stderr : (text "(stderr)").length = 8 := rfl
        rw [unsigned_natCast] at room
        constructor
        · simp only [List.length_append, List.length_singleton, stderr]
          omega
        · simp only [List.length_append, stderr]
          omega

theorem getLogopts_bounded {ptr maxlen : Nat} {m : Memory} {printed : Printed} (positive : 0 < maxlen)
    (returned : mconfGetLogopts ptr maxlen m = some printed) : Bounded maxlen printed := by
  unfold mconfGetLogopts at returned
  cases cell : m.cell ptr with
  | logopts facility opts =>
      rw [cell] at returned
      cases returned
      cases facilitynames.find? fun c => facility = c.2 with
      | none => exact printStderr_bounded opts positive _ (Nat.zero_le _)
      | some c =>
          dsimp only
          split
          · exact ⟨Nat.zero_le _, by dsimp only; omega⟩
          · next short =>
              refine printStderr_bounded opts ?_ _ ?_
              · omega
              · rw [List.length_append, List.length_singleton]
                omega
  | _ =>
      rw [cell] at returned
      cases returned

/-- Every name is printed only if a zero fits behind it. -/
theorem length_levelNames {maxlen : Nat} {names : List (List Byte × Nat)} {mask : UInt32}
    {out : List Byte} (room : out.length < maxlen) :
    (levelNames maxlen names mask out).1.length < maxlen := by
  induction names generalizing mask out with
  | nil => exact room
  | cons c names inductionHypothesis =>
      rw [levelNames]
      split
      · exact inductionHypothesis room
      · split
        · exact room
        · next fits =>
            rw [unsigned_natCast] at fits
            apply inductionHypothesis
            split
            · omega
            · rw [List.length_append, List.length_cons]
              omega

theorem getLoglevel_bounded {ptr maxlen : Nat} {m : Memory} {printed : Printed} (positive : 0 < maxlen)
    (returned : mconfGetLoglevel ptr maxlen m = some printed) : Bounded maxlen printed := by
  unfold mconfGetLoglevel at returned
  cases cell : m.cell ptr with
  | word mask =>
      rw [cell] at returned
      cases returned
      have short : (levelNames maxlen prioritynames mask []).1.length < maxlen :=
        length_levelNames positive
      constructor
      · dsimp only
        split
        · exact Nat.zero_le _
        · rw [List.length_append]
          exact short
      · dsimp only
        split <;> omega
  | _ =>
      rw [cell] at returned
      cases returned

theorem getUintSize_bounded {ptr maxlen : Nat} {m : Memory} {printed : Printed}
    (returned : mconfGetUintSize ptr maxlen m = some printed) : Bounded maxlen printed := by
  unfold mconfGetUintSize at returned
  cases cell : m.cell ptr with
  | word v =>
      rw [cell] at returned
      cases returned
      exact printText_bounded maxlen _
  | _ =>
      rw [cell] at returned
      cases returned

/-! ## Which values leave room for a zero -/

/-- Nothing is printed behind the end of the buffer, and there is room for a zero exactly behind
the values that are short. -/
structure Prints (which : Shows) (maxlen : Nat) (cell : Cell) (printed : Printed) : Prop where
  buf : printed.buf.length ≤ maxlen
  room : printed.l < maxlen <-> which.Short maxlen cell

theorem Bounded.prints {which : Shows} {maxlen : Nat} {cell : Cell} {printed : Printed}
    (bounded : Bounded maxlen printed) (short : which.Short maxlen cell) :
    Prints which maxlen cell printed where
  buf := bounded.buf
  room := iff_of_true bounded.room short

theorem getString_prints {ptr maxlen : Nat} {m : Memory} {printed : Printed} (positive : 0 < maxlen)
    (returned : mconfGetString ptr maxlen m = some printed) :
    Prints .string maxlen (m.cell ptr) printed := by
  unfold mconfGetString at returned
  cases cell : m.cell ptr with
  | string value allocated =>
      rw [cell] at returned
      cases value with
      | none =>
          cases returned
          exact Bounded.prints ⟨Nat.zero_le _, Int.ofNat_lt.mpr positive⟩ nofun
      | some s =>
          cases returned
          constructor
          · dsimp only
            rw [unsigned_natCast, List.length_take]
            exact Nat.min_le_left ..
          · dsimp only
            rw [unsigned_natCast, List.length_take]
            constructor
            · intro room s' allocated' same
              cases same
              omega
            · intro short
              have less := short s allocated rfl
              omega
  | _ =>
      rw [cell] at returned
      cases returned

theorem getAval_prints {ptr maxlen : Nat} {m : Memory} {printed : Printed}
    (returned : mconfGetAval ptr maxlen m = some printed) :
    Prints .aval maxlen (m.cell ptr) printed := by
  unfold mconfGetAval at returned
  cases cell : m.cell ptr with
  | word v =>
      rw [cell] at returned
      dsimp only at returned
      by_cases auto : v = 0xffffffff
      · subst auto
        rw [if_pos rfl, unsigned_natCast] at returned
        split at returned
        · next tight =>
            cases returned
            exact Bounded.prints ⟨Nat.zero_le _, by dsimp only; omega⟩ fun _ => by omega
        · next room =>
            cases returned
            refine ⟨Nat.le_of_not_lt room, ?_⟩
            constructor
            · intro less _
              change (4 : Int) < maxlen at less
              omega
            · intro short
              have other := short rfl
              change (4 : Int) < maxlen
              omega
      · rw [if_neg auto] at returned
        cases returned
        exact (printText_bounded maxlen _).prints fun same => absurd (Cell.word.inj same) auto
  | _ =>
      rw [cell] at returned
      cases returned

theorem printed_spec (which : Shows) {ptr maxlen : Nat} {m : Memory} {printed : Printed}
    (positive : 0 < maxlen) (returned : which.printer ptr maxlen m = some printed) :
    Prints which maxlen (m.cell ptr) printed := by
  cases which with
  | string => exact getString_prints positive returned
  | aval => exact getAval_prints returned
  | uintSize => exact (getUintSize_bounded returned).prints trivial
  | logopts => exact (getLogopts_bounded positive returned).prints trivial
  | loglevel => exact (getLoglevel_bounded positive returned).prints trivial

end Mconf
end Rfx
