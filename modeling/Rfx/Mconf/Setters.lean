import Mathlib.Data.List.Infix
import Rfx.Mconf

namespace Rfx
namespace Mconf

open RfxLoot (isspace)

/-!
# The setters

The model of the `set` functions of `mconf.c`.  Numbers are read by `strtol` and
`strtoul` with base 0, on a machine where `long` has 64 bits.  A string is in
memory of its own when it was copied there by a setter, and only such a string
can be freed.
-/

/-- `ERANGE`. -/
def erange : Int := 34

/-- What a target holds. -/
inductive Cell
  | string (value : Option (List Byte)) (allocated : Bool)
  | word (value : UInt32)
  | logopts (facility opts : Int)
  deriving DecidableEq

/-- The targets, and `errno`. -/
structure Memory where
  cell : Nat -> Cell
  errno : Int

namespace Memory

def store (m : Memory) (ptr : Nat) (value : Cell) : Memory :=
  { m with cell := Function.update m.cell ptr value }

@[simp] theorem store_same (m : Memory) (ptr : Nat) (value : Cell) :
    (m.store ptr value).cell ptr = value :=
  Function.update_self ..

@[simp] theorem store_other (m : Memory) {ptr other : Nat} (value : Cell) (different : other ≠ ptr) :
    (m.store ptr value).cell other = m.cell other :=
  Function.update_of_ne different ..

/-- `errno` is set for a number that is out of range, and never reset. -/
def outOfRange (m : Memory) (beyond : Bool) : Memory :=
  if beyond then { m with errno := erange } else m

@[simp] theorem outOfRange_cell (m : Memory) (beyond : Bool) : (m.outOfRange beyond).cell = m.cell := by
  cases beyond <;> rfl

end Memory

/-! ## Numbers -/

def longMax : Int := 2 ^ 63 - 1

def longMin : Int := -2 ^ 63

/-- The value of a digit, 36 for what is none. -/
def digit (c : Byte) : Nat :=
  if 0x30 ≤ c ∧ c ≤ 0x39 then c.toNat - 0x30
  else if 0x61 ≤ c ∧ c ≤ 0x7a then c.toNat - 0x61 + 10
  else if 0x41 ≤ c ∧ c ≤ 0x5a then c.toNat - 0x41 + 10
  else 36

/-- Read digits behind those that make up `n`. -/
def digits (base : Nat) : Nat -> List Byte -> Nat × List Byte
  | n, [] => (n, [])
  | n, c :: s => if digit c < base then digits base (n * base + digit c) s else (n, c :: s)

/-- A number in base 16, 8 or 10, as it starts. -/
def magnitude (s : List Byte) : Option (Nat × List Byte) :=
  match s with
  | [] => none
  | c :: x =>
      if c = 0x30 then
        if (x.head? = some 0x78 ∨ x.head? = some 0x58) ∧ (x.drop 1).head?.any fun c => digit c < 16
        then some (digits 16 0 (x.drop 1))
        else some (digits 8 0 x)
      else if digit c < 10 then some (digits 10 0 (c :: x))
      else none

/-- What is read: a sign, a magnitude, and what the end pointer points to. -/
structure Number where
  negative : Bool
  magnitude : Nat
  ep : List Byte

/-- Read a number, which may have whitespace chars and a sign in front of it. -/
def number (value : List Byte) : Number :=
  let s := value.dropWhile isspace
  let signed := s.head? = some 0x2d ∨ s.head? = some 0x2b
  match magnitude (if signed then s.drop 1 else s) with
  | none => ⟨false, 0, value⟩
  | some read => ⟨s.head? = some 0x2d, read.1, read.2⟩

/-- `strtol`: the value, and whether the number is out of range. -/
def strtol (n : Number) : Int × Bool :=
  let v := if n.negative then -(n.magnitude : Int) else n.magnitude
  if longMax < v then (longMax, true)
  else if v < longMin then (longMin, true)
  else (v, false)

/-- `strtoul`: a negative number is taken modulo 2^64. -/
def strtoul (n : Number) : UInt64 × Bool :=
  if 2 ^ 64 ≤ n.magnitude then (0xffffffffffffffff, true)
  else (if n.negative then -n.magnitude.toUInt64 else n.magnitude.toUInt64, false)

/-- `tolower` in the C locale. -/
def tolower (c : Byte) : Byte :=
  if 0x41 ≤ c ∧ c ≤ 0x5a then c + 0x20 else c

/-! ## Setters that replace the value -/

/-- `mconf_set_string`. -/
def mconfSetString : Setter Memory := fun ptr isSet _ value m =>
  match m.cell ptr, value with
  | .string old allocated, some v =>
      if isSet ∧ old.isSome ∧ allocated = false then none
      else some (m.store ptr (.string (some v) true), 0)
  | _, _ => none

/-- What `mconf_set_aval` stores. -/
def avalOf (v : List Byte) : UInt32 :=
  if v.map tolower = text "auto" then 0xffffffff
  else UInt32.ofInt (strtol (number v)).1

/-- `mconf_set_aval`. -/
def mconfSetAval : Setter Memory := fun ptr _ _ value m =>
  match m.cell ptr, value with
  | .word _, some v =>
      if v.map tolower = text "auto" then some (m.store ptr (.word 0xffffffff), 0)
      else
        let n := number v
        let got := strtol n
        let m := m.outOfRange got.2
        if (got.1 = longMin ∨ got.1 = longMax) ∧ m.errno = erange then some (m, -1)
        else if n.ep.head?.any fun c => c ≠ 0 && !isspace c then some (m, -1)
        else some (m.store ptr (.word (UInt32.ofInt got.1)), 0)
  | _, _ => none

/-- The shift for a size suffix; zero for what may stand there instead of one. -/
def sizeShift : Option Byte -> Option UInt64
  | none => some 0
  | some c =>
      if c = 0x6b ∨ c = 0x4b then some 10
      else if c = 0x6d ∨ c = 0x4d then some 20
      else if c = 0x67 ∨ c = 0x47 then some 30
      else if c = 0 ∨ c = 0x09 ∨ c = 0x0a ∨ c = 0x0d ∨ c = 0x23 ∨ c = 0x20 then some 0
      else none

/-- What `mconf_set_uint_size` stores. -/
def uintSizeOf (v : List Byte) : UInt32 :=
  ((strtoul (number v)).1 <<< (sizeShift (number v).ep.head?).getD 0).toUInt32

/-- `mconf_set_uint_size`. -/
def mconfSetUintSize : Setter Memory := fun ptr _ _ value m =>
  match m.cell ptr, value with
  | .word _, some v =>
      let n := number v
      let got := strtoul n
      let m := m.outOfRange got.2
      match sizeShift n.ep.head? with
      | none => some (m, -1)
      | some shift => some (m.store ptr (.word (got.1 <<< shift).toUInt32), 0)
  | _, _ => none

/-! ## The logging setters -/

/-- `isalnum` in the C locale. -/
def isalnum (c : Byte) : Bool :=
  (0x30 ≤ c && c ≤ 0x39) || (0x41 ≤ c && c ≤ 0x5a) || (0x61 ≤ c && c ≤ 0x7a)

/-- `facilitynames` of `syslog.h`. -/
def facilitynames : List (List Byte × Nat) :=
  [(text "auth", 4 <<< 3), (text "authpriv", 10 <<< 3), (text "cron", 9 <<< 3),
    (text "daemon", 3 <<< 3), (text "ftp", 11 <<< 3), (text "kern", 0), (text "lpr", 6 <<< 3),
    (text "mail", 2 <<< 3), (text "mark", 24 <<< 3), (text "news", 7 <<< 3),
    (text "security", 4 <<< 3), (text "syslog", 5 <<< 3), (text "user", 1 <<< 3),
    (text "uucp", 8 <<< 3), (text "local0", 16 <<< 3), (text "local1", 17 <<< 3),
    (text "local2", 18 <<< 3), (text "local3", 19 <<< 3), (text "local4", 20 <<< 3),
    (text "local5", 21 <<< 3), (text "local6", 22 <<< 3), (text "local7", 23 <<< 3)]

/-- `prioritynames` of `syslog.h`. -/
def prioritynames : List (List Byte × Nat) :=
  [(text "alert", 1), (text "crit", 2), (text "debug", 7), (text "emerg", 0), (text "err", 3),
    (text "error", 3), (text "info", 6), (text "none", 0x10), (text "notice", 5), (text "panic", 0),
    (text "warn", 4), (text "warning", 4)]

/-- The code of the name that a value starts with. -/
def lookup (names : List (List Byte × Nat)) (value : List Byte) : Option Nat :=
  (names.find? fun named => named.1 = value.takeWhile isalnum).map Prod.snd

/-- `LOG_PERROR`. -/
def logPerror : Int := 0x20

/-- `mconf_set_logopts`. -/
def mconfSetLogopts : Setter Memory := fun ptr _ _ value m =>
  match m.cell ptr, value with
  | .logopts _ _, some v =>
      match lookup facilitynames v with
      | none => some (m.store ptr (.logopts 0 0), -1)
      | some code =>
          some (m.store ptr (.logopts code (if text "(stderr)" <:+: v then logPerror else 0)), 0)
  | _, _ => none

/-- The name in front is left out, and with it a `-`. -/
theorem length_behind_name {c : Byte} {rest named : List Byte}
    (here : named = if c = 0x2d then rest else c :: rest)
    (name : ¬ (named.takeWhile isalnum = [] ∧ named ≠ [])) (skip : Byte -> Bool) :
    ((named.dropWhile isalnum).dropWhile skip).length < (c :: rest).length := by
  have skipped := (@List.dropWhile_sublist _ (named.dropWhile isalnum) skip).length_le
  have split := congrArg List.length (@List.takeWhile_append_dropWhile _ isalnum named)
  rw [List.length_append] at split
  by_cases dash : c = 0x2d
  · rw [if_pos dash] at here
    subst here
    rw [List.length_cons]
    omega
  · rw [if_neg dash] at here
    subst here
    have nonempty : (c :: rest).takeWhile isalnum ≠ [] := fun empty => name ⟨empty, nofun⟩
    have positive := List.length_pos_iff.mpr nonempty
    omega

/-- The loop of `mconf_set_loglevel`: the mask as it leaves it, and what is returned. -/
def loglevels (value : List Byte) (mask : UInt32) : UInt32 × Int :=
  match value with
  | [] => (mask, 0)
  | c :: rest =>
      let named := if c = 0x2d then rest else c :: rest
      if name : named.takeWhile isalnum = [] ∧ named ≠ [] then (mask, -1)
      else
        match lookup prioritynames named with
        | none => (mask, -1)
        | some code =>
            let m : UInt32 := 1 <<< code.toUInt32
            loglevels ((named.dropWhile isalnum).dropWhile fun c => isspace c || c = 0x2c)
              (if c = 0x2d then mask &&& ~~~m else mask ||| m)
termination_by value.length
decreasing_by
  exact length_behind_name rfl name _

/-- `mconf_set_loglevel`. -/
def mconfSetLoglevel : Setter Memory := fun ptr _ _ value m =>
  match m.cell ptr, value with
  | .word mask, some v =>
      let set := loglevels v mask
      some (m.store ptr (.word set.1), set.2)
  | _, _ => none

/-! ## What they change -/

/-- A setter writes to no target but its own. -/
def Local (set : Setter Memory) : Prop :=
  forall ptr isSet sec value m next code, set ptr isSet sec value m = some (next, code) ->
    forall other, other ≠ ptr -> next.cell other = m.cell other

/-- An accepted value replaces what the target holds, and a rejected one leaves it alone. -/
def Replacing (set : Setter Memory) (stored : List Byte -> Cell) : Prop :=
  forall ptr isSet sec value m next code, set ptr isSet sec value m = some (next, code) ->
    Exists fun v => value = some v ∧
      next.cell ptr = if code = 0 then stored v else m.cell ptr

theorem mconfSetString_local : Local mconfSetString := by
  intro ptr isSet sec value m next code called other different
  unfold mconfSetString at called
  split at called
  · split at called
    · cases called
    · cases called
      exact m.store_other _ different
  · cases called

theorem mconfSetString_replacing :
    Replacing mconfSetString fun v => .string (some v) true := by
  intro ptr isSet sec value m next code called
  unfold mconfSetString at called
  split at called
  · split at called
    · cases called
    · cases called
      exact ⟨_, rfl, m.store_same _ _⟩
  · cases called

theorem mconfSetAval_local : Local mconfSetAval := by
  intro ptr isSet sec value m next code called other different
  unfold mconfSetAval at called
  split at called
  · dsimp only at called
    split at called
    · cases called
      exact m.store_other _ different
    · split at called
      · cases called
        rw [Memory.outOfRange_cell]
      · split at called
        · cases called
          rw [Memory.outOfRange_cell]
        · cases called
          rw [Memory.store_other _ _ different, Memory.outOfRange_cell]
  · cases called

theorem mconfSetAval_replacing : Replacing mconfSetAval fun v => .word (avalOf v) := by
  intro ptr isSet sec value m next code called
  unfold mconfSetAval at called
  split at called
  · next v _ =>
      refine ⟨v, rfl, ?_⟩
      dsimp only at called
      split at called
      · next auto =>
          cases called
          simp only [Memory.store_same, if_true, avalOf, if_pos auto]
      · next number =>
          split at called
          · cases called
            rw [Memory.outOfRange_cell, if_neg (by decide)]
          · split at called
            · cases called
              rw [Memory.outOfRange_cell, if_neg (by decide)]
            · cases called
              simp only [Memory.store_same, if_true, avalOf, if_neg number]
  · cases called

theorem mconfSetUintSize_local : Local mconfSetUintSize := by
  intro ptr isSet sec value m next code called other different
  unfold mconfSetUintSize at called
  split at called
  · dsimp only at called
    split at called
    · cases called
      rw [Memory.outOfRange_cell]
    · cases called
      rw [Memory.store_other _ _ different, Memory.outOfRange_cell]
  · cases called

theorem mconfSetUintSize_replacing :
    Replacing mconfSetUintSize fun v => .word (uintSizeOf v) := by
  intro ptr isSet sec value m next code called
  unfold mconfSetUintSize at called
  split at called
  · next v _ =>
      refine ⟨v, rfl, ?_⟩
      dsimp only at called
      split at called
      · cases called
        rw [Memory.outOfRange_cell, if_neg (by decide)]
      · next shift suffix =>
          cases called
          simp only [Memory.store_same, if_true, uintSizeOf, suffix, Option.getD_some]
  · cases called

theorem mconfSetLogopts_local : Local mconfSetLogopts := by
  intro ptr isSet sec value m next code called other different
  unfold mconfSetLogopts at called
  split at called
  · split at called
    · cases called
      exact m.store_other _ different
    · cases called
      exact m.store_other _ different
  · cases called

theorem mconfSetLoglevel_local : Local mconfSetLoglevel := by
  intro ptr isSet sec value m next code called other different
  unfold mconfSetLoglevel at called
  split at called
  · cases called
    exact m.store_other _ different
  · cases called

/-! ## A configuration with one parameter -/

/-- The size that `-s` and `--size` set. -/
def sizeParam : MetadParam Memory where
  address := 1
  optShort := 0x73
  optLong := some (text "size")
  confName := some (text "size")
  set := mconfSetUintSize
  ptr := 2
  optArgs := .requiredArgument
  optIdx := 0x73

/-- What `mconf_add` makes of it. -/
def sizeConf : Mconf Memory :=
  { (mconfInit 0 (some (text "conf")) [] : Mconf Memory) with
    cb := [⟨[sizeParam], some (text "main")⟩]
    shortLen := 2
    longCount := 1 }

example :
    mconfAdd (mconfInit 0 (some (text "conf")) [] : Mconf Memory) (some (text "main"))
      [{ sizeParam with optIdx := 0 }] = some (sizeConf, [sizeParam], 0) := rfl

/-! ## A configuration with two blocks -/

/-- The port that `-p` sets. -/
def portParam : MetadParam Memory where
  address := 3
  optShort := 0x70
  optLong := none
  confName := some (text "port")
  set := mconfSetAval
  ptr := 4
  optArgs := .requiredArgument
  optIdx := 0

/-- A size that is set in another section of the file. -/
def limitParam : MetadParam Memory where
  address := 5
  optShort := 0
  optLong := none
  confName := some (text "size")
  set := mconfSetUintSize
  ptr := 6
  optArgs := .noArgument
  optIdx := 0

/-- The levels that `--level` sets, which gets the first number. -/
def levelParam : MetadParam Memory where
  address := 7
  optShort := 0
  optLong := some (text "level")
  confName := some (text "level")
  set := mconfSetLoglevel
  ptr := 8
  optArgs := .optionalArgument
  optIdx := 256

def mainBlock : MconfBlock Memory :=
  ⟨[sizeParam, portParam], some (text "main")⟩

def logBlock : MconfBlock Memory :=
  ⟨[limitParam, levelParam], some (text "log")⟩

/-- What `mconf_add` makes of both. -/
def twoConf : Mconf Memory :=
  { (mconfInit 0 (some (text "conf")) [] : Mconf Memory) with
    cb := [mainBlock, logBlock]
    shortLen := 4
    longCount := 2
    longIdx := 257 }

/-- Every target is zero, and nothing is set. -/
def freshState : State Memory where
  memory := ⟨fun _ => .word 0, 0⟩
  isSet := fun _ => false
  calls := []

end Mconf

end Rfx
