import Rfx.Library.Assign
import Rfx.Mconf.Setters

namespace Rfx
namespace Mconf

open Library
open RfxLoot (isspace)

/-!
# Targets behind a rejected value

A setter that rejects a value has nothing to store.  `mconf_set_aval` and
`mconf_set_uint_size` store last; `mconf_set_logopts` clears its target first, and
`mconf_set_loglevel` stores a bit with every word that it reads.
-/

/-- The priorities that a value names in front of the first word that is none, each
with whether it is set. -/
def levels (value : List Byte) : List (Nat × Bool) :=
  match value with
  | [] => []
  | c :: rest =>
      let named := if c = 0x2d then rest else c :: rest
      if _name : named.takeWhile isalnum = [] ∧ named ≠ [] then []
      else
        match lookup prioritynames named with
        | none => []
        | some code =>
            (code, decide (c ≠ 0x2d)) ::
              levels ((named.dropWhile isalnum).dropWhile fun c => isspace c || c = 0x2c)
termination_by value.length
decreasing_by
  exact length_behind_name rfl _name _

/-- The bits of a mask. -/
def bits (mask : UInt32) : Nat -> Bool :=
  mask.toBitVec.getLsbD

theorem bits_injective {one other : UInt32} (same : bits one = bits other) : one = other := by
  apply UInt32.toBitVec_inj.mp
  apply BitVec.eq_of_getLsbD_eq
  intro i _
  exact congrFun same i

theorem bits_shift {code : Nat} (inside : code < 32) (i : Nat) :
    bits (1 <<< code.toUInt32) i = decide (i = code) := by
  by_cases below : i < 32
  · have all : forall code i : Fin 32, bits (1 <<< code.val.toUInt32) i = decide (i.val = code.val) := by
      decide +kernel
    exact all ⟨code, inside⟩ ⟨i, below⟩
  · have other : i ≠ code := fun same => below (same ▸ inside)
    rw [decide_eq_false other]
    exact BitVec.getLsbD_of_ge _ i (Nat.le_of_not_lt below)

/-- Setting or clearing one bit. -/
theorem bits_store (mask : UInt32) {code : Nat} (inside : code < 32) (unset : Prop) [Decidable unset] :
    bits (if unset then mask &&& ~~~(1 <<< code.toUInt32) else mask ||| 1 <<< code.toUInt32) =
      Function.update (bits mask) code (decide ¬unset) := by
  funext i
  have shifted : (1 <<< code.toUInt32 : UInt32).toBitVec.getLsbD i = decide (i = code) :=
    bits_shift inside i
  generalize (1 <<< code.toUInt32 : UInt32) = bit at shifted ⊢
  by_cases here : i = code
  · subst here
    rw [Function.update_self]
    split
    · next off => simp [bits, shifted, off]
    · next on => simp [bits, shifted, on]
  · rw [Function.update_of_ne here]
    rw [decide_eq_false here] at shifted
    split
    · by_cases below : i < 32
      · simp only [bits, UInt32.toBitVec_and, UInt32.toBitVec_not, BitVec.getLsbD_and,
          BitVec.getLsbD_not, shifted, decide_eq_true below, Bool.not_false, Bool.and_true]
      · simp [bits, BitVec.getLsbD_of_ge mask.toBitVec i (Nat.le_of_not_lt below)]
    · simp [bits, shifted]

/-- Every priority is a bit of the mask. -/
theorem code_lt {value : List Byte} {code : Nat} (found : lookup prioritynames value = some code) :
    code < 32 := by
  rcases Option.map_eq_some_iff.mp found with ⟨named, first, rfl⟩
  have all : forall named, named ∈ prioritynames -> named.2 < 32 := by decide
  exact all named (List.mem_of_find?_eq_some first)

/-- The loop assigns the bits of the priorities, in the order of the words. -/
theorem bits_loglevels (value : List Byte) (mask : UInt32) :
    bits (loglevels value mask).1 = Assign.assignAll (bits mask) (levels value) := by
  induction left : value.length using Nat.strongRecOn generalizing value mask with
  | ind n inductionHypothesis =>
      cases value with
      | nil =>
          rw [loglevels, levels]
          rfl
      | cons c rest =>
          rw [loglevels, levels]
          dsimp only
          generalize here : (if c = 0x2d then rest else c :: rest) = named
          by_cases name : named.takeWhile isalnum = [] ∧ named ≠ []
          · rw [dif_pos name, dif_pos name]
            rfl
          · rw [dif_neg name, dif_neg name]
            cases found : lookup prioritynames named with
            | none => rfl
            | some code =>
                have shorter := length_behind_name here.symm name fun c => isspace c || c = 0x2c
                dsimp only
                rw [inductionHypothesis _ (left ▸ shorter) _ _ rfl, bits_store mask (code_lt found),
                  Assign.assignAll_cons]

/-! ## The four setters -/

/-- The setters that check their value. -/
inductive Checking
  | aval
  | uintSize
  | logopts
  | loglevel
  deriving DecidableEq

def Checking.setter : Checking -> Setter Memory
  | .aval => mconfSetAval
  | .uintSize => mconfSetUintSize
  | .logopts => mconfSetLogopts
  | .loglevel => mconfSetLoglevel

/-- What a target must hold for a setter to leave it alone when it rejects a value: nothing
in particular, what `mconf_set_logopts` clears it to, or every bit as the last valid word
about it says. -/
def Checking.Keeps (value : List Byte) (old : Cell) : Checking -> Prop
  | .aval => True
  | .uintSize => True
  | .logopts => old = .logopts 0 0
  | .loglevel => forall mask, old = .word mask -> forall level, Assign.Last (levels value) level ->
      bits mask level.1 = level.2

theorem logopts_atomic_iff {ptr : Nat} {isSet : Bool} {sec : Option (List Byte)} {value : List Byte}
    {m next : Memory} (rejected : mconfSetLogopts ptr isSet sec (some value) m = some (next, -1)) :
    next.cell ptr = m.cell ptr <-> m.cell ptr = .logopts 0 0 := by
  unfold mconfSetLogopts at rejected
  cases cell : m.cell ptr with
  | logopts facility opts =>
      rw [cell] at rejected
      dsimp only at rejected
      cases found : lookup facilitynames value with
      | none =>
          rw [found] at rejected
          cases rejected
          rw [Memory.store_same]
          exact eq_comm
      | some code =>
          rw [found] at rejected
          cases congrArg (Option.map Prod.snd) rejected
  | _ =>
      rw [cell] at rejected
      cases rejected

theorem loglevel_atomic_iff {ptr : Nat} {isSet : Bool} {sec : Option (List Byte)} {value : List Byte}
    {m next : Memory} (rejected : mconfSetLoglevel ptr isSet sec (some value) m = some (next, -1)) :
    next.cell ptr = m.cell ptr <-> forall mask, m.cell ptr = .word mask ->
      forall level, Assign.Last (levels value) level -> bits mask level.1 = level.2 := by
  unfold mconfSetLoglevel at rejected
  cases cell : m.cell ptr with
  | word mask =>
      rw [cell] at rejected
      have stored : m.store ptr (.word (loglevels value mask).1) = next :=
        congrArg Prod.fst (Option.some.inj rejected)
      have unchanged : (loglevels value mask).1 = mask <->
          Assign.assignAll (bits mask) (levels value) = bits mask := by
        rw [← bits_loglevels]
        exact ⟨congrArg bits, bits_injective⟩
      rw [← stored, Memory.store_same, Cell.word.injEq, unchanged, Assign.assignAll_eq_self_iff]
      constructor
      · intro kept other same
        cases same
        exact kept
      · exact fun kept => kept mask rfl
  | _ =>
      rw [cell] at rejected
      cases rejected

/-- A setter that rejects a value leaves its target as it was exactly if the target holds
what the setter makes of it. -/
theorem setter_atomic_iff {which : Checking} {ptr : Nat} {isSet : Bool} {sec : Option (List Byte)}
    {value : List Byte} {m next : Memory}
    (rejected : which.setter ptr isSet sec (some value) m = some (next, -1)) :
    next.cell ptr = m.cell ptr <-> which.Keeps value (m.cell ptr) := by
  cases which with
  | aval =>
      rcases mconfSetAval_replacing ptr isSet sec _ m next _ rejected with ⟨v, _, kept⟩
      exact iff_of_true kept trivial
  | uintSize =>
      rcases mconfSetUintSize_replacing ptr isSet sec _ m next _ rejected with ⟨v, _, kept⟩
      exact iff_of_true kept trivial
  | logopts =>
      change mconfSetLogopts ptr isSet sec (some value) m = _ at rejected
      exact logopts_atomic_iff rejected
  | loglevel =>
      change mconfSetLoglevel ptr isSet sec (some value) m = _ at rejected
      exact loglevel_atomic_iff rejected

/-- A level that does not exist is rejected, behind one that is set already; where that one was
not set, it is set then. -/
theorem setter_atomic_iff_levels :
    (Exists fun next => mconfSetLoglevel 0 false none (some (text "err,nosuch"))
        ⟨fun _ => .word 8, 0⟩ = some (next, -1) ∧ next.cell 0 = .word 8) ∧
      Exists fun next => mconfSetLoglevel 0 false none (some (text "err,nosuch"))
        ⟨fun _ => .word 1, 0⟩ = some (next, -1) ∧ next.cell 0 ≠ .word 1 := by
  have rejected (mask : UInt32) (returned : (loglevels (text "err,nosuch") mask).2 = -1) :
      Exists fun next => Checking.setter .loglevel 0 false none (some (text "err,nosuch"))
        ⟨fun _ => .word mask, 0⟩ = some (next, -1) := by
    rw [← returned]
    exact ⟨_, rfl⟩
  have named : levels (text "err,nosuch") = [(3, true)] := by decide +kernel
  have last (level : Nat × Bool) : Assign.Last (levels (text "err,nosuch")) level <-> level = (3, true) := by
    rw [named]
    constructor
    · rintro ⟨front, back, same, _⟩
      exact (List.mem_singleton.mp (same ▸ List.mem_append_right front List.mem_cons_self))
    · rintro rfl
      exact ⟨[], [], rfl, nofun⟩
  rcases rejected 8 (by decide +kernel) with ⟨kept, reject⟩
  rcases rejected 1 (by decide +kernel) with ⟨changed, rejects⟩
  refine ⟨⟨kept, reject, (setter_atomic_iff reject).mpr ?_⟩, changed, rejects, fun same => ?_⟩
  · rintro mask same level isLast
    cases same
    rw [(last level).mp isLast]
    decide
  · have set := (setter_atomic_iff rejects).mp same 1 rfl (3, true) ((last _).mpr rfl)
    exact absurd set (by decide)

/-- A facility that does not exist clears the target. -/
theorem setLogopts_rejects_and_clears :
    Exists fun next => mconfSetLogopts 0 false none (some (text "nosuch"))
        ⟨fun _ => .logopts 24 0, 0⟩ = some (next, -1) ∧
      next.cell 0 ≠ .logopts 24 0 :=
  ⟨_, rfl, by decide⟩

end Mconf
end Rfx
