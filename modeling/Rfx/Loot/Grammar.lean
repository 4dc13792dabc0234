import Mathlib.Data.Nat.Digits.Defs
import Rfx.Loot.Command

namespace Rfx
namespace RfxLoot

open Library

/-!
# The grammar of a mask

What `parseMask` takes for a mask, against the four forms that it is meant to
take.  The two differ where nothing is checked: the loop over the hex digits stops
at any other character and loses what does not fit into `id`, and `fn` cuts a long
name.
-/

/-! ## The forms of a mask -/

/-- A file from which a mask can be loaded. -/
def Loads (files : Files) (path : List Byte) : Prop :=
  Exists fun content => files path = some content ∧ 8192 ≤ content.length

/-- The path of a drop list. -/
def listPath (name : List Byte) : List Byte :=
  text "drop/list-" ++ name ++ text ".bin"

/-- The number that hex digits stand for. -/
def hexValue (digits : List Byte) : Nat :=
  Nat.ofDigits 16 (digits.map fun c => (hex2i c).toNat).reverse

/-- The digits of an id. -/
structure IdDigits (digits : List Byte) : Prop where
  found : digits ≠ []
  hex : forall c, c ∈ digits -> isxdigit c = true
  small : hexValue digits < 65536

/-- The texts that stand for a mask. -/
inductive InGrammar (files : Files) : List Byte -> Prop
  | all : InGrammar files (text "all")
  | none : InGrammar files (text "none")
  | list {name : List Byte} (named : name ≠ []) (loads : Loads files (listPath name)) :
      InGrammar files (0x40 :: name)
  | id {digits : List Byte} (numeral : IdDigits digits) : InGrammar files (text "0x" ++ digits)

/-- `parseMask` accepts a text exactly if it stands for a mask, and an id stands for
the mask that has only this id. -/
structure FollowsGrammar (files : Files) (n : List Byte) : Prop where
  accepts : forall d, (parseMask files d n).isSome = true <-> InGrammar files n
  single : forall d digits m, n = text "0x" ++ digits -> IdDigits digits ->
    parseMask files d n = some m -> m.ids = {hexValue digits}

/-- A number whose digits are not those of an id. -/
def BadNumeral (n : List Byte) : Prop :=
  Exists fun digits => n = text "0x" ++ digits ∧ digits ≠ [] ∧ ¬ IdDigits digits

/-- A drop list with a name that does not fit, where the path that is left and the
whole path do not agree. -/
def Misnamed (files : Files) (n : List Byte) : Prop :=
  Exists fun name => n = 0x40 :: name ∧ 49 < name.length ∧
    ¬ (Loads files (fileName name) <-> Loads files (listPath name))

/-! ## Numbers -/

theorem hexValue_cons (c : Byte) (digits : List Byte) :
    hexValue (c :: digits) = (hex2i c).toNat * 16 ^ digits.length + hexValue digits := by
  rw [hexValue, List.map_cons, List.reverse_cons, Nat.ofDigits_append, Nat.ofDigits_singleton,
    List.length_reverse, List.length_map, Nat.mul_comm, Nat.add_comm, hexValue]

theorem hex2i_lt (c : Byte) : (hex2i c).toNat < 16 := by
  revert c
  apply forall_byte
  decide +kernel

/-- One digit more, as long as the number fits. -/
theorem toNat_shift_or {id : UInt32} (c : Byte) (fits : id.toNat * 16 < 2 ^ 32) :
    ((id <<< 4) ||| (hex2i c).toUInt32).toNat = id.toNat * 16 + (hex2i c).toNat := by
  have digit : (hex2i c).toNat < 2 ^ 4 := hex2i_lt c
  have shifted : (id <<< 4).toNat = id.toNat <<< 4 := by
    rw [UInt32.toNat_shiftLeft]
    change id.toNat <<< 4 % 2 ^ 32 = id.toNat <<< 4
    rw [Nat.shiftLeft_eq]
    exact Nat.mod_eq_of_lt fits
  rw [UInt32.toNat_or, shifted, UInt8.toNat_toUInt32, ← Nat.shiftLeft_add_eq_or_of_lt digit,
    Nat.shiftLeft_eq]

/-- The loop computes the number, as long as it fits. -/
theorem toNat_hexId {digits : List Byte} (hex : forall c, c ∈ digits -> isxdigit c = true)
    (id : UInt32) (fits : id.toNat * 16 ^ digits.length + hexValue digits < 2 ^ 32) :
    (hexId id digits).toNat = id.toNat * 16 ^ digits.length + hexValue digits := by
  induction digits generalizing id with
  | nil => rw [hexId, List.length_nil, Nat.pow_zero, Nat.mul_one, hexValue]; rfl
  | cons c digits inductionHypothesis =>
      have power : 0 < 16 ^ digits.length := Nat.pow_pos (by decide)
      have value : id.toNat * 16 ^ (c :: digits).length + hexValue (c :: digits) =
          (id.toNat * 16 + (hex2i c).toNat) * 16 ^ digits.length + hexValue digits := by
        rw [hexValue_cons, List.length_cons, Nat.pow_succ']
        ring
      have fitsHere : id.toNat * 16 < 2 ^ 32 := by
        rw [value] at fits
        have grows := Nat.le_mul_of_pos_right (id.toNat * 16 + (hex2i c).toNat) power
        omega
      have next := toNat_shift_or c fitsHere
      rw [hexId, if_pos (hex c (List.mem_cons_self ..)), value, ← next]
      apply inductionHypothesis (fun b member => hex b (List.mem_cons_of_mem _ member))
      rw [next, ← value]
      exact fits

/-! ## The forms one by one -/

theorem fload_isSome (files : Files) (path : List Byte) :
    (LootMask.fload files path).isSome = true <-> Loads files path := by
  rw [LootMask.fload, Loads]
  cases files path with
  | none => simp
  | some content =>
      by_cases complete : 8192 ≤ content.length
      · simp [complete]
      · simp [complete]

/-- A name of up to 49 bytes fits. -/
theorem fileName_eq {name : List Byte} (short : name.length ≤ 49) : fileName name = listPath name := by
  apply List.take_of_length_le
  have front : (text "drop/list-").length = 10 := rfl
  have back : (text ".bin").length = 4 := rfl
  rw [List.length_append, List.length_append, front, back]
  omega

/-- What a text looks like to `parseMask`. -/
inductive Form : List Byte -> Prop
  | all : Form (text "all")
  | none : Form (text "none")
  | list {name : List Byte} (named : name ≠ []) : Form (0x40 :: name)
  | numeral {digits : List Byte} (found : digits ≠ []) : Form (text "0x" ++ digits)

theorem parseMask_list {name : List Byte} (named : name ≠ []) (files : Files) (d : LootMask) :
    parseMask files d (0x40 :: name) = LootMask.fload files (fileName name) := by
  have notAll : (0x40 :: name : List Byte) ≠ text "all" := by
    intro same
    cases congrArg List.head? same
  have notNone : (0x40 :: name : List Byte) ≠ text "none" := by
    intro same
    cases congrArg List.head? same
  have long : 1 < (0x40 :: name : List Byte).length :=
    Nat.succ_lt_succ (List.length_pos_iff.mpr named)
  rw [parseMask, if_neg notAll, if_neg notNone, if_pos ⟨long, rfl⟩]
  rfl

theorem parseMask_numeral {digits : List Byte} (found : digits ≠ []) (files : Files) (d : LootMask) :
    parseMask files d (text "0x" ++ digits) =
      some ((LootMask.new false).set (hexId 0 digits).toNat true).1 := by
  have notAll : text "0x" ++ digits ≠ text "all" := by
    intro same
    cases congrArg List.head? same
  have notNone : text "0x" ++ digits ≠ text "none" := by
    intro same
    cases congrArg List.head? same
  have notList : ¬ (1 < (text "0x" ++ digits).length ∧ (text "0x" ++ digits).head? = some 0x40) := by
    rintro ⟨_, first⟩
    cases first
  have long : 2 < (text "0x" ++ digits).length :=
    Nat.succ_lt_succ (Nat.succ_lt_succ (List.length_pos_iff.mpr found))
  rw [parseMask, if_neg notAll, if_neg notNone, if_neg notList, if_pos ⟨long, rfl⟩, LootMask.setAll_eq]
  rfl

/-- Everything else is rejected. -/
theorem parseMask_of_not_form {n : List Byte} (formless : ¬ Form n) (files : Files) (d : LootMask) :
    parseMask files d n = none := by
  have notList : ¬ (1 < n.length ∧ n.head? = some 0x40) := by
    rintro ⟨long, first⟩
    rcases List.head?_eq_some_iff.mp first with ⟨name, rfl⟩
    exact formless (.list (List.length_pos_iff.mp (Nat.lt_of_succ_lt_succ long)))
  have notNumeral : ¬ (2 < n.length ∧ n.take 2 = text "0x") := by
    rintro ⟨long, front⟩
    have whole : n = text "0x" ++ n.drop 2 := by
      rw [← front, List.take_append_drop]
    have found : n.drop 2 ≠ [] := by
      rw [← List.length_pos_iff, List.length_drop]
      exact Nat.sub_pos_of_lt long
    rw [whole] at formless
    exact formless (.numeral found)
  have notAll : n ≠ text "all" := fun same => formless (same ▸ .all)
  have notNone : n ≠ text "none" := fun same => formless (same ▸ .none)
  rw [parseMask, if_neg notAll, if_neg notNone, if_neg notList, if_neg notNumeral]

theorem InGrammar.form {files : Files} {n : List Byte} (grammatical : InGrammar files n) : Form n := by
  cases grammatical with
  | all => exact .all
  | none => exact .none
  | list named _ => exact .list named
  | id numeral => exact .numeral numeral.found

theorem BadNumeral.form {n : List Byte} (bad : BadNumeral n) : Form n := by
  rcases bad with ⟨digits, rfl, found, _⟩
  exact .numeral found

theorem Misnamed.form {files : Files} {n : List Byte} (misnamed : Misnamed files n) : Form n := by
  rcases misnamed with ⟨name, rfl, long, _⟩
  exact .list (List.length_pos_iff.mp (Nat.zero_lt_of_lt long))

theorem inGrammar_list {files : Files} {name : List Byte} (named : name ≠ []) :
    InGrammar files (0x40 :: name) <-> Loads files (listPath name) := by
  constructor
  · intro grammatical
    generalize whole : (0x40 :: name : List Byte) = n at grammatical
    cases grammatical with
    | list _ loads => cases whole; exact loads
    | _ => cases congrArg List.head? whole
  · exact .list named

theorem inGrammar_numeral {files : Files} {digits : List Byte} :
    InGrammar files (text "0x" ++ digits) <-> IdDigits digits := by
  constructor
  · intro grammatical
    generalize whole : text "0x" ++ digits = n at grammatical
    cases grammatical with
    | id numeral => exact List.append_cancel_left whole ▸ numeral
    | _ => cases congrArg List.head? whole
  · exact .id

theorem badNumeral_numeral {digits : List Byte} (found : digits ≠ []) :
    BadNumeral (text "0x" ++ digits) <-> ¬ IdDigits digits := by
  constructor
  · rintro ⟨others, same, _, bad⟩
    rwa [List.append_cancel_left same]
  · exact fun bad => ⟨digits, rfl, found, bad⟩

theorem misnamed_list {files : Files} {name : List Byte} :
    Misnamed files (0x40 :: name) <->
      ¬ (Loads files (fileName name) <-> Loads files (listPath name)) := by
  constructor
  · rintro ⟨other, same, _, differ⟩
    rwa [List.tail_eq_of_cons_eq same]
  · intro differ
    refine ⟨name, rfl, Nat.lt_of_not_le fun short => ?_, differ⟩
    rw [fileName_eq short] at differ
    exact differ Iff.rfl

/-- The mask of an id has this id only. -/
theorem ids_numeral {digits : List Byte} (numeral : IdDigits digits) :
    ((LootMask.new false).set (hexId 0 digits).toNat true).1.ids = {hexValue digits} := by
  have value : (hexId 0 digits).toNat = hexValue digits := by
    have small := numeral.small
    have computed := toNat_hexId numeral.hex 0
    rw [UInt32.toNat_zero, Nat.zero_mul, Nat.zero_add] at computed
    exact computed (by omega)
  ext id
  rw [LootMask.mem_ids, LootMask.test_set, value, LootMask.test_new, Bool.and_false]
  simp [numeral.small]

theorem head_of_numeral {n digits : List Byte} (same : n = text "0x" ++ digits) :
    n.head? = some 0x30 := by
  rw [same]
  rfl

theorem BadNumeral.head {n : List Byte} (bad : BadNumeral n) : n.head? = some 0x30 := by
  rcases bad with ⟨digits, same, _⟩
  exact head_of_numeral same

theorem Misnamed.head {files : Files} {n : List Byte} (misnamed : Misnamed files n) :
    n.head? = some 0x40 := by
  rcases misnamed with ⟨name, rfl, _⟩
  rfl

/-- Only a text that starts with a zero can be a number. -/
theorem followsGrammar_of_accepts {files : Files} {n : List Byte} (other : n.head? ≠ some 0x30)
    (accepts : forall d, (parseMask files d n).isSome = true <-> InGrammar files n) :
    FollowsGrammar files n where
  accepts := accepts
  single := fun _ _ _ same => absurd (head_of_numeral same) other

theorem followsGrammar_list {files : Files} {name : List Byte} (named : name ≠ []) :
    FollowsGrammar files (0x40 :: name) <-> ¬ Misnamed files (0x40 :: name) := by
  have accepted (d : LootMask) : (parseMask files d (0x40 :: name)).isSome = true <->
      Loads files (fileName name) := by
    rw [parseMask_list named, fload_isSome]
  rw [misnamed_list, not_not]
  constructor
  · intro follows
    rw [← accepted (.new false), follows.accepts, inGrammar_list named]
  · intro fitting
    apply followsGrammar_of_accepts
    · intro zero
      cases zero
    · intro d
      rw [accepted, inGrammar_list named]
      exact fitting

theorem followsGrammar_numeral {files : Files} {digits : List Byte} (found : digits ≠ []) :
    FollowsGrammar files (text "0x" ++ digits) <-> ¬ BadNumeral (text "0x" ++ digits) := by
  have accepted (d : LootMask) : (parseMask files d (text "0x" ++ digits)).isSome = true := by
    rw [parseMask_numeral found]
    rfl
  rw [badNumeral_numeral found, not_not]
  constructor
  · intro follows
    exact inGrammar_numeral.mp ((follows.accepts (.new false)).mp (accepted _))
  · intro numeral
    refine ⟨fun d => iff_of_true (accepted d) (.id numeral), ?_⟩
    intro d others m same _ parsed
    rw [parseMask_numeral found] at parsed
    rw [← Option.some.inj parsed, ← List.append_cancel_left same]
    exact ids_numeral numeral

/-- `parseMask` follows its grammar except for numbers whose digits are not those
of an id and for drop lists whose name does not fit. -/
theorem parseMask_follows_grammar_iff (files : Files) (n : List Byte) :
    FollowsGrammar files n <-> ¬ BadNumeral n ∧ ¬ Misnamed files n := by
  by_cases form : Form n
  · cases form with
    | all =>
        refine iff_of_true (followsGrammar_of_accepts (by decide) fun d => iff_of_true rfl .all) ⟨?_, ?_⟩
        · exact fun bad => by cases bad.head
        · exact fun misnamed => by cases misnamed.head
    | none =>
        refine iff_of_true (followsGrammar_of_accepts (by decide) fun d => iff_of_true rfl .none) ⟨?_, ?_⟩
        · exact fun bad => by cases bad.head
        · exact fun misnamed => by cases misnamed.head
    | list named =>
        rw [followsGrammar_list named]
        exact (and_iff_right fun bad => by cases bad.head).symm
    | numeral found =>
        rw [followsGrammar_numeral found]
        exact (and_iff_left fun misnamed => by cases misnamed.head).symm
  · refine iff_of_true ⟨fun d => ?_, ?_⟩ ⟨fun bad => form bad.form, fun bad => form bad.form⟩
    · rw [parseMask_of_not_form form]
      exact iff_of_false Bool.false_ne_true fun grammatical => form grammatical.form
    · intro d digits m same numeral _
      exact absurd (same ▸ .numeral numeral.found) form

/-- The id `1g` is taken for the id 1. -/
theorem parseMask_takes_other_characters :
    ¬ FollowsGrammar (fun _ => none) (text "0x1g") := by
  intro follows
  have accepted : (parseMask (fun _ => none) (.new false) (text "0x1g")).isSome = true := rfl
  have numeral : IdDigits (text "1g") := inGrammar_numeral.mp ((follows.accepts _).mp accepted)
  have digit := numeral.hex 0x67 (by decide)
  cases digit

end RfxLoot
end Rfx
