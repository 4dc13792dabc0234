import Mathlib.Data.Nat.Count
import Mathlib.Data.Set.Card
import Rfx.Library.ByteSet
import Rfx.Loot

namespace Rfx
namespace LootMask

open Library

/-!
# A mask as a set of ids

A mask is the set of the 16-bit ids that `test` finds in it.  What the operations
do to the bytes of masks is what they do to these sets, and `count` is the number
of the ids.
-/

/-- The ids in a mask. -/
def ids (m : LootMask) : Set Nat :=
  {id | m.test id = true}

@[simp] theorem mem_ids (m : LootMask) (id : Nat) : id ∈ m.ids <-> m.test id = true :=
  Iff.rfl

theorem bit_eq (b : Byte) (idx : Nat) :
    decide (bit idx &&& b ≠ 0) = b.toBitVec.getMsbD (idx % 8) := by
  have all : forall j : Fin 8, forall b : Byte,
      decide (((0x80 : UInt8) >>> j.val.toUInt8) &&& b ≠ 0) = b.toBitVec.getMsbD j := by
    intro j
    apply forall_byte
    revert j
    decide +kernel
  rw [bit, show idx &&& 7 = idx % 8 from Nat.and_two_pow_sub_one_eq_mod idx 3]
  exact all ⟨idx % 8, Nat.mod_lt idx (by decide)⟩ b

theorem test_eq (m : LootMask) (idx : Nat) : m.test idx = ByteSet.mem m.mask.toList idx := by
  have byteOf : idx >>> 3 = idx / 8 := Nat.shiftRight_eq_div_pow idx 3
  by_cases inside : idx >>> 3 < 8192
  · have insideList : idx / 8 < m.mask.toList.length := by
      rw [Vector.length_toList, ← byteOf]
      exact inside
    rw [test, dif_pos inside, ByteSet.mem_of_lt insideList, bit_eq]
    simp only [byteOf, Vector.getElem_toList]
  · have beyond : m.mask.toList.length ≤ idx / 8 := by
      rw [Vector.length_toList, ← byteOf]
      exact Nat.le_of_not_lt inside
    rw [test, dif_neg inside, ByteSet.mem_of_ge beyond]

/-- Only 16-bit ids are found. -/
theorem lt_of_test {m : LootMask} {idx : Nat} (found : m.test idx = true) : idx < 65536 := by
  by_contra beyond
  have outside : ¬ idx >>> 3 < 8192 := by
    rw [Nat.shiftRight_eq_div_pow]
    omega
  rw [test, dif_neg outside] at found
  cases found

@[simp] theorem test_new (flag : Bool) (idx : Nat) :
    (LootMask.new flag).test idx = (decide (idx < 65536) && flag) := by
  have byteBound : idx / 8 < 8192 <-> idx < 65536 := by omega
  have below : idx % 8 < 8 := Nat.mod_lt idx (by decide)
  rw [test_eq, LootMask.new, Vector.toList_replicate, ByteSet.mem_replicate]
  simp only [byteBound]
  cases flag with
  | false => simp
  | true =>
      have ones : (0xff : UInt8).toBitVec = BitVec.allOnes 8 := rfl
      rw [if_pos rfl, ones, BitVec.getMsbD_allOnes, decide_eq_true below]

/-- Nothing is left of what the mask was. -/
theorem setAll_eq (m : LootMask) (flag : Bool) : m.setAll flag = .new flag := by
  unfold setAll LootMask.new
  congr 1
  ext i inside
  simp

theorem test_add (m other : LootMask) (idx : Nat) :
    (m.add other).test idx = (m.test idx || other.test idx) := by
  rw [test_eq, test_eq, test_eq, add, Vector.toList_zipWith]
  exact ByteSet.mem_or (by rw [Vector.length_toList, Vector.length_toList]) idx

theorem test_sub (m other : LootMask) (idx : Nat) :
    (m.sub other).test idx = (m.test idx && !other.test idx) := by
  rw [test_eq, test_eq, test_eq, sub, Vector.toList_zipWith]
  exact ByteSet.mem_andNot (by rw [Vector.length_toList, Vector.length_toList]) idx

@[simp] theorem ids_add (m other : LootMask) : (m.add other).ids = m.ids ∪ other.ids := by
  ext idx
  simp only [mem_ids, Set.mem_union, test_add, Bool.or_eq_true]

@[simp] theorem ids_sub (m other : LootMask) : (m.sub other).ids = m.ids \ other.ids := by
  ext idx
  simp only [mem_ids, Set.mem_sdiff, test_sub, Bool.and_eq_true, Bool.not_eq_true', Bool.not_eq_true]

@[simp] theorem ids_new (flag : Bool) :
    (LootMask.new flag).ids = {id | id < 65536 ∧ flag = true} := by
  ext idx
  simp only [mem_ids, test_new, Bool.and_eq_true, decide_eq_true_eq, Set.mem_ofPred_eq]

theorem getMsbD_bit (id : Nat) {j : Nat} (below : j < 8) :
    (bit id).toBitVec.getMsbD j = decide (j = id % 8) := by
  have all : forall i j : Fin 8,
      ((0x80 : UInt8) >>> i.val.toUInt8).toBitVec.getMsbD j = decide (j = i) := by
    decide
  have here := all ⟨id % 8, Nat.mod_lt id (by decide)⟩ ⟨j, below⟩
  rw [bit, show id &&& 7 = id % 8 from Nat.and_two_pow_sub_one_eq_mod id 3]
  simpa using here

/-- `set` changes nothing about the other ids, and nothing at all beyond the last id. -/
theorem test_set (m : LootMask) (id : Nat) (flag : Bool) (idx : Nat) :
    (m.set id flag).1.test idx = if idx = id ∧ id < 65536 then flag else m.test idx := by
  have byteOf : id >>> 3 = id / 8 := Nat.shiftRight_eq_div_pow id 3
  by_cases inside : id >>> 3 < 8192
  · have small : id < 65536 := by omega
    have insideList : id >>> 3 < m.mask.toList.length := by rwa [Vector.length_toList]
    have below : idx % 8 < 8 := Nat.mod_lt idx (by decide)
    rw [test_eq, set, dif_pos inside, Vector.toList_set, ByteSet.mem_set insideList, test_eq]
    by_cases sameByte : idx / 8 = id >>> 3
    · have old : m.mask[id >>> 3].toBitVec.getMsbD (idx % 8) = ByteSet.mem m.mask.toList idx := by
        have insideIdx : idx / 8 < m.mask.toList.length := by rwa [sameByte]
        rw [ByteSet.mem_of_lt insideIdx]
        simp only [sameByte, Vector.getElem_toList]
      have sameId : idx % 8 = id % 8 <-> idx = id := by omega
      rw [if_pos sameByte, ← old]
      cases flag with
      | true =>
          rw [if_pos rfl, UInt8.toBitVec_or, BitVec.getMsbD_or, getMsbD_bit id below]
          by_cases same : idx = id
          · simp [same, small]
          · simp [same, sameId]
      | false =>
          rw [if_neg Bool.false_ne_true, UInt8.toBitVec_and, UInt8.toBitVec_not, BitVec.getMsbD_and,
            BitVec.getMsbD_not, getMsbD_bit id below, decide_eq_true below]
          by_cases same : idx = id
          · simp [same, small]
          · simp [same, sameId]
    · have other : idx ≠ id := fun same => sameByte (by rw [same, byteOf])
      rw [if_neg sameByte, if_neg fun both => other both.1]
  · have large : ¬ id < 65536 := by omega
    rw [set, dif_neg inside, if_neg fun both => large both.2]

/-- `count` counts the ids. -/
theorem count_eq (m : LootMask) :
    m.count = ((Finset.range 65536).filter fun id => m.test id = true).card := by
  have bytes : (m.mask.toList.map fun byte => (List.range 8).countP fun j => bit j &&& byte ≠ 0) =
      m.mask.toList.map ByteSet.popcount := by
    refine List.map_congr_left fun byte _ => List.countP_congr fun j member => ?_
    rw [bit_eq, Nat.mod_eq_of_lt (List.mem_range.mp member)]
  have sameTest : ByteSet.mem m.mask.toList = m.test := by
    funext idx
    rw [test_eq]
  have asCount : (List.range (8 * 8192)).countP m.test = Nat.count (fun id => m.test id = true) 65536 := by
    rw [Nat.count]
    exact List.countP_congr fun id _ => by rw [decide_eq_true_eq]
  rw [count, bytes, ByteSet.sum_popcount, Vector.length_toList, sameTest, asCount,
    Nat.count_eq_card_filter_range]

/-- The ids that `test` finds, counted. -/
theorem ncard_ids (m : LootMask) : m.ids.ncard = m.count := by
  have asFinset : m.ids = ↑((Finset.range 65536).filter fun id => m.test id = true) := by
    ext id
    rw [Finset.mem_coe, Finset.mem_filter, Finset.mem_range, mem_ids]
    exact ⟨fun found => ⟨lt_of_test found, found⟩, fun both => both.2⟩
  rw [asFinset, Set.ncard_coe_finset, count_eq]

theorem count_le (m : LootMask) : m.count ≤ 65536 := by
  have all := Finset.card_filter_le (Finset.range 65536) fun id => m.test id = true
  rwa [← count_eq, Finset.card_range] at all

/-! ## All operations -/

/-- `set` returns whether the id was in the mask. -/
theorem set_snd (m : LootMask) (id : Nat) (flag : Bool) : (m.set id flag).2 = m.test id := by
  unfold set test
  split
  · dsimp only
    rw [UInt8.and_comm]
  · rfl

theorem set_of_ge (m : LootMask) {id : Nat} (beyond : 65536 ≤ id) (flag : Bool) :
    m.set id flag = (m, false) := by
  have outside : ¬ id >>> 3 < 8192 := by
    rw [Nat.shiftRight_eq_div_pow]
    omega
  rw [set, dif_neg outside]

/-- Setting an id puts it in or takes it out. -/
theorem ids_set (m : LootMask) {id : Nat} (small : id < 65536) (flag : Bool) :
    (m.set id flag).1.ids = if flag then insert id m.ids else m.ids \ {id} := by
  ext idx
  rw [mem_ids, test_set]
  by_cases here : idx = id
  · subst here
    rw [if_pos ⟨rfl, small⟩]
    cases flag with
    | true => exact iff_of_true rfl (Set.mem_insert _ _)
    | false => exact iff_of_false Bool.false_ne_true fun member => member.2 rfl
  · rw [if_neg fun both => here both.1, ← mem_ids]
    cases flag with
    | true => exact (Set.mem_insert_iff.trans (or_iff_right here)).symm
    | false => exact ⟨fun member => ⟨member, here⟩, And.left⟩

/-- The operations on masks are those on sets of 16-bit ids. -/
theorem ids_operations (m n : LootMask) :
    (forall id, id ∈ m.ids -> id < 65536) ∧
    (forall i flag, (m.set i flag).2 = m.test i) ∧
    (forall i flag, i < 65536 ->
      (m.set i flag).1.ids = if flag then insert i m.ids else m.ids \ {i}) ∧
    (forall i flag, 65536 ≤ i -> m.set i flag = (m, false)) ∧
    (m.add n).ids = m.ids ∪ n.ids ∧ (m.sub n).ids = m.ids \ n.ids ∧
    (m.setAll true).ids = {id | id < 65536} ∧ (m.setAll false).ids = ∅ ∧
    m.count = m.ids.ncard ∧ m.count ≤ 65536 ∧
    ((65536 : UInt32) - m.count.toUInt32).toNat = 65536 - m.count := by
  refine ⟨fun id => lt_of_test, m.set_snd, fun i flag small => m.ids_set small flag,
    fun i flag beyond => m.set_of_ge beyond flag, ids_add m n, ids_sub m n, ?_, ?_,
    m.ncard_ids.symm, m.count_le, ?_⟩
  · rw [setAll_eq, ids_new]
    simp only [and_true]
  · rw [setAll_eq, ids_new]
    simp only [Bool.false_eq_true, and_false, Set.ofPred_false]
  · have le := m.count_le
    have same : m.count.toUInt32.toNat = m.count :=
      UInt32.toNat_ofNat_of_lt' (Nat.lt_of_le_of_lt le (by decide))
    have enough : m.count.toUInt32 ≤ 65536 := UInt32.le_iff_toNat_le.mpr (same.symm ▸ le)
    rw [UInt32.toNat_sub_of_le _ _ enough, same]
    rfl

end LootMask

end Rfx
