import Mathlib.Algebra.GroupWithZero.Nat
import Mathlib.Data.List.Basic

namespace Library
namespace ByteSet

/-!
# Sets of numbers in the bits of bytes

Byte `i` of a list stands for the eight numbers from `8 * i` on, its highest bit
for the first of them.  Each operation on the bytes is the operation on sets that
its bits say, and the bits that are set in all bytes are as many as the numbers
below eight times the length that belong to the set.
-/

/-- Does a number belong to the set? -/
def mem (bytes : List UInt8) (i : Nat) : Bool :=
  bytes[i / 8]?.any fun byte => byte.toBitVec.getMsbD (i % 8)

/-- How many bits of a byte are set? -/
def popcount (byte : UInt8) : Nat :=
  (List.range 8).countP fun j => byte.toBitVec.getMsbD j

variable {bytes other : List UInt8}

theorem mem_of_lt {i : Nat} (inside : i / 8 < bytes.length) :
    mem bytes i = bytes[i / 8].toBitVec.getMsbD (i % 8) := by
  rw [mem, List.getElem?_eq_getElem inside, Option.any_some]

theorem mem_of_ge {i : Nat} (beyond : bytes.length ≤ i / 8) : mem bytes i = false := by
  rw [mem, List.getElem?_eq_none beyond, Option.any_none]

/-- What is done to all bits is done to the members. -/
theorem mem_zipWith (op : UInt8 -> UInt8 -> UInt8) (bit : Bool -> Bool -> Bool)
    (bitwise : forall a b : UInt8, forall j, j < 8 ->
      (op a b).toBitVec.getMsbD j = bit (a.toBitVec.getMsbD j) (b.toBitVec.getMsbD j))
    (nothing : bit false false = false) (same : other.length = bytes.length) (i : Nat) :
    mem (List.zipWith op bytes other) i = bit (mem bytes i) (mem other i) := by
  have length : (List.zipWith op bytes other).length = bytes.length := by
    rw [List.length_zipWith, same, Nat.min_self]
  by_cases inside : i / 8 < bytes.length
  · rw [mem_of_lt (length.symm ▸ inside), mem_of_lt inside, mem_of_lt (same.symm ▸ inside),
      List.getElem_zipWith]
    exact bitwise _ _ _ (Nat.mod_lt i (by decide))
  · have beyond := Nat.le_of_not_lt inside
    rw [mem_of_ge (length.symm ▸ beyond), mem_of_ge beyond, mem_of_ge (same.symm ▸ beyond), nothing]

/-- The union of two sets. -/
theorem mem_or (same : other.length = bytes.length) (i : Nat) :
    mem (List.zipWith (fun a b => a ||| b) bytes other) i = (mem bytes i || mem other i) := by
  refine mem_zipWith _ (fun a b => a || b) ?_ rfl same i
  intro a b j _
  rw [UInt8.toBitVec_or, BitVec.getMsbD_or]

/-- The difference of two sets. -/
theorem mem_andNot (same : other.length = bytes.length) (i : Nat) :
    mem (List.zipWith (fun a b => a &&& ~~~b) bytes other) i = (mem bytes i && !mem other i) := by
  refine mem_zipWith _ (fun a b => a && !b) ?_ rfl same i
  intro a b j inside
  rw [UInt8.toBitVec_and, UInt8.toBitVec_not, BitVec.getMsbD_and, BitVec.getMsbD_not,
    decide_eq_true inside, Bool.true_and]

theorem mem_replicate (n : Nat) (byte : UInt8) (i : Nat) :
    mem (List.replicate n byte) i = (decide (i / 8 < n) && byte.toBitVec.getMsbD (i % 8)) := by
  by_cases inside : i / 8 < n
  · rw [mem_of_lt (by rwa [List.length_replicate]), List.getElem_replicate, decide_eq_true inside,
      Bool.true_and]
  · rw [mem_of_ge (by rw [List.length_replicate]; exact Nat.le_of_not_lt inside),
      decide_eq_false inside, Bool.false_and]

/-- One byte is replaced. -/
theorem mem_set {k : Nat} (inside : k < bytes.length) (byte : UInt8) (i : Nat) :
    mem (bytes.set k byte) i =
      if i / 8 = k then byte.toBitVec.getMsbD (i % 8) else mem bytes i := by
  by_cases here : i / 8 = k
  · rw [if_pos here, mem, here, List.getElem?_set_self inside, Option.any_some]
  · rw [if_neg here, mem, List.getElem?_set_ne (Ne.symm here), mem]

/-- The bits that are set are the numbers that belong to the set. -/
theorem sum_popcount (bytes : List UInt8) :
    (bytes.map popcount).sum = (List.range (8 * bytes.length)).countP (mem bytes) := by
  induction bytes with
  | nil => rfl
  | cons byte bytes inductionHypothesis =>
      have first : (List.range 8).countP (mem (byte :: bytes)) = popcount byte := by
        refine List.countP_congr fun j member => ?_
        have below : j < 8 := List.mem_range.mp member
        rw [mem, Nat.div_eq_of_lt below, Nat.mod_eq_of_lt below]
        rfl
      have later : (List.range (8 * bytes.length)).countP (fun i => mem (byte :: bytes) (8 + i)) =
          (List.range (8 * bytes.length)).countP (mem bytes) := by
        refine List.countP_congr fun i _ => ?_
        rw [mem, Nat.add_div_left i (by decide), Nat.add_mod_left, List.getElem?_cons_succ, mem]
      rw [List.map_cons, List.sum_cons, inductionHypothesis, List.length_cons,
        Nat.mul_succ, Nat.add_comm (8 * _) 8, List.range_add, List.countP_append, first,
        List.countP_map]
      exact congrArg (popcount byte + ·) later.symm

end ByteSet
end Library
