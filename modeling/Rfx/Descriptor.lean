import Mathlib.Data.Nat.Find
import Rfx.SendQueue

namespace Rfx

/-!
# Calls on a descriptor

What `read`, `write` and `writev` do belongs to the kernel.  A *script* says what
becomes of each call in turn: it moves some bytes, or it fails.  A call moves at
least one byte if there is any, no more than there are, and no more than an `int` can
count, and every such number is possible.
-/

/-- What becomes of a call. -/
inductive Answer
  | moved (n : Nat)
  | failed (errno : Errno)
  deriving DecidableEq

/-- What the calls do, one after the other. -/
abbrev Script := Nat -> Answer

/-- The most that one call moves. -/
def ioMax : Nat := 2 ^ 31 - 1

/-- How many of `left` bytes are moved. -/
def transfer (n left : Nat) : Nat :=
  min (max n 1) (min left ioMax)

theorem transfer_le (n left : Nat) : transfer n left ≤ left :=
  Nat.le_trans (Nat.min_le_right ..) (Nat.min_le_left ..)

theorem transfer_lt (n left : Nat) : transfer n left < 2 ^ 31 := by
  unfold transfer ioMax
  omega

theorem transfer_pos (n : Nat) {left : Nat} (some : 0 < left) : 0 < transfer n left := by
  unfold transfer ioMax
  omega

/-- A call that may be made again. -/
def Retried (answer : Answer) : Prop :=
  answer = .failed .eintr ∨ answer = .failed .eagain

/-- No call fails for good: what fails may be tried again, and is at last done. -/
structure Patient (script : Script) : Prop where
  again : forall i e, script i = .failed e -> e = .eintr ∨ e = .eagain
  bounded : Exists fun bound => forall i, bound ≤ i -> Exists fun n => script i = .moved n

theorem Patient.retried {script : Script} (patient : Patient script) {i : Nat} {e : Errno}
    (failed : script i = .failed e) : Retried (.failed e) := by
  rcases patient.again i e failed with intr | wouldBlock
  · exact Or.inl (congrArg Answer.failed intr)
  · exact Or.inr (congrArg Answer.failed wouldBlock)

/-- The first call that does not fail. -/
theorem Patient.first {script : Script} (patient : Patient script) :
    Exists fun k => Exists fun n => script k = .moved n ∧
      forall i, i < k -> Retried (script i) := by
  classical
  have done : Exists fun k => Exists fun n => script k = .moved n := by
    rcases patient.bounded with ⟨bound, moves⟩
    exact ⟨bound, moves bound (Nat.le_refl bound)⟩
  rcases Nat.find_spec done with ⟨n, moved⟩
  refine ⟨Nat.find done, n, moved, ?_⟩
  intro i earlier
  cases here : script i with
  | moved n => exact absurd ⟨n, here⟩ (Nat.find_min done earlier)
  | failed e => exact patient.retried here

end Rfx
