import Rfx.Sock

namespace Rfx
namespace Sock

open Library

/-!
# What `write_full_ms` reports

`write_ms` tries again until something is sent, and returns how much the last call
has sent; the calls before that one have sent nothing.  `write_full_ms` adds the
length of the buffer to its position and not what `write_ms` returns, so that it
never makes a second turn, and reports the whole buffer whatever the first turn
has sent.
-/

/-- The calls of `write_ms` before the last one have failed, and the last one has sent what is
returned. -/
theorem writeMs_sent {script : Script} {poll : Nat -> Bool} {first last n : Nat}
    (returned : Loop.Returns (writeMs script poll) first (.sent n, last)) :
    script last = .moved n ∧
      forall i, first ≤ i -> i < last -> Exists fun e => script i = .failed e := by
  refine Loop.post_of_returns
    (fun i => forall j, first ≤ j -> j < i -> Exists fun e => script j = .failed e)
    (fun r => forall n last, r = (Outcome.sent n, last) -> script last = .moved n ∧
      forall i, first ≤ i -> i < last -> Exists fun e => script i = .failed e)
    ?_ ?_ ?_ returned n last rfl
  · intro i next before turn j later earlier
    have step : next = i + 1 ∧ Exists fun e => script i = .failed e := by
      unfold writeMs at turn
      split at turn
      · cases turn
      · next failed =>
          cases turn
          exact ⟨rfl, _, failed⟩
      · next failed =>
          split at turn
          · cases turn
            exact ⟨rfl, _, failed⟩
          · cases turn
      · cases turn
    rcases step with ⟨rfl, failed⟩
    by_cases here : j = i
    · exact here ▸ failed
    · exact before j later (by omega)
  · intro i r before turn n last same
    subst same
    unfold writeMs at turn
    split at turn
    · next moved =>
        cases turn
        exact ⟨moved, before⟩
    · cases turn
    · split at turn <;> cases turn
    · cases turn
  · intro j later earlier
    omega

theorem writeMs_again {script : Script} {i : Nat} (retried : Retried (script i)) :
    writeMs script (fun _ => true) i = .next (i + 1) := by
  rcases retried with intr | wouldBlock
  · rw [writeMs, intr]
  · rw [writeMs, wouldBlock]
    rfl

/-- When nothing fails for good and `POLLOUT` is reported, `write_ms` sends something. -/
theorem writeMs_patient {script : Script} (patient : Patient script) :
    Exists fun n => Exists fun last =>
      Loop.Returns (writeMs script fun _ => true) 0 (.sent n, last) := by
  rcases patient.first with ⟨k, n, moved, failed⟩
  refine ⟨n, k, ?_⟩
  apply Loop.returns_result (fun i => i ≤ k) (fun i => k - i) ?_ (Nat.zero_le k)
  intro i before
  by_cases last : i = k
  · right
    rw [writeMs, last, moved]
  · left
    have earlier : i < k := by omega
    exact ⟨i + 1, writeMs_again (failed i earlier), earlier, by omega⟩

/-- What is reported is what was sent. -/
structure Reports (buf : List Byte) (result : Int) (out : List Byte) : Prop where
  counted : result = out.length
  inOrder : out <+: buf
  whole : result = buf.length <-> out = buf

/-- The loop makes one turn. -/
theorem writeFullMs_returns_iff (outcome : Nat -> Outcome) (buf : List Byte) (len : UInt32)
    {result : Int} {out : List Byte} :
    Loop.Returns (writeFullMs outcome buf len) ⟨0, 0, []⟩ (result, out) <->
      match outcome 0 with
      | .failed => result = 0 ∧ out = []
      | .sent n => result = len.toBitVec.toInt ∧ out = buf.take (transfer n len.toNat) := by
  cases called : outcome 0 with
  | failed =>
      have last : writeFullMs outcome buf len ⟨0, 0, []⟩ = .done (0, []) := by
        simp only [writeFullMs, called]
        rfl
      rw [Loop.returns_of_done last, Prod.mk.injEq]
  | sent n =>
      have last : writeFullMs outcome buf len ⟨0, 0, []⟩ =
          .done (len.toBitVec.toInt, buf.take (transfer n len.toNat)) := by
        simp [writeFullMs, called]
      rw [Loop.returns_of_done last, Prod.mk.injEq]

/-- An `int` of 32 bits counts like the bits only below 2^31. -/
theorem toInt_eq_iff (len : UInt32) {n : Nat} (small : n < 2 ^ 31) :
    len.toBitVec.toInt = n <-> len.toNat = n := by
  have below := len.toNat_lt
  rw [BitVec.toInt_eq_toNat_cond, UInt32.toNat_toBitVec]
  split <;> omega

section FirstCall

variable {outcome : Nat -> Outcome} {buf : List Byte} {len : UInt32}

theorem reports_of_failed (called : outcome 0 = .failed) :
    Exists fun result => Exists fun out =>
      Loop.Returns (writeFullMs outcome buf len) ⟨0, 0, []⟩ (result, out) ∧ Reports buf result out := by
  refine ⟨0, [], ?_, ?_⟩
  · rw [writeFullMs_returns_iff, called]
    exact ⟨rfl, rfl⟩
  · constructor
    · rfl
    · exact List.nil_prefix
    · rw [eq_comm, Int.natCast_eq_zero, List.length_eq_zero_iff, eq_comm]

/-- When something is sent, the whole buffer is reported. -/
theorem reports_iff_of_sent {n : Nat} (called : outcome 0 = .sent n) (size : len.toNat = buf.length) :
    (Exists fun result => Exists fun out =>
      Loop.Returns (writeFullMs outcome buf len) ⟨0, 0, []⟩ (result, out) ∧ Reports buf result out) <->
      transfer n len.toNat = len.toNat := by
  have le := transfer_le n len.toNat
  have sent : (buf.take (transfer n len.toNat)).length = transfer n len.toNat := by
    rw [List.length_take, ← size]
    omega
  constructor
  · rintro ⟨result, out, returned, reports⟩
    rw [writeFullMs_returns_iff, called] at returned
    rcases returned with ⟨rfl, rfl⟩
    have counted := reports.counted
    rw [sent] at counted
    exact ((toInt_eq_iff len (transfer_lt n _)).mp counted).symm
  · intro everything
    have returned : Loop.Returns (writeFullMs outcome buf len) ⟨0, 0, []⟩
        (len.toBitVec.toInt, buf.take (transfer n len.toNat)) := by
      rw [writeFullMs_returns_iff, called]
      exact ⟨rfl, rfl⟩
    refine ⟨_, _, returned, ?_⟩
    have small : len.toNat < 2 ^ 31 := everything ▸ transfer_lt n _
    have all : buf.take len.toNat = buf := by rw [size, List.take_length]
    rw [everything, all]
    have result : len.toBitVec.toInt = buf.length := by
      rw [← size]
      exact (toInt_eq_iff len small).mpr rfl
    exact ⟨result, List.prefix_refl buf, iff_of_true result rfl⟩

end FirstCall

/-- What is sent is reported exactly if the first call of `write_ms` fails or sends everything. -/
theorem reports_iff (outcome : Nat -> Outcome) {buf : List Byte} {len : UInt32}
    (size : len.toNat = buf.length) :
    (Exists fun result => Exists fun out =>
      Loop.Returns (writeFullMs outcome buf len) ⟨0, 0, []⟩ (result, out) ∧ Reports buf result out) <->
      forall n, outcome 0 = .sent n -> transfer n len.toNat = len.toNat := by
  cases called : outcome 0 with
  | failed => exact iff_of_true (reports_of_failed called) nofun
  | sent n =>
      rw [reports_iff_of_sent called size]
      constructor
      · rintro everything _ ⟨⟩
        exact everything
      · intro everything
        exact everything n rfl

/-- A buffer of two bytes, with all of it sent at once. -/
theorem reports_iff_two :
    (2 : UInt32).toNat = [0x61, 0x62].length ∧
    Exists fun result => Exists fun out =>
      Loop.Returns (writeFullMs (fun _ => .sent 2) [0x61, 0x62] 2) ⟨0, 0, []⟩ (result, out) ∧
        Reports [0x61, 0x62] result out := by
  refine ⟨rfl, (reports_iff (fun _ => .sent 2) rfl).mpr ?_⟩
  intro n called
  cases called
  rfl

/-- One byte of two is sent, and two are reported. -/
theorem not_reports :
    ¬ (forall (outcome : Nat -> Outcome) (buf : List Byte) (len : UInt32), len.toNat = buf.length ->
        Exists fun result => Exists fun out =>
          Loop.Returns (writeFullMs outcome buf len) ⟨0, 0, []⟩ (result, out) ∧
            Reports buf result out) := by
  intro all
  rcases all (fun _ => .sent 1) [0x61, 0x62] 2 rfl with ⟨result, out, returned, reports⟩
  rcases (writeFullMs_returns_iff _ _ _).mp returned with ⟨rfl, rfl⟩
  have counted : (2 : Int) = 1 := reports.counted
  omega

/-! ## On a descriptor -/

/-- What the calls of `write_ms` return, one after the other, when the descriptor does what a script
says. -/
def Outcomes (script : Script) (poll : Nat -> Bool) (outcome : Nat -> Outcome) : Prop :=
  Exists fun first : Nat -> Nat => first 0 = 0 ∧ forall i, Exists fun last =>
    Loop.Returns (writeMs script poll) (first i) (outcome i, last) ∧ first (i + 1) = last + 1

/-- On a descriptor on which nothing fails for good, the first write that is not interrupted has to
accept everything. -/
theorem reports_iff_of_patient {script : Script} (patient : Patient script) {outcome : Nat -> Outcome}
    {buf : List Byte} {len : UInt32} (calls : Outcomes script (fun _ => true) outcome)
    (size : len.toNat = buf.length) :
    (Exists fun result => Exists fun out =>
      Loop.Returns (writeFullMs outcome buf len) ⟨0, 0, []⟩ (result, out) ∧ Reports buf result out) <->
      Exists fun k => Exists fun n => script k = .moved n ∧
        (forall i, i < k -> Exists fun e => script i = .failed e) ∧
        transfer n len.toNat = len.toNat := by
  rcases writeMs_patient patient with ⟨n, last, sends⟩
  rcases calls with ⟨first, start, follow⟩
  rcases follow 0 with ⟨last', returned, -⟩
  rw [start] at returned
  have called : outcome 0 = .sent n := congrArg Prod.fst (Loop.Returns.unique returned sends)
  rcases writeMs_sent sends with ⟨moved, failed⟩
  rw [reports_iff_of_sent called size]
  constructor
  · intro everything
    exact ⟨last, n, moved, fun i => failed i (Nat.zero_le i), everything⟩
  · rintro ⟨k, m, movedToo, failedToo, everything⟩
    have same : k = last := by
      apply Nat.le_antisymm
      · by_contra later
        rcases failedToo last (Nat.lt_of_not_le later) with ⟨e, here⟩
        cases moved.symm.trans here
      · by_contra earlier
        rcases failed k (Nat.zero_le k) (Nat.lt_of_not_le earlier) with ⟨e, here⟩
        cases movedToo.symm.trans here
    subst same
    cases moved.symm.trans movedToo
    exact everything

end Sock
end Rfx
