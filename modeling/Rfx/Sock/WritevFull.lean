import Rfx.Sock

namespace Rfx
namespace Sock

open Library

/-!
# What `writev_full` sends

Entries without bytes are skipped together with the entry in front of them only when
there are bytes left to skip.  Those at the end of the array are therefore left ended
when everything is sent, and the next `writev` has nothing to send: it returns zero,
which is taken for a failure, whatever failure `errno` is about.  Without such entries
everything is sent once, in order, however the kernel splits it.
-/

/-- The last entry has no bytes. -/
def EndsEmpty (iov : List Iovec) : Prop :=
  Exists fun entry => iov.getLast? = some entry ∧ entry.len = 0

@[simp] theorem not_endsEmpty_nil : ¬ EndsEmpty [] := by
  rintro ⟨entry, last, -⟩
  cases last

@[simp] theorem endsEmpty_singleton (entry : Iovec) : EndsEmpty [entry] <-> entry.len = 0 := by
  simp [EndsEmpty]

@[simp] theorem endsEmpty_cons_cons (first second : Iovec) (iov : List Iovec) :
    EndsEmpty (first :: second :: iov) <-> EndsEmpty (second :: iov) := by
  rw [EndsEmpty, List.getLast?_cons_cons, EndsEmpty]

theorem ne_nil_of_endsEmpty {iov : List Iovec} (empty : EndsEmpty iov) : iov ≠ [] := by
  rintro rfl
  exact not_endsEmpty_nil empty

/-- Behind an entry with bytes nothing is left over. -/
theorem eq_nil_of_no_bytes {iov : List Iovec} (full : ¬ EndsEmpty iov) (none : iovBytes iov = []) :
    iov = [] := by
  induction iov with
  | nil => rfl
  | cons entry iov inductionHypothesis =>
      exfalso
      rw [iovBytes_cons, List.append_eq_nil_iff] at none
      cases iov with
      | nil =>
          rw [endsEmpty_singleton, ← Iovec.length_bytes, none.1] at full
          exact full rfl
      | cons second iov =>
          rw [endsEmpty_cons_cons] at full
          cases inductionHypothesis full none.2

/-! ## One advance -/

/-- The vector moves forward by as many bytes as were sent, inside the array, and keeps its end. -/
theorem advance_spec {bytes : Nat} {iov : List Iovec} (le : bytes ≤ (iovBytes iov).length) :
    Exists fun rest => advance bytes iov = some rest ∧ iovBytes rest = (iovBytes iov).drop bytes ∧
      (EndsEmpty rest <-> EndsEmpty iov) := by
  induction iov generalizing bytes with
  | nil =>
      have none : bytes = 0 := Nat.le_zero.mp le
      subst none
      exact ⟨[], rfl, rfl, Iff.rfl⟩
  | cons entry iov inductionHypothesis =>
      cases bytes with
      | zero => exact ⟨entry :: iov, rfl, rfl, Iff.rfl⟩
      | succ bytes =>
          rw [iovBytes_cons, List.length_append, Iovec.length_bytes] at le
          by_cases whole : entry.len ≤ bytes + 1
          · have further : bytes + 1 - entry.len ≤ (iovBytes iov).length := by omega
            rcases inductionHypothesis further with ⟨rest, advanced, left, sameEnd⟩
            refine ⟨rest, ?_, ?_, ?_⟩
            · rw [advance, if_pos whole, advanced]
            · have skipped : entry.bytes.drop (bytes + 1) = [] :=
                List.drop_of_length_le (by rwa [Iovec.length_bytes])
              rw [left, iovBytes_cons, List.drop_append, Iovec.length_bytes, skipped, List.nil_append]
            · cases iov with
              | nil =>
                  have same : entry.len ≠ 0 := by
                    rw [iovBytes_nil, List.length_nil] at le
                    omega
                  rw [sameEnd, endsEmpty_singleton]
                  exact iff_of_false not_endsEmpty_nil same
              | cons second iov => rw [sameEnd, endsEmpty_cons_cons]
          · refine ⟨entry.advance (bytes + 1) :: iov, ?_, ?_, ?_⟩
            · rw [advance, if_neg whole]
            · rw [iovBytes_cons, iovBytes_cons, Iovec.bytes_advance _ (by omega),
                List.drop_append_of_le_length (by rw [Iovec.length_bytes]; omega)]
            · cases iov with
              | nil =>
                  rw [endsEmpty_singleton, endsEmpty_singleton]
                  refine iff_of_false ?_ ?_
                  · change ¬ entry.len - (bytes + 1) = 0
                    omega
                  · omega
              | cons second iov => rw [endsEmpty_cons_cons, endsEmpty_cons_cons]

/-! ## One turn -/

theorem retry_cases (wait : Nat -> Bool) (w : Vectored) :
    retry wait w = .next { w with calls := w.calls + 1 } ∨
      retry wait w = .done (.returned (-1) w.out) := by
  unfold retry
  cases w.errno with
  | eintr => exact Or.inl rfl
  | eagain =>
      dsimp only
      split
      · exact Or.inl rfl
      · exact Or.inr rfl
  | other => exact Or.inr rfl

theorem retry_of_again {w : Vectored} (again : w.errno = .eintr ∨ w.errno = .eagain) :
    retry (fun _ => true) w = .next { w with calls := w.calls + 1 } := by
  unfold retry
  rcases again with intr | wouldBlock
  · rw [intr]
  · rw [wouldBlock]
    rfl

section Turns

variable (wait : Nat -> Bool) {script : Script} {w : Vectored}

theorem writevTurn_nil (ended : w.iov = []) :
    writevTurn wait script w = .done (.returned w.nwritten w.out) := by
  rw [writevTurn, ended]

theorem writevTurn_empty (more : w.iov ≠ []) (none : iovBytes w.iov = []) :
    writevTurn wait script w = retry wait w := by
  unfold writevTurn
  split
  · next ended => exact absurd ended more
  · dsimp only
    rw [none, List.length_nil, if_pos rfl]

theorem writevTurn_failed {errno : Errno} (bytes : iovBytes w.iov ≠ [])
    (failed : script w.calls = .failed errno) :
    writevTurn wait script w = retry wait { w with errno } := by
  unfold writevTurn
  split
  · next ended =>
      rw [ended] at bytes
      exact absurd rfl bytes
  · dsimp only
    rw [if_neg fun zero => bytes (List.length_eq_zero_iff.mp zero), failed]

theorem writevTurn_moved {n : Nat} (bytes : iovBytes w.iov ≠ []) (moved : script w.calls = .moved n)
    (small : w.nwritten + (iovBytes w.iov).length < 2 ^ 31) :
    Exists fun rest =>
      writevTurn wait script w =
        .next ⟨rest, w.nwritten + transfer n (iovBytes w.iov).length, w.errno, w.calls + 1,
          w.out ++ (iovBytes w.iov).take (transfer n (iovBytes w.iov).length)⟩ ∧
      iovBytes rest = (iovBytes w.iov).drop (transfer n (iovBytes w.iov).length) ∧
      (EndsEmpty rest <-> EndsEmpty w.iov) := by
  have le := transfer_le n (iovBytes w.iov).length
  rcases advance_spec le with ⟨rest, advanced, left, sameEnd⟩
  refine ⟨rest, ?_, left, sameEnd⟩
  unfold writevTurn
  split
  · next ended =>
      rw [ended] at bytes
      exact absurd rfl bytes
  · have fits : ¬ 2 ^ 31 ≤ w.nwritten + transfer n (iovBytes w.iov).length := by omega
    dsimp only
    rw [if_neg fun zero => bytes (List.length_eq_zero_iff.mp zero), moved]
    dsimp only
    rw [if_neg fits, advanced]

end Turns

/-! ## The whole loop -/

/-- What is sent and what is left are the vector, and what is sent is counted. -/
structure Sending (all : List Byte) (w : Vectored) : Prop where
  bytes : w.out ++ iovBytes w.iov = all
  counted : w.nwritten = w.out.length

theorem Sending.total {all : List Byte} {w : Vectored} (sending : Sending all w) :
    w.nwritten + (iovBytes w.iov).length = all.length := by
  rw [← sending.bytes, List.length_append, sending.counted]

/-- What a turn may do: go on with the same bytes to send, or end, when nothing is left of the vector
or with an error. -/
def Admitted (all : List Byte) (w : Vectored) : Loop.Step Vectored Written -> Prop
  | .next next => Sending all next ∧ (EndsEmpty next.iov <-> EndsEmpty w.iov)
  | .done r => (w.iov = [] ∧ r = .returned w.nwritten w.out) ∨ r = .returned (-1) w.out

section Admitted

variable {wait : Nat -> Bool} {script : Script} {all : List Byte} {w : Vectored}

theorem admitted_retry (sending : Sending all w) (errno : Errno) :
    Admitted all w (retry wait { w with errno }) := by
  rcases retry_cases wait { w with errno } with again | gaveUp
  · rw [again]
    exact ⟨⟨sending.bytes, sending.counted⟩, Iff.rfl⟩
  · rw [gaveUp]
    exact Or.inr rfl

theorem admitted_moved {rest : List Iovec} {bytes : Nat} (sending : Sending all w)
    (le : bytes ≤ (iovBytes w.iov).length) (left : iovBytes rest = (iovBytes w.iov).drop bytes)
    (sameEnd : EndsEmpty rest <-> EndsEmpty w.iov) :
    Admitted all w (.next ⟨rest, w.nwritten + bytes, w.errno, w.calls + 1,
      w.out ++ (iovBytes w.iov).take bytes⟩) := by
  refine ⟨⟨?_, ?_⟩, sameEnd⟩
  · dsimp only
    rw [left, List.append_assoc, List.take_append_drop]
    exact sending.bytes
  · dsimp only
    rw [List.length_append, List.length_take, Nat.min_eq_left le, sending.counted]

theorem writevTurn_admitted (small : all.length < 2 ^ 31) (sending : Sending all w) :
    Admitted all w (writevTurn wait script w) := by
  by_cases ended : w.iov = []
  · rw [writevTurn_nil wait ended]
    exact Or.inl ⟨ended, rfl⟩
  by_cases none : iovBytes w.iov = []
  · rw [writevTurn_empty wait ended none]
    exact admitted_retry sending w.errno
  cases answer : script w.calls with
  | failed errno =>
      rw [writevTurn_failed wait none answer]
      exact admitted_retry sending errno
  | moved n =>
      have total := sending.total
      rcases writevTurn_moved wait none answer (by omega) with ⟨rest, turn, left, sameEnd⟩
      rw [turn]
      exact admitted_moved sending (transfer_le ..) left sameEnd

theorem admitted_next {next : Vectored} (small : all.length < 2 ^ 31) (sending : Sending all w)
    (turn : writevTurn wait script w = .next next) :
    Sending all next ∧ (EndsEmpty next.iov <-> EndsEmpty w.iov) := by
  have admitted : Admitted all w (writevTurn wait script w) := writevTurn_admitted small sending
  rwa [turn] at admitted

theorem admitted_done {r : Written} (small : all.length < 2 ^ 31) (sending : Sending all w)
    (turn : writevTurn wait script w = .done r) :
    (w.iov = [] ∧ r = .returned w.nwritten w.out) ∨ r = .returned (-1) w.out := by
  have admitted : Admitted all w (writevTurn wait script w) := writevTurn_admitted small sending
  rwa [turn] at admitted

end Admitted

/-- Everything is sent, and nothing else: the loop ends, and returns how many bytes the vector has. -/
def SendsAll (loop : Vectored -> Loop.Step Vectored Written) (iov : List Iovec)
    (errno : Errno) : Prop :=
  Loop.Returns loop ⟨iov, 0, errno, 0, []⟩ (.returned (iovBytes iov).length (iovBytes iov))

theorem sending_start (iov : List Iovec) (errno : Errno) :
    Sending (iovBytes iov) ⟨iov, 0, errno, 0, []⟩ :=
  ⟨rfl, rfl⟩

/-- With empty entries left over at the end, the loop ends only with an error. -/
theorem not_sendsAll_of_endsEmpty (wait : Nat -> Bool) (script : Script) {iov : List Iovec}
    (errno : Errno) (small : (iovBytes iov).length < 2 ^ 31) (empty : EndsEmpty iov) :
    ¬ SendsAll (writevTurn wait script) iov errno := by
  intro sends
  have failed := Loop.post_of_returns (fun w => Sending (iovBytes iov) w ∧ EndsEmpty w.iov)
    (fun r => Exists fun out => r = .returned (-1) out) ?_ ?_ ⟨sending_start iov errno, empty⟩ sends
  · rcases failed with ⟨out, same⟩
    injection same with result
    omega
  · rintro w next ⟨sending, left⟩ turn
    rcases admitted_next small sending turn with ⟨kept, sameEnd⟩
    exact ⟨kept, sameEnd.mpr left⟩
  · rintro w r ⟨sending, left⟩ turn
    rcases admitted_done small sending turn with ⟨ended, -⟩ | gaveUp
    · exact absurd ended (ne_nil_of_endsEmpty left)
    · exact ⟨_, gaveUp⟩

/-- As long as something is left, there is a next turn with less to send, or with fewer failures to
come. -/
theorem writevTurn_progress {script : Script} {bound : Nat} {w : Vectored}
    (again : forall i e, script i = .failed e -> e = .eintr ∨ e = .eagain)
    (moves : forall i, bound ≤ i -> Exists fun n => script i = .moved n)
    (small : w.nwritten + (iovBytes w.iov).length < 2 ^ 31) (more : w.iov ≠ [])
    (full : ¬ EndsEmpty w.iov) :
    Exists fun next => writevTurn (fun _ => true) script w = .next next ∧
      (iovBytes next.iov).length + (bound - next.calls) <
        (iovBytes w.iov).length + (bound - w.calls) := by
  have bytes : iovBytes w.iov ≠ [] := fun none => more (eq_nil_of_no_bytes full none)
  cases answer : script w.calls with
  | failed errno =>
      have early : w.calls < bound := by
        by_contra late
        rcases moves w.calls (Nat.le_of_not_lt late) with ⟨n, moved⟩
        cases answer.symm.trans moved
      refine ⟨{ w with errno, calls := w.calls + 1 }, ?_, ?_⟩
      · rw [writevTurn_failed _ bytes answer, retry_of_again (again _ _ answer)]
      · dsimp only
        omega
  | moved n =>
      have positive : 0 < (iovBytes w.iov).length := List.length_pos_iff.mpr bytes
      have some := transfer_pos n positive
      rcases writevTurn_moved (fun _ => true) bytes answer small with ⟨rest, turn, left, -⟩
      refine ⟨_, turn, ?_⟩
      dsimp only
      rw [left, List.length_drop]
      omega

/-- Without them, everything is sent after finitely many calls. -/
theorem sendsAll_of_not_endsEmpty {script : Script} (patient : Patient script) {iov : List Iovec}
    (errno : Errno) (small : (iovBytes iov).length < 2 ^ 31) (full : ¬ EndsEmpty iov) :
    SendsAll (writevTurn (fun _ => true) script) iov errno := by
  rcases patient.bounded with ⟨bound, moves⟩
  apply Loop.returns_result (fun w => Sending (iovBytes iov) w ∧ ¬ EndsEmpty w.iov)
    (fun w => (iovBytes w.iov).length + (bound - w.calls)) ?_ ⟨sending_start iov errno, full⟩
  rintro w ⟨sending, noneLeft⟩
  by_cases ended : w.iov = []
  · right
    have everything := sending.bytes
    rw [ended, iovBytes_nil, List.append_nil] at everything
    rw [writevTurn_nil _ ended, sending.counted, everything]
  · left
    have total := sending.total
    rcases writevTurn_progress patient.again moves (by omega) ended noneLeft with ⟨next, turn, less⟩
    rcases admitted_next small sending turn with ⟨kept, sameEnd⟩
    exact ⟨next, turn, ⟨kept, fun empty => noneLeft (sameEnd.mp empty)⟩, less⟩

/-- Both functions send everything exactly if the last entry has bytes, or there is no entry at all. -/
theorem sendsAll_iff {script : Script} (patient : Patient script) {iov : List Iovec} (errno : Errno)
    (small : (iovBytes iov).length < 2 ^ 31) :
    (SendsAll (writevFull script) iov errno <-> ¬ EndsEmpty iov) ∧
    (SendsAll (writevFullMs (fun _ => true) script) iov errno <-> ¬ EndsEmpty iov) := by
  have both : SendsAll (writevTurn (fun _ => true) script) iov errno <-> ¬ EndsEmpty iov := by
    constructor
    · intro sends empty
      exact not_sendsAll_of_endsEmpty _ script errno small empty sends
    · exact sendsAll_of_not_endsEmpty patient errno small
  exact ⟨both, both⟩

/-- An entry without bytes stands between two others. -/
def threeEntries : List Iovec :=
  [⟨pktInit 0 4 0 cliToSrv, 0, 4, by decide⟩, ⟨pktInit 0 4 0 cliToSrv, 4, 0, by decide⟩,
    ⟨pktInit 0 6 0 cliToSrv, 1, 5, by decide⟩]

/-- Three bytes, a signal, and two bytes in each later call. -/
def interrupted : Script
  | 0 => .moved 3
  | 1 => .failed .eintr
  | _ => .moved 2

/-- The entry in the middle does no harm. -/
theorem sendsAll_iff_interrupted :
    SendsAll (writevFull interrupted) threeEntries .other ∧
      SendsAll (writevFullMs (fun _ => true) interrupted) threeEntries .other ∧
      (threeEntries.map Iovec.len) = [4, 0, 5] := by
  have patient : Patient interrupted := by
    refine ⟨fun call errno failed => ?_, 2, fun call later => ⟨2, ?_⟩⟩
    · match call with
      | 0 => cases failed
      | 1 => cases failed; exact Or.inl rfl
      | _ + 2 => cases failed
    · match call with
      | _ + 2 => rfl
  have full : ¬ EndsEmpty threeEntries := by
    simp only [threeEntries, endsEmpty_cons_cons, endsEmpty_singleton]
    decide
  have sends := sendsAll_iff patient .other (by decide : (iovBytes threeEntries).length < 2 ^ 31)
  exact ⟨sends.1.mpr full, sends.2.mpr full, rfl⟩

/-- A packet of four bytes, and nothing of it behind them. -/
def twoEntries : List Iovec :=
  [⟨pktInit 0 4 0 cliToSrv, 0, 4, by decide⟩, ⟨pktInit 0 4 0 cliToSrv, 4, 0, by decide⟩]

/-- Every call moves one byte. -/
theorem patient_one : Patient fun _ => .moved 1 :=
  ⟨nofun, 0, fun _ _ => ⟨1, rfl⟩⟩

/-- With the second entry behind it, the four bytes are sent and -1 is returned. -/
theorem not_sendsAll :
    ¬ (forall (script : Script), Patient script -> forall (iov : List Iovec) (errno : Errno),
        (iovBytes iov).length < 2 ^ 31 ->
          SendsAll (writevFull script) iov errno ∧
          SendsAll (writevFullMs (fun _ => true) script) iov errno) := by
  intro all
  have sends := (all (fun _ => .moved 1) patient_one twoEntries .other (by decide)).1
  exact not_sendsAll_of_endsEmpty _ _ .other (by decide) ⟨_, rfl, rfl⟩ sends

end Sock
end Rfx
