import Rfx.Misc

namespace Rfx
namespace Misc

open Library

/-!
# What `read_file_to_string` returns

Every `read` is given the start of the buffer, so that a short read is overwritten by
the next one.  The last byte of the buffer in front of the zero is written to by the
read of a whole file only: after a short read it is what `malloc` has left there.
-/

/-- The file is returned, with a zero behind it, whatever `malloc` has left in the buffer. -/
def ReturnsFile (script : Script) (content : List Byte) : Prop :=
  forall garbage, garbage.length = content.length + 1 ->
    Loop.Returns (readFileToString script content.length) ⟨garbage, 0, content, 0⟩
      (.returned (content ++ [0]))

section Turns

variable {script : Script} {size : Nat} {r : Reading}

theorem readFileToString_over (ended : size ≤ r.pos) :
    readFileToString script size r = .done (terminate r) := by
  rw [readFileToString, if_neg (Nat.not_lt.mpr ended)]

theorem readFileToString_failed (more : r.pos < size) (retried : Retried (script r.calls)) :
    readFileToString script size r = .next { r with calls := r.calls + 1 } := by
  rcases retried with intr | wouldBlock
  · rw [readFileToString, if_pos more, intr]
  · rw [readFileToString, if_pos more, wouldBlock]

/-- A call that reads something. -/
theorem readFileToString_moved {n : Nat} (more : r.pos < size) (moved : script r.calls = .moved n)
    (left : 0 < r.rest.length) (room : r.rest.length ≤ r.str.length) :
    readFileToString script size r =
      if r.pos + transfer n (min size r.rest.length) < 2 ^ 31 then
        .next ⟨Buffer.overwrite r.str 0 (r.rest.take (transfer n (min size r.rest.length))),
          r.pos + transfer n (min size r.rest.length),
          r.rest.drop (transfer n (min size r.rest.length)), r.calls + 1⟩
      else .done .fault := by
  have some := transfer_pos n (show 0 < min size r.rest.length by omega)
  have le := transfer_le n (min size r.rest.length)
  have fits : Buffer.Fits r.str 0 (r.rest.take (transfer n (min size r.rest.length))) := by
    rw [Buffer.Fits, List.length_take]
    omega
  rw [readFileToString, if_pos more, moved]
  dsimp only
  rw [if_neg (by omega)]
  simp only [fits, true_and]

/-- Calls that fail are made again. -/
theorem returns_after_failures {k : Nat} {result : FileRead} (more : r.pos < size) (le : r.calls ≤ k)
    (failed : forall i, i < k -> Retried (script i)) :
    Loop.Returns (readFileToString script size) r result <->
      Loop.Returns (readFileToString script size) { r with calls := k } result := by
  induction k, le using Nat.le_induction with
  | base => exact Iff.rfl
  | succ k le inductionHypothesis =>
      have turn : readFileToString script size { r with calls := k } =
          .next { r with calls := k + 1 } :=
        readFileToString_failed more (failed k (Nat.lt_succ_self k))
      rw [inductionHypothesis fun i earlier => failed i (Nat.lt_succ_of_lt earlier),
        Loop.returns_of_next turn]

end Turns

/-- A whole file in the buffer gets its zero. -/
theorem terminate_whole {content : List Byte} {r : Reading} (size : r.str.length = content.length + 1)
    (read : r.str.take content.length = content) (ended : r.pos = content.length) :
    terminate r = .returned (content ++ [0]) := by
  rcases Buffer.store_spec (show r.pos < r.str.length by omega) 0 with ⟨str, stored, length, start, -⟩
  rw [terminate, stored]
  have whole : str = str.take (r.pos + 1) := (List.take_of_length_le (by omega)).symm
  dsimp only
  rw [whole, start, ended, read]

/-! ## One turn -/

/-- The buffer has room for what is left of the file and for the zero. -/
structure Inside (size : Nat) (r : Reading) : Prop where
  str : r.str.length = size + 1
  pos : r.pos ≤ size
  rest : r.rest.length = size - r.pos

theorem Inside.fits {size : Nat} {r : Reading} (inside : Inside size r) (bytes : Nat) :
    Buffer.Fits r.str 0 (r.rest.take bytes) := by
  have str := inside.str
  have rest := inside.rest
  rw [Buffer.Fits, List.length_take]
  omega

/-- Read some bytes of what is left. -/
def Reading.read (r : Reading) (bytes : Nat) : Reading where
  str := Buffer.overwrite r.str 0 (r.rest.take bytes)
  pos := r.pos + bytes
  rest := r.rest.drop bytes
  calls := r.calls + 1

theorem Inside.read {size : Nat} {r : Reading} (inside : Inside size r) {bytes : Nat}
    (le : bytes ≤ r.rest.length) : Inside size (r.read bytes) := by
  have pos := inside.pos
  have rest := inside.rest
  constructor
  · exact (Buffer.length_overwrite (inside.fits bytes)).trans inside.str
  · dsimp only [Reading.read]
    omega
  · dsimp only [Reading.read]
    rw [List.length_drop]
    omega

/-- What a turn can do. -/
inductive Turn (size : Nat) (r : Reading) : Loop.Step Reading FileRead -> Prop
  | ended (all : size ≤ r.pos) : Turn size r (.done (terminate r))
  | again : Turn size r (.next { r with calls := r.calls + 1 })
  | aborted : Turn size r (.done .aborted)
  | read (bytes : Nat) (le : bytes ≤ r.rest.length) : Turn size r (.next (r.read bytes))
  | fault (large : 2 ^ 31 ≤ size) : Turn size r (.done .fault)

theorem readFileToString_turn (script : Script) {size : Nat} {r : Reading} (inside : Inside size r) :
    Turn size r (readFileToString script size r) := by
  by_cases ended : size ≤ r.pos
  · rw [readFileToString_over ended]
    exact .ended ended
  · have more : r.pos < size := Nat.lt_of_not_le ended
    cases answer : script r.calls with
    | failed e =>
        cases e with
        | other =>
            rw [readFileToString, if_pos more, answer]
            exact .aborted
        | eintr =>
            rw [readFileToString_failed more (Or.inl answer)]
            exact .again
        | eagain =>
            rw [readFileToString_failed more (Or.inr answer)]
            exact .again
    | moved n =>
        have str := inside.str
        have rest := inside.rest
        have le := transfer_le n (min size r.rest.length)
        rw [readFileToString_moved more answer (by omega) (by omega)]
        split
        · exact .read _ (by omega)
        · exact .fault (by omega)

/-- What is written is inside the buffer, and so is the zero. -/
theorem returned_inside {script : Script} {content garbage : List Byte} {result : FileRead}
    (small : content.length < 2 ^ 31) (size : garbage.length = content.length + 1)
    (returned : Loop.Returns (readFileToString script content.length) ⟨garbage, 0, content, 0⟩ result) :
    result ≠ .fault := by
  refine Loop.post_of_returns (Inside content.length) (fun result => result ≠ .fault) ?_ ?_ ?_ returned
  · intro r next inside turn
    have possible := readFileToString_turn script inside
    rw [turn] at possible
    cases possible with
    | again => exact ⟨inside.str, inside.pos, inside.rest⟩
    | read bytes le => exact inside.read le
  · intro r result inside turn
    have possible := readFileToString_turn script inside
    rw [turn] at possible
    cases possible with
    | ended all =>
        have there : r.pos < r.str.length := by
          rw [inside.str]
          exact Nat.lt_succ_of_le inside.pos
        rw [terminate, Buffer.store, if_pos there]
        nofun
    | aborted => nofun
    | fault large => omega
  · exact ⟨size, Nat.zero_le _, rfl⟩

/-- The last byte of the buffer in front of the zero, behind a read of less than everything. -/
structure Spoiled (size : Nat) (byte : Byte) (r : Reading) : Prop extends Inside size r where
  last : r.str[size - 1]? = some byte
  begun : 0 < r.pos

/-- Nothing else is read to the last byte. -/
theorem Spoiled.read {size : Nat} {byte : Byte} {r : Reading} (spoiled : Spoiled size byte r)
    {bytes : Nat} (le : bytes ≤ r.rest.length) : Spoiled size byte (r.read bytes) := by
  have begun := spoiled.begun
  have pos := spoiled.pos
  have rest := spoiled.rest
  refine ⟨spoiled.toInside.read le, ?_, Nat.lt_of_lt_of_le begun (Nat.le_add_right ..)⟩
  dsimp only [Reading.read]
  by_cases ended : r.pos = size
  · have none : r.rest.take bytes = [] := by
      apply List.length_eq_zero_iff.mp
      rw [List.length_take]
      omega
    rw [none]
    exact spoiled.last
  · have behind : 0 + (r.rest.take bytes).length ≤ size - 1 := by
      rw [List.length_take]
      omega
    rw [Buffer.getElem?_overwrite (spoiled.fits bytes) behind]
    exact spoiled.last

theorem Spoiled.terminate {size : Nat} {byte : Byte} {r : Reading} (spoiled : Spoiled size byte r)
    (ended : size ≤ r.pos) {str : List Byte} (returned : terminate r = .returned str) :
    str[size - 1]? = some byte := by
  have begun := spoiled.begun
  have pos := spoiled.pos
  have there : r.pos < r.str.length := by
    rw [spoiled.str]
    exact Nat.lt_succ_of_le pos
  rw [Misc.terminate, Buffer.store, if_pos there] at returned
  cases returned
  rw [List.getElem?_set_ne (by omega)]
  exact spoiled.last

/-- Whatever is returned has the same last byte. -/
theorem returned_spoiled {script : Script} {size : Nat} {byte : Byte} {r : Reading} {str : List Byte}
    (spoiled : Spoiled size byte r)
    (returned : Loop.Returns (readFileToString script size) r (.returned str)) :
    str[size - 1]? = some byte := by
  refine Loop.post_of_returns (Spoiled size byte)
    (fun result => forall str, result = .returned str -> str[size - 1]? = some byte) ?_ ?_ spoiled
    returned str rfl
  · intro r next spoiled turn
    have possible := readFileToString_turn script spoiled.toInside
    rw [turn] at possible
    cases possible with
    | again => exact ⟨⟨spoiled.str, spoiled.pos, spoiled.rest⟩, spoiled.last, spoiled.begun⟩
    | read bytes le => exact spoiled.read le
  · intro r result spoiled turn str same
    subst same
    have possible := readFileToString_turn script spoiled.toInside
    generalize done : Loop.Step.done (FileRead.returned str) = step at turn
    rw [turn] at possible
    cases possible with
    | ended all =>
        injection done with returned
        exact spoiled.terminate all returned.symm
    | again => cases done
    | aborted => cases done
    | read bytes le => cases done
    | fault large => cases done

/-! ## The first read -/

section FirstRead

variable {script : Script} {content : List Byte} {k n : Nat}

/-- The state behind the first read that does not fail. -/
theorem returns_after_first {garbage : List Byte} {result : FileRead} (nonempty : 0 < content.length)
    (size : garbage.length = content.length + 1) (moved : script k = .moved n)
    (failed : forall i, i < k -> Retried (script i)) :
    Loop.Returns (readFileToString script content.length) ⟨garbage, 0, content, 0⟩ result <->
      Loop.Returns (readFileToString script content.length)
        ((⟨garbage, 0, content, k⟩ : Reading).read (transfer n content.length)) result := by
  have turn := readFileToString_moved (r := ⟨garbage, 0, content, k⟩) nonempty moved nonempty
    (show content.length ≤ garbage.length by omega)
  dsimp only at turn
  rw [Nat.min_self, if_pos (by rw [Nat.zero_add]; exact transfer_lt n _)] at turn
  rw [returns_after_failures nonempty (Nat.zero_le k) failed, Loop.returns_of_next turn]
  rfl

/-- A first read of everything fills the buffer. -/
theorem returnsFile_of_whole (moved : script k = .moved n)
    (failed : forall i, i < k -> Retried (script i))
    (whole : transfer n content.length = content.length) : ReturnsFile script content := by
  intro garbage size
  by_cases empty : content.length = 0
  · have ended : content.length ≤ 0 := Nat.le_of_eq empty
    rw [Loop.returns_of_done (readFileToString_over ended)]
    refine (terminate_whole size ?_ empty.symm).symm
    rw [List.length_eq_zero_iff.mp empty]
    rfl
  · have fits : Buffer.Fits garbage 0 content := by
      rw [Buffer.Fits]
      omega
    have length := Buffer.length_overwrite fits
    have start := Buffer.take_overwrite fits
    rw [Nat.zero_add, List.take_zero, List.nil_append] at start
    have read : (⟨garbage, 0, content, k⟩ : Reading).read content.length =
        ⟨Buffer.overwrite garbage 0 content, content.length, [], k + 1⟩ := by
      simp only [Reading.read, List.take_length, List.drop_length, Nat.zero_add]
    rw [returns_after_first (Nat.pos_of_ne_zero empty) size moved failed, whole, read,
      Loop.returns_of_done (readFileToString_over (Nat.le_refl content.length))]
    exact (terminate_whole (length.trans size) start rfl).symm

/-- After a first read of less, the last byte is the one that `malloc` has left. -/
theorem not_returnsFile_of_short (moved : script k = .moved n)
    (failed : forall i, i < k -> Retried (script i))
    (short : transfer n content.length < content.length) : ¬ ReturnsFile script content := by
  intro returns
  have last : content.length - 1 < content.length := by omega
  have other : Exists fun byte : Byte => byte ≠ content[content.length - 1] := by
    by_cases zero : content[content.length - 1] = 0
    · exact ⟨1, by rw [zero]; decide⟩
    · exact ⟨0, Ne.symm zero⟩
  rcases other with ⟨byte, other⟩
  have size : (List.replicate (content.length + 1) byte).length = content.length + 1 :=
    List.length_replicate
  have start : Inside content.length ⟨List.replicate (content.length + 1) byte, 0, content, k⟩ :=
    ⟨size, Nat.zero_le _, rfl⟩
  have returned := returns _ size
  rw [returns_after_first (by omega) size moved failed] at returned
  have spoiled : Spoiled content.length byte
      ((⟨List.replicate (content.length + 1) byte, 0, content, k⟩ : Reading).read
        (transfer n content.length)) := by
    have positive := transfer_pos n (show 0 < content.length by omega)
    have behind : 0 + (content.take (transfer n content.length)).length ≤ content.length - 1 := by
      rw [List.length_take]
      omega
    refine ⟨start.read (Nat.le_of_lt short), ?_, ?_⟩
    · dsimp only [Reading.read]
      rw [Buffer.getElem?_overwrite (start.fits _) behind, List.getElem?_replicate, if_pos (by omega)]
    · dsimp only [Reading.read]
      omega
  have wrong := returned_spoiled spoiled returned
  rw [List.getElem?_append_left last, List.getElem?_eq_getElem last] at wrong
  exact other (Option.some.inj wrong).symm

end FirstRead

/-- A file is returned exactly if the first read that does not fail reads all of it. -/
theorem returnsFile_iff {script : Script} (patient : Patient script) (content : List Byte) :
    ReturnsFile script content <->
      forall k n, script k = .moved n -> (forall i, i < k -> Exists fun e => script i = .failed e) ->
        transfer n content.length = content.length := by
  constructor
  · intro returns k n moved failed
    by_contra notWhole
    have short := Nat.lt_of_le_of_ne (transfer_le n content.length) notWhole
    refine not_returnsFile_of_short moved ?_ short returns
    intro i earlier
    rcases failed i earlier with ⟨e, here⟩
    rw [here]
    exact patient.retried here
  · intro whole
    rcases patient.first with ⟨k, n, moved, failed⟩
    refine returnsFile_of_whole moved failed (whole k n moved ?_)
    intro i earlier
    rcases failed i earlier with intr | wouldBlock
    · exact ⟨_, intr⟩
    · exact ⟨_, wouldBlock⟩

/-- The first call of a script that fails once. -/
def onceInterrupted (n : Nat) : Script
  | 0 => .failed .eintr
  | _ + 1 => .moved n

theorem patient_onceInterrupted (n : Nat) : Patient (onceInterrupted n) := by
  constructor
  · intro i e failed
    cases i with
    | zero =>
        cases failed
        exact Or.inl rfl
    | succ i => cases failed
  · refine ⟨1, ?_⟩
    intro i late
    cases i with
    | zero => omega
    | succ i => exact ⟨n, rfl⟩

/-- Two bytes, read at once after an interruption. -/
theorem returnsFile_iff_two :
    ReturnsFile (onceInterrupted 2) [0x61, 0x62] ∧ Patient (onceInterrupted 2) := by
  have patient := patient_onceInterrupted 2
  refine ⟨(returnsFile_iff patient [0x61, 0x62]).mpr ?_, patient⟩
  intro k n moved failed
  cases k with
  | zero => cases moved
  | succ k =>
      cases moved
      rfl

/-- Two bytes, read one by one. -/
theorem not_returnsFile :
    ¬ (forall (script : Script), Patient script -> forall content, ReturnsFile script content) := by
  intro all
  have patient : Patient fun _ => .moved 1 := ⟨nofun, 0, fun _ _ => ⟨1, rfl⟩⟩
  have returns := all _ patient [0x61, 0x62]
  refine not_returnsFile_of_short (k := 0) (n := 1) rfl ?_ ?_ returns
  · intro i earlier
    omega
  · decide

end Misc
end Rfx
