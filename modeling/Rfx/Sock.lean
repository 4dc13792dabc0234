import Rfx.Descriptor
import Rfx.Library.Loop

namespace Rfx
namespace Sock

open Library

/-!
# Writing to a socket

The model of the functions of `sock.c` that write.  The bytes that the descriptor has
accepted are kept in `out`.  A vector is the list of the entries that are left of an
array, and what would read behind its end is a fault.
-/

/-! ## `write_ms` and `write_full_ms` -/

/-- What `write_ms` returns: how many bytes it has sent, or that it has failed. -/
inductive Outcome
  | sent (n : Nat)
  | failed
  deriving DecidableEq

/-- A turn of the loop of `write_ms`, which makes call number `i`; the result is what it returns, and
the number of the last call.  `poll` says whether `POLLOUT` is reported in time. -/
def writeMs (script : Script) (poll : Nat -> Bool) : Nat -> Loop.Step Nat (Outcome × Nat) := fun i =>
  match script i with
  | .moved n => .done (.sent n, i)
  | .failed .eintr => .next (i + 1)
  | .failed .eagain => if poll i then .next (i + 1) else .done (.failed, i)
  | .failed .other => .done (.failed, i)

/-- The state of `write_full_ms`. -/
structure Writing where
  pos : UInt32
  calls : Nat
  out : List Byte

/-- A turn of the loop of `write_full_ms`, which returns an `int`. -/
def writeFullMs (outcome : Nat -> Outcome) (buf : List Byte) (len : UInt32) :
    Writing -> Loop.Step Writing (Int × List Byte) := fun w =>
  match outcome w.calls with
  | .failed => .done (w.pos.toBitVec.toInt, w.out)
  | .sent n =>
      let l := transfer n (len - w.pos).toNat
      let pos := w.pos + len
      let out := w.out ++ (buf.drop w.pos.toNat).take l
      if pos < len then .next ⟨pos, w.calls + 1, out⟩ else .done (pos.toBitVec.toInt, out)

/-! ## `writev_full` and `writev_full_ms` -/

/-- Move the vector forward over `bytes` bytes that were sent. -/
def advance : Nat -> List Iovec -> Option (List Iovec)
  | 0, iov => some iov
  | _ + 1, [] => none
  | bytes + 1, entry :: iov =>
      if entry.len ≤ bytes + 1 then advance (bytes + 1 - entry.len) iov
      else some (entry.advance (bytes + 1) :: iov)

/-- The state of `writev_full`. -/
structure Vectored where
  iov : List Iovec
  nwritten : Nat
  errno : Errno
  calls : Nat
  out : List Byte

/-- How it ends. -/
inductive Written
  | returned (result : Int) (out : List Byte)
  | fault

/-- What both functions do when `writev` has sent nothing; `wait` says whether they go on after
`EAGAIN`. -/
def retry (wait : Nat -> Bool) (w : Vectored) : Loop.Step Vectored Written :=
  match w.errno with
  | .eintr => .next { w with calls := w.calls + 1 }
  | .eagain =>
      if wait w.calls then .next { w with calls := w.calls + 1 } else .done (.returned (-1) w.out)
  | .other => .done (.returned (-1) w.out)

/-- A turn of the loop that both functions have.  A call on no bytes at all sends none, and leaves
`errno` as it was. -/
def writevTurn (wait : Nat -> Bool) (script : Script) : Vectored -> Loop.Step Vectored Written :=
    fun w =>
  match w.iov with
  | [] => .done (.returned w.nwritten w.out)
  | iov =>
      let left := (iovBytes iov).length
      if left = 0 then retry wait w
      else
        match script w.calls with
        | .failed errno => retry wait { w with errno }
        | .moved n =>
            let bytes := transfer n left
            if 2 ^ 31 ≤ w.nwritten + bytes then .done .fault
            else
              match advance bytes iov with
              | none => .done .fault
              | some rest =>
                  .next ⟨rest, w.nwritten + bytes, w.errno, w.calls + 1,
                    w.out ++ (iovBytes iov).take bytes⟩

/-- `writev_full` does not wait. -/
def writevFull : Script -> Vectored -> Loop.Step Vectored Written :=
  writevTurn fun _ => true

/-- `writev_full_ms` waits until `poll` reports `POLLOUT`. -/
def writevFullMs (poll : Nat -> Bool) : Script -> Vectored -> Loop.Step Vectored Written :=
  writevTurn poll

end Sock
end Rfx
