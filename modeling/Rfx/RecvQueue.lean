import Rfx.Library.Framing
import Rfx.SendQueue

namespace Rfx

open Library

/-!
# The receive queue

The model of `recvq` in `proxy.h` and `proxy.cpp`.  A packet is received in two
stages.  Its first four bytes are collected in `rd_buf` while `rd` is null; then
`rd` is allocated with the announced length and its data is filled up.  `rd_pos`
counts the bytes received in either stage.  One `readv` may complete several
packets: what does not fit its first entry arrives in a local buffer, and an
inner loop extracts packets from there.

The unsigned subtractions that size an entry or a copy, and the conversions to
`int`, are those of the source.  A store outside its buffer has no defined
result and is a step that the model does not have.
-/

/-- Unsigned subtraction of the given width. -/
def wrapSub (width a b : Nat) : Nat :=
  (a + 2 ^ width - b % 2 ^ width) % 2 ^ width

theorem wrapSub_eq {width a b : Nat} (le : b ≤ a) (small : a < 2 ^ width) :
    wrapSub width a b = a - b := by
  have small' : b < 2 ^ width := Nat.lt_of_le_of_lt le small
  have regroup : a + 2 ^ width - b = a - b + 2 ^ width := by omega
  rw [wrapSub, Nat.mod_eq_of_lt small', regroup, Nat.add_mod_right, Nat.mod_eq_of_lt (by omega)]

/-- Conversion to a 32-bit `int`. -/
def asInt (n : Nat) : Int :=
  (n : Int).bmod (2 ^ 32)

theorem asInt_eq {n : Nat} (small : n < 2 ^ 31) : asInt n = n := by
  unfold asInt
  apply Int.bmod_eq_of_le <;> omega

/-- A result of `readv`: some bytes, the end of the stream, or an error. -/
inductive ReadvResult
  | received (bytes : List Byte)
  | eof
  | failed (errno : Errno)
  deriving DecidableEq, Repr

/-- The bytes that a result delivers. -/
def ReadvResult.bytes : ReadvResult -> List Byte
  | .received bytes => bytes
  | _ => []

/-- `class recvq`. -/
structure Recvq where
  pq : List RfPacket
  rd : Option RfPacket
  rdBuf : List Byte
  rdPos : Nat
  dir : Dir

/-- `sizeof(buf)`, the spill buffer of `recv`. -/
def spillSize : Nat := 8192

namespace Recvq

/-- The constructor. -/
def new (dir : Dir) : Recvq where
  pq := []
  rd := none
  rdBuf := List.replicate 4 0
  rdPos := 0
  dir := dir

/-- `is_empty`. -/
def isEmpty (q : Recvq) : Bool :=
  q.pq.isEmpty

/-- The buffer that the first entry of `readv` points into. -/
def target (q : Recvq) : List Byte :=
  match q.rd with
  | some rd => rd.data
  | none => q.rdBuf

/-- `rv[0].iov_len`. -/
def iovLen (q : Recvq) : Nat :=
  match q.rd with
  | some rd => wrapSub 32 rd.len q.rdPos
  | none => wrapSub 64 4 q.rdPos

/-- Store bytes at `rd_pos` of the target. -/
def store (q : Recvq) (bytes : List Byte) : Recvq :=
  match q.rd with
  | some rd =>
      { q with rd := some { rd with
          data := Buffer.overwrite rd.data q.rdPos bytes
          fits := Nat.le_trans rd.fits (Buffer.le_length_overwrite _ _ _) } }
  | none => { q with rdBuf := Buffer.overwrite q.rdBuf q.rdPos bytes }

/-- The packet being read is complete: it joins the queue. -/
def finish (q : Recvq) : Recvq :=
  match q.rd with
  | some rd => { q with pq := pqhPush q.pq rd, rd := none, rdPos := 0 }
  | none => q

/-- `if (rd_pos == rd->len)`, the test after each piece of a packet. -/
def settle (q : Recvq) : Recvq :=
  match q.rd with
  | some rd => if q.rdPos = rd.len then q.finish else q
  | none => q

/-- `c` when a packet is being read: the bytes to copy from the spill buffer. -/
def copyLen (q : Recvq) (rd : RfPacket) (bytes : Nat) : Int :=
  if (bytes : Int) < asInt (wrapSub 32 rd.len q.rdPos) then bytes
  else asInt (wrapSub 32 rd.len q.rdPos)

end Recvq

/-- What `recv` works on. -/
structure RecvState where
  pool : Pool
  q : Recvq

/-- A point inside `recv` or between two calls. -/
inductive RecvPoint
  /-- `readv` is about to be called. -/
  | reading (s : RecvState)
  /-- The head of `while (bytes)`, with the unread part of the spill buffer. -/
  | extracting (s : RecvState) (p : List Byte)
  /-- `recv` has returned; more reads are possible or not. -/
  | returned (s : RecvState) (more : Bool)

namespace RecvState

def start (pool : Pool) (dir : Dir) : RecvState where
  pool := pool
  q := .new dir

/-- Allocate the packet that a header announces, having received `pos` bytes of it. -/
def allocate (s : RecvState) (header : List Byte) (pos : Nat) : RecvState :=
  let created := pktNew s.pool (getInt16 header) (getInt16 (header.drop 2)) s.q.dir
  { pool := created.1
    q := { s.q with rd := some created.2, rdPos := pos } }

/-- The body of the outer loop up to the inner loop, given the result of `readv`. -/
def afterReadv (s : RecvState) : ReadvResult -> Option RecvPoint
  | .received bytes =>
      let first := bytes.take s.q.iovLen
      let p := bytes.drop s.q.iovLen
      if bytes ≠ [] ∧ bytes.length ≤ s.q.iovLen + spillSize ∧
          Buffer.Fits s.q.target s.q.rdPos first then
        let stored := { s with q := s.q.store first }
        if asInt s.q.iovLen ≤ bytes.length then
          match s.q.rd with
          | some _ => some (.extracting { stored with q := stored.q.finish } p)
          | none =>
              let opened := stored.allocate stored.q.rdBuf 4
              some (.extracting { opened with q := opened.q.settle } p)
        else
          some (.reading { stored with q := { stored.q with rdPos := s.q.rdPos + bytes.length } })
      else none
  | .eof => some (.returned s false)
  | .failed .eintr => some (.reading s)
  | .failed .eagain => some (.returned s true)
  | .failed .other => some (.returned s false)

/-- One iteration of the inner loop. -/
def extractBody (s : RecvState) (p : List Byte) : Option RecvPoint :=
  if p = [] then some (.reading s)
  else
    match s.q.rd with
    | some rd =>
        let c := s.q.copyLen rd p.length
        if 0 ≤ c ∧ Buffer.Fits rd.data s.q.rdPos (p.take c.toNat) then
          let stored := s.q.store (p.take c.toNat)
          let moved := { stored with rdPos := s.q.rdPos + c.toNat }
          some (.extracting { s with q := moved.settle } (p.drop c.toNat))
        else none
    | none =>
        if 4 ≤ p.length then
          let opened := s.allocate p (s.q.rdPos + 4)
          some (.extracting { opened with q := opened.q.settle } (p.drop 4))
        else if Buffer.Fits s.q.rdBuf s.q.rdPos p then
          let stored := s.q.store p
          some (.reading { s with q := { stored with rdPos := s.q.rdPos + p.length } })
        else none

/-- The inner loop.  Each iteration of a defined execution consumes a byte, so
`fuel` is the number of bytes. -/
def extract : Nat -> RecvState -> List Byte -> Option RecvState
  | fuel, s, p =>
      match s.extractBody p with
      | some (.reading next) => some next
      | some (.extracting next rest) =>
          match fuel with
          | 0 => none
          | fuel + 1 => extract fuel next rest
      | _ => none

/-- One iteration of the outer loop.  The second component is the value that
`recv` returns in it, if it does. -/
def body (s : RecvState) (result : ReadvResult) : Option (RecvState × Option Bool) :=
  match s.afterReadv result with
  | none => none
  | some (.reading next) => some (next, none)
  | some (.returned next more) => some (next, some more)
  | some (.extracting next p) => (next.extract p.length p).map fun done => (done, none)

/-- `recvq::recv`, given the results of all its calls of `readv`. -/
def recv (s : RecvState) : List ReadvResult -> Option (RecvState × Bool)
  | [] => none
  | result :: results =>
      match s.body result with
      | none => none
      | some (next, none) => next.recv results
      | some (next, some more) => if results = [] then some (next, more) else none

/-- One `readv` of some call of `recv`.  A call that returns keeps nothing but
the queue, so the next `readv` belongs to the next call. -/
def step (s : RecvState) (result : ReadvResult) : Option RecvState :=
  (s.body result).map Prod.fst

/-- The results that the kernel can give: at most as many bytes as the two
entries of the vector ask for, and at least one unless the stream has ended. -/
def Possible (s : RecvState) : ReadvResult -> Prop
  | .received bytes => bytes ≠ [] ∧ bytes.length ≤ s.q.iovLen + spillSize
  | _ => True

instance (s : RecvState) : (result : ReadvResult) -> Decidable (s.Possible result)
  | .received _ => inferInstanceAs (Decidable (_ ∧ _))
  | .eof => isTrue trivial
  | .failed _ => isTrue trivial

/-- A completed call of `recv` is a run of its `readv` steps. -/
theorem run_of_recv {s final : RecvState} {results : List ReadvResult} {more : Bool}
    (received : s.recv results = some (final, more)) : Run.run step s results = some final := by
  induction results generalizing s with
  | nil => cases received
  | cons result results inductionHypothesis =>
      simp only [recv] at received
      rw [Run.run_cons_eq_some]
      split at received
      · cases received
      · rename_i next bodyEq
        exact ⟨next, by simp [step, bodyEq], inductionHypothesis received⟩
      · rename_i next value bodyEq
        split at received
        · rename_i last
          cases received
          subst last
          exact ⟨final, by simp [step, bodyEq], rfl⟩
        · cases received

/-- A completed call of `recv` was given results that the kernel can give. -/
theorem possible_of_recv {s final : RecvState} {results : List ReadvResult} {more : Bool}
    (received : s.recv results = some (final, more)) : Run.Meets step Possible s results := by
  have ofBody {s : RecvState} {result : ReadvResult} {next : RecvState × Option Bool}
      (taken : s.body result = some next) : s.Possible result := by
    cases result with
    | eof => exact trivial
    | failed errno => exact trivial
    | received bytes =>
        by_contra impossible
        have stuck : s.afterReadv (.received bytes) = none := by
          simp only [afterReadv]
          exact if_neg fun all => impossible ⟨all.1, all.2.1⟩
        rw [body, stuck] at taken
        cases taken
  induction results generalizing s with
  | nil => exact trivial
  | cons result results inductionHypothesis =>
      simp only [recv] at received
      split at received
      · cases received
      · rename_i next bodyEq
        refine ⟨ofBody bodyEq, ?_⟩
        intro other stepped
        simp only [step, bodyEq, Option.map_some, Option.some.injEq] at stepped
        exact stepped ▸ inductionHypothesis received
      · rename_i next value bodyEq
        split at received
        · rename_i last
          subst last
          exact ⟨ofBody bodyEq, fun _ _ => trivial⟩
        · cases received

end RecvState

end Rfx
