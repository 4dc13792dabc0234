import Mathlib.Data.List.GetD
import Rfx.Library.Run
import Rfx.Packet

namespace Rfx

open Library

/-!
# The send queue

The model of `sendq` in `proxy.h` and `proxy.cpp`.  The queue keeps its state
twice.  `pq` is the list of packets that are still to be sent.  `svbuf` is an
array of vector entries, of which the `svc` entries from index `sv` on are the
*window*, the part that the next `writev` is offered.

`writev` belongs to the kernel and appears as a list of results.  A result that
the kernel cannot give, such as more bytes than were offered, has no step.  The
bytes that the descriptor has accepted so far are kept in `out`.
-/

/-- The values of `errno` that the source tells apart. -/
inductive Errno
  | eintr
  | eagain
  | other
  deriving DecidableEq, Repr

/-- A result of `writev`: some bytes accepted, or none and the `errno` that is
then looked at.  The source takes the second branch for a result of zero too. -/
inductive WritevResult
  | accepted (bytes : Nat)
  | failed (errno : Errno)
  deriving DecidableEq, Repr

/-- `class sendq`; `sv` is the index of the pointer of that name in `svbuf`. -/
structure Sendq where
  pq : List RfPacket
  svc : Nat
  sv : Nat
  svbuf : List Iovec
  dir : Dir

/-- The bytes that a list of entries describes. -/
def iovBytes (iovs : List Iovec) : List Byte :=
  iovs.flatMap Iovec.bytes

@[simp] theorem iovBytes_nil : iovBytes [] = [] := rfl

@[simp] theorem iovBytes_cons (iov : Iovec) (iovs : List Iovec) :
    iovBytes (iov :: iovs) = iov.bytes ++ iovBytes iovs := rfl

@[simp] theorem iovBytes_append (first second : List Iovec) :
    iovBytes (first ++ second) = iovBytes first ++ iovBytes second :=
  List.flatMap_append

@[simp] theorem iovBytes_ofPacket (pkts : List RfPacket) :
    iovBytes (pkts.map .ofPacket) = wireBytes pkts := by
  simp only [iovBytes, wireBytes, List.flatMap_map, Iovec.bytes_ofPacket]

namespace Sendq

/-- The constructor. -/
def new (dir : Dir) : Sendq where
  pq := []
  svc := 0
  sv := 0
  svbuf := List.replicate wrivcnt .unset
  dir := dir

/-- The entries that the next `writev` is offered. -/
def window (q : Sendq) : List Iovec :=
  (q.svbuf.drop q.sv).take q.svc

/-- `is_empty`. -/
def isEmpty (q : Sendq) : Bool :=
  q.pq.isEmpty

/-- The loop that describes the first packets of the queue from the start of
`svbuf` on.  `send` runs it twice, each time with `svc` zero. -/
def fill (q : Sendq) : Sendq :=
  let iovs := (q.pq.take wrivcnt).map .ofPacket
  { q with sv := 0, svc := iovs.length, svbuf := Buffer.overwrite q.svbuf 0 iovs }

/-- Move the first entry forward over bytes that were sent of it. -/
def advance (q : Sendq) (bytes : Nat) : Sendq :=
  { q with svbuf := q.svbuf.modify q.sv fun iov => iov.advance bytes }

/-- `proxy_pipe::push_out`. -/
def pushOut (q : Sendq) (pkt : RfPacket) : Sendq :=
  { q with pq := pqhPush q.pq pkt }

/-- Move a window that is not at the start of `svbuf` there. -/
def compact (q : Sendq) : Sendq :=
  if q.sv ≠ 0 ∧ q.svc ≠ 0 then
    { q with sv := 0, svbuf := Buffer.overwrite q.svbuf 0 q.window }
  else q

/-- Pull packets of this queue's direction from another queue, into the list
and into the window, as far as the window has room.  The last component is what
is left in the other queue. -/
def pull (pool : Pool) (q : Sendq) (src : List RfPacket) : Pool × Sendq × List RfPacket :=
  if q.svc < wrivcnt then
    let moved := q.compact
    let pulled := pqhPull moved.dir (wrivcnt - moved.svc) 0 0 pool src moved.pq
    (pulled.pool,
      { moved with
        pq := pulled.dst
        svc := moved.svc + pulled.outv.length
        svbuf := Buffer.overwrite moved.svbuf moved.svc pulled.outv },
      pulled.src)
  else
    (pool, q, src)

end Sendq

/-- What `send` works on: the reference counts, the queue, and the bytes that
its descriptor has accepted. -/
structure SendState where
  pool : Pool
  q : Sendq
  out : List Byte

namespace SendState

/-- The loop that discards a packet for each entry that was sent completely;
`n` is `svc`.  The last component is what is left of `bytes`. -/
def discardSent : Nat -> Pool -> Sendq -> Nat -> Pool × Sendq × Nat
  | 0, pool, q, bytes => (pool, q, bytes)
  | n + 1, pool, q, bytes =>
      let iov := q.svbuf.getD q.sv .unset
      if iov.len ≤ bytes then
        let discarded := pqhDiscard pool q.pq
        discardSent n discarded.1 { q with pq := discarded.2, sv := q.sv + 1, svc := n }
          (bytes - iov.len)
      else
        (pool, q, bytes)

/-- The body of the loop of `send` after one call of `writev`.  The second
component is the value that `send` returns there, if it does. -/
def body (s : SendState) : WritevResult -> Option (SendState × Option Int)
  | .accepted bytes =>
      if 0 < bytes ∧ bytes ≤ (iovBytes s.q.window).length then
        let sent := discardSent s.q.svc s.pool s.q bytes
        let q := if 0 < sent.2.2 then sent.2.1.advance sent.2.2 else sent.2.1
        some ({ pool := sent.1
                q := if q.svc = 0 then q.fill else q
                out := s.out ++ (iovBytes s.q.window).take bytes }, none)
      else none
  | .failed .eintr => some (s, none)
  | .failed .eagain => some (s, some s.q.svc)
  | .failed .other => some (s, some (-1))

/-- The loop `while (svc)`, given the results of its calls of `writev`. -/
def sendLoop (s : SendState) : List WritevResult -> Option (SendState × Int)
  | [] => if s.q.svc = 0 then some (s, 0) else none
  | result :: results =>
      if s.q.svc = 0 then none
      else
        match s.body result with
        | none => none
        | some (next, none) => next.sendLoop results
        | some (next, some value) => if results = [] then some (next, value) else none

/-- The state in which `send` enters its loop. -/
def enter (s : SendState) : SendState :=
  if s.q.svc = 0 then { s with q := s.q.fill } else s

/-- `sendq::send`, given the results of all its calls of `writev`. -/
def send (s : SendState) (results : List WritevResult) : Option (SendState × Int) :=
  s.enter.sendLoop results

end SendState

/-! ## The queue as a machine

`send` can be observed between two calls of `writev`.  The machine below has
one step for each operation on the queue and one for each call of `writev`.
-/

inductive SendqOp
  | pushOut (pkt : RfPacket)
  | pull (src : List RfPacket)
  | send
  | writev (result : WritevResult)

/-- A send queue during its life.  `appended` lists the packets in the order in
which they were appended to `pq`; `sending` says that `send` is about to call
`writev`; `returned` is the value of a `send` that has just returned. -/
structure SendqRun where
  st : SendState
  appended : List RfPacket
  sending : Bool
  returned : Option Int

namespace SendqRun

def start (pool : Pool) (dir : Dir) : SendqRun where
  st := ⟨pool, .new dir, []⟩
  appended := []
  sending := false
  returned := none

/-- Back at the head of the loop of `send`: it returns 0 once `svc` is zero. -/
def loopHead (run : SendqRun) (st : SendState) : SendqRun :=
  { run with
    st := st
    sending := st.q.svc != 0
    returned := if st.q.svc = 0 then some 0 else none }

def step (run : SendqRun) : SendqOp -> Option SendqRun
  | .pushOut pkt =>
      if run.sending then none
      else some { run with
        st := { run.st with q := run.st.q.pushOut pkt }
        appended := run.appended ++ [pkt]
        returned := none }
  | .pull src =>
      if run.sending then none
      else
        let pulled := run.st.q.pull run.st.pool src
        some { run with
          st := { run.st with pool := pulled.1, q := pulled.2.1 }
          appended := run.appended ++ pulled.2.1.pq.drop run.st.q.pq.length
          returned := none }
  | .send =>
      if run.sending then none else some (run.loopHead run.st.enter)
  | .writev result =>
      if run.sending then
        match run.st.body result with
        | none => none
        | some (next, none) => some (run.loopHead next)
        | some (next, some value) =>
            some { run with st := next, sending := false, returned := some value }
      else none

/-- The states that a queue can reach from its constructor. -/
def Reachable (pool : Pool) (dir : Dir) (final : SendqRun) : Prop :=
  Exists fun ops => Run.run step (start pool dir) ops = some final

end SendqRun

/-! ## What the operations do to the list and the window -/

namespace Sendq

/-- The window lies inside `svbuf`, and at its start when it is empty. -/
structure InBounds (q : Sendq) : Prop where
  size : q.svbuf.length = wrivcnt
  within : q.sv + q.svc ≤ wrivcnt
  at_start : q.svc = 0 -> q.sv = 0

theorem inBounds_new (dir : Dir) : (new dir).InBounds where
  size := by simp [new]
  within := by simp [new]
  at_start := fun _ => rfl

namespace InBounds

variable {q : Sendq}

theorem length_window (bounds : q.InBounds) : q.window.length = q.svc := by
  have size := bounds.size
  have within := bounds.within
  simp only [window, List.length_take, List.length_drop]
  omega

theorem window_eq_nil (bounds : q.InBounds) : q.window = [] <-> q.svc = 0 := by
  rw [← List.length_eq_zero_iff, bounds.length_window]

end InBounds

@[simp] theorem window_new (dir : Dir) : (new dir).window = [] := by
  simp [window, new]

@[simp] theorem window_pushOut (q : Sendq) (pkt : RfPacket) : (q.pushOut pkt).window = q.window := rfl

@[simp] theorem pq_fill (q : Sendq) : q.fill.pq = q.pq := rfl

@[simp] theorem svc_fill (q : Sendq) : q.fill.svc = min wrivcnt q.pq.length := by
  simp [fill]

theorem fill_fits {q : Sendq} (size : q.svbuf.length = wrivcnt) :
    Buffer.Fits q.svbuf 0 ((q.pq.take wrivcnt).map .ofPacket) := by
  simp only [Buffer.Fits, List.length_map, List.length_take, size]
  omega

/-- After the filling loop the window describes the first packets entirely. -/
theorem window_fill {q : Sendq} (size : q.svbuf.length = wrivcnt) :
    q.fill.window = (q.pq.take wrivcnt).map .ofPacket := by
  have copied := Buffer.take_overwrite (fill_fits size)
  simpa [window, fill] using copied

theorem inBounds_fill {q : Sendq} (size : q.svbuf.length = wrivcnt) : q.fill.InBounds where
  size := (Buffer.length_overwrite (fill_fits size)).trans size
  within := by
    rw [svc_fill]
    simp only [fill]
    omega
  at_start := fun _ => rfl

theorem fill_svc_eq_zero {q : Sendq} (none : q.fill.svc = 0) : q.pq = [] := by
  rw [svc_fill] at none
  apply List.eq_nil_of_length_eq_zero
  simp only [wrivcnt] at none
  omega

theorem compact_spec {q : Sendq} (bounds : q.InBounds) :
    q.compact.InBounds ∧ q.compact.window = q.window ∧ q.compact.sv = 0 ∧
      q.compact.svc = q.svc ∧ q.compact.pq = q.pq ∧ q.compact.dir = q.dir := by
  have length := bounds.length_window
  have within := bounds.within
  unfold compact
  split
  · have fits : Buffer.Fits q.svbuf 0 q.window := by
      simp only [Buffer.Fits, length, bounds.size]
      omega
    refine ⟨⟨(Buffer.length_overwrite fits).trans bounds.size, ?_, fun _ => rfl⟩, ?_, rfl, rfl, rfl, rfl⟩
    · simp only
      omega
    · have copied := Buffer.take_overwrite fits
      rw [length] at copied
      simpa [window] using copied
  · rename_i still
    refine ⟨bounds, rfl, ?_, rfl, rfl, rfl⟩
    by_cases empty : q.svc = 0
    · exact bounds.at_start empty
    · by_cases zero : q.sv = 0
      · exact zero
      · exact absurd ⟨zero, empty⟩ still

/-- Packets were appended to the list of a queue and, as whole entries, to its
window. -/
structure Appends (q next : Sendq) (pkts : List RfPacket) : Prop where
  bounds : next.InBounds
  dir_eq : next.dir = q.dir
  pq_eq : next.pq = q.pq ++ pkts
  window_eq : next.window = q.window ++ pkts.map .ofPacket
  svc_eq : next.svc = q.svc + pkts.length

/-- What `pull` does to the packets, whatever the window looks like. -/
theorem pull_shares (q : Sendq) (pool : Pool) (src : List RfPacket) :
    Exists fun moved => Exists fun released => Exists fun kept =>
      Shares q.dir 0 src moved released kept ∧ (q.pull pool src).1 = pqhClear pool released ∧
        (q.pull pool src).2.1.pq = q.pq ++ moved ∧ (q.pull pool src).2.2 = kept := by
  have same : q.compact.dir = q.dir ∧ q.compact.pq = q.pq := by
    unfold compact
    split <;> exact ⟨rfl, rfl⟩
  unfold pull
  split
  · rcases pqhPull_spec q.compact.dir (wrivcnt - q.compact.svc) 0 0 pool src q.compact.pq with
      ⟨moved, released, kept, shares, _, pulled⟩
    refine ⟨moved, released, kept, same.1 ▸ shares, congrArg Pulled.pool pulled, ?_,
      congrArg Pulled.src pulled⟩
    exact (congrArg Pulled.dst pulled).trans (congrArg (· ++ moved) same.2)
  · exact ⟨[], [], src, .none _ _ _, rfl, (List.append_nil _).symm, rfl⟩

/-- What `pull` does: the packets of the source queue are moved, released or
kept; the moved ones are appended to the list and to the window in the same
order. -/
theorem pull_spec {q : Sendq} (bounds : q.InBounds) (pool : Pool) (src : List RfPacket) :
    Exists fun moved => Exists fun released => Exists fun kept => Exists fun next : Sendq =>
      q.pull pool src = (pqhClear pool released, next, kept) ∧
        Shares q.dir 0 src moved released kept ∧ q.Appends next moved := by
  unfold pull
  split
  · rename_i room
    rcases compact_spec bounds with ⟨compactBounds, sameWindow, atStart, sameSvc, samePq, sameDir⟩
    rcases pqhPull_spec q.compact.dir (wrivcnt - q.compact.svc) 0 0 pool src q.compact.pq with
      ⟨moved, released, kept, shares, few, pulled⟩
    have few' : moved.length ≤ wrivcnt - q.svc := by
      rw [sameSvc] at few
      exact few
    have fits : Buffer.Fits q.compact.svbuf q.compact.svc (moved.map .ofPacket) := by
      simp only [Buffer.Fits, List.length_map, compactBounds.size, sameSvc]
      omega
    have described := Buffer.take_overwrite fits
    let next : Sendq :=
      { q.compact with
        pq := q.compact.pq ++ moved
        svc := q.compact.svc + (moved.map Iovec.ofPacket).length
        svbuf := Buffer.overwrite q.compact.svbuf q.compact.svc (moved.map .ofPacket) }
    have nextWindow : next.window = q.window ++ moved.map .ofPacket := by
      rw [← sameWindow]
      simpa only [window, next, atStart, List.drop_zero] using described
    have nextBounds : next.InBounds := by
      refine ⟨(Buffer.length_overwrite fits).trans compactBounds.size, ?_, fun _ => atStart⟩
      simp only [next, List.length_map, atStart, sameSvc]
      omega
    refine ⟨moved, released, kept, next, ?_, sameDir ▸ shares, nextBounds, sameDir, ?_, nextWindow, ?_⟩
    · simp only [pulled, next]
    · simp only [next, samePq]
    · simp only [next, List.length_map, sameSvc]
  · exact ⟨[], [], src, q, rfl, .none _ _ _, bounds, rfl, by simp, by simp, by simp⟩

/-- All bytes that are still to be written: those of the window, then those of
the packets behind as many packets as the window has entries. -/
def pending (q : Sendq) : List Byte :=
  iovBytes q.window ++ wireBytes (q.pq.drop q.svc)

theorem pending_fill {q : Sendq} (size : q.svbuf.length = wrivcnt) :
    q.fill.pending = wireBytes q.pq := by
  rw [pending, window_fill size, iovBytes_ofPacket, pq_fill, svc_fill, ← wireBytes_append]
  by_cases long : wrivcnt ≤ q.pq.length
  · rw [Nat.min_eq_left long, List.take_append_drop]
  · have short : q.pq.length ≤ wrivcnt := Nat.le_of_not_le long
    rw [Nat.min_eq_right short, List.drop_length, List.take_of_length_le short,
      List.append_nil]

/-- The first entry of a window that is not empty. -/
theorem window_succ {q : Sendq} {n : Nat} (count : q.svc = n + 1)
    (within : q.sv + q.svc ≤ q.svbuf.length) (pq : List RfPacket) :
    q.window = q.svbuf.getD q.sv .unset ::
      ({ q with pq := pq, sv := q.sv + 1, svc := n } : Sendq).window := by
  have inside : q.sv < q.svbuf.length := by omega
  simp only [window, count]
  rw [List.drop_eq_getElem_cons inside, List.take_succ_cons, List.getD_eq_getElem _ _ inside]

/-- Moving the first entry forward changes no other entry of the window. -/
theorem window_advance {q : Sendq} {iov : Iovec} {rest : List Iovec} (bytes : Nat)
    (shape : q.window = iov :: rest) : (q.advance bytes).window = iov.advance bytes :: rest := by
  simp only [window, advance] at shape ⊢
  rw [List.drop_modify_of_ge _ _ _ _ (Nat.le_refl _), Nat.sub_self]
  cases tail : q.svbuf.drop q.sv with
  | nil =>
      rw [tail, List.take_nil] at shape
      cases shape
  | cons head later =>
      rw [tail] at shape
      cases count : q.svc with
      | zero =>
          rw [count] at shape
          cases shape
      | succ n =>
          rw [count, List.take_succ_cons] at shape
          rw [List.modify_zero_cons, List.take_succ_cons, (List.cons.inj shape).1,
            (List.cons.inj shape).2]

/-- The window behind its first `k` entries. -/
theorem window_drop (q : Sendq) (k : Nat) :
    ({ q with pq := q.pq.drop k, sv := q.sv + k, svc := q.svc - k } : Sendq).window =
      q.window.drop k := by
  simp only [window, List.drop_take, List.drop_drop]

/-- The first entry moves forward over the bytes that were sent of it, if any were. -/
theorem window_stop {q : Sendq} {iov : Iovec} {rest : List Iovec} (left : Nat)
    (shape : q.window = iov :: rest) :
    (if 0 < left then q.advance left else q).window = iov.advance left :: rest := by
  split
  · exact window_advance left shape
  · next zero =>
      rw [shape, Nat.eq_zero_of_not_pos zero]
      simp [Iovec.advance]

end Sendq

namespace SendState

/-- The discarding loop takes `k` entries off the window and as many packets
off the list, and stops inside the next entry if there is one. -/
theorem discardSent_spec (n : Nat) (pool : Pool) (q : Sendq) (bytes : Nat) (count : q.svc = n)
    (within : q.sv + q.svc ≤ q.svbuf.length) :
    Exists fun k => Exists fun left =>
      k ≤ n ∧
        discardSent n pool q bytes =
          (pqhClear pool (q.pq.take k),
            { q with pq := q.pq.drop k, sv := q.sv + k, svc := n - k }, left) ∧
        (iovBytes (q.window.take k)).length + left = bytes ∧
        forall iov rest, q.window.drop k = iov :: rest -> left < iov.len := by
  induction n generalizing pool q bytes with
  | zero =>
      refine ⟨0, bytes, Nat.le_refl _, ?_, by simp, ?_⟩
      · cases q
        cases count
        rfl
      · intro iov rest shape
        have empty : q.window = [] := by simp [Sendq.window, count]
        rw [empty] at shape
        cases shape
  | succ n inductionHypothesis =>
      have shape := Sendq.window_succ count within (pqhDiscard pool q.pq).2
      unfold discardSent
      simp only
      split
      · rename_i sent
        rcases inductionHypothesis (pqhDiscard pool q.pq).1
            { q with pq := (pqhDiscard pool q.pq).2, sv := q.sv + 1, svc := n }
            (bytes - (q.svbuf.getD q.sv .unset).len) rfl
            (by simp only; omega) with ⟨k, left, few, same, total, stops⟩
        refine ⟨k + 1, left, Nat.succ_le_succ few, ?_, ?_, ?_⟩
        · rw [same]
          cases pq : q.pq with
          | nil => simp [pqhDiscard, pqhClear, Nat.add_assoc, Nat.add_comm 1 k]
          | cons pkt rest => simp [pqhDiscard, pqhClear, Nat.add_assoc, Nat.add_comm 1 k]
        · rw [shape, List.take_succ_cons, iovBytes_cons, List.length_append, Iovec.length_bytes]
          omega
        · rw [shape, List.drop_succ_cons]
          exact stops
      · rename_i unsent
        refine ⟨0, bytes, Nat.zero_le _, ?_, by simp, ?_⟩
        · cases q
          cases count
          rfl
        · intro iov rest first
          rw [List.drop_zero, shape] at first
          rw [← (List.cons.inj first).1]
          omega

/-- One call of `writev` that accepts bytes.  Either the whole window was
accepted, and it is filled again, or the next entry moves forward. -/
inductive Accepts (s next : SendState) (bytes : Nat) : Prop
  | whole (all : bytes = (iovBytes s.q.window).length)
      (refilled : next.q.window = ((s.q.pq.drop s.q.svc).take wrivcnt).map .ofPacket)
      (count : next.q.svc = min wrivcnt (s.q.pq.drop s.q.svc).length)
      (pq : next.q.pq = s.q.pq.drop s.q.svc)
      (pool : next.pool = pqhClear s.pool (s.q.pq.take s.q.svc))
  | partly (k left : Nat) (iov : Iovec) (rest : List Iovec) (few : k < s.q.svc)
      (stops : s.q.window.drop k = iov :: rest) (inside : left < iov.len)
      (total : (iovBytes (s.q.window.take k)).length + left = bytes)
      (moved : next.q.window = iov.advance left :: rest)
      (count : next.q.svc = s.q.svc - k)
      (pq : next.q.pq = s.q.pq.drop k)
      (pool : next.pool = pqhClear s.pool (s.q.pq.take k))

theorem body_accepted {s next : SendState} {bytes : Nat} {value : Option Int}
    (bounds : s.q.InBounds) (taken : s.body (.accepted bytes) = some (next, value)) :
    value = none ∧ 0 < bytes ∧ bytes ≤ (iovBytes s.q.window).length ∧ next.q.InBounds ∧
      next.q.dir = s.q.dir ∧ next.out = s.out ++ (iovBytes s.q.window).take bytes ∧
        Accepts s next bytes := by
  have size := bounds.size
  have within := bounds.within
  simp only [body] at taken
  split at taken
  · rename_i offered
    rcases discardSent_spec s.q.svc s.pool s.q bytes rfl (by omega) with
      ⟨k, left, few, same, total, stops⟩
    rw [same] at taken
    simp only [Option.some.injEq, Prod.mk.injEq] at taken
    rcases taken with ⟨nextEq, valueEq⟩
    refine ⟨valueEq.symm, offered.1, offered.2, ?_⟩
    let sent : Sendq := { s.q with pq := s.q.pq.drop k, sv := s.q.sv + k, svc := s.q.svc - k }
    by_cases all : k = s.q.svc
    · subst all
      have done : s.q.window.length ≤ s.q.svc := Nat.le_of_eq bounds.length_window
      rw [List.take_of_length_le done] at total
      have none : left = 0 := by omega
      subst none
      simp only [Nat.lt_irrefl, if_false, Nat.sub_self, if_true] at nextEq
      subst nextEq
      refine ⟨Sendq.inBounds_fill size, rfl, rfl, .whole (by omega) ?_ ?_ rfl rfl⟩
      · exact Sendq.window_fill size
      · exact Sendq.svc_fill _
    · have fewer : k < s.q.svc := Nat.lt_of_le_of_ne few all
      have more : k < s.q.window.length := bounds.length_window.symm ▸ fewer
      cases shape : s.q.window.drop k with
      | nil =>
          have empty := congrArg List.length shape
          rw [List.length_drop, List.length_nil] at empty
          omega
      | cons iov rest =>
          have inside := stops iov rest shape
          have someLeft : ¬ s.q.svc - k = 0 := by omega
          have nextQ : next.q = if 0 < left then sent.advance left else sent := by
            rw [← nextEq]
            by_cases positive : 0 < left
            · simp only [if_pos positive, Sendq.advance, if_neg someLeft, sent]
            · simp only [if_neg positive, if_neg someLeft, sent]
          have moved : next.q.window = iov.advance left :: rest := by
            rw [nextQ]
            exact Sendq.window_stop left ((s.q.window_drop k).trans shape)
          have sameOut : next.out = s.out ++ (iovBytes s.q.window).take bytes := by rw [← nextEq]
          have samePool : next.pool = pqhClear s.pool (s.q.pq.take k) := by rw [← nextEq]
          have keeps : next.q.svbuf.length = s.q.svbuf.length ∧ next.q.sv = s.q.sv + k ∧
              next.q.svc = s.q.svc - k ∧ next.q.pq = s.q.pq.drop k ∧ next.q.dir = s.q.dir := by
            rw [nextQ]
            split <;> simp [Sendq.advance, sent]
          rcases keeps with ⟨sameSize, newSv, newSvc, newPq, sameDir⟩
          refine ⟨⟨sameSize.trans size, ?_, ?_⟩, sameDir, sameOut,
            .partly k left iov rest fewer shape inside total moved newSvc newPq samePool⟩
          · omega
          · intro empty
            omega
  · cases taken

/-- A call of `writev` that accepts nothing leaves the state as it is. -/
theorem body_failed {s next : SendState} {errno : Errno} {value : Option Int}
    (taken : s.body (.failed errno) = some (next, value)) :
    next = s ∧ (value = none ∧ errno = .eintr ∨ value = some (s.q.svc : Int) ∧ errno = .eagain ∨
      value = some (-1) ∧ errno = .other) := by
  cases errno <;> simp only [body, Option.some.injEq, Prod.mk.injEq] at taken <;>
    exact ⟨taken.1.symm, by simp [← taken.2]⟩

/-- Bytes only move from the pending part to the accepted part. -/
theorem body_conserves {s next : SendState} {result : WritevResult} {value : Option Int}
    (bounds : s.q.InBounds) (taken : s.body result = some (next, value)) :
    next.out ++ next.q.pending = s.out ++ s.q.pending := by
  cases result with
  | failed errno => rw [(body_failed taken).1]
  | accepted bytes =>
      rcases body_accepted bounds taken with ⟨_, _, _, _, _, out, accepts⟩
      rw [out, List.append_assoc]
      congr 1
      cases accepts with
      | whole all refilled count pq =>
          have rest : next.q.pending = wireBytes (s.q.pq.drop s.q.svc) := by
            rw [Sendq.pending, refilled, iovBytes_ofPacket, pq, count, ← wireBytes_append]
            by_cases long : wrivcnt ≤ (s.q.pq.drop s.q.svc).length
            · rw [Nat.min_eq_left long, List.take_append_drop]
            · have short := Nat.le_of_not_le long
              rw [Nat.min_eq_right short, List.drop_length, List.take_of_length_le short,
                List.append_nil]
          rw [rest, all, List.take_length, Sendq.pending]
      | partly k left iov rest few stops inside total moved count pq =>
          have split : iovBytes s.q.window =
              iovBytes (s.q.window.take k) ++ (iov.bytes ++ iovBytes rest) := by
            rw [← iovBytes_cons, ← stops, ← iovBytes_append, List.take_append_drop]
          have accepted : (iovBytes s.q.window).take bytes =
              iovBytes (s.q.window.take k) ++ iov.bytes.take left := by
            rw [split, ← total, List.take_length_add_append, List.take_append_of_le_length]
            rw [Iovec.length_bytes]
            exact Nat.le_of_lt inside
          have behind : next.q.pq.drop next.q.svc = s.q.pq.drop s.q.svc := by
            rw [pq, count, List.drop_drop]
            congr 1
            omega
          rw [accepted, Sendq.pending, Sendq.pending, behind, moved, split, iovBytes_cons,
            Iovec.bytes_advance _ (Nat.le_of_lt inside)]
          simp only [← List.append_assoc]
          congr 2
          rw [List.append_assoc, List.take_append_drop]

/-- Entering `send` fills an empty window, and moves no byte. -/
theorem enter_conserves {s : SendState} (bounds : s.q.InBounds) :
    s.enter.out ++ s.enter.q.pending = s.out ++ s.q.pending := by
  unfold enter
  split
  · rename_i empty
    have noWindow := bounds.window_eq_nil.mpr empty
    have old : s.q.pending = wireBytes s.q.pq := by
      rw [Sendq.pending, noWindow, empty]
      rfl
    rw [old]
    exact congrArg (s.out ++ ·) (Sendq.pending_fill bounds.size)
  · rfl

theorem inBounds_enter {s : SendState} (bounds : s.q.InBounds) : s.enter.q.InBounds := by
  unfold enter
  split
  · exact Sendq.inBounds_fill bounds.size
  · exact bounds

theorem inBounds_body {s next : SendState} {result : WritevResult} {value : Option Int}
    (bounds : s.q.InBounds) (taken : s.body result = some (next, value)) : next.q.InBounds := by
  cases result with
  | failed errno =>
      rw [(body_failed taken).1]
      exact bounds
  | accepted bytes => exact (body_accepted bounds taken).2.2.2.1

end SendState

namespace SendqRun

/-- The step rule: what each operation and each call of `writev` keeps, a step
of the machine keeps.  A pull may be kept only under a condition. -/
theorem step_invariant (holds : SendState -> List RfPacket -> Prop)
    (condition : SendState -> List RfPacket -> Prop)
    (pushOut : forall st appended pkt, holds st appended ->
      holds { st with q := st.q.pushOut pkt } (appended ++ [pkt]))
    (pull : forall st appended src, holds st appended -> condition st src ->
      holds { st with pool := (st.q.pull st.pool src).1, q := (st.q.pull st.pool src).2.1 }
        (appended ++ (st.q.pull st.pool src).2.1.pq.drop st.q.pq.length))
    (enter : forall st appended, holds st appended -> holds st.enter appended)
    (body : forall st appended result next value, holds st appended ->
      st.body result = some (next, value) -> holds next appended)
    {run next : SendqRun} {op : SendqOp} (now : holds run.st run.appended)
    (met : forall src, op = .pull src -> condition run.st src)
    (taken : run.step op = some next) : holds next.st next.appended := by
  cases op with
  | pushOut pkt =>
      simp only [step] at taken
      split at taken
      · cases taken
      · cases taken
        exact pushOut _ _ pkt now
  | pull src =>
      simp only [step] at taken
      split at taken
      · cases taken
      · cases taken
        exact pull _ _ src now (met src rfl)
  | send =>
      simp only [step] at taken
      split at taken
      · cases taken
      · cases taken
        exact enter _ _ now
  | writev result =>
      simp only [step] at taken
      split at taken
      · split at taken
        · cases taken
        · rename_i bodyEq
          cases taken
          exact body _ _ result _ _ now bodyEq
        · rename_i bodyEq
          cases taken
          exact body _ _ result _ _ now bodyEq
      · cases taken

/-- A completed call of `send` is a run of the machine: one step that enters
it and one for each of its calls of `writev`. -/
theorem run_of_send {st final : SendState} {results : List WritevResult} {value : Int}
    (sent : st.send results = some (final, value)) (appended : List RfPacket)
    (returned : Option Int) :
    Run.run step ⟨st, appended, false, returned⟩ (.send :: results.map .writev) =
      some ⟨final, appended, false, some value⟩ := by
  have loop : forall (results : List WritevResult) (st : SendState) (run : SendqRun),
      st.sendLoop results = some (final, value) ->
        Run.run step (run.loopHead st) (results.map .writev) =
          some ⟨final, run.appended, false, some value⟩ := by
    intro results
    induction results with
    | nil =>
        intro st run looped
        simp only [SendState.sendLoop] at looped
        split at looped
        · rename_i empty
          cases looped
          simp [loopHead, empty]
        · cases looped
    | cons result results inductionHypothesis =>
        intro st run looped
        simp only [SendState.sendLoop] at looped
        split at looped
        · cases looped
        · rename_i busy
          have sending : (st.q.svc != 0) = true := by simpa using busy
          rw [List.map_cons, Run.run_cons_eq_some]
          split at looped
          · cases looped
          · rename_i next bodyEq
            refine ⟨run.loopHead next, ?_, inductionHypothesis next run looped⟩
            simp [step, loopHead, sending, bodyEq]
          · rename_i next last bodyEq
            split at looped
            · rename_i finished
              cases looped
              subst finished
              refine ⟨⟨final, run.appended, false, some value⟩, ?_, rfl⟩
              simp [step, loopHead, sending, bodyEq]
            · cases looped
  rw [Run.run_cons_eq_some]
  exact ⟨_, rfl, loop results st.enter ⟨st, appended, false, returned⟩ sent⟩

end SendqRun

end Rfx
