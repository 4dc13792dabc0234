import Mathlib.Data.Fintype.Basic
import Rfx.Filter
import Rfx.Library.Loop
import Rfx.Library.TailQueue

namespace Rfx

open Library Library.TailQueue

/-!
# The pointers of packet queues

The functions of `pktq.c` once more, over the pointers that `queue.h` links packets
with.  A packet is an address here.  Its record and its pointers exist while it has a
reference, and a function that uses them later has no result.

Elsewhere a queue is the list of its packets.  That list is what the pointers stand
for, as long as a packet is linked in one queue only and nobody gives up the last
reference to a packet that is linked.
-/

/-- All packets and queue heads of the process. -/
structure PktHeap (H : Type) where
  pool : Pool
  record : Nat -> RfPacket
  links : Memory H Nat

/-- The memory of a packet has not been freed. -/
def Alive (pool : Pool) (pkt : Nat) : Bool :=
  decide (0 < pool.refc pkt)

namespace PktHeap

variable {H : Type} [DecidableEq H]

/-- `pqh_init`. -/
def pqhInit (s : PktHeap H) (pqh : H) : PktHeap H :=
  { s with links := s.links.init pqh }

/-- `pqh_empty`. -/
def pqhEmpty (s : PktHeap H) (pqh : H) : Bool :=
  (s.links.first pqh).isNone

/-- `pqh_head`. -/
def pqhHead (s : PktHeap H) (pqh : H) : Option Nat :=
  s.links.first pqh

/-- `pqh_next`. -/
def pqhNext (s : PktHeap H) (pkt : Nat) : Option (Option Nat) :=
  s.links.next (Alive s.pool) pkt

/-- `pqh_push`. -/
def pqhPush (s : PktHeap H) (pqh : H) (pkt : Nat) : Option (PktHeap H) :=
  (s.links.insertTail (Alive s.pool) pqh pkt).map fun links => { s with links }

/-- `TAILQ_REMOVE`. -/
def unlink (s : PktHeap H) (pqh : H) (pkt : Nat) : Option (PktHeap H) :=
  (s.links.remove (Alive s.pool) pqh pkt).map fun links => { s with links }

/-- `pqh_pop`. -/
def pqhPop (s : PktHeap H) (pqh : H) : Option (PktHeap H × Option Nat) :=
  match s.links.first pqh with
  | none => some (s, none)
  | some pkt => (s.unlink pqh pkt).map fun s => (s, some pkt)

/-- `pkt_new`. -/
def pktNew (s : PktHeap H) (len type : Nat) (dir : Dir) : PktHeap H :=
  { s with
    pool := s.pool.alloc
    record := Function.update s.record s.pool.next (pktInit s.pool.next len type dir) }

/-- `pkt_ref`. -/
def pktRef (s : PktHeap H) (pkt : Nat) : Option (PktHeap H) :=
  if Alive s.pool pkt then some { s with pool := s.pool.ref pkt } else none

/-- `pkt_unref`. -/
def pktUnref (s : PktHeap H) (pkt : Nat) : Option (PktHeap H) :=
  if Alive s.pool pkt then some { s with pool := s.pool.unref pkt } else none

/-- A store into a packet. -/
def store (s : PktHeap H) (pkt : Nat) (edit : PktEdit) : Option (PktHeap H) :=
  if Alive s.pool pkt then
    some { s with record := Function.update s.record pkt (edit.apply (s.record pkt)) }
  else none

/-- `pqh_discard`. -/
def pqhDiscard (s : PktHeap H) (pqh : H) : Option (PktHeap H) :=
  match s.links.first pqh with
  | none => some s
  | some pkt => (s.unlink pqh pkt).bind fun s => s.pktUnref pkt

/-- A turn of the loop of `pqh_clear`.  The next packet is read before this one is released. -/
def clearTurn : PktHeap H × Option Nat -> Loop.Step (PktHeap H × Option Nat) (Option (PktHeap H))
  | (s, none) => .done (some s)
  | (s, some pkt) =>
      match s.pqhNext pkt with
      | none => .done none
      | some tmp =>
          match s.pktUnref pkt with
          | none => .done none
          | some s => .next (s, tmp)

/-- `pqh_clear`, with fuel for its loop. -/
def pqhClear (fuel : Nat) (s : PktHeap H) (pqh : H) : Option (PktHeap H) :=
  (Loop.run clearTurn fuel (s, s.links.first pqh)).join

/-- The locals of `pqh_pull`: `i` is the number of entries of `outv` that have been stored. -/
structure Pulling (H : Type) where
  heap : PktHeap H
  p : Option Nat
  outv : List Iovec

/-- A turn of the loop of `pqh_pull`. -/
def pullTurn (src dst : H) (dir : Dir) (outvSz minDelay : Nat) :
    Pulling H -> Loop.Step (Pulling H) (Option (PktHeap H × List Iovec)) := fun w =>
  match w.p with
  | none => .done (some (w.heap, w.outv))
  | some p =>
      match w.heap.pqhNext p with
      | none => .done none
      | some tmp =>
          let pkt := w.heap.record p
          if outvSz ≤ w.outv.length then .done (some (w.heap, w.outv))
          else if minDelay < pkt.delay then .next { w with p := tmp }
          else if pkt.dir = dir then
            match w.heap.unlink src p with
            | none => .done none
            | some heap =>
                if pkt.drop then
                  match heap.pktUnref p with
                  | none => .done none
                  | some heap => .next ⟨heap, tmp, w.outv⟩
                else
                  match heap.pqhPush dst p with
                  | none => .done none
                  | some heap => .next ⟨heap, tmp, w.outv ++ [.ofPacket pkt]⟩
          else .next { w with p := tmp }

/-- `pqh_pull`, with fuel for its loop. -/
def pqhPull (fuel : Nat) (s : PktHeap H) (src dst : H) (dir : Dir) (outvSz minDelay : Nat) :
    Option (PktHeap H × List Iovec) :=
  (Loop.run (pullTurn src dst dir outvSz minDelay) fuel ⟨s, s.links.first src, []⟩).join

end PktHeap

/-! ## Calls -/

/-- A call of one of the functions, together with what it returns. -/
inductive PktCall (H : Type)
  | create (len type : Nat) (dir : Dir)
  | ref (pkt : Nat)
  | unref (pkt : Nat)
  | store (pkt : Nat) (edit : PktEdit)
  | init (pqh : H)
  | empty (pqh : H) (answer : Bool)
  | head (pqh : H) (answer : Option Nat)
  | next (pqh : H) (pkt : Nat) (answer : Option Nat)
  | push (pqh : H) (pkt : Nat)
  | pop (pqh : H) (answer : Option Nat)
  | discard (pqh : H)
  | clear (pqh : H)
  | pull (src dst : H) (dir : Dir) (outvSz minDelay : Nat) (answer : List Iovec)

/-- A result is possible with the right answer only. -/
def answering {A S : Type} [DecidableEq A] (expected : A) : Option (S × A) -> Option S
  | none => none
  | some (s, answer) => if answer = expected then some s else none

namespace PktHeap

variable {H : Type} [DecidableEq H]

def step (fuel : Nat) (s : PktHeap H) : PktCall H -> Option (PktHeap H)
  | .create len type dir => some (s.pktNew len type dir)
  | .ref pkt => s.pktRef pkt
  | .unref pkt => s.pktUnref pkt
  | .store pkt edit => s.store pkt edit
  | .init pqh => some (s.pqhInit pqh)
  | .empty pqh answer => answering answer (some (s, s.pqhEmpty pqh))
  | .head pqh answer => answering answer (some (s, s.pqhHead pqh))
  | .next _ pkt answer => answering answer ((s.pqhNext pkt).map fun next => (s, next))
  | .push pqh pkt => s.pqhPush pqh pkt
  | .pop pqh answer => answering answer (s.pqhPop pqh)
  | .discard pqh => s.pqhDiscard pqh
  | .clear pqh => s.pqhClear fuel pqh
  | .pull src dst dir outvSz minDelay answer =>
      answering answer (s.pqhPull fuel src dst dir outvSz minDelay)

end PktHeap

/-! ## Lists -/

/-- The queues as lists; a head that is not in use has none. -/
structure PktLists (H : Type) where
  pool : Pool
  record : Nat -> RfPacket
  lists : H -> Option (List Nat)

namespace PktLists

variable {H : Type} [DecidableEq H]

/-- The packets of a list. -/
def pkts (a : PktLists H) (elms : List Nat) : List RfPacket :=
  elms.map a.record

def set (a : PktLists H) (pqh : H) (elms : Option (List Nat)) : PktLists H :=
  { a with lists := Function.update a.lists pqh elms }

/-- What a call does to the lists. -/
def step (a : PktLists H) : PktCall H -> Option (PktLists H)
  | .create len type dir =>
      some { a with
        pool := (Rfx.pktNew a.pool len type dir).1
        record := Function.update a.record a.pool.next (Rfx.pktNew a.pool len type dir).2 }
  | .ref pkt => some { a with pool := a.pool.ref pkt }
  | .unref pkt => some { a with pool := a.pool.unref pkt }
  | .store pkt edit =>
      some { a with record := Function.update a.record pkt (edit.apply (a.record pkt)) }
  | .init pqh => some (a.set pqh (some []))
  | .empty pqh answer =>
      (a.lists pqh).bind fun elms => answering answer (some (a, elms.isEmpty))
  | .head pqh answer => (a.lists pqh).bind fun elms => answering answer (some (a, elms.head?))
  | .next pqh pkt answer =>
      (a.lists pqh).bind fun elms =>
        answering answer (some (a, (elms.dropWhile (· ≠ pkt)).tail.head?))
  | .push pqh pkt => (a.lists pqh).map fun elms => a.set pqh (some (elms ++ [pkt]))
  | .pop pqh answer =>
      (a.lists pqh).bind fun elms => answering answer (some (a.set pqh (some elms.tail), elms.head?))
  | .discard pqh =>
      (a.lists pqh).map fun elms =>
        { a.set pqh (some elms.tail) with pool := (Rfx.pqhDiscard a.pool (a.pkts elms)).1 }
  | .clear pqh =>
      (a.lists pqh).map fun elms =>
        { a.set pqh none with pool := Rfx.pqhClear a.pool (a.pkts elms) }
  | .pull src dst dir outvSz minDelay answer =>
      (a.lists src).bind fun elms =>
        (a.lists dst).bind fun behind =>
          let pulled := Rfx.pqhPull dir outvSz minDelay 0 a.pool (a.pkts elms) (a.pkts behind)
          answering answer (some
            ({ (a.set src (some (pulled.src.map RfPacket.ptr))).set dst
                (some (pulled.dst.map RfPacket.ptr)) with pool := pulled.pool }, pulled.outv))

/-- The packet is in no queue. -/
def Unlinked (a : PktLists H) (pkt : Nat) : Prop :=
  forall pqh elms, a.lists pqh = some elms -> pkt ∉ elms

/-- What callers of the functions see to: the packet exists, it is linked in one queue
at a time, and the last reference is not given up while it is linked. -/
def Legal (a : PktLists H) : PktCall H -> Prop
  | .ref pkt => Alive a.pool pkt = true
  | .unref pkt => Alive a.pool pkt = true ∧ (a.Unlinked pkt ∨ 1 < a.pool.refc pkt)
  | .store pkt _ => Alive a.pool pkt = true
  | .next pqh pkt _ => forall elms, a.lists pqh = some elms -> pkt ∈ elms
  | .push _ pkt => Alive a.pool pkt = true ∧ a.Unlinked pkt
  | .pull src dst _ _ _ _ => src ≠ dst
  | _ => True

instance [Fintype H] (a : PktLists H) (pkt : Nat) : Decidable (a.Unlinked pkt) :=
  inferInstanceAs (Decidable (forall pqh elms, elms ∈ a.lists pqh -> pkt ∉ elms))

instance [Fintype H] (a : PktLists H) (call : PktCall H) : Decidable (a.Legal call) :=
  match call with
  | .create .. | .init .. | .empty .. | .head .. | .pop .. | .discard .. | .clear .. => isTrue trivial
  | .ref .. | .store .. => inferInstanceAs (Decidable (_ = true))
  | .unref .. => inferInstanceAs (Decidable (_ = true ∧ (_ ∨ _ < _)))
  | .next pqh pkt _ => inferInstanceAs (Decidable (forall elms, elms ∈ a.lists pqh -> pkt ∈ elms))
  | .push .. => inferInstanceAs (Decidable (_ = true ∧ _))
  | .pull src dst .. => inferInstanceAs (Decidable (src ≠ dst))

end PktLists

end Rfx
