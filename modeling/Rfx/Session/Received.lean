import Rfx.Session.Transparency

namespace Rfx

open Library

/-!
# What has become of the frames that were received

The frames of a legal stream are handed to the filter one after the other, while those behind
them wait in the receive queue.
-/

/-- Some frames of the stream have been handed over, the others wait, and the rest is pending. -/
structure ProxyPipe.Hands (p : ProxyPipe) (frames : List (List Byte)) (rest : List Byte)
    (done : List (List Byte)) : Prop where
  inv : p.rcvq.Inv
  pending_eq : p.rcvq.pending = rest
  announced : forall pkt, pkt ∈ p.rcvq.pq -> Exists fun dir => Announced dir pkt
  split : frames = done ++ p.rcvq.pq.map RfPacket.data

namespace ProxyPipe

variable {p next : ProxyPipe} {frames done : List (List Byte)} {rest : List Byte}

theorem hands_start (dir : Dir) (split : wireFormat.Splits ((ProxyPipe.new dir).run).received frames rest) :
    ((ProxyPipe.new dir).run).Hands frames rest [] := by
  rcases split.unique (Framing.Format.splits_nil wireFormat) with ⟨noFrames, noRest⟩
  rw [noFrames, noRest]
  exact ⟨Recvq.inv_new dir, rfl, fun _ member => absurd member List.not_mem_nil, rfl⟩

/-- Only the receive queue matters. -/
theorem Hands.congr (hands : p.Hands frames rest done) (same : next.rcvq = p.rcvq) :
    next.Hands frames rest done := by
  constructor
  · exact same ▸ hands.inv
  · exact same ▸ hands.pending_eq
  · exact same ▸ hands.announced
  · exact same ▸ hands.split

/-- The first packet is taken from the receive queue. -/
theorem Hands.pass {pkt : RfPacket} {pkts : List RfPacket} (hands : p.Hands frames rest done)
    (queue : p.rcvq.pq = pkt :: pkts) (same : next.rcvq = { p.rcvq with pq := pkts }) :
    next.Hands frames rest (done ++ [pkt.data]) := by
  have announced := hands.announced
  have split := hands.split
  rw [queue] at announced split
  constructor
  · exact same ▸ ⟨hands.inv.buf, hands.inv.header, hands.inv.body⟩
  · exact same ▸ hands.pending_eq
  · exact same ▸ fun other member => announced other (List.mem_cons_of_mem _ member)
  · rw [same, split, List.map_cons, List.append_assoc]
    rfl

/-- Reading extends the stream, and whatever it completes waits for the filter. -/
theorem Reads.hands {pool pool' : Pool} {results : List ReadvResult} {more : Bool}
    (reads : p.Reads next results more)
    (received : RecvState.recv ⟨pool, p.rcvq⟩ results = some (⟨pool', next.rcvq⟩, more))
    (split : wireFormat.Splits next.received frames rest) :
    Exists fun before => Exists fun middle => wireFormat.Splits p.received before middle ∧
      forall done, p.Hands before middle done -> next.Hands frames rest done := by
  rw [reads.received_eq] at split
  rcases split.cut with ⟨before, middle, after, front, back, joined⟩
  refine ⟨before, middle, front, fun done hands => ?_⟩
  rcases RecvState.run_spec (s := ⟨pool, p.rcvq⟩) hands.inv
    (RecvState.possible_of_recv received) (hands.pending_eq.symm ▸ back) with
    ⟨final, reached, progress⟩
  have same : final = ⟨pool', next.rcvq⟩ :=
    Option.some.inj (reached.symm.trans (RecvState.run_of_recv received))
  rw [same] at progress
  rcases progress.queued with ⟨pkts, queue, data, announced⟩
  have queue' : next.rcvq.pq = p.rcvq.pq ++ pkts := queue
  refine ⟨progress.inv, progress.pending_eq, ?_, ?_⟩
  · intro pkt member
    rw [queue'] at member
    rcases List.mem_append.mp member with old | new
    · exact hands.announced pkt old
    · exact ⟨_, announced pkt new⟩
  · rw [joined, hands.split, queue', List.map_append, data, List.append_assoc]

end ProxyPipe

end Rfx
