import Rfx.Library.Omits
import Rfx.Session.Received

namespace Rfx

open Library

/-!
# A session whose filters send nothing to the server

Filters may answer the client, and may drop some of the packets, but what they create is for
the client and what they do not drop stays as it is.  Then the server gets what the client has
sent, without some of the frames.  Nothing of the kind holds of the other pipe, whose window
can overtake the packets behind it.

The invariant is that of a transparent session, with a list of the frames that were not
dropped between those that were read and the bytes that were written.
-/

/-- A frame that goes on to the server as it came, or may be dropped. -/
structure FilterFrame.Forwards (leave : List Byte -> Prop) (pkt : RfPacket) (frame : FilterFrame) :
    Prop where
  toClient : forall added, added ∈ frame.pre ++ frame.post -> added.dir = srvToCli
  wire_eq : frame.pkt.wire = pkt.wire
  dropped : frame.pkt.drop = true -> forall dir, Announced dir pkt -> leave pkt.wire

/-- The chains that do no more than that; calling them leads to no others. -/
structure RfxFilterChain.Forwards {σ : Type} (leave : List Byte -> Prop)
    (chains : RfxFilterChain σ -> Prop) : Prop where
  handled : forall chain pool pkt fuel processed (handled : ChainState σ), chains chain ->
    ChainState.processPkt ⟨chain, pool, .start pkt⟩ = some processed ->
      processed.processEvents fuel = some handled ->
        chains handled.flt ∧ handled.frame.Forwards leave pkt

/-! ## The pipe to the server -/

/-- What has been handed over of a stream of frames is written, pending or left out. -/
def ProxyPipe.Sifts (leave : List Byte -> Prop) (p : ProxyPipe) (frames : List (List Byte))
    (rest : List Byte) : Prop :=
  Exists fun done => Exists fun kept => p.Hands frames rest done ∧ Omits leave done kept ∧
    p.written ++ p.sndq.pending = kept.flatten

/-- The output was shut down after the end of the stream, with everything written that was kept. -/
structure Shutdown.CompleteBut (leave : List Byte -> Prop) (snap : Shutdown) (received : List Byte) :
    Prop where
  eof : snap.eof = true
  earlier : snap.received <+: received
  written : forall frames rest, wireFormat.Splits snap.received frames rest ->
    Exists fun kept => Omits leave frames kept ∧ snap.written = kept.flatten

/-- A pipe relays its stream without some frames, as far as the stream is legal. -/
structure ProxyPipe.RelaysBut (leave : List Byte -> Prop) (p : ProxyPipe) : Prop where
  sifts : forall frames rest, wireFormat.Splits p.received frames rest -> p.Sifts leave frames rest
  closed : forall snap, snap ∈ p.shutdowns -> snap.broken = false -> snap.CompleteBut leave p.received

namespace ProxyPipe.RelaysBut

variable {leave : List Byte -> Prop} {p next : ProxyPipe}

theorem start (leave : List Byte -> Prop) (dir : Dir) : ((ProxyPipe.new dir).run).RelaysBut leave where
  sifts := fun _ _ split => ⟨[], [], hands_start dir split, .nil, rfl⟩
  closed := fun _ member => absurd member List.not_mem_nil

/-- Reading extends the stream. -/
theorem reads {pool pool' : Pool} {results : List ReadvResult} {more : Bool} (relays : p.RelaysBut leave)
    (reads : p.Reads next results more)
    (received : RecvState.recv ⟨pool, p.rcvq⟩ results = some (⟨pool', next.rcvq⟩, more)) :
    next.RelaysBut leave := by
  have sndq : next.sndq = p.sndq := reads.sndq_eq
  have written : next.written = p.written := by rw [reads.rest]
  have shutdowns : next.shutdowns = p.shutdowns := by rw [reads.rest]
  refine ⟨?_, ?_⟩
  · intro frames rest split
    rcases reads.hands received split with ⟨before, middle, front, goesOn⟩
    rcases relays.sifts before middle front with ⟨done, kept, hands, omits, bytes⟩
    exact ⟨done, kept, goesOn done hands, omits, by rw [written, sndq, bytes]⟩
  · intro snap member unbroken
    rw [shutdowns] at member
    have complete := relays.closed snap member unbroken
    rw [reads.received_eq]
    exact ⟨complete.eof, complete.earlier.trans (List.prefix_append _ _), complete.written⟩

/-- Another send queue with the same pending bytes. -/
theorem with_sndq {q : Sendq} (relays : p.RelaysBut leave) (same : q.pending = p.sndq.pending) :
    ({ p with sndq := q } : ProxyPipe).RelaysBut leave where
  sifts := by
    intro frames rest split
    rcases relays.sifts frames rest split with ⟨done, kept, hands, omits, bytes⟩
    exact ⟨done, kept, hands.congr rfl, omits, same ▸ bytes⟩
  closed := relays.closed

/-- One packet goes from the receive queue to the send queue, or is dropped. -/
theorem pass {pkt : RfPacket} {rest : List RfPacket} {q : Sendq} (relays : p.RelaysBut leave)
    (queue : p.rcvq.pq = pkt :: rest)
    (fate : q.pending = p.sndq.pending ++ pkt.wire ∨
      q.pending = p.sndq.pending ∧ forall dir, Announced dir pkt -> leave pkt.wire) :
    ({ p with rcvq := { p.rcvq with pq := rest }, sndq := q } : ProxyPipe).RelaysBut leave where
  sifts := by
    intro frames pending split
    rcases relays.sifts frames pending split with ⟨done, kept, hands, omits, bytes⟩
    rcases hands.announced pkt (queue ▸ List.mem_cons_self) with ⟨dir, here⟩
    have passed : ({ p with rcvq := { p.rcvq with pq := rest }, sndq := q } : ProxyPipe).Hands frames pending
        (done ++ [pkt.data]) := hands.pass queue rfl
    rcases fate with sent | ⟨same, left⟩
    · refine ⟨done ++ [pkt.data], kept ++ [pkt.data], passed, omits.append (.refl leave _), ?_⟩
      rw [sent, here.wire_eq, ← List.append_assoc, bytes, List.flatten_append, List.flatten_singleton]
    · have may : leave pkt.data := here.wire_eq ▸ left dir here
      refine ⟨done ++ [pkt.data], kept, passed, ?_, same ▸ bytes⟩
      have one : Omits leave [pkt.data] [] := .leave _ may .nil
      exact List.append_nil kept ▸ omits.append one
  closed := relays.closed

/-- Writing takes bytes from the send queue.  If `send` returns zero nothing is left of it, which
is when the output may be shut down. -/
theorem afterSend {pool : Pool} {st : SendState} {results : List WritevResult} {value : Int}
    (relays : p.RelaysBut leave) (counted : p.sndq.Counted)
    (sent : SendState.send ⟨pool, p.sndq, p.written⟩ results = some (st, value)) :
    (({ p with sndq := st.q, written := st.out } : ProxyPipe).afterSend value).RelaysBut leave := by
  have conserved : st.out ++ st.q.pending = p.written ++ p.sndq.pending :=
    SendState.send_conserves counted.bounds sent
  rw [afterSend_eq]
  refine ⟨?_, ?_⟩
  · intro frames rest split
    rcases relays.sifts frames rest split with ⟨done, kept, hands, omits, bytes⟩
    exact ⟨done, kept, hands.congr rfl, omits, conserved ▸ bytes⟩
  · intro snap member unbroken
    simp only at member
    split at member
    · rename_i closing
      rcases List.mem_append.mp member with old | new
      · exact relays.closed snap old unbroken
      · rw [List.mem_singleton.mp new] at unbroken ⊢
        refine ⟨closing.2.1, List.prefix_refl _, ?_⟩
        intro frames rest split
        rcases relays.sifts frames rest split with ⟨done, kept, hands, omits, bytes⟩
        have drained : st.q.pending = [] := by
          cases SendState.send_outcome counted sent with
          | drained _ _ empty => exact (SendState.counted_send counted sent).pending_eq_nil empty
          | blocked _ positive _ =>
              have notPositive := closing.1
              omega
          | broken => simp at unbroken
        have empty : p.rcvq.pq = [] := closing.2.2
        have all := hands.split
        rw [empty, List.map_nil, List.append_nil] at all
        rw [← conserved, drained, List.append_nil] at bytes
        exact ⟨kept, all ▸ omits, bytes⟩
    · exact relays.closed snap member unbroken

end ProxyPipe.RelaysBut

/-! ## The session -/

namespace RfSession

variable {σ : Type} {s next : RfSession σ} {leave : List Byte -> Prop}

/-- A session that relays to the server what the client has sent, without some frames, and
delays only what is for the client. -/
structure Forwarding (leave : List Byte -> Prop) (s : RfSession σ) : Prop where
  sound : s.Sound
  toClient : forall dp, dp ∈ s.dq.qh -> dp.pkt.dir = srvToCli
  relays : s.c2s.RelaysBut leave

/-- Packets for the client do not touch the pipe to the server, whose window may move. -/
theorem Injected.toClient {pqh : List RfPacket} (injected : s.Injected pqh next)
    (all : forall pkt, pkt ∈ pqh -> pkt.dir = srvToCli) :
    s.c2s.SamePending next.c2s ∧ next.flt = s.flt ∧
      forall dp, dp ∈ next.dq.qh -> dp ∈ s.dq.qh ∨ dp.pkt.dir = srvToCli := by
  cases injected with
  | intro toCli toSrv released delayed routes injects =>
      have none : toSrv = [] := by
        apply List.eq_nil_iff_forall_not_mem.mpr
        intro pkt member
        have toServer := (routes.of_toSrv pkt member).1.2
        rw [all pkt (routes.toSrv_sublist.subset member)] at toServer
        exact absurd toServer (by decide)
      subst none
      rw [injects.rest]
      refine ⟨⟨next.c2s.sndq, ?_, rfl⟩, rfl, ?_⟩
      · simp [Sendq.pending, injects.toSrv.window_eq, injects.toSrv.pq_eq, injects.toSrv.svc_eq]
      · intro dp member
        rcases List.mem_append.mp member with old | new
        · exact Or.inl old
        · rcases List.mem_map.mp new with ⟨pkt, there, rfl⟩
          exact Or.inr (all pkt (routes.delayed_sublist.subset there))

namespace Forwarding

theorem start (pool : Pool) (flt : RfxFilterChain σ) : (RfSession.start pool flt).Forwarding leave :=
  ⟨.start pool flt, fun _ member => absurd member List.not_mem_nil, .start leave cliToSrv⟩

/-- Storing a pipe that relays if it is the one to the server. -/
theorem setPipe (forwarding : s.Forwarding leave) (dir : Dir) {p : ProxyPipe}
    (relays : dir ≠ srvToCli -> p.RelaysBut leave) : (s.setPipe dir p).c2s.RelaysBut leave := by
  unfold RfSession.setPipe
  split
  · exact forwarding.relays
  · rename_i toServer
    exact relays toServer

theorem pipe (forwarding : s.Forwarding leave) {dir : Dir} (toServer : dir ≠ srvToCli) :
    (s.pipe dir).RelaysBut leave := by
  rw [RfSession.pipe, if_neg toServer]
  exact forwarding.relays

theorem handleRead (forwarding : s.Forwarding leave) {dir : Dir} {results : List ReadvResult}
    (read : s.handleRead dir results = some next) : next.Forwarding leave := by
  have sound := forwarding.sound.handleRead read
  rcases handleRead_spec read with ⟨answer, answerEq, same⟩
  rcases ProxyPipe.handleReadEvent_spec answerEq with ⟨more, reads, recvEq⟩
  have rest := setPipe_rest s dir answer.2
  rw [same] at sound ⊢
  refine ⟨sound, ?_, forwarding.setPipe dir fun toServer => (forwarding.pipe toServer).reads reads recvEq⟩
  rw [rest.2.2.1]
  exact forwarding.toClient

theorem handleWrite (forwarding : s.Forwarding leave) {dir : Dir} {results : List WritevResult}
    (written : s.handleWrite dir results = some next) : next.Forwarding leave := by
  have sound := forwarding.sound.handleWrite written
  rcases handleWrite_spec written with ⟨st, value, sendEq, same⟩
  have counted := (forwarding.sound.each.pipe dir).counted
  have rest := setPipe_rest s dir
    (({ s.pipe dir with sndq := st.q, written := st.out } : ProxyPipe).afterSend value)
  rw [same] at sound ⊢
  refine ⟨sound, ?_, forwarding.setPipe dir fun toServer =>
    (forwarding.pipe toServer).afterSend counted sendEq⟩
  rw [rest.2.2.1]
  exact forwarding.toClient

theorem startTimers (forwarding : s.Forwarding leave) :
    ({ s with dq := s.dq.start } : RfSession σ).Forwarding leave where
  sound := forwarding.sound.startTimers
  toClient := by
    intro dp member
    simp only [DelayedQueue.start] at member
    split at member
    · rcases List.mem_map.mp member with ⟨before, there, rfl⟩
      exact forwarding.toClient before there
    · exact forwarding.toClient dp member
  relays := forwarding.relays

/-- A timer sends a packet to the client. -/
theorem timeoutCb (forwarding : s.Forwarding leave) {index : Nat} {writes : List WritevResult}
    (fired : s.timeoutCb index writes = some next) : next.Forwarding leave := by
  have sound := forwarding.sound.timeoutCb fired
  rcases timeoutCb_spec fired with ⟨dp, emitted, found, _, emitEq, same⟩
  rcases emit_spec emitEq with ⟨st, value, _, emittedEq⟩
  have toClient := forwarding.toClient dp (List.mem_of_getElem? found)
  have dq : next.dq.qh = s.dq.qh.eraseIdx index := by
    rw [same, emittedEq]
    exact congrArg DelayedQueue.qh (setPipe_rest (s.removeDelayed index) dp.pkt.dir _).2.2.1
  have c2s : next.c2s = s.c2s := by
    rw [same, emittedEq, RfSession.setPipe, if_pos toClient]
    rfl
  refine ⟨sound, ?_, c2s ▸ forwarding.relays⟩
  rw [dq]
  exact fun other member => forwarding.toClient other (List.mem_of_mem_eraseIdx member)

/-- The packet goes on, or it is dropped, and what was created for it is for the client. -/
theorem filterPkt (forwarding : s.Forwarding leave) {dir : Dir} {fuel : Nat} {pkt : RfPacket}
    {rest : List RfPacket} {chains : RfxFilterChain σ -> Prop} (forwards : RfxFilterChain.Forwards leave chains)
    (chain : chains s.flt) (queue : (s.pipe dir).rcvq.pq = pkt :: rest)
    (filtered : (s.popIn dir rest).filterPkt dir fuel pkt = some next) :
    next.Forwarding leave ∧ chains next.flt := by
  have popped := forwarding.sound.popIn dir rest
  have sound := popped.filterPkt filtered
  have popRest := setPipe_rest s dir
    { s.pipe dir with rcvq := { (s.pipe dir).rcvq with pq := rest } }
  rcases filterPkt_spec filtered with ⟨processed, handled, processedEq, handledEq, same⟩
  rcases forwards.handled _ _ _ _ _ _ (popRest.2.1.symm ▸ chain) processedEq handledEq with
    ⟨chain', frame⟩
  have chained := popped.with_pool_flt handled.pool handled.flt
  rcases route_spec chained.formed dir handled.frame with ⟨middle, before, after⟩
  rw [← same] at after
  have middleSound := chained.injected before
  rcases before.toClient fun added member => frame.toClient added (List.mem_append_left _ member) with
    ⟨⟨first, firstSame, middlePipe⟩, beforeFlt, beforeQh⟩
  rcases after.toClient fun added member => frame.toClient added (List.mem_append_right _ member) with
    ⟨⟨last, lastSame, nextPipe⟩, afterFlt, afterQh⟩
  have disposed := dispose_rest middle dir handled.frame.pkt
  refine ⟨⟨sound, ?_, ?_⟩, ?_⟩
  · intro dp member
    rcases afterQh dp member with early | late
    · rw [disposed.2] at early
      rcases beforeQh dp early with old | new
      · exact forwarding.toClient dp (popRest.2.2.1 ▸ old)
      · exact new
    · exact late
  · rw [nextPipe]
    refine ProxyPipe.RelaysBut.with_sndq ?_ lastSame
    have disposedPipe : (middle.dispose dir handled.frame.pkt).c2s =
        if handled.frame.pkt.drop = false ∧ cliToSrv = side dir then
          middle.c2s.pushOut handled.frame.pkt
        else middle.c2s := pipe_dispose middle dir cliToSrv handled.frame.pkt
    have middleCounted := middleSound.each.c2s.counted
    rw [middlePipe] at disposedPipe middleCounted
    rw [disposedPipe]
    by_cases toClient : dir = srvToCli
    · have otherSide : ¬ cliToSrv = side dir := by
        rw [side, if_pos toClient]
        decide
      have same : (s.popIn dir rest).c2s = s.c2s := by
        rw [popIn, RfSession.setPipe, if_pos toClient]
      rw [if_neg fun both => otherSide both.2]
      exact same ▸ forwarding.relays.with_sndq (same ▸ firstSame)
    · have ownSide : cliToSrv = side dir := by
        rw [side, if_neg toClient]
      have own : s.pipe dir = s.c2s := by
        rw [RfSession.pipe, if_neg toClient]
      have same : (s.popIn dir rest).c2s = { s.c2s with rcvq := { s.c2s.rcvq with pq := rest } } := by
        rw [popIn, RfSession.setPipe, if_neg toClient, own]
      have unsent : (s.popIn dir rest).c2s.sndq = s.c2s.sndq := by rw [same]
      have pending : first.pending = s.c2s.sndq.pending := firstSame.trans (congrArg Sendq.pending unsent)
      rw [own] at queue
      by_cases dropped : handled.frame.pkt.drop = false
      · have pushed : (first.pushOut handled.frame.pkt).pending = s.c2s.sndq.pending ++ pkt.wire := by
          rw [middleCounted.pending_pushOut, pending, frame.wire_eq]
        have passed := forwarding.relays.pass queue (Or.inl pushed)
        rw [if_pos ⟨dropped, ownSide⟩]
        exact same ▸ passed
      · have left := frame.dropped (Bool.eq_true_of_not_eq_false dropped)
        have passed := forwarding.relays.pass queue (Or.inr ⟨pending, left⟩)
        rw [if_neg fun both => dropped both.1]
        exact same ▸ passed
  · rw [afterFlt, disposed.1, beforeFlt]
    exact chain'

/-- A callback leaves such a session, or deletes one. -/
theorem step {chains : RfxFilterChain σ -> Prop} (forwards : RfxFilterChain.Forwards leave chains)
    (forwarding : s.Forwarding leave) (chain : chains s.flt) {callback : Callback}
    (taken : s.step callback = some next) (live : next.deleted = false) : next.Forwarding leave := by
  have kept := step_rule (fun s => s.Forwarding leave ∧ chains s.flt)
    (fun s dir results next now read => ⟨now.1.handleRead read, by
      rcases handleRead_spec read with ⟨answer, _, same⟩
      rw [same]
      exact (setPipe_rest s dir answer.2).2.1.symm ▸ now.2⟩)
    (fun _ _ _ _ _ _ now queue filtered => now.1.filterPkt forwards now.2 queue filtered)
    (fun _ now => ⟨now.1.startTimers, now.2⟩)
    (fun s dir results next now written => ⟨now.1.handleWrite written, by
      rcases handleWrite_spec written with ⟨st, value, _, same⟩
      rw [same]
      exact (setPipe_rest s dir _).2.1.symm ▸ now.2⟩)
    (fun s index writes next now fired => ⟨now.1.timeoutCb fired, by
      rcases timeoutCb_spec fired with ⟨dp, emitted, _, _, emitEq, same⟩
      rcases emit_spec emitEq with ⟨st, value, _, emittedEq⟩
      rw [same, emittedEq]
      exact (setPipe_rest (s.removeDelayed index) dp.pkt.dir _).2.1.symm ▸ now.2⟩)
    ⟨forwarding, chain⟩ taken
  rcases kept with ⟨later, _⟩ | ⟨last, _, rfl⟩
  · exact later
  · cases live

end Forwarding
end RfSession

/-- The record of a pipe that relays its stream faithfully up to frames that may be left out:
what was written is the start of the other frames, in order, and all of them whenever the output
was shut down in good order, which is after the end of the stream. -/
def ProxyPipe.DeliversBut (leave : List Byte -> Prop) (p : ProxyPipe) : Prop :=
  forall frames rest, wireFormat.Splits p.received frames rest ->
    (Exists fun kept => Omits leave frames kept ∧ p.written <+: kept.flatten) ∧
      forall snap, snap ∈ p.shutdowns -> snap.broken = false ->
        snap.eof = true ∧ Exists fun complete => Exists fun partly => Exists fun kept =>
          wireFormat.Splits snap.received complete partly ∧ Omits leave complete kept ∧
            snap.written = kept.flatten

theorem ProxyPipe.RelaysBut.delivers {leave : List Byte -> Prop} {p : ProxyPipe}
    (relays : p.RelaysBut leave) : p.DeliversBut leave := by
  intro frames rest split
  constructor
  · rcases relays.sifts frames rest split with ⟨done, kept, hands, omits, bytes⟩
    refine ⟨kept ++ p.rcvq.pq.map RfPacket.data, hands.split ▸ omits.append (.refl leave _), ?_⟩
    rw [List.flatten_append, ← bytes, List.append_assoc]
    exact List.prefix_append _ _
  · intro snap member unbroken
    have complete := relays.closed snap member unbroken
    rcases complete.earlier with ⟨later, same⟩
    rw [← same] at split
    rcases split.cut with ⟨before, middle, _, front, _⟩
    rcases complete.written before middle front with ⟨kept, omits, bytes⟩
    exact ⟨complete.eof, before, middle, kept, front, omits, bytes⟩

end Rfx
