import Rfx.RecvQueue.Framing
import Rfx.Session.Watchers

namespace Rfx

open Library

/-!
# A session whose filters do nothing to its packets

The layers put together.  What a pipe has read splits into complete frames and
a pending rest.  The rest is pending in the receive queue; the frames are the
bytes written, followed by the bytes pending in the send queue, followed by the
packets that wait for the filter.  Reading extends the right side and the frames
alike, the filter moves one packet from the last part to the middle one, and
`send` moves bytes from the middle part to the first.
-/

/-- Nothing is added to `pre` or `post`, and neither `drop` nor `delay` is set. -/
def FltAct.AddsNothing : FltAct -> Prop
  | .push _ _ => False
  | .event _ _ _ _ => True
  | .store _ (.drop value) => value = false
  | .store _ (.delay _) => False
  | .store _ _ => True

/-- The bytes that stand for a packet on the wire are not rewritten. -/
def FltAct.KeepsWire : FltAct -> Prop
  | .store _ (.len _) => False
  | .store _ (.byte _ _) => False
  | _ => True

/-- A frame that the filters did nothing to. -/
structure FilterFrame.Untouched (pkt : RfPacket) (frame : FilterFrame) : Prop where
  pre_eq : frame.pre = []
  post_eq : frame.post = []
  drop_eq : pkt.drop = false -> frame.pkt.drop = false
  wire_eq : frame.pkt.wire = pkt.wire

namespace FilterFrame.Untouched

variable {pkt : RfPacket} {frame : FilterFrame}

theorem start (pkt : RfPacket) : (FilterFrame.start pkt).Untouched pkt :=
  ⟨rfl, rfl, fun wanted => wanted, rfl⟩

/-- A store that is allowed leaves the packet wanted and its wire bytes alone. -/
theorem edit {edit : PktEdit} {ptr : Nat} (quiet : (FltAct.store ptr edit).AddsNothing)
    (keeps : (FltAct.store ptr edit).KeepsWire) (pkt : RfPacket) :
    (pkt.drop = false -> (edit.apply pkt).drop = false) ∧ (edit.apply pkt).wire = pkt.wire := by
  cases edit with
  | drop value => exact ⟨fun _ => quiet, rfl⟩
  | delay value => exact False.elim quiet
  | len value => exact False.elim keeps
  | byte index value => exact False.elim keeps
  | _ => exact ⟨fun wanted => wanted, rfl⟩

theorem act {pool : Pool} {next : Pool × FilterFrame} {act : FltAct}
    (untouched : frame.Untouched pkt) (quiet : act.AddsNothing) (keeps : act.KeepsWire)
    (applied : act.apply pool frame = some next) : next.2.Untouched pkt := by
  cases act with
  | push toPost filled => exact False.elim quiet
  | event what nick msg source =>
      cases source with
      | none =>
          cases applied
          exact ⟨untouched.pre_eq, untouched.post_eq, untouched.drop_eq, untouched.wire_eq⟩
      | some ptr =>
          simp only [FltAct.apply] at applied
          split at applied
          · cases applied
            exact ⟨untouched.pre_eq, untouched.post_eq, untouched.drop_eq, untouched.wire_eq⟩
          · cases applied
  | store ptr change =>
      cases applied
      have edited := edit quiet keeps frame.pkt
      refine ⟨?_, ?_, ?_, ?_⟩
      · simp only [FilterFrame.store, untouched.pre_eq, List.map_nil]
      · simp only [FilterFrame.store, untouched.post_eq, List.map_nil]
      · intro wanted
        simp only [FilterFrame.store]
        split
        · exact edited.1 (untouched.drop_eq wanted)
        · exact untouched.drop_eq wanted
      · simp only [FilterFrame.store]
        split
        · exact edited.2.trans untouched.wire_eq
        · exact untouched.wire_eq

/-- A chain that adds nothing and keeps the wire bytes does nothing to a packet. -/
theorem handled {σ : Type} {chain : RfxFilterChain σ} {pool : Pool} {fuel : Nat}
    {processed handled : ChainState σ}
    (quiet : chain.Acts fun act => act.AddsNothing ∧ act.KeepsWire)
    (processedEq : ChainState.processPkt ⟨chain, pool, .start pkt⟩ = some processed)
    (handledEq : processed.processEvents fuel = some handled) :
    handled.frame.Untouched pkt ∧ handled.flt.filters = chain.filters := by
  rcases chain_rule (fun act => act.AddsNothing ∧ act.KeepsWire)
    (fun _ frame => frame.Untouched pkt)
    (fun _ _ _ _ untouched quiet applied => untouched.act quiet.1 quiet.2 applied)
    (fun _ _ _ _ untouched _ _ => ⟨untouched.pre_eq, untouched.post_eq, untouched.drop_eq,
      untouched.wire_eq⟩)
    (fun _ _ _ untouched _ => ⟨untouched.pre_eq, untouched.post_eq, untouched.drop_eq,
      untouched.wire_eq⟩)
    quiet (start pkt) processedEq handledEq with ⟨untouched, _, _, filters⟩
  exact ⟨untouched, filters⟩

end FilterFrame.Untouched

/-! ## One pipe -/

/-- Where the bytes of the stream are that a pipe has read. -/
structure ProxyPipe.Carries (p : ProxyPipe) (frames : List (List Byte)) (rest : List Byte) :
    Prop where
  inv : p.rcvq.Inv
  pending_eq : p.rcvq.pending = rest
  wanted : forall pkt, pkt ∈ p.rcvq.pq -> pkt.drop = false
  bytes : p.written ++ p.sndq.pending ++ wireBytes p.rcvq.pq = frames.flatten

/-- The output was shut down after the end of the stream, with everything written. -/
structure Shutdown.Complete (snap : Shutdown) (received : List Byte) : Prop where
  eof : snap.eof = true
  earlier : snap.received <+: received
  written : forall frames rest, wireFormat.Splits snap.received frames rest ->
    snap.written = frames.flatten

/-- A pipe relays its stream, as far as the stream is legal. -/
structure ProxyPipe.Relays (p : ProxyPipe) : Prop where
  carries : forall frames rest, wireFormat.Splits p.received frames rest -> p.Carries frames rest
  closed : forall snap, snap ∈ p.shutdowns -> snap.broken = false -> snap.Complete p.received

theorem wireBytes_announced {dir : Dir} {pkts : List RfPacket}
    (announced : forall pkt, pkt ∈ pkts -> Announced dir pkt) :
    wireBytes pkts = (pkts.map RfPacket.data).flatten := by
  induction pkts with
  | nil => rfl
  | cons pkt pkts inductionHypothesis =>
      rw [wireBytes_cons, List.map_cons, List.flatten_cons,
        (announced pkt List.mem_cons_self).wire_eq,
        inductionHypothesis fun other member => announced other (List.mem_cons_of_mem _ member)]

namespace ProxyPipe.Relays

variable {p next : ProxyPipe}

theorem start (dir : Dir) : ((ProxyPipe.new dir).run).Relays where
  carries := by
    intro frames rest split
    rcases split.unique (Framing.Format.splits_nil wireFormat) with ⟨noFrames, noRest⟩
    rw [noFrames, noRest]
    exact ⟨Recvq.inv_new dir, rfl, fun _ member => absurd member List.not_mem_nil, rfl⟩
  closed := fun _ member => absurd member List.not_mem_nil

/-- Reading extends the stream, and whatever it completes waits for the filter. -/
theorem reads {pool pool' : Pool} {results : List ReadvResult} {more : Bool} (relays : p.Relays)
    (reads : p.Reads next results more)
    (received : RecvState.recv ⟨pool, p.rcvq⟩ results = some (⟨pool', next.rcvq⟩, more)) :
    next.Relays := by
  have sndq : next.sndq = p.sndq := reads.sndq_eq
  have written : next.written = p.written := by rw [reads.rest]
  have shutdowns : next.shutdowns = p.shutdowns := by rw [reads.rest]
  refine ⟨?_, ?_⟩
  · intro frames rest split
    rw [reads.received_eq] at split
    rcases split.cut with ⟨before, middle, after, front, back, joined⟩
    have carries := relays.carries before middle front
    rcases RecvState.run_spec (s := ⟨pool, p.rcvq⟩) carries.inv
      (RecvState.possible_of_recv received) (carries.pending_eq.symm ▸ back) with
      ⟨final, reached, progress⟩
    have same : final = ⟨pool', next.rcvq⟩ :=
      Option.some.inj (reached.symm.trans (RecvState.run_of_recv received))
    rw [same] at progress
    rcases progress.queued with ⟨pkts, queue, data, announced⟩
    have queue' : next.rcvq.pq = p.rcvq.pq ++ pkts := queue
    refine ⟨progress.inv, progress.pending_eq, ?_, ?_⟩
    · intro pkt member
      rw [queue'] at member
      rcases List.mem_append.mp member with old | new
      · exact carries.wanted pkt old
      · exact (announced pkt new).drop_eq
    · rw [written, sndq, queue', wireBytes_append, ← List.append_assoc, carries.bytes,
        wireBytes_announced announced, data, joined, List.flatten_append]
  · intro snap member unbroken
    rw [shutdowns] at member
    have complete := relays.closed snap member unbroken
    rw [reads.received_eq]
    exact ⟨complete.eof, complete.earlier.trans (List.prefix_append _ _), complete.written⟩

/-- Another send queue with the same pending bytes. -/
theorem with_sndq {q : Sendq} (relays : p.Relays) (same : q.pending = p.sndq.pending) :
    ({ p with sndq := q } : ProxyPipe).Relays where
  carries := by
    intro frames rest split
    have carries := relays.carries frames rest split
    exact ⟨carries.inv, carries.pending_eq, carries.wanted, same ▸ carries.bytes⟩
  closed := relays.closed

/-- One packet goes from the receive queue to the send queue. -/
theorem pass {pkt : RfPacket} {rest : List RfPacket} {q : Sendq} (relays : p.Relays)
    (queue : p.rcvq.pq = pkt :: rest)
    (same : pkt.drop = false -> q.pending = p.sndq.pending ++ pkt.wire) :
    ({ p with rcvq := { p.rcvq with pq := rest }, sndq := q } : ProxyPipe).Relays where
  carries := by
    intro frames pending split
    have carries := relays.carries frames pending split
    have wanted := carries.wanted
    have bytes := carries.bytes
    rw [queue] at wanted bytes
    refine ⟨⟨carries.inv.buf, carries.inv.header, carries.inv.body⟩, carries.pending_eq,
      fun other member => wanted other (List.mem_cons_of_mem _ member), ?_⟩
    rw [← bytes, same (wanted pkt List.mem_cons_self)]
    simp only [wireBytes_cons, List.append_assoc]
  closed := relays.closed

/-- Writing takes bytes from the send queue.  If `send` returns zero nothing is
left of it, which is when the output may be shut down. -/
theorem afterSend {pool : Pool} {st : SendState} {results : List WritevResult} {value : Int}
    (relays : p.Relays) (counted : p.sndq.Counted)
    (sent : SendState.send ⟨pool, p.sndq, p.written⟩ results = some (st, value)) :
    (({ p with sndq := st.q, written := st.out } : ProxyPipe).afterSend value).Relays := by
  have conserved : st.out ++ st.q.pending = p.written ++ p.sndq.pending :=
    SendState.send_conserves counted.bounds sent
  rw [afterSend_eq]
  refine ⟨?_, ?_⟩
  · intro frames rest split
    have carries := relays.carries frames rest split
    exact ⟨carries.inv, carries.pending_eq, carries.wanted, conserved ▸ carries.bytes⟩
  · intro snap member unbroken
    simp only at member
    split at member
    · rename_i closing
      rcases List.mem_append.mp member with old | new
      · exact relays.closed snap old unbroken
      · rw [List.mem_singleton.mp new] at unbroken ⊢
        refine ⟨closing.2.1, List.prefix_refl _, ?_⟩
        intro frames rest split
        have carries := relays.carries frames rest split
        have drained : st.q.pending = [] := by
          cases SendState.send_outcome counted sent with
          | drained _ _ empty => exact (SendState.counted_send counted sent).pending_eq_nil empty
          | blocked _ positive _ =>
              have notPositive := closing.1
              omega
          | broken => simp at unbroken
        have bytes := carries.bytes
        rw [← conserved, drained, closing.2.2, wireBytes_nil, List.append_nil,
          List.append_nil] at bytes
        exact bytes
    · exact relays.closed snap member unbroken

end ProxyPipe.Relays

/-! ## The session -/

/-- The same pipe, except that the pending bytes of its send queue may be
stored differently. -/
def ProxyPipe.SamePending (p next : ProxyPipe) : Prop :=
  Exists fun q : Sendq => q.pending = p.sndq.pending ∧ next = { p with sndq := q }

namespace RfSession

variable {σ : Type} {s next : RfSession σ}

/-- Injecting an empty list may move a window, and does nothing else. -/
theorem Injected.nil (injected : s.Injected [] next) :
    (forall dir, (s.pipe dir).SamePending (next.pipe dir)) ∧ next.flt = s.flt ∧
      next.dq.qh = s.dq.qh := by
  cases injected with
  | intro toCli toSrv released delayed routes injects =>
      have noneToCli : toCli = [] := List.sublist_nil.mp routes.toCli_sublist
      have noneToSrv : toSrv = [] := List.sublist_nil.mp routes.toSrv_sublist
      have noneDelayed : delayed = [] := List.sublist_nil.mp routes.delayed_sublist
      subst noneToCli noneToSrv noneDelayed
      have same {q next : Sendq} (appends : q.Appends next []) : next.pending = q.pending := by
        simp [Sendq.pending, appends.window_eq, appends.pq_eq, appends.svc_eq]
      refine ⟨?_, ?_, ?_⟩
      · intro dir
        rw [injects.rest]
        unfold pipe
        split
        · exact ⟨next.s2c.sndq, same injects.toCli, rfl⟩
        · exact ⟨next.c2s.sndq, same injects.toSrv, rfl⟩
      · rw [injects.rest]
      · rw [injects.rest]
        exact List.append_nil _

/-- A session whose filters do nothing, at any time. -/
structure Transparent (s : RfSession σ) : Prop where
  sound : s.Sound
  quiet : s.flt.Acts fun act => act.AddsNothing ∧ act.KeepsWire
  idle : s.dq.qh = []
  each : EachPipe (fun _ => ProxyPipe.Relays) s

namespace Transparent

theorem handleRead (transparent : s.Transparent) {dir : Dir} {results : List ReadvResult}
    (read : s.handleRead dir results = some next) : next.Transparent := by
  have sound := transparent.sound.handleRead read
  rcases handleRead_spec read with ⟨answer, answerEq, same⟩
  rcases ProxyPipe.handleReadEvent_spec answerEq with ⟨more, reads, recvEq⟩
  have each := transparent.each.setPipe dir ((transparent.each.pipe dir).reads reads recvEq)
  have rest := setPipe_rest s dir answer.2
  rw [same] at sound ⊢
  refine ⟨sound, ?_, ?_, ⟨each.c2s, each.s2c⟩⟩
  · rw [rest.2.1]
    exact transparent.quiet
  · rw [rest.2.2.1]
    exact transparent.idle

theorem handleWrite (transparent : s.Transparent) {dir : Dir} {results : List WritevResult}
    (written : s.handleWrite dir results = some next) : next.Transparent := by
  have sound := transparent.sound.handleWrite written
  rcases handleWrite_spec written with ⟨st, value, sendEq, same⟩
  have relays := (transparent.each.pipe dir).afterSend
    (transparent.sound.each.pipe dir).counted sendEq
  have each := transparent.each.setPipe dir relays
  have rest := setPipe_rest s dir
    (({ s.pipe dir with sndq := st.q, written := st.out } : ProxyPipe).afterSend value)
  rw [same] at sound ⊢
  refine ⟨sound, ?_, ?_, ⟨each.c2s, each.s2c⟩⟩
  · rw [rest.2.1]
    exact transparent.quiet
  · rw [rest.2.2.1]
    exact transparent.idle

theorem startTimers (transparent : s.Transparent) :
    ({ s with dq := s.dq.start } : RfSession σ).Transparent where
  sound := transparent.sound.startTimers
  quiet := transparent.quiet
  idle := by
    simp only [DelayedQueue.start, transparent.idle, List.map_nil]
    split
    · rfl
    · exact transparent.idle
  each := ⟨transparent.each.c2s, transparent.each.s2c⟩

/-- The filter hands the packet over to the send queue as it is. -/
theorem filterPkt (transparent : s.Transparent) {dir : Dir} {fuel : Nat} {pkt : RfPacket}
    {rest : List RfPacket} (queue : (s.pipe dir).rcvq.pq = pkt :: rest)
    (filtered : (s.popIn dir rest).filterPkt dir fuel pkt = some next) : next.Transparent := by
  have popped := transparent.sound.popIn dir rest
  have sound := popped.filterPkt filtered
  have popRest := setPipe_rest s dir
    { s.pipe dir with rcvq := { (s.pipe dir).rcvq with pq := rest } }
  rcases filterPkt_spec filtered with ⟨processed, handled, processedEq, handledEq, same⟩
  rcases FilterFrame.Untouched.handled (popRest.2.1.symm ▸ transparent.quiet) processedEq
    handledEq with ⟨untouched, filters⟩
  have chained := popped.with_pool_flt handled.pool handled.flt
  rcases route_spec chained.formed dir handled.frame with ⟨middle, before, after⟩
  rw [← same] at after
  have middleSound := chained.injected before
  rw [untouched.pre_eq] at before
  rw [untouched.post_eq] at after
  rcases before.nil with ⟨beforePipe, beforeFlt, beforeQh⟩
  rcases after.nil with ⟨afterPipe, afterFlt, afterQh⟩
  have disposed := dispose_rest middle dir handled.frame.pkt
  refine ⟨sound, ?_, ?_, .of_pipe ?_⟩
  · intro f member
    rw [afterFlt, disposed.1, beforeFlt] at member
    have member' : some f ∈ (s.popIn dir rest).flt.filters := filters ▸ member
    exact transparent.quiet f (popRest.2.1 ▸ member')
  · rw [afterQh, disposed.2, beforeQh]
    exact (congrArg DelayedQueue.qh popRest.2.2.1).trans transparent.idle
  · intro other
    rcases beforePipe other with ⟨first, firstSame, middlePipe⟩
    rcases afterPipe other with ⟨last, lastSame, nextPipe⟩
    have chainedPipe : ({ s.popIn dir rest with pool := handled.pool, flt := handled.flt } :
      RfSession σ).pipe other = (s.popIn dir rest).pipe other := rfl
    rw [chainedPipe] at firstSame middlePipe
    rw [nextPipe]
    refine ProxyPipe.Relays.with_sndq ?_ lastSame
    have poppedPipe := pipe_setPipe_eq s dir other
      { s.pipe dir with rcvq := { (s.pipe dir).rcvq with pq := rest } }
    rw [pipe_dispose]
    by_cases own : side other = side dir
    · rw [if_pos own] at poppedPipe
      rw [popIn, poppedPipe] at firstSame middlePipe
      have counted : first.Counted := by
        have old := (middleSound.each.pipe other).counted
        rw [middlePipe] at old
        exact old
      by_cases dropped : handled.frame.pkt.drop = false
      · rw [if_pos ⟨dropped, own⟩, middlePipe]
        refine (transparent.each.pipe dir).pass queue fun _ => ?_
        rw [counted.pending_pushOut, firstSame, untouched.wire_eq]
      · rw [if_neg fun both => dropped both.1, middlePipe]
        exact (transparent.each.pipe dir).pass queue fun wanted =>
          absurd (untouched.drop_eq wanted) dropped
    · rw [if_neg own] at poppedPipe
      rw [popIn, poppedPipe] at firstSame middlePipe
      rw [if_neg fun both => own both.2, middlePipe]
      exact (transparent.each.pipe other).with_sndq firstSame

theorem step (transparent : s.Transparent) {callback : Callback}
    (taken : s.step callback = some next) :
    next.Transparent ∨ Exists fun last : RfSession σ => last.Transparent ∧ next = last.delete :=
  step_rule Transparent (fun _ _ _ _ now read => now.handleRead read)
    (fun _ _ _ _ _ _ now queue filtered => now.filterPkt queue filtered)
    (fun _ now => now.startTimers) (fun _ _ _ _ now written => now.handleWrite written)
    (fun s index writes _ now fired => by
      rcases timeoutCb_spec fired with ⟨dp, _, found, _⟩
      rw [now.idle] at found
      cases found)
    transparent taken

end Transparent

end RfSession

/-- The record of a pipe that relays its stream faithfully: complete frames of
the stream were written, in order, and the output was shut down in good order
only after the end of the stream and with every complete frame written. -/
def ProxyPipe.Delivers (p : ProxyPipe) : Prop :=
  forall frames rest, wireFormat.Splits p.received frames rest ->
    p.written <+: frames.flatten ∧ forall snap, snap ∈ p.shutdowns -> snap.broken = false ->
      snap.eof = true ∧ Exists fun complete => Exists fun partly =>
        wireFormat.Splits snap.received complete partly ∧ snap.written = complete.flatten

theorem ProxyPipe.Relays.delivers {p : ProxyPipe} (relays : p.Relays) : p.Delivers := by
  intro frames rest split
  have bytes := (relays.carries frames rest split).bytes
  rw [List.append_assoc] at bytes
  refine ⟨⟨_, bytes⟩, ?_⟩
  intro snap member unbroken
  have complete := relays.closed snap member unbroken
  rcases complete.earlier with ⟨later, same⟩
  rw [← same] at split
  rcases split.cut with ⟨before, middle, _, front, _⟩
  exact ⟨complete.eof, before, middle, front, complete.written before middle front⟩

/-- End-to-end transparency.  If no filter of the chain adds a packet, sets
`drop` or `delay`, or rewrites the bytes of a packet, then after every callback
of every run and for both pipes: if what was read is a legal stream, the bytes
written are a prefix of its complete frames, and whenever the output was shut
down without the pipe being broken, the stream had ended and all complete
frames had been written.  Bytes written only grow, and each callback reads
before it writes, so this holds between the callbacks and inside them. -/
theorem end_to_end_transparency {σ : Type} (pool : Pool) (flt : RfxFilterChain σ)
    (quiet : flt.Acts fun act => act.AddsNothing ∧ act.KeepsWire) (s : RfSession σ)
    (reached : RfSession.Reachable pool flt s) :
    s.c2s.Delivers ∧ s.s2c.Delivers := by
  rcases reached with ⟨callbacks, reached⟩
  have start : (RfSession.start pool flt).Transparent :=
    ⟨.start pool flt, quiet, rfl, ⟨.start _, .start _⟩⟩
  have invariant := Run.run_invariant
    (fun s : RfSession σ =>
      s.Transparent ∨ Exists fun last : RfSession σ => last.Transparent ∧ s = last.delete)
    (fun before callback after now taken => by
      rcases now with live | ⟨last, _, same⟩
      · exact live.step taken
      · have exists_ := (RfSession.step_spec taken).1
        rw [same] at exists_
        cases exists_)
    (Or.inl start) reached
  rcases invariant with live | ⟨last, transparent, same⟩
  · exact ⟨live.each.c2s.delivers, live.each.s2c.delivers⟩
  · rw [same]
    exact ⟨transparent.each.c2s.delivers, transparent.each.s2c.delivers⟩

/-- A filter that does what is allowed: it marks every packet to be shown. -/
def showEverything : RfxFilter Unit where
  processPkt := fun _ frame => some ⟨[.store frame.pkt.ptr (.shown true)], (), .decline⟩
  processEvent := fun _ _ _ => some ⟨[], (), .decline⟩

/-- The server sends one frame and closes; the frame is written in two parts. -/
theorem end_to_end_transparency_one_frame :
    Exists fun s : RfSession Unit =>
      RfSession.Reachable RefCount.Heap.empty [⟨some showEverything, ()⟩] s ∧
        s.s2c.written = [5, 0, 1, 0, 9] ∧ s.s2c.shutdowns.length = 1 ∧ s.s2c.Delivers := by
  have quiet : RfxFilterChain.Acts (fun act => act.AddsNothing ∧ act.KeepsWire)
      [⟨some showEverything, ()⟩] := by
    intro f member
    cases List.mem_singleton.mp member
    refine ⟨fun _ frame called calledEq act acts => ?_, fun _ _ _ called calledEq act acts => ?_⟩
    · cases calledEq
      rw [List.mem_singleton.mp acts]
      exact ⟨trivial, trivial⟩
    · cases calledEq
      cases acts
  let callbacks : List Callback :=
    [.srv (some
        { reads := [.received [5, 0, 1, 0, 9], .eof]
          fuel := 0
          own := [.accepted 2, .failed .eagain]
          other := [] }) none,
      .srv none (some [.accepted 3])]
  have reached : RfSession.Reachable RefCount.Heap.empty [⟨some showEverything, ()⟩] _ :=
    ⟨callbacks, rfl⟩
  have delivers := end_to_end_transparency RefCount.Heap.empty [⟨some showEverything, ()⟩] quiet _
    reached
  exact ⟨_, reached, rfl, rfl, delivers.2⟩

/-- A filter that rewrites the first byte of the body of every packet. -/
def scramble : RfxFilter Unit where
  processPkt := fun _ frame => some ⟨[.store frame.pkt.ptr (.byte 4 0xff)], (), .decline⟩
  processEvent := fun _ _ _ => some ⟨[], (), .decline⟩

/-- It adds nothing and sets neither `drop` nor `delay`, and the bytes written
are not those of the frame that was read. -/
theorem rewritten_frame_is_not_transparent :
    RfxFilterChain.Acts FltAct.AddsNothing [⟨some scramble, ()⟩] ∧
      Exists fun s : RfSession Unit =>
        RfSession.Reachable RefCount.Heap.empty [⟨some scramble, ()⟩] s ∧
          wireFormat.Splits s.s2c.received [[5, 0, 1, 0, 9]] [] ∧
          ¬ s.s2c.written <+: [[5, 0, 1, 0, 9]].flatten := by
  refine ⟨?_, ?_⟩
  · intro f member
    cases List.mem_singleton.mp member
    refine ⟨fun _ frame called calledEq act acts => ?_, fun _ _ _ called calledEq act acts => ?_⟩
    · cases calledEq
      rw [List.mem_singleton.mp acts]
      exact trivial
    · cases calledEq
      cases acts
  · let callbacks : List Callback :=
      [.srv (some
        { reads := [.received [5, 0, 1, 0, 9], .failed .eagain]
          fuel := 0
          own := [.accepted 5]
          other := [] }) none]
    refine ⟨_, ⟨callbacks, rfl⟩, ⟨rfl, ?_, Or.inl (by decide)⟩, by decide⟩
    intro frame member
    rw [List.mem_singleton.mp member]
    exact ⟨by decide, by decide⟩

end Rfx
