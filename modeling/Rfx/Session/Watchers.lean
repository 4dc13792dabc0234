import Rfx.Session.Callbacks

namespace Rfx

open Library

/-!
# Watchers

Which watchers are active between two callbacks.  Some facts hold all the time:
the queues are well formed, the input is watched until its end, and timers that
do not run yet are announced by `has_new`.  The others are broken while a
callback moves packets and restored before it ends: the receive queue is
emptied by `filter`, the timers are started after it, and the output is watched
according to the value of `send`.
-/

/-- What holds of a pipe all the time. -/
structure ProxyPipe.Sound (dir : Dir) (p : ProxyPipe) : Prop where
  counted : p.sndq.Counted
  dir_eq : p.sndq.dir = dir
  in_active : p.eof = false -> p.inActive = true

/-- What holds of a pipe between two callbacks. -/
structure ProxyPipe.Settled (p : ProxyPipe) : Prop where
  filtered : p.rcvq.pq = []
  watched : p.broken = false -> p.sndq.pq ≠ [] -> p.outActive = true

namespace ProxyPipe

variable {p : ProxyPipe} {dir : Dir} {pool : Pool} {q : Sendq} {out : List Byte} {st : SendState}
  {results : List WritevResult} {value : Int}

/-- `send`, from whatever queue, and what follows it in `handle_write_event`. -/
theorem Sound.afterSend (sound : p.Sound dir) (counted : q.Counted) (dir_eq : q.dir = dir)
    (sent : SendState.send ⟨pool, q, out⟩ results = some (st, value)) :
    (({ p with sndq := st.q, written := st.out } : ProxyPipe).afterSend value).Sound dir := by
  have kept := SendState.send_rule
    (fun st => st.q.Counted ∧ st.q.dir = dir)
    (fun st now => ⟨SendState.counted_enter now.1, (SendState.dir_enter st).trans now.2⟩)
    (fun st _ next _ now taken => ⟨SendState.counted_body now.1 taken,
      (SendState.dir_body now.1.bounds taken).trans now.2⟩)
    ⟨counted, dir_eq⟩ sent
  rw [afterSend_eq]
  exact ⟨kept.1, kept.2, sound.in_active⟩

/-- Output is watched according to the value of `send`. -/
theorem settled_afterSend (filtered : p.rcvq.pq = []) (counted : q.Counted)
    (sent : SendState.send ⟨pool, q, out⟩ results = some (st, value)) :
    (({ p with sndq := st.q, written := st.out } : ProxyPipe).afterSend value).Settled := by
  rw [afterSend_eq]
  refine ⟨filtered, ?_⟩
  intro unbroken left
  cases SendState.send_outcome counted sent with
  | drained _ _ empty => exact absurd empty left
  | blocked _ positive _ => exact decide_eq_true positive
  | broken => simp at unbroken

end ProxyPipe

namespace RfSession

variable {σ : Type} {s next : RfSession σ}

/-- What holds of a session all the time. -/
structure Sound (s : RfSession σ) : Prop where
  each : EachPipe ProxyPipe.Sound s
  started : s.dq.hasNew = false -> forall dp, dp ∈ s.dq.qh -> dp.active = true

namespace Sound

theorem start (pool : Pool) (flt : RfxFilterChain σ) : (RfSession.start pool flt).Sound where
  each := ⟨⟨.new _, rfl, fun _ => rfl⟩, ⟨.new _, rfl, fun _ => rfl⟩⟩
  started := fun _ _ member => absurd member List.not_mem_nil

theorem formed (sound : s.Sound) : s.Formed where
  toCli := sound.each.s2c.counted.bounds
  toSrv := sound.each.c2s.counted.bounds
  toCli_dir := sound.each.s2c.dir_eq
  toSrv_dir := sound.each.c2s.dir_eq

theorem setPipe (sound : s.Sound) (dir : Dir) {p : ProxyPipe} (new : p.Sound (side dir)) :
    (s.setPipe dir p).Sound where
  each := sound.each.setPipe dir new
  started := by
    rw [(setPipe_rest s dir p).2.2.1]
    exact sound.started

/-- The reference counts and the chain do not matter. -/
theorem with_pool_flt (sound : s.Sound) (pool : Pool) (flt : RfxFilterChain σ) :
    ({ s with pool := pool, flt := flt } : RfSession σ).Sound :=
  ⟨⟨sound.each.c2s, sound.each.s2c⟩, sound.started⟩

theorem handleRead (sound : s.Sound) {dir : Dir} {results : List ReadvResult}
    (read : s.handleRead dir results = some next) : next.Sound := by
  rcases handleRead_spec read with ⟨answer, answerEq, same⟩
  rcases ProxyPipe.handleReadEvent_spec answerEq with ⟨more, reads, _⟩
  have old := sound.each.pipe dir
  have sndq := reads.sndq_eq
  have new : answer.2.Sound (side dir) := by
    refine ⟨sndq ▸ old.counted, sndq ▸ old.dir_eq, ?_⟩
    intro open_
    rw [reads.eof_eq, Bool.or_eq_false_iff] at open_
    rw [reads.inActive_eq, old.in_active open_.1]
    cases more with
    | true => rfl
    | false => cases open_.2
  rw [same]
  exact (sound.setPipe dir new).with_pool_flt _ _

theorem popIn (sound : s.Sound) (dir : Dir) (rest : List RfPacket) : (s.popIn dir rest).Sound := by
  have old := sound.each.pipe dir
  exact sound.setPipe dir ⟨old.counted, old.dir_eq, old.in_active⟩

theorem pushOut (sound : s.Sound) (dir : Dir) (pkt : RfPacket) :
    (s.setPipe dir ((s.pipe dir).pushOut pkt)).Sound := by
  have old := sound.each.pipe dir
  exact sound.setPipe dir ⟨old.counted.pushOut pkt, old.dir_eq, old.in_active⟩

theorem dispose (sound : s.Sound) (dir : Dir) (pkt : RfPacket) : (s.dispose dir pkt).Sound := by
  unfold RfSession.dispose
  split
  · exact sound.with_pool_flt _ _
  · exact sound.pushOut dir pkt

theorem injected {pqh : List RfPacket} (sound : s.Sound) (injected : s.Injected pqh next) :
    next.Sound := by
  cases injected with
  | intro toCli toSrv released delayed routes injects =>
      rw [injects.rest]
      refine ⟨⟨?_, ?_⟩, ?_⟩
      · have old := sound.each.c2s
        exact ⟨old.counted.appends injects.toSrv, injects.toSrv.dir_eq.trans old.dir_eq,
          old.in_active⟩
      · have old := sound.each.s2c
        exact ⟨old.counted.appends injects.toCli, injects.toCli.dir_eq.trans old.dir_eq,
          old.in_active⟩
      · intro noNew dp member
        simp only [DelayedQueue.append, Bool.or_eq_false_iff] at noNew member
        have none : delayed = [] := by
          cases delayed with
          | nil => rfl
          | cons pkt rest => cases noNew.2
        rw [none, List.map_nil, List.append_nil] at member
        exact sound.started noNew.1 dp member

theorem filterPkt (sound : s.Sound) {dir : Dir} {fuel : Nat} {pkt : RfPacket}
    (filtered : s.filterPkt dir fuel pkt = some next) : next.Sound := by
  rcases filterPkt_spec filtered with ⟨_, handled, _, _, same⟩
  have chained := sound.with_pool_flt handled.pool handled.flt
  rcases route_spec chained.formed dir handled.frame with ⟨middle, before, after⟩
  rw [← same] at after
  exact ((chained.injected before).dispose dir handled.frame.pkt).injected after

theorem startTimers (sound : s.Sound) : ({ s with dq := s.dq.start } : RfSession σ).Sound where
  each := ⟨sound.each.c2s, sound.each.s2c⟩
  started := by
    intro _ dp member
    simp only [DelayedQueue.start] at member
    split at member
    · rcases List.mem_map.mp member with ⟨_, _, same⟩
      rw [← same]
    · rename_i none
      exact sound.started (Bool.eq_false_iff.mpr none) dp member

theorem handleWrite (sound : s.Sound) {dir : Dir} {results : List WritevResult}
    (written : s.handleWrite dir results = some next) : next.Sound := by
  rcases handleWrite_spec written with ⟨st, value, sendEq, same⟩
  have old := sound.each.pipe dir
  rw [same]
  exact (sound.setPipe dir (old.afterSend old.counted old.dir_eq sendEq)).with_pool_flt _ _

theorem removeDelayed (sound : s.Sound) (index : Nat) : (s.removeDelayed index).Sound :=
  ⟨⟨sound.each.c2s, sound.each.s2c⟩, fun noNew dp member =>
    sound.started noNew dp (List.mem_of_mem_eraseIdx member)⟩

theorem timeoutCb (sound : s.Sound) {index : Nat} {writes : List WritevResult}
    (taken : s.timeoutCb index writes = some next) : next.Sound := by
  rcases timeoutCb_spec taken with ⟨dp, emitted, _, _, emitEq, same⟩
  rcases emit_spec emitEq with ⟨st, value, sendEq, emittedEq⟩
  have removed := sound.removeDelayed index
  have old := removed.each.pipe dp.pkt.dir
  have new := old.afterSend (old.counted.pushOut dp.pkt) old.dir_eq sendEq
  rw [same, emittedEq]
  exact (removed.setPipe dp.pkt.dir new).with_pool_flt _ _

/-- A write settles its pipe, provided that the receive queue is empty. -/
theorem settles (sound : s.Sound) {dir : Dir} {results : List WritevResult}
    (written : s.handleWrite dir results = some next) (filtered : (s.pipe dir).rcvq.pq = []) :
    Exists fun p : ProxyPipe => p.Settled ∧ Exists fun pool =>
      next = { s.setPipe dir p with pool := pool } := by
  rcases handleWrite_spec written with ⟨st, value, sendEq, same⟩
  exact ⟨_, ProxyPipe.settled_afterSend filtered (sound.each.pipe dir).counted sendEq, _, same⟩

end Sound

/-- What holds of a session between two callbacks. -/
structure Settled (s : RfSession σ) : Prop where
  sound : s.Sound
  each : EachPipe (fun _ => ProxyPipe.Settled) s
  timed : forall dp, dp ∈ s.dq.qh -> dp.active = true

namespace Settled

theorem start (pool : Pool) (flt : RfxFilterChain σ) : (RfSession.start pool flt).Settled where
  sound := .start pool flt
  each := ⟨⟨rfl, fun _ left => absurd rfl left⟩, ⟨rfl, fun _ left => absurd rfl left⟩⟩
  timed := fun _ member => absurd member List.not_mem_nil

theorem handleWrite (settled : s.Settled) {dir : Dir} {results : List WritevResult}
    (written : s.handleWrite dir results = some next) : next.Settled := by
  have filtered := (settled.each.pipe dir).filtered
  rcases settled.sound.settles written filtered with ⟨p, new, pool, same⟩
  refine ⟨settled.sound.handleWrite written, ?_, ?_⟩
  · have each := settled.each.setPipe dir new
    rw [same]
    exact ⟨each.c2s, each.s2c⟩
  · have timed := settled.timed
    rw [← (setPipe_rest s dir p).2.2.1] at timed
    rw [same]
    exact timed

/-- The branch for reading empties the receive queue that it fills, starts the
timers, and writes to both pipes. -/
theorem readBranch (settled : s.Settled) {own other : Dir} (opposite : Opposite own other)
    {event : ReadEvent} (taken : s.readBranch own other event = some next) : next.Settled := by
  rcases readBranch_spec taken with
    ⟨received, filtered, written, readEq, filterEq, ownEq, otherEq⟩
  have otherFiltered : (received.pipe other).rcvq.pq = [] := by
    rcases handleRead_spec readEq with ⟨answer, _, same⟩
    have unchanged : received.pipe other = s.pipe other := by
      rw [same]
      exact opposite.pipe_setPipe s answer.2
    rw [unchanged]
    exact (settled.each.pipe other).filtered
  have kept := filter_rule
    (fun s => s.Sound ∧ (s.pipe other).rcvq.pq = [])
    (fun s _ rest _ now _ filtered =>
      ⟨(now.1.popIn own rest).filterPkt filtered, by
        rw [rcvq_filterPkt filtered, popIn, opposite.pipe_setPipe]
        exact now.2⟩)
    ⟨settled.sound.handleRead readEq, otherFiltered⟩ filterEq
  rcases kept with ⟨⟨filteredSound, otherEmpty⟩, ownEmpty⟩
  have timed : forall dp, dp ∈ filtered.dq.start.qh -> dp.active = true := by
    intro dp member
    have started := filteredSound.startTimers
    apply started.started ?_ dp member
    simp only [DelayedQueue.start]
    split
    · rfl
    · rename_i none
      exact Bool.eq_false_iff.mpr none
  have startedSound := filteredSound.startTimers
  rcases startedSound.settles ownEq ownEmpty with ⟨ownPipe, ownSettled, ownPool, writtenEq⟩
  have ownPipeEq : written.pipe own = ownPipe := by
    rw [writtenEq]
    exact pipe_setPipe _ own ownPipe
  have otherPipeEq : written.pipe other = filtered.pipe other := by
    rw [writtenEq]
    exact opposite.pipe_setPipe _ ownPipe
  have writtenSound := startedSound.handleWrite ownEq
  rcases writtenSound.settles otherEq (otherPipeEq ▸ otherEmpty) with
    ⟨otherPipe, otherSettled, otherPool, nextEq⟩
  refine ⟨writtenSound.handleWrite otherEq, ?_, ?_⟩
  · refine opposite.both ?_ ?_
    · have unchanged : next.pipe own = ownPipe := by
        rw [nextEq]
        exact (opposite.symm.pipe_setPipe written otherPipe).trans ownPipeEq
      exact unchanged ▸ ownSettled
    · have unchanged : next.pipe other = otherPipe := by
        rw [nextEq]
        exact pipe_setPipe written other otherPipe
      exact unchanged ▸ otherSettled
  · have unchanged : next.dq = filtered.dq.start := by
      rw [nextEq]
      refine (setPipe_rest written other otherPipe).2.2.1.trans ?_
      rw [writtenEq]
      exact (setPipe_rest _ own ownPipe).2.2.1
    rw [unchanged]
    exact timed

theorem timeoutCb (settled : s.Settled) {index : Nat} {writes : List WritevResult}
    (taken : s.timeoutCb index writes = some next) : next.Settled := by
  rcases timeoutCb_spec taken with ⟨dp, emitted, _, _, emitEq, same⟩
  rcases emit_spec emitEq with ⟨st, value, sendEq, emittedEq⟩
  have removed := settled.sound.removeDelayed index
  have new := ProxyPipe.settled_afterSend (settled.each.pipe dp.pkt.dir).filtered
    ((removed.each.pipe dp.pkt.dir).counted.pushOut dp.pkt) sendEq
  have each : EachPipe (fun _ => ProxyPipe.Settled) (s.removeDelayed index) :=
    ⟨settled.each.c2s, settled.each.s2c⟩
  refine ⟨settled.sound.timeoutCb taken, ?_, ?_⟩
  · have written := each.setPipe dp.pkt.dir new
    rw [same, emittedEq]
    exact ⟨written.c2s, written.s2c⟩
  · have unchanged : next.dq.qh = s.dq.qh.eraseIdx index := by
      rw [same, emittedEq]
      exact congrArg DelayedQueue.qh (setPipe_rest (s.removeDelayed index) dp.pkt.dir _).2.2.1
    intro other member
    rw [unchanged] at member
    exact settled.timed other (List.mem_of_mem_eraseIdx member)

theorem step (settled : s.Settled) {callback : Callback} (taken : s.step callback = some next) :
    next.Settled ∨ next.deleted = true := by
  have io (own other : Dir) (opposite : Opposite own other) (readEvent : Option ReadEvent)
      (results : Option (List WritevResult))
      (called : s.ioCb own other readEvent results = some next) :
      next.Settled ∨ next.deleted = true := by
    rcases ioCb_spec called with ⟨middle, last, middleEq, lastEq, same⟩
    have afterRead : middle.Settled := by
      cases readEvent with
      | none =>
          cases middleEq
          exact settled
      | some event => exact settled.readBranch opposite middleEq
    have afterWrite : last.Settled := by
      cases results with
      | none =>
          cases lastEq
          exact afterRead
      | some results => exact afterRead.handleWrite lastEq
    rw [reclaim] at same
    split at same
    · exact Or.inr (same ▸ rfl)
    · exact Or.inl (same ▸ afterWrite)
  cases (step_spec taken).2 with
  | cli called => exact io _ _ (Or.inl ⟨rfl, rfl⟩) _ _ called
  | srv called => exact io _ _ (Or.inr ⟨rfl, rfl⟩) _ _ called
  | timeout called => exact Or.inl (settled.timeoutCb called)

/-- Every session that exists is settled between two callbacks. -/
theorem of_reachable {pool : Pool} {flt : RfxFilterChain σ} (reached : Reachable pool flt s)
    (live : s.deleted = false) : s.Settled := by
  rcases reached with ⟨callbacks, reached⟩
  have invariant := Run.run_invariant
    (fun s : RfSession σ => s.Settled ∨ s.deleted = true)
    (fun before callback after now taken => by
      rcases now with settled | deleted
      · exact settled.step taken
      · have exists_ := (step_spec taken).1
        rw [deleted] at exists_
        cases exists_)
    (Or.inl (.start pool flt)) reached
  rcases invariant with settled | deleted
  · exact settled
  · rw [live] at deleted
    cases deleted

end Settled

end RfSession

/-- No data is stalled.  Between two callbacks of a live session, whatever its
filters do and the kernel answers, and for both pipes: all packets received
have been filtered; input is watched until its end; output is watched while
there is something left to write; an empty list means an empty window; and the
timer of every delayed packet is running. -/
theorem no_stalled_data {σ : Type} (pool : Pool) (flt : RfxFilterChain σ) (s : RfSession σ)
    (reached : RfSession.Reachable pool flt s) (live : s.deleted = false) :
    (forall p, p = s.c2s ∨ p = s.s2c ->
      p.rcvq.pq = [] ∧ (p.eof = false -> p.inActive = true) ∧
        (p.broken = false -> p.sndq.pq ≠ [] -> p.outActive = true) ∧
        (p.sndq.pq = [] -> p.sndq.svc = 0)) ∧
      forall dp, dp ∈ s.dq.qh -> dp.active = true := by
  have settled := RfSession.Settled.of_reachable reached live
  have pipe {dir : Dir} {p : ProxyPipe} (sound : p.Sound dir) (still : p.Settled) :
      p.rcvq.pq = [] ∧ (p.eof = false -> p.inActive = true) ∧
        (p.broken = false -> p.sndq.pq ≠ [] -> p.outActive = true) ∧
        (p.sndq.pq = [] -> p.sndq.svc = 0) :=
    ⟨still.filtered, sound.in_active, still.watched, sound.counted.svc_eq_zero⟩
  refine ⟨?_, settled.timed⟩
  intro p which
  rcases which with same | same
  · subst same
    exact pipe settled.sound.each.c2s settled.each.c2s
  · subst same
    exact pipe settled.sound.each.s2c settled.each.s2c

/-- A frame is read from the client and only two of its bytes can be written. -/
theorem no_stalled_data_partly_written :
    Exists fun s : RfSession Unit => RfSession.Reachable RefCount.Heap.empty [] s ∧
      s.c2s.sndq.pq.length = 1 ∧ s.c2s.outActive = true := by
  let callbacks : List Callback := [.cli (some
    { reads := [.received [5, 0, 1, 0, 9], .failed .eagain]
      fuel := 0
      own := [.accepted 2, .failed .eagain]
      other := [] }) none]
  have reached : RfSession.Reachable RefCount.Heap.empty ([] : RfxFilterChain Unit) _ :=
    ⟨callbacks, rfl⟩
  have watched := (no_stalled_data RefCount.Heap.empty [] _ reached rfl).1 _ (Or.inl rfl)
  exact ⟨_, reached, rfl, watched.2.2.1 rfl (by decide)⟩

end Rfx
