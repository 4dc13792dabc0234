import Rfx.Session.Watchers

namespace Rfx

open Library

/-!
# The end of a session

Both I/O callbacks delete the session as soon as nothing is left to do.  The
callback of a timer writes to a pipe too, but does not look whether the session
is done.  When the emission of a delayed packet drains or breaks the last pipe
that was not done, the session stays alive with no watcher left to delete it.
-/

namespace RfSession

variable {σ : Type} {s next : RfSession σ}

/-- The session has been stopped and deleted. -/
structure Reclaimed (s : RfSession σ) : Prop where
  deleted : s.deleted = true
  c2s_stopped : s.c2s.inActive = false ∧ s.c2s.outActive = false
  s2c_stopped : s.s2c.inActive = false ∧ s.s2c.outActive = false
  dq_empty : s.dq.qh = []

theorem reclaimed_delete (s : RfSession σ) : s.delete.Reclaimed :=
  ⟨rfl, ⟨rfl, rfl⟩, ⟨rfl, rfl⟩, rfl⟩

/-- The pipe that does not serve `dir`. -/
def otherPipe (s : RfSession σ) (dir : Dir) : ProxyPipe :=
  if dir = srvToCli then s.c2s else s.s2c

theorem done_eq (s : RfSession σ) (dir : Dir) :
    s.done = ((s.pipe dir).done && (s.otherPipe dir).done) := by
  unfold done pipe otherPipe
  split
  · exact Bool.and_comm _ _
  · rfl

theorem otherPipe_setPipe (s : RfSession σ) (dir : Dir) (p : ProxyPipe) :
    (s.setPipe dir p).otherPipe dir = s.otherPipe dir := by
  unfold setPipe otherPipe
  split <;> rfl

/-- The timer at `index` emits the last packet of the session: the other pipe
is done, and the writes end in a fatal error, or in nothing while there is
nothing left to read either. -/
def Finishes (s : RfSession σ) (index : Nat) (writes : List WritevResult) : Prop :=
  Exists fun dp => s.dq.qh[index]? = some dp ∧ (s.otherPipe dp.pkt.dir).done = true ∧
    (EndsIn .other writes ∨ (s.pipe dp.pkt.dir).eof = true ∧ ¬ EndsIn .eagain writes)

/-- No callback but a finishing timer is excluded. -/
def LeavesToDo (s : RfSession σ) : Callback -> Prop
  | .timeout index writes => ¬ s.Finishes index writes
  | _ => True

/-- When the pipe that a packet was emitted to is done. -/
theorem done_afterSend {p : ProxyPipe} {pool : Pool} {q : Sendq} {out : List Byte} {st : SendState}
    {writes : List WritevResult} {value : Int} (unbroken : p.broken = false)
    (filtered : p.rcvq.pq = []) (counted : q.Counted)
    (sent : SendState.send ⟨pool, q, out⟩ writes = some (st, value)) :
    (({ p with sndq := st.q, written := st.out } : ProxyPipe).afterSend value).done = true <->
      EndsIn .other writes ∨ p.eof = true ∧ ¬ EndsIn .eagain writes := by
  rw [ProxyPipe.afterSend_eq, ProxyPipe.done_eq_true]
  cases SendState.send_outcome counted sent with
  | drained through notBroken empty =>
      simp [unbroken, filtered, empty, through, notBroken]
  | blocked last positive left =>
      have notBroken : ¬ EndsIn .other writes := by
        intro broken
        have same := last.symm.trans broken
        cases same
      have different : ¬ value = -1 := by omega
      simp [unbroken, left, last, notBroken, different]
  | broken last => simp [last]

/-- A timer leaves the session done exactly if it finishes it. -/
theorem done_timeoutCb (settled : s.Settled) (live : s.deleted = false) (open_ : s.done = false)
    {index : Nat} {writes : List WritevResult} (taken : s.timeoutCb index writes = some next) :
    next.deleted = false ∧ (next.done = true <-> s.Finishes index writes) := by
  rcases timeoutCb_spec taken with ⟨dp, emitted, found, _, emitEq, same⟩
  rcases emit_spec emitEq with ⟨st, value, sendEq, emittedEq⟩
  have removed := settled.sound.removeDelayed index
  let p := (({ s.pipe dp.pkt.dir with sndq := st.q, written := st.out } : ProxyPipe).afterSend value)
  have nextPipe : next.pipe dp.pkt.dir = p := by
    rw [same, emittedEq]
    exact pipe_setPipe (s.removeDelayed index) _ _
  have nextOther : next.otherPipe dp.pkt.dir = s.otherPipe dp.pkt.dir := by
    rw [same, emittedEq]
    exact otherPipe_setPipe (s.removeDelayed index) _ _
  have stillLive : next.deleted = false := by
    rw [same, emittedEq]
    exact (setPipe_rest (s.removeDelayed index) dp.pkt.dir p).2.2.2.trans live
  refine ⟨stillLive, ?_⟩
  rw [done_eq next dp.pkt.dir, nextPipe, nextOther, Bool.and_eq_true]
  rw [done_eq s dp.pkt.dir] at open_
  have pipeDone (otherDone : (s.otherPipe dp.pkt.dir).done = true) :
      p.done = true <-> EndsIn .other writes ∨
        (s.pipe dp.pkt.dir).eof = true ∧ ¬ EndsIn .eagain writes := by
    rw [otherDone, Bool.and_true] at open_
    have unbroken : (s.pipe dp.pkt.dir).broken = false := by
      rw [Bool.eq_false_iff]
      intro broken
      have impossible := (ProxyPipe.done_eq_true _).mpr (Or.inl broken)
      rw [open_] at impossible
      cases impossible
    exact done_afterSend unbroken (settled.each.pipe dp.pkt.dir).filtered
      ((removed.each.pipe dp.pkt.dir).counted.pushOut dp.pkt) sendEq
  constructor
  · rintro ⟨done, otherDone⟩
    exact ⟨dp, found, otherDone, (pipeDone otherDone).mp done⟩
  · rintro ⟨dp', found', otherDone, ends⟩
    rw [found] at found'
    cases found'
    exact ⟨(pipeDone otherDone).mpr ends, otherDone⟩

/-- One callback on a session that is not done. -/
theorem reclaimed_step (settled : s.Settled) (open_ : s.done = false) {callback : Callback}
    (taken : s.step callback = some next) :
    (next.Reclaimed ∨ next.done = false) <-> s.LeavesToDo callback := by
  have live := (step_spec taken).1
  have io (own other : Dir) (read : Option ReadEvent) (write : Option (List WritevResult))
      (called : s.ioCb own other read write = some next) : next.Reclaimed ∨ next.done = false := by
    rcases ioCb_spec called with ⟨_, last, _, _, same⟩
    rw [reclaim] at same
    split at same
    · exact Or.inl (same ▸ reclaimed_delete last)
    · rename_i notDone
      exact Or.inr (same ▸ Bool.eq_false_iff.mpr notDone)
  cases (step_spec taken).2 with
  | cli called => exact ⟨fun _ => trivial, fun _ => io _ _ _ _ called⟩
  | srv called => exact ⟨fun _ => trivial, fun _ => io _ _ _ _ called⟩
  | timeout called =>
      rcases done_timeoutCb settled live open_ called with ⟨stillLive, finishes⟩
      change next.Reclaimed ∨ next.done = false <-> ¬ s.Finishes _ _
      rw [← finishes]
      constructor
      · intro good done
        rcases good with reclaimed | notDone
        · have deleted := reclaimed.deleted
          rw [stillLive] at deleted
          cases deleted
        · rw [notDone] at done
          cases done
      · intro notDone
        exact Or.inr (Bool.eq_false_iff.mpr notDone)

end RfSession

/-- A finished session is reclaimed in every run in which no timer emits the
last packet of the session: after every callback it has been stopped and
deleted, or it is not done.  And in every state of such a run the next callback
keeps this exactly if it is not such a timer. -/
theorem finished_session_reclaimed {σ : Type} (pool : Pool) (flt : RfxFilterChain σ)
    (callbacks : List Callback) (s : RfSession σ)
    (met : Run.Meets RfSession.step RfSession.LeavesToDo (.start pool flt) callbacks)
    (reached : Run.run RfSession.step (.start pool flt) callbacks = some s) :
    (s.Reclaimed ∨ s.done = false) ∧ forall callback next, s.step callback = some next ->
      ((next.Reclaimed ∨ next.done = false) <-> s.LeavesToDo callback) := by
  have final := Run.run_invariant_of_meets
    (fun s : RfSession σ =>
      (s.Settled ∨ s.deleted = true) ∧ (s.Reclaimed ∨ s.done = false))
    (fun before callback after now leaves taken => by
      have live := (RfSession.step_spec taken).1
      rcases now with ⟨settled | deleted, reclaimed | open_⟩
      · rw [reclaimed.deleted] at live
        cases live
      · exact ⟨settled.step taken, (RfSession.reclaimed_step settled open_ taken).mpr leaves⟩
      · rw [deleted] at live
        cases live
      · rw [deleted] at live
        cases live)
    ⟨Or.inl (.start pool flt), Or.inr rfl⟩ met reached
  refine ⟨final.2, ?_⟩
  intro callback next taken
  have live := (RfSession.step_spec taken).1
  rcases final with ⟨settled | deleted, reclaimed | open_⟩
  · rw [reclaimed.deleted] at live
    cases live
  · exact RfSession.reclaimed_step settled open_ taken
  · rw [deleted] at live
    cases live
  · rw [deleted] at live
    cases live

/-- A filter that answers every packet with a packet to the client, to be sent
a little later. -/
def delayedReply : RfxFilter Unit where
  processPkt := fun _ _ =>
    some ⟨[.push false { pktInit 0 4 2 srvToCli with delay := 1 }], (), .decline⟩
  processEvent := fun _ _ _ => some ⟨[], (), .decline⟩

set_option maxRecDepth 20000 in
/-- The client has closed its end when the timer of the reply fires.  The session has still something
to do then, and is deleted when the server closes the other end. -/
theorem finished_session_reclaimed_later :
    Exists fun callbacks => Exists fun before => Exists fun s : RfSession Unit =>
      Run.run RfSession.step (.start RefCount.Heap.empty [⟨some delayedReply, ()⟩])
          callbacks = some before ∧
        before.c2s.done = true ∧ (before.dq.qh.map fun dp => dp.pkt.ptr) = [1] ∧
        Run.run RfSession.step before [.timeout 0 [.accepted 4],
          .srv (some { reads := [.eof], fuel := 0, own := [], other := [] }) none] = some s ∧
        s.deleted = true ∧ s.s2c.written = [4, 0, 1, 0, 4, 0, 2, 0] ∧ s.Reclaimed := by
  let first : Callback := .srv (some
    { reads := [.received [4, 0, 1, 0], .failed .eagain]
      fuel := 1
      own := [.accepted 4]
      other := [] }) none
  let second : Callback := .cli (some { reads := [.eof], fuel := 0, own := [], other := [] }) none
  let timer : Callback := .timeout 0 [.accepted 4]
  let last : Callback := .srv (some { reads := [.eof], fuel := 0, own := [], other := [] }) none
  have ran : Exists fun a => Exists fun before => Exists fun fired => Exists fun s : RfSession Unit =>
      (RfSession.start RefCount.Heap.empty [⟨some delayedReply, ()⟩]).step first = some a ∧
        a.step second = some before ∧ before.step timer = some fired ∧ fired.step last = some s ∧
        before.c2s.done = true ∧ (before.dq.qh.map fun dp => dp.pkt.ptr) = [1] ∧
        ((before.dq.qh[0]?).map fun dp => (before.pipe dp.pkt.dir).eof) = some false ∧
        s.done = true ∧ s.deleted = true ∧ s.s2c.written = [4, 0, 1, 0, 4, 0, 2, 0] := by
    refine ⟨_, _, _, _, rfl, rfl, rfl, rfl, ?_⟩
    exact ⟨rfl, rfl, rfl, rfl, rfl, rfl⟩
  rcases ran with ⟨a, before, fired, s, one, two, three, four, done, delayed, opened, finished,
    deleted, written⟩
  have leaves : before.LeavesToDo timer := by
    rintro ⟨dp, found, _, broken | ⟨eof, _⟩⟩
    · cases broken
    · rw [found, Option.map_some, eof] at opened
      cases opened
  have met : Run.Meets RfSession.step RfSession.LeavesToDo
      (.start RefCount.Heap.empty [⟨some delayedReply, ()⟩]) [first, second, timer, last] := by
    refine ⟨trivial, fun t taken => ⟨trivial, fun u taken' => ⟨?_, fun _ _ =>
      ⟨trivial, fun _ _ => trivial⟩⟩⟩⟩
    cases one.symm.trans taken
    cases two.symm.trans taken'
    exact leaves
  have early : Run.run RfSession.step (.start RefCount.Heap.empty [⟨some delayedReply, ()⟩])
      [first, second] = some before :=
    Run.run_two one two
  have late : Run.run RfSession.step before [timer, last] = some s :=
    Run.run_two three four
  have kept := finished_session_reclaimed RefCount.Heap.empty [⟨some delayedReply, ()⟩]
    [first, second, timer, last] s met (Run.run_append.mpr ⟨before, early, late⟩)
  have reclaimed : s.Reclaimed := kept.1.resolve_right (by simp [finished])
  exact ⟨[first, second], before, s, early, done, delayed, late, deleted, written, reclaimed⟩

/-- The server sends one packet and closes; the client accepts nothing yet; the
client closes its side; then the timer of the reply fires and both packets are
written.  The session is done, was not deleted, and nothing watches it. -/
theorem finished_session_forgotten :
    Exists fun callbacks => Exists fun s =>
      Run.run RfSession.step (RfSession.start RefCount.Heap.empty [⟨some delayedReply, ()⟩])
        callbacks = some s ∧ s.deleted = false ∧ s.done = true ∧
          s.c2s.inActive = false ∧ s.c2s.outActive = false ∧
          s.s2c.inActive = false ∧ s.s2c.outActive = false ∧ s.dq.qh = [] := by
  let callbacks : List Callback :=
    [.srv (some
        { reads := [.received [4, 0, 1, 0], .eof]
          fuel := 0
          own := [.failed .eagain]
          other := [] }) none,
      .cli (some { reads := [.eof], fuel := 0, own := [], other := [.failed .eagain] }) none,
      .timeout 0 [.accepted 4, .accepted 4]]
  exact ⟨callbacks, _, rfl, rfl, rfl, rfl, rfl, rfl, rfl, rfl⟩

end Rfx
