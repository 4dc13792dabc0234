import Rfx.SendQueue.Outcome
import Rfx.Session.Routing

namespace Rfx

open Library

/-!
# What the callbacks do

A callback is a sequence of a few operations on the session.  Each operation
gets a lemma that describes its effect on the two pipes, so that later proofs do
not unfold it.  The rule at the end says that a property that every operation
keeps is kept by every callback.
-/

/-! ## Pipes -/

namespace ProxyPipe

theorem afterSend_eq (p : ProxyPipe) (result : Int) :
    p.afterSend result = { p with
      broken := p.broken || decide (result = -1)
      shutRd := p.shutRd || decide (result = -1)
      outActive := decide (0 < result)
      shutdowns :=
        if result ≤ 0 ∧ p.eof = true ∧ p.rcvq.pq = [] then
          p.shutdowns ++ [⟨p.eof, p.broken || decide (result = -1), p.received, p.written⟩]
        else p.shutdowns } := by
  have empty : p.rcvq.isEmpty = decide (p.rcvq.pq = []) := by
    unfold Recvq.isEmpty
    cases p.rcvq.pq <;> rfl
  by_cases broken : result = -1
  · subst broken
    by_cases closing : p.eof = true ∧ p.rcvq.pq = []
    · simp [afterSend, shutdownOut, empty, closing.1, closing.2]
    · simp [afterSend, empty, closing]
  · by_cases stopped : result ≤ 0
    · have zero : ¬ 0 < result := by omega
      by_cases closing : p.eof = true ∧ p.rcvq.pq = []
      · simp [afterSend, shutdownOut, empty, broken, stopped, zero, closing.1, closing.2]
      · simp [afterSend, empty, broken, stopped, zero, closing]
    · have positive : 0 < result := by omega
      simp [afterSend, broken, stopped, positive]

theorem done_eq_true (p : ProxyPipe) :
    p.done = true <-> p.broken = true ∨ p.eof = true ∧ p.rcvq.pq = [] ∧ p.sndq.pq = [] := by
  simp [done, Recvq.isEmpty, Sendq.isEmpty, and_assoc]

/-- What `handle_read_event` changes in a pipe. -/
structure Reads (p next : ProxyPipe) (results : List ReadvResult) (more : Bool) : Prop where
  received_eq : next.received = p.received ++ results.flatMap ReadvResult.bytes
  eof_eq : next.eof = (p.eof || !more)
  inActive_eq : next.inActive = (p.inActive && more)
  rest : next = { p with
    rcvq := next.rcvq
    received := next.received
    eof := next.eof
    inActive := next.inActive }

theorem Reads.sndq_eq {p next : ProxyPipe} {results : List ReadvResult} {more : Bool}
    (reads : p.Reads next results more) : next.sndq = p.sndq := by
  rw [reads.rest]

theorem handleReadEvent_spec {pool : Pool} {p : ProxyPipe} {results : List ReadvResult}
    {answer : Pool × ProxyPipe} (read : p.handleReadEvent pool results = some answer) :
    Exists fun more => p.Reads answer.2 results more ∧
      RecvState.recv ⟨pool, p.rcvq⟩ results = some (⟨answer.1, answer.2.rcvq⟩, more) := by
  rw [handleReadEvent, Option.map_eq_some_iff] at read
  rcases read with ⟨⟨received, more⟩, recvEq, same⟩
  subst same
  refine ⟨more, ?_, ?_⟩
  · cases more
    · exact ⟨rfl, by simp, by simp, rfl⟩
    · exact ⟨rfl, by simp, by simp, rfl⟩
  · rw [recvEq]
    cases more <;> rfl

theorem handleWriteEvent_spec {pool : Pool} {p : ProxyPipe} {results : List WritevResult}
    {answer : Pool × ProxyPipe} (written : p.handleWriteEvent pool results = some answer) :
    Exists fun st : SendState => Exists fun value =>
      SendState.send ⟨pool, p.sndq, p.written⟩ results = some (st, value) ∧ answer.1 = st.pool ∧
        answer.2 = ({ p with sndq := st.q, written := st.out } : ProxyPipe).afterSend value := by
  rw [handleWriteEvent, Option.map_eq_some_iff] at written
  rcases written with ⟨⟨st, value⟩, sendEq, same⟩
  subst same
  exact ⟨st, value, sendEq, rfl, rfl⟩

end ProxyPipe

namespace RfSession

variable {σ : Type} {s next : RfSession σ}

/-- A property of each of the two pipes, which may depend on the direction. -/
structure EachPipe (holds : Dir -> ProxyPipe -> Prop) (s : RfSession σ) : Prop where
  c2s : holds cliToSrv s.c2s
  s2c : holds srvToCli s.s2c

/-- The direction of the pipe that serves `dir`. -/
def side (dir : Dir) : Dir :=
  if dir = srvToCli then srvToCli else cliToSrv

namespace EachPipe

variable {holds : Dir -> ProxyPipe -> Prop}

theorem pipe (each : EachPipe holds s) (dir : Dir) : holds (side dir) (s.pipe dir) := by
  unfold side RfSession.pipe
  split
  · exact each.s2c
  · exact each.c2s

theorem setPipe (each : EachPipe holds s) (dir : Dir) {p : ProxyPipe} (new : holds (side dir) p) :
    EachPipe holds (s.setPipe dir p) := by
  unfold side at new
  unfold RfSession.setPipe
  split
  · rename_i toCli
    rw [if_pos toCli] at new
    exact ⟨each.c2s, new⟩
  · rename_i toSrv
    rw [if_neg toSrv] at new
    exact ⟨new, each.s2c⟩

/-- Enough to look at the pipes as they are selected. -/
theorem of_pipe {holds : ProxyPipe -> Prop} (all : forall dir, holds (s.pipe dir)) :
    EachPipe (fun _ => holds) s :=
  ⟨all cliToSrv, all srvToCli⟩

end EachPipe

/-- The two pipes of a session, the one that a callback serves first. -/
def Opposite (own other : Dir) : Prop :=
  own = cliToSrv ∧ other = srvToCli ∨ own = srvToCli ∧ other = cliToSrv

theorem Opposite.symm {own other : Dir} (opposite : Opposite own other) : Opposite other own := by
  rcases opposite with ⟨own, other⟩ | ⟨own, other⟩
  · exact Or.inr ⟨other, own⟩
  · exact Or.inl ⟨other, own⟩

theorem Opposite.both {own other : Dir} (opposite : Opposite own other) {holds : ProxyPipe -> Prop}
    (first : holds (s.pipe own)) (second : holds (s.pipe other)) :
    EachPipe (fun _ => holds) s := by
  rcases opposite with ⟨own, other⟩ | ⟨own, other⟩
  · subst own other
    exact ⟨first, second⟩
  · subst own other
    exact ⟨second, first⟩

@[simp] theorem pipe_setPipe (s : RfSession σ) (dir : Dir) (p : ProxyPipe) :
    (s.setPipe dir p).pipe dir = p := by
  unfold pipe setPipe
  split <;> rfl

theorem pipe_of_side (s : RfSession σ) {dir other : Dir} (same : side other = side dir) :
    s.pipe other = s.pipe dir := by
  unfold side at same
  unfold pipe
  split at same
  · rename_i toCli
    split at same
    · rename_i toCli'
      rw [if_pos toCli, if_pos toCli']
    · cases same
  · rename_i toSrv
    split at same
    · cases same
    · rename_i toSrv'
      rw [if_neg toSrv, if_neg toSrv']

theorem pipe_setPipe_of_ne (s : RfSession σ) {dir other : Dir} (different : side other ≠ side dir)
    (p : ProxyPipe) : (s.setPipe dir p).pipe other = s.pipe other := by
  unfold side at different
  unfold pipe setPipe
  by_cases toCli : dir = srvToCli
  · have toSrv : ¬ other = srvToCli := fun same => different (by rw [if_pos same, if_pos toCli])
    rw [if_pos toCli, if_neg toSrv, if_neg toSrv]
  · have toCli' : other = srvToCli := by
      by_contra toSrv
      exact different (by rw [if_neg toSrv, if_neg toCli])
    rw [if_neg toCli, if_pos toCli', if_pos toCli']

/-- Storing a pipe changes the pipe of its side, and no other. -/
theorem pipe_setPipe_eq (s : RfSession σ) (own dir : Dir) (p : ProxyPipe) :
    (s.setPipe own p).pipe dir = if side dir = side own then p else s.pipe dir := by
  by_cases same : side dir = side own
  · rw [if_pos same, pipe_of_side _ same, pipe_setPipe]
  · rw [if_neg same, pipe_setPipe_of_ne _ same]

theorem Opposite.pipe_setPipe {own other : Dir} (opposite : Opposite own other) (s : RfSession σ)
    (p : ProxyPipe) : (s.setPipe own p).pipe other = s.pipe other := by
  rcases opposite with ⟨own, other⟩ | ⟨own, other⟩ <;> subst own other <;> rfl

@[simp] theorem setPipe_setPipe (s : RfSession σ) (dir : Dir) (p q : ProxyPipe) :
    (s.setPipe dir p).setPipe dir q = s.setPipe dir q := by
  unfold setPipe
  split <;> rfl

/-- The parts of a session outside its pipes. -/
theorem setPipe_rest (s : RfSession σ) (dir : Dir) (p : ProxyPipe) :
    (s.setPipe dir p).pool = s.pool ∧ (s.setPipe dir p).flt = s.flt ∧
      (s.setPipe dir p).dq = s.dq ∧ (s.setPipe dir p).deleted = s.deleted := by
  unfold setPipe
  split <;> exact ⟨rfl, rfl, rfl, rfl⟩

theorem dispose_rest (s : RfSession σ) (dir : Dir) (pkt : RfPacket) :
    (s.dispose dir pkt).flt = s.flt ∧ (s.dispose dir pkt).dq = s.dq := by
  unfold dispose
  split
  · exact ⟨rfl, rfl⟩
  · exact ⟨(setPipe_rest _ _ _).2.1, (setPipe_rest _ _ _).2.2.1⟩

/-- The source packet is pushed to the pipe that it came through, unless it is marked. -/
theorem pipe_dispose (s : RfSession σ) (own dir : Dir) (pkt : RfPacket) :
    (s.dispose own pkt).pipe dir =
      if pkt.drop = false ∧ side dir = side own then (s.pipe dir).pushOut pkt else s.pipe dir := by
  unfold dispose
  by_cases dropped : pkt.drop = true
  · rw [if_pos dropped, dropped, if_neg fun both => Bool.false_ne_true both.1.symm]
    rfl
  · rw [if_neg dropped, pipe_setPipe_eq]
    by_cases same : side dir = side own
    · rw [if_pos same, if_pos ⟨Bool.eq_false_iff.mpr dropped, same⟩, pipe_of_side s same]
    · rw [if_neg same, if_neg fun both => same both.2]

/-! ## Operations -/

theorem handleRead_spec {dir : Dir} {results : List ReadvResult}
    (read : s.handleRead dir results = some next) :
    Exists fun answer => (s.pipe dir).handleReadEvent s.pool results = some answer ∧
      next = { s.setPipe dir answer.2 with pool := answer.1 } := by
  rw [handleRead, Option.map_eq_some_iff] at read
  rcases read with ⟨answer, answerEq, same⟩
  exact ⟨answer, answerEq, same.symm⟩

theorem handleWrite_spec {dir : Dir} {results : List WritevResult}
    (written : s.handleWrite dir results = some next) :
    Exists fun st : SendState => Exists fun value =>
      SendState.send ⟨s.pool, (s.pipe dir).sndq, (s.pipe dir).written⟩ results = some (st, value) ∧
        next = { s.setPipe dir
          (({ s.pipe dir with sndq := st.q, written := st.out } : ProxyPipe).afterSend value) with
          pool := st.pool } := by
  rw [handleWrite, Option.map_eq_some_iff] at written
  rcases written with ⟨⟨pool, p⟩, answerEq, same⟩
  rcases ProxyPipe.handleWriteEvent_spec answerEq with ⟨st, value, sendEq, poolEq, pEq⟩
  refine ⟨st, value, sendEq, ?_⟩
  rw [← same, ← pEq, ← poolEq]

/-- A packet is pushed to the pipe of its direction and written from there. -/
theorem emit_spec {pkt : RfPacket} {writes : List WritevResult}
    (emitted : s.emit pkt writes = some next) :
    Exists fun st : SendState => Exists fun value =>
      SendState.send ⟨pktRef s.pool pkt, (s.pipe pkt.dir).sndq.pushOut pkt,
        (s.pipe pkt.dir).written⟩ writes = some (st, value) ∧
        next = { s.setPipe pkt.dir (({ s.pipe pkt.dir with
          sndq := st.q, written := st.out } : ProxyPipe).afterSend value) with pool := st.pool } := by
  rcases handleWrite_spec emitted with ⟨st, value, sendEq, same⟩
  have pushed : (s.pushRef pkt).pipe pkt.dir = (s.pipe pkt.dir).pushOut pkt := pipe_setPipe _ _ _
  have counts : (s.pushRef pkt).pool = pktRef s.pool pkt := (setPipe_rest _ _ _).1
  rw [pushed, counts] at sendEq
  rw [pushed, pushRef, setPipe_setPipe] at same
  refine ⟨st, value, sendEq, same.trans ?_⟩
  unfold setPipe
  split <;> rfl

/-- `inject` as a relation. -/
inductive Injected (s : RfSession σ) (pqh : List RfPacket) (next : RfSession σ) : Prop
  | intro (toCli toSrv released delayed : List RfPacket)
      (routes : Routes pqh toCli toSrv released delayed)
      (injects : s.Injects next toCli toSrv released delayed)

theorem Injected.formed {pqh : List RfPacket} (injected : s.Injected pqh next) (formed : s.Formed) :
    next.Formed := by
  rcases injected with ⟨_, _, _, _, _, injects⟩
  exact injects.formed formed

theorem Formed.setPipe (formed : s.Formed) (dir : Dir) {p : ProxyPipe} (bounds : p.sndq.InBounds)
    (dir_eq : p.sndq.dir = (s.pipe dir).sndq.dir) : (s.setPipe dir p).Formed := by
  unfold RfSession.setPipe
  unfold pipe at dir_eq
  split
  · rename_i toCli
    rw [if_pos toCli] at dir_eq
    exact ⟨bounds, formed.toSrv, dir_eq.trans formed.toCli_dir, formed.toSrv_dir⟩
  · rename_i toSrv
    rw [if_neg toSrv] at dir_eq
    exact ⟨formed.toCli, bounds, formed.toCli_dir, dir_eq.trans formed.toSrv_dir⟩

theorem Formed.bounds (formed : s.Formed) (dir : Dir) : (s.pipe dir).sndq.InBounds := by
  unfold pipe
  split
  · exact formed.toCli
  · exact formed.toSrv

theorem Formed.dispose (formed : s.Formed) (dir : Dir) (pkt : RfPacket) :
    (s.dispose dir pkt).Formed := by
  unfold RfSession.dispose
  split
  · exact ⟨formed.toCli, formed.toSrv, formed.toCli_dir, formed.toSrv_dir⟩
  · have bounds := formed.bounds dir
    exact formed.setPipe dir ⟨bounds.size, bounds.within, bounds.at_start⟩ rfl

/-- The two injections around the packet itself; both lists are used up. -/
theorem route_spec (formed : s.Formed) (dir : Dir) (frame : FilterFrame) :
    Exists fun middle => s.Injected frame.pre middle ∧
      (middle.dispose dir frame.pkt).Injected frame.post (s.route dir frame) := by
  rcases inject_spec formed frame.pre with
    ⟨toCli, toSrv, released, delayed, middle, before, routes, injects⟩
  rcases inject_spec ((injects.formed formed).dispose dir frame.pkt) frame.post with
    ⟨toCli', toSrv', released', delayed', last, after, routes', injects'⟩
  have same : s.route dir frame = last := by
    simp only [route, before, after]
    rfl
  exact ⟨middle, .intro _ _ _ _ routes injects, same ▸ .intro _ _ _ _ routes' injects'⟩

theorem filterPkt_spec {dir : Dir} {fuel : Nat} {pkt : RfPacket}
    (filtered : s.filterPkt dir fuel pkt = some next) :
    Exists fun processed => Exists fun handled : ChainState σ =>
      ChainState.processPkt ⟨s.flt, s.pool, .start pkt⟩ = some processed ∧
        processed.processEvents fuel = some handled ∧
        next = { s with flt := handled.flt, pool := handled.pool }.route dir handled.frame := by
  rw [filterPkt, Option.bind_eq_some_iff] at filtered
  rcases filtered with ⟨processed, processedEq, mapped⟩
  rw [Option.map_eq_some_iff] at mapped
  rcases mapped with ⟨handled, handledEq, same⟩
  exact ⟨processed, handled, processedEq, handledEq, same.symm⟩

/-! ## What filtering does to the receive queues -/

theorem rcvq_inject (s : RfSession σ) (pqh : List RfPacket) (dir : Dir) :
    ((s.inject pqh).1.pipe dir).rcvq = (s.pipe dir).rcvq := by
  unfold pipe
  split <;> rfl

theorem rcvq_dispose (s : RfSession σ) (own dir : Dir) (pkt : RfPacket) :
    ((s.dispose own pkt).pipe dir).rcvq = (s.pipe dir).rcvq := by
  rw [pipe_dispose]
  split <;> rfl

theorem rcvq_filterPkt {own : Dir} {fuel : Nat} {pkt : RfPacket}
    (filtered : s.filterPkt own fuel pkt = some next) (dir : Dir) :
    (next.pipe dir).rcvq = (s.pipe dir).rcvq := by
  rcases filterPkt_spec filtered with ⟨_, handled, _, _, same⟩
  have routed : (next.pipe dir).rcvq =
      ((((({ s with flt := handled.flt, pool := handled.pool } : RfSession σ).inject
        handled.frame.pre).1.dispose own handled.frame.pkt).inject handled.frame.post).1.pipe
          dir).rcvq := by
    rw [same]
    rfl
  rw [routed, rcvq_inject, rcvq_dispose, rcvq_inject]
  rfl

/-- The loop of `filter` ends with an empty receive queue, and keeps what its
body keeps. -/
theorem filter_rule (holds : RfSession σ -> Prop) {dir : Dir} {fuel : Nat}
    (filterPkt : forall s pkt rest next, holds s -> (s.pipe dir).rcvq.pq = pkt :: rest ->
      (s.popIn dir rest).filterPkt dir fuel pkt = some next -> holds next)
    (now : holds s) (filtered : s.filter dir fuel = some next) :
    holds next ∧ (next.pipe dir).rcvq.pq = [] := by
  have loop : forall (pkts : List RfPacket) (s : RfSession σ), holds s ->
      (s.pipe dir).rcvq.pq = pkts -> filterLoop dir fuel pkts s = some next ->
        holds next ∧ (next.pipe dir).rcvq.pq = [] := by
    intro pkts
    induction pkts with
    | nil =>
        intro s now queue looped
        cases looped
        exact ⟨now, queue⟩
    | cons pkt rest inductionHypothesis =>
        intro s now queue looped
        rw [filterLoop, Option.bind_eq_some_iff] at looped
        rcases looped with ⟨middle, filteredEq, later⟩
        have popped : ((s.popIn dir rest).pipe dir).rcvq.pq = rest := by
          simp only [popIn, pipe_setPipe]
        refine inductionHypothesis middle (filterPkt s pkt rest middle now queue filteredEq) ?_ later
        rw [rcvq_filterPkt filteredEq]
        exact popped
  exact loop _ s now rfl filtered

/-! ## Callbacks -/

theorem readBranch_spec {own other : Dir} {event : ReadEvent}
    (taken : s.readBranch own other event = some next) :
    Exists fun read => Exists fun filtered => Exists fun written =>
      s.handleRead own event.reads = some read ∧ read.filter own event.fuel = some filtered ∧
        ({ filtered with dq := filtered.dq.start } : RfSession σ).handleWrite own event.own =
          some written ∧
        written.handleWrite other event.other = some next := by
  rw [readBranch, Option.bind_eq_some_iff] at taken
  rcases taken with ⟨read, readEq, taken⟩
  rw [Option.bind_eq_some_iff] at taken
  rcases taken with ⟨filtered, filteredEq, taken⟩
  rw [Option.bind_eq_some_iff] at taken
  rcases taken with ⟨written, writtenEq, taken⟩
  exact ⟨read, filtered, written, readEq, filteredEq, writtenEq, taken⟩

theorem ioCb_spec {own other : Dir} {read : Option ReadEvent} {write : Option (List WritevResult)}
    (taken : s.ioCb own other read write = some next) :
    Exists fun middle => Exists fun last =>
      branch (fun s event => s.readBranch own other event) s read = some middle ∧
        branch (fun s results => s.handleWrite own results) middle write = some last ∧
        next = last.reclaim := by
  rw [ioCb, Option.bind_eq_some_iff] at taken
  rcases taken with ⟨middle, middleEq, taken⟩
  rw [Option.map_eq_some_iff] at taken
  rcases taken with ⟨last, lastEq, same⟩
  exact ⟨middle, last, middleEq, lastEq, same.symm⟩

theorem timeoutCb_spec {index : Nat} {writes : List WritevResult}
    (taken : s.timeoutCb index writes = some next) :
    Exists fun dp => Exists fun emitted =>
      s.dq.qh[index]? = some dp ∧ dp.active = true ∧
        (s.removeDelayed index).emit dp.pkt writes = some emitted ∧
        next = { emitted with pool := pktUnref emitted.pool dp.pkt } := by
  unfold timeoutCb at taken
  split at taken
  · cases taken
  · rename_i dp found
    split at taken
    · rename_i active
      rw [Option.map_eq_some_iff] at taken
      rcases taken with ⟨emitted, emittedEq, same⟩
      exact ⟨dp, emitted, found, active, emittedEq, same.symm⟩
    · cases taken

/-- A callback of a session that exists, by its kind. -/
inductive Stepped (s next : RfSession σ) : Callback -> Prop
  | cli {read : Option ReadEvent} {write : Option (List WritevResult)}
      (taken : s.ioCb cliToSrv srvToCli read write = some next) : Stepped s next (.cli read write)
  | srv {read : Option ReadEvent} {write : Option (List WritevResult)}
      (taken : s.ioCb srvToCli cliToSrv read write = some next) : Stepped s next (.srv read write)
  | timeout {index : Nat} {writes : List WritevResult}
      (taken : s.timeoutCb index writes = some next) : Stepped s next (.timeout index writes)

theorem step_spec {callback : Callback} (taken : s.step callback = some next) :
    s.deleted = false ∧ Stepped s next callback := by
  unfold step at taken
  split at taken
  · cases taken
  · rename_i exists_
    refine ⟨Bool.eq_false_iff.mpr exists_, ?_⟩
    cases callback with
    | cli read write =>
        simp only at taken
        split at taken
        · exact .cli taken
        · cases taken
    | srv read write =>
        simp only at taken
        split at taken
        · exact .srv taken
        · cases taken
    | timeout index writes => exact .timeout taken

/-- What every operation keeps, every callback keeps up to the deletion of the
session, which only an I/O callback performs. -/
theorem step_rule (holds : RfSession σ -> Prop)
    (read : forall s dir results next, holds s -> s.handleRead dir results = some next -> holds next)
    (filterPkt : forall s dir fuel pkt rest next, holds s -> (s.pipe dir).rcvq.pq = pkt :: rest ->
      (s.popIn dir rest).filterPkt dir fuel pkt = some next -> holds next)
    (startTimers : forall s, holds s -> holds { s with dq := s.dq.start })
    (write : forall s dir results next, holds s -> s.handleWrite dir results = some next ->
      holds next)
    (timeout : forall s index writes next, holds s -> s.timeoutCb index writes = some next ->
      holds next)
    {callback : Callback} (now : holds s) (taken : s.step callback = some next) :
    holds next ∨ Exists fun last => holds last ∧ next = last.delete := by
  have io (own other : Dir) (readEvent : Option ReadEvent)
      (results : Option (List WritevResult))
      (called : s.ioCb own other readEvent results = some next) :
      holds next ∨ Exists fun last => holds last ∧ next = last.delete := by
    rcases ioCb_spec called with ⟨middle, last, middleEq, lastEq, same⟩
    have afterRead : holds middle := by
      cases readEvent with
      | none =>
          cases middleEq
          exact now
      | some event =>
          rcases readBranch_spec middleEq with
            ⟨received, filtered, written, readEq, filterEq, ownEq, otherEq⟩
          have kept := filter_rule holds (fun s pkt rest next => filterPkt s own event.fuel pkt rest next)
            (read _ _ _ _ now readEq) filterEq
          exact write _ _ _ _ (write _ _ _ _ (startTimers _ kept.1) ownEq) otherEq
    have afterWrite : holds last := by
      cases results with
      | none =>
          cases lastEq
          exact afterRead
      | some results => exact write _ _ _ _ afterRead lastEq
    rw [reclaim] at same
    split at same
    · exact Or.inr ⟨last, afterWrite, same⟩
    · exact Or.inl (same ▸ afterWrite)
  cases (step_spec taken).2 with
  | cli called => exact io _ _ _ _ called
  | srv called => exact io _ _ _ _ called
  | timeout called => exact Or.inl (timeout _ _ _ _ now called)

end RfSession

end Rfx
