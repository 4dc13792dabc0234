import Mathlib.Algebra.Order.Group.Multiset
import Mathlib.Tactic.Abel
import Rfx.Session.Points
import Rfx.Session.Watchers

namespace Rfx

open Library Library.RefCount

/-!
# Who owns a packet

The places that hold a reference to a packet, and the ledger of a session: the
reference counts together with one token for each place that holds a packet.
Every operation of the session turns into a path of elementary steps on that
ledger: an allocation, a reference, a release, or handing a packet from one
place to another.  The ledger of a session is then exact at every point, which
is to say that every count is the number of owners.
-/

/-- The owners of a packet.  `filtering` is the local of `rf_session::filter`;
`firing` stands for what the callback of a timer holds. -/
inductive Place
  | rcvq (dir : Dir)
  | rd (dir : Dir)
  | sndq (dir : Dir)
  | pre
  | post
  | delayed
  | event
  | filtering
  | firing
  deriving DecidableEq

namespace Place

/-- The places that are packet queues. -/
def isQueue : Place -> Bool
  | rcvq _ => true
  | sndq _ => true
  | pre => true
  | post => true
  | _ => false

/-- A packet is in at most one of these places. -/
def single : Place -> Bool
  | event => false
  | firing => false
  | _ => true

theorem single_of_isQueue {place : Place} (queue : place.isQueue = true) : place.single = true := by
  cases place <;> first | rfl | cases queue

end Place

/-- The tokens of one place for a list of packets. -/
def heldBy (place : Place) (pkts : List RfPacket) : Multiset (Place × Nat) :=
  Ledger.hold place (pkts.map RfPacket.ptr)

@[simp] theorem heldBy_nil (place : Place) : heldBy place [] = 0 := rfl

@[simp] theorem heldBy_append (place : Place) (first second : List RfPacket) :
    heldBy place (first ++ second) = heldBy place first + heldBy place second := by
  simp only [heldBy, List.map_append, Ledger.hold_append]

theorem heldBy_cons (place : Place) (pkt : RfPacket) (pkts : List RfPacket) :
    heldBy place (pkt :: pkts) = heldBy place [pkt] + heldBy place pkts :=
  heldBy_append place [pkt] pkts

theorem heldBy_perm (place : Place) {first second : List RfPacket} (perm : first.Perm second) :
    heldBy place first = heldBy place second :=
  Ledger.hold_perm place (perm.map RfPacket.ptr)

/-- Elementary steps that lead from one pool with its tokens to another. -/
abbrev Turns (pool : Pool) (tokens : Multiset (Place × Nat)) (pool' : Pool)
    (tokens' : Multiset (Place × Nat)) : Prop :=
  Ledger.Leads Place.single ⟨pool, tokens⟩ ⟨pool', tokens'⟩

theorem Turns.refl (pool : Pool) (tokens : Multiset (Place × Nat)) : Turns pool tokens pool tokens :=
  Ledger.Leads.refl _

theorem Turns.move (source target : Place) (linked : target.single = true -> source.single = true)
    (pool : Pool) (pkts : List RfPacket) :
    Turns pool (heldBy source pkts) pool (heldBy target pkts) :=
  Ledger.Leads.move linked pool _

theorem Turns.clear (source : Place) (pool : Pool) (pkts : List RfPacket) :
    Turns pool (heldBy source pkts) (pqhClear pool pkts) 0 := by
  have released : Ledger.Leads Place.single ⟨pool, heldBy source pkts⟩
      ⟨(pkts.map RfPacket.ptr).foldl Heap.unref pool, 0⟩ := Ledger.Leads.unref source pool _
  rw [List.foldl_map] at released
  exact released

/-! ## Receiving -/

/-- The owners in a receive queue. -/
def Recvq.tokens (dir : Dir) (q : Recvq) : Multiset (Place × Nat) :=
  heldBy (.rcvq dir) q.pq + heldBy (.rd dir) q.rd.toList

namespace Recvq

variable {dir : Dir} {q : Recvq}

@[simp] theorem tokens_rdPos (q : Recvq) (pos : Nat) :
    ({ q with rdPos := pos } : Recvq).tokens dir = q.tokens dir := rfl

@[simp] theorem tokens_store (q : Recvq) (bytes : List Byte) :
    (q.store bytes).tokens dir = q.tokens dir := by
  cases shape : q.rd with
  | none => simp only [store, shape, tokens]
  | some rd => simp only [store, shape, tokens, heldBy, Option.toList, List.map_cons, List.map_nil]

theorem finish_turns (dir : Dir) (pool : Pool) (q : Recvq) :
    Turns pool (q.tokens dir) pool (q.finish.tokens dir) := by
  cases shape : q.rd with
  | none =>
      simp only [finish, shape]
      exact .refl _ _
  | some rd =>
      refine (Turns.move (.rd dir) (.rcvq dir) (fun _ => rfl) pool [rd]).within
        (heldBy (.rcvq dir) q.pq) ?_ ?_
      · simp only [tokens, shape, Option.toList]
        abel
      · simp only [tokens, finish, shape, pqhPush, Option.toList, heldBy_append, heldBy_nil]
        abel

theorem settle_turns (dir : Dir) (pool : Pool) (q : Recvq) :
    Turns pool (q.tokens dir) pool (q.settle.tokens dir) := by
  unfold settle
  split
  · split
    · exact finish_turns dir pool q
    · exact .refl _ _
  · exact .refl _ _

end Recvq

namespace RecvState

theorem allocate_turns (dir : Dir) {s : RecvState} (header : List Byte) (pos : Nat) (free : s.q.rd = none) :
    Turns s.pool (s.q.tokens dir) (s.allocate header pos).pool
      ((s.allocate header pos).q.tokens dir) := by
  refine (Ledger.Leads.alloc (.rd dir) s.pool).within (heldBy (.rcvq dir) s.q.pq) ?_ ?_
  · simp only [Recvq.tokens, free, Option.toList, heldBy_nil]
    abel
  · simp only [Recvq.tokens, allocate, pktNew, pktInit, Option.toList, heldBy, List.map_cons,
      List.map_nil]
    abel

theorem afterReadv_turns (dir : Dir) {s : RecvState} {result : ReadvResult} {point : RecvPoint}
    (taken : s.afterReadv result = some point) :
    Turns s.pool (s.q.tokens dir) point.state.pool (point.state.q.tokens dir) := by
  cases result with
  | eof =>
      cases taken
      exact .refl _ _
  | failed errno => cases errno <;> cases taken <;> exact .refl _ _
  | received bytes =>
      simp only [afterReadv] at taken
      split at taken
      · split at taken
        · split at taken
          · cases taken
            have stored := Recvq.finish_turns dir s.pool
              (s.q.store (bytes.take s.q.iovLen))
            rw [Recvq.tokens_store] at stored
            exact stored
          · rename_i shape
            cases taken
            have free : (s.q.store (bytes.take s.q.iovLen)).rd = none := by
              simp only [Recvq.store, shape]
            have opened := allocate_turns dir
              (s := { s with q := s.q.store (bytes.take s.q.iovLen) })
              (s.q.store (bytes.take s.q.iovLen)).rdBuf 4 free
            rw [Recvq.tokens_store] at opened
            exact opened.trans (Recvq.settle_turns dir _ _)
        · cases taken
          have same : Turns s.pool (s.q.tokens dir) s.pool
              ((s.q.store (bytes.take s.q.iovLen)).tokens dir) := by
            rw [Recvq.tokens_store]
            exact .refl _ _
          exact same
      · cases taken

theorem extractBody_turns (dir : Dir) {s : RecvState} {p : List Byte} {point : RecvPoint}
    (taken : s.extractBody p = some point) :
    Turns s.pool (s.q.tokens dir) point.state.pool (point.state.q.tokens dir) := by
  unfold extractBody at taken
  split at taken
  · cases taken
    exact .refl _ _
  · split at taken
    · rename_i rd _
      simp only at taken
      split at taken
      · cases taken
        have settled := Recvq.settle_turns dir s.pool
          { s.q.store (p.take (s.q.copyLen rd p.length).toNat) with
            rdPos := s.q.rdPos + (s.q.copyLen rd p.length).toNat }
        rw [Recvq.tokens_rdPos, Recvq.tokens_store] at settled
        exact settled
      · cases taken
    · rename_i free
      split at taken
      · cases taken
        exact (allocate_turns dir p (s.q.rdPos + 4) free).trans (Recvq.settle_turns dir _ _)
      · split at taken
        · cases taken
          have same : Turns s.pool (s.q.tokens dir) s.pool ((s.q.store p).tokens dir) := by
            rw [Recvq.tokens_store]
            exact .refl _ _
          exact same
        · cases taken

end RecvState

theorem RecvPoint.Leads.turns (dir : Dir) {p q : RecvPoint} {results : List ReadvResult}
    (leads : Leads p results q) :
    Turns p.state.pool (p.state.q.tokens dir) q.state.pool (q.state.q.tokens dir) := by
  induction leads with
  | here => exact .refl _ _
  | readv taken _ inductionHypothesis =>
      have first := RecvState.afterReadv_turns dir taken
      exact first.trans inductionHypothesis
  | extract taken _ inductionHypothesis =>
      have first := RecvState.extractBody_turns dir taken
      exact first.trans inductionHypothesis

/-! ## Sending -/

namespace SendState

theorem Discarding.turns (place : Place) {n bytes : Nat} {pool : Pool} {q : Sendq}
    {p : Pool × Sendq × Nat} (discarding : Discarding n pool q bytes p) :
    Turns pool (heldBy place q.pq) p.1 (heldBy place p.2.1.pq) := by
  induction discarding with
  | here => exact .refl _ _
  | @discarded _ _ pool q _ _ _ inductionHypothesis =>
      have first : Turns pool (heldBy place q.pq) (pqhDiscard pool q.pq).1
          (heldBy place (pqhDiscard pool q.pq).2) := by
        cases q.pq with
        | nil => exact .refl _ _
        | cons pkt rest =>
            exact (Turns.clear place pool [pkt]).within (heldBy place rest)
              (heldBy_cons _ _ _) (Multiset.zero_add _).symm
      exact first.trans inductionHypothesis

theorem body_turns (place : Place) {st next : SendState} {result : WritevResult}
    {value : Option Int} (taken : st.body result = some (next, value)) :
    Turns st.pool (heldBy place st.q.pq) next.pool (heldBy place next.q.pq) := by
  cases result with
  | failed errno =>
      rw [(body_failed taken).1]
      exact .refl _ _
  | accepted bytes =>
      rw [(body_pq taken).1, (body_pq taken).2]
      exact (discarding_discardSent st.q.svc st.pool st.q bytes).turns place

theorem Sending.turns (place : Place) {st p : SendState} {results : List WritevResult}
    (sending : Sending st results p) :
    Turns st.pool (heldBy place st.q.pq) p.pool (heldBy place p.q.pq) := by
  induction sending with
  | here => exact .refl _ _
  | discarding _ _ inside => exact inside.turns place
  | again _ taken _ inductionHypothesis =>
      have first := body_turns place taken
      exact first.trans inductionHypothesis

end SendState

/-! ## Filtering -/

/-- The owners in the locals of `rf_session::filter`. -/
def FilterFrame.tokens (frame : FilterFrame) : Multiset (Place × Nat) :=
  heldBy .filtering [frame.pkt] + heldBy .pre frame.pre + heldBy .post frame.post +
    Ledger.hold .event ((frame.evq ++ frame.cur.toList).filterMap RfxEvent.source)

namespace FilterFrame

/-- Every packet in hand is held by one of the locals. -/
theorem held_of_inHand {frame : FilterFrame} {ptr : Nat}
    (member : ptr ∈ frame.inHand.map RfPacket.ptr) :
    Exists fun place => (place, ptr) ∈ frame.tokens := by
  rcases List.mem_map.mp member with ⟨pkt, reached, same⟩
  have token {place : Place} {pkts : List RfPacket} (listed : pkt ∈ pkts) :
      (place, ptr) ∈ heldBy place pkts :=
    Ledger.mem_hold (List.mem_map.mpr ⟨pkt, listed, same⟩)
  simp only [inHand, List.cons_append, List.mem_cons, List.mem_append] at reached
  simp only [tokens, Multiset.mem_add]
  rcases reached with itself | early | late
  · exact ⟨.filtering, Or.inl (Or.inl (Or.inl (token (List.mem_singleton.mpr itself))))⟩
  · exact ⟨.pre, Or.inl (Or.inl (Or.inr (token early)))⟩
  · exact ⟨.post, Or.inl (Or.inr (token late))⟩

theorem tokens_store (frame : FilterFrame) (ptr : Nat) (edit : PktEdit) :
    (frame.store ptr edit).tokens = frame.tokens := by
  have same (pkt : RfPacket) :
      (if pkt.ptr = ptr then edit.apply pkt else pkt).ptr = pkt.ptr := by
    split
    · exact PktEdit.ptr_apply pkt edit
    · rfl
  have all (pkts : List RfPacket) :
      (pkts.map fun pkt => if pkt.ptr = ptr then edit.apply pkt else pkt).map RfPacket.ptr =
        pkts.map RfPacket.ptr := by
    rw [List.map_map]
    exact List.map_congr_left fun pkt _ => same pkt
  simp only [tokens, store, heldBy, all, List.map_cons, List.map_nil, same]

/-- An event on the queue and the same event being handled hold the same packet. -/
theorem tokens_popEvent {frame : FilterFrame} {ev : RfxEvent} {later : List RfxEvent}
    (queued : frame.evq = ev :: later) (idle : frame.cur = none) :
    ({ frame with evq := later, cur := some ev } : FilterFrame).tokens = frame.tokens := by
  have perm : ((later ++ [ev]).filterMap RfxEvent.source).Perm
      (((ev :: later) ++ []).filterMap RfxEvent.source) := by
    rw [List.append_nil]
    exact List.Perm.filterMap _ (List.perm_append_singleton ev later)
  simp only [tokens, queued, idle, Option.toList]
  rw [Ledger.hold_perm Place.event perm]

theorem act_turns {pool : Pool} {frame : FilterFrame} {act : FltAct} {next : Pool × FilterFrame}
    (applied : act.apply pool frame = some next) :
    Turns pool frame.tokens next.1 next.2.tokens := by
  cases act with
  | push toPost filled =>
      cases applied
      simp only [pktNew]
      split
      · refine (Ledger.Leads.alloc .post pool).within frame.tokens ?_ ?_
        · rw [Multiset.zero_add]
        · simp only [tokens, pqhPush, heldBy_append, pktInit]
          simp only [heldBy, List.map_cons, List.map_nil]
          abel
      · refine (Ledger.Leads.alloc .pre pool).within frame.tokens ?_ ?_
        · rw [Multiset.zero_add]
        · simp only [tokens, pqhPush, heldBy_append, pktInit]
          simp only [heldBy, List.map_cons, List.map_nil]
          abel
  | event what nick msg source =>
      cases source with
      | none =>
          cases applied
          have same : (((frame.evq ++ [RfxEvent.mk what none nick msg]) ++ frame.cur.toList).filterMap
              RfxEvent.source) = (frame.evq ++ frame.cur.toList).filterMap RfxEvent.source := by
            simp [List.filterMap_append]
          simp only [tokens, same]
          exact .refl _ _
      | some ptr =>
          simp only [FltAct.apply] at applied
          split at applied
          · rename_i inHand
            cases applied
            rcases held_of_inHand inHand with ⟨place, held⟩
            have perm : (((frame.evq ++ [RfxEvent.mk what (some ptr) nick msg]) ++
                frame.cur.toList).filterMap RfxEvent.source).Perm
                (ptr :: (frame.evq ++ frame.cur.toList).filterMap RfxEvent.source) := by
              simp only [List.filterMap_append, List.append_assoc, List.filterMap_cons,
                List.cons_append, List.nil_append]
              exact List.perm_middle
            refine (Ledger.Leads.ref .event held rfl pool).within 0 ?_ ?_
            · rw [Multiset.add_zero]
            · simp only [tokens]
              rw [Ledger.hold_perm Place.event perm, Ledger.hold_cons]
              simp only [Ledger.hold_cons, Ledger.hold_nil, ← Multiset.singleton_add]
              abel
          · cases applied
  | store ptr edit =>
      cases applied
      simp only [tokens_store]
      exact .refl _ _

theorem deleteEvent_turns {pool : Pool} {frame : FilterFrame} {ev : RfxEvent}
    (current : frame.cur = some ev) :
    Turns pool frame.tokens (deleteEvent pool ev) { frame with cur := none }.tokens := by
  cases source : ev.source with
  | none =>
      simp only [deleteEvent, source, tokens, current, Option.toList, List.filterMap_append,
        List.filterMap_cons, List.filterMap_nil, List.append_nil]
      exact .refl _ _
  | some ptr =>
      simp only [deleteEvent, source, tokens, current, Option.toList, List.filterMap_append,
        List.filterMap_cons, List.filterMap_nil, List.append_nil, Ledger.hold_append]
      refine (Ledger.Leads.unref .event pool [ptr]).within
        (heldBy .filtering [frame.pkt] + heldBy .pre frame.pre + heldBy .post frame.post +
          Ledger.hold .event (frame.evq.filterMap RfxEvent.source)) ?_ ?_
      · abel
      · rw [Multiset.zero_add]

theorem applyAll_turns {pool : Pool} {frame : FilterFrame} {acts : List FltAct}
    {next : Pool × FilterFrame} (applied : applyAll pool frame acts = some next) :
    Turns pool frame.tokens next.1 next.2.tokens ∧ next.2.cur = frame.cur :=
  @applyAll_rule (fun _ => True)
    (fun pool' frame' => Turns pool frame.tokens pool' frame'.tokens ∧ frame'.cur = frame.cur)
    (fun _ _ _ _ now _ applied =>
      ⟨now.1.trans (act_turns applied), (cur_apply applied).trans now.2⟩)
    pool frame acts next ⟨.refl _ _, rfl⟩ (fun _ _ => trivial) applied

end FilterFrame

section Chains

variable {σ : Type}

theorem Dispatching.turns {call : RfxFilter σ -> σ -> FilterFrame -> Option (FltCall σ)}
    {earlier chain : RfxFilterChain σ} {pool : Pool} {frame : FilterFrame} {p : ChainState σ}
    (dispatching : Dispatching call earlier chain pool frame p) :
    Turns pool frame.tokens p.pool p.frame.tokens ∧ p.frame.cur = frame.cur := by
  induction dispatching with
  | here => exact ⟨.refl _ _, rfl⟩
  | missing _ _ inductionHypothesis => exact inductionHypothesis
  | acting _ _ _ applied => exact FilterFrame.applyAll_turns applied
  | broke _ _ applied => exact FilterFrame.applyAll_turns applied
  | declined _ _ applied _ _ inductionHypothesis =>
      have first := FilterFrame.applyAll_turns applied
      exact ⟨first.1.trans inductionHypothesis.1, inductionHypothesis.2.trans first.2⟩

theorem ChainState.Handling.turns {chain p : ChainState σ} (handling : chain.Handling p)
    (idle : chain.frame.cur = none) :
    Turns chain.pool chain.frame.tokens p.pool p.frame.tokens := by
  induction handling with
  | here => exact .refl _ _
  | event queued inside =>
      rw [← FilterFrame.tokens_popEvent queued idle]
      exact inside.turns.1
  | deleted queued dispatched _ inductionHypothesis =>
      have inside := (dispatching_of_dispatch [] dispatched).turns
      rw [← FilterFrame.tokens_popEvent queued idle]
      refine (inside.1.trans ?_).trans (inductionHypothesis rfl)
      exact FilterFrame.deleteEvent_turns inside.2

variable {chain : RfxFilterChain σ} {pool : Pool} {pkt : RfPacket} {processed : ChainState σ}

theorem processPkt_turns
    (processedEq : ChainState.processPkt ⟨chain, pool, .start pkt⟩ = some processed) :
    Turns pool (heldBy .filtering [pkt]) processed.pool processed.frame.tokens ∧
      processed.frame.cur = none := by
  have started : (FilterFrame.start pkt).tokens = heldBy .filtering [pkt] := by
    simp [FilterFrame.tokens, FilterFrame.start]
  rw [← started]
  exact (dispatching_of_dispatch [] processedEq).turns

variable {fuel : Nat} {handled : ChainState σ}

/-- What the whole chain does on one packet. -/
theorem chain_turns
    (processedEq : ChainState.processPkt ⟨chain, pool, .start pkt⟩ = some processed)
    (handledEq : processed.processEvents fuel = some handled) :
    Turns pool (heldBy .filtering [pkt]) handled.pool handled.frame.tokens := by
  have front := processPkt_turns processedEq
  exact front.1.trans ((ChainState.handling_of_processEvents handledEq).turns front.2)

/-- When the chain is done with a packet, no event is left. -/
theorem handled_tokens
    (processedEq : ChainState.processPkt ⟨chain, pool, .start pkt⟩ = some processed)
    (handledEq : processed.processEvents fuel = some handled) :
    handled.frame.tokens = heldBy .filtering [handled.frame.pkt] +
      heldBy .pre handled.frame.pre + heldBy .post handled.frame.post := by
  have ended := chain_rule (fun _ => True) (fun _ _ => True) (fun _ _ _ _ _ _ _ => trivial)
    (fun _ _ _ _ _ _ _ => trivial) (fun _ _ _ _ _ => trivial)
    (fun f _ => ⟨fun _ _ _ _ _ _ => trivial, fun _ _ _ _ _ _ _ => trivial⟩) trivial
    processedEq handledEq
  simp [FilterFrame.tokens, ended.2.1, ended.2.2.1]

end Chains

/-! ## The session -/

/-- The owners among the locals. -/
def Locals.tokens (locals : Locals) : Multiset (Place × Nat) :=
  heldBy .filtering locals.filtering.toList + heldBy .pre locals.pre + heldBy .post locals.post +
    Ledger.hold .event (locals.events.filterMap RfxEvent.source) +
      heldBy .firing locals.firing.toList

namespace Locals

@[simp] theorem tokens_idle : idle.tokens = 0 := rfl

@[simp] theorem tokens_fired (pkt : RfPacket) : (fired pkt).tokens = heldBy .firing [pkt] := by
  simp [tokens, fired, idle]

@[simp] theorem tokens_locals (frame : FilterFrame) : frame.locals.tokens = frame.tokens := by
  simp [tokens, FilterFrame.locals, FilterFrame.tokens]

end Locals

/-- The owners in a pipe. -/
def ProxyPipe.tokens (dir : Dir) (p : ProxyPipe) : Multiset (Place × Nat) :=
  p.rcvq.tokens dir + heldBy (.sndq dir) p.sndq.pq

namespace RfSession

variable {σ : Type} {s next : RfSession σ}

/-- The owners among the members of a session. -/
def tokens (s : RfSession σ) : Multiset (Place × Nat) :=
  s.c2s.tokens cliToSrv + s.s2c.tokens srvToCli + heldBy .delayed s.dq.pkts

/-- Those of them that are not in the pipe that serves `dir`. -/
def outside (s : RfSession σ) (dir : Dir) : Multiset (Place × Nat) :=
  (if dir = srvToCli then s.c2s.tokens cliToSrv else s.s2c.tokens srvToCli) +
    heldBy .delayed s.dq.pkts

theorem tokens_eq (s : RfSession σ) (dir : Dir) :
    s.tokens = (s.pipe dir).tokens (side dir) + s.outside dir := by
  unfold tokens pipe outside side
  split <;> abel

theorem tokens_setPipe (s : RfSession σ) (dir : Dir) (p : ProxyPipe) :
    (s.setPipe dir p).tokens = p.tokens (side dir) + s.outside dir := by
  unfold tokens setPipe outside side
  split <;> abel

/-- Reading turns what the receive queue holds. -/
theorem rcvq_turns (s : RfSession σ) (dir : Dir) {pool : Pool} {q : Recvq}
    (turns : Turns s.pool ((s.pipe dir).rcvq.tokens (side dir)) pool (q.tokens (side dir))) :
    Turns s.pool s.tokens pool (s.setPipe dir { s.pipe dir with rcvq := q }).tokens := by
  rw [tokens_eq s dir, tokens_setPipe]
  refine turns.within (heldBy (.sndq (side dir)) (s.pipe dir).sndq.pq + s.outside dir) ?_ ?_
  · simp only [ProxyPipe.tokens]
    abel
  · simp only [ProxyPipe.tokens]
    abel

theorem handleRead_turns {dir : Dir} {results : List ReadvResult}
    (read : s.handleRead dir results = some next) :
    Turns s.pool s.tokens next.pool next.tokens := by
  rcases handleRead_spec read with ⟨answer, answerEq, same⟩
  rcases ProxyPipe.handleReadEvent_spec answerEq with ⟨more, reads, recvEq⟩
  have received := s.rcvq_turns dir ((RecvPoint.leads_of_recv recvEq).turns (side dir))
  have tokens : next.tokens = (s.setPipe dir { s.pipe dir with rcvq := answer.2.rcvq }).tokens := by
    have whole : next.tokens = (s.setPipe dir answer.2).tokens := by
      rw [same]
      rfl
    rw [whole, tokens_setPipe, tokens_setPipe]
    simp only [ProxyPipe.tokens, reads.sndq_eq]
  rw [tokens, same]
  exact received

/-- What turns the send queue together with something else turns the session so. -/
theorem sndq_turns (s : RfSession σ) (dir : Dir) (before after : Multiset (Place × Nat)) {pool : Pool}
    {q : Sendq}
    (turns : Turns s.pool (before + heldBy (.sndq (side dir)) (s.pipe dir).sndq.pq) pool
      (after + heldBy (.sndq (side dir)) q.pq)) :
    Turns s.pool (before + s.tokens) pool
      (after + (s.setPipe dir { s.pipe dir with sndq := q }).tokens) := by
  rw [tokens_eq s dir, tokens_setPipe]
  refine turns.within ((s.pipe dir).rcvq.tokens (side dir) + s.outside dir) ?_ ?_
  · simp only [ProxyPipe.tokens]
    abel
  · simp only [ProxyPipe.tokens]
    abel

theorem Writing.turns {dir : Dir} {results : List WritevResult} (writing : s.Writing dir results next) :
    Turns s.pool s.tokens next.pool next.tokens := by
  cases writing with
  | here => exact .refl _ _
  | @sending st inside =>
      have entered : (SendState.enter ⟨s.pool, (s.pipe dir).sndq, (s.pipe dir).written⟩).pool = s.pool ∧
          (SendState.enter ⟨s.pool, (s.pipe dir).sndq, (s.pipe dir).written⟩).q.pq =
            (s.pipe dir).sndq.pq := by
        unfold SendState.enter
        split <;> exact ⟨rfl, rfl⟩
      have sent := inside.turns (.sndq (side dir))
      rw [entered.1, entered.2] at sent
      have turns : Turns s.pool s.tokens st.pool
          (s.setPipe dir { s.pipe dir with sndq := st.q }).tokens := by
        simpa only [Multiset.zero_add] using s.sndq_turns dir 0 0 (q := st.q)
          (by simpa only [Multiset.zero_add] using sent)
      have tokens : ({ s.setPipe dir { s.pipe dir with sndq := st.q, written := st.out } with
          pool := st.pool } : RfSession σ).tokens =
            (s.setPipe dir { s.pipe dir with sndq := st.q }).tokens := by
        refine (tokens_setPipe s dir _).trans (Eq.symm ?_)
        exact tokens_setPipe s dir _
      rw [tokens]
      exact turns

theorem handleWrite_turns {dir : Dir} {results : List WritevResult}
    (written : s.handleWrite dir results = some next) :
    Turns s.pool s.tokens next.pool next.tokens := by
  rcases handleWrite_spec written with ⟨st, value, sendEq, same⟩
  have inside := Writing.sending (SendState.sending_of_sendLoop sendEq)
  have tokens : next.tokens = ({ s.setPipe dir { s.pipe dir with sndq := st.q, written := st.out } with
      pool := st.pool } : RfSession σ).tokens := by
    rw [same, ProxyPipe.afterSend_eq]
    refine (tokens_setPipe s dir _).trans (Eq.symm ?_)
    exact tokens_setPipe s dir _
  have pool : next.pool = st.pool := by rw [same]
  rw [tokens, pool]
  exact inside.turns

theorem popIn_turns {dir : Dir} {pkt : RfPacket} {rest : List RfPacket}
    (queue : (s.pipe dir).rcvq.pq = pkt :: rest) :
    Turns s.pool s.tokens (s.popIn dir rest).pool
      (heldBy .filtering [pkt] + (s.popIn dir rest).tokens) := by
  have pool : (s.popIn dir rest).pool = s.pool := (setPipe_rest _ _ _).1
  rw [pool]
  refine (Turns.move (.rcvq (side dir)) .filtering (fun _ => rfl) s.pool [pkt]).within
    (s.popIn dir rest).tokens ?_ rfl
  rw [tokens_eq s dir, popIn, tokens_setPipe]
  simp only [ProxyPipe.tokens, Recvq.tokens, queue]
  rw [heldBy_cons _ pkt rest]
  abel

/-- What `pull` does to the packets of the list and of the queue. -/
theorem pull_turns {place : Place} (single : place.single = true) (dir : Dir) (pool : Pool)
    (q : Sendq) (src : List RfPacket) :
    Turns pool (heldBy place src + heldBy (.sndq dir) q.pq) (q.pull pool src).1
      (heldBy place (q.pull pool src).2.2 + heldBy (.sndq dir) (q.pull pool src).2.1.pq) := by
  rcases q.pull_shares pool src with ⟨moved, released, kept, shares, poolEq, pqEq, leftEq⟩
  rw [poolEq, pqEq, leftEq]
  have split : heldBy place src = heldBy place moved + heldBy place released + heldBy place kept := by
    rw [heldBy_perm place shares.perm, heldBy_append, heldBy_append]
  have moves := Turns.move place (.sndq dir) (fun _ => single) pool moved
  have clears := Turns.clear place pool released
  refine (moves.within (heldBy place released + heldBy place kept + heldBy (.sndq dir) q.pq) ?_
    rfl).trans ?_
  · rw [split]
    abel
  · refine clears.within (heldBy (.sndq dir) moved + heldBy place kept + heldBy (.sndq dir) q.pq)
      (by abel) ?_
    rw [heldBy_append]
    abel

variable {place : Place} {pqh left : List RfPacket}

theorem Pulling.turns {dir : Dir} (single : place.single = true)
    (pulling : s.Pulling dir pqh next left) :
    Turns s.pool (heldBy place pqh + s.tokens) next.pool (heldBy place left + next.tokens) := by
  cases pulling with
  | here => exact .refl _ _
  | @looked done later _ _ _ split pulled =>
      cases pulled
      have pulls := pull_turns single (side dir) s.pool (s.pipe dir).sndq done
      refine s.sndq_turns dir _ _ (pulls.within (heldBy place later) ?_ ?_)
      · rw [split, heldBy_append]
        abel
      · rw [heldBy_append]
        abel

theorem injectPipe_turns (single : place.single = true) (s : RfSession σ) (dir : Dir)
    (pqh : List RfPacket) :
    Turns s.pool (heldBy place pqh + s.tokens) (s.injectPipe dir pqh).1.pool
      (heldBy place (s.injectPipe dir pqh).2 + (s.injectPipe dir pqh).1.tokens) :=
  s.sndq_turns dir _ _ (pull_turns single (side dir) s.pool (s.pipe dir).sndq pqh)

theorem Injecting.turns (single : place.single = true) (injecting : s.Injecting pqh next left) :
    Turns s.pool (heldBy place pqh + s.tokens) next.pool (heldBy place left + next.tokens) := by
  cases injecting with
  | toCli inside => exact inside.turns single
  | toSrv cliEq inside =>
      subst cliEq
      exact (injectPipe_turns single s srvToCli pqh).trans (inside.turns single)
  | @delayed cli srv done _ cliEq srvEq split =>
      subst cliEq srvEq
      have toCli := injectPipe_turns single s srvToCli pqh
      have toSrv := injectPipe_turns single (s.injectPipe srvToCli pqh).1 cliToSrv
        (s.injectPipe srvToCli pqh).2
      refine (toCli.trans toSrv).trans ?_
      generalize (s.injectPipe srvToCli pqh).1.injectPipe cliToSrv
        (s.injectPipe srvToCli pqh).2 = srv at split
      refine (Turns.move place .delayed (fun _ => single) srv.1.pool done).within
        (heldBy place left + srv.1.tokens) ?_ ?_
      · rw [split, heldBy_append]
        abel
      · simp only [tokens, DelayedQueue.pull_eq, DelayedQueue.pkts_append, heldBy_append]
        abel

theorem dispose_turns (s : RfSession σ) (dir : Dir) (pkt : RfPacket) :
    Turns s.pool (heldBy .filtering [pkt] + s.tokens) (s.dispose dir pkt).pool
      (s.dispose dir pkt).tokens := by
  unfold dispose
  split
  · exact (Turns.clear .filtering s.pool [pkt]).within s.tokens rfl (Multiset.zero_add _).symm
  · rw [(setPipe_rest _ _ _).1]
    refine (Turns.move .filtering (.sndq (side dir)) (fun _ => rfl) s.pool
      [pkt]).within s.tokens rfl ?_
    rw [tokens_setPipe, tokens_eq s dir]
    simp only [ProxyPipe.tokens, ProxyPipe.pushOut, Sendq.pushOut, pqhPush, heldBy_append]
    abel

end RfSession

/-- The owners at a moment. -/
def Moment.tokens {σ : Type} (m : Moment σ) : Multiset (Place × Nat) :=
  m.locals.tokens + m.session.tokens

namespace RfSession

variable {σ : Type} {s next : RfSession σ} {m : Moment σ}

/-- The packets in `pre`, and then the packet itself. -/
theorem routed_turns (s : RfSession σ) (dir : Dir) (chain : ChainState σ) :
    Turns chain.pool (heldBy .filtering [chain.frame.pkt] + heldBy .pre chain.frame.pre + s.tokens)
      (((s.inChain chain).inject chain.frame.pre).1.dispose dir chain.frame.pkt).pool
      (((s.inChain chain).inject chain.frame.pre).1.dispose dir chain.frame.pkt).tokens := by
  have early : Turns chain.pool (heldBy .pre chain.frame.pre + s.tokens)
      ((s.inChain chain).inject chain.frame.pre).1.pool
      (heldBy .pre [] + ((s.inChain chain).inject chain.frame.pre).1.tokens) :=
    Injecting.turns rfl (injecting_inject (s.inChain chain) chain.frame.pre)
  have itself := ((s.inChain chain).inject chain.frame.pre).1.dispose_turns dir chain.frame.pkt
  refine (early.within (heldBy .filtering [chain.frame.pkt]) (by abel) ?_).trans itself
  rw [heldBy_nil]
  abel

theorem Filtering.turns {dir : Dir} {fuel : Nat} {pkt : RfPacket}
    (filtering : s.Filtering dir fuel pkt m) :
    Turns s.pool (heldBy .filtering [pkt] + s.tokens) m.session.pool m.tokens := by
  have inChain (chain : ChainState σ) (locals : Locals) :
      (Moment.mk (s.inChain chain) locals).tokens = locals.tokens + s.tokens := rfl
  cases filtering with
  | @processing p inside =>
      have started : (FilterFrame.start pkt).tokens = heldBy .filtering [pkt] := by
        simp [FilterFrame.tokens, FilterFrame.start]
      rw [inChain, Locals.tokens_locals, ← started]
      exact inside.turns.1.within s.tokens rfl rfl
  | @handling _ p processedEq inside =>
      have front := processPkt_turns processedEq
      rw [inChain, Locals.tokens_locals]
      exact (front.1.trans (inside.turns front.2)).within s.tokens rfl rfl
  | @before _ handled t left processedEq handledEq inside =>
      have chain := (chain_turns processedEq handledEq).within s.tokens rfl rfl
      have early : Turns handled.pool (heldBy .pre handled.frame.pre + s.tokens) t.pool
          (heldBy .pre left + t.tokens) := Injecting.turns rfl inside
      refine chain.trans (early.within (heldBy .filtering [handled.frame.pkt] +
        heldBy .post handled.frame.post + Ledger.hold .event
          ((handled.frame.evq ++ handled.frame.cur.toList).filterMap RfxEvent.source)) ?_ ?_)
      · simp only [FilterFrame.tokens]
        abel
      · simp only [Moment.tokens, Locals.tokens, FilterFrame.locals, Option.toList, heldBy_nil]
        abel
  | @after _ handled t left processedEq handledEq inside =>
      have chain := (chain_turns processedEq handledEq).within s.tokens rfl rfl
      rw [handled_tokens processedEq handledEq] at chain
      have itself := s.routed_turns dir handled
      have late : Turns _ (heldBy .post handled.frame.post + _) t.pool (heldBy .post left + t.tokens) :=
        Injecting.turns rfl inside
      refine (chain.trans (itself.within (heldBy .post handled.frame.post) (by abel) rfl)).trans ?_
      refine late.within 0 (by abel) ?_
      simp only [Moment.tokens, Locals.tokens, Locals.idle, Option.toList, heldBy_nil,
        List.filterMap_nil, Ledger.hold_nil]
      abel

theorem Looping.turns {dir : Dir} {fuel : Nat} {pkts : List RfPacket}
    (looping : Looping dir fuel pkts s m) (queue : (s.pipe dir).rcvq.pq = pkts) :
    Turns s.pool s.tokens m.session.pool m.tokens := by
  induction looping with
  | here => exact .refl _ _
  | inside filtering => exact (popIn_turns queue).trans filtering.turns
  | @next pkt rest s t _ filtered _ inductionHypothesis =>
      have left : (t.pipe dir).rcvq.pq = rest := by
        rw [rcvq_filterPkt filtered, popIn, pipe_setPipe]
      have first := (filtering_of_filterPkt filtered).turns
      exact ((popIn_turns queue).trans first).trans (inductionHypothesis left)

theorem startTimers_tokens (s : RfSession σ) :
    ({ s with dq := s.dq.start } : RfSession σ).tokens = s.tokens := by
  have same : s.dq.start.pkts = s.dq.pkts := by
    unfold DelayedQueue.start
    split
    · simp only [DelayedQueue.pkts, List.map_map, Function.comp_def]
    · rfl
  simp only [tokens, same]

theorem tokens_removeDelayed {index : Nat} {dp : DelayedPkt} (found : s.dq.qh[index]? = some dp) :
    s.tokens = heldBy .delayed [dp.pkt] + (s.removeDelayed index).tokens := by
  have perm : s.dq.pkts.Perm (dp.pkt :: (s.removeDelayed index).dq.pkts) := by
    rcases List.getElem?_eq_some_iff.mp found with ⟨inside, dpEq⟩
    have listed := (List.getElem_cons_eraseIdx_perm inside).map DelayedPkt.pkt
    rw [dpEq] at listed
    exact listed.symm
  simp only [tokens]
  rw [heldBy_perm .delayed perm, heldBy_cons]
  simp only [removeDelayed]
  abel

/-- The packet of a timer is taken out of the delayed queue; it is then referenced
once more and pushed. -/
theorem pushRef_turns {index : Nat} {dp : DelayedPkt} (found : s.dq.qh[index]? = some dp) :
    Turns s.pool s.tokens ((s.removeDelayed index).pushRef dp.pkt).pool
      (heldBy .firing [dp.pkt] + ((s.removeDelayed index).pushRef dp.pkt).tokens) := by
  have relinked : Ledger.Leads Place.single ⟨s.pool, heldBy .delayed [dp.pkt]⟩
      ⟨pktRef s.pool dp.pkt, heldBy (.sndq (side dp.pkt.dir)) [dp.pkt] + heldBy .firing [dp.pkt]⟩ :=
    Ledger.Leads.relink rfl rfl (Place.sndq (side dp.pkt.dir)) s.pool dp.pkt.ptr
  have pushed : ((s.removeDelayed index).pushRef dp.pkt).tokens =
      heldBy (.sndq (side dp.pkt.dir)) [dp.pkt] + (s.removeDelayed index).tokens := by
    refine (tokens_setPipe _ _ _).trans ?_
    rw [tokens_eq (s.removeDelayed index) dp.pkt.dir]
    simp only [ProxyPipe.tokens, ProxyPipe.pushOut, Sendq.pushOut, pqhPush, heldBy_append]
    change _ + (s.removeDelayed index).outside dp.pkt.dir = _
    abel
  have pool : ((s.removeDelayed index).pushRef dp.pkt).pool = pktRef s.pool dp.pkt :=
    (setPipe_rest _ _ _).1
  rw [tokens_removeDelayed found, pool, pushed]
  exact relinked.within (s.removeDelayed index).tokens rfl (by abel)

theorem timeoutCb_turns {index : Nat} {writes : List WritevResult}
    (taken : s.timeoutCb index writes = some next) :
    Turns s.pool s.tokens next.pool next.tokens := by
  rcases timeoutCb_spec taken with ⟨dp, emitted, found, _, emitEq, same⟩
  have written := handleWrite_turns (s := (s.removeDelayed index).pushRef dp.pkt) emitEq
  rw [same]
  refine (pushRef_turns found).trans ?_
  refine (written.within (heldBy .firing [dp.pkt]) (Multiset.add_comm _ _) rfl).trans ?_
  exact (Turns.clear .firing emitted.pool [dp.pkt]).within emitted.tokens (Multiset.add_comm _ _)
    (Multiset.zero_add _).symm

/-- What is left of the owners after the destructors. -/
theorem tokens_delete (s : RfSession σ) : s.delete.tokens =
    heldBy (.rd cliToSrv) s.c2s.rcvq.rd.toList + heldBy (.rd srvToCli) s.s2c.rcvq.rd.toList := by
  simp only [tokens, delete, ProxyPipe.tokens, Recvq.tokens, ProxyPipe.stop, DelayedQueue.stop,
    DelayedQueue.pkts, List.map_nil, heldBy_nil]
  abel

/-- The queues in the order in which they are destroyed. -/
theorem pool_delete (s : RfSession σ) : s.delete.pool =
    pqhClear (pqhClear (pqhClear (pqhClear (pqhClear s.pool s.dq.pkts) s.s2c.rcvq.pq) s.s2c.sndq.pq)
      s.c2s.rcvq.pq) s.c2s.sndq.pq := by
  have stopped : s.dq.stop.pkts = s.dq.pkts := by
    simp only [DelayedQueue.stop, DelayedQueue.pkts, List.map_map, Function.comp_def]
  rw [← stopped]
  rfl

theorem tokens_eq_delete (s : RfSession σ) : s.tokens =
    heldBy .delayed s.dq.pkts + heldBy (.rcvq srvToCli) s.s2c.rcvq.pq +
      heldBy (.sndq srvToCli) s.s2c.sndq.pq + heldBy (.rcvq cliToSrv) s.c2s.rcvq.pq +
        heldBy (.sndq cliToSrv) s.c2s.sndq.pq + s.delete.tokens := by
  rw [tokens_delete]
  simp only [tokens, ProxyPipe.tokens, Recvq.tokens]
  abel

/-- The destructors give up every packet in the queues. -/
theorem delete_turns (s : RfSession σ) : Turns s.pool s.tokens s.delete.pool s.delete.tokens := by
  rw [tokens_eq_delete s, pool_delete]
  refine ((Turns.clear .delayed _ _).within (heldBy (.rcvq srvToCli) s.s2c.rcvq.pq +
    heldBy (.sndq srvToCli) s.s2c.sndq.pq + heldBy (.rcvq cliToSrv) s.c2s.rcvq.pq +
      heldBy (.sndq cliToSrv) s.c2s.sndq.pq + s.delete.tokens) (by abel) rfl).trans ?_
  refine ((Turns.clear (.rcvq srvToCli) _ _).within (heldBy (.sndq srvToCli) s.s2c.sndq.pq +
    heldBy (.rcvq cliToSrv) s.c2s.rcvq.pq + heldBy (.sndq cliToSrv) s.c2s.sndq.pq +
      s.delete.tokens) (by abel) rfl).trans ?_
  refine ((Turns.clear (.sndq srvToCli) _ _).within (heldBy (.rcvq cliToSrv) s.c2s.rcvq.pq +
    heldBy (.sndq cliToSrv) s.c2s.sndq.pq + s.delete.tokens) (by abel) rfl).trans ?_
  refine ((Turns.clear (.rcvq cliToSrv) _ _).within (heldBy (.sndq cliToSrv) s.c2s.sndq.pq +
    s.delete.tokens) (by abel) rfl).trans ?_
  exact (Turns.clear (.sndq cliToSrv) _ _).within s.delete.tokens (by abel)
    (Multiset.zero_add _).symm

theorem release_turns (released : s.release = some next) :
    Turns s.pool s.tokens next.pool next.tokens := by
  have gone (place : Place) {pkt : RfPacket} (pool : next.pool = pktUnref s.pool pkt)
      (held : s.tokens = heldBy place [pkt] + next.tokens) :
      Turns s.pool s.tokens next.pool next.tokens := by
    rw [pool]
    exact (Turns.clear place s.pool [pkt]).within next.tokens held (Multiset.zero_add _).symm
  unfold release at released
  split at released <;> cases released
  · rename_i dp later timers
    refine gone .delayed rfl ?_
    simp only [tokens, DelayedQueue.pkts, timers, List.map_cons]
    rw [heldBy_cons]
    abel
  · rename_i pkt later _ queue
    refine gone (.rcvq srvToCli) rfl ?_
    simp only [tokens, ProxyPipe.tokens, Recvq.tokens, queue]
    rw [heldBy_cons _ _ later]
    abel
  · rename_i pkt later _ _ queue
    refine gone (.sndq srvToCli) rfl ?_
    simp only [tokens, ProxyPipe.tokens, queue]
    rw [heldBy_cons _ _ later]
    abel
  · rename_i pkt later _ _ _ queue
    refine gone (.rcvq cliToSrv) rfl ?_
    simp only [tokens, ProxyPipe.tokens, Recvq.tokens, queue]
    rw [heldBy_cons _ _ later]
    abel
  · rename_i pkt later _ _ _ _ queue
    refine gone (.sndq cliToSrv) rfl ?_
    simp only [tokens, ProxyPipe.tokens, queue]
    rw [heldBy_cons _ _ later]
    abel

/-- Every operation is a path of elementary steps, and so is every part of it. -/
theorem Inside.turns {op : Op} (inside : s.Inside op m) :
    Turns s.pool s.tokens m.session.pool m.tokens := by
  have quiet (t : RfSession σ) : (Moment.mk t .idle).tokens = t.tokens := Multiset.zero_add _
  cases inside with
  | @reading dir _ p leads =>
      rw [quiet]
      exact s.rcvq_turns dir (leads.turns (side dir))
  | filtering looping => exact looping.turns rfl
  | writing inside =>
      rw [quiet]
      exact inside.turns
  | @removed index _ dp found _ =>
      refine (Turns.move .delayed .firing (fun single => nomatch single) s.pool [dp.pkt]).within
        (s.removeDelayed index).tokens (tokens_removeDelayed found) ?_
      simp only [Moment.tokens, Locals.tokens_fired]
  | @emitting index _ dp t found _ _ inside =>
      refine (pushRef_turns found).trans (inside.turns.within (heldBy .firing [dp.pkt])
        (Multiset.add_comm _ _) ?_)
      simp only [Moment.tokens, Locals.tokens_fired]
      exact Multiset.add_comm _ _
  | releasing _ released =>
      rw [quiet]
      induction released with
      | refl => exact .refl _ _
      | tail _ last inductionHypothesis => exact inductionHypothesis.trans (release_turns last)

theorem operate_turns {op : Op} (operated : s.operate op = some next) :
    Turns s.pool s.tokens next.pool next.tokens := by
  cases op with
  | read dir results => exact handleRead_turns operated
  | filter dir fuel =>
      have turns := (looping_of_filterLoop operated).turns rfl
      rw [Moment.tokens, Locals.tokens_idle, Multiset.zero_add] at turns
      exact turns
  | startTimers =>
      cases operated
      rw [startTimers_tokens]
      exact .refl _ _
  | write dir results => exact handleWrite_turns operated
  | fire index writes => exact timeoutCb_turns operated
  | reclaim =>
      cases operated
      unfold reclaim
      split
      · exact s.delete_turns
      · exact .refl _ _

theorem operations_turns {operations : List Op}
    (reached : Run.run operate s operations = some next) :
    Turns s.pool s.tokens next.pool next.tokens :=
  Run.run_invariant (fun t => Turns s.pool s.tokens t.pool t.tokens)
    (fun _ _ _ now operated => now.trans (operate_turns operated)) (.refl _ _) reached

/-- Every callback is a path of elementary steps, and so is every part of it. -/
theorem Passes.turns {callback : Callback} (passes : s.Passes callback m) :
    Turns s.pool s.tokens m.session.pool m.tokens := by
  cases passes with
  | between _ _ reached =>
      rw [Moment.tokens, Locals.tokens_idle, Multiset.zero_add]
      exact operations_turns reached
  | inside _ _ reached inside => exact (operations_turns reached).trans inside.turns

theorem step_turns {callback : Callback} (taken : s.step callback = some next) :
    Turns s.pool s.tokens next.pool next.tokens :=
  operations_turns (step_eq_some.mp taken).2

/-- The ledger of a session, among other owners of packets. -/
def ledger (s : RfSession σ) (others : Multiset (Place × Nat)) : Ledger Place :=
  ⟨s.pool, s.tokens + others⟩

theorem exact_of_reachable {pool : Pool} {flt : RfxFilterChain σ} {others : Multiset (Place × Nat)}
    (before : Ledger.Exact Place.single ⟨pool, others⟩) (reached : Reachable pool flt s) :
    (s.ledger others).Exact Place.single := by
  rcases reached with ⟨callbacks, reached⟩
  have start : (RfSession.start pool flt).ledger others = ⟨pool, others⟩ := by
    have none : (RfSession.start pool flt).tokens = 0 := rfl
    rw [ledger, none, Multiset.zero_add]
    rfl
  exact Run.run_invariant (fun s : RfSession σ => (s.ledger others).Exact Place.single)
    (fun _ _ _ exact taken => exact.path (step_turns taken others exact)) (start.symm ▸ before) reached

end RfSession

/-- The ledger of a moment, among other owners of packets. -/
def Moment.ledger {σ : Type} (m : Moment σ) (others : Multiset (Place × Nat)) : Ledger Place :=
  ⟨m.session.pool, m.tokens + others⟩

/-- Reference counts are exact.  In every run of a session, with any filters that
create packets by `pkt_new` and one `pqh_push` and hold them through events only, and at
every moment of every callback, so also inside `recv`, `filter`, `inject`, `send` and
the callback of a timer: the count of each packet is the number of its owners, the
locals included, no packet is linked in two queues, and no packet was touched after it
was freed.  The last moment is the one in which the callback returns.  Whatever else in
the process holds packets, such as other sessions, is in `others`.  The packet in the
slot `rd` of a receive queue, which no destructor releases, counts as held by that slot
even when the session has been deleted. -/
theorem packet_reference_counts_exact {σ : Type} (pool : Pool) (others : Multiset (Place × Nat))
    (before : Ledger.Exact Place.single ⟨pool, others⟩) (flt : RfxFilterChain σ) (s : RfSession σ)
    (reached : RfSession.Reachable pool flt s) (callback : Callback) :
    (forall m, s.Passes callback m ->
      (forall address, m.session.pool.refc address = (m.ledger others).owners address) ∧
        (forall address, (m.ledger others).links Place.isQueue address ≤ 1) ∧
        m.session.pool.stale = []) ∧
      forall next, s.step callback = some next -> s.Passes callback ⟨next, .idle⟩ := by
  have exact := RfSession.exact_of_reachable before reached
  refine ⟨fun m passes => ?_, fun next taken => RfSession.passes_of_step taken⟩
  have there : (m.ledger others).Exact Place.single := exact.path (passes.turns others exact)
  refine ⟨there.refc_eq, fun address => ?_, there.stale_eq⟩
  exact Nat.le_trans
    (Ledger.links_mono (fun _ queue => Place.single_of_isQueue queue) (m.ledger others) address)
    (there.linked_once address)

/-- A filter that fires an event for every packet, answers the packet a little later, and
drops it in the handler of the event. -/
def dropByEvent : RfxFilter Unit where
  processPkt := fun _ frame =>
    some ⟨[.event 1 [] [] (some frame.pkt.ptr),
      .push false { pktInit 0 4 2 srvToCli with delay := 1 }], (), .decline⟩
  processEvent := fun _ _ ev =>
    some ⟨ev.source.toList.map fun ptr => .store ptr (.drop true), (), .brk⟩

set_option maxRecDepth 20000 in
/-- While the event is queued, the packet has two owners; while the answer is written by its
timer, it has two as well.  In the end neither packet is left. -/
theorem packet_reference_counts_exact_dropped :
    Exists fun first => Exists fun second => Exists fun s : RfSession Unit =>
      Exists fun next => Exists fun filtering : Moment Unit => Exists fun firing : Moment Unit =>
        (RfSession.start Heap.empty [⟨some dropByEvent, ()⟩]).step first = some s ∧
          s.step second = some next ∧
          (RfSession.start Heap.empty [⟨some dropByEvent, ()⟩]).Passes first filtering ∧
          filtering.locals.events.map RfxEvent.source = [some 0] ∧
          filtering.session.pool.refc 0 = 2 ∧ (filtering.ledger 0).owners 0 = 2 ∧
          s.Passes second firing ∧ firing.locals.firing.map RfPacket.ptr = some 1 ∧
          firing.session.pool.refc 1 = 2 ∧ (firing.ledger 0).owners 1 = 2 ∧
          next.pool.log = [.unref 1, .unref 1, .ref 1, .unref 0, .unref 0, .alloc 1, .ref 0, .alloc 0] ∧
          next.pool.stale = [] := by
  let first : Callback := .srv (some
    { reads := [.received [4, 0, 1, 0], .failed .eagain]
      fuel := 1
      own := []
      other := [] }) none
  let second : Callback := .timeout 0 [.accepted 4]
  have taken : Exists fun s => Exists fun next =>
      (RfSession.start Heap.empty [⟨some dropByEvent, ()⟩]).step first = some s ∧
        s.step second = some next ∧ next.pool.log =
          [.unref 1, .unref 1, .ref 1, .unref 0, .unref 0, .alloc 1, .ref 0, .alloc 0] ∧
        Exists fun dp => s.dq.qh[0]? = some dp ∧ dp.active = true ∧ dp.pkt.ptr = 1 ∧
          ((s.removeDelayed 0).pushRef dp.pkt).pool.refc 1 = 2 ∧ s.deleted = false := by
    refine ⟨_, _, rfl, rfl, ?_⟩
    exact ⟨rfl, _, rfl, rfl, rfl, rfl, rfl⟩
  rcases taken with ⟨s, next, firstEq, secondEq, log, dp, found, active, address, twice, live⟩
  have filtering : Exists fun m : Moment Unit =>
      (RfSession.start Heap.empty [⟨some dropByEvent, ()⟩]).Passes first m ∧
        m.locals.events.map RfxEvent.source = [some 0] ∧ m.session.pool.refc 0 = 2 := by
    have calls : (RfSession.start Heap.empty [⟨some dropByEvent, ()⟩]).Calls first :=
      ⟨rfl, by decide⟩
    have ops : RfSession.ops first = [.read srvToCli [.received [4, 0, 1, 0], .failed .eagain]] ++
      .filter srvToCli 1 :: [.startTimers, .write srvToCli [], .write cliToSrv [], .reclaim] := rfl
    have acts (frame : FilterFrame) : [FltAct.event 1 [] [] (some frame.pkt.ptr),
        .push false { pktInit 0 4 2 srvToCli with delay := 1 }] =
          [.event 1 [] [] (some frame.pkt.ptr)] ++
            [.push false { pktInit 0 4 2 srvToCli with delay := 1 }] := rfl
    exact ⟨_, .inside calls ops rfl (.filtering (.inside (.processing
      (.acting rfl rfl (acts _) rfl)))), rfl, rfl⟩
  have firing : s.Passes second ⟨(s.removeDelayed 0).pushRef dp.pkt, .fired dp.pkt⟩ :=
    .inside ⟨live, trivial⟩ (show RfSession.ops second = [] ++ [.fire 0 [.accepted 4]] from rfl) rfl
      (.pushed found active _)
  rcases filtering with ⟨m, passes, event, counted⟩
  have atStart := packet_reference_counts_exact Heap.empty 0 (Ledger.exact_empty _)
    [⟨some dropByEvent, ()⟩] _ ⟨[], rfl⟩ first
  have atTimer := packet_reference_counts_exact Heap.empty 0 (Ledger.exact_empty _)
    [⟨some dropByEvent, ()⟩] s ⟨[first], Run.run_one firstEq⟩ second
  refine ⟨first, second, s, next, m, _, firstEq, secondEq, passes, event, counted, ?_, firing, ?_,
    twice, ?_, log, ?_⟩
  · exact ((atStart.1 m passes).1 0).symm.trans counted
  · exact congrArg some address
  · exact ((atTimer.1 _ firing).1 1).symm.trans twice
  · exact (atTimer.1 _ (atTimer.2 next secondEq)).2.2

end Rfx
