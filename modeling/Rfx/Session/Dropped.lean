import Mathlib.Data.List.Induction
import Rfx.Session.Points
import Rfx.Session.Watchers

namespace Rfx

open Library

/-!
# Where the sent bytes come from

A packet is placed when it is in the list of a send queue at some moment of a callback, and
`writev` takes the bytes of packets that were placed.  `filter` places no packet that is
marked `drop`: it pushes a source packet only when the mark is not set, and `pqh_pull` looks
at the mark of every packet that it moves.  The timer of a delayed packet does not look at
the mark, and a packet can reach the delayed queue with the mark set.
-/

/-! ## Bytes and packets -/

/-- Some bytes from the start of an entry. -/
def Iovec.shorten (iov : Iovec) (count : Nat) : Iovec where
  pkt := iov.pkt
  off := iov.off
  len := min count iov.len
  inside := by
    have := iov.inside
    omega

theorem Iovec.bytes_shorten (iov : Iovec) (count : Nat) :
    (iov.shorten count).bytes = iov.bytes.take count := by
  simp only [bytes, shorten, List.take_take]

/-- The first bytes of some entries are the bytes of some entries of the same
packets. -/
theorem take_iovBytes (iovs : List Iovec) (count : Nat) :
    Exists fun pieces => (iovBytes iovs).take count = iovBytes pieces ∧
      forall piece, piece ∈ pieces -> Exists fun iov => iov ∈ iovs ∧ piece.pkt = iov.pkt := by
  induction iovs generalizing count with
  | nil => exact ⟨[], List.take_nil, fun _ member => absurd member List.not_mem_nil⟩
  | cons first rest inductionHypothesis =>
      rcases inductionHypothesis (count - first.len) with ⟨pieces, same, from_⟩
      refine ⟨first.shorten count :: pieces, ?_, ?_⟩
      · rw [iovBytes_cons, iovBytes_cons, List.take_append, Iovec.length_bytes, same,
          Iovec.bytes_shorten]
      · intro piece member
        rcases List.mem_cons.mp member with head | tail
        · exact ⟨first, List.mem_cons_self, head ▸ rfl⟩
        · rcases from_ piece tail with ⟨iov, old, pkt⟩
          exact ⟨iov, List.mem_cons_of_mem _ old, pkt⟩

/-- A send queue and what its descriptor accepted, in terms of the packets that
were placed in it. -/
structure Origin (placed : RfPacket -> Prop) (q : Sendq) (out : List Byte) : Prop where
  pq : forall pkt, pkt ∈ q.pq -> placed pkt
  window : forall iov, iov ∈ q.window -> placed iov.pkt
  out : Exists fun pieces => out = iovBytes pieces ∧
    forall piece, piece ∈ pieces -> placed piece.pkt

namespace Origin

variable {placed : RfPacket -> Prop} {q : Sendq} {out : List Byte}

theorem new (placed : RfPacket -> Prop) (dir : Dir) : Origin placed (.new dir) [] where
  pq := fun _ member => absurd member List.not_mem_nil
  window := fun iov member => by
    rw [Sendq.window_new] at member
    exact absurd member List.not_mem_nil
  out := ⟨[], rfl, fun _ member => absurd member List.not_mem_nil⟩

theorem enter {pool : Pool} (origin : Origin placed q out) (bounds : q.InBounds) :
    Origin placed (SendState.enter ⟨pool, q, out⟩).q (SendState.enter ⟨pool, q, out⟩).out := by
  unfold SendState.enter
  split
  · refine ⟨origin.pq, ?_, origin.out⟩
    intro iov member
    rw [Sendq.window_fill bounds.size] at member
    rcases List.mem_map.mp member with ⟨pkt, first, same⟩
    exact same ▸ origin.pq pkt (List.mem_of_mem_take first)
  · exact origin

/-- Every entry of the window after a call of `writev` describes a packet that
the window described before, or that was in the list. -/
theorem body {st next : SendState} {result : WritevResult} {value : Option Int}
    (origin : Origin placed st.q st.out) (bounds : st.q.InBounds)
    (taken : st.body result = some (next, value)) : Origin placed next.q next.out := by
  cases result with
  | failed errno =>
      rw [(SendState.body_failed taken).1]
      exact origin
  | accepted bytes =>
      rcases SendState.body_accepted bounds taken with ⟨_, _, _, _, _, outEq, accepts⟩
      have written : Exists fun pieces => next.out = iovBytes pieces ∧
          forall piece, piece ∈ pieces -> placed piece.pkt := by
        rcases origin.out with ⟨old, same, from_⟩
        rcases take_iovBytes st.q.window bytes with ⟨new, taken, fromWindow⟩
        refine ⟨old ++ new, by rw [outEq, same, taken, iovBytes_append], ?_⟩
        intro piece member
        rcases List.mem_append.mp member with before | now
        · exact from_ piece before
        · rcases fromWindow piece now with ⟨iov, described, pkt⟩
          exact pkt ▸ origin.window iov described
      cases accepts with
      | whole _ refilled _ pq =>
          refine ⟨fun pkt member => origin.pq pkt (List.mem_of_mem_drop (pq ▸ member)), ?_, written⟩
          intro iov member
          rw [refilled] at member
          rcases List.mem_map.mp member with ⟨pkt, first, same⟩
          exact same ▸ origin.pq pkt (List.mem_of_mem_drop (List.mem_of_mem_take first))
      | partly k left iov rest _ stops _ _ moved _ pq =>
          refine ⟨fun pkt member => origin.pq pkt (List.mem_of_mem_drop (pq ▸ member)), ?_, written⟩
          have described {other : Iovec} (member : other ∈ iov :: rest) : other ∈ st.q.window :=
            List.mem_of_mem_drop (stops ▸ member)
          intro other member
          rw [moved] at member
          rcases List.mem_cons.mp member with head | tail
          · exact head ▸ origin.window iov (described List.mem_cons_self)
          · exact origin.window other (described (List.mem_cons_of_mem _ tail))

theorem send {st final : SendState} {results : List WritevResult} {value : Int}
    (origin : Origin placed st.q st.out) (bounds : st.q.InBounds)
    (sent : st.send results = some (final, value)) : Origin placed final.q final.out :=
  (SendState.send_rule (fun st => st.q.InBounds ∧ Origin placed st.q st.out)
    (fun _ now => ⟨SendState.inBounds_enter now.1, now.2.enter now.1⟩)
    (fun _ _ _ _ now taken => ⟨SendState.inBounds_body now.1 taken, now.2.body now.1 taken⟩)
    ⟨bounds, origin⟩ sent).2

end Origin

namespace SendState

/-- The loops of `send` only take packets away. -/
theorem Discarding.subset {n bytes : Nat} {pool : Pool} {q : Sendq} {p : Pool × Sendq × Nat}
    (discarding : Discarding n pool q bytes p) {pkt : RfPacket} (member : pkt ∈ p.2.1.pq) :
    pkt ∈ q.pq := by
  induction discarding with
  | here => exact member
  | @discarded _ _ pool q _ _ _ inductionHypothesis =>
      have left := inductionHypothesis member
      cases shape : q.pq with
      | nil =>
          rw [shape] at left
          exact left
      | cons first rest =>
          rw [shape] at left
          exact List.mem_cons_of_mem first left

theorem Sending.subset {st p : SendState} {results : List WritevResult} (sending : Sending st results p)
    {pkt : RfPacket} (member : pkt ∈ p.q.pq) : pkt ∈ st.q.pq := by
  induction sending with
  | here => exact member
  | discarding _ _ inside => exact inside.subset member
  | @again st _ _ result _ _ taken _ inductionHypothesis =>
      have left := inductionHypothesis member
      cases result with
      | failed errno =>
          rw [(body_failed taken).1] at left
          exact left
      | accepted bytes =>
          rw [(body_pq taken).2] at left
          exact (discarding_discardSent st.q.svc st.pool st.q bytes).subset left

end SendState

namespace RfSession

variable {σ : Type} {s next : RfSession σ}

/-! ## What filtering places -/

/-- Packets were appended to the list of the pipe of `dir`, and only they joined its window. -/
structure Gains (dir : Dir) (s next : RfSession σ) (pkts : List RfPacket) : Prop where
  pq_eq : (next.pipe dir).sndq.pq = (s.pipe dir).sndq.pq ++ pkts
  window : forall iov, iov ∈ (next.pipe dir).sndq.window ->
    iov ∈ (s.pipe dir).sndq.window ∨ iov.pkt ∈ pkts
  written_eq : (next.pipe dir).written = (s.pipe dir).written

namespace Gains

variable {dir : Dir} {t : RfSession σ} {pkts more : List RfPacket}

theorem trans (first : Gains dir s t pkts) (second : Gains dir t next more) :
    Gains dir s next (pkts ++ more) where
  pq_eq := by rw [second.pq_eq, first.pq_eq, List.append_assoc]
  window := by
    intro iov member
    rcases second.window iov member with old | new
    · rcases first.window iov old with older | mid
      · exact Or.inl older
      · exact Or.inr (List.mem_append_left _ mid)
    · exact Or.inr (List.mem_append_right _ new)
  written_eq := second.written_eq.trans first.written_eq

/-- Nothing about sending changed. -/
theorem nothing (sndq : (next.pipe dir).sndq = (s.pipe dir).sndq)
    (written : (next.pipe dir).written = (s.pipe dir).written) : Gains dir s next [] where
  pq_eq := by rw [sndq, List.append_nil]
  window := fun _ member => Or.inl (sndq ▸ member)
  written_eq := written

/-- The new packets joined the window too, as whole entries. -/
theorem appends (appends : (s.pipe dir).sndq.Appends (next.pipe dir).sndq pkts)
    (written : (next.pipe dir).written = (s.pipe dir).written) : Gains dir s next pkts where
  pq_eq := appends.pq_eq
  window := by
    intro iov member
    rw [appends.window_eq] at member
    rcases List.mem_append.mp member with old | new
    · exact Or.inl old
    · rcases List.mem_map.mp new with ⟨pkt, among, same⟩
      exact Or.inr (same ▸ among)
  written_eq := written

theorem injected {pqh : List RfPacket} (injected : s.Injected pqh next) (dir : Dir) :
    Exists fun pkts => Gains dir s next pkts := by
  rcases injected with ⟨toCli, toSrv, _, _, _, injects⟩
  by_cases isCli : dir = srvToCli
  · refine ⟨toCli, .appends ?_ ?_⟩
    · simpa only [pipe, if_pos isCli] using injects.toCli
    · rw [injects.rest]
      simp only [pipe, if_pos isCli]
  · refine ⟨toSrv, .appends ?_ ?_⟩
    · simpa only [pipe, if_neg isCli] using injects.toSrv
    · rw [injects.rest]
      simp only [pipe, if_neg isCli]

theorem dispose (s : RfSession σ) (own dir : Dir) (pkt : RfPacket) :
    Exists fun pkts => Gains dir s (s.dispose own pkt) pkts := by
  have stored := pipe_dispose s own dir pkt
  by_cases pushed : pkt.drop = false ∧ side dir = side own
  · rw [if_pos pushed] at stored
    refine ⟨[pkt], by rw [stored]; rfl, ?_, by rw [stored]; rfl⟩
    intro iov member
    rw [stored] at member
    exact Or.inl member
  · rw [if_neg pushed] at stored
    exact ⟨[], .nothing (by rw [stored]) (by rw [stored])⟩

theorem route (formed : s.Formed) (own dir : Dir) (frame : FilterFrame) :
    Exists fun pkts => Gains dir s (s.route own frame) pkts := by
  rcases route_spec formed own frame with ⟨middle, before, after⟩
  rcases injected before dir with ⟨first, gainsFirst⟩
  rcases dispose middle own dir frame.pkt with ⟨second, gainsSecond⟩
  rcases injected after dir with ⟨third, gainsThird⟩
  exact ⟨_, (gainsFirst.trans gainsSecond).trans gainsThird⟩

theorem popIn (s : RfSession σ) (own dir : Dir) (rest : List RfPacket) :
    Gains dir s (s.popIn own rest) [] := by
  by_cases same : side dir = side own
  · have stored : (s.popIn own rest).pipe dir =
        { s.pipe dir with rcvq := { (s.pipe dir).rcvq with pq := rest } } := by
      rw [RfSession.popIn, pipe_of_side _ same, pipe_setPipe, pipe_of_side s same]
    exact .nothing (by rw [stored]) (by rw [stored])
  · have stored : (s.popIn own rest).pipe dir = s.pipe dir := pipe_setPipe_of_ne _ same _
    exact .nothing (by rw [stored]) (by rw [stored])

theorem handleRead {own : Dir} {results : List ReadvResult}
    (read : s.handleRead own results = some next) (dir : Dir) : Gains dir s next [] := by
  rcases handleRead_spec read with ⟨answer, answerEq, same⟩
  rcases ProxyPipe.handleReadEvent_spec answerEq with ⟨_, reads, _⟩
  have stored : next.pipe dir = (s.setPipe own answer.2).pipe dir := by
    rw [same]
    rfl
  by_cases here : side dir = side own
  · rw [pipe_of_side (s.setPipe own _) here, pipe_setPipe] at stored
    have written : answer.2.written = (s.pipe own).written := by rw [reads.rest]
    refine .nothing ?_ ?_
    · rw [stored, reads.sndq_eq, pipe_of_side s here]
    · rw [stored, written, pipe_of_side s here]
  · rw [pipe_setPipe_of_ne _ here] at stored
    exact .nothing (by rw [stored]) (by rw [stored])

theorem filterPkt (sound : s.Sound) {own : Dir} {fuel : Nat} {pkt : RfPacket}
    (filtered : s.filterPkt own fuel pkt = some next) (dir : Dir) :
    Exists fun pkts => Gains dir s next pkts := by
  rcases filterPkt_spec filtered with ⟨_, handled, _, _, same⟩
  rcases route ((sound.with_pool_flt handled.pool handled.flt).formed) own dir handled.frame with
    ⟨added, gained⟩
  have chained : Gains dir s ({ s with pool := handled.pool, flt := handled.flt } : RfSession σ) [] :=
    .nothing rfl rfl
  exact ⟨_, same ▸ chained.trans gained⟩

end Gains

/-- The timer that fires, if one does, is that of a packet not marked `drop`. -/
def SparesDropped (s : RfSession σ) : Callback -> Prop
  | .timeout index _ => forall dp, s.dq.qh[index]? = some dp -> dp.pkt.drop = false
  | _ => True

/-! ## How a packet gets delayed -/

/-- A packet that is due and goes the right way is left only without room. -/
theorem full_of_pqhPull_src (dir : Dir) (outvSz i : Nat) (pool : Pool) (src dst : List RfPacket)
    {pkt : RfPacket} (member : pkt ∈ (pqhPull dir outvSz 0 i pool src dst).src)
    (due : pkt.delay = 0) (towards : pkt.dir = dir) :
    outvSz ≤ i + (pqhPull dir outvSz 0 i pool src dst).outv.length := by
  induction src generalizing i pool dst with
  | nil => exact absurd member List.not_mem_nil
  | cons p rest inductionHypothesis =>
      unfold pqhPull at member ⊢
      split
      · rename_i full
        exact Nat.le_trans full (Nat.le_add_right _ _)
      · rename_i room
        rw [if_neg room] at member
        split
        · rename_i later
          rw [if_pos later] at member
          rcases List.mem_cons.mp member with head | tail
          · subst head
            omega
          · exact inductionHypothesis i pool dst tail
        · rename_i now
          rw [if_neg now] at member
          split
          · rename_i same
            rw [if_pos same] at member
            split
            · rename_i dropped
              rw [if_pos dropped] at member
              exact inductionHypothesis i _ dst member
            · rename_i wanted
              rw [if_neg wanted] at member
              have filled := inductionHypothesis (i + 1) pool (pqhPush dst p) member
              simp only [Pulled.describe, List.length_cons]
              omega
          · rename_i away
            rw [if_neg away] at member
            rcases List.mem_cons.mp member with head | tail
            · exact absurd (head ▸ towards) away
            · exact inductionHypothesis i pool dst tail

/-- What a pull leaves has a delay or another direction, or the window is full. -/
theorem full_of_pull_src {q : Sendq} (pool : Pool) (src : List RfPacket) {pkt : RfPacket}
    (member : pkt ∈ (q.pull pool src).2.2) (due : pkt.delay = 0) (towards : pkt.dir = q.dir) :
    wrivcnt ≤ (q.pull pool src).2.1.svc := by
  have same : q.compact.dir = q.dir ∧ q.compact.svc = q.svc := by
    unfold Sendq.compact
    split <;> exact ⟨rfl, rfl⟩
  unfold Sendq.pull at member ⊢
  split
  · rename_i room
    rw [if_pos room] at member
    have filled := full_of_pqhPull_src _ _ _ _ _ _ member due (towards.trans same.1.symm)
    simp only at filled ⊢
    omega
  · rename_i full
    exact Nat.le_of_not_lt full

/-- A list that is injected leaves a packet to the delayed queue only with a
delay, or with neither direction, or with the window of its pipe full. -/
theorem delayed_of_inject (formed : s.Formed) (pqh : List RfPacket) :
    Exists fun delayed => (s.inject pqh).1.dq.pkts = s.dq.pkts ++ delayed ∧
      forall pkt, pkt ∈ delayed -> 0 < pkt.delay ∨ pkt.dir ≠ srvToCli ∧ pkt.dir ≠ cliToSrv ∨
        wrivcnt ≤ ((s.inject pqh).1.pipe pkt.dir).sndq.svc := by
  let toCli := s.s2c.sndq.pull s.pool pqh
  let toSrv := s.c2s.sndq.pull toCli.1 toCli.2.2
  refine ⟨toSrv.2.2, ?_, ?_⟩
  · simp only [inject, DelayedQueue.pull_eq, DelayedQueue.pkts_append, toSrv, toCli]
  · intro pkt member
    by_cases due : pkt.delay = 0
    · by_cases isCli : pkt.dir = srvToCli
      · rcases Sendq.pull_spec formed.toSrv toCli.1 toCli.2.2 with
          ⟨_, _, kept, _, pulled, shares, _⟩
        have left : pkt ∈ toCli.2.2 := by
          simp only [toSrv, pulled] at member
          exact shares.kept_sublist.mem member
        have full := full_of_pull_src s.pool pqh left due (isCli.trans formed.toCli_dir.symm)
        right
        right
        rw [pipe, if_pos isCli]
        exact full
      · by_cases isSrv : pkt.dir = cliToSrv
        · have full := full_of_pull_src toCli.1 toCli.2.2 member due
            (isSrv.trans formed.toSrv_dir.symm)
          right
          right
          rw [pipe, if_neg isCli]
          exact full
        · exact Or.inr (Or.inl ⟨isCli, isSrv⟩)
    · exact Or.inl (Nat.pos_of_ne_zero due)

/-! ## Marks -/

/-- No packet in a send queue is marked `drop`. -/
def Unmarked (s : RfSession σ) : Prop :=
  forall dir pkt, pkt ∈ (s.pipe dir).sndq.pq -> pkt.drop = false

namespace Unmarked

theorem setPipe (unmarked : s.Unmarked) (own : Dir) {p : ProxyPipe}
    (new : forall pkt, pkt ∈ p.sndq.pq -> pkt.drop = false) : (s.setPipe own p).Unmarked := by
  intro dir pkt member
  rw [pipe_setPipe_eq] at member
  split at member
  · exact new pkt member
  · exact unmarked dir pkt member

theorem popIn (unmarked : s.Unmarked) (own : Dir) (rest : List RfPacket) : (s.popIn own rest).Unmarked :=
  unmarked.setPipe own (unmarked own)

/-- Only packets that are not marked are moved. -/
theorem pull (unmarked : s.Unmarked) (own : Dir) (pool : Pool) (src : List RfPacket) {pkt : RfPacket}
    (member : pkt ∈ ((s.pipe own).sndq.pull pool src).2.1.pq) : pkt.drop = false := by
  rcases (s.pipe own).sndq.pull_shares pool src with ⟨moved, _, _, shares, _, pqEq, _⟩
  rw [pqEq] at member
  rcases List.mem_append.mp member with old | new
  · exact unmarked own pkt old
  · exact (shares.of_moved pkt new).2

variable {pqh left : List RfPacket}

theorem pulling (unmarked : s.Unmarked) {own : Dir} (pulling : s.Pulling own pqh next left) :
    next.Unmarked := by
  cases pulling with
  | here => exact unmarked
  | looked _ pulled =>
      cases pulled
      exact unmarked.setPipe own fun _ member => unmarked.pull own _ _ member

theorem injectPipe (unmarked : s.Unmarked) (own : Dir) (pqh : List RfPacket) :
    (s.injectPipe own pqh).1.Unmarked :=
  unmarked.setPipe own fun _ member => unmarked.pull own _ _ member

theorem injecting (unmarked : s.Unmarked) (injecting : s.Injecting pqh next left) : next.Unmarked := by
  cases injecting with
  | toCli inside => exact unmarked.pulling inside
  | toSrv cliEq inside =>
      subst cliEq
      exact (unmarked.injectPipe srvToCli pqh).pulling inside
  | delayed cliEq srvEq _ =>
      subst cliEq srvEq
      exact (unmarked.injectPipe srvToCli pqh).injectPipe cliToSrv _

/-- The source packet is pushed only if it is not marked. -/
theorem dispose (unmarked : s.Unmarked) (own : Dir) (pkt : RfPacket) : (s.dispose own pkt).Unmarked := by
  unfold RfSession.dispose
  split
  · exact unmarked
  · rename_i wanted
    refine unmarked.setPipe own fun other member => ?_
    rcases List.mem_append.mp member with old | new
    · exact unmarked own other old
    · rw [List.mem_singleton.mp new]
      exact Bool.eq_false_iff.mpr wanted

theorem filtering (unmarked : s.Unmarked) {own : Dir} {fuel : Nat} {pkt : RfPacket} {m : Moment σ}
    (filtering : s.Filtering own fuel pkt m) : m.session.Unmarked := by
  cases filtering with
  | processing => exact unmarked
  | handling => exact unmarked
  | @before _ handled _ _ _ _ inside =>
      have chained : (s.inChain handled).Unmarked := unmarked
      exact chained.injecting inside
  | @after _ handled _ _ _ _ inside =>
      have chained : (s.inChain handled).Unmarked := unmarked
      have early := chained.injecting (injecting_inject _ handled.frame.pre)
      exact (early.dispose own handled.frame.pkt).injecting inside

theorem looping (unmarked : s.Unmarked) {own : Dir} {fuel : Nat} {pkts : List RfPacket} {m : Moment σ}
    (looping : Looping own fuel pkts s m) : m.session.Unmarked := by
  induction looping with
  | here => exact unmarked
  | inside filtering => exact (unmarked.popIn own _).filtering filtering
  | next filtered _ inductionHypothesis =>
      exact inductionHypothesis ((unmarked.popIn own _).filtering (filtering_of_filterPkt filtered))

theorem writing (unmarked : s.Unmarked) {own : Dir} {results : List WritevResult}
    (writing : s.Writing own results next) : next.Unmarked := by
  cases writing with
  | here => exact unmarked
  | sending inside =>
      refine unmarked.setPipe own fun pkt member => unmarked own pkt ?_
      have old := inside.subset member
      unfold SendState.enter at old
      split at old <;> exact old

theorem pushRef (unmarked : s.Unmarked) {pkt : RfPacket} (wanted : pkt.drop = false) :
    (s.pushRef pkt).Unmarked := by
  have counted : ({ s with pool := pktRef s.pool pkt } : RfSession σ).Unmarked := unmarked
  refine counted.setPipe pkt.dir fun other member => ?_
  rcases List.mem_append.mp member with old | new
  · exact unmarked pkt.dir other old
  · rw [List.mem_singleton.mp new]
    exact wanted

theorem handleRead (unmarked : s.Unmarked) {own : Dir} {results : List ReadvResult}
    (read : s.handleRead own results = some next) : next.Unmarked := by
  intro dir pkt member
  rw [(Gains.handleRead read dir).pq_eq, List.append_nil] at member
  exact unmarked dir pkt member

theorem handleWrite (unmarked : s.Unmarked) {own : Dir} {results : List WritevResult}
    (written : s.handleWrite own results = some next) : next.Unmarked := by
  rcases handleWrite_spec written with ⟨st, value, sendEq, same⟩
  have sent := unmarked.writing (.sending (SendState.sending_of_sendLoop sendEq))
  intro dir pkt member
  rw [same, ProxyPipe.afterSend_eq] at member
  change pkt ∈ ((s.setPipe own _).pipe dir).sndq.pq at member
  have left := sent dir pkt
  change pkt ∈ ((s.setPipe own _).pipe dir).sndq.pq -> pkt.drop = false at left
  rw [pipe_setPipe_eq] at member left
  split at member
  · rename_i same
    rw [if_pos same] at left
    exact left member
  · exact unmarked dir pkt member

theorem release (unmarked : s.Unmarked) (released : s.release = some next) : next.Unmarked := by
  have toCli : forall pkt, pkt ∈ s.s2c.sndq.pq -> pkt.drop = false := unmarked srvToCli
  have toSrv : forall pkt, pkt ∈ s.c2s.sndq.pq -> pkt.drop = false := unmarked cliToSrv
  have both {t : RfSession σ} (cli : forall pkt, pkt ∈ t.s2c.sndq.pq -> pkt ∈ s.s2c.sndq.pq)
      (srv : forall pkt, pkt ∈ t.c2s.sndq.pq -> pkt ∈ s.c2s.sndq.pq) : t.Unmarked := by
    intro dir pkt member
    unfold RfSession.pipe at member
    split at member
    · exact toCli pkt (cli pkt member)
    · exact toSrv pkt (srv pkt member)
  unfold RfSession.release at released
  split at released <;> cases released
  · exact both (fun _ member => member) (fun _ member => member)
  · exact both (fun _ member => member) (fun _ member => member)
  · rename_i queue
    exact both (fun _ member => queue ▸ List.mem_cons_of_mem _ member) (fun _ member => member)
  · exact both (fun _ member => member) (fun _ member => member)
  · rename_i queue
    exact both (fun _ member => member) (fun _ member => queue ▸ List.mem_cons_of_mem _ member)

theorem delete (s : RfSession σ) : s.delete.Unmarked := by
  intro dir pkt member
  unfold RfSession.pipe at member
  split at member <;> exact absurd member List.not_mem_nil

end Unmarked

/-- The timer that fires, if one does, is that of a packet not marked `drop`. -/
def Spares (s : RfSession σ) : Op -> Prop
  | .fire index _ => forall dp, s.dq.qh[index]? = some dp -> dp.pkt.drop = false
  | _ => True

theorem Unmarked.inside (unmarked : s.Unmarked) {op : Op} {m : Moment σ} (spares : s.Spares op)
    (inside : s.Inside op m) : m.session.Unmarked := by
  cases inside with
  | @reading dir _ p _ => exact unmarked.setPipe dir (unmarked dir)
  | filtering looping => exact unmarked.looping looping
  | writing inside => exact unmarked.writing inside
  | removed => exact unmarked
  | @emitting index _ dp _ found _ _ inside =>
      have removed : (s.removeDelayed index).Unmarked := unmarked
      exact (removed.pushRef (spares dp found)).writing inside
  | releasing _ released =>
      induction released with
      | refl => exact unmarked
      | tail _ last inductionHypothesis => exact inductionHypothesis.release last

theorem Unmarked.operate (unmarked : s.Unmarked) {op : Op} (spares : s.Spares op)
    (operated : s.operate op = some next) : next.Unmarked := by
  cases op with
  | read dir results => exact unmarked.handleRead operated
  | filter dir fuel => exact unmarked.looping (looping_of_filterLoop operated)
  | startTimers =>
      cases operated
      exact unmarked
  | write dir results => exact unmarked.handleWrite operated
  | fire index writes =>
      rcases timeoutCb_spec operated with ⟨dp, emitted, found, _, emitEq, same⟩
      have removed : (s.removeDelayed index).Unmarked := unmarked
      have written : emitted.Unmarked := (removed.pushRef (spares dp found)).handleWrite emitEq
      rw [same]
      exact written
  | reclaim =>
      cases operated
      unfold reclaim
      split
      · exact .delete s
      · exact unmarked

/-- A callback spares marked packets if its operations do. -/
theorem spares_ops (s : RfSession σ) (callback : Callback) (spares : s.SparesDropped callback) :
    Run.Meets RfSession.operate Spares s (ops callback) := by
  have io (own other : Dir) (read : Option ReadEvent) (write : Option (List WritevResult)) :
      Run.Meets RfSession.operate Spares s (ioOps own other read write ++ [.reclaim]) := by
    cases read <;> cases write <;> simp [ioOps, Run.Meets, Spares]
  cases callback with
  | cli read write => exact io _ _ read write
  | srv read write => exact io _ _ read write
  | timeout index writes => exact ⟨spares, fun _ _ => trivial⟩

/-- No packet that is marked is in a send queue at any moment of a callback. -/
theorem Unmarked.passes (unmarked : s.Unmarked) {callback : Callback} {m : Moment σ}
    (spares : s.SparesDropped callback) (passes : s.Passes callback m) : m.session.Unmarked := by
  have met := spares_ops s callback spares
  have operations {done : List Op} {t : RfSession σ} (met : Run.Meets RfSession.operate Spares s done)
      (reached : Run.run RfSession.operate s done = some t) : t.Unmarked :=
    Run.run_invariant_of_meets Unmarked (fun _ _ _ now spares operated => now.operate spares operated)
      unmarked met reached
  cases passes with
  | between _ split reached =>
      rw [split, Run.meets_append] at met
      exact operations met.1 reached
  | inside _ split reached inside =>
      rw [split, Run.meets_append] at met
      exact (operations met.1 reached).inside (met.2 _ reached).1 inside

/-! ## Runs -/

/-- Both queues, and the bytes that both descriptors accepted, in terms of placed packets. -/
def Traced (placed : Dir -> RfPacket -> Prop) (s : RfSession σ) : Prop :=
  forall dir, Origin (placed dir) (s.pipe dir).sndq (s.pipe dir).written

namespace Traced

variable {placed : Dir -> RfPacket -> Prop}

theorem gains (traced : Traced placed s)
    (gains : forall dir, Exists fun pkts => Gains dir s next pkts)
    (listed : forall dir pkt, pkt ∈ (next.pipe dir).sndq.pq -> placed dir pkt) :
    Traced placed next := by
  intro dir
  rcases gains dir with ⟨pkts, gained⟩
  refine ⟨listed dir, ?_, ?_⟩
  · intro iov member
    rcases gained.window iov member with early | late
    · exact (traced dir).window iov early
    · apply listed dir iov.pkt
      rw [gained.pq_eq]
      exact List.mem_append_right _ late
  · rw [gained.written_eq]
    exact (traced dir).out

/-- One pipe is written, after something may have been pushed to it. -/
theorem write (traced : Traced placed s) {own : Dir} {pool : Pool} {q : Sendq} {st : SendState}
    {results : List WritevResult} {value : Int} (bounds : q.InBounds)
    (origin : forall dir, side dir = side own -> Origin (placed dir) q (s.pipe own).written)
    (sent : SendState.send ⟨pool, q, (s.pipe own).written⟩ results = some (st, value))
    (stored : forall dir, next.pipe dir = (s.setPipe own
      (({ s.pipe own with sndq := st.q, written := st.out } : ProxyPipe).afterSend value)).pipe dir) :
    Traced placed next := by
  intro dir
  rw [stored dir, pipe_setPipe_eq]
  by_cases here : side dir = side own
  · rw [if_pos here, ProxyPipe.afterSend_eq]
    exact (origin dir here).send bounds sent
  · rw [if_neg here]
    exact traced dir

theorem handleWrite (traced : Traced placed s) (formed : s.Formed) {own : Dir}
    {results : List WritevResult} (written : s.handleWrite own results = some next) :
    Traced placed next := by
  rcases handleWrite_spec written with ⟨st, value, sendEq, same⟩
  refine traced.write (formed.bounds own) ?_ sendEq ?_
  · intro dir here
    exact pipe_of_side s here ▸ traced dir
  · intro dir
    rw [same]
    rfl

/-- Every packet that a walk through the receive queue has pushed was there to be seen. -/
theorem filterLoop (traced : Traced placed s) (sound : s.Sound) {own : Dir} {fuel : Nat}
    {pkts : List RfPacket}
    (listed : forall m, Looping own fuel pkts s m -> forall dir pkt,
      pkt ∈ (m.session.pipe dir).sndq.pq -> placed dir pkt)
    (looped : RfSession.filterLoop own fuel pkts s = some next) : next.Sound ∧ Traced placed next := by
  induction pkts generalizing s with
  | nil =>
      cases looped
      exact ⟨sound, traced⟩
  | cons pkt rest inductionHypothesis =>
      rw [RfSession.filterLoop, Option.bind_eq_some_iff] at looped
      rcases looped with ⟨middle, filtered, later⟩
      have popped := sound.popIn own rest
      have gains (dir : Dir) : Exists fun pkts => Gains dir s middle pkts := by
        rcases Gains.filterPkt popped filtered dir with ⟨pkts, gained⟩
        exact ⟨_, (Gains.popIn s own dir rest).trans gained⟩
      have there := listed ⟨middle, .idle⟩ (.next filtered (.here _ _))
      refine inductionHypothesis (traced.gains gains there) (popped.filterPkt filtered) ?_ later
      exact fun m looping => listed m (.next filtered looping)

theorem timeoutCb (traced : Traced placed s) (formed : s.Formed) {index : Nat}
    {writes : List WritevResult}
    (listed : forall m, s.Inside (.fire index writes) m -> forall dir pkt,
      pkt ∈ (m.session.pipe dir).sndq.pq -> placed dir pkt)
    (taken : s.timeoutCb index writes = some next) : Traced placed next := by
  rcases timeoutCb_spec taken with ⟨dp, emitted, found, active, emitEq, same⟩
  rcases emit_spec emitEq with ⟨st, value, sendEq, emittedEq⟩
  have bounds := formed.bounds dp.pkt.dir
  have removed : Traced placed (s.removeDelayed index) := traced
  have pushed : (((s.removeDelayed index).pipe dp.pkt.dir).sndq.pushOut dp.pkt).InBounds :=
    ⟨bounds.size, bounds.within, bounds.at_start⟩
  refine removed.write pushed ?_ sendEq ?_
  · intro dir here
    have origin : Origin (placed dir) (s.pipe dp.pkt.dir).sndq (s.pipe dp.pkt.dir).written :=
      pipe_of_side s here ▸ traced dir
    refine ⟨?_, origin.window, origin.out⟩
    intro pkt member
    apply listed _ (.pushed found active _) dir pkt
    rw [pushRef, pipe_setPipe_eq, if_pos here]
    exact member
  · intro dir
    rw [same, emittedEq]
    rfl

theorem delete (traced : Traced placed s) : Traced placed s.delete := by
  intro dir
  have old := traced dir
  unfold pipe at old ⊢
  split
  · rename_i isCli
    rw [if_pos isCli] at old
    exact ⟨fun _ member => absurd member List.not_mem_nil, old.window, old.out⟩
  · rename_i isSrv
    rw [if_neg isSrv] at old
    exact ⟨fun _ member => absurd member List.not_mem_nil, old.window, old.out⟩

/-- An I/O callback places packets in `filter`. -/
theorem ioCb (traced : Traced placed s) (sound : s.Sound) {own other : Dir}
    {read : Option ReadEvent} {write : Option (List WritevResult)}
    (listed : forall event t m, read = some event -> s.handleRead own event.reads = some t ->
      t.Inside (.filter own event.fuel) m -> forall dir pkt,
        pkt ∈ (m.session.pipe dir).sndq.pq -> placed dir pkt)
    (taken : s.ioCb own other read write = some next) :
    (next.Sound ∨ next.deleted = true) ∧ Traced placed next := by
  rcases ioCb_spec taken with ⟨middle, last, middleEq, lastEq, same⟩
  have afterRead : middle.Sound ∧ Traced placed middle := by
    cases read with
    | none =>
        cases middleEq
        exact ⟨sound, traced⟩
    | some event =>
        rcases readBranch_spec middleEq with
          ⟨received, filtered, written, readEq, filterEq, ownEq, otherEq⟩
        have receivedTraced : Traced placed received := by
          intro dir
          have quiet := Gains.handleRead readEq dir
          refine ⟨?_, ?_, ?_⟩
          · rw [quiet.pq_eq, List.append_nil]
            exact (traced dir).pq
          · intro iov member
            exact (quiet.window iov member).elim ((traced dir).window iov)
              fun none => absurd none List.not_mem_nil
          · rw [quiet.written_eq]
            exact (traced dir).out
        rcases receivedTraced.filterLoop (sound.handleRead readEq)
          (fun m looping => listed event received m rfl readEq (.filtering looping)) filterEq with
          ⟨filteredSound, filteredTraced⟩
        have started := filteredSound.startTimers
        have startedTraced : Traced placed ({ filtered with dq := filtered.dq.start } : RfSession σ) :=
          filteredTraced
        have writtenSound := started.handleWrite ownEq
        exact ⟨writtenSound.handleWrite otherEq,
          (startedTraced.handleWrite started.formed ownEq).handleWrite writtenSound.formed otherEq⟩
  have afterWrite : last.Sound ∧ Traced placed last := by
    cases write with
    | none =>
        cases lastEq
        exact afterRead
    | some results =>
        exact ⟨afterRead.1.handleWrite lastEq, afterRead.2.handleWrite afterRead.1.formed lastEq⟩
  rw [reclaim] at same
  split at same
  · rw [same]
    exact ⟨Or.inr rfl, afterWrite.2.delete⟩
  · rw [same]
    exact ⟨Or.inl afterWrite.1, afterWrite.2⟩

/-- One callback, if what is in a send queue at one of its moments counts as placed. -/
theorem step (traced : Traced placed s) (sound : s.Sound) {callback : Callback}
    (listed : forall m, s.Passes callback m -> forall dir pkt,
      pkt ∈ (m.session.pipe dir).sndq.pq -> placed dir pkt)
    (taken : s.step callback = some next) :
    (next.Sound ∨ next.deleted = true) ∧ Traced placed next := by
  have calls := (step_eq_some.mp taken).1
  have afterRead {own : Dir} {event : ReadEvent} {t : RfSession σ} (later : List Op) {m : Moment σ}
      (split : ops callback = [.read own event.reads] ++ .filter own event.fuel :: later)
      (readEq : s.handleRead own event.reads = some t)
      (inside : t.Inside (.filter own event.fuel) m) : s.Passes callback m := by
    have received : Run.run operate s [.read own event.reads] = some t := Run.run_one readEq
    exact .inside calls split received inside
  cases (step_spec taken).2 with
  | cli called =>
      refine traced.ioCb sound (fun event t m reads readEq inside => ?_) called
      subst reads
      exact listed m (afterRead _ rfl readEq inside)
  | srv called =>
      refine traced.ioCb sound (fun event t m reads readEq inside => ?_) called
      subst reads
      exact listed m (afterRead _ rfl readEq inside)
  | @timeout index writes called =>
      refine ⟨Or.inl (sound.timeoutCb called), traced.timeoutCb sound.formed (fun m inside => ?_) called⟩
      have split : ops (.timeout index writes) = [] ++ [.fire index writes] := rfl
      exact listed m (.inside calls split rfl inside)

end Traced

/-- The packet is in the send queue of the pipe of `dir` at some moment of the run. -/
inductive PlacedInRun (start : RfSession σ) (callbacks : List Callback) (dir : Dir) (pkt : RfPacket) :
    Prop
  | intro {done later : List Callback} {callback : Callback} {s : RfSession σ} {m : Moment σ}
      (split : callbacks = done ++ callback :: later)
      (reached : Run.run step start done = some s) (passes : s.Passes callback m)
      (listed : pkt ∈ (m.session.pipe dir).sndq.pq)

/-- A timer that fires places its packet, whatever is written then. -/
theorem PlacedInRun.of_timeout {start : RfSession σ} {callbacks : List Callback} {index : Nat}
    {dp : DelayedPkt} (reached : Run.run step start callbacks = some s) (live : s.deleted = false)
    (found : s.dq.qh[index]? = some dp) (active : dp.active = true) (writes : List WritevResult) :
    PlacedInRun start (callbacks ++ [.timeout index writes]) dp.pkt.dir dp.pkt := by
  have split : ops (.timeout index writes) = [] ++ [.fire index writes] := rfl
  refine .intro rfl reached (.inside ⟨live, trivial⟩ split rfl (.pushed found active _)) ?_
  rw [pushRef, pipe_setPipe]
  exact List.mem_append_right _ List.mem_cons_self

/-- Any number of callbacks. -/
theorem traced_run {start : RfSession σ} {callbacks : List Callback} (sound : start.Sound)
    (traced : start.Traced (PlacedInRun start callbacks))
    (reached : Run.run step start callbacks = some s) :
    (s.Sound ∨ s.deleted = true) ∧ s.Traced (PlacedInRun start callbacks) := by
  have front (done later : List Callback) (split : callbacks = done ++ later) {t : RfSession σ}
      (reached : Run.run step start done = some t) :
      (t.Sound ∨ t.deleted = true) ∧ t.Traced (PlacedInRun start callbacks) := by
    induction done using List.reverseRecOn generalizing later t with
    | nil =>
        cases reached
        exact ⟨Or.inl sound, traced⟩
    | append_singleton done callback inductionHypothesis =>
        rcases Run.run_append.mp reached with ⟨before, beforeEq, stepped⟩
        rcases Run.run_cons_eq_some.mp stepped with ⟨after, taken, same⟩
        cases same
        rw [List.append_assoc] at split
        rcases inductionHypothesis _ split beforeEq with ⟨live, now⟩
        rcases live with live | deleted
        · exact now.step live (fun _ passes _ _ listed => .intro split beforeEq passes listed) taken
        · rw [(step_spec taken).1] at deleted
          cases deleted
  exact front callbacks [] (List.append_nil _).symm reached

/-- What a run that spares marked packets has in its queues is not marked. -/
theorem unmarked_run {start : RfSession σ} {callbacks : List Callback} (unmarked : start.Unmarked)
    (met : Run.Meets step SparesDropped start callbacks)
    (reached : Run.run step start callbacks = some s) : s.Unmarked :=
  Run.run_invariant_of_meets Unmarked
    (fun _ _ _ now spares taken => now.passes spares (passes_of_step taken)) unmarked met reached

theorem unmarked_of_placedInRun {start : RfSession σ} {callbacks : List Callback}
    (unmarked : start.Unmarked) (met : Run.Meets step SparesDropped start callbacks) {dir : Dir}
    {pkt : RfPacket} (placed : PlacedInRun start callbacks dir pkt) : pkt.drop = false := by
  cases placed with
  | intro split reached passes listed =>
      rw [split, Run.meets_append] at met
      exact (unmarked_run unmarked met.1 reached).passes (met.2 _ reached).1 passes dir pkt listed

/-- A callback has no marked packet in a send queue, at any of its moments, exactly if it is
not the timer of one. -/
theorem passes_unmarked_iff (unmarked : s.Unmarked) {callback : Callback}
    (taken : s.step callback = some next) :
    (forall m, s.Passes callback m -> m.session.Unmarked) <-> s.SparesDropped callback := by
  refine ⟨fun all => ?_, fun spares m passes => unmarked.passes spares passes⟩
  rcases step_eq_some.mp taken with ⟨calls, _⟩
  cases (step_spec taken).2 with
  | cli => exact trivial
  | srv => exact trivial
  | @timeout index writes called =>
      rcases timeoutCb_spec called with ⟨dp, _, found, active, _, _⟩
      intro dp' found'
      cases found.symm.trans found'
      have split : ops (.timeout index writes) = [] ++ [.fire index writes] := rfl
      apply all _ (.inside calls split rfl (.pushed found active _)) dp.pkt.dir dp.pkt
      rw [pushRef, pipe_setPipe]
      exact List.mem_append_right _ List.mem_cons_self

end RfSession

/-- A packet that is marked `drop` is never sent in any run in which no timer fires for one.
Every entry of both windows and every byte that was written comes from a packet that was in
the send queue at some moment of the run, and no such packet is marked.  And in every state
of such a run, the next callback puts no marked packet into a send queue, at any of its
moments, exactly if it is not such a timer. -/
theorem dropped_never_sent {σ : Type} (pool : Pool) (flt : RfxFilterChain σ)
    (callbacks : List Callback) (s : RfSession σ)
    (met : Run.Meets RfSession.step RfSession.SparesDropped (.start pool flt) callbacks)
    (reached : Run.run RfSession.step (.start pool flt) callbacks = some s) :
    (forall dir, Origin (RfSession.PlacedInRun (.start pool flt) callbacks dir)
        (s.pipe dir).sndq (s.pipe dir).written) ∧
      (forall dir pkt, RfSession.PlacedInRun (.start pool flt) callbacks dir pkt ->
        pkt.drop = false) ∧
      forall callback next, s.step callback = some next ->
        ((forall m, s.Passes callback m -> forall dir pkt,
            pkt ∈ (m.session.pipe dir).sndq.pq -> pkt.drop = false) <->
          s.SparesDropped callback) := by
  have pipes (dir : Dir) : ((RfSession.start pool flt).pipe dir).sndq = .new (RfSession.side dir) ∧
      ((RfSession.start pool flt).pipe dir).written = [] := by
    unfold RfSession.pipe RfSession.side
    split <;> exact ⟨rfl, rfl⟩
  have unmarked : (RfSession.start pool flt).Unmarked := by
    intro dir pkt member
    rw [(pipes dir).1] at member
    exact absurd member List.not_mem_nil
  have traced : (RfSession.start pool flt).Traced
      (RfSession.PlacedInRun (.start pool flt) callbacks) := by
    intro dir
    rw [(pipes dir).1, (pipes dir).2]
    exact .new _ _
  refine ⟨(RfSession.traced_run (.start pool flt) traced reached).2,
    fun dir pkt placed => RfSession.unmarked_of_placedInRun unmarked met placed,
    fun callback next taken => ?_⟩
  exact RfSession.passes_unmarked_iff (RfSession.unmarked_run unmarked met reached) taken

/-- A filter that drops every packet, with a packet in its place that is marked too, and has
one sent later that is not. -/
def dropAndReplace : RfxFilter Unit where
  processPkt := fun _ frame =>
    some ⟨[.store frame.pkt.ptr (.drop true),
      .push false { pktInit 0 4 3 srvToCli with drop := true },
      .push true { pktInit 0 4 2 srvToCli with delay := 1 }], (), .decline⟩
  processEvent := fun _ _ _ => some ⟨[], (), .decline⟩

set_option maxRecDepth 20000 in
/-- The server sends one packet.  Of three packets, only the one that its timer sends is ever
placed and written; the marked ones are released unsent. -/
theorem dropped_never_sent_replaced :
    Exists fun callbacks => Exists fun s => Exists fun late : RfPacket =>
      Run.run RfSession.step (.start RefCount.Heap.empty [⟨some dropAndReplace, ()⟩]) callbacks = some s ∧
        Origin (RfSession.PlacedInRun (.start RefCount.Heap.empty [⟨some dropAndReplace, ()⟩])
          callbacks srvToCli) s.s2c.sndq s.s2c.written ∧
        (forall dir pkt, RfSession.PlacedInRun
          (.start RefCount.Heap.empty [⟨some dropAndReplace, ()⟩]) callbacks dir pkt ->
            pkt.drop = false) ∧
        RfSession.PlacedInRun (.start RefCount.Heap.empty [⟨some dropAndReplace, ()⟩]) callbacks
          srvToCli late ∧
        s.s2c.written = late.wire ∧
        s.pool.log = [.unref 2, .unref 2, .ref 2, .unref 0, .unref 1, .alloc 2, .alloc 1, .alloc 0] := by
  let first : Callback := .srv (some
    { reads := [.received [4, 0, 1, 0], .failed .eagain]
      fuel := 1
      own := []
      other := [] }) none
  let second : Callback := .timeout 0 [.accepted 4]
  have taken : Exists fun s => Exists fun next =>
      (RfSession.start RefCount.Heap.empty [⟨some dropAndReplace, ()⟩]).step first = some s ∧
        s.step second = some next ∧ s.deleted = false ∧ (Exists fun dp => s.dq.qh[0]? = some dp ∧
          dp.active = true ∧ dp.pkt.drop = false ∧ dp.pkt.dir = srvToCli ∧
          next.s2c.written = dp.pkt.wire) ∧
        next.pool.log =
          [.unref 2, .unref 2, .ref 2, .unref 0, .unref 1, .alloc 2, .alloc 1, .alloc 0] := by
    refine ⟨_, _, rfl, rfl, rfl, ⟨_, rfl, rfl, rfl, rfl, rfl⟩, rfl⟩
  rcases taken with ⟨s, next, firstEq, secondEq, live, ⟨dp, found, active, wanted, dir, written⟩, log⟩
  have met : Run.Meets RfSession.step RfSession.SparesDropped
      (.start RefCount.Heap.empty [⟨some dropAndReplace, ()⟩]) [first, second] := by
    refine ⟨trivial, fun t taken => ⟨fun other there => ?_, fun _ _ => trivial⟩⟩
    cases firstEq.symm.trans taken
    cases found.symm.trans there
    exact wanted
  have reached : Run.run RfSession.step
      (.start RefCount.Heap.empty [⟨some dropAndReplace, ()⟩]) [first, second] = some next :=
    Run.run_two firstEq secondEq
  have kept := dropped_never_sent RefCount.Heap.empty [⟨some dropAndReplace, ()⟩] [first, second] next
    met reached
  refine ⟨[first, second], next, dp.pkt, reached, kept.1 srvToCli, kept.2.1, ?_, written, log⟩
  have alone : Run.run RfSession.step
      (.start RefCount.Heap.empty [⟨some dropAndReplace, ()⟩]) [first] = some s :=
    Run.run_one firstEq
  exact dir ▸ RfSession.PlacedInRun.of_timeout alone live found active [.accepted 4]

/-- A filter that answers every packet with a packet that is marked, to be sent
a little later. -/
def markedReply : RfxFilter Unit where
  processPkt := fun _ _ =>
    some ⟨[.push false { pktInit 0 4 2 srvToCli with drop := true, delay := 1 }], (), .decline⟩
  processEvent := fun _ _ _ => some ⟨[], (), .decline⟩

set_option maxRecDepth 20000 in
/-- The server sends one packet; the timer of the marked reply fires, and the
reply is placed and written. -/
theorem marked_reply_is_sent :
    Exists fun callbacks => Exists fun s => Exists fun reply : RfPacket =>
      Run.run RfSession.step (RfSession.start RefCount.Heap.empty [⟨some markedReply, ()⟩])
        callbacks = some s ∧ reply.drop = true ∧
          RfSession.PlacedInRun (.start RefCount.Heap.empty [⟨some markedReply, ()⟩]) callbacks
            srvToCli reply ∧
          s.s2c.written = [4, 0, 1, 0] ++ reply.wire := by
  let first : Callback := .srv (some
    { reads := [.received [4, 0, 1, 0], .failed .eagain]
      fuel := 1
      own := [.accepted 4]
      other := [] }) none
  let second : Callback := .timeout 0 [.accepted 4]
  have taken : Exists fun s => Exists fun next =>
      (RfSession.start RefCount.Heap.empty [⟨some markedReply, ()⟩]).step first = some s ∧
        s.step second = some next ∧ s.deleted = false ∧ Exists fun dp => s.dq.qh[0]? = some dp ∧
          dp.active = true ∧ dp.pkt.drop = true ∧ dp.pkt.dir = srvToCli ∧
          next.s2c.written = [4, 0, 1, 0] ++ dp.pkt.wire :=
    ⟨_, _, rfl, rfl, rfl, _, rfl, rfl, rfl, rfl, rfl⟩
  rcases taken with ⟨s, next, firstEq, secondEq, live, dp, found, active, marked, dir, written⟩
  refine ⟨[first, second], next, dp.pkt, Run.run_two firstEq secondEq, marked, ?_, written⟩
  have alone : Run.run RfSession.step
      (.start RefCount.Heap.empty [⟨some markedReply, ()⟩]) [first] = some s :=
    Run.run_one firstEq
  exact dir ▸ RfSession.PlacedInRun.of_timeout alone live found active [.accepted 4]

end Rfx
