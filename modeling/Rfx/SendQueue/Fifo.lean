import Rfx.SendQueue.Outcome
import Rfx.SendQueue.Window

namespace Rfx

open Library

/-!
# The order in which a send queue writes its packets

The bytes accepted so far and the bytes still pending together are the wire
bytes of everything that was appended to the list.  `send` keeps this in every
state.  `push_out` keeps it because it appends behind both the window and the
list.  `pull` appends an entry to the window and its packet to the list; the
two positions agree only if the window already covers the whole list.
Otherwise the pulled packet is written before the packets between the window
and itself, and the packets discarded for its entry are not the ones written.
-/

namespace Sendq

/-- `pull` moves no packet: the window is full, or no packet of the source
queue is due, of this direction and wanted. -/
def PullsNothing (q : Sendq) (src : List RfPacket) : Prop :=
  q.svc = wrivcnt ∨ forall pkt, pkt ∈ src -> ¬ (Eligible q.dir 0 pkt ∧ pkt.drop = false)

/-- The window has an entry for every packet of the list, or nothing is pulled. -/
def PullsInOrder (q : Sendq) (src : List RfPacket) : Prop :=
  q.svc = q.pq.length ∨ q.PullsNothing src

/-- Nothing is moved under `PullsNothing`. -/
theorem PullsNothing.moved_eq_nil {q next : Sendq} {src moved released kept : List RfPacket}
    (nothing : q.PullsNothing src) (shares : Shares q.dir 0 src moved released kept)
    (appends : q.Appends next moved) : moved = [] := by
  rcases nothing with full | noneDue
  · have within := appends.bounds.within
    have count := appends.svc_eq
    exact List.eq_nil_of_length_eq_zero (by omega)
  · cases moved with
    | nil => rfl
    | cons pkt later =>
        have member : pkt ∈ pkt :: later := List.mem_cons_self
        exact absurd (shares.of_moved pkt member)
          (noneDue pkt (shares.moved_sublist.subset member))

end Sendq

/-- Accepted and pending bytes are the bytes of all appended packets, in the
order of appending. -/
structure FifoInv (st : SendState) (appended : List RfPacket) : Prop where
  counted : st.q.Counted
  bytes : st.out ++ st.q.pending = wireBytes appended

namespace FifoInv

variable {st : SendState} {appended : List RfPacket}

theorem new (pool : Pool) (dir : Dir) : FifoInv ⟨pool, .new dir, []⟩ [] where
  counted := .new dir
  bytes := by
    simp only [Sendq.pending, Sendq.window_new]
    rfl

theorem pushOut (inv : FifoInv st appended) (pkt : RfPacket) :
    FifoInv { st with q := st.q.pushOut pkt } (appended ++ [pkt]) where
  counted := inv.counted.pushOut pkt
  bytes := by
    have behind : (st.q.pushOut pkt).pending = st.q.pending ++ pkt.wire :=
      inv.counted.pending_pushOut pkt
    rw [wireBytes_append, ← inv.bytes, behind]
    simp

theorem pull (inv : FifoInv st appended) (src : List RfPacket) (ordered : st.q.PullsInOrder src) :
    FifoInv { st with pool := (st.q.pull st.pool src).1, q := (st.q.pull st.pool src).2.1 }
      (appended ++ (st.q.pull st.pool src).2.1.pq.drop st.q.pq.length) := by
  rcases Sendq.pull_spec inv.counted.bounds st.pool src with
    ⟨moved, released, kept, next, pulled, shares, appends⟩
  rw [pulled]
  simp only [appends.pq_eq, List.drop_left]
  refine ⟨inv.counted.appends appends, ?_⟩
  rw [wireBytes_append, ← inv.bytes]
  simp only [Sendq.pending, appends.window_eq, appends.pq_eq, appends.svc_eq, iovBytes_append,
    iovBytes_ofPacket]
  rcases ordered with covered | nothing
  · have behind : (st.q.pq ++ moved).drop (st.q.svc + moved.length) = [] := by
      rw [covered, ← List.length_append, List.drop_length]
    rw [behind, covered, List.drop_length]
    simp only [wireBytes_nil, List.append_nil, List.append_assoc]
  · have none := nothing.moved_eq_nil shares appends
    subst none
    simp

theorem enter (inv : FifoInv st appended) : FifoInv st.enter appended where
  counted := SendState.counted_enter inv.counted
  bytes := (SendState.enter_conserves inv.counted.bounds).trans inv.bytes

theorem body (inv : FifoInv st appended) {result : WritevResult} {next : SendState}
    {value : Option Int} (taken : st.body result = some (next, value)) :
    FifoInv next appended where
  counted := SendState.counted_body inv.counted taken
  bytes := (SendState.body_conserves inv.counted.bounds taken).trans inv.bytes

/-- When nothing is left in the list, everything has been written. -/
theorem out_eq_of_drained (inv : FifoInv st appended) (drained : st.q.pq = []) :
    st.out = wireBytes appended := by
  rw [← inv.bytes, inv.counted.pending_eq_nil drained, List.append_nil]

end FifoInv

/-- What every step of a run keeps: the order of the bytes, and what is known
while `send` runs and when it has returned zero. -/
structure FifoRunInv (run : SendqRun) : Prop where
  inv : FifoInv run.st run.appended
  filled : run.sending = true -> run.st.Filled
  drained : run.returned = some 0 -> run.st.q.svc = 0 ∧ run.st.q.pq = []

namespace FifoRunInv

theorem loopHead {run : SendqRun} {st : SendState} (inv : FifoInv st run.appended)
    (filled : st.Filled) : FifoRunInv (run.loopHead st) where
  inv := inv
  filled := fun _ => filled
  drained := by
    intro returned
    simp only [SendqRun.loopHead] at returned ⊢
    split at returned
    · rename_i empty
      exact ⟨empty, filled empty⟩
    · cases returned

/-- The condition on a step under which the order is kept. -/
def InOrder (run : SendqRun) : SendqOp -> Prop
  | .pull src => run.st.q.PullsInOrder src
  | _ => True

theorem step {run next : SendqRun} {op : SendqOp} (now : FifoRunInv run)
    (ordered : InOrder run op) (taken : run.step op = some next) : FifoRunInv next := by
  have inv : FifoInv next.st next.appended :=
    SendqRun.step_invariant FifoInv (fun st src => st.q.PullsInOrder src)
      (fun _ _ pkt now => now.pushOut pkt) (fun _ _ src now ordered => now.pull src ordered)
      (fun _ _ now => now.enter) (fun _ _ _ _ _ now bodyEq => now.body bodyEq)
      now.inv (fun src same => by subst same; exact ordered) taken
  cases op with
  | pushOut pkt =>
      simp only [SendqRun.step] at taken
      split at taken
      · cases taken
      · rename_i idle
        cases taken
        exact ⟨inv, fun sending => absurd sending idle, fun returned => by cases returned⟩
  | pull src =>
      simp only [SendqRun.step] at taken
      split at taken
      · cases taken
      · rename_i idle
        cases taken
        exact ⟨inv, fun sending => absurd sending idle, fun returned => by cases returned⟩
  | send =>
      simp only [SendqRun.step] at taken
      split at taken
      · cases taken
      · cases taken
        exact loopHead inv (SendState.filled_enter _)
  | writev result =>
      simp only [SendqRun.step] at taken
      split at taken
      · rename_i sending
        split at taken
        · cases taken
        · rename_i bodyEq
          cases taken
          exact loopHead inv (SendState.filled_body now.inv.counted.bounds (now.filled sending) bodyEq)
        · rename_i last value bodyEq
          cases taken
          have filled := SendState.filled_body now.inv.counted.bounds (now.filled sending) bodyEq
          refine ⟨inv, fun busy => (by cases busy), fun returned => ?_⟩
          have zero : value = 0 := Option.some.inj returned
          cases result with
          | accepted bytes =>
              have none := (SendState.body_accepted now.inv.counted.bounds bodyEq).1
              cases none
          | failed errno =>
              rcases SendState.body_failed bodyEq with ⟨same, ⟨none, _⟩ | ⟨count, _⟩ | ⟨error, _⟩⟩
              · cases none
              · have empty : last.q.svc = 0 := by
                  rw [same]
                  have := Option.some.inj count
                  omega
                exact ⟨empty, filled empty⟩
              · have := Option.some.inj error
                omega
      · cases taken

end FifoRunInv

/-- The send queue is a faithful first-in first-out queue in every run that
pulls packets only while the window has an entry for every packet of the list:
at every point the accepted bytes are a prefix of the bytes of the appended
packets in their order, and all of them when `send` has returned zero. -/
theorem send_queue_fifo (pool : Pool) (dir : Dir) (ops : List SendqOp) (run : SendqRun)
    (ordered : Run.Meets SendqRun.step FifoRunInv.InOrder (SendqRun.start pool dir) ops)
    (reached : Run.run SendqRun.step (SendqRun.start pool dir) ops = some run) :
    run.st.out <+: wireBytes run.appended ∧
      (run.returned = some 0 -> run.st.out = wireBytes run.appended) := by
  have start : FifoRunInv (SendqRun.start pool dir) :=
    ⟨.new pool dir, fun sending => (by cases sending), fun returned => (by cases returned)⟩
  have final := Run.run_invariant_of_meets FifoRunInv
    (fun _ _ _ now ordered taken => now.step ordered taken) start ordered reached
  refine ⟨⟨run.st.q.pending, final.inv.bytes⟩, ?_⟩
  intro returned
  rcases final.drained returned with ⟨empty, drained⟩
  exact final.inv.out_eq_of_drained drained

/-- A pull into an empty queue, then one more packet pushed, then everything sent. -/
theorem send_queue_fifo_pull_first :
    Exists fun run : SendqRun => run.returned = some 0 ∧ run.appended.length = 2 ∧
      run.st.out = wireBytes run.appended := by
  let ops : List SendqOp := [.pull [pktInit 0 6 1 cliToSrv], .pushOut (pktInit 1 5 2 cliToSrv),
    .send, .writev (.accepted 6), .writev (.accepted 5)]
  have ordered : Run.Meets SendqRun.step FifoRunInv.InOrder
      (SendqRun.start RefCount.Heap.empty cliToSrv) ops := by
    refine ⟨Or.inl rfl, fun first _ => ⟨trivial, fun second _ => ⟨trivial, fun third _ => ?_⟩⟩⟩
    exact ⟨trivial, fun fourth _ => ⟨trivial, fun _ _ => trivial⟩⟩
  have sent := send_queue_fifo RefCount.Heap.empty cliToSrv ops _ ordered rfl
  exact ⟨_, rfl, rfl, sent.2 rfl⟩

/-- A packet is pushed and another one pulled behind it.  The pulled packet is
written first, the pushed one is discarded for it, and the pulled one is written
a second time: `send` returns zero, and the pushed packet was never written. -/
theorem pulled_packet_replaces_pushed_packet :
    Exists fun ops => Exists fun run : SendqRun =>
      Run.run SendqRun.step (SendqRun.start RefCount.Heap.empty cliToSrv) ops = some run ∧
        run.appended = [pktInit 0 6 1 cliToSrv, pktInit 1 5 2 cliToSrv] ∧
        run.returned = some 0 ∧
        run.st.out = (pktInit 1 5 2 cliToSrv).wire ++ (pktInit 1 5 2 cliToSrv).wire ∧
        ¬ run.st.out <+: wireBytes run.appended := by
  let ops : List SendqOp := [.pushOut (pktInit 0 6 1 cliToSrv), .pull [pktInit 1 5 2 cliToSrv],
    .send, .writev (.accepted 5), .writev (.accepted 5)]
  exact ⟨ops, _, rfl, rfl, rfl, rfl, by decide⟩

end Rfx
