import Rfx.Session

namespace Rfx

open Library

/-!
# Where a session puts its packets

What `inject` does to a list of packets, said once for all states of the two
send queues.  The list goes through `pqh_pull` twice, with a different
direction and a different room in the window each time, and what is left over
goes to the delayed queue.  Composing the two shares of the list gives one
partition of it.
-/

/-- The fate of the packets of a list that is injected: each goes to the send
queue of its direction, is released, or is delayed, and the order is kept
inside each of the four lists. -/
structure Routes (pqh toCli toSrv released delayed : List RfPacket) : Prop where
  perm : pqh.Perm (toCli ++ toSrv ++ released ++ delayed)
  toCli_sublist : toCli.Sublist pqh
  toSrv_sublist : toSrv.Sublist pqh
  delayed_sublist : delayed.Sublist pqh
  of_toCli : forall pkt, pkt ∈ toCli -> Eligible srvToCli 0 pkt ∧ pkt.drop = false
  of_toSrv : forall pkt, pkt ∈ toSrv -> Eligible cliToSrv 0 pkt ∧ pkt.drop = false
  of_released : forall pkt, pkt ∈ released -> pkt.delay = 0 ∧ pkt.drop = true

namespace Routes

variable {pqh toCli toSrv released delayed : List RfPacket}

theorem of_shares {rest first second : List RfPacket}
    (front : Shares srvToCli 0 pqh toCli first rest)
    (back : Shares cliToSrv 0 rest toSrv second delayed) :
    Routes pqh toCli toSrv (first ++ second) delayed where
  perm := by
    have swap : (first ++ toSrv ++ (second ++ delayed)).Perm
        (toSrv ++ first ++ (second ++ delayed)) := List.perm_append_comm.append_right _
    have both : pqh.Perm (toCli ++ first ++ (toSrv ++ second ++ delayed)) :=
      front.perm.trans (back.perm.append_left _)
    simp only [List.append_assoc] at swap both ⊢
    exact both.trans (swap.append_left toCli)
  toCli_sublist := front.moved_sublist
  toSrv_sublist := back.moved_sublist.trans front.kept_sublist
  delayed_sublist := back.kept_sublist.trans front.kept_sublist
  of_toCli := front.of_moved
  of_toSrv := back.of_moved
  of_released := by
    intro pkt member
    rcases List.mem_append.mp member with early | late
    · have fate := front.of_released pkt early
      exact ⟨Nat.le_zero.mp fate.1.1, fate.2⟩
    · have fate := back.of_released pkt late
      exact ⟨Nat.le_zero.mp fate.1.1, fate.2⟩

/-- A packet that is still to be delayed can only be in the last list. -/
theorem mem_delayed (routes : Routes pqh toCli toSrv released delayed) {pkt : RfPacket}
    (member : pkt ∈ pqh) (later : 0 < pkt.delay) : pkt ∈ delayed := by
  have somewhere := routes.perm.mem_iff.mp member
  simp only [List.mem_append] at somewhere
  rcases somewhere with ((cli | srv) | gone) | delayed
  · have due := (routes.of_toCli pkt cli).1.1
    omega
  · have due := (routes.of_toSrv pkt srv).1.1
    omega
  · have due := (routes.of_released pkt gone).1
    omega
  · exact delayed

end Routes

namespace DelayedQueue

/-- The queue after packets were added behind. -/
def append (dq : DelayedQueue) (pkts : List RfPacket) : DelayedQueue where
  qh := dq.qh ++ pkts.map fun pkt => ⟨pkt, false⟩
  hasNew := dq.hasNew || !pkts.isEmpty

theorem pull_eq (dq : DelayedQueue) (src : List RfPacket) : dq.pull src = (dq.append src, []) := by
  induction src generalizing dq with
  | nil => simp [pull, append]
  | cons pkt rest inductionHypothesis =>
      rw [pull, inductionHypothesis]
      simp [append]

@[simp] theorem pkts_append (dq : DelayedQueue) (pkts : List RfPacket) :
    (dq.append pkts).pkts = dq.pkts ++ pkts := by
  simp [append, DelayedQueue.pkts, Function.comp_def]

end DelayedQueue

namespace RfSession

variable {σ : Type} {s : RfSession σ}

/-- Both send queues are in bounds and pull the packets of their direction. -/
structure Formed (s : RfSession σ) : Prop where
  toCli : s.s2c.sndq.InBounds
  toSrv : s.c2s.sndq.InBounds
  toCli_dir : s.s2c.sndq.dir = srvToCli
  toSrv_dir : s.c2s.sndq.dir = cliToSrv

/-- What one call of `inject` does. -/
structure Injects (s next : RfSession σ) (toCli toSrv released delayed : List RfPacket) : Prop where
  toCli : s.s2c.sndq.Appends next.s2c.sndq toCli
  toSrv : s.c2s.sndq.Appends next.c2s.sndq toSrv
  rest : next = { s with
    pool := pqhClear s.pool released
    s2c := { s.s2c with sndq := next.s2c.sndq }
    c2s := { s.c2s with sndq := next.c2s.sndq }
    dq := s.dq.append delayed }

theorem Injects.formed {next : RfSession σ} {toCli toSrv released delayed : List RfPacket}
    (injects : s.Injects next toCli toSrv released delayed) (formed : s.Formed) : next.Formed where
  toCli := injects.toCli.bounds
  toSrv := injects.toSrv.bounds
  toCli_dir := injects.toCli.dir_eq.trans formed.toCli_dir
  toSrv_dir := injects.toSrv.dir_eq.trans formed.toSrv_dir

theorem inject_spec (formed : s.Formed) (pqh : List RfPacket) :
    Exists fun toCli => Exists fun toSrv => Exists fun released => Exists fun delayed =>
      Exists fun next => s.inject pqh = (next, []) ∧ Routes pqh toCli toSrv released delayed ∧
        s.Injects next toCli toSrv released delayed := by
  rcases Sendq.pull_spec formed.toCli s.pool pqh with
    ⟨toCli, first, rest, cliQueue, cliPulled, front, cliAppends⟩
  rcases Sendq.pull_spec formed.toSrv (pqhClear s.pool first) rest with
    ⟨toSrv, second, delayed, srvQueue, srvPulled, back, srvAppends⟩
  rw [formed.toCli_dir] at front
  rw [formed.toSrv_dir] at back
  let next : RfSession σ := { s with
    pool := pqhClear s.pool (first ++ second)
    s2c := { s.s2c with sndq := cliQueue }
    c2s := { s.c2s with sndq := srvQueue }
    dq := s.dq.append delayed }
  refine ⟨toCli, toSrv, first ++ second, delayed, next, ?_, .of_shares front back, ?_⟩
  · simp only [inject, cliPulled, srvPulled, DelayedQueue.pull_eq, next,
      pqhClear_append]
  · exact ⟨cliAppends, srvAppends, rfl⟩

end RfSession

/-- Injection neither loses nor duplicates packets.  For every state of the two
send queues and of the delayed queue and every list, the list is empty
afterwards, and its packets are partitioned: what is appended to a send queue, to
its list and its window alike, is of its direction, due and not to be dropped; what
is released, once each, is to be dropped; everything else, and every packet with a
delay, joins the delayed queue.  The order is kept in each destination, and whatever
the queues contained stays in front. -/
theorem injection_conserves_packets {σ : Type} (s : RfSession σ) (formed : s.Formed)
    (pqh : List RfPacket) :
    Exists fun toCli => Exists fun toSrv => Exists fun released => Exists fun delayed =>
      (s.inject pqh).2 = [] ∧
        pqh.Perm (toCli ++ toSrv ++ released ++ delayed) ∧
        toCli.Sublist pqh ∧ toSrv.Sublist pqh ∧ delayed.Sublist pqh ∧
        (forall pkt, pkt ∈ toCli -> pkt.dir = srvToCli ∧ pkt.delay = 0 ∧ pkt.drop = false) ∧
        (forall pkt, pkt ∈ toSrv -> pkt.dir = cliToSrv ∧ pkt.delay = 0 ∧ pkt.drop = false) ∧
        (forall pkt, pkt ∈ released -> pkt.drop = true) ∧
        (forall pkt, pkt ∈ pqh -> 0 < pkt.delay -> pkt ∈ delayed) ∧
        (s.inject pqh).1.pool = released.foldl pktUnref s.pool ∧
        (s.inject pqh).1.s2c.sndq.pq = s.s2c.sndq.pq ++ toCli ∧
        (s.inject pqh).1.s2c.sndq.window = s.s2c.sndq.window ++ toCli.map .ofPacket ∧
        (s.inject pqh).1.c2s.sndq.pq = s.c2s.sndq.pq ++ toSrv ∧
        (s.inject pqh).1.c2s.sndq.window = s.c2s.sndq.window ++ toSrv.map .ofPacket ∧
        (s.inject pqh).1.dq.qh = s.dq.qh ++ delayed.map fun pkt => ⟨pkt, false⟩ := by
  rcases RfSession.inject_spec formed pqh with
    ⟨toCli, toSrv, released, delayed, next, injected, routes, injects⟩
  have pool : next.pool = pqhClear s.pool released := by rw [injects.rest]
  have qh : next.dq.qh = s.dq.qh ++ delayed.map fun pkt => ⟨pkt, false⟩ := by
    rw [injects.rest]
    rfl
  rw [injected]
  refine ⟨toCli, toSrv, released, delayed, rfl, routes.perm, routes.toCli_sublist,
    routes.toSrv_sublist, routes.delayed_sublist, ?_, ?_, ?_,
    fun pkt member later => routes.mem_delayed member later, pool, injects.toCli.pq_eq,
    injects.toCli.window_eq, injects.toSrv.pq_eq, injects.toSrv.window_eq, qh⟩
  · intro pkt member
    rcases routes.of_toCli pkt member with ⟨⟨due, dir⟩, wanted⟩
    exact ⟨dir, Nat.le_zero.mp due, wanted⟩
  · intro pkt member
    rcases routes.of_toSrv pkt member with ⟨⟨due, dir⟩, wanted⟩
    exact ⟨dir, Nat.le_zero.mp due, wanted⟩
  · intro pkt member
    exact (routes.of_released pkt member).2

/-- Four packets injected into a session that has just started: one for each
pipe, one to be dropped, and one with a delay. -/
theorem injection_conserves_packets_four :
    Exists fun toCli => Exists fun toSrv => Exists fun released => Exists fun delayed =>
      [pktInit 0 6 1 cliToSrv, pktInit 1 5 2 srvToCli,
        { pktInit 2 5 2 srvToCli with drop := true },
        { pktInit 3 5 2 srvToCli with delay := 7 }].Perm
          (toCli ++ toSrv ++ released ++ delayed) ∧
        ((RfSession.start RefCount.Heap.empty ([] : RfxFilterChain Unit)).inject
          [pktInit 0 6 1 cliToSrv, pktInit 1 5 2 srvToCli,
            { pktInit 2 5 2 srvToCli with drop := true },
            { pktInit 3 5 2 srvToCli with delay := 7 }]).2 = [] ∧
        { pktInit 3 5 2 srvToCli with delay := 7 } ∈ delayed := by
  have formed : (RfSession.start RefCount.Heap.empty ([] : RfxFilterChain Unit)).Formed :=
    ⟨Sendq.inBounds_new _, Sendq.inBounds_new _, rfl, rfl⟩
  rcases injection_conserves_packets (RfSession.start RefCount.Heap.empty ([] : RfxFilterChain Unit)) formed
    [pktInit 0 6 1 cliToSrv, pktInit 1 5 2 srvToCli,
      { pktInit 2 5 2 srvToCli with drop := true },
      { pktInit 3 5 2 srvToCli with delay := 7 }] with
    ⟨toCli, toSrv, released, delayed, empty, perm, _, _, _, _, _, _, later, _⟩
  exact ⟨toCli, toSrv, released, delayed, perm, empty, later _ (by simp) (by decide)⟩

end Rfx
