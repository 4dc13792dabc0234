import Rfx.Session.Ownership

namespace Rfx

open Library Library.RefCount

/-!
# The end of a session

The destructors of a session release what is in its queues.  The packet that a
receive queue is in the middle of has a place of its own, which they do not look
at.
-/

/-- How often a packet has been released. -/
def unrefs (pool : Pool) (address : Nat) : Nat :=
  pool.log.count (.unref address)

theorem unrefs_pqhClear (pool : Pool) (pkts : List RfPacket) (address : Nat) :
    unrefs (pqhClear pool pkts) address =
      unrefs pool address + (pkts.map RfPacket.ptr).count address := by
  induction pkts generalizing pool with
  | nil => rfl
  | cons pkt pkts inductionHypothesis =>
      have first : unrefs (pktUnref pool pkt) address =
          unrefs pool address + if pkt.ptr = address then 1 else 0 := by
        rw [unrefs, pktUnref, Heap.unref, List.count_cons, unrefs]
        simp
      have rest := inductionHypothesis (pktUnref pool pkt)
      rw [first] at rest
      rw [List.map_cons, List.count_cons]
      simp only [beq_iff_eq]
      exact rest.trans (by omega)

namespace RfSession

variable {σ : Type} {s : RfSession σ}

/-- A packet that the session still owns. -/
def Owns (s : RfSession σ) (address : Nat) : Prop :=
  Exists fun place => (place, address) ∈ s.tokens

/-- Between two callbacks nobody but queues, slots and timers holds a packet. -/
theorem single_of_mem_tokens {token : Place × Nat} (held : token ∈ s.tokens) :
    token.1.single = true := by
  have ofHeld {place : Place} {pkts : List RfPacket} (single : place.single = true)
      (member : token ∈ heldBy place pkts) : token.1.single = true := by
    rcases List.mem_map.mp (Multiset.mem_coe.mp member) with ⟨address, _, rfl⟩
    exact single
  simp only [tokens, ProxyPipe.tokens, Recvq.tokens, Multiset.mem_add] at held
  rcases held with (((queued | reading) | sending) | ((queued | reading) | sending)) | delayed
  all_goals exact ofHeld rfl ‹_›

variable {pool : Pool} {flt : RfxFilterChain σ} {others : Multiset (Place × Nat)}

/-- What the session owns, nobody else does. -/
theorem not_held_by_others (before : Ledger.Exact Place.single ⟨pool, others⟩)
    (reached : Reachable pool flt s) {address : Nat} (own : s.Owns address) (place : Place) :
    (place, address) ∉ others := by
  intro other
  rcases own with ⟨source, own⟩
  -- If anybody else had the packet, it could as well have been linked there.
  rcases before.link_one other .pre .event rfl with ⟨others', before', linked⟩
  have once := (exact_of_reachable before' reached).linked_once address
  rw [Ledger.links, ledger, Multiset.countP_add] at once
  have here : 0 < s.tokens.countP fun token => Place.single token.1 = true ∧ token.2 = address :=
    Multiset.countP_pos.mpr ⟨_, own, single_of_mem_tokens own, rfl⟩
  have there : 0 < others'.countP fun token => Place.single token.1 = true ∧ token.2 = address :=
    Multiset.countP_pos.mpr ⟨_, linked, rfl, rfl⟩
  omega

/-- What the session owns, it owns in one place. -/
theorem owners_tokens (before : Ledger.Exact Place.single ⟨pool, others⟩)
    (reached : Reachable pool flt s) {address : Nat} (own : s.Owns address) :
    Ledger.owners ⟨s.pool, s.tokens⟩ address = 1 := by
  rcases own with ⟨source, own⟩
  have once := (exact_of_reachable before reached).linked_once address
  rw [Ledger.links, ledger, Multiset.countP_add] at once
  have same : (s.tokens.countP fun token => Place.single token.1 = true ∧ token.2 = address) =
      Ledger.owners ⟨s.pool, s.tokens⟩ address := by
    refine Multiset.countP_congr rfl fun token held => ?_
    simp only [single_of_mem_tokens held, true_and]
  have positive : 0 < Ledger.owners ⟨s.pool, s.tokens⟩ address := Ledger.owners_pos_of_mem own
  omega

/-- The destructors release each packet once for each place that they look at. -/
theorem unrefs_delete (s : RfSession σ) (address : Nat) :
    unrefs s.delete.pool address + Ledger.owners ⟨s.pool, s.delete.tokens⟩ address =
      unrefs s.pool address + Ledger.owners ⟨s.pool, s.tokens⟩ address := by
  rw [tokens_eq_delete s, pool_delete]
  simp only [unrefs_pqhClear, Ledger.owners_add, heldBy, Ledger.owners_hold]
  omega

/-- Stopping and destroying a session that started with `pool` releases everything:
what it owns goes with one release, and nothing that it has created stays. -/
structure TornDown (pool : Pool) (s : RfSession σ) : Prop where
  released : forall address, s.Owns address ->
    s.delete.pool.refc address = 0 ∧ unrefs s.delete.pool address = unrefs s.pool address + 1
  nothing_live : forall address, pool.next ≤ address -> s.delete.pool.refc address = 0

theorem owns_of_mem_delete {token : Place × Nat} (held : token ∈ s.delete.tokens) : s.Owns token.2 := by
  refine ⟨token.1, ?_⟩
  rw [tokens_eq_delete s]
  exact Multiset.mem_add.mpr (Or.inr held)

theorem tokens_delete_eq_zero :
    s.delete.tokens = 0 <-> s.c2s.rcvq.rd = none ∧ s.s2c.rcvq.rd = none := by
  have slot (place : Place) (rd : Option RfPacket) : (heldBy place rd.toList).card = 0 <-> rd = none := by
    cases rd with
    | none => exact iff_of_true rfl rfl
    | some rd => exact iff_of_false Nat.one_ne_zero (Option.some_ne_none rd)
  rw [tokens_delete, ← Multiset.card_eq_zero, Multiset.card_add, Nat.add_eq_zero_iff, slot, slot]

end RfSession

/-- The destructors release everything exactly if no packet is in the middle of
being received. -/
theorem teardown_releases_iff {σ : Type} {pool : Pool} {others : Multiset (Place × Nat)}
    (before : Ledger.Exact Place.single ⟨pool, others⟩) {flt : RfxFilterChain σ} {s : RfSession σ}
    (reached : RfSession.Reachable pool flt s) :
    RfSession.TornDown pool s <-> s.c2s.rcvq.rd = none ∧ s.s2c.rcvq.rd = none := by
  have live := RfSession.exact_of_reachable before reached
  have after : Ledger.Exact Place.single ⟨s.delete.pool, s.delete.tokens + others⟩ :=
    live.path (s.delete_turns others live)
  rw [← RfSession.tokens_delete_eq_zero]
  constructor
  · intro down
    refine Multiset.eq_zero_of_forall_notMem fun token held => ?_
    have alive := after.live (Multiset.mem_add.mpr (Or.inl held))
    rw [(down.released token.2 (RfSession.owns_of_mem_delete held)).1] at alive
    exact absurd alive (Nat.lt_irrefl 0)
  · intro nothing
    rw [nothing, Multiset.zero_add] at after
    have unowned {address : Nat} (free : forall place, (place, address) ∉ others) :
        s.delete.pool.refc address = 0 := by
      have counted : s.delete.pool.refc address = Ledger.owners ⟨s.delete.pool, others⟩ address :=
        after.refc_eq address
      rw [counted, Ledger.owners, Multiset.countP_eq_zero]
      rintro ⟨place, held⟩ member same
      exact free place (same ▸ member)
    constructor
    · intro address own
      refine ⟨unowned fun place => RfSession.not_held_by_others before reached own place, ?_⟩
      have releases := s.unrefs_delete address
      rw [RfSession.owners_tokens before reached own, nothing] at releases
      exact releases
    · intro address created
      apply unowned
      intro place held
      have alive := before.live held
      rw [before.unallocated address created] at alive
      exact absurd alive (Nat.lt_irrefl 0)

/-- A filter that answers every packet a little later. -/
def answerLater : RfxFilter Unit where
  processPkt := fun _ _ => some ⟨[.push false { pktInit 0 4 2 srvToCli with delay := 5 }], (), .decline⟩
  processEvent := fun _ _ _ => some ⟨[], (), .decline⟩

set_option maxRecDepth 20000 in
/-- Of two packets from the server the first one has been sent in part; both answers wait
for their timers. -/
theorem teardown_releases_iff_unsent :
    Exists fun callback => Exists fun s : RfSession Unit =>
      Run.run RfSession.step (.start Heap.empty [⟨some answerLater, ()⟩]) [callback] = some s ∧
        s.deleted = false ∧ s.s2c.sndq.pq.map RfPacket.ptr = [0, 1] ∧ s.s2c.written = [8, 0, 1] ∧
        (s.dq.qh.map fun dp => dp.pkt.ptr) = [2, 3] ∧ RfSession.TornDown Heap.empty s ∧
        [0, 1, 2, 3].map s.pool.refc = [1, 1, 1, 1] ∧
        [0, 1, 2, 3].map s.delete.pool.refc = [0, 0, 0, 0] := by
  let callback : Callback := .srv (some
    { reads := [.received [8, 0, 1, 0, 9, 9, 9, 9, 4, 0, 2, 0], .failed .eagain]
      fuel := 2
      own := [.accepted 3, .failed .eagain]
      other := [] }) none
  have ran : Exists fun s : RfSession Unit =>
      Run.run RfSession.step (.start Heap.empty [⟨some answerLater, ()⟩]) [callback] = some s ∧
        s.deleted = false ∧ s.s2c.sndq.pq.map RfPacket.ptr = [0, 1] ∧ s.s2c.written = [8, 0, 1] ∧
        (s.dq.qh.map fun dp => dp.pkt.ptr) = [2, 3] ∧ [0, 1, 2, 3].map s.pool.refc = [1, 1, 1, 1] ∧
        s.c2s.rcvq.rd = none ∧ s.s2c.rcvq.rd = none :=
    ⟨_, rfl, rfl, rfl, rfl, rfl, rfl, rfl, rfl⟩
  rcases ran with ⟨s, ran, live, unsent, written, delayed, counts, none, none'⟩
  have down := (teardown_releases_iff (Ledger.exact_empty _) ⟨[callback], ran⟩).mpr ⟨none, none'⟩
  refine ⟨callback, s, ran, live, unsent, written, delayed, down, counts, ?_⟩
  have gone (address : Nat) : s.delete.pool.refc address = 0 :=
    down.nothing_live address (Nat.zero_le address)
  simp only [List.map_cons, List.map_nil, gone]

/-- A header of an 8-byte packet has been received from the server. -/
def halfReceived : Callback :=
  .srv (some { reads := [.received [8, 0, 1, 0], .failed .eagain], fuel := 0, own := [], other := [] }) none

/-- The packet that is being received is never freed. -/
theorem teardown_keeps_half_received :
    Exists fun s : RfSession Unit =>
      Run.run RfSession.step (RfSession.start Heap.empty []) [halfReceived] = some s ∧
        s.deleted = false ∧ ¬ RfSession.TornDown Heap.empty s := by
  have ran : Exists fun s : RfSession Unit =>
      Run.run RfSession.step (RfSession.start Heap.empty []) [halfReceived] = some s ∧
        s.deleted = false ∧ s.delete.pool.refc 0 = 1 :=
    ⟨_, rfl, rfl, rfl⟩
  rcases ran with ⟨s, ran, live, kept⟩
  refine ⟨s, ran, live, fun down => ?_⟩
  rw [down.nothing_live 0 (Nat.le_refl 0)] at kept
  cases kept

end Rfx
