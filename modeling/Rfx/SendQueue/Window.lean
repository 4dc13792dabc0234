import Rfx.SendQueue

namespace Rfx

open Library

/-!
# The window and the list

The window is not always a prefix of the list: a packet that was pushed to the
list only can stand before one that was pulled into both.  What survives every
operation is that the packets of the window form a sublist of the list.  A
completely sent entry leaves the window at its head while some packet leaves
the list at its head; dropping the same number of elements from a list and from
a sublist of it gives a sublist again.
-/

namespace Sendq

/-- The window describes packets that are members of the list, in their order;
its first entry covers a non-empty suffix of its packet, every other entry its
whole packet. -/
structure Covers (pq : List RfPacket) (window : List Iovec) : Prop where
  listed : (window.map Iovec.pkt).Sublist pq
  suffix : forall iov, iov ∈ window -> iov.off + iov.len = iov.pkt.len ∧ 0 < iov.len
  whole : forall iov, iov ∈ window.tail -> iov = .ofPacket iov.pkt

namespace Covers

variable {pq : List RfPacket} {window : List Iovec}

theorem nil (pq : List RfPacket) : Covers pq [] where
  listed := List.nil_sublist pq
  suffix := fun _ member => absurd member List.not_mem_nil
  whole := fun _ member => absurd member List.not_mem_nil

/-- Whole entries for the packets of a sublist. -/
theorem ofPackets {pkts : List RfPacket} (listed : pkts.Sublist pq)
    (nonempty : forall pkt, pkt ∈ pkts -> 0 < pkt.len) : Covers pq (pkts.map .ofPacket) where
  listed := by
    rw [List.map_map]
    exact (List.map_id pkts).symm ▸ listed
  suffix := by
    intro iov member
    rcases List.mem_map.mp member with ⟨pkt, pktMember, same⟩
    subst same
    exact ⟨Nat.zero_add _, nonempty pkt pktMember⟩
  whole := by
    intro iov member
    rcases List.mem_map.mp (List.mem_of_mem_tail member) with ⟨pkt, _, same⟩
    subst same
    rfl

/-- Packets behind the list do not disturb the window. -/
theorem append_list (covers : Covers pq window) (later : List RfPacket) :
    Covers (pq ++ later) window where
  listed := covers.listed.trans (List.sublist_append_left pq later)
  suffix := covers.suffix
  whole := covers.whole

/-- Packets appended to the list and, as whole entries, to the window. -/
theorem append_both {later : List RfPacket} (covers : Covers pq window)
    (nonempty : forall pkt, pkt ∈ later -> 0 < pkt.len) :
    Covers (pq ++ later) (window ++ later.map .ofPacket) where
  listed := by
    rw [List.map_append, List.map_map]
    exact covers.listed.append ((List.map_id later).symm ▸ List.Sublist.refl later)
  suffix := by
    intro iov member
    rcases List.mem_append.mp member with old | new
    · exact covers.suffix iov old
    · exact (ofPackets (List.Sublist.refl later) nonempty).suffix iov new
  whole := by
    intro iov member
    cases window with
    | nil => exact (ofPackets (List.Sublist.refl later) nonempty).whole iov member
    | cons head tail =>
        rcases List.mem_append.mp member with old | new
        · exact covers.whole iov old
        · rcases List.mem_map.mp new with ⟨pkt, _, same⟩
          subst same
          rfl

/-- The same number of heads leaves the window and the list. -/
theorem drop (covers : Covers pq window) (k : Nat) : Covers (pq.drop k) (window.drop k) where
  listed := by
    rw [List.map_drop]
    exact covers.listed.drop k
  suffix := fun iov member => covers.suffix iov (List.mem_of_mem_drop member)
  whole := by
    intro iov member
    apply covers.whole iov
    rw [List.tail_drop] at member
    rw [← List.drop_one]
    exact (List.drop_sublist_drop_left _ (Nat.le_add_left 1 k)).mem member

/-- The first entry may move forward as long as some of it is left. -/
theorem advance {iov : Iovec} {rest : List Iovec} (covers : Covers pq (iov :: rest)) {left : Nat}
    (inside : left < iov.len) : Covers pq (iov.advance left :: rest) where
  listed := covers.listed
  suffix := by
    intro other member
    rcases List.mem_cons.mp member with same | later
    · subst same
      have old := (covers.suffix iov List.mem_cons_self).1
      simp only [Iovec.advance, Nat.min_eq_left (Nat.le_of_lt inside)]
      omega
    · exact covers.suffix other (List.mem_cons_of_mem _ later)
  whole := covers.whole

end Covers
end Sendq

/-- What every reachable state of a send queue satisfies.  The packets that
have left the list are `appended` without its end `pq`. -/
structure WindowInv (st : SendState) (appended : List RfPacket) : Prop where
  bounds : st.q.InBounds
  suffix : st.q.pq <:+ appended
  covers : (forall pkt, pkt ∈ appended -> 0 < pkt.len) -> Sendq.Covers st.q.pq st.q.window

namespace WindowInv

variable {st : SendState} {appended : List RfPacket}

theorem new (pool : Pool) (dir : Dir) (out : List Byte) : WindowInv ⟨pool, .new dir, out⟩ [] where
  bounds := Sendq.inBounds_new dir
  suffix := List.suffix_refl _
  covers := fun _ => by
    rw [Sendq.window_new]
    exact .nil _

theorem nonempty_pq (inv : WindowInv st appended)
    (nonempty : forall pkt, pkt ∈ appended -> 0 < pkt.len) :
    forall pkt, pkt ∈ st.q.pq -> 0 < pkt.len :=
  fun pkt member => nonempty pkt (inv.suffix.subset member)

theorem pushOut (inv : WindowInv st appended) (pkt : RfPacket) :
    WindowInv { st with q := st.q.pushOut pkt } (appended ++ [pkt]) where
  bounds := ⟨inv.bounds.size, inv.bounds.within, inv.bounds.at_start⟩
  suffix := by
    rcases inv.suffix with ⟨released, same⟩
    exact ⟨released, by rw [← same, List.append_assoc]; rfl⟩
  covers := by
    intro nonempty
    have old := inv.covers fun other member => nonempty other (List.mem_append_left _ member)
    exact old.append_list [pkt]

theorem pull (inv : WindowInv st appended) (src : List RfPacket) :
    WindowInv { st with pool := (st.q.pull st.pool src).1, q := (st.q.pull st.pool src).2.1 }
      (appended ++ (st.q.pull st.pool src).2.1.pq.drop st.q.pq.length) := by
  rcases Sendq.pull_spec inv.bounds st.pool src with
    ⟨moved, released, kept, next, pulled, _, appends⟩
  rw [pulled]
  simp only [appends.pq_eq, List.drop_left]
  refine ⟨appends.bounds, ?_, ?_⟩
  · rcases inv.suffix with ⟨gone, same⟩
    exact ⟨gone, by rw [← same, List.append_assoc, appends.pq_eq]⟩
  · intro nonempty
    have old := inv.covers fun pkt member => nonempty pkt (List.mem_append_left _ member)
    rw [appends.pq_eq, appends.window_eq]
    exact old.append_both fun pkt member => nonempty pkt (List.mem_append_right _ member)

theorem fill (inv : WindowInv st appended) : WindowInv { st with q := st.q.fill } appended where
  bounds := Sendq.inBounds_fill inv.bounds.size
  suffix := inv.suffix
  covers := by
    intro nonempty
    rw [Sendq.window_fill inv.bounds.size]
    exact .ofPackets (List.take_sublist _ _) fun pkt member =>
      inv.nonempty_pq nonempty pkt (List.mem_of_mem_take member)

theorem enter (inv : WindowInv st appended) : WindowInv st.enter appended := by
  unfold SendState.enter
  split
  · exact inv.fill
  · exact inv

theorem body (inv : WindowInv st appended) {result : WritevResult} {next : SendState}
    {value : Option Int} (taken : st.body result = some (next, value)) :
    WindowInv next appended := by
  cases result with
  | failed errno =>
      rw [(SendState.body_failed taken).1]
      exact inv
  | accepted bytes =>
      rcases SendState.body_accepted inv.bounds taken with ⟨_, _, _, bounds, _, _, accepts⟩
      have dropped (k : Nat) : st.q.pq.drop k <:+ appended :=
        (List.drop_suffix k _).trans inv.suffix
      cases accepts with
      | whole _ refilled _ pq =>
          refine ⟨bounds, pq ▸ dropped _, ?_⟩
          intro nonempty
          rw [refilled, pq]
          exact .ofPackets (List.take_sublist _ _) fun pkt member =>
            nonempty pkt ((dropped st.q.svc).subset (List.mem_of_mem_take member))
      | partly k left iov rest _ stops inside _ moved _ pq =>
          refine ⟨bounds, pq ▸ dropped _, ?_⟩
          intro nonempty
          have old := (inv.covers nonempty).drop k
          rw [stops] at old
          rw [moved, pq]
          exact old.advance inside

theorem step {run next : SendqRun} {op : SendqOp} (inv : WindowInv run.st run.appended)
    (taken : run.step op = some next) : WindowInv next.st next.appended :=
  SendqRun.step_invariant WindowInv (fun _ _ => True)
    (fun _ _ pkt now => now.pushOut pkt) (fun _ _ src now _ => now.pull src)
    (fun _ _ now => now.enter) (fun _ _ _ _ _ now bodyEq => now.body bodyEq)
    inv (fun _ _ => trivial) taken

theorem of_reachable {pool : Pool} {dir : Dir} {run : SendqRun}
    (reached : SendqRun.Reachable pool dir run) : WindowInv run.st run.appended := by
  rcases reached with ⟨ops, reached⟩
  exact Run.run_invariant (fun run => WindowInv run.st run.appended)
    (fun _ _ _ inv taken => inv.step taken) (new pool dir []) reached

end WindowInv

/-- The window never dangles.  In every reachable state it lies inside `svbuf`,
and its entries refer to distinct packets that are still in the list, in the
order of the list: the first entry to a non-empty suffix of its packet, every
other one to a whole packet.  No entry refers to a packet that has left the
list, which is what the next `writev` relies on. -/
theorem window_never_dangles (pool : Pool) (dir : Dir) (run : SendqRun)
    (reached : SendqRun.Reachable pool dir run)
    (nonempty : forall pkt, pkt ∈ run.appended -> 0 < pkt.len)
    (once : (run.appended.map RfPacket.ptr).Nodup) :
    run.st.q.svc ≤ wrivcnt ∧ run.st.q.svbuf.length = wrivcnt ∧
      run.st.q.sv + run.st.q.svc ≤ wrivcnt ∧ (run.st.q.svc = 0 -> run.st.q.sv = 0) ∧
      run.st.q.window.length = run.st.q.svc ∧
      (run.st.q.window.map fun iov => iov.pkt.ptr).Nodup ∧
      (run.st.q.window.map Iovec.pkt).Sublist run.st.q.pq ∧
      (forall iov, run.st.q.window.head? = some iov ->
        iov.off + iov.len = iov.pkt.len ∧ 0 < iov.len) ∧
      (forall iov, iov ∈ run.st.q.window.tail -> iov = .ofPacket iov.pkt) ∧
      Exists fun released => run.appended = released ++ run.st.q.pq ∧
        forall iov, iov ∈ run.st.q.window -> iov.pkt.ptr ∉ released.map RfPacket.ptr := by
  have inv := WindowInv.of_reachable reached
  have covers := inv.covers nonempty
  have within := inv.bounds.within
  rcases inv.suffix with ⟨released, same⟩
  rw [← same, List.map_append] at once
  rcases List.nodup_append.mp once with ⟨_, listOnce, apart⟩
  have pointers : (run.st.q.window.map fun iov => iov.pkt.ptr).Sublist
      (run.st.q.pq.map RfPacket.ptr) := by
    have mapped := covers.listed.map RfPacket.ptr
    rw [List.map_map] at mapped
    exact mapped
  refine ⟨by omega, inv.bounds.size, within, inv.bounds.at_start, inv.bounds.length_window,
    listOnce.sublist pointers, covers.listed, ?_, covers.whole, released, same.symm, ?_⟩
  · intro iov first
    exact covers.suffix iov (List.mem_of_mem_head? first)
  · intro iov member gone
    have listed := pointers.subset (List.mem_map.mpr ⟨iov, member, rfl⟩)
    exact apart _ gone _ listed rfl

/-- A packet is pushed, another one is pulled into list and window, and `send`
stops inside the pulled one. -/
theorem window_never_dangles_midway :
    Exists fun run => SendqRun.Reachable RefCount.Heap.empty cliToSrv run ∧ run.sending = true ∧
      (run.st.q.window.map fun iov => iov.pkt.ptr) = [1] ∧ run.st.q.sv + run.st.q.svc ≤ wrivcnt ∧
      (run.st.q.window.map fun iov => iov.pkt.ptr).Nodup := by
  let ops : List SendqOp := [.pushOut (pktInit 0 6 1 cliToSrv), .pull [pktInit 1 5 2 cliToSrv],
    .send, .writev (.accepted 2)]
  have reached : SendqRun.Reachable RefCount.Heap.empty cliToSrv _ := ⟨ops, rfl⟩
  have safe := window_never_dangles RefCount.Heap.empty cliToSrv _ reached (by decide) (by decide)
  exact ⟨_, reached, rfl, rfl, safe.2.2.1, safe.2.2.2.2.2.1⟩

end Rfx
