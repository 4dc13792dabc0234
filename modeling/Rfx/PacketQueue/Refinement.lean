import Rfx.Library.Run
import Rfx.PacketQueue

namespace Rfx

open Library Library.TailQueue Library.RefCount

/-!
# Packet queues are lists

The pointers of a queue stand for the list of its packets.  Each function does to the
pointers what its counterpart does to the lists, as long as its callers are careful, and
never uses memory that has been freed.
-/

/-! ## What is alive -/

section Alive

variable {pool : Pool} {pkt other : Nat} {pkts : List Nat}

theorem alive_alloc (live : Alive pool other = true) : Alive pool.alloc other = true := by
  rw [Alive, Heap.refc_alloc]
  by_cases same : other = pool.next
  · rw [same, Function.update_self]
    rfl
  · rw [Function.update_of_ne same]
    exact live

theorem alive_ref (live : Alive pool other = true) : Alive (pool.ref pkt) other = true := by
  rw [Alive, Heap.refc_ref]
  by_cases same : other = pkt
  · rw [same, Function.update_self]
    exact decide_eq_true (Nat.succ_pos _)
  · rw [Function.update_of_ne same]
    exact live

theorem alive_unref (live : Alive pool other = true) (kept : other ≠ pkt ∨ 1 < pool.refc pkt) :
    Alive (pool.unref pkt) other = true := by
  rw [Alive, Heap.refc_unref]
  by_cases same : other = pkt
  · rcases kept with different | shared
    · exact absurd same different
    · rw [same, Function.update_self]
      exact decide_eq_true (Nat.sub_pos_of_lt shared)
  · rw [Function.update_of_ne same]
    exact live

theorem of_alive_unref (live : Alive (pool.unref pkt) other = true) : Alive pool other = true := by
  rw [Alive, Heap.refc_unref] at live
  by_cases same : other = pkt
  · rw [same, Function.update_self] at live
    rw [same]
    exact decide_eq_true (Nat.lt_of_lt_of_le (of_decide_eq_true live) (Nat.sub_le _ _))
  · rw [Function.update_of_ne same] at live
    exact live

theorem alive_foldl_unref (live : Alive pool other = true) (apart : other ∉ pkts) :
    Alive (pkts.foldl Heap.unref pool) other = true := by
  induction pkts generalizing pool with
  | nil => exact live
  | cons pkt pkts inductionHypothesis =>
      have different : other ≠ pkt := List.ne_of_not_mem_cons apart
      exact inductionHypothesis (alive_unref live (Or.inl different))
        (List.not_mem_of_not_mem_cons apart)

theorem of_alive_foldl_unref (live : Alive (pkts.foldl Heap.unref pool) other = true) :
    Alive pool other = true := by
  induction pkts generalizing pool with
  | nil => exact live
  | cons pkt pkts inductionHypothesis => exact of_alive_unref (inductionHypothesis live)

end Alive

/-! ## The relation -/

variable {H : Type}

/-- The pointers stand for the lists, and every packet knows its address. -/
structure Shows (s : PktHeap H) (a : PktLists H) : Prop where
  pool : s.pool = a.pool
  record : s.record = a.record
  links : Represents (Alive a.pool) s.links a.lists
  address : forall pkt, Alive a.pool pkt = true -> (a.record pkt).ptr = pkt

/-- At the start there are no packets, and no head is in use. -/
theorem shows_start (record : Nat -> RfPacket) (links : Memory H Nat) :
    Shows ⟨Heap.empty, record, links⟩ ⟨Heap.empty, record, fun _ => none⟩ where
  pool := rfl
  record := rfl
  links := .nothing _ _
  address := fun _ live => absurd (of_decide_eq_true live) (Nat.lt_irrefl 0)

namespace PktLists

variable [DecidableEq H] {a : PktLists H}

theorem lists_set_self (pqh : H) (elms : Option (List Nat)) : (a.set pqh elms).lists pqh = elms :=
  Function.update_self _ _ _

theorem lists_set_of_ne {pqh other : H} {elms : Option (List Nat)} (different : other ≠ pqh) :
    (a.set pqh elms).lists other = a.lists other :=
  Function.update_of_ne different _ _

theorem set_same {pqh : H} {elms : Option (List Nat)} (found : a.lists pqh = elms) :
    a.set pqh elms = a := by
  rw [← found, set, Function.update_eq_self]

/-- The lists after `pqh_pull` has gone over what is behind `kept`. -/
def afterPull (a : PktLists H) (src dst : H) (kept : List Nat) (pulled : Pulled) : PktLists H where
  pool := pulled.pool
  record := a.record
  lists := Function.update (Function.update a.lists src (some (kept ++ pulled.src.map RfPacket.ptr)))
    dst (some (pulled.dst.map RfPacket.ptr))

variable {src dst : H} {kept : List Nat} {pulled : Pulled}

theorem afterPull_set_src (elms : Option (List Nat)) :
    (a.set src elms).afterPull src dst kept pulled = a.afterPull src dst kept pulled := by
  simp only [afterPull, set, Function.update_idem]

theorem afterPull_set_dst (apart : src ≠ dst) (elms : Option (List Nat)) :
    (a.set dst elms).afterPull src dst kept pulled = a.afterPull src dst kept pulled := by
  simp only [afterPull, set]
  rw [Function.update_comm apart, Function.update_idem, Function.update_comm apart]

theorem afterPull_keep (pkt : RfPacket) :
    a.afterPull src dst kept (pulled.keep pkt) = a.afterPull src dst (kept ++ [pkt.ptr]) pulled := by
  simp only [afterPull, Pulled.keep, List.map_cons, List.append_assoc, List.singleton_append]

end PktLists

namespace Shows

variable {s : PktHeap H} {a : PktLists H} {pqh : H} {pkt : Nat} {elms front back : List Nat}

theorem alive (shows : Shows s a) (found : a.lists pqh = some elms) (member : pkt ∈ elms) :
    Alive a.pool pkt = true :=
  (shows.links.queue pqh elms found).live pkt member

theorem first_eq (shows : Shows s a) (found : a.lists pqh = some elms) :
    s.links.first pqh = elms.head? :=
  (shows.links.queue pqh elms found).first_eq

/-- The records of a list are at the addresses in it. -/
theorem ptr_pkts (shows : Shows s a) (live : forall pkt, pkt ∈ elms -> Alive a.pool pkt = true) :
    (a.pkts elms).map RfPacket.ptr = elms := by
  rw [PktLists.pkts, List.map_map]
  apply (List.map_congr_left fun pkt member => shows.address pkt (live pkt member)).trans
  exact List.map_id elms

/-- Nothing changes once `pqh_pull` stops. -/
theorem afterPull_stop [DecidableEq H] {src dst : H} {kept rest behind : List Nat}
    (shows : Shows s a) (fromSrc : a.lists src = some (kept ++ rest))
    (toDst : a.lists dst = some behind) :
    a.afterPull src dst kept ⟨a.pool, a.pkts rest, a.pkts behind, []⟩ = a := by
  have left : (a.pkts rest).map RfPacket.ptr = rest :=
    shows.ptr_pkts fun pkt member => shows.alive fromSrc (List.mem_append_right _ member)
  have pulled : (a.pkts behind).map RfPacket.ptr = behind :=
    shows.ptr_pkts fun pkt member => shows.alive toDst member
  rw [PktLists.afterPull, left, pulled, ← fromSrc, Function.update_eq_self, ← toDst,
    Function.update_eq_self]

theorem next_eq (shows : Shows s a) (found : a.lists pqh = some (front ++ pkt :: back)) :
    s.pqhNext pkt = some back.head? := by
  rw [PktHeap.pqhNext, shows.pool]
  exact (shows.links.queue pqh _ found).next_eq

section Operations

variable [DecidableEq H]

theorem push (shows : Shows s a) (found : a.lists pqh = some elms)
    (live : Alive a.pool pkt = true) (unlinked : a.Unlinked pkt) :
    Exists fun s' => s.pqhPush pqh pkt = some s' ∧ Shows s' (a.set pqh (some (elms ++ [pkt]))) := by
  rcases shows.links.insertTail found live unlinked with ⟨links, inserted, represents⟩
  refine ⟨{ s with links }, ?_, shows.pool, shows.record, represents, shows.address⟩
  rw [PktHeap.pqhPush, shows.pool, inserted]
  rfl

theorem unlink (shows : Shows s a) (found : a.lists pqh = some (front ++ pkt :: back)) :
    Exists fun s' => s.unlink pqh pkt = some s' ∧ Shows s' (a.set pqh (some (front ++ back))) := by
  rcases shows.links.remove found with ⟨links, removed, represents⟩
  refine ⟨{ s with links }, ?_, shows.pool, shows.record, represents, shows.address⟩
  rw [PktHeap.unlink, shows.pool, removed]
  rfl

/-- A packet that has been taken off its queue is in none. -/
theorem unlinked (shows : Shows s a) (found : a.lists pqh = some (front ++ pkt :: back)) :
    (a.set pqh (some (front ++ back))).Unlinked pkt := by
  intro other elms found' member
  by_cases same : other = pqh
  · subst same
    rw [PktLists.lists_set_self] at found'
    cases found'
    have nodup := (shows.links.queue other _ found).nodup
    exact (List.nodup_cons.mp (List.nodup_middle.mp nodup)).1 member
  · rw [PktLists.lists_set_of_ne same] at found'
    exact shows.links.apart other pqh _ _ found' found same member
      (List.mem_append_right _ List.mem_cons_self)

end Operations

theorem unref (shows : Shows s a) (live : Alive a.pool pkt = true)
    (kept : a.Unlinked pkt ∨ 1 < a.pool.refc pkt) :
    Exists fun s' => s.pktUnref pkt = some s' ∧ Shows s' { a with pool := a.pool.unref pkt } := by
  refine ⟨{ s with pool := s.pool.unref pkt }, ?_, ?_, shows.record, ?_, ?_⟩
  · rw [PktHeap.pktUnref, shows.pool, if_pos live]
  · exact congrArg (fun pool : Pool => pool.unref pkt) shows.pool
  · apply shows.links.of_alive
    intro pqh elms other found member
    apply alive_unref (shows.alive found member)
    rcases kept with unlinked | shared
    · left
      rintro rfl
      exact unlinked pqh elms found member
    · exact Or.inr shared
  · exact fun other live => shows.address other (of_alive_unref live)

end Shows

/-! ## Loops -/

section Loops

variable {s : PktHeap H} {a : PktLists H} {pqh src dst : H} {elms kept rest behind : List Nat}

/-- The loop of `pqh_clear` releases what is left of its queue. -/
theorem clear_returns {last slot : Slot H Nat} (path : Path s.links last slot rest)
    (nodup : rest.Nodup) (live : forall pkt, pkt ∈ rest -> Alive s.pool pkt = true) :
    Loop.Returns PktHeap.clearTurn (s, rest.head?)
      (some { s with pool := rest.foldl Heap.unref s.pool }) := by
  induction rest generalizing s slot with
  | nil => exact ⟨1, rfl⟩
  | cons pkt rest inductionHypothesis =>
      rcases path with ⟨_, _, path⟩
      rcases List.nodup_cons.mp nodup with ⟨once, nodup⟩
      have alive : Alive s.pool pkt = true := live pkt List.mem_cons_self
      have turn : PktHeap.clearTurn (s, some pkt) =
          .next ({ s with pool := s.pool.unref pkt }, rest.head?) := by
        simp only [PktHeap.clearTurn, PktHeap.pqhNext, Memory.next, PktHeap.pktUnref, alive, if_true,
          path.target_eq]
      apply (Loop.returns_of_next turn).mpr
      apply inductionHypothesis (s := { s with pool := s.pool.unref pkt }) path nodup
      intro other member
      apply alive_unref (live other (List.mem_cons_of_mem _ member))
      left
      rintro rfl
      exact once member

/-- The loop of `pqh_pull` goes over what is left of its source. -/
theorem pull_returns [DecidableEq H] (apart : src ≠ dst) (dir : Dir) (outvSz minDelay : Nat)
    (outv : List Iovec) (shows : Shows s a) (fromSrc : a.lists src = some (kept ++ rest))
    (toDst : a.lists dst = some behind) :
    let pulled := pqhPull dir outvSz minDelay outv.length a.pool (a.pkts rest) (a.pkts behind)
    Exists fun s' => Loop.Returns (PktHeap.pullTurn src dst dir outvSz minDelay) ⟨s, rest.head?, outv⟩
        (some (s', outv ++ pulled.outv)) ∧
      Shows s' (a.afterPull src dst kept pulled) := by
  induction rest generalizing s a kept behind outv with
  | nil =>
      refine ⟨s, ⟨1, ?_⟩, ?_⟩
      · exact congrArg (fun outv => some (some (s, outv))) (List.append_nil outv).symm
      · exact (shows.afterPull_stop fromSrc toDst).symm ▸ shows
  | cons p rest inductionHypothesis =>
      have here : Alive a.pool p = true :=
        shows.alive fromSrc (List.mem_append_right _ List.mem_cons_self)
      have next : s.pqhNext p = some rest.head? := shows.next_eq fromSrc
      have record : s.record p = a.record p := congrFun shows.record p
      have ptr : (a.record p).ptr = p := shows.address p here
      rw [PktLists.pkts, List.map_cons, pqhPull]
      split
      · rename_i full
        refine ⟨s, ⟨1, ?_⟩, ?_⟩
        · rw [Loop.run_of_done (r := some (s, outv)), List.append_nil]
          simp only [PktHeap.pullTurn, List.head?_cons, next, full, if_true]
        · exact (shows.afterPull_stop fromSrc toDst).symm ▸ shows
      · rename_i room
        -- the packet stays in the source, and the loop goes on behind it
        have keep (stays : PktHeap.pullTurn src dst dir outvSz minDelay ⟨s, some p, outv⟩ =
            .next ⟨s, rest.head?, outv⟩) :
            let pulled := (pqhPull dir outvSz minDelay outv.length a.pool (a.pkts rest)
              (a.pkts behind)).keep (a.record p)
            Exists fun s' => Loop.Returns (PktHeap.pullTurn src dst dir outvSz minDelay)
                ⟨s, some p, outv⟩ (some (s', outv ++ pulled.outv)) ∧
              Shows s' (a.afterPull src dst kept pulled) := by
          have fromSrc' : a.lists src = some ((kept ++ [p]) ++ rest) := by
            rw [fromSrc, List.append_assoc, List.singleton_append]
          rcases inductionHypothesis outv shows fromSrc' toDst with ⟨s', returned, shows'⟩
          refine ⟨s', (Loop.returns_of_next stays).mpr returned, ?_⟩
          rw [PktLists.afterPull_keep, ptr]
          exact shows'
        split
        · rename_i later
          apply keep
          simp only [PktHeap.pullTurn, next, record, room, later, if_true, if_false]
        · rename_i due
          split
          · rename_i towards
            rcases shows.unlink fromSrc with ⟨s₁, unlinked, shows₁⟩
            have fromSrc₁ := PktLists.lists_set_self (a := a) src (some (kept ++ rest))
            have toDst₁ : (a.set src (some (kept ++ rest))).lists dst = some behind :=
              (PktLists.lists_set_of_ne apart.symm).trans toDst
            have free := shows.unlinked fromSrc
            split
            · rename_i dropped
              rcases shows₁.unref here (Or.inl free) with ⟨s₂, released, shows₂⟩
              have turn : PktHeap.pullTurn src dst dir outvSz minDelay ⟨s, some p, outv⟩ =
                  .next ⟨s₂, rest.head?, outv⟩ := by
                simp only [PktHeap.pullTurn, next, record, room, due, towards, unlinked, dropped,
                  released, if_true, if_false]
              rcases inductionHypothesis outv shows₂ fromSrc₁ toDst₁ with
                ⟨s', returned, shows'⟩
              refine ⟨s', (Loop.returns_of_next turn).mpr ?_, ?_⟩
              · rw [pktUnref, ptr]
                exact returned
              · rw [pktUnref, ptr, ← PktLists.afterPull_set_src (some (kept ++ rest))]
                exact shows'
            · rename_i wanted
              rcases shows₁.push toDst₁ here free with ⟨s₂, pushed, shows₂⟩
              have turn : PktHeap.pullTurn src dst dir outvSz minDelay ⟨s, some p, outv⟩ =
                  .next ⟨s₂, rest.head?, outv ++ [.ofPacket (a.record p)]⟩ := by
                simp only [PktHeap.pullTurn, next, record, room, due, towards, unlinked, wanted,
                  pushed, if_true, if_false, Bool.false_eq_true]
              have fromSrc₂ : ((a.set src (some (kept ++ rest))).set dst
                  (some (behind ++ [p]))).lists src = some (kept ++ rest) :=
                (PktLists.lists_set_of_ne apart).trans fromSrc₁
              rcases inductionHypothesis (outv ++ [.ofPacket (a.record p)]) shows₂ fromSrc₂
                (PktLists.lists_set_self dst _) with ⟨s', returned, shows'⟩
              have landed : a.pkts (behind ++ [p]) = pqhPush (a.pkts behind) (a.record p) :=
                List.map_append
              rw [PktLists.afterPull_set_dst apart, PktLists.afterPull_set_src, List.length_append] at shows'
              rw [List.length_append, List.append_assoc] at returned
              rw [← landed]
              exact ⟨s', (Loop.returns_of_next turn).mpr returned, shows'⟩
          · rename_i away
            apply keep
            simp only [PktHeap.pullTurn, next, record, room, due, away, if_false]

end Loops

/-! ## Calls -/

theorem answering_eq_some {A S : Type} [DecidableEq A] {answer : A} {result : Option (S × A)} {s : S} :
    answering answer result = some s <-> result = some (s, answer) := by
  cases result with
  | none => exact ⟨nofun, nofun⟩
  | some result =>
      rw [answering]
      split
      · rename_i same
        rw [Option.some.injEq, Option.some.injEq, Prod.ext_iff]
        exact ⟨fun here => ⟨here, same⟩, fun both => both.1⟩
      · rename_i different
        exact ⟨nofun, fun here => absurd (congrArg Prod.snd (Option.some.inj here)) different⟩

namespace Shows

variable {s : PktHeap H} {a a' : PktLists H} {pqh src dst : H} {pkt : Nat} {elms behind : List Nat}

theorem create (shows : Shows s a) (len type : Nat) (dir : Dir) :
    Shows (s.pktNew len type dir)
      { a with
        pool := (pktNew a.pool len type dir).1
        record := Function.update a.record a.pool.next (pktNew a.pool len type dir).2 } where
  pool := congrArg Heap.alloc shows.pool
  record := by rw [PktHeap.pktNew, shows.pool, shows.record, pktNew]
  links := shows.links.of_alive fun _ _ _ found member => alive_alloc (shows.alive found member)
  address := by
    intro other live
    by_cases same : other = a.pool.next
    · subst same
      exact congrArg RfPacket.ptr (Function.update_self a.pool.next _ a.record)
    · have older : Alive a.pool other = true := by
        rw [Alive, pktNew, Heap.refc_alloc, Function.update_of_ne same] at live
        exact live
      exact (congrArg RfPacket.ptr (Function.update_of_ne same _ _)).trans (shows.address other older)

theorem ref (shows : Shows s a) (live : Alive a.pool pkt = true) :
    Exists fun s' => s.pktRef pkt = some s' ∧ Shows s' { a with pool := a.pool.ref pkt } := by
  refine ⟨{ s with pool := s.pool.ref pkt }, ?_, ?_, shows.record, ?_, ?_⟩
  · rw [PktHeap.pktRef, shows.pool, if_pos live]
  · exact congrArg (fun pool : Pool => pool.ref pkt) shows.pool
  · exact shows.links.of_alive fun _ _ _ found member => alive_ref (shows.alive found member)
  · intro other alive
    by_cases same : other = pkt
    · exact shows.address other (same ▸ live)
    · rw [Alive, Heap.refc_ref, Function.update_of_ne same] at alive
      exact shows.address other alive

theorem store (shows : Shows s a) (live : Alive a.pool pkt = true) (edit : PktEdit) :
    Exists fun s' => s.store pkt edit = some s' ∧
      Shows s' { a with record := Function.update a.record pkt (edit.apply (a.record pkt)) } := by
  refine ⟨{ s with record := Function.update s.record pkt (edit.apply (s.record pkt)) }, ?_,
    shows.pool, ?_, shows.links, ?_⟩
  · rw [PktHeap.store, shows.pool, if_pos live]
  · exact congrArg (fun record => Function.update record pkt (edit.apply (record pkt))) shows.record
  · intro other alive
    by_cases same : other = pkt
    · subst same
      exact (congrArg RfPacket.ptr (Function.update_self _ _ _)).trans
        ((PktEdit.ptr_apply _ _).trans (shows.address other alive))
    · exact (congrArg RfPacket.ptr (Function.update_of_ne same _ _)).trans (shows.address other alive)

variable [DecidableEq H]

theorem init (shows : Shows s a) (pqh : H) : Shows (s.pqhInit pqh) (a.set pqh (some [])) where
  pool := shows.pool
  record := shows.record
  links := shows.links.init pqh
  address := shows.address

theorem pop (shows : Shows s a) (found : a.lists pqh = some elms) :
    Exists fun s' => s.pqhPop pqh = some (s', elms.head?) ∧
      Shows s' (a.set pqh (some elms.tail)) := by
  rw [PktHeap.pqhPop, shows.first_eq found]
  cases elms with
  | nil => exact ⟨s, rfl, (PktLists.set_same found).symm ▸ shows⟩
  | cons pkt rest =>
      have found' : a.lists pqh = some ([] ++ pkt :: rest) := found
      rcases shows.unlink found' with ⟨s', unlinked, shows'⟩
      exact ⟨s', congrArg (Option.map fun s => (s, some pkt)) unlinked, shows'⟩

theorem discard (shows : Shows s a) (found : a.lists pqh = some elms) :
    Exists fun s' => s.pqhDiscard pqh = some s' ∧
      Shows s' { a.set pqh (some elms.tail) with pool := (pqhDiscard a.pool (a.pkts elms)).1 } := by
  rw [PktHeap.pqhDiscard, shows.first_eq found]
  cases elms with
  | nil => exact ⟨s, rfl, (PktLists.set_same found).symm ▸ shows⟩
  | cons pkt rest =>
      have live : Alive a.pool pkt = true := shows.alive found List.mem_cons_self
      have found' : a.lists pqh = some ([] ++ pkt :: rest) := found
      have free : (a.set pqh (some rest)).Unlinked pkt := shows.unlinked found'
      rcases shows.unlink found' with ⟨s₁, unlinked, shows₁⟩
      rcases shows₁.unref live (Or.inl free) with ⟨s₂, released, shows₂⟩
      refine ⟨s₂, ?_, ?_⟩
      · simp only [List.head?_cons, unlinked, Option.bind_some, released]
      · simp only [PktLists.pkts, List.map_cons, pqhDiscard, pktUnref, shows.address pkt live]
        exact shows₂

theorem clear (shows : Shows s a) (found : a.lists pqh = some elms) :
    Exists fun s' => (Exists fun enough => forall fuel, enough ≤ fuel ->
        s.pqhClear fuel pqh = some s') ∧
      Shows s' { a.set pqh none with pool := pqhClear a.pool (a.pkts elms) } := by
  have queue := shows.links.queue pqh elms found
  have live : forall pkt, pkt ∈ elms -> Alive s.pool pkt = true := shows.pool ▸ queue.live
  rcases clear_returns queue.path queue.nodup live with ⟨enough, returned⟩
  have released : pqhClear a.pool (a.pkts elms) = elms.foldl Heap.unref a.pool := by
    have mapped : (a.pkts elms).map RfPacket.ptr = elms :=
      shows.ptr_pkts fun pkt member => shows.alive found member
    rw [pqhClear, ← mapped, List.foldl_map, mapped]
    rfl
  refine ⟨{ s with pool := elms.foldl Heap.unref s.pool }, ⟨enough, fun fuel le => ?_⟩, ?_⟩
  · rw [PktHeap.pqhClear, shows.first_eq found, Loop.run_of_le returned le]
    rfl
  · rw [released, shows.pool]
    refine ⟨rfl, shows.record, ?_, ?_⟩
    · apply (shows.links.forget pqh).of_alive
      intro other elms' pkt found' member
      by_cases same : other = pqh
      · rw [same, Function.update_self] at found'
        cases found'
      · rw [Function.update_of_ne same] at found'
        apply alive_foldl_unref (shows.alive found' member)
        exact shows.links.apart other pqh elms' elms found' found same member
    · exact fun pkt alive => shows.address pkt (of_alive_foldl_unref alive)

theorem pull (shows : Shows s a) (apart : src ≠ dst) (dir : Dir) (outvSz minDelay : Nat)
    (fromSrc : a.lists src = some elms) (toDst : a.lists dst = some behind) :
    let pulled := pqhPull dir outvSz minDelay 0 a.pool (a.pkts elms) (a.pkts behind)
    Exists fun s' => (Exists fun enough => forall fuel, enough ≤ fuel ->
        s.pqhPull fuel src dst dir outvSz minDelay = some (s', pulled.outv)) ∧
      Shows s' (a.afterPull src dst [] pulled) := by
  have fromSrc' : a.lists src = some ([] ++ elms) := fromSrc
  rcases pull_returns apart dir outvSz minDelay [] shows fromSrc' toDst with
    ⟨s', ⟨enough, returned⟩, shows'⟩
  refine ⟨s', ⟨enough, fun fuel le => ?_⟩, shows'⟩
  rw [PktHeap.pqhPull, shows.first_eq fromSrc, Loop.run_of_le returned le]
  rfl

/-- A careful call does to the pointers what it does to the lists, and answers the same. -/
theorem step {call : PktCall H} (shows : Shows s a) (legal : a.Legal call)
    (stepped : a.step call = some a') :
    Exists fun s' => (Exists fun enough => forall fuel, enough ≤ fuel ->
      s.step fuel call = some s') ∧ Shows s' a' := by
  cases call with
  | create len type dir =>
      cases stepped
      exact ⟨_, ⟨0, fun _ _ => rfl⟩, shows.create len type dir⟩
  | ref pkt =>
      cases stepped
      rcases shows.ref legal with ⟨s', taken, shows'⟩
      exact ⟨s', ⟨0, fun _ _ => taken⟩, shows'⟩
  | unref pkt =>
      cases stepped
      rcases shows.unref legal.1 legal.2 with ⟨s', taken, shows'⟩
      exact ⟨s', ⟨0, fun _ _ => taken⟩, shows'⟩
  | store pkt edit =>
      cases stepped
      rcases shows.store legal edit with ⟨s', taken, shows'⟩
      exact ⟨s', ⟨0, fun _ _ => taken⟩, shows'⟩
  | init pqh =>
      cases stepped
      exact ⟨_, ⟨0, fun _ _ => rfl⟩, shows.init pqh⟩
  | empty pqh answer =>
      rcases Option.bind_eq_some_iff.mp stepped with ⟨elms, found, answered⟩
      cases answering_eq_some.mp answered
      refine ⟨s, ⟨0, fun _ _ => ?_⟩, shows⟩
      rw [PktHeap.step, answering_eq_some, PktHeap.pqhEmpty, shows.first_eq found]
      cases elms <;> rfl
  | head pqh answer =>
      rcases Option.bind_eq_some_iff.mp stepped with ⟨elms, found, answered⟩
      cases answering_eq_some.mp answered
      refine ⟨s, ⟨0, fun _ _ => ?_⟩, shows⟩
      rw [PktHeap.step, answering_eq_some, PktHeap.pqhHead, shows.first_eq found]
  | next pqh pkt answer =>
      rcases Option.bind_eq_some_iff.mp stepped with ⟨elms, found, answered⟩
      cases answering_eq_some.mp answered
      rcases List.eq_append_cons_of_mem (legal elms found) with ⟨front, back, rfl, unseen⟩
      have behind : (front ++ pkt :: back).dropWhile (· ≠ pkt) = pkt :: back := by
        rw [List.dropWhile_append_of_pos]
        · simp only [ne_eq, not_true_eq_false, decide_false, Bool.false_eq_true, not_false_eq_true,
            List.dropWhile_cons_of_neg]
        · intro other member
          apply decide_eq_true
          rintro rfl
          exact unseen member
      refine ⟨s, ⟨0, fun _ _ => ?_⟩, shows⟩
      apply answering_eq_some.mpr
      rw [shows.next_eq found, behind]
      rfl
  | push pqh pkt =>
      rcases Option.map_eq_some_iff.mp stepped with ⟨elms, found, rfl⟩
      rcases shows.push found legal.1 legal.2 with ⟨s', taken, shows'⟩
      exact ⟨s', ⟨0, fun _ _ => taken⟩, shows'⟩
  | pop pqh answer =>
      rcases Option.bind_eq_some_iff.mp stepped with ⟨elms, found, answered⟩
      cases answering_eq_some.mp answered
      rcases shows.pop found with ⟨s', taken, shows'⟩
      exact ⟨s', ⟨0, fun _ _ => answering_eq_some.mpr taken⟩, shows'⟩
  | discard pqh =>
      rcases Option.map_eq_some_iff.mp stepped with ⟨elms, found, rfl⟩
      rcases shows.discard found with ⟨s', taken, shows'⟩
      exact ⟨s', ⟨0, fun _ _ => taken⟩, shows'⟩
  | clear pqh =>
      rcases Option.map_eq_some_iff.mp stepped with ⟨elms, found, rfl⟩
      rcases shows.clear found with ⟨s', ⟨enough, taken⟩, shows'⟩
      exact ⟨s', ⟨enough, taken⟩, shows'⟩
  | pull src dst dir outvSz minDelay answer =>
      rcases Option.bind_eq_some_iff.mp stepped with ⟨elms, fromSrc, stepped⟩
      rcases Option.bind_eq_some_iff.mp stepped with ⟨behind, toDst, answered⟩
      cases answering_eq_some.mp answered
      rcases shows.pull legal dir outvSz minDelay fromSrc toDst with ⟨s', ⟨enough, taken⟩, shows'⟩
      exact ⟨s', ⟨enough, fun fuel le => answering_eq_some.mpr (taken fuel le)⟩, shows'⟩

end Shows

/-- Whatever the memory looked like before, a sequence of careful calls on packets and
queues does to the pointers what it does to the lists: each call returns, uses no memory
that has been freed, and gives the answer that the lists give. -/
theorem pointers_are_lists [DecidableEq H] (record : Nat -> RfPacket) (links : Memory H Nat)
    (calls : List (PktCall H)) (a : PktLists H)
    (careful : Run.Meets PktLists.step PktLists.Legal ⟨Heap.empty, record, fun _ => none⟩ calls)
    (ran : Run.run PktLists.step ⟨Heap.empty, record, fun _ => none⟩ calls = some a) :
    Exists fun s => (Exists fun enough => forall fuel, enough ≤ fuel ->
        Run.run (PktHeap.step fuel) ⟨Heap.empty, record, links⟩ calls = some s) ∧
      s.pool = a.pool ∧ s.record = a.record ∧ Represents (Alive s.pool) s.links a.lists := by
  have simulates (a : PktLists H) (s : PktHeap H) (call : PktCall H) (a' : PktLists H)
      (shows : Shows s a) (legal : a.Legal call) (stepped : a.step call = some a') :
      Exists fun s' => (Exists fun enough => forall fuel, enough ≤ fuel ->
        PktHeap.step fuel s call = some s') ∧ Shows s' a' := shows.step legal stepped
  rcases Run.run_simulation_of_meets (fun a s => Shows s a) simulates (shows_start record links)
    careful ran with ⟨s, enough, shows⟩
  exact ⟨s, enough, shows.pool, shows.record, shows.pool ▸ shows.links⟩

/-- One of two packets is dropped while both are pulled from a queue. -/
def pullCalls : List (PktCall Bool) :=
  [.create 4 7 cliToSrv, .create 4 8 cliToSrv, .init false, .init true, .push false 0, .push false 1,
    .next false 0 (some 1), .store 0 (.drop true),
    .pull false true cliToSrv 64 0 [.ofPacket (pktInit 1 4 8 cliToSrv)], .empty false true, .discard true]

/-- A memory in which every pointer leads somewhere. -/
def anyLinks : Memory Bool Nat where
  target := fun _ => some 1
  last := fun _ => .next 0
  prev := fun _ => .next 1

theorem pointers_are_lists_pull :
    let start : PktLists Bool := ⟨Heap.empty, fun _ => pktInit 9 9 9 cliToSrv, fun _ => none⟩
    Run.Meets PktLists.step PktLists.Legal start pullCalls ∧
      Exists fun a => Run.run PktLists.step start pullCalls = some a ∧
        Exists fun s => (Exists fun enough => forall fuel, enough ≤ fuel ->
          Run.run (PktHeap.step fuel) ⟨Heap.empty, start.record, anyLinks⟩ pullCalls = some s) ∧
          s.pool = a.pool ∧ s.record = a.record ∧ Represents (Alive s.pool) s.links a.lists := by
  intro start
  have careful : Run.Meets PktLists.step PktLists.Legal start pullCalls := by decide +kernel
  have possible : (Run.run PktLists.step start pullCalls).isSome = true := by decide +kernel
  rcases Option.isSome_iff_exists.mp possible with ⟨a, ran⟩
  exact ⟨careful, a, ran, pointers_are_lists start.record anyLinks pullCalls a careful ran⟩

end Rfx
