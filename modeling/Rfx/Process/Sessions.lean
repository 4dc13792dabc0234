import Rfx.Process.Instances
import Rfx.Session.Teardown

namespace Rfx

open Library Library.Parts Library.RefCount

/-!
# All sessions of the process

The sessions share one allocator, and the filters in a chain change with every reload.
What a session keeps whatever its pool and its filters are, all sessions of the process
keep; and the reference counts are exact for all of them together.
-/

namespace RfSession

variable {σ : Type} {s next : RfSession σ}

theorem deleted_dispose (s : RfSession σ) (dir : Dir) (pkt : RfPacket) :
    (s.dispose dir pkt).deleted = s.deleted := by
  unfold dispose
  split
  · rfl
  · exact (setPipe_rest _ _ _).2.2.2

/-- Only the end of an I/O callback deletes a session. -/
theorem deleted_step {callback : Callback} (taken : s.step callback = some next) :
    next.deleted = false ∨ Exists fun last : RfSession σ => next = last.delete := by
  have read (s : RfSession σ) (dir : Dir) (results : List ReadvResult) (next : RfSession σ)
      (live : s.deleted = false) (taken : s.handleRead dir results = some next) :
      next.deleted = false := by
    rcases handleRead_spec taken with ⟨answer, _, rfl⟩
    exact (setPipe_rest _ _ _).2.2.2.trans live
  have write (s : RfSession σ) (dir : Dir) (results : List WritevResult) (next : RfSession σ)
      (live : s.deleted = false) (taken : s.handleWrite dir results = some next) :
      next.deleted = false := by
    rcases handleWrite_spec taken with ⟨st, value, _, rfl⟩
    exact (setPipe_rest _ _ _).2.2.2.trans live
  have filterPkt (s : RfSession σ) (dir : Dir) (fuel : Nat) (pkt : RfPacket) (rest : List RfPacket)
      (next : RfSession σ) (live : s.deleted = false) (_ : (s.pipe dir).rcvq.pq = pkt :: rest)
      (taken : (s.popIn dir rest).filterPkt dir fuel pkt = some next) : next.deleted = false := by
    rcases filterPkt_spec taken with ⟨processed, handled, _, _, rfl⟩
    simp only [route, inject, deleted_dispose]
    exact (setPipe_rest _ _ _).2.2.2.trans live
  have timeout (s : RfSession σ) (index : Nat) (writes : List WritevResult) (next : RfSession σ)
      (live : s.deleted = false) (taken : s.timeoutCb index writes = some next) :
      next.deleted = false := by
    rcases timeoutCb_spec taken with ⟨dp, emitted, _, _, emittedEq, rfl⟩
    rcases emit_spec emittedEq with ⟨st, value, _, rfl⟩
    exact (setPipe_rest (s.removeDelayed index) _ _).2.2.2.trans live
  rcases step_rule (fun s => s.deleted = false) read filterPkt (fun _ live => live) write timeout
    (step_spec taken).1 taken with live | ⟨last, _, same⟩
  · exact Or.inl live
  · exact Or.inr ⟨last, same⟩

/-- The reference counts and the chain do not matter. -/
theorem Settled.with_pool_flt (settled : s.Settled) (pool : Pool) (flt : RfxFilterChain σ) :
    ({ s with pool := pool, flt := flt } : RfSession σ).Settled where
  sound := settled.sound.with_pool_flt pool flt
  each := ⟨settled.each.c2s, settled.each.s2c⟩
  timed := settled.timed

end RfSession

namespace Process

variable {F : Type} {s next : Process F} {base : List Nat} {plugins : List (Plugin F)}

/-- What the callbacks of a session keep, whatever its pool is and with all filters that
the modules allow, every move keeps for all sessions. -/
theorem clients_move (allowed : RfxFilterChain F -> Prop) (holds : RfSession F -> Prop)
    (swapped : forall s pool flt, holds s -> holds { s with pool := pool, flt := flt })
    (first : forall pool, holds (.start pool []))
    (stepped : forall s callback next, holds s -> allowed s.flt -> s.step callback = some next ->
      next.deleted = false -> holds next)
    (filtered : forall files ch flt, filters files s.plugins ch = some flt -> allowed flt)
    (now : forall c, c ∈ s.clients -> holds c.session) (move : Move s next) :
    forall c, c ∈ next.clients -> holds c.session := by
  intro c member
  have started {cli srv : Nat} {ch : List InstancePtr}
      (member : c ∈ s.clients ++ [⟨cli, srv, ch, .start s.pool []⟩]) : holds c.session := by
    rcases List.mem_append.mp member with old | new
    · exact now c old
    · exact List.mem_singleton.mp new ▸ first s.pool
  cases move with
  | waiting cli srv fds opened => exact now c member
  | watched index b b' found watched => exact now c member
  | failed index b found => exact now c member
  | connected cli srv fds plugins ch opened built => exact started member
  | established index b plugins ch found built => exact started member
  | called index client files flt callback session found brought taken live =>
      rcases List.mem_or_eq_of_mem_set member with old | new
      · exact now c old
      · have before := now client (List.mem_of_getElem? found)
        exact new ▸ stepped _ callback session (swapped _ s.pool flt before)
          (filtered files client.ch flt brought) taken live
  | ended index client files flt callback session plugins found brought taken deleted destroyed =>
      exact now c (List.mem_of_mem_eraseIdx member)
  | reloaded checks plugins reloaded => exact now c member

theorem settled_move (now : forall c, c ∈ s.clients -> c.session.Settled) (move : Move s next) :
    forall c, c ∈ next.clients -> c.session.Settled := by
  apply clients_move (fun _ => True) RfSession.Settled ?_ ?_ ?_ (fun _ _ _ _ => trivial) now move
  · exact fun s pool flt settled => settled.with_pool_flt pool flt
  · exact fun pool => .start pool []
  · intro s callback next settled _ taken live
    rcases settled.step taken with settled | deleted
    · exact settled
    · rw [live] at deleted
      cases deleted

/-! ## Reference counts -/

/-- Who holds the packets of a session. -/
def clientTokens (c : Client F) : Multiset (Place × Nat) :=
  c.session.tokens

/-- The packets that a session is in the middle of receiving. -/
def unfinished (session : RfSession F) : Multiset (Place × Nat) :=
  heldBy (.rd cliToSrv) session.c2s.rcvq.rd.toList + heldBy (.rd srvToCli) session.s2c.rcvq.rd.toList

/-- The session that an event ends, as it is then. -/
def ends (s : Process F) : LoopEvent -> List (RfSession F)
  | .client index files callback =>
      (((s.clients[index]?).bind fun c =>
        (filters files s.plugins c.ch).bind fun flt =>
          { c.session with pool := s.pool, flt }.step callback).toList).filter fun session =>
            session.deleted
  | _ => []

/-- The sessions that have ended in a run. -/
def ended : Process F -> List LoopEvent -> List (RfSession F) :=
  Run.collect step ends

/-- The packets that exist are held by the sessions, or one that has ended was in the
middle of receiving them. -/
def Counted (s : Process F) (gone : List (RfSession F)) : Prop :=
  Ledger.Exact Place.single ⟨s.pool, total clientTokens s.clients + total unfinished gone⟩

/-- Nobody takes or gives up a packet. -/
structure SameTokens (s next : Process F) : Prop where
  pool_eq : next.pool = s.pool
  total_eq : total clientTokens next.clients = total clientTokens s.clients

namespace SameTokens

theorem refl (s : Process F) : SameTokens s s := ⟨rfl, rfl⟩

theorem trans {middle : Process F} (first : SameTokens s middle) (second : SameTokens middle next) :
    SameTokens s next :=
  ⟨second.pool_eq.trans first.pool_eq, second.total_eq.trans first.total_eq⟩

/-- A new session has no packets. -/
theorem total_started (pool : Pool) (cli srv : Nat) (ch : List InstancePtr) (clients : List (Client F)) :
    total clientTokens (clients ++ [⟨cli, srv, ch, .start pool []⟩]) = total clientTokens clients := by
  have none : clientTokens (⟨cli, srv, ch, .start pool []⟩ : Client F) = 0 := rfl
  rw [total_append, total_singleton, none, add_zero]

theorem connect {accepted : List Accepted} (taken : cliConnectCb accepted s = some next) :
    SameTokens s next := by
  induction accepted generalizing s with
  | nil =>
      cases taken
      exact .refl _
  | cons first later inductionHypothesis =>
      rcases Option.bind_eq_some_iff.mp taken with ⟨middle, accepted, rest⟩
      refine trans ?_ (inductionHypothesis rest)
      cases accept_arrives accepted with
      | away => exact .refl _
      | waiting cli srv fds opened => exact ⟨rfl, rfl⟩
      | connected cli srv fds plugins ch opened built => exact ⟨rfl, total_started _ _ _ _ _⟩

theorem bootstrapIo {index : Nat} {failed : Bool} (taken : s.bootstrapIoCb index failed = some next) :
    SameTokens s next := by
  rw [bootstrapIoCb, Option.bind_eq_some_iff] at taken
  rcases taken with ⟨b, _, taken⟩
  split at taken
  · rcases Option.bind_eq_some_iff.mp taken with ⟨_, _, taken⟩
    split at taken
    · cases taken
      exact ⟨rfl, rfl⟩
    · rcases Option.map_eq_some_iff.mp taken with ⟨_, _, rfl⟩
      exact ⟨rfl, total_started _ _ _ _ _⟩
  · cases taken

theorem bootstrapTimer {index : Nat} (taken : s.bootstrapTmrCb index = some next) : SameTokens s next := by
  rw [bootstrapTmrCb, Option.bind_eq_some_iff] at taken
  rcases taken with ⟨b, _, taken⟩
  split at taken
  · simp only at taken
    split at taken
    · cases taken
      exact ⟨rfl, rfl⟩
    · rcases Option.map_eq_some_iff.mp taken with ⟨_, _, rfl⟩
      exact ⟨rfl, rfl⟩
  · cases taken

theorem writable {index : Nat} (taken : s.writable index = some next) : SameTokens s next := by
  rcases Option.bind_eq_some_iff.mp taken with ⟨b, _, taken⟩
  split at taken
  · cases taken
    exact ⟨rfl, rfl⟩
  · cases taken

theorem expired {index : Nat} (taken : s.expired index = some next) : SameTokens s next := by
  rcases Option.bind_eq_some_iff.mp taken with ⟨b, _, taken⟩
  split at taken
  · cases taken
    exact ⟨rfl, rfl⟩
  · cases taken

end SameTokens

variable {gone : List (RfSession F)}

theorem Counted.same (counted : s.Counted gone) (same : SameTokens s next) :
    next.Counted (gone ++ []) := by
  rw [Counted, List.append_nil, same.pool_eq, same.total_eq]
  exact counted

/-- The destructors leave to nobody what a session is in the middle of receiving. -/
theorem tokens_of_deleted {session before : RfSession F} {callback : Callback}
    (taken : before.step callback = some session) (deleted : session.deleted = true) :
    session.tokens = unfinished session := by
  rcases RfSession.deleted_step taken with live | ⟨last, rfl⟩
  · rw [live] at deleted
    cases deleted
  · exact last.tokens_delete

theorem Counted.clientCb {index : Nat} {files : Files} {callback : Callback} (counted : s.Counted gone)
    (taken : s.clientCb index files callback = some next) :
    next.Counted (gone ++ s.ends (.client index files callback)) := by
  simp only [Process.clientCb, Option.bind_eq_some_iff] at taken
  rcases taken with ⟨c, found, flt, filtered, session, stepped, taken⟩
  have turns := RfSession.step_turns stepped
  rw [Counted, total_eq found, add_assoc] at counted
  have called : s.ends (.client index files callback) =
      [session].filter fun session => session.deleted := by
    simp only [ends, found, Option.bind_some, filtered, stepped, Option.toList]
  rw [called]
  split at taken
  · rename_i deleted
    rcases Option.map_eq_some_iff.mp taken with ⟨plugins, _, rfl⟩
    rw [List.filter_cons_of_pos deleted, List.filter_nil, Counted, total_append, total_singleton,
      ← tokens_of_deleted stepped deleted, ← add_assoc, add_comm _ session.tokens]
    exact counted.path (turns _ counted)
  · rename_i live
    cases taken
    rw [List.filter_cons_of_neg live, List.filter_nil, List.append_nil, Counted, total_set found,
      add_assoc]
    exact counted.path (turns _ counted)

theorem Counted.step {event : LoopEvent} (counted : s.Counted gone) (taken : s.step event = some next) :
    next.Counted (gone ++ s.ends event) := by
  cases event with
  | connect accepted => exact counted.same (.connect taken)
  | writable index => exact counted.same (.writable taken)
  | expired index => exact counted.same (.expired taken)
  | bootstrapIo index failed => exact counted.same (.bootstrapIo taken)
  | bootstrapTimer index => exact counted.same (.bootstrapTimer taken)
  | client index files callback => exact counted.clientCb taken
  | pluginsCheck checks =>
      rcases Option.map_eq_some_iff.mp taken with ⟨_, _, rfl⟩
      exact counted.same ⟨rfl, rfl⟩

/-- The counts are right after every run. -/
theorem counted_of_run {events : List LoopEvent} (reached : Run.run step (start base plugins) events = some s) :
    s.Counted (ended (start base plugins) events) := by
  have first : (start base plugins).Counted [] := Ledger.exact_empty _
  exact Run.run_collect Counted (fun _ _ _ _ counted taken => counted.step taken) first reached

/-- In every state the sessions are settled. -/
theorem settled_of_reachable (reached : Reachable base plugins s) :
    forall c, c ∈ s.clients -> c.session.Settled :=
  reachable_rule (fun s => forall c, c ∈ s.clients -> c.session.Settled)
    (fun _ _ now move => settled_move now move) (fun _ member => absurd member List.not_mem_nil) reached

/-- Every place between two events holds a packet alone. -/
theorem single_of_mem_total {token : Place × Nat}
    (held : token ∈ total clientTokens s.clients + total unfinished gone) : token.1.single = true := by
  rcases Multiset.mem_add.mp held with live | lost
  · rcases mem_total.mp live with ⟨c, _, held⟩
    exact RfSession.single_of_mem_tokens held
  · rcases mem_total.mp lost with ⟨session, _, held⟩
    rcases Multiset.mem_add.mp held with held | held
    all_goals
      rcases List.mem_map.mp (Multiset.mem_coe.mp held) with ⟨address, _, rfl⟩
      rfl

/-- A packet that is held somewhere has no other owner. -/
theorem Counted.refc_eq_one (counted : s.Counted gone) {token : Place × Nat}
    (held : token ∈ total clientTokens s.clients + total unfinished gone) :
    s.pool.refc token.2 = 1 :=
  Ledger.Exact.refc_eq_one counted (fun _ => single_of_mem_total) held

/-- Two sessions and what the others hold. -/
theorem total_two {M : Type} [AddCommMonoid M] {A : Type} {has : A -> M} {parts : List A} {i j : Nat}
    {one other : A} (first : parts[i]? = some one) (second : parts[j]? = some other)
    (different : i ≠ j) : Exists fun rest => total has parts = has one + (has other + rest) := by
  have left : other ∈ parts.eraseIdx i :=
    List.mem_eraseIdx_iff_getElem?.mpr ⟨j, different.symm, second⟩
  rcases List.mem_iff_getElem?.mp left with ⟨place, found⟩
  exact ⟨_, by rw [total_eq first, total_eq found]⟩

end Process

namespace RfSession

variable {σ : Type} {s : RfSession σ}

theorem Settled.pipe (settled : s.Settled) {p : ProxyPipe} (which : p = s.c2s ∨ p = s.s2c) :
    p.Settled ∧ (p.eof = false -> p.inActive = true) := by
  rcases which with same | same
  · subst same
    exact ⟨settled.each.c2s, settled.sound.each.c2s.in_active⟩
  · subst same
    exact ⟨settled.each.s2c, settled.sound.each.s2c.in_active⟩

/-- A pipe that is not done waits for its input or for its output. -/
theorem Settled.watched (settled : s.Settled) {p : ProxyPipe} (which : p = s.c2s ∨ p = s.s2c)
    (open_ : p.done = false) : p.inActive = true ∨ p.outActive = true := by
  rcases settled.pipe which with ⟨pipe, listens⟩
  have notDone : ¬ (p.broken = true ∨ p.eof = true ∧ p.rcvq.pq = [] ∧ p.sndq.pq = []) := by
    rw [← ProxyPipe.done_eq_true, open_]
    exact Bool.false_ne_true
  rcases not_or.mp notDone with ⟨unbroken, left⟩
  cases eof : p.eof with
  | false => exact Or.inl (listens eof)
  | true =>
      right
      apply pipe.watched (Bool.eq_false_iff.mpr unbroken)
      exact fun empty => left ⟨eof, pipe.filtered, empty⟩

end RfSession

/-- The first of two sessions ends in the middle of a packet while the second one still has to
send one. -/
def halfReceivedEvents : List LoopEvent :=
  [.connect [.connected 4 5, .connected 6 7],
    .client 1 (fun _ => none) (.cli (some
      { reads := [.received [4, 0, 1, 0], .failed .eagain]
        fuel := 0
        own := [.failed .eagain]
        other := [] }) none),
    .client 0 (fun _ => none) (.cli (some
      { reads := [.received [8, 0, 2, 0, 5], .eof], fuel := 0, own := [], other := [] }) none),
    .client 0 (fun _ => none) (.srv (some { reads := [.eof], fuel := 0, own := [], other := [] }) none)]

/-- Reference counts are exact in the whole process.  Whatever happens in any number of
sessions, with any filters and any reloads: the count of each packet is the number of
places that hold it, which are those in all sessions and the slots in which the sessions
that have ended were in the middle of receiving a packet.  No packet is in two of these
places; in particular, no packet belongs to two sessions.  And no packet was touched
after it was freed. -/
theorem process_counts_exact {F : Type} (base : List Nat) (plugins : List (Plugin F))
    (events : List LoopEvent) (s : Process F)
    (reached : Run.run Process.step (.start base plugins) events = some s) :
    (forall address, s.pool.refc address =
      (total Process.clientTokens s.clients +
        total Process.unfinished (Process.ended (.start base plugins) events)).countP
          fun token => token.2 = address) ∧
      (forall address, s.pool.refc address ≤ 1) ∧
      (forall (i j : Nat) (one other : Client F), s.clients[i]? = some one ->
        s.clients[j]? = some other -> i ≠ j -> forall address,
          one.session.Owns address -> ¬ other.session.Owns address) ∧
      s.pool.stale = [] := by
  have counted := Process.counted_of_run reached
  have once (address : Nat) : s.pool.refc address ≤ 1 := by
    by_contra many
    have alive : 0 < s.pool.refc address := Nat.lt_of_not_le fun dead => many (Nat.le_succ_of_le dead)
    rw [show s.pool.refc address = _ from counted.refc_eq address] at alive
    rcases Multiset.countP_pos.mp alive with ⟨token, held, rfl⟩
    exact many (Nat.le_of_eq (counted.refc_eq_one held))
  refine ⟨counted.refc_eq, once, ?_, counted.stale_eq⟩
  rintro i j one other first second different address ⟨place, own⟩ ⟨place', own'⟩
  have parts : Exists fun rest => total Process.clientTokens s.clients =
      Process.clientTokens one + (Process.clientTokens other + rest) :=
    Process.total_two first second different
  rcases parts with ⟨rest, split⟩
  have counts : s.pool.refc address = _ := counted.refc_eq address
  rw [split, Ledger.owners, Multiset.countP_add, Multiset.countP_add, Multiset.countP_add] at counts
  have here : 0 < (Process.clientTokens one).countP fun token => token.2 = address :=
    Multiset.countP_pos.mpr ⟨_, own, rfl⟩
  have there : 0 < (Process.clientTokens other).countP fun token => token.2 = address :=
    Multiset.countP_pos.mpr ⟨_, own', rfl⟩
  have single := once address
  omega

/-- One packet waits in a session; the other one belongs to nobody any more. -/
theorem process_counts_exact_half_received :
    Exists fun s => Run.run Process.step (.start [3] [countPlugin]) halfReceivedEvents = some s ∧
      s.clients.length = 1 ∧
      (total Process.clientTokens s.clients).countP (fun token => token.2 = 1) = 0 ∧
      (total Process.unfinished (Process.ended (.start [3] [countPlugin]) halfReceivedEvents)).countP
        (fun token => token.2 = 1) = 1 ∧
      s.pool.refc 0 = 1 ∧ s.pool.refc 1 = 1 ∧ s.pool.stale = [] := by
  have reached : Exists fun s =>
      Run.run Process.step (.start [3] [countPlugin]) halfReceivedEvents = some s ∧
        s.clients.length = 1 ∧
        (total Process.clientTokens s.clients).countP (fun token => token.2 = 0) = 1 ∧
        (total Process.clientTokens s.clients).countP (fun token => token.2 = 1) = 0 :=
    ⟨_, rfl, rfl, rfl, rfl⟩
  rcases reached with ⟨s, reached, one, sent, kept⟩
  have lost : (total Process.unfinished
      (Process.ended (.start [3] [countPlugin]) halfReceivedEvents)).countP
        (fun token => token.2 = 1) = 1 := rfl
  have none : (total Process.unfinished
      (Process.ended (.start [3] [countPlugin]) halfReceivedEvents)).countP
        (fun token => token.2 = 0) = 0 := rfl
  rcases process_counts_exact [3] [countPlugin] halfReceivedEvents s reached with
    ⟨counts, _, _, stale⟩
  refine ⟨s, reached, one, kept, lost, ?_, ?_, stale⟩
  · rw [counts 0, Multiset.countP_add, sent, none]
  · rw [counts 1, Multiset.countP_add, kept, lost]

/-- No session hangs.  Between two events every session of the process has filtered all
that it has received, listens until the end of its input, has an output that is not broken
watched while something is left to write, and the timers of its delayed packets are
running; so a session that is not done has an active watcher. -/
theorem process_never_hangs {F : Type} (base : List Nat) (plugins : List (Plugin F)) (s : Process F)
    (reached : Process.Reachable base plugins s) (c : Client F) (member : c ∈ s.clients) :
    (forall p, p = c.session.c2s ∨ p = c.session.s2c ->
      p.rcvq.pq = [] ∧ (p.eof = false -> p.inActive = true) ∧
        (p.broken = false -> p.sndq.pq ≠ [] -> p.outActive = true)) ∧
      (forall dp, dp ∈ c.session.dq.qh -> dp.active = true) ∧
      (c.session.done = false -> Exists fun p => (p = c.session.c2s ∨ p = c.session.s2c) ∧
        (p.inActive = true ∨ p.outActive = true)) := by
  have settled := Process.settled_of_reachable reached c member
  refine ⟨?_, settled.timed, ?_⟩
  · intro p which
    rcases settled.pipe which with ⟨pipe, listens⟩
    exact ⟨pipe.filtered, listens, pipe.watched⟩
  · intro open_
    rw [RfSession.done, Bool.and_eq_false_iff] at open_
    rcases open_ with first | second
    · exact ⟨_, Or.inl rfl, settled.watched (Or.inl rfl) first⟩
    · exact ⟨_, Or.inr rfl, settled.watched (Or.inr rfl) second⟩

theorem process_never_hangs_lost :
    Exists fun s => Exists fun c => Process.Reachable [3] [countPlugin] s ∧ s.clients[0]? = some c ∧
      (c.session.done = false -> Exists fun p => (p = c.session.c2s ∨ p = c.session.s2c) ∧
        (p.inActive = true ∨ p.outActive = true)) := by
  have reached : Exists fun s => Exists fun c => Process.Reachable [3] [countPlugin] s ∧
      s.clients[0]? = some c := ⟨_, _, ⟨countEvents, rfl⟩, rfl⟩
  rcases reached with ⟨s, c, reached, found⟩
  refine ⟨s, c, reached, found, ?_⟩
  exact (process_never_hangs [3] [countPlugin] s reached c (List.mem_of_getElem? found)).2.2

end Rfx
