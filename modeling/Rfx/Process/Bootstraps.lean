import Rfx.Process.Instances

namespace Rfx

open Library

/-!
# Connections to the server

Every bootstrap has a watcher whose event ends it.  What it leaves behind is a session,
or nothing.
-/

/-- A bootstrap hears of its connection, and of the end of its time unless that has come
or the connection is about to be handled. -/
structure Bootstrap.Waiting (b : Bootstrap) : Prop where
  listens : b.io.active = true
  timed : b.timeout.active = true ∨ b.timeout.pending = true ∨ b.io.pending = true

namespace Process

variable {F : Type} {s next : Process F} {base : List Nat} {plugins : List (Plugin F)}
  {index : Nat} {b : Bootstrap}

theorem waiting_watched {b b' : Bootstrap} (waiting : b.Waiting) (watched : Watched b b') :
    b'.Waiting := by
  cases watched with
  | writable active => exact ⟨active, Or.inr (Or.inr rfl)⟩
  | expired active => exact ⟨waiting.listens, Or.inr (Or.inl rfl)⟩
  | deferred pending later => exact ⟨waiting.listens, Or.inr (Or.inr later)⟩

theorem waiting_move (waiting : forall b, b ∈ s.bootstraps -> b.Waiting) (move : Move s next) :
    forall b, b ∈ next.bootstraps -> b.Waiting := by
  intro b member
  cases move with
  | waiting cli srv fds opened =>
      rcases List.mem_append.mp member with old | new
      · exact waiting b old
      · exact List.mem_singleton.mp new ▸ ⟨rfl, Or.inl rfl⟩
  | watched index first last found watched =>
      rcases List.mem_or_eq_of_mem_set member with old | new
      · exact waiting b old
      · exact new ▸ waiting_watched (waiting first (List.mem_of_getElem? found)) watched
  | failed index other found => exact waiting b (List.mem_of_mem_eraseIdx member)
  | connected cli srv fds plugins ch opened built => exact waiting b member
  | established index other plugins ch found built =>
      exact waiting b (List.mem_of_mem_eraseIdx member)
  | called index c files flt callback session found filtered stepped live => exact waiting b member
  | ended index c files flt callback session plugins found filtered stepped deleted destroyed =>
      exact waiting b member
  | reloaded checks plugins reloaded => exact waiting b member

theorem waiting_of_reachable (reached : Reachable base plugins s) (found : s.bootstraps[index]? = some b) :
    b.Waiting :=
  reachable_rule (fun s => forall b, b ∈ s.bootstraps -> b.Waiting)
    (fun _ _ now move => waiting_move now move) (fun _ member => absurd member List.not_mem_nil)
    reached b (List.mem_of_getElem? found)

/-- The process without a bootstrap whose connection was not established. -/
def giveUp (s : Process F) (index : Nat) (b : Bootstrap) : Process F :=
  ({ s with bootstraps := s.bootstraps.eraseIdx index }.close b.cli).close b.srv

/-- The process in which a session has taken the place of a bootstrap.  It has the
descriptors of the bootstrap and a new instance of each module. -/
def handOver (s : Process F) (index : Nat) (b : Bootstrap) : Process F :=
  { s with
    next := s.next + s.plugins.length
    plugins := s.plugins.mapIdx fun j p => p.added (s.next + j)
    bootstraps := s.bootstraps.eraseIdx index
    clients := s.clients ++
      [⟨b.cli, b.srv, newChain 0 s.next s.plugins.length, .start s.pool []⟩] }

theorem bootstrapIoCb_failed (found : s.bootstraps[index]? = some b) (pending : b.io.pending = true) :
    s.step (.bootstrapIo index true) = some (s.giveUp index b) := by
  simp only [step, bootstrapIoCb, found, Option.bind_some, pending, if_true]
  rfl

theorem bootstrapIoCb_established (placed : s.Placed) (found : s.bootstraps[index]? = some b)
    (pending : b.io.pending = true) :
    s.step (.bootstrapIo index false) = some (s.handOver index b) := by
  have built := buildChain_eq placed.listing.sound 0 s.next
  have handed : { s with bootstraps := s.bootstraps.eraseIdx index }.proxyRun b.cli b.srv =
      some (s.handOver index b) := by
    rw [proxyRun, built]
    rfl
  simp only [step, bootstrapIoCb, found, Option.bind_some, pending, if_true]
  exact handed

theorem bootstrapTmrCb_gives_up (found : s.bootstraps[index]? = some b)
    (ended : b.timeout.pending = true) (quiet : b.io.pending = false) :
    s.step (.bootstrapTimer index) = some (s.giveUp index b) := by
  simp only [step, bootstrapTmrCb, found, Option.bind_some, ended, quiet, if_true, Bool.false_eq_true,
    if_false]
  rfl

theorem expired_gives_up (found : s.bootstraps[index]? = some b)
    (running : b.timeout.active = true) (quiet : b.io.pending = false) :
    Run.run step s [.expired index, .bootstrapTimer index] = some (s.giveUp index b) := by
  have inside : index < s.bootstraps.length := (List.getElem?_eq_some_iff.mp found).1
  have stepped : s.step (.expired index) =
      some { s with bootstraps := s.bootstraps.set index { b with timeout := ⟨false, true⟩ } } := by
    simp only [step, expired, found, Option.bind_some, running, if_true]
  refine Run.run_two stepped ?_
  rw [bootstrapTmrCb_gives_up (b := { b with timeout := ⟨false, true⟩ })
    (List.getElem?_set_self inside) rfl quiet, giveUp, giveUp, List.eraseIdx_set_eq]

end Process

/-- No connection to the server is forgotten.  A bootstrap in any state of the process
listens to its connection.  A result that has come is settled, whatever it says: either
both descriptors are closed, or they go to a new session, which all modules have an
instance for.  While nothing is heard, the time of the bootstrap is up, or will be, and
its end closes both descriptors.  Everything else is left alone. -/
theorem bootstraps_settle {F : Type} (base : List Nat) (plugins : List (Plugin F)) (s : Process F)
    (reached : Process.Reachable base plugins s) (index : Nat) (b : Bootstrap)
    (found : s.bootstraps[index]? = some b) :
    b.io.active = true ∧
      (b.io.pending = true ∧ s.step (.bootstrapIo index true) = some (s.giveUp index b) ∧
        ((forall p, p ∈ plugins -> Process.Started p) ->
          s.step (.bootstrapIo index false) = some (s.handOver index b)) ∨
        b.io.pending = false ∧ (s.step (.bootstrapTimer index) = some (s.giveUp index b) ∨
          Run.run Process.step s [.expired index, .bootstrapTimer index] = some (s.giveUp index b))) := by
  have waiting := Process.waiting_of_reachable reached found
  refine ⟨waiting.listens, ?_⟩
  cases pending : b.io.pending with
  | true =>
      refine Or.inl ⟨rfl, Process.bootstrapIoCb_failed found pending, fun started => ?_⟩
      exact Process.bootstrapIoCb_established (Process.placed_of_reachable started reached).1 found
        pending
  | false =>
      right
      refine ⟨rfl, ?_⟩
      rcases waiting.timed with running | ended | heard
      · exact Or.inr (Process.expired_gives_up found running pending)
      · exact Or.inl (Process.bootstrapTmrCb_gives_up found ended pending)
      · rw [pending] at heard
        cases heard

/-- The time is up just when the result is there.  A client came earlier. -/
theorem bootstraps_settle_deferred :
    Exists fun s => Exists fun b =>
      Process.Reachable [3] [countPlugin] s ∧ s.bootstraps[0]? = some b ∧
        b.timeout = ⟨false, false⟩ ∧ s.step (.bootstrapIo 0 true) = some (s.giveUp 0 b) ∧
        s.step (.bootstrapIo 0 false) = some (s.handOver 0 b) ∧
        (s.handOver 0 b).bootstraps = [] ∧
        ((s.handOver 0 b).clients.map fun c => (c.cli, c.srv, c.ch)) =
          [(4, 5, [⟨0, 0⟩]), (6, 7, [⟨0, 1⟩])] := by
  let events : List LoopEvent :=
    [.connect [.connected 4 5, .inProgress 6 7], .expired 0, .writable 0, .bootstrapTimer 0]
  have reached : Process.Reachable [3] [countPlugin] _ := ⟨events, rfl⟩
  have settles := (bootstraps_settle [3] [countPlugin] _ reached 0 _ rfl).2
  rcases settles with ⟨_, gone, handed⟩ | ⟨quiet, _⟩
  · exact ⟨_, _, reached, rfl, rfl, gone, handed started_countPlugin, rfl, rfl⟩
  · cases quiet

end Rfx
