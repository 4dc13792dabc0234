import Rfx.Process.Reload
import Rfx.Process.Sessions

namespace Rfx

open Library Library.Parts Library.RefCount

/-!
# Sessions do not disturb one another

The sessions share the modules, the allocator and the event loop.  Still, what happens to
one session happens in its own callbacks: between two of them its pipes, its delayed
packets and its filters stay as they are, and nobody takes or releases its packets.
-/

/-- Where `b` was taken out of two lists that belong together, `a` is found with what it
belongs to. -/
theorem getElem?_eraseIdx_idxOf {A B : Type} [DecidableEq A] {a b : A} (different : a ≠ b)
    {keys : List A} {entries : List B} (together : keys.length = entries.length) :
    (entries.eraseIdx (keys.idxOf b))[(keys.eraseIdx (keys.idxOf b)).idxOf a]? =
      entries[keys.idxOf a]? := by
  induction keys generalizing entries with
  | nil =>
      cases List.length_eq_zero_iff.mp together.symm
      rfl
  | cons key keys inductionHypothesis =>
      cases entries with
      | nil => cases together
      | cons entry entries =>
          by_cases gone : key = b
          · subst gone
            rw [List.idxOf_cons_self, List.idxOf_cons_ne _ different.symm]
            rfl
          · rw [List.idxOf_cons_ne _ gone, List.eraseIdx_cons_succ, List.eraseIdx_cons_succ]
            by_cases here : key = a
            · subst here
              rw [List.idxOf_cons_self, List.idxOf_cons_self]
              rfl
            · rw [List.idxOf_cons_ne _ here, List.idxOf_cons_ne _ here]
              exact inductionHypothesis (Nat.succ.inj together)

namespace Plugin

variable {F : Type} {p p' : Plugin F} {address other : Nat}

/-! ## One module -/

theorem look_added (sound : p.Sound) (member : address ∈ p.addresses) (files : Files) :
    (p.added other).look files address = p.look files address := by
  have position : (p.added other).position address = p.position address :=
    List.idxOf_append_of_mem member
  have found : (p.added other).module.ih[p.position address]? = p.module.ih[p.position address]? :=
    List.getElem?_append_left (sound.position_lt member)
  rw [look, look, position, found]
  rfl

theorem position_ne (member : address ∈ p.addresses) (different : address ≠ other) :
    p.position other ≠ p.position address :=
  fun same => different ((List.idxOf_inj member).mp same.symm)

theorem look_keep (member : address ∈ p.addresses) (different : address ≠ other) (state : F)
    (files : Files) : (p.keep other state).look files address = p.look files address := by
  have found : (p.keep other state).module.ih[p.position address]? = p.module.ih[p.position address]? := by
    rw [keep, List.getElem?_modify_ne _ _ (position_ne member different)]
  rw [look, look, show (p.keep other state).position address = p.position address from rfl, found]
  rfl

theorem look_destroy (sound : p.Sound) (different : address ≠ other)
    (destroyed : p.destroy other = some p') (files : Files) :
    p'.look files address = p.look files address := by
  rcases Option.map_eq_some_iff.mp destroyed with ⟨module, gone, rfl⟩
  rw [RfxModule.destroy] at gone
  split at gone
  · cases gone
    have found := getElem?_eraseIdx_idxOf different sound.length_eq
    rw [look, look]
    simp only [position]
    rw [found]
  · cases gone

end Plugin

namespace Process

variable {F : Type} {s next final : Process F} {plugins plugins' : List (Plugin F)}
  {held : Multiset InstancePtr} {files : Files} {i : InstancePtr} {c : Client F}

/-! ## All modules -/

/-- What a chain finds at one instance. -/
def finds (files : Files) (plugins : List (Plugin F)) (i : InstancePtr) : Option (RfxInstance F) :=
  (plugins[i.module]?).bind fun p => p.look files i.address

theorem filters_congr {ch : List InstancePtr}
    (same : forall i, i ∈ ch -> finds files plugins' i = finds files plugins i) :
    filters files plugins' ch = filters files plugins ch := by
  induction ch with
  | nil => rfl
  | cons i ch inductionHypothesis =>
      have rest := inductionHypothesis fun i member => same i (List.mem_cons_of_mem _ member)
      have split (plugins : List (Plugin F)) : filters files plugins (i :: ch) =
          (finds files plugins i).bind fun found =>
            (filters files plugins ch).map fun chain => found :: chain :=
        (Option.bind_assoc _ _ _).symm
      rw [split, split, same i List.mem_cons_self, rest]

theorem finds_built (listing : Listing plugins held) (member : i ∈ held) (next : Nat) :
    finds files (plugins.mapIdx fun j p => p.added (next + j)) i = finds files plugins i := by
  rcases listing.found member with ⟨p, found, sound, inside⟩
  rw [finds, finds, List.getElem?_mapIdx, found]
  exact Plugin.look_added sound inside files

theorem finds_keepStates (listing : Listing plugins held) (member : i ∈ held) {ch : List InstancePtr}
    (other : i ∉ ch) (chain : RfxFilterChain F) :
    finds files (keepStates ch chain plugins) i = finds files plugins i := by
  induction ch generalizing chain plugins with
  | nil => rfl
  | cons j ch inductionHypothesis =>
      cases chain with
      | nil => rfl
      | cons state chain =>
          rcases not_or.mp (List.mem_cons.not.mp other) with ⟨different, later⟩
          have kept := listing.modify j.module (f := fun p => p.keep j.address state.state)
            (fun p sound => sound.keep j.address state.state) (fun _ => rfl)
          rw [keepStates, inductionHypothesis kept later]
          rcases listing.found member with ⟨p, found, sound, inside⟩
          rw [finds, finds, List.getElem?_modify, found]
          by_cases same : j.module = i.module
          · have address : i.address ≠ j.address := by
              intro address
              apply different
              cases i
              cases j
              simp only at same address
              rw [same, address]
            simp only [same, if_true]
            exact Plugin.look_keep inside address state.state files
          · simp only [same, if_false]
            rfl

theorem finds_destroyChain {ch : List InstancePtr} (listing : Listing plugins (ch + held))
    (member : i ∈ held) (destroyed : destroyChain ch plugins = some plugins') :
    finds files plugins' i = finds files plugins i := by
  induction ch generalizing plugins with
  | nil =>
      cases destroyed
      rfl
  | cons j ch inductionHypothesis =>
      rw [← Multiset.cons_coe, Multiset.cons_add] at listing
      have there : i ∈ (↑ch + held : Multiset InstancePtr) := Multiset.mem_add.mpr (Or.inr member)
      rcases listing.destroy with ⟨p, p', found, gone, rest⟩
      rcases Multiset.nodup_cons.mp listing.nodup with ⟨once, _⟩
      rw [destroyChain, found, Option.bind_some, gone, Option.bind_some] at destroyed
      rw [inductionHypothesis rest destroyed, finds, finds]
      by_cases same : j.module = i.module
      · have address : i.address ≠ j.address := by
          intro address
          apply once
          cases i
          cases j
          simp only at same address
          rw [same, ← address]
          exact there
        have inside := listing.inside j (Multiset.mem_cons_self _ _)
        rw [← same, List.getElem?_set_self inside, found]
        exact Plugin.look_destroy (listing.sound p (List.mem_of_getElem? found)) address gone files
      · rw [List.getElem?_set_ne same]

/-! ## What a session keeps -/

/-- The session that an event calls. -/
def called (s : Process F) : LoopEvent -> Option (Client F)
  | .client index _ _ => s.clients[index]?
  | _ => none

/-- A session goes on as it is, with the filters that it has. -/
structure Keeps (c : Client F) (s next : Process F) : Prop where
  placed : next.Placed
  member : c ∈ next.clients
  filters : forall files, filters files next.plugins c.ch = filters files s.plugins c.ch

namespace Keeps

theorem trans {middle : Process F} (first : Keeps c s middle) (second : Keeps c middle next) :
    Keeps c s next :=
  ⟨second.placed, second.member, fun files => (second.filters files).trans (first.filters files)⟩

/-- Nothing happens to any session or module. -/
theorem same (placed : s.Placed) (member : c ∈ s.clients) (fds : Handles.Table Nat)
    (bootstraps : List Bootstrap) : Keeps c s { s with fds, bootstraps } :=
  ⟨⟨placed.listing, placed.chains, placed.fresh⟩, member, fun _ => rfl⟩

theorem mem_held (member : c ∈ s.clients) {i : InstancePtr} (inChain : i ∈ c.ch) :
    i ∈ total Client.instances s.clients :=
  mem_total.mpr ⟨c, member, Multiset.mem_coe.mpr inChain⟩

/-- Another session gets its instances. -/
theorem connected (placed : s.Placed) (member : c ∈ s.clients) {ch : List InstancePtr}
    (cli srv : Nat) (built : buildChain 0 s.next s.plugins = some (plugins, ch))
    (fds : Handles.Table Nat) (bootstraps : List Bootstrap) :
    Keeps c s { s with
      fds, plugins, bootstraps
      next := s.next + s.plugins.length
      clients := s.clients ++ [⟨cli, srv, ch, .start s.pool []⟩] } := by
  refine ⟨placed.client cli srv built fds bootstraps, List.mem_append_left _ member, ?_⟩
  rw [buildChain_eq placed.listing.sound] at built
  cases built
  intro files
  apply filters_congr
  exact fun i inChain => finds_built placed.listing (mem_held member inChain) s.next

theorem arrival (placed : s.Placed) (member : c ∈ s.clients) (arrival : Arrival s next) :
    Keeps c s next := by
  cases arrival with
  | away => exact same placed member s.fds s.bootstraps
  | waiting cli srv fds opened => exact same placed member fds _
  | connected cli srv fds plugins ch opened built =>
      exact connected placed member cli srv built fds s.bootstraps

theorem connect {accepted : List Accepted} (placed : s.Placed) (member : c ∈ s.clients)
    (taken : cliConnectCb accepted s = some next) : Keeps c s next := by
  induction accepted generalizing s with
  | nil =>
      cases taken
      exact same placed member _ _
  | cons first later inductionHypothesis =>
      rcases Option.bind_eq_some_iff.mp taken with ⟨middle, accepted, rest⟩
      have one := arrival placed member (accept_arrives accepted)
      exact one.trans (inductionHypothesis one.placed one.member rest)

theorem bootstrapIo {index : Nat} {failed : Bool} (placed : s.Placed) (member : c ∈ s.clients)
    (taken : s.bootstrapIoCb index failed = some next) : Keeps c s next := by
  rw [bootstrapIoCb, Option.bind_eq_some_iff] at taken
  rcases taken with ⟨b, found, taken⟩
  split at taken
  · rcases Option.bind_eq_some_iff.mp taken with ⟨_, _, taken⟩
    split at taken
    · cases taken
      exact same placed member _ _
    · rcases Option.map_eq_some_iff.mp taken with ⟨⟨plugins, ch⟩, built, rfl⟩
      exact connected placed member b.cli b.srv built s.fds _
  · cases taken

theorem bootstrapTimer {index : Nat} (placed : s.Placed) (member : c ∈ s.clients)
    (taken : s.bootstrapTmrCb index = some next) : Keeps c s next := by
  rw [bootstrapTmrCb, Option.bind_eq_some_iff] at taken
  rcases taken with ⟨b, found, taken⟩
  split at taken
  · simp only at taken
    split at taken
    · cases taken
      exact same placed member s.fds _
    · rcases Option.map_eq_some_iff.mp taken with ⟨_, _, rfl⟩
      exact same placed member _ _
  · cases taken

/-- A callback of another session, whose instances are others. -/
theorem other {index : Nat} {files : Files} {callback : Callback} (placed : s.Placed)
    (left : c ∈ s.clients.eraseIdx index) (taken : s.clientCb index files callback = some next) :
    Keeps c s next := by
  have moved := placed.move (clientCb_moves taken)
  simp only [clientCb, Option.bind_eq_some_iff] at taken
  rcases taken with ⟨d, found, flt, filtered, session, stepped, taken⟩
  have split : total Client.instances s.clients =
      ↑d.ch + total Client.instances (s.clients.eraseIdx index) := total_eq found
  have others {i : InstancePtr} (inChain : i ∈ c.ch) :
      i ∈ total Client.instances (s.clients.eraseIdx index) :=
    mem_total.mpr ⟨c, left, Multiset.mem_coe.mpr inChain⟩
  split at taken
  · rcases Option.map_eq_some_iff.mp taken with ⟨plugins, destroyed, rfl⟩
    refine ⟨moved, left, fun files => filters_congr fun i inChain => ?_⟩
    exact finds_destroyChain (split ▸ placed.listing) (others inChain) destroyed
  · cases taken
    refine ⟨moved, ?_, fun files => filters_congr fun i inChain => ?_⟩
    · rcases List.mem_eraseIdx_iff_getElem?.mp left with ⟨place, different, there⟩
      apply List.mem_of_getElem? (i := place)
      rw [List.getElem?_set_ne different.symm, there]
    · apply finds_keepStates placed.listing (mem_held (List.mem_of_mem_eraseIdx left) inChain)
      intro shared
      have nodup := Multiset.nodup_add.mp (split ▸ placed.listing.nodup)
      exact Multiset.disjoint_left.mp nodup.2.2 (Multiset.mem_coe.mpr shared) (others inChain)

theorem client {index : Nat} {files : Files} {callback : Callback} (placed : s.Placed)
    (member : c ∈ s.clients) (spared : s.clients[index]? ≠ some c)
    (taken : s.clientCb index files callback = some next) : Keeps c s next := by
  refine other placed ?_ taken
  rcases List.mem_iff_getElem?.mp member with ⟨place, there⟩
  refine List.mem_eraseIdx_iff_getElem?.mpr ⟨place, ?_, there⟩
  rintro rfl
  exact spared there

/-- An event that neither calls the session nor looks at the modules. -/
theorem step {event : LoopEvent} (placed : s.Placed) (member : c ∈ s.clients)
    (spared : s.called event ≠ some c) (unchecked : isCheck event = false)
    (taken : s.step event = some next) : Keeps c s next := by
  cases event with
  | connect accepted => exact connect placed member taken
  | writable index =>
      rcases Option.bind_eq_some_iff.mp taken with ⟨b, found, taken⟩
      split at taken
      · cases taken
        exact same placed member s.fds _
      · cases taken
  | expired index =>
      rcases Option.bind_eq_some_iff.mp taken with ⟨b, found, taken⟩
      split at taken
      · cases taken
        exact same placed member s.fds _
      · cases taken
  | bootstrapIo index failed => exact bootstrapIo placed member taken
  | bootstrapTimer index => exact bootstrapTimer placed member taken
  | client index files callback => exact client placed member spared taken
  | pluginsCheck checks => cases unchecked

end Keeps

/-- Looking at the modules leaves the sessions alone. -/
theorem check_keeps {event : LoopEvent} (placed : s.Placed) (member : c ∈ s.clients)
    (checked : isCheck event = true) (taken : s.step event = some next) :
    next.Placed ∧ c ∈ next.clients := by
  cases event with
  | pluginsCheck checks =>
      rcases Option.map_eq_some_iff.mp taken with ⟨plugins, reloaded, rfl⟩
      exact ⟨placed.move (.reloaded checks plugins reloaded), member⟩
  | _ => cases checked

/-- A packet that a session holds has no other owner. -/
theorem refc_of_owns {base : List Nat} (reached : Reachable base plugins s) (member : c ∈ s.clients)
    {address : Nat} (own : c.session.Owns address) : s.pool.refc address = 1 := by
  rcases reached with ⟨events, reached⟩
  rcases own with ⟨place, held⟩
  have here : (place, address) ∈ total clientTokens s.clients + total unfinished
      (ended (start base plugins) events) :=
    Multiset.mem_add.mpr (Or.inl (mem_total.mpr ⟨c, member, held⟩))
  exact (counted_of_run reached).refc_eq_one here

end Process

/-- Sessions are isolated.  As long as no event calls a session, whatever else happens in
the process, the session goes on as it is: its connection, its pipes, its delayed packets
and its timers are the same, and each packet that it holds has no other owner, before and
after.  If the modules are not looked at meanwhile, its filters have the same states. -/
theorem sessions_are_isolated {F : Type} (base : List Nat) (plugins : List (Plugin F))
    (started : forall p, p ∈ plugins -> Process.Started p) (s : Process F)
    (reached : Process.Reachable base plugins s) (c : Client F) (member : c ∈ s.clients)
    (events : List LoopEvent) (final : Process F)
    (spared : Run.Meets Process.step (fun s event => s.called event ≠ some c) s events)
    (ran : Run.run Process.step s events = some final) :
    c ∈ final.clients ∧
      (forall address, c.session.Owns address ->
        s.pool.refc address = 1 ∧ final.pool.refc address = 1) ∧
      ((forall event, event ∈ events -> Process.isCheck event = false) -> forall files,
        Process.filters files final.plugins c.ch = Process.filters files s.plugins c.ch) := by
  have placed := (Process.placed_of_reachable started reached).1
  have stays : final.Placed ∧ c ∈ final.clients := by
    refine Run.run_invariant_of_meets (fun s : Process F => s.Placed ∧ c ∈ s.clients) ?_
      ⟨placed, member⟩ spared ran
    intro s event next now spared taken
    cases checked : Process.isCheck event with
    | true => exact Process.check_keeps now.1 now.2 checked taken
    | false =>
        have keeps := Process.Keeps.step now.1 now.2 spared checked taken
        exact ⟨keeps.placed, keeps.member⟩
  have reached' : Process.Reachable base plugins final := by
    rcases reached with ⟨earlier, first⟩
    exact ⟨earlier ++ events, Run.run_append.mpr ⟨s, first, ran⟩⟩
  refine ⟨stays.2, fun address own => ⟨?_, ?_⟩, ?_⟩
  · exact Process.refc_of_owns reached member own
  · exact Process.refc_of_owns reached' stays.2 own
  · intro unchecked
    have keeps : Process.Keeps c s final := by
      refine Run.run_invariant_of_meets (Process.Keeps c s) ?_
        (.same placed member s.fds s.bootstraps) (spared.and_labels unchecked) ran
      intro s event next now allowed taken
      exact now.trans (Process.Keeps.step now.placed now.member allowed.1 allowed.2 taken)
    exact keeps.filters

/-- Two sessions, of which the first one has received a packet. -/
def twoSessions : List LoopEvent :=
  [.connect [.connected 4 5, .connected 6 7],
    .client 0 (fun _ => none) (.cli (some
      { reads := [.received [4, 0, 1, 0], .failed .eagain]
        fuel := 0
        own := [.failed .eagain]
        other := [] }) none)]

/-- Both ends of a connection are closed. -/
def clientLeaves : LoopEvent :=
  .client 1 (fun _ => none) (.cli (some
    { reads := [.received [4, 0, 2, 0], .eof]
      fuel := 0
      own := [.accepted 4]
      other := [] }) none)

def serverLeaves : LoopEvent :=
  .client 1 (fun _ => none) (.srv (some { reads := [.eof], fuel := 0, own := [], other := [] }) none)

/-- While the second session ends, the first one waits with its packet. -/
theorem sessions_are_isolated_ended :
    Exists fun s => Exists fun c => Exists fun final =>
      Run.run Process.step (.start [3] [countPlugin]) twoSessions = some s ∧ s.clients[0]? = some c ∧
        Run.run Process.step s [clientLeaves, serverLeaves] = some final ∧
        final.clients.length = 1 ∧ c ∈ final.clients ∧
        c.session.c2s.sndq.pq.map RfPacket.ptr = [0] ∧ final.pool.refc 0 = 1 := by
  have reached : Exists fun s => Exists fun c => Exists fun other => Exists fun middle =>
      Exists fun other' => Exists fun final =>
        Run.run Process.step (.start [3] [countPlugin]) twoSessions = some s ∧
        s.clients = [c, other] ∧ s.step clientLeaves = some middle ∧ middle.clients = [c, other'] ∧
        middle.step serverLeaves = some final ∧ final.clients.length = 1 ∧
        c.cli = 4 ∧ other.cli = 6 ∧ other'.cli = 6 ∧
        c.session.c2s.sndq.pq.map RfPacket.ptr = [0] ∧ c.session.Owns 0 :=
    ⟨_, _, _, _, _, _, rfl, rfl, rfl, rfl, rfl, rfl, rfl, rfl, rfl, rfl, ⟨.sndq cliToSrv, by decide⟩⟩
  rcases reached with ⟨s, c, other, middle, other', final, reached, before, first, between, second,
    one, cli, otherCli, otherCli', waits, own⟩
  have ran : Run.run Process.step s [clientLeaves, serverLeaves] = some final :=
    Run.run_two first second
  have apart {d : Client Nat} (six : d.cli = 6) : some d ≠ some c := by
    rintro same
    cases same
    rw [cli] at six
    cases six
  have spared : Run.Meets Process.step (fun s event => s.called event ≠ some c) s
      [clientLeaves, serverLeaves] := by
    refine ⟨?_, fun next taken => ⟨?_, fun _ _ => trivial⟩⟩
    · simp only [Process.called, clientLeaves, before]
      exact apart otherCli
    · rw [first] at taken
      cases taken
      simp only [Process.called, serverLeaves, between]
      exact apart otherCli'
  have member : c ∈ s.clients := before ▸ List.mem_cons_self
  rcases sessions_are_isolated [3] [countPlugin] started_countPlugin s ⟨twoSessions, reached⟩ c member
    [clientLeaves, serverLeaves] final spared ran with ⟨stays, counted, _⟩
  exact ⟨s, c, final, reached, before ▸ rfl, ran, one, stays, waits, (counted 0 own).2⟩

end Rfx
