import Mathlib.Data.List.Forall2
import Rfx.Library.Handles
import Rfx.Module
import Rfx.Session

namespace Rfx

open Library Library.Handles

/-!
# The process

The rest of `main.cpp`: connections that are accepted, connections to the server that
are being established, the sessions that come of them, and the modules that all
sessions share.  The event loop calls one function at a time.

The kernel answers with descriptors, which are numbers that are not in use.  An
instance of a filter is linked in the list of its module and in the chain of its
session; it is named by its address.  A call of an instance that its module does not
have, or of the code of a library that has been closed, has no result, and neither has
the destruction of an object whose watchers are still known to the event loop.

During one callback the files that filters read stay the same.
-/

/-! ## Modules with named instances -/

/-- A module, the code that its libraries contain, and the addresses of the instances
in its list. -/
structure Plugin (F : Type) where
  cls : RfxFilterClass F
  apiVer : String
  module : RfxModule F
  addresses : List Nat

/-- `rfx_instance *` with its member `module`. -/
structure InstancePtr where
  module : Nat
  address : Nat
  deriving DecidableEq

namespace Plugin

variable {F : Type}

/-- What `load_plugins` does for one plugin. -/
def load (cls : RfxFilterClass F) (apiVer : String) (filterNew : Option Nat) (tstamp : Int)
    (attempt : LoadAttempt) : Plugin F where
  cls := cls
  apiVer := apiVer
  module := .loadPlugin apiVer filterNew tstamp attempt
  addresses := []

/-- The position of an instance in the list of its module. -/
def position (p : Plugin F) (address : Nat) : Nat :=
  p.addresses.idxOf address

/-- `new_instance`, which gets memory at an address. -/
def newInstance (p : Plugin F) (address : Nat) : Option (Plugin F) :=
  (p.module.newInstance p.cls).map fun module =>
    { p with module, addresses := p.addresses ++ [address] }

/-- The destructor of an instance, as far as its module is concerned. -/
def destroy (p : Plugin F) (address : Nat) : Option (Plugin F) :=
  (p.module.destroy (p.position address)).map fun module =>
    { p with module, addresses := p.addresses.eraseIdx (p.position address) }

/-- What a chain finds at an instance: its filter, unless it has none. -/
def look (files : Files) (p : Plugin F) (address : Nat) : Option (RfxInstance F) :=
  match p.module.ih[p.position address]? with
  | none => none
  | some i =>
      match i.flt with
      | none => some { flt := none, state := p.cls.filterNew }
      | some f =>
          if p.module.dlh.isSome then some { flt := some (p.cls.process files), state := f }
          else none

/-- The filter of an instance, if it has one, has got a new state. -/
def keep (p : Plugin F) (address : Nat) (state : F) : Plugin F :=
  { p with
    module := { p.module with
      ih := p.module.ih.modify (p.position address) fun i =>
        { i with flt := i.flt.map fun _ => state } } }

end Plugin

/-! ## Connections -/

/-- A watcher of libev: it waits for its event, or its event is about to be handled. -/
structure Watcher where
  active : Bool
  pending : Bool
  deriving DecidableEq

namespace Watcher

/-- `ev_io_start` and `ev_timer_start` on a new watcher. -/
def started : Watcher :=
  ⟨true, false⟩

/-- `ev_io_stop` and `ev_timer_stop`, which also forget an event. -/
def stop (_ : Watcher) : Watcher :=
  ⟨false, false⟩

/-- The loop does not know the watcher. -/
def idle (w : Watcher) : Bool :=
  !w.active && !w.pending

end Watcher

/-- `struct bootstrap`. -/
structure Bootstrap where
  cli : Nat
  srv : Nat
  io : Watcher
  timeout : Watcher
  deriving DecidableEq

namespace Bootstrap

/-- The constructor, `ev_io_start` and `ev_timer_start`. -/
def start (cli srv : Nat) : Bootstrap :=
  ⟨cli, srv, .started, .started⟩

/-- `ev_io_stop` and `ev_timer_stop`. -/
def stop (b : Bootstrap) : Bootstrap :=
  { b with io := b.io.stop, timeout := b.timeout.stop }

/-- `delete b`. -/
def delete (b : Bootstrap) : Option Unit :=
  if b.io.idle && b.timeout.idle then some () else none

end Bootstrap

/-- An `rf_session`, the descriptors of its pipes, and the instances in its chain.  The
pool and the filters in `session` are those of its last callback. -/
structure Client (F : Type) where
  cli : Nat
  srv : Nat
  ch : List InstancePtr
  session : RfSession F

/-- What comes of one call of `accept` that returned a descriptor. -/
inductive Accepted
  | noSocket (cli : Nat)
  | blocking (cli srv : Nat)
  | refused (cli srv : Nat)
  | inProgress (cli srv : Nat)
  | connected (cli srv : Nat)

/-- What `need_reload` and `reload` find out about a module. -/
structure PluginCheck where
  mtime : Option Int
  now : Int
  attempt : LoadAttempt

/-- What happens in the event loop.  `writable` and `expired` are what the loop itself
does before it calls `io_cb` and `tmr_cb`. -/
inductive LoopEvent
  | connect (accepted : List Accepted)
  | writable (index : Nat)
  | expired (index : Nat)
  | bootstrapIo (index : Nat) (failed : Bool)
  | bootstrapTimer (index : Nat)
  | client (index : Nat) (files : Files) (callback : Callback)
  | pluginsCheck (checks : List PluginCheck)

/-- The whole process; `next` is the address of the next instance. -/
structure Process (F : Type) where
  fds : Table Nat
  pool : Pool
  next : Nat
  plugins : List (Plugin F)
  bootstraps : List Bootstrap
  clients : List (Client F)

namespace Process

variable {F : Type}

/-- `main` before it enters the loop.  Some descriptors are open already, such as the
listening socket. -/
def start (fds : List Nat) (plugins : List (Plugin F)) : Process F where
  fds := { opened := fds, stale := [] }
  pool := RefCount.Heap.empty
  next := 0
  plugins := plugins
  bootstraps := []
  clients := []

def openFd (s : Process F) (fd : Nat) : Option (Process F) :=
  (s.fds.opens fd).map fun fds => { s with fds }

/-- `close`. -/
def close (s : Process F) (fd : Nat) : Process F :=
  { s with fds := s.fds.close fd }

/-! ## Sessions -/

/-- `build_chain`, from the module with number `index` on. -/
def buildChain : Nat -> Nat -> List (Plugin F) -> Option (List (Plugin F) × List InstancePtr)
  | _, _, [] => some ([], [])
  | index, next, p :: plugins =>
      (p.newInstance next).bind fun p =>
        (buildChain (index + 1) (next + 1) plugins).map fun built =>
          (p :: built.1, ⟨index, next⟩ :: built.2)

/-- The destructor of `rfx_filter_chain`. -/
def destroyChain : List InstancePtr -> List (Plugin F) -> Option (List (Plugin F))
  | [], plugins => some plugins
  | i :: ch, plugins =>
      (plugins[i.module]?).bind fun p =>
        (p.destroy i.address).bind fun p => destroyChain ch (plugins.set i.module p)

/-- The filters of a chain and their states. -/
def filters (files : Files) (plugins : List (Plugin F)) : List InstancePtr -> Option (RfxFilterChain F)
  | [] => some []
  | i :: ch =>
      (plugins[i.module]?).bind fun p =>
        (p.look files i.address).bind fun found =>
          (filters files plugins ch).map fun chain => found :: chain

/-- The states that the filters of a chain have got. -/
def keepStates : List InstancePtr -> RfxFilterChain F -> List (Plugin F) -> List (Plugin F)
  | i :: ch, found :: chain, plugins =>
      keepStates ch chain (plugins.modify i.module fun p => p.keep i.address found.state)
  | _, _, plugins => plugins

/-- `proxy_run`.  The first callback of the session brings its filters along. -/
def proxyRun (s : Process F) (cli srv : Nat) : Option (Process F) :=
  (buildChain 0 s.next s.plugins).map fun built =>
    { s with
      next := s.next + s.plugins.length
      plugins := built.1
      clients := s.clients ++ [⟨cli, srv, built.2, .start s.pool []⟩] }

/-- `cli_io_cb`, `srv_io_cb` and `timeout_cb` of a session. -/
def clientCb (s : Process F) (index : Nat) (files : Files) (callback : Callback) : Option (Process F) :=
  (s.clients[index]?).bind fun c =>
    (filters files s.plugins c.ch).bind fun flt =>
      ({ c.session with pool := s.pool, flt }.step callback).bind fun session =>
        if session.deleted then
          (destroyChain c.ch s.plugins).map fun plugins =>
            { (s.close c.cli).close c.srv with
              pool := session.pool
              plugins
              clients := s.clients.eraseIdx index }
        else
          some { s with
            pool := session.pool
            plugins := keepStates c.ch session.flt s.plugins
            clients := s.clients.set index { c with session } }

/-! ## Bootstraps -/

/-- `bootstrap::io_cb`; `failed` says that `getsockopt` failed or found an error. -/
def bootstrapIoCb (s : Process F) (index : Nat) (failed : Bool) : Option (Process F) :=
  (s.bootstraps[index]?).bind fun b =>
    if b.io.pending then
      let b := b.stop
      b.delete.bind fun _ =>
        let s := { s with bootstraps := s.bootstraps.eraseIdx index }
        if failed then some ((s.close b.cli).close b.srv) else s.proxyRun b.cli b.srv
    else none

/-- `bootstrap::tmr_cb`. -/
def bootstrapTmrCb (s : Process F) (index : Nat) : Option (Process F) :=
  (s.bootstraps[index]?).bind fun b =>
    if b.timeout.pending then
      let b := { b with timeout := { b.timeout with pending := false } }
      if b.io.pending then some { s with bootstraps := s.bootstraps.set index b }
      else
        let b := b.stop
        b.delete.map fun _ =>
          ({ s with bootstraps := s.bootstraps.eraseIdx index }.close b.cli).close b.srv
    else none

/-- The loop finds that a connection has been established or has failed. -/
def writable (s : Process F) (index : Nat) : Option (Process F) :=
  (s.bootstraps[index]?).bind fun b =>
    if b.io.active then
      some { s with bootstraps := s.bootstraps.set index { b with io := { b.io with pending := true } } }
    else none

/-- The loop finds that the time of a bootstrap is up.  Its timer does not repeat. -/
def expired (s : Process F) (index : Nat) : Option (Process F) :=
  (s.bootstraps[index]?).bind fun b =>
    if b.timeout.active then
      some { s with bootstraps := s.bootstraps.set index { b with timeout := ⟨false, true⟩ } }
    else none

/-! ## The loop -/

/-- The body of the loop of `cli_connect_cb`. -/
def accept (s : Process F) : Accepted -> Option (Process F)
  | .noSocket cli => (s.openFd cli).map fun s => s.close cli
  | .blocking cli srv =>
      (s.openFd cli).bind fun s => (s.openFd srv).map fun s => (s.close cli).close srv
  | .refused cli srv =>
      (s.openFd cli).bind fun s => (s.openFd srv).map fun s => (s.close cli).close srv
  | .inProgress cli srv =>
      (s.openFd cli).bind fun s => (s.openFd srv).map fun s =>
        { s with bootstraps := s.bootstraps ++ [.start cli srv] }
  | .connected cli srv => (s.openFd cli).bind fun s => (s.openFd srv).bind fun s => s.proxyRun cli srv

/-- `cli_connect_cb`. -/
def cliConnectCb : List Accepted -> Process F -> Option (Process F)
  | [], s => some s
  | accepted :: later, s => (s.accept accepted).bind (cliConnectCb later)

/-- `reload_plugins`. -/
def reloadPlugins : List PluginCheck -> List (Plugin F) -> Option (List (Plugin F))
  | [], [] => some []
  | check :: checks, p :: plugins =>
      (if p.module.needReload check.mtime check.now then
        (p.module.reload p.cls p.apiVer check.attempt).map fun module => { p with module }
      else some p).bind fun p => (reloadPlugins checks plugins).map (p :: ·)
  | _, _ => none

/-- One call from the event loop. -/
def step (s : Process F) : LoopEvent -> Option (Process F)
  | .connect accepted => cliConnectCb accepted s
  | .writable index => s.writable index
  | .expired index => s.expired index
  | .bootstrapIo index failed => s.bootstrapIoCb index failed
  | .bootstrapTimer index => s.bootstrapTmrCb index
  | .client index files callback => s.clientCb index files callback
  | .pluginsCheck checks => (reloadPlugins checks s.plugins).map fun plugins => { s with plugins }

/-- The states that the process can get into. -/
def Reachable (fds : List Nat) (plugins : List (Plugin F)) (s : Process F) : Prop :=
  Exists fun events => Run.run step (start fds plugins) events = some s

/-! ## What an event comes to -/

/-- What the loop, or a timer that finds a pending result, does to the watchers of a
bootstrap. -/
inductive Watched (b : Bootstrap) : Bootstrap -> Prop
  | writable (active : b.io.active = true) : Watched b { b with io := { b.io with pending := true } }
  | expired (active : b.timeout.active = true) : Watched b { b with timeout := ⟨false, true⟩ }
  | deferred (pending : b.timeout.pending = true) (later : b.io.pending = true) :
      Watched b { b with timeout := { b.timeout with pending := false } }

/-- A part of an event after which the process is in order again. -/
inductive Move (s : Process F) : Process F -> Prop
  | waiting (cli srv : Nat) (fds : Table Nat)
      (opened : (s.fds.opens cli).bind (fun fds => fds.opens srv) = some fds) :
      Move s { s with fds, bootstraps := s.bootstraps ++ [.start cli srv] }
  | watched (index : Nat) (b b' : Bootstrap) (found : s.bootstraps[index]? = some b)
      (watched : Watched b b') : Move s { s with bootstraps := s.bootstraps.set index b' }
  | failed (index : Nat) (b : Bootstrap) (found : s.bootstraps[index]? = some b) :
      Move s (({ s with bootstraps := s.bootstraps.eraseIdx index }.close b.cli).close b.srv)
  | connected (cli srv : Nat) (fds : Table Nat) (plugins : List (Plugin F)) (ch : List InstancePtr)
      (opened : (s.fds.opens cli).bind (fun fds => fds.opens srv) = some fds)
      (built : buildChain 0 s.next s.plugins = some (plugins, ch)) :
      Move s { s with
        fds, plugins
        next := s.next + s.plugins.length
        clients := s.clients ++ [⟨cli, srv, ch, .start s.pool []⟩] }
  | established (index : Nat) (b : Bootstrap) (plugins : List (Plugin F)) (ch : List InstancePtr)
      (found : s.bootstraps[index]? = some b) (built : buildChain 0 s.next s.plugins = some (plugins, ch)) :
      Move s { s with
        plugins
        bootstraps := s.bootstraps.eraseIdx index
        next := s.next + s.plugins.length
        clients := s.clients ++ [⟨b.cli, b.srv, ch, .start s.pool []⟩] }
  | called (index : Nat) (c : Client F) (files : Files) (flt : RfxFilterChain F)
      (callback : Callback) (session : RfSession F) (found : s.clients[index]? = some c)
      (filtered : filters files s.plugins c.ch = some flt)
      (stepped : { c.session with pool := s.pool, flt }.step callback = some session)
      (live : session.deleted = false) :
      Move s { s with
        pool := session.pool
        plugins := keepStates c.ch session.flt s.plugins
        clients := s.clients.set index { c with session } }
  | ended (index : Nat) (c : Client F) (files : Files) (flt : RfxFilterChain F)
      (callback : Callback) (session : RfSession F) (plugins : List (Plugin F))
      (found : s.clients[index]? = some c) (filtered : filters files s.plugins c.ch = some flt)
      (stepped : { c.session with pool := s.pool, flt }.step callback = some session)
      (deleted : session.deleted = true) (destroyed : destroyChain c.ch s.plugins = some plugins) :
      Move s { (s.close c.cli).close c.srv with
        pool := session.pool
        plugins
        clients := s.clients.eraseIdx index }
  | reloaded (checks : List PluginCheck) (plugins : List (Plugin F))
      (reloaded : reloadPlugins checks s.plugins = some plugins) : Move s { s with plugins }

/-- Moves that follow one another. -/
abbrev Moves : Process F -> Process F -> Prop :=
  Relation.ReflTransGen Move

variable {s next : Process F}

/-- What a check comes to for one module. -/
inductive Reloads (p : Plugin F) : Plugin F -> Prop
  | unchanged : Reloads p p
  | reloaded (attempt : LoadAttempt) (module : RfxModule F)
      (taken : p.module.reload p.cls p.apiVer attempt = some module) : Reloads p { p with module }

theorem reloadPlugins_spec {checks : List PluginCheck} {plugins plugins' : List (Plugin F)}
    (taken : reloadPlugins checks plugins = some plugins') : List.Forall₂ Reloads plugins plugins' := by
  induction checks generalizing plugins plugins' with
  | nil =>
      cases plugins with
      | nil =>
          cases taken
          exact .nil
      | cons p plugins => cases taken
  | cons check checks inductionHypothesis =>
      cases plugins with
      | nil => cases taken
      | cons p plugins =>
          rcases Option.bind_eq_some_iff.mp taken with ⟨p', first, taken⟩
          rcases Option.map_eq_some_iff.mp taken with ⟨rest, later, rfl⟩
          refine .cons ?_ (inductionHypothesis later)
          split at first
          · rcases Option.map_eq_some_iff.mp first with ⟨module, reloaded, rfl⟩
            exact .reloaded check.attempt module reloaded
          · cases first
            exact .unchanged

theorem bootstrapIoCb_moves {index : Nat} {failed : Bool}
    (taken : s.bootstrapIoCb index failed = some next) : Move s next := by
  rw [bootstrapIoCb, Option.bind_eq_some_iff] at taken
  rcases taken with ⟨b, found, taken⟩
  split at taken
  · simp only [Option.bind_eq_some_iff] at taken
    rcases taken with ⟨_, _, taken⟩
    split at taken
    · cases taken
      exact .failed index b found
    · rcases Option.map_eq_some_iff.mp taken with ⟨⟨plugins, ch⟩, built, rfl⟩
      exact .established index b plugins ch found built
  · cases taken

theorem bootstrapTmrCb_moves {index : Nat} (taken : s.bootstrapTmrCb index = some next) :
    Move s next := by
  rw [bootstrapTmrCb, Option.bind_eq_some_iff] at taken
  rcases taken with ⟨b, found, taken⟩
  split at taken
  · rename_i pending
    simp only at taken
    split at taken
    · rename_i later
      cases taken
      exact .watched index b _ found (.deferred pending later)
    · rcases Option.map_eq_some_iff.mp taken with ⟨_, _, rfl⟩
      exact .failed index b found
  · cases taken

theorem clientCb_moves {index : Nat} {files : Files} {callback : Callback}
    (taken : s.clientCb index files callback = some next) : Move s next := by
  simp only [clientCb, Option.bind_eq_some_iff] at taken
  rcases taken with ⟨c, found, flt, filtered, session, stepped, taken⟩
  split at taken
  · rename_i deleted
    rcases Option.map_eq_some_iff.mp taken with ⟨plugins, destroyed, rfl⟩
    exact .ended index c files flt callback session plugins found filtered stepped deleted destroyed
  · rename_i live
    cases taken
    exact .called index c files flt callback session found filtered stepped
      (Bool.eq_false_iff.mpr live)

theorem openFd_eq_some {fd : Nat} (taken : s.openFd fd = some next) :
    Exists fun fds => s.fds.opens fd = some fds ∧ next = { s with fds } := by
  rcases Option.map_eq_some_iff.mp taken with ⟨fds, opened, rfl⟩
  exact ⟨fds, opened, rfl⟩

/-- Both descriptors of a connection. -/
theorem openFds_eq_some {cli srv : Nat} {middle : Process F} (first : s.openFd cli = some middle)
    (second : middle.openFd srv = some next) :
    Exists fun fds => (s.fds.opens cli).bind (fun fds => fds.opens srv) = some fds ∧
      next = { s with fds } ∧ (fds.close cli).close srv = s.fds := by
  rcases openFd_eq_some first with ⟨one, opened, rfl⟩
  rcases openFd_eq_some second with ⟨two, opened', rfl⟩
  refine ⟨two, ?_, rfl, Table.close_close_opens opened opened'⟩
  rw [opened]
  exact opened'

/-- What an accepted connection comes to. -/
inductive Arrival (s : Process F) : Process F -> Prop
  | away : Arrival s s
  | waiting (cli srv : Nat) (fds : Table Nat)
      (opened : (s.fds.opens cli).bind (fun fds => fds.opens srv) = some fds) :
      Arrival s { s with fds, bootstraps := s.bootstraps ++ [.start cli srv] }
  | connected (cli srv : Nat) (fds : Table Nat) (plugins : List (Plugin F)) (ch : List InstancePtr)
      (opened : (s.fds.opens cli).bind (fun fds => fds.opens srv) = some fds)
      (built : buildChain 0 s.next s.plugins = some (plugins, ch)) :
      Arrival s { s with
        fds, plugins
        next := s.next + s.plugins.length
        clients := s.clients ++ [⟨cli, srv, ch, .start s.pool []⟩] }

theorem Arrival.moves (arrival : Arrival s next) : Moves s next := by
  cases arrival with
  | away => exact .refl
  | waiting cli srv fds opened => exact .single (.waiting cli srv fds opened)
  | connected cli srv fds plugins ch opened built =>
      exact .single (.connected cli srv fds plugins ch opened built)

/-- A connection that is turned away leaves nothing behind. -/
theorem accept_arrives {accepted : Accepted} (taken : s.accept accepted = some next) :
    Arrival s next := by
  have away {cli srv : Nat} (taken : (s.openFd cli).bind (fun s =>
      (s.openFd srv).map fun s => (s.close cli).close srv) = some next) : next = s := by
    rcases Option.bind_eq_some_iff.mp taken with ⟨middle, first, taken⟩
    rcases Option.map_eq_some_iff.mp taken with ⟨last, second, rfl⟩
    rcases openFds_eq_some first second with ⟨fds, _, rfl, closed⟩
    rw [close, close, closed]
  cases accepted with
  | noSocket cli =>
      rcases Option.map_eq_some_iff.mp taken with ⟨middle, first, rfl⟩
      rcases openFd_eq_some first with ⟨fds, opened, rfl⟩
      rw [close, Table.close_opens opened]
      exact .away
  | blocking cli srv => exact away taken ▸ .away
  | refused cli srv => exact away taken ▸ .away
  | inProgress cli srv =>
      rcases Option.bind_eq_some_iff.mp taken with ⟨middle, first, taken⟩
      rcases Option.map_eq_some_iff.mp taken with ⟨last, second, rfl⟩
      rcases openFds_eq_some first second with ⟨fds, opened, rfl, _⟩
      exact .waiting cli srv fds opened
  | connected cli srv =>
      rcases Option.bind_eq_some_iff.mp taken with ⟨middle, first, taken⟩
      rcases Option.bind_eq_some_iff.mp taken with ⟨last, second, taken⟩
      rcases openFds_eq_some first second with ⟨fds, opened, rfl, _⟩
      rcases Option.map_eq_some_iff.mp taken with ⟨⟨plugins, ch⟩, built, rfl⟩
      exact .connected cli srv fds plugins ch opened built

theorem cliConnectCb_moves {accepted : List Accepted} (taken : cliConnectCb accepted s = some next) :
    Moves s next := by
  induction accepted generalizing s with
  | nil =>
      cases taken
      exact .refl
  | cons first later inductionHypothesis =>
      rcases Option.bind_eq_some_iff.mp taken with ⟨middle, accepted, rest⟩
      exact (accept_arrives accepted).moves.trans (inductionHypothesis rest)

/-- Every event is a sequence of moves. -/
theorem step_moves {event : LoopEvent} (taken : s.step event = some next) : Moves s next := by
  cases event with
  | connect accepted => exact cliConnectCb_moves taken
  | writable index =>
      rcases Option.bind_eq_some_iff.mp taken with ⟨b, found, taken⟩
      split at taken
      · rename_i active
        cases taken
        exact .single (.watched index b _ found (.writable active))
      · cases taken
  | expired index =>
      rcases Option.bind_eq_some_iff.mp taken with ⟨b, found, taken⟩
      split at taken
      · rename_i active
        cases taken
        exact .single (.watched index b _ found (.expired active))
      · cases taken
  | bootstrapIo index failed => exact .single (bootstrapIoCb_moves taken)
  | bootstrapTimer index => exact .single (bootstrapTmrCb_moves taken)
  | client index files callback => exact .single (clientCb_moves taken)
  | pluginsCheck checks =>
      rcases Option.map_eq_some_iff.mp taken with ⟨plugins, reloaded, rfl⟩
      exact .single (.reloaded checks plugins reloaded)

/-- What every move preserves holds in every state that the process gets into. -/
theorem reachable_rule {fds : List Nat} {plugins : List (Plugin F)} (holds : Process F -> Prop)
    (preserved : forall s next, holds s -> Move s next -> holds next)
    (first : holds (start fds plugins)) (reached : Reachable fds plugins s) : holds s := by
  have moved (s next : Process F) (now : holds s) (moves : Moves s next) : holds next := by
    induction moves with
    | refl => exact now
    | tail _ last inductionHypothesis => exact preserved _ _ inductionHypothesis last
  rcases reached with ⟨events, reached⟩
  exact Run.run_invariant holds (fun s event next now taken => moved s next now (step_moves taken))
    first reached

end Process

end Rfx
