import Rfx.Session.Routing

namespace Rfx

open Library

/-!
# The points inside a callback

A callback runs to completion, and `step` has its result only.  What holds all the
time holds at its points too: between two calls of `readv` or `writev`, after each
packet that a loop looks at, and after each thing that a filter does.  A point of a
list or of a loop is where a first part of it is done, by the functions of the model.
A callback that is never finished, for lack of an answer of the kernel or with a
filter that queues events forever, has points as well.

The result of every function is one of its points, which is how what holds at the
points is carried from one callback to the next.
-/

/-! ## Receiving -/

namespace RecvPoint

/-- The state at a point inside `recv`. -/
def state : RecvPoint -> RecvState
  | reading s => s
  | extracting s _ => s
  | returned s _ => s

/-- The points of `recv` from one of them on, given the results of its calls of `readv`. -/
inductive Leads : RecvPoint -> List ReadvResult -> RecvPoint -> Prop
  | here (p : RecvPoint) (results : List ReadvResult) : Leads p results p
  | readv {s : RecvState} {result : ReadvResult} {results : List ReadvResult} {p q : RecvPoint}
      (taken : s.afterReadv result = some p) (later : Leads p results q) :
      Leads (reading s) (result :: results) q
  | extract {s : RecvState} {bytes : List Byte} {results : List ReadvResult} {p q : RecvPoint}
      (taken : s.extractBody bytes = some p) (later : Leads p results q) :
      Leads (extracting s bytes) results q

theorem leads_of_extract (fuel : Nat) {s next : RecvState} {bytes : List Byte}
    {results : List ReadvResult} {q : RecvPoint} (taken : s.extract fuel bytes = some next)
    (later : Leads (reading next) results q) : Leads (extracting s bytes) results q := by
  induction fuel generalizing s bytes with
  | zero =>
      unfold RecvState.extract at taken
      split at taken
      · rename_i bodyEq
        cases taken
        exact .extract bodyEq later
      · cases taken
      · cases taken
  | succ fuel inductionHypothesis =>
      unfold RecvState.extract at taken
      split at taken
      · rename_i bodyEq
        cases taken
        exact .extract bodyEq later
      · rename_i bodyEq
        exact .extract bodyEq (inductionHypothesis taken)
      · cases taken

/-- `recv` returns at one of its points. -/
theorem leads_of_recv {s final : RecvState} {results : List ReadvResult} {more : Bool}
    (received : s.recv results = some (final, more)) :
    Leads (reading s) results (returned final more) := by
  induction results generalizing s with
  | nil => cases received
  | cons result results inductionHypothesis =>
      simp only [RecvState.recv] at received
      split at received
      · cases received
      · rename_i next bodyEq
        have later := inductionHypothesis received
        unfold RecvState.body at bodyEq
        split at bodyEq
        · cases bodyEq
        · rename_i readEq
          cases bodyEq
          exact .readv readEq later
        · cases bodyEq
        · rename_i readEq
          rw [Option.map_eq_some_iff] at bodyEq
          rcases bodyEq with ⟨done, extracted, same⟩
          cases same
          exact .readv readEq (leads_of_extract _ extracted later)
      · rename_i bodyEq
        split at received
        · cases received
          unfold RecvState.body at bodyEq
          split at bodyEq
          · cases bodyEq
          · cases bodyEq
          · rename_i readEq
            cases bodyEq
            exact .readv readEq (.here _ _)
          · rw [Option.map_eq_some_iff] at bodyEq
            rcases bodyEq with ⟨_, _, same⟩
            cases same
        · cases received

end RecvPoint

/-! ## Sending -/

namespace SendState

/-- The points of the loop that discards what was sent. -/
inductive Discarding : Nat -> Pool -> Sendq -> Nat -> Pool × Sendq × Nat -> Prop
  | here (n : Nat) (pool : Pool) (q : Sendq) (bytes : Nat) : Discarding n pool q bytes (pool, q, bytes)
  | discarded {n bytes : Nat} {pool : Pool} {q : Sendq} {p : Pool × Sendq × Nat}
      (whole : (q.svbuf.getD q.sv .unset).len ≤ bytes)
      (later : Discarding n (pqhDiscard pool q.pq).1
        { q with pq := (pqhDiscard pool q.pq).2, sv := q.sv + 1, svc := n }
        (bytes - (q.svbuf.getD q.sv .unset).len) p) :
      Discarding (n + 1) pool q bytes p

theorem discarding_discardSent (n : Nat) (pool : Pool) (q : Sendq) (bytes : Nat) :
    Discarding n pool q bytes (discardSent n pool q bytes) := by
  induction n generalizing pool q bytes with
  | zero => exact .here _ _ _ _
  | succ n inductionHypothesis =>
      unfold discardSent
      simp only
      split
      · rename_i whole
        exact .discarded whole (inductionHypothesis _ _ _)
      · exact .here _ _ _ _

/-- The list does not depend on how the window is moved or filled again. -/
theorem body_pq {st next : SendState} {bytes : Nat} {value : Option Int}
    (taken : st.body (.accepted bytes) = some (next, value)) :
    next.pool = (discardSent st.q.svc st.pool st.q bytes).1 ∧
      next.q.pq = (discardSent st.q.svc st.pool st.q bytes).2.1.pq := by
  simp only [body] at taken
  split at taken
  · cases taken
    refine ⟨rfl, ?_⟩
    dsimp only
    split <;> split <;> rfl
  · cases taken

/-- The points of the loop of `send`, given the results of its calls of `writev`. -/
inductive Sending : SendState -> List WritevResult -> SendState -> Prop
  | here (s : SendState) (results : List WritevResult) : Sending s results s
  | discarding {s : SendState} {bytes : Nat} {results : List WritevResult} {p : Pool × Sendq × Nat}
      (left : s.q.svc ≠ 0) (possible : 0 < bytes ∧ bytes ≤ (iovBytes s.q.window).length)
      (inside : Discarding s.q.svc s.pool s.q bytes p) :
      Sending s (.accepted bytes :: results)
        ⟨p.1, p.2.1, s.out ++ (iovBytes s.q.window).take bytes⟩
  | again {s next p : SendState} {result : WritevResult} {results : List WritevResult}
      (left : s.q.svc ≠ 0) (taken : s.body result = some (next, none))
      (later : Sending next results p) : Sending s (result :: results) p

/-- `send` returns at one of its points. -/
theorem sending_of_sendLoop {s final : SendState} {results : List WritevResult} {value : Int}
    (sent : s.sendLoop results = some (final, value)) : Sending s results final := by
  induction results generalizing s with
  | nil =>
      unfold sendLoop at sent
      split at sent
      · cases sent
        exact .here _ _
      · cases sent
  | cons result results inductionHypothesis =>
      unfold sendLoop at sent
      split at sent
      · cases sent
      · rename_i left
        split at sent
        · cases sent
        · rename_i bodyEq
          exact .again left bodyEq (inductionHypothesis sent)
        · rename_i next value bodyEq
          split at sent
          · cases sent
            cases result with
            | accepted bytes =>
                simp only [body] at bodyEq
                split at bodyEq <;> cases bodyEq
            | failed errno =>
                cases errno <;> cases bodyEq
                · exact .here _ _
                · exact .here _ _
          · cases sent

end SendState

/-! ## Filtering -/

/-- The points of a walk through a chain behind the instances that were called already. -/
inductive Dispatching {σ : Type} (call : RfxFilter σ -> σ -> FilterFrame -> Option (FltCall σ)) :
    RfxFilterChain σ -> RfxFilterChain σ -> Pool -> FilterFrame -> ChainState σ -> Prop
  | here (earlier chain : RfxFilterChain σ) (pool : Pool) (frame : FilterFrame) :
      Dispatching call earlier chain pool frame ⟨earlier ++ chain, pool, frame⟩
  | missing {i : RfxInstance σ} {earlier rest : RfxFilterChain σ} {pool : Pool}
      {frame : FilterFrame} {p : ChainState σ} (unloaded : i.flt = none)
      (later : Dispatching call (earlier ++ [i]) rest pool frame p) :
      Dispatching call earlier (i :: rest) pool frame p
  | acting {i : RfxInstance σ} {f : RfxFilter σ} {earlier rest : RfxFilterChain σ} {pool : Pool}
      {frame : FilterFrame} {called : FltCall σ} {acts acts' : List FltAct}
      {next : Pool × FilterFrame} (loaded : i.flt = some f)
      (calledEq : call f i.state frame = some called) (split : called.acts = acts ++ acts')
      (applied : applyAll pool frame acts = some next) :
      Dispatching call earlier (i :: rest) pool frame ⟨earlier ++ i :: rest, next.1, next.2⟩
  | broke {i : RfxInstance σ} {f : RfxFilter σ} {earlier rest : RfxFilterChain σ} {pool : Pool}
      {frame : FilterFrame} {called : FltCall σ} {next : Pool × FilterFrame}
      (loaded : i.flt = some f) (calledEq : call f i.state frame = some called)
      (applied : applyAll pool frame called.acts = some next) (ret : called.ret = .brk) :
      Dispatching call earlier (i :: rest) pool frame
        ⟨earlier ++ { i with state := called.state } :: rest, next.1, next.2⟩
  | declined {i : RfxInstance σ} {f : RfxFilter σ} {earlier rest : RfxFilterChain σ} {pool : Pool}
      {frame : FilterFrame} {called : FltCall σ} {next : Pool × FilterFrame} {p : ChainState σ}
      (loaded : i.flt = some f) (calledEq : call f i.state frame = some called)
      (applied : applyAll pool frame called.acts = some next) (ret : called.ret ≠ .brk)
      (later : Dispatching call (earlier ++ [{ i with state := called.state }]) rest next.1 next.2 p) :
      Dispatching call earlier (i :: rest) pool frame p

/-- The walk ends at one of its points. -/
theorem dispatching_of_dispatch {σ : Type}
    {call : RfxFilter σ -> σ -> FilterFrame -> Option (FltCall σ)} (earlier : RfxFilterChain σ)
    {chain : RfxFilterChain σ} {pool : Pool} {frame : FilterFrame} {done : ChainState σ}
    (dispatched : dispatch call chain pool frame = some done) :
    Dispatching call earlier chain pool frame { done with flt := earlier ++ done.flt } := by
  induction chain generalizing earlier pool frame done with
  | nil =>
      cases dispatched
      exact .here _ _ _ _
  | cons i rest inductionHypothesis =>
      unfold dispatch at dispatched
      split at dispatched
      · rename_i unloaded
        rcases Option.map_eq_some_iff.mp dispatched with ⟨tail, tailEq, rfl⟩
        refine .missing unloaded ?_
        have later := inductionHypothesis (earlier ++ [i]) tailEq
        rw [List.append_assoc] at later
        exact later
      · rename_i f loaded
        rcases Option.bind_eq_some_iff.mp dispatched with ⟨called, calledEq, dispatched⟩
        rcases Option.bind_eq_some_iff.mp dispatched with ⟨next, applied, dispatched⟩
        split at dispatched
        · rename_i ret
          cases dispatched
          exact .broke loaded calledEq applied ret
        · rename_i ret
          rcases Option.map_eq_some_iff.mp dispatched with ⟨tail, tailEq, rfl⟩
          refine .declined loaded calledEq applied ret ?_
          have later := inductionHypothesis (earlier ++ [{ i with state := called.state }]) tailEq
          rw [List.append_assoc] at later
          exact later

namespace ChainState

variable {σ : Type}

/-- The points at which a chain handles events. -/
inductive Handling : ChainState σ -> ChainState σ -> Prop
  | here (chain : ChainState σ) : Handling chain chain
  | event {chain p : ChainState σ} {ev : RfxEvent} {later : List RfxEvent}
      (queued : chain.frame.evq = ev :: later)
      (inside : Dispatching (fun f st frame => f.processEvent st frame ev) [] chain.flt chain.pool
        { chain.frame with evq := later, cur := some ev } p) : Handling chain p
  | deleted {chain done p : ChainState σ} {ev : RfxEvent} {later : List RfxEvent}
      (queued : chain.frame.evq = ev :: later)
      (dispatched : dispatch (fun f st frame => f.processEvent st frame ev) chain.flt chain.pool
        { chain.frame with evq := later, cur := some ev } = some done)
      (rest : Handling { done with
        pool := deleteEvent done.pool ev
        frame := { done.frame with cur := none } } p) : Handling chain p

theorem handling_of_processEvents {fuel : Nat} {chain handled : ChainState σ}
    (handledEq : chain.processEvents fuel = some handled) : Handling chain handled := by
  induction fuel generalizing chain with
  | zero =>
      unfold processEvents at handledEq
      split at handledEq
      · cases handledEq
        exact .here _
      · cases handledEq
  | succ fuel inductionHypothesis =>
      unfold processEvents at handledEq
      split at handledEq
      · cases handledEq
        exact .here _
      · rename_i queued
        rcases Option.bind_eq_some_iff.mp handledEq with ⟨done, dispatched, rest⟩
        exact .deleted queued dispatched (inductionHypothesis rest)

end ChainState

/-! ## Moments of a session -/

/-- The locals that hold packets: `pkt`, `pre`, `post` and `ev` of `filter`, with the event
that the chain has taken off `ev`, and the packet of the timer that has gone off. -/
structure Locals where
  filtering : Option RfPacket
  pre : List RfPacket
  post : List RfPacket
  events : List RfxEvent
  firing : Option RfPacket

namespace Locals

/-- Nothing is running. -/
def idle : Locals := ⟨none, [], [], [], none⟩

/-- The locals of `timeout_cb`. -/
def fired (pkt : RfPacket) : Locals := { idle with firing := some pkt }

end Locals

/-- The locals of `filter`. -/
def FilterFrame.locals (frame : FilterFrame) : Locals where
  filtering := some frame.pkt
  pre := frame.pre
  post := frame.post
  events := frame.evq ++ frame.cur.toList
  firing := none

/-- A session at a point of a callback. -/
structure Moment (σ : Type) where
  session : RfSession σ
  locals : Locals

/-- Inside `pull`, where `pqh_pull` has looked at the packets `done`; `svc` is stored when it
returns. -/
def Sendq.pulling (pool : Pool) (q : Sendq) (done later : List RfPacket) :
    Pool × Sendq × List RfPacket :=
  ((q.pull pool done).1, { (q.pull pool done).2.1 with svc := q.svc },
    (q.pull pool done).2.2 ++ later)

namespace RfSession

variable {σ : Type}

/-- The session with what a chain works on. -/
def inChain (s : RfSession σ) (chain : ChainState σ) : RfSession σ :=
  { s with flt := chain.flt, pool := chain.pool }

/-- `proxy_pipe::inject`, and what it leaves of the list. -/
def injectPipe (s : RfSession σ) (dir : Dir) (pqh : List RfPacket) : RfSession σ × List RfPacket :=
  let pulled := (s.pipe dir).sndq.pull s.pool pqh
  ({ s.setPipe dir { s.pipe dir with sndq := pulled.2.1 } with pool := pulled.1 }, pulled.2.2)

/-- The points of `proxy_pipe::inject`, each with what is left of the list. -/
inductive Pulling (s : RfSession σ) (dir : Dir) (pqh : List RfPacket) :
    RfSession σ -> List RfPacket -> Prop
  | here : Pulling s dir pqh s pqh
  | looked {done later left : List RfPacket} {pool : Pool} {q : Sendq}
      (split : pqh = done ++ later)
      (pulled : (s.pipe dir).sndq.pulling s.pool done later = (pool, q, left)) :
      Pulling s dir pqh { s.setPipe dir { s.pipe dir with sndq := q } with pool := pool } left

/-- The points of `s2c.inject`, `c2s.inject` and `dq.pull` on one list. -/
inductive Injecting (s : RfSession σ) (pqh : List RfPacket) : RfSession σ -> List RfPacket -> Prop
  | toCli {t : RfSession σ} {left : List RfPacket} (inside : s.Pulling srvToCli pqh t left) :
      Injecting s pqh t left
  | toSrv {cli : RfSession σ × List RfPacket} {t : RfSession σ} {left : List RfPacket}
      (cliEq : cli = s.injectPipe srvToCli pqh) (inside : cli.1.Pulling cliToSrv cli.2 t left) :
      Injecting s pqh t left
  | delayed {cli srv : RfSession σ × List RfPacket} {done later : List RfPacket}
      (cliEq : cli = s.injectPipe srvToCli pqh) (srvEq : srv = cli.1.injectPipe cliToSrv cli.2)
      (split : srv.2 = done ++ later) :
      Injecting s pqh { srv.1 with dq := (srv.1.dq.pull done).1 } later

theorem inject_eq (s : RfSession σ) (pqh : List RfPacket) :
    s.inject pqh =
      let cli := s.injectPipe srvToCli pqh
      let srv := cli.1.injectPipe cliToSrv cli.2
      ({ srv.1 with dq := (srv.1.dq.pull srv.2).1 }, []) := by
  refine Prod.ext rfl ?_
  simp only [inject, DelayedQueue.pull_eq]

theorem injecting_inject (s : RfSession σ) (pqh : List RfPacket) :
    Injecting s pqh (s.inject pqh).1 [] := by
  rw [inject_eq]
  exact .delayed rfl rfl (List.append_nil _).symm

/-- The points of the body of the loop of `filter`. -/
inductive Filtering (s : RfSession σ) (dir : Dir) (fuel : Nat) (pkt : RfPacket) : Moment σ -> Prop
  | processing {p : ChainState σ}
      (inside : Dispatching (fun f => f.processPkt) [] s.flt s.pool (.start pkt) p) :
      Filtering s dir fuel pkt ⟨s.inChain p, p.frame.locals⟩
  | handling {processed p : ChainState σ}
      (processedEq : ChainState.processPkt ⟨s.flt, s.pool, .start pkt⟩ = some processed)
      (inside : processed.Handling p) : Filtering s dir fuel pkt ⟨s.inChain p, p.frame.locals⟩
  | before {processed handled : ChainState σ} {t : RfSession σ} {left : List RfPacket}
      (processedEq : ChainState.processPkt ⟨s.flt, s.pool, .start pkt⟩ = some processed)
      (handledEq : processed.processEvents fuel = some handled)
      (inside : (s.inChain handled).Injecting handled.frame.pre t left) :
      Filtering s dir fuel pkt ⟨t, { handled.frame.locals with pre := left }⟩
  | after {processed handled : ChainState σ} {t : RfSession σ} {left : List RfPacket}
      (processedEq : ChainState.processPkt ⟨s.flt, s.pool, .start pkt⟩ = some processed)
      (handledEq : processed.processEvents fuel = some handled)
      (inside : (((s.inChain handled).inject handled.frame.pre).1.dispose dir
        handled.frame.pkt).Injecting handled.frame.post t left) :
      Filtering s dir fuel pkt ⟨t, { Locals.idle with post := left }⟩

theorem filtering_of_filterPkt {s next : RfSession σ} {dir : Dir} {fuel : Nat} {pkt : RfPacket}
    (filtered : s.filterPkt dir fuel pkt = some next) : s.Filtering dir fuel pkt ⟨next, .idle⟩ := by
  rw [filterPkt, Option.bind_eq_some_iff] at filtered
  rcases filtered with ⟨processed, processedEq, mapped⟩
  rw [Option.map_eq_some_iff] at mapped
  rcases mapped with ⟨handled, handledEq, same⟩
  have last := injecting_inject (((s.inChain handled).inject handled.frame.pre).1.dispose dir
    handled.frame.pkt) handled.frame.post
  rw [← same]
  simp only [route, inject_eq, pqhClear, List.foldl_nil] at last ⊢
  exact .after processedEq handledEq last

/-- The points of the loop of `filter`. -/
inductive Looping (dir : Dir) (fuel : Nat) : List RfPacket -> RfSession σ -> Moment σ -> Prop
  | here (pkts : List RfPacket) (s : RfSession σ) : Looping dir fuel pkts s ⟨s, .idle⟩
  | inside {pkt : RfPacket} {rest : List RfPacket} {s : RfSession σ} {m : Moment σ}
      (filtering : (s.popIn dir rest).Filtering dir fuel pkt m) :
      Looping dir fuel (pkt :: rest) s m
  | next {pkt : RfPacket} {rest : List RfPacket} {s t : RfSession σ} {m : Moment σ}
      (filtered : (s.popIn dir rest).filterPkt dir fuel pkt = some t)
      (later : Looping dir fuel rest t m) : Looping dir fuel (pkt :: rest) s m

theorem looping_of_filterLoop {dir : Dir} {fuel : Nat} {pkts : List RfPacket} {s next : RfSession σ}
    (looped : filterLoop dir fuel pkts s = some next) : Looping dir fuel pkts s ⟨next, .idle⟩ := by
  induction pkts generalizing s with
  | nil =>
      cases looped
      exact .here _ _
  | cons pkt rest inductionHypothesis =>
      rw [filterLoop, Option.bind_eq_some_iff] at looped
      rcases looped with ⟨middle, filtered, later⟩
      exact .next filtered (inductionHypothesis later)

/-- The points of `handle_write_event`. -/
inductive Writing (s : RfSession σ) (dir : Dir) (results : List WritevResult) : RfSession σ -> Prop
  | here : Writing s dir results s
  | sending {st : SendState}
      (inside : SendState.Sending
        (SendState.enter ⟨s.pool, (s.pipe dir).sndq, (s.pipe dir).written⟩) results st) :
      Writing s dir results
        { s.setPipe dir { s.pipe dir with sndq := st.q, written := st.out } with pool := st.pool }

/-- The next packet that the destructors release. -/
def release (s : RfSession σ) : Option (RfSession σ) :=
  match s.dq.qh, s.s2c.rcvq.pq, s.s2c.sndq.pq, s.c2s.rcvq.pq, s.c2s.sndq.pq with
  | dp :: later, _, _, _, _ =>
      some { s with pool := pktUnref s.pool dp.pkt, dq := { s.dq with qh := later } }
  | [], pkt :: later, _, _, _ =>
      some { s with
        pool := pktUnref s.pool pkt
        s2c := { s.s2c with rcvq := { s.s2c.rcvq with pq := later } } }
  | [], [], pkt :: later, _, _ =>
      some { s with
        pool := pktUnref s.pool pkt
        s2c := { s.s2c with sndq := { s.s2c.sndq with pq := later } } }
  | [], [], [], pkt :: later, _ =>
      some { s with
        pool := pktUnref s.pool pkt
        c2s := { s.c2s with rcvq := { s.c2s.rcvq with pq := later } } }
  | [], [], [], [], pkt :: later =>
      some { s with
        pool := pktUnref s.pool pkt
        c2s := { s.c2s with sndq := { s.c2s.sndq with pq := later } } }
  | [], [], [], [], [] => none

/-! ## Moments of a callback -/

/-- What the callbacks are made of. -/
inductive Op
  | read (dir : Dir) (results : List ReadvResult)
  | filter (dir : Dir) (fuel : Nat)
  | startTimers
  | write (dir : Dir) (results : List WritevResult)
  | fire (index : Nat) (writes : List WritevResult)
  | reclaim

def operate (s : RfSession σ) : Op -> Option (RfSession σ)
  | .read dir results => s.handleRead dir results
  | .filter dir fuel => s.filter dir fuel
  | .startTimers => some { s with dq := s.dq.start }
  | .write dir results => s.handleWrite dir results
  | .fire index writes => s.timeoutCb index writes
  | .reclaim => some s.reclaim

/-- The operations of an I/O callback, up to its end. -/
def ioOps (own other : Dir) (read : Option ReadEvent) (write : Option (List WritevResult)) : List Op :=
  (match read with
    | none => []
    | some event =>
        [.read own event.reads, .filter own event.fuel, .startTimers, .write own event.own,
          .write other event.other]) ++
    match write with
    | none => []
    | some results => [.write own results]

/-- The operations of a callback, one after the other. -/
def ops : Callback -> List Op
  | .cli read write => ioOps cliToSrv srvToCli read write ++ [.reclaim]
  | .srv read write => ioOps srvToCli cliToSrv read write ++ [.reclaim]
  | .timeout index writes => [.fire index writes]

/-- The event loop calls a callback of a session that exists, for active watchers. -/
def Calls (s : RfSession σ) (callback : Callback) : Prop :=
  s.deleted = false ∧
    match callback with
    | .cli read write => Ready s.c2s read write
    | .srv read write => Ready s.s2c read write
    | .timeout _ _ => True

theorem ioCb_eq (s : RfSession σ) (own other : Dir) (read : Option ReadEvent)
    (write : Option (List WritevResult)) :
    s.ioCb own other read write = Run.run operate s (ioOps own other read write ++ [.reclaim]) := by
  cases read <;> cases write <;>
    simp [ioCb, branch, readBranch, ioOps, Run.run, operate, Option.bind_assoc,
      Option.map_eq_bind]

/-- A callback is its operations. -/
theorem step_eq_some {s next : RfSession σ} {callback : Callback} :
    s.step callback = some next <-> s.Calls callback ∧ Run.run operate s (ops callback) = some next := by
  unfold step Calls
  cases deleted : s.deleted with
  | true => simp
  | false =>
      cases callback with
      | cli read write =>
          rw [ops, ← ioCb_eq]
          by_cases ready : Ready s.c2s read write <;> simp [ready, cliIoCb]
      | srv read write =>
          rw [ops, ← ioCb_eq]
          by_cases ready : Ready s.s2c read write <;> simp [ready, srvIoCb]
      | timeout index writes => simp [ops, Run.run, operate]

/-- What `timeout_cb` does after the packet was pushed. -/
def finishTimer (s : RfSession σ) (pkt : RfPacket) (writes : List WritevResult) :
    Option (RfSession σ) :=
  (s.handleWrite pkt.dir writes).map fun emitted =>
    { emitted with pool := pktUnref emitted.pool pkt }

theorem timeoutCb_eq_finishTimer {s : RfSession σ} {index : Nat} {dp : DelayedPkt} (found : s.dq.qh[index]? = some dp)
    (active : dp.active = true) (writes : List WritevResult) :
    s.timeoutCb index writes =
      ((s.removeDelayed index).pushRef dp.pkt).finishTimer dp.pkt writes := by
  simp only [timeoutCb, found, active, if_true]
  rfl

/-- The points inside an operation.  A timer gets to the point where its packet has been pushed
if what is left to do from there leads to what the callback returns. -/
inductive Inside (s : RfSession σ) : Op -> Moment σ -> Prop
  | reading {dir : Dir} {results : List ReadvResult} {p : RecvPoint}
      (leads : RecvPoint.Leads (.reading ⟨s.pool, (s.pipe dir).rcvq⟩) results p) :
      Inside s (.read dir results)
        ⟨{ s.setPipe dir { s.pipe dir with rcvq := p.state.q } with pool := p.state.pool }, .idle⟩
  | filtering {dir : Dir} {fuel : Nat} {m : Moment σ}
      (looping : Looping dir fuel (s.pipe dir).rcvq.pq s m) : Inside s (.filter dir fuel) m
  | writing {dir : Dir} {results : List WritevResult} {t : RfSession σ}
      (inside : s.Writing dir results t) : Inside s (.write dir results) ⟨t, .idle⟩
  | removed {index : Nat} {writes : List WritevResult} {dp : DelayedPkt}
      (found : s.dq.qh[index]? = some dp) (active : dp.active = true) :
      Inside s (.fire index writes) ⟨s.removeDelayed index, .fired dp.pkt⟩
  | emitting {index : Nat} {writes : List WritevResult} {dp : DelayedPkt} {t : RfSession σ}
      (found : s.dq.qh[index]? = some dp) (active : dp.active = true)
      (left : s.timeoutCb index writes =
        ((s.removeDelayed index).pushRef dp.pkt).finishTimer dp.pkt writes)
      (inside : ((s.removeDelayed index).pushRef dp.pkt).Writing dp.pkt.dir writes t) :
      Inside s (.fire index writes) ⟨t, .fired dp.pkt⟩
  | releasing {t : RfSession σ} (finished : s.done = true)
      (released : Relation.ReflTransGen (fun s t => s.release = some t) s t) :
      Inside s .reclaim ⟨t, .idle⟩

/-- A timer that fires gets to the point where its packet has been pushed. -/
theorem Inside.pushed {s : RfSession σ} {index : Nat} {dp : DelayedPkt} (found : s.dq.qh[index]? = some dp)
    (active : dp.active = true) (writes : List WritevResult) :
    s.Inside (.fire index writes) ⟨(s.removeDelayed index).pushRef dp.pkt, .fired dp.pkt⟩ :=
  .emitting found active (timeoutCb_eq_finishTimer found active writes) .here

/-- The moments of a callback: between its operations, and inside each of them. -/
inductive Passes (s : RfSession σ) (callback : Callback) : Moment σ -> Prop
  | between {done later : List Op} {t : RfSession σ} (calls : s.Calls callback)
      (split : ops callback = done ++ later) (reached : Run.run operate s done = some t) :
      Passes s callback ⟨t, .idle⟩
  | inside {done later : List Op} {op : Op} {t : RfSession σ} {m : Moment σ}
      (calls : s.Calls callback) (split : ops callback = done ++ op :: later)
      (reached : Run.run operate s done = some t) (inside : t.Inside op m) : Passes s callback m

/-- A callback returns at the last of its moments. -/
theorem passes_of_step {s next : RfSession σ} {callback : Callback}
    (taken : s.step callback = some next) : s.Passes callback ⟨next, .idle⟩ := by
  rcases step_eq_some.mp taken with ⟨calls, reached⟩
  exact .between calls (List.append_nil _).symm reached

end RfSession

end Rfx
