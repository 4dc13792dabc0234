import Rfx.Filter
import Rfx.RecvQueue

namespace Rfx

open Library

/-!
# Sessions

The model of `proxy_pipe` in `proxy.cpp` and of `delayed_queue` and
`rf_session` in `main.cpp`.  A session has two pipes, one for each direction, a
filter chain and a queue of delayed packets.  The event loop calls one of three
callbacks, each of which runs to completion.

A callback is a partial function of the session and of what the kernel answers
in it, which is given as the lists of results of its calls of `readv` and
`writev`.  A callback whose watcher is not active has no step.  The bytes that
each pipe has read and written so far, and its calls of `shutdown`, are recorded
in the pipe; no function of the source depends on these records.
-/

/-! ## Delayed packets -/

/-- `delayed_pkt`; `active` says that its timer is running. -/
structure DelayedPkt where
  pkt : RfPacket
  active : Bool
  deriving DecidableEq

/-- `class delayed_queue`. -/
structure DelayedQueue where
  qh : List DelayedPkt
  hasNew : Bool
  deriving DecidableEq

namespace DelayedQueue

/-- The constructor. -/
def new : DelayedQueue where
  qh := []
  hasNew := false

/-- Add all packets of another queue, which is popped until it is empty. -/
def pull (dq : DelayedQueue) : List RfPacket -> DelayedQueue × List RfPacket
  | [] => (dq, [])
  | pkt :: rest => pull { qh := dq.qh ++ [⟨pkt, false⟩], hasNew := true } rest

/-- Start all timers. -/
def start (dq : DelayedQueue) : DelayedQueue :=
  if dq.hasNew then
    { qh := dq.qh.map fun dp => { dp with active := true }, hasNew := false }
  else dq

/-- Stop all timers. -/
def stop (dq : DelayedQueue) : DelayedQueue :=
  { dq with qh := dq.qh.map fun dp => { dp with active := false } }

/-- The packets of the queue. -/
def pkts (dq : DelayedQueue) : List RfPacket :=
  dq.qh.map DelayedPkt.pkt

end DelayedQueue

/-! ## Pipes -/

/-- What a pipe looked like when it called `shutdown(out.fd, SHUT_WR)`. -/
structure Shutdown where
  eof : Bool
  broken : Bool
  received : List Byte
  written : List Byte

/-- `struct proxy_pipe`: its two state bits, whether its watchers are active,
its queues, and the record of its system calls. -/
structure ProxyPipe where
  dir : Dir
  eof : Bool
  broken : Bool
  inActive : Bool
  outActive : Bool
  sndq : Sendq
  rcvq : Recvq
  received : List Byte
  written : List Byte
  shutRd : Bool
  shutdowns : List Shutdown

namespace ProxyPipe

/-- The constructor. -/
def new (dir : Dir) : ProxyPipe where
  dir := dir
  eof := false
  broken := false
  inActive := false
  outActive := false
  sndq := .new dir
  rcvq := .new dir
  received := []
  written := []
  shutRd := false
  shutdowns := []

/-- `run`. -/
def run (p : ProxyPipe) : ProxyPipe :=
  { p with inActive := true }

/-- `stop`. -/
def stop (p : ProxyPipe) : ProxyPipe :=
  { p with inActive := false, outActive := false }

/-- `push_out`. -/
def pushOut (p : ProxyPipe) (pkt : RfPacket) : ProxyPipe :=
  { p with sndq := p.sndq.pushOut pkt }

/-- Read packets from the input descriptor to `rcvq`. -/
def handleReadEvent (pool : Pool) (p : ProxyPipe) (results : List ReadvResult) :
    Option (Pool × ProxyPipe) :=
  (RecvState.recv ⟨pool, p.rcvq⟩ results).map fun answer =>
    let read := { p with
      rcvq := answer.1.q
      received := p.received ++ results.flatMap ReadvResult.bytes }
    (answer.1.pool, if answer.2 then read else { read with eof := true, inActive := false })

/-- `shutdown(out.fd, SHUT_WR)`. -/
def shutdownOut (p : ProxyPipe) : ProxyPipe :=
  { p with shutdowns := p.shutdowns ++ [⟨p.eof, p.broken, p.received, p.written⟩] }

/-- What `handle_write_event` does with the value that `send` returned. -/
def afterSend (p : ProxyPipe) (result : Int) : ProxyPipe :=
  let p := if result = -1 then { p with broken := true, shutRd := true } else p
  if result ≤ 0 then
    let p := { p with outActive := false }
    if p.eof && p.rcvq.isEmpty then p.shutdownOut else p
  else
    { p with outActive := true }

/-- Send packets from `sndq` to the output descriptor. -/
def handleWriteEvent (pool : Pool) (p : ProxyPipe) (results : List WritevResult) :
    Option (Pool × ProxyPipe) :=
  (SendState.send ⟨pool, p.sndq, p.written⟩ results).map fun answer =>
    (answer.1.pool, { p with sndq := answer.1.q, written := answer.1.out }.afterSend answer.2)

/-- `done`. -/
def done (p : ProxyPipe) : Bool :=
  p.broken || (p.eof && p.rcvq.isEmpty && p.sndq.isEmpty)

end ProxyPipe

/-! ## The session -/

/-- `class rf_session`.  `deleted` is set once the session has been destroyed. -/
structure RfSession (σ : Type) where
  pool : Pool
  c2s : ProxyPipe
  s2c : ProxyPipe
  flt : RfxFilterChain σ
  dq : DelayedQueue
  deleted : Bool

/-- What the kernel answers in the branch for `EV_READ`: to the reads, and to
the writes of the own and of the other pipe.  `fuel` bounds the number of
events that the chain handles for one packet. -/
structure ReadEvent where
  reads : List ReadvResult
  fuel : Nat
  own : List WritevResult
  other : List WritevResult

/-- A call from the event loop.  An I/O callback has a part for each bit of
`revents`; a timer is named by the position of its packet. -/
inductive Callback
  | cli (read : Option ReadEvent) (write : Option (List WritevResult))
  | srv (read : Option ReadEvent) (write : Option (List WritevResult))
  | timeout (index : Nat) (writes : List WritevResult)

namespace RfSession

variable {σ : Type}

/-- The constructor, followed by `run`. -/
def start (pool : Pool) (flt : RfxFilterChain σ) : RfSession σ where
  pool := pool
  c2s := (ProxyPipe.new cliToSrv).run
  s2c := (ProxyPipe.new srvToCli).run
  flt := flt
  dq := .new
  deleted := false

/-- `dir == SRV_TO_CLI ? s2c : c2s`. -/
def pipe (s : RfSession σ) (dir : Dir) : ProxyPipe :=
  if dir = srvToCli then s.s2c else s.c2s

/-- Store the pipe of one direction. -/
def setPipe (s : RfSession σ) (dir : Dir) (p : ProxyPipe) : RfSession σ :=
  if dir = srvToCli then { s with s2c := p } else { s with c2s := p }

/-- Is there anything left to do? -/
def done (s : RfSession σ) : Bool :=
  s.c2s.done && s.s2c.done

/-- `s2c.inject`, `c2s.inject` and `dq.pull` on one list.  The second component
is what is left of the list. -/
def inject (s : RfSession σ) (pqh : List RfPacket) : RfSession σ × List RfPacket :=
  let toCli := s.s2c.sndq.pull s.pool pqh
  let toSrv := s.c2s.sndq.pull toCli.1 toCli.2.2
  let delayed := s.dq.pull toSrv.2.2
  ({ s with
      pool := toSrv.1
      s2c := { s.s2c with sndq := toCli.2.1 }
      c2s := { s.c2s with sndq := toSrv.2.1 }
      dq := delayed.1 },
    delayed.2)

/-- Append the packet itself, unless it was dropped. -/
def dispose (s : RfSession σ) (dir : Dir) (pkt : RfPacket) : RfSession σ :=
  if pkt.drop then { s with pool := pktUnref s.pool pkt }
  else s.setPipe dir ((s.pipe dir).pushOut pkt)

/-- Where the packets of a frame go once the chain is done with it. -/
def route (s : RfSession σ) (dir : Dir) (frame : FilterFrame) : RfSession σ :=
  let before := s.inject frame.pre
  let after := (before.1.dispose dir frame.pkt).inject frame.post
  { after.1 with pool := pqhClear (pqhClear after.1.pool before.2) after.2 }

/-- The body of the loop of `filter`. -/
def filterPkt (s : RfSession σ) (dir : Dir) (fuel : Nat) (pkt : RfPacket) : Option (RfSession σ) :=
  (ChainState.processPkt ⟨s.flt, s.pool, .start pkt⟩).bind fun processed =>
    (processed.processEvents fuel).map fun handled =>
      { s with flt := handled.flt, pool := handled.pool }.route dir handled.frame

/-- `pop_in`, given what it leaves in the queue. -/
def popIn (s : RfSession σ) (dir : Dir) (rest : List RfPacket) : RfSession σ :=
  s.setPipe dir { s.pipe dir with rcvq := { (s.pipe dir).rcvq with pq := rest } }

/-- The loop of `filter`.  Its body does not touch the receive queue, so the
loop goes through the packets that are in the queue at its start. -/
def filterLoop (dir : Dir) (fuel : Nat) : List RfPacket -> RfSession σ -> Option (RfSession σ)
  | [], s => some s
  | pkt :: rest, s => ((s.popIn dir rest).filterPkt dir fuel pkt).bind (filterLoop dir fuel rest)

/-- `rf_session::filter`. -/
def filter (s : RfSession σ) (dir : Dir) (fuel : Nat) : Option (RfSession σ) :=
  filterLoop dir fuel (s.pipe dir).rcvq.pq s

/-- `handle_read_event` on one pipe of the session. -/
def handleRead (s : RfSession σ) (dir : Dir) (results : List ReadvResult) : Option (RfSession σ) :=
  ((s.pipe dir).handleReadEvent s.pool results).map fun answer =>
    { s.setPipe dir answer.2 with pool := answer.1 }

/-- `handle_write_event` on one pipe of the session. -/
def handleWrite (s : RfSession σ) (dir : Dir) (results : List WritevResult) : Option (RfSession σ) :=
  ((s.pipe dir).handleWriteEvent s.pool results).map fun answer =>
    { s.setPipe dir answer.2 with pool := answer.1 }

/-- `stop` and `delete`.  The members are destroyed in the reverse order of
their declaration.  The destructor of a receive queue releases the packets of
`pq` and does nothing about `rd`. -/
def delete (s : RfSession σ) : RfSession σ where
  pool := pqhClear (pqhClear (pqhClear (pqhClear (pqhClear s.pool s.dq.stop.pkts)
    s.s2c.rcvq.pq) s.s2c.sndq.pq) s.c2s.rcvq.pq) s.c2s.sndq.pq
  c2s := { s.c2s.stop with
    rcvq := { s.c2s.rcvq with pq := [] }
    sndq := { s.c2s.sndq with pq := [] } }
  s2c := { s.s2c.stop with
    rcvq := { s.s2c.rcvq with pq := [] }
    sndq := { s.s2c.sndq with pq := [] } }
  flt := []
  dq := { s.dq.stop with qh := [] }
  deleted := true

/-- The end of both I/O callbacks. -/
def reclaim (s : RfSession σ) : RfSession σ :=
  if s.done then s.delete else s

/-- The branch for `EV_READ`. -/
def readBranch (s : RfSession σ) (own other : Dir) (event : ReadEvent) : Option (RfSession σ) :=
  (s.handleRead own event.reads).bind fun read =>
    (read.filter own event.fuel).bind fun filtered =>
      ({ filtered with dq := filtered.dq.start }.handleWrite own event.own).bind fun written =>
        written.handleWrite other event.other

/-- Take a branch if its bit is set. -/
def branch {E : Type} (body : RfSession σ -> E -> Option (RfSession σ)) (s : RfSession σ) :
    Option E -> Option (RfSession σ)
  | none => some s
  | some event => body s event

/-- The common text of the two I/O callbacks. -/
def ioCb (s : RfSession σ) (own other : Dir) (read : Option ReadEvent)
    (write : Option (List WritevResult)) : Option (RfSession σ) :=
  (branch (fun s event => s.readBranch own other event) s read).bind fun read =>
    (branch (fun s results => s.handleWrite own results) read write).map reclaim

/-- Handle read/write event on client descriptor. -/
def cliIoCb (s : RfSession σ) := s.ioCb cliToSrv srvToCli

/-- Handle read/write event on server descriptor. -/
def srvIoCb (s : RfSession σ) := s.ioCb srvToCli cliToSrv

/-- `pkt_ref` and `push_out` in `emit`. -/
def pushRef (s : RfSession σ) (pkt : RfPacket) : RfSession σ :=
  { s with pool := pktRef s.pool pkt }.setPipe pkt.dir ((s.pipe pkt.dir).pushOut pkt)

/-- `rf_delayed_queue::emit`. -/
def emit (s : RfSession σ) (pkt : RfPacket) (writes : List WritevResult) : Option (RfSession σ) :=
  (s.pushRef pkt).handleWrite pkt.dir writes

/-- `TAILQ_REMOVE` of a delayed packet, which is then held by the callback only. -/
def removeDelayed (s : RfSession σ) (index : Nat) : RfSession σ :=
  { s with dq := { s.dq with qh := s.dq.qh.eraseIdx index } }

/-- `delayed_queue::timeout_cb`. -/
def timeoutCb (s : RfSession σ) (index : Nat) (writes : List WritevResult) : Option (RfSession σ) :=
  match s.dq.qh[index]? with
  | none => none
  | some dp =>
      if dp.active then
        ((s.removeDelayed index).emit dp.pkt writes).map fun emitted =>
          { emitted with pool := pktUnref emitted.pool dp.pkt }
      else none

/-- An I/O callback is called for active watchers, and for at least one. -/
def Ready (p : ProxyPipe) (read : Option ReadEvent) (write : Option (List WritevResult)) : Prop :=
  (read.isSome ∨ write.isSome) ∧ (read.isSome -> p.inActive) ∧ (write.isSome -> p.outActive)

instance (p : ProxyPipe) (read : Option ReadEvent) (write : Option (List WritevResult)) :
    Decidable (Ready p read write) :=
  inferInstanceAs (Decidable (_ ∧ _))

/-- One callback of the event loop on a session that exists. -/
def step (s : RfSession σ) (callback : Callback) : Option (RfSession σ) :=
  if s.deleted then none
  else
    match callback with
    | .cli read write => if Ready s.c2s read write then s.cliIoCb read write else none
    | .srv read write => if Ready s.s2c read write then s.srvIoCb read write else none
    | .timeout index writes => s.timeoutCb index writes

/-- The sessions that a chain can reach. -/
def Reachable (pool : Pool) (flt : RfxFilterChain σ) (s : RfSession σ) : Prop :=
  Exists fun callbacks => Run.run step (start pool flt) callbacks = some s

end RfSession

end Rfx
