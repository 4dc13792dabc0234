import Rfx.Packet

namespace Rfx

open Library

/-!
# Events, filters and filter chains

The model of `evq.h`, of the filter interface in `rfx_api.h`, and of
`rfx_filter_chain` in `main.cpp`.  Filters are loaded from shared objects and
are not fixed by the program.  A filter is therefore any function from its own
state and from what it is handed to a list of actions, a new state and a return
value.  The actions are the ones that the interface offers: create a packet and
push it to one of the two output queues, queue an event that refers to a packet
in hand, and store into the fields of such a packet.
-/

/-- An event with the fields of `rfx_event` and of `rfx_chat_event`; `source`
is the address of the packet that the event refers to. -/
structure RfxEvent where
  what : Nat
  source : Option Nat
  nick : List Byte
  msg : List Byte
  deriving DecidableEq

/-- The locals of `rf_session::filter` for one packet.  `cur` is the event that
the chain has taken off the event queue and not deleted yet. -/
structure FilterFrame where
  pkt : RfPacket
  pre : List RfPacket
  post : List RfPacket
  evq : List RfxEvent
  cur : Option RfxEvent

/-- A store into a field or into the data of a packet. -/
inductive PktEdit
  | drop (value : Bool)
  | shown (value : Bool)
  | delay (value : Nat)
  | desc (text : String)
  | dir (value : Dir)
  | type (value : Nat)
  | len (value : Nat)
  | byte (index : Nat) (value : Byte)
  deriving DecidableEq

/-- The packet after a store.  A length beyond the allocated bytes is never
stored. -/
def PktEdit.apply (pkt : RfPacket) : PktEdit -> RfPacket
  | .drop value => { pkt with drop := value }
  | .shown value => { pkt with shown := value }
  | .delay value => { pkt with delay := value % 2 ^ 32 }
  | .desc text => { pkt with desc := some text }
  | .dir value => { pkt with dir := value }
  | .type value => { pkt with type := value % 2 ^ 16 }
  | .len value =>
      if fits : value % 2 ^ 16 ≤ pkt.data.length then
        { pkt with len := value % 2 ^ 16, fits := fits }
      else pkt
  | .byte index value =>
      { pkt with
        data := pkt.data.set index value
        fits := by rw [List.length_set]; exact pkt.fits }

@[simp] theorem PktEdit.ptr_apply (pkt : RfPacket) (edit : PktEdit) :
    (edit.apply pkt).ptr = pkt.ptr := by
  cases edit with
  | len value =>
      simp only [apply]
      split <;> rfl
  | _ => rfl

namespace FilterFrame

/-- The frame in which the chain starts on a packet. -/
def start (pkt : RfPacket) : FilterFrame where
  pkt := pkt
  pre := []
  post := []
  evq := []
  cur := none

/-- The packets that a filter can reach. -/
def inHand (frame : FilterFrame) : List RfPacket :=
  frame.pkt :: frame.pre ++ frame.post

/-- Store through a pointer to one of them. -/
def store (frame : FilterFrame) (ptr : Nat) (edit : PktEdit) : FilterFrame :=
  let edited := fun pkt : RfPacket => if pkt.ptr = ptr then edit.apply pkt else pkt
  { frame with
    pkt := edited frame.pkt
    pre := frame.pre.map edited
    post := frame.post.map edited }

end FilterFrame

/-- What a filter can do.  `push` is `pkt_new`, whatever the filter stores into
the new packet, and one `pqh_push`; `filled` is the packet as it is pushed, up
to its address, which is the one that `pkt_new` returned. -/
inductive FltAct
  | push (toPost : Bool) (filled : RfPacket)
  | event (what : Nat) (nick msg : List Byte) (source : Option Nat)
  | store (ptr : Nat) (edit : PktEdit)

/-- An event may refer to a packet in hand only. -/
def FltAct.apply (pool : Pool) (frame : FilterFrame) : FltAct -> Option (Pool × FilterFrame)
  | .push toPost filled =>
      let created := pktNew pool filled.len filled.type filled.dir
      let pkt := { filled with ptr := created.2.ptr }
      some (created.1,
        if toPost then { frame with post := pqhPush frame.post pkt }
        else { frame with pre := pqhPush frame.pre pkt })
  | .event what nick msg none =>
      some (pool, { frame with evq := frame.evq ++ [⟨what, none, nick, msg⟩] })
  | .event what nick msg (some ptr) =>
      if ptr ∈ frame.inHand.map RfPacket.ptr then
        some (pool.ref ptr, { frame with evq := frame.evq ++ [⟨what, some ptr, nick, msg⟩] })
      else none
  | .store ptr edit => some (pool, frame.store ptr edit)

/-- The actions of one call of a filter, in turn. -/
def applyAll (pool : Pool) (frame : FilterFrame) : List FltAct -> Option (Pool × FilterFrame)
  | [] => some (pool, frame)
  | act :: acts => (act.apply pool frame).bind fun next => applyAll next.1 next.2 acts

/-- `RFX_DECLINE` and `RFX_BREAK`. -/
inductive RfxRet
  | decline
  | brk
  deriving DecidableEq, Repr

/-- What a call of a filter comes to. -/
structure FltCall (σ : Type) where
  acts : List FltAct
  state : σ
  ret : RfxRet

/-- `class rfx_filter`: the two overloads of `process`.  A call without a
defined result, such as one that reads outside a packet, has none here. -/
structure RfxFilter (σ : Type) where
  processPkt : σ -> FilterFrame -> Option (FltCall σ)
  processEvent : σ -> FilterFrame -> RfxEvent -> Option (FltCall σ)

/-- `rfx_instance`: a filter that may be missing, and its state. -/
structure RfxInstance (σ : Type) where
  flt : Option (RfxFilter σ)
  state : σ

/-- `rfx_filter_chain`. -/
abbrev RfxFilterChain (σ : Type) := List (RfxInstance σ)

/-- A chain with its state, the reference counts, and the locals it works on. -/
structure ChainState (σ : Type) where
  flt : RfxFilterChain σ
  pool : Pool
  frame : FilterFrame

variable {σ : Type}

/-- Call each filter of a chain until one of them breaks. -/
def dispatch (call : RfxFilter σ -> σ -> FilterFrame -> Option (FltCall σ)) :
    RfxFilterChain σ -> Pool -> FilterFrame -> Option (ChainState σ)
  | [], pool, frame => some ⟨[], pool, frame⟩
  | i :: rest, pool, frame =>
      match i.flt with
      | none =>
          (dispatch call rest pool frame).map fun done => { done with flt := i :: done.flt }
      | some f =>
          (call f i.state frame).bind fun called =>
            (applyAll pool frame called.acts).bind fun next =>
              if called.ret = .brk then
                some ⟨{ i with state := called.state } :: rest, next.1, next.2⟩
              else
                (dispatch call rest next.1 next.2).map fun done =>
                  { done with flt := { i with state := called.state } :: done.flt }

/-- `delete ev`. -/
def deleteEvent (pool : Pool) (ev : RfxEvent) : Pool :=
  match ev.source with
  | some ptr => pool.unref ptr
  | none => pool

namespace ChainState

/-- `rfx_filter_chain::process` for a packet. -/
def processPkt (chain : ChainState σ) : Option (ChainState σ) :=
  dispatch (fun f => f.processPkt) chain.flt chain.pool chain.frame

/-- `rfx_filter_chain::process` for the events, of which at most `fuel` are
handled; filters may queue further events all the time. -/
def processEvents : Nat -> ChainState σ -> Option (ChainState σ)
  | fuel, chain =>
      match chain.frame.evq with
      | [] => some chain
      | ev :: later =>
          match fuel with
          | 0 => none
          | fuel + 1 =>
              (dispatch (fun f st frame => f.processEvent st frame ev) chain.flt chain.pool
                { chain.frame with evq := later, cur := some ev }).bind fun done =>
                processEvents fuel
                  { done with
                    pool := deleteEvent done.pool ev
                    frame := { done.frame with cur := none } }

theorem processEvents_cons (fuel : Nat) {flt flt' : RfxFilterChain σ} {pool pool' : Pool}
    {pkt pkt' : RfPacket} {pre post pre' post' : List RfPacket} {ev : RfxEvent}
    {later evq' : List RfxEvent} {cur cur' : Option RfxEvent}
    (dispatched : dispatch (fun f st frame => f.processEvent st frame ev) flt pool
      ⟨pkt, pre, post, later, some ev⟩ = some ⟨flt', pool', ⟨pkt', pre', post', evq', cur'⟩⟩) :
    processEvents (fuel + 1) ⟨flt, pool, ⟨pkt, pre, post, ev :: later, cur⟩⟩ =
      processEvents fuel ⟨flt', deleteEvent pool' ev, ⟨pkt', pre', post', evq', none⟩⟩ := by
  rw [processEvents]
  simp only [dispatched, Option.bind_some]

/-- More or less fuel makes no difference to what comes of the events. -/
theorem processEvents_unique {fuel fuel' : Nat} {chain first second : ChainState σ}
    (one : chain.processEvents fuel = some first) (other : chain.processEvents fuel' = some second) :
    first = second := by
  induction fuel generalizing fuel' chain with
  | zero =>
      unfold processEvents at one other
      split at one
      · rename_i empty
        rw [empty] at other
        exact Option.some.inj (one.symm.trans other)
      · cases one
  | succ fuel inductionHypothesis =>
      unfold processEvents at one other
      split at one
      · rename_i empty
        rw [empty] at other
        exact Option.some.inj (one.symm.trans other)
      · rename_i ev later queued
        rw [queued] at other
        cases fuel' with
        | zero => cases other
        | succ fuel' =>
            rcases Option.bind_eq_some_iff.mp one with ⟨done, dispatched, rest⟩
            rcases Option.bind_eq_some_iff.mp other with ⟨done', dispatched', rest'⟩
            cases dispatched.symm.trans dispatched'
            exact inductionHypothesis rest rest'

end ChainState

/-! ## Rules

A property of the reference counts and of the frame that every possible action
keeps is kept by every chain.  The filters of a chain stay the same; only their
states change.
-/

/-- Every action that a filter ever takes satisfies `allowed`. -/
structure RfxFilter.Acts (allowed : FltAct -> Prop) (f : RfxFilter σ) : Prop where
  onPkt : forall state frame called, f.processPkt state frame = some called ->
    forall act, act ∈ called.acts -> allowed act
  onEvent : forall state frame ev called, f.processEvent state frame ev = some called ->
    forall act, act ∈ called.acts -> allowed act

/-- The filters that are loaded in a chain. -/
def RfxFilterChain.filters (chain : RfxFilterChain σ) : List (Option (RfxFilter σ)) :=
  chain.map RfxInstance.flt

/-- Every action that a chain ever takes satisfies `allowed`. -/
def RfxFilterChain.Acts (allowed : FltAct -> Prop) (chain : RfxFilterChain σ) : Prop :=
  forall f, some f ∈ chain.filters -> f.Acts allowed

section Rules

variable {allowed : FltAct -> Prop} {holds : Pool -> FilterFrame -> Prop}

theorem applyAll_rule
    (act : forall pool frame act next, holds pool frame -> allowed act ->
      act.apply pool frame = some next -> holds next.1 next.2)
    {pool : Pool} {frame : FilterFrame} {acts : List FltAct} {next : Pool × FilterFrame}
    (now : holds pool frame) (all : forall act, act ∈ acts -> allowed act)
    (applied : applyAll pool frame acts = some next) : holds next.1 next.2 := by
  induction acts generalizing pool frame with
  | nil =>
      cases applied
      exact now
  | cons first acts inductionHypothesis =>
      rw [applyAll, Option.bind_eq_some_iff] at applied
      rcases applied with ⟨middle, firstEq, rest⟩
      have kept := act pool frame first middle now (all first List.mem_cons_self) firstEq
      exact inductionHypothesis kept (fun act member => all act (List.mem_cons_of_mem _ member)) rest

/-- A filter may be allowed some actions only in the frames that it is called in. -/
theorem dispatch_frame_rule
    (act : forall pool frame act next, holds pool frame -> allowed act ->
      act.apply pool frame = some next -> holds next.1 next.2)
    {call : RfxFilter σ -> σ -> FilterFrame -> Option (FltCall σ)} {chain : RfxFilterChain σ}
    (all : forall f, some f ∈ chain.filters -> forall pool state frame called, holds pool frame ->
      call f state frame = some called -> forall act, act ∈ called.acts -> allowed act)
    {pool : Pool} {frame : FilterFrame} {done : ChainState σ} (now : holds pool frame)
    (dispatched : dispatch call chain pool frame = some done) :
    holds done.pool done.frame ∧ done.flt.filters = chain.filters := by
  induction chain generalizing pool frame done with
  | nil =>
      cases dispatched
      exact ⟨now, rfl⟩
  | cons i rest inductionHypothesis =>
      have later : forall f, some f ∈ RfxFilterChain.filters rest -> forall pool state frame called,
          holds pool frame -> call f state frame = some called ->
            forall act, act ∈ called.acts -> allowed act :=
        fun f member => all f (List.mem_cons_of_mem _ member)
      unfold dispatch at dispatched
      split at dispatched
      · rcases Option.map_eq_some_iff.mp dispatched with ⟨tail, tailEq, rfl⟩
        rcases inductionHypothesis later now tailEq with ⟨kept, filters⟩
        exact ⟨kept, congrArg (i.flt :: ·) filters⟩
      · rename_i f loaded
        rcases Option.bind_eq_some_iff.mp dispatched with ⟨called, calledEq, dispatched⟩
        rcases Option.bind_eq_some_iff.mp dispatched with ⟨next, applied, dispatched⟩
        have member : some f ∈ RfxFilterChain.filters (i :: rest) :=
          loaded ▸ List.mem_cons_self
        have first := applyAll_rule act now (all f member _ _ _ called now calledEq) applied
        split at dispatched
        · cases dispatched
          exact ⟨first, rfl⟩
        · rcases Option.map_eq_some_iff.mp dispatched with ⟨tail, tailEq, rfl⟩
          rcases inductionHypothesis later first tailEq with ⟨kept, filters⟩
          exact ⟨kept, congrArg (i.flt :: ·) filters⟩

/-- No action of a filter touches the event that is being handled. -/
theorem cur_apply {pool : Pool} {frame : FilterFrame} {act : FltAct} {next : Pool × FilterFrame}
    (applied : act.apply pool frame = some next) : next.2.cur = frame.cur := by
  cases act with
  | push toPost filled =>
      cases applied
      simp only
      split <;> rfl
  | event what nick msg source =>
      cases source with
      | none =>
          cases applied
          rfl
      | some ptr =>
          simp only [FltAct.apply] at applied
          split at applied
          · cases applied
            rfl
          · cases applied
  | store ptr edit =>
      cases applied
      rfl

/-- No action of a filter sets the event that is being handled, so a rule can keep it. -/
theorem actCur_rule (cur : Option RfxEvent)
    (act : forall pool frame act next, holds pool frame -> allowed act ->
      act.apply pool frame = some next -> holds next.1 next.2) :
    forall pool frame act next, holds pool frame ∧ frame.cur = cur -> allowed act ->
      act.apply pool frame = some next -> holds next.1 next.2 ∧ next.2.cur = cur := by
  rintro pool frame candidate next ⟨now, current⟩ permitted applied
  exact ⟨act pool frame candidate next now permitted applied, (cur_apply applied).trans current⟩

/-- The rule for the events of a chain, each of which is taken off the queue and
deleted afterwards. -/
theorem processEvents_frame_rule
    (act : forall pool frame act next, holds pool frame -> allowed act ->
      act.apply pool frame = some next -> holds next.1 next.2)
    (popEvent : forall pool frame ev later, holds pool frame -> frame.evq = ev :: later ->
      frame.cur = none -> holds pool { frame with evq := later, cur := some ev })
    (delete : forall pool frame ev, holds pool frame -> frame.cur = some ev ->
      holds (deleteEvent pool ev) { frame with cur := none })
    {fuel : Nat} {chain handled : ChainState σ}
    (all : forall f, some f ∈ chain.flt.filters -> forall pool state frame ev called, holds pool frame ->
      frame.cur = some ev -> f.processEvent state frame ev = some called ->
        forall act, act ∈ called.acts -> allowed act)
    (now : holds chain.pool chain.frame) (idle : chain.frame.cur = none)
    (handledEq : chain.processEvents fuel = some handled) :
    holds handled.pool handled.frame ∧ handled.frame.evq = [] ∧ handled.frame.cur = none ∧
      handled.flt.filters = chain.flt.filters := by
  induction fuel generalizing chain with
  | zero =>
      unfold ChainState.processEvents at handledEq
      split at handledEq
      · rename_i empty
        cases handledEq
        exact ⟨now, empty, idle, rfl⟩
      · cases handledEq
  | succ fuel inductionHypothesis =>
      unfold ChainState.processEvents at handledEq
      split at handledEq
      · rename_i empty
        cases handledEq
        exact ⟨now, empty, idle, rfl⟩
      · rename_i ev later queued
        simp only [Option.bind_eq_some_iff] at handledEq
        rcases handledEq with ⟨done, dispatched, rest⟩
        rcases dispatch_frame_rule (actCur_rule (some ev) act)
          (fun f member pool state frame called now => all f member pool state frame ev called now.1 now.2)
          ⟨popEvent _ _ _ _ now queued idle, rfl⟩ dispatched with ⟨⟨kept, current⟩, filters⟩
        let next : ChainState σ :=
          { done with
            pool := deleteEvent done.pool ev
            frame := { done.frame with cur := none } }
        have all' : forall f, some f ∈ next.flt.filters -> forall pool state frame ev called,
            holds pool frame -> frame.cur = some ev -> f.processEvent state frame ev = some called ->
              forall act, act ∈ called.acts -> allowed act :=
          fun f member => all f (filters ▸ member)
        have deleted : holds next.pool next.frame := delete _ _ ev kept current
        rcases inductionHypothesis all' deleted rfl rest with ⟨keptAll, empty, idle', filters'⟩
        exact ⟨keptAll, empty, idle', filters'.trans filters⟩

/-- The rule for a whole chain on one packet: the packet itself, then the events. -/
theorem chain_frame_rule (allowed : FltAct -> Prop) (holds : Pool -> FilterFrame -> Prop)
    (act : forall pool frame act next, holds pool frame -> allowed act ->
      act.apply pool frame = some next -> holds next.1 next.2)
    (popEvent : forall pool frame ev later, holds pool frame -> frame.evq = ev :: later ->
      frame.cur = none -> holds pool { frame with evq := later, cur := some ev })
    (delete : forall pool frame ev, holds pool frame -> frame.cur = some ev ->
      holds (deleteEvent pool ev) { frame with cur := none })
    {chain : RfxFilterChain σ}
    (onPkt : forall f, some f ∈ chain.filters -> forall pool state frame called, holds pool frame ->
      f.processPkt state frame = some called -> forall act, act ∈ called.acts -> allowed act)
    (onEvent : forall f, some f ∈ chain.filters -> forall pool state frame ev called, holds pool frame ->
      frame.cur = some ev -> f.processEvent state frame ev = some called ->
        forall act, act ∈ called.acts -> allowed act)
    {pool : Pool} {pkt : RfPacket} {fuel : Nat} {processed handled : ChainState σ}
    (now : holds pool (.start pkt))
    (processedEq : ChainState.processPkt ⟨chain, pool, .start pkt⟩ = some processed)
    (handledEq : processed.processEvents fuel = some handled) :
    holds handled.pool handled.frame ∧ handled.frame.evq = [] ∧ handled.frame.cur = none ∧
      handled.flt.filters = chain.filters := by
  rcases dispatch_frame_rule (actCur_rule none act)
    (fun f member pool state frame called now => onPkt f member pool state frame called now.1)
    ⟨now, rfl⟩ processedEq with ⟨⟨kept, idle⟩, filters⟩
  rcases processEvents_frame_rule act popEvent delete (fun f member => onEvent f (filters ▸ member))
    kept idle handledEq with ⟨keptAll, empty, idle', filters'⟩
  exact ⟨keptAll, empty, idle', filters'.trans filters⟩

/-- The rule for filters whose actions are all allowed, whatever they are called in. -/
theorem chain_rule (allowed : FltAct -> Prop) (holds : Pool -> FilterFrame -> Prop)
    (act : forall pool frame act next, holds pool frame -> allowed act ->
      act.apply pool frame = some next -> holds next.1 next.2)
    (popEvent : forall pool frame ev later, holds pool frame -> frame.evq = ev :: later ->
      frame.cur = none -> holds pool { frame with evq := later, cur := some ev })
    (delete : forall pool frame ev, holds pool frame -> frame.cur = some ev ->
      holds (deleteEvent pool ev) { frame with cur := none })
    {chain : RfxFilterChain σ} (all : chain.Acts allowed) {pool : Pool} {pkt : RfPacket}
    {fuel : Nat} {processed handled : ChainState σ} (now : holds pool (.start pkt))
    (processedEq : ChainState.processPkt ⟨chain, pool, .start pkt⟩ = some processed)
    (handledEq : processed.processEvents fuel = some handled) :
    holds handled.pool handled.frame ∧ handled.frame.evq = [] ∧ handled.frame.cur = none ∧
      handled.flt.filters = chain.filters :=
  chain_frame_rule allowed holds act popEvent delete
    (fun f member _ state frame called _ => (all f member).onPkt state frame called)
    (fun f member _ state frame ev called _ _ => (all f member).onEvent state frame ev called)
    now processedEq handledEq

end Rules

end Rfx
