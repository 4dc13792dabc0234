import Rfx.Library.Merges
import Rfx.Session.Received
import Rfx.Session.Shipped

namespace Rfx

open Library

/-!
# What the commands to `loot` come to

The state of the loot filter is what the private messages to `loot` have made of the first one, in
the order in which they were filtered.  The filter does not ask who sent a message, so this order
is some interleaving of the two streams, of which either is followed in its own order.
-/

/-- What a frame makes of the state, with the drop lists as they are when it is filtered. -/
def afterFrame (lm : LootState) (frame : Files × List Byte) : LootState :=
  if getInt16 (frame.2.drop 2) = RfxChat.privmsgOut then
    match RfxChat.parse (frame.2.drop 4) with
    | some (some (nick, msg)) => if nick = text "loot" then (RfxLoot.lootCmd frame.1 lm msg).1 else lm
    | _ => lm
  else lm

/-! ## One packet -/

/-- A chain that has a result has read nothing outside of the packet. -/
theorem readsInside_of_processed {files : Files} {lm : LootState} {pool : Pool} {pkt : RfPacket}
    {processed : ChainState (Option LootState)}
    (processedEq : ChainState.processPkt ⟨shippedChain files lm, pool, .start pkt⟩ = some processed) :
    ReadsInside pkt := by
  rcases Option.bind_eq_some_iff.mp processedEq with ⟨called, calledEq, later⟩
  rcases Option.map_eq_some_iff.mp calledEq with ⟨acts, actsEq, same⟩
  have chatEq : RfxChat.processPkt pkt = some acts := actsEq
  clear actsEq
  unfold RfxChat.processPkt at chatEq
  constructor
  · intro whiteChat
    rw [if_pos whiteChat] at chatEq
    rcases Option.map_eq_some_iff.mp chatEq with ⟨found, parsed, _⟩
    exact Option.isSome_iff_exists.mpr ⟨found, parsed⟩
  · intro privmsg
    have other : ¬ pkt.type = RfxChat.whiteChatOut := by
      rw [privmsg]
      decide
    rw [if_neg other, if_pos privmsg] at chatEq
    rcases Option.map_eq_some_iff.mp chatEq with ⟨found, parsed, _⟩
    exact Option.isSome_iff_exists.mpr ⟨found, parsed⟩
  · intro item
    have quiet : ¬ pkt.type = RfxChat.whiteChatOut ∧ ¬ pkt.type = RfxChat.privmsgOut ∧
        ¬ pkt.type = RfxChat.privmsgIn := by
      rcases item with new | horizon
      · rw [new]
        decide
      · rw [horizon]
        decide
    rw [if_neg quiet.1, if_neg quiet.2.1, if_neg quiet.2.2] at chatEq
    cases chatEq
    cases same
    -- The loot filter is called next, for the packet as it was.
    rcases Option.map_eq_some_iff.mp later with ⟨done, lootEq, _⟩
    rcases Option.bind_eq_some_iff.mp lootEq with ⟨outer, outerEq, _⟩
    rcases Option.map_eq_some_iff.mp outerEq with ⟨inner, innerEq, _⟩
    rcases Option.map_eq_some_iff.mp innerEq with ⟨acts, actsEq, _⟩
    by_contra short
    have refused (desc : String) : RfxLoot.item lm pkt desc = none := if_neg short
    have failed : RfxLoot.processPkt lm pkt = none := by
      unfold RfxLoot.processPkt
      rcases item with new | horizon
      · rw [if_pos new, refused]
      · have other : ¬ pkt.type = RfxLoot.lootDropNew := by
          rw [horizon]
          decide
        rw [if_neg other, if_pos horizon, refused]
    have reads : RfxLoot.processPkt lm pkt = some acts := actsEq
    rw [failed] at reads
    cases reads

/-- What the chain makes of the state is what the frame does. -/
theorem flt_of_handled {files : Files} {lm : LootState} {pool : Pool} {pkt : RfPacket} {fuel : Nat}
    {processed handled : ChainState (Option LootState)}
    (processedEq : ChainState.processPkt ⟨shippedChain files lm, pool, .start pkt⟩ = some processed)
    (handledEq : processed.processEvents fuel = some handled) :
    Exists fun lm' => handled.flt = shippedChain files lm' ∧
      forall dir, Announced dir pkt -> lm' = afterFrame lm (files, pkt.data) := by
  have inside := readsInside_of_processed processedEq
  rcases processPkt_shipped files lm pool inside with ⟨counted, marked, processedEq', same, dropped⟩
  cases processedEq.symm.trans processedEq'
  rcases events_spec files lm counted inside same dropped with ⟨_, handledEq', outcome⟩
  cases ChainState.processEvents_unique handledEq handledEq'
  cases outcome with
  | passed pool marked plain _ _ =>
      refine ⟨lm, rfl, fun dir announced => ?_⟩
      unfold afterFrame
      rw [announced.type_eq.symm, ← announced.wire_eq]
      split
      · rename_i privmsg
        split
        · rename_i nick msg parsed
          refine (if_neg fun loot => plain ⟨privmsg, ?_⟩).symm
          rw [← RfxChat.nick_of_parse parsed, ← loot]
          rfl
        · rfl
      · rfl
  | answered pool marked answer msg command parsed _ _ _ _ _ =>
      refine ⟨_, rfl, fun dir announced => ?_⟩
      unfold afterFrame
      rw [announced.type_eq.symm, ← announced.wire_eq, if_pos command.1, parsed]
      exact (if_pos rfl).symm

/-! ## Histories -/

/-- The frames that have been filtered, those of the client and those of the server in one order and
each with drop lists that were there at some time, and what they have made of the first state. -/
structure History (seen : Files -> Prop) (lm : LootState)
    (left right history : List (Files × List Byte)) : Prop where
  merged : Merges left right history
  state_eq : lm = history.foldl afterFrame .new
  known : forall frame, frame ∈ history -> seen frame.1

namespace History

variable {seen : Files -> Prop} {lm : LootState} {left right history : List (Files × List Byte)}
  {frame : Files × List Byte}

theorem nil : History seen .new [] [] [] :=
  ⟨.nil, rfl, fun _ member => absurd member List.not_mem_nil⟩

theorem state_append (past : History seen lm left right history) :
    afterFrame lm frame = (history ++ [frame]).foldl afterFrame .new := by
  rw [List.foldl_append, ← past.state_eq]
  rfl

theorem known_append (past : History seen lm left right history) (now : seen frame.1) :
    forall other, other ∈ history ++ [frame] -> seen other.1 := by
  intro other member
  rcases List.mem_append.mp member with old | last
  · exact past.known other old
  · exact List.mem_singleton.mp last ▸ now

/-- A frame of the client is filtered. -/
theorem appendLeft (past : History seen lm left right history) (now : seen frame.1) :
    History seen (afterFrame lm frame) (left ++ [frame]) right (history ++ [frame]) :=
  ⟨past.merged.appendLeft frame, past.state_append, past.known_append now⟩

/-- A frame of the server is filtered. -/
theorem appendRight (past : History seen lm left right history) (now : seen frame.1) :
    History seen (afterFrame lm frame) left (right ++ [frame]) (history ++ [frame]) :=
  ⟨past.merged.appendRight frame, past.state_append, past.known_append now⟩

end History

/-! ## The session -/

/-- The input side of a pipe stays as it is. -/
structure ProxyPipe.SameInput (p next : ProxyPipe) : Prop where
  rcvq_eq : next.rcvq = p.rcvq
  received_eq : next.received = p.received

theorem ProxyPipe.sameInput_afterSend {p : ProxyPipe} {st : SendState} (value : Int) :
    p.SameInput (({ p with sndq := st.q, written := st.out } : ProxyPipe).afterSend value) := by
  rw [ProxyPipe.afterSend_eq]
  exact ⟨rfl, rfl⟩

namespace RfSession

variable {s next : RfSession (Option LootState)} {lm : LootState} {seen : Files -> Prop}

/-- The state is what the frames have made of it that were handed to the filter. -/
def Follows (seen : Files -> Prop) (lm : LootState) (s : RfSession (Option LootState)) : Prop :=
  forall sent answered restC restS, wireFormat.Splits s.c2s.received sent restC ->
    wireFormat.Splits s.s2c.received answered restS ->
      Exists fun left => Exists fun right => Exists fun history =>
        History seen lm left right history ∧
          s.c2s.Hands sent restC (left.map Prod.snd) ∧ s.s2c.Hands answered restS (right.map Prod.snd)

theorem follows_start (pool : Pool) (flt : RfxFilterChain (Option LootState)) :
    (RfSession.start pool flt).Follows seen .new := by
  intro sent answered restC restS toServer toClient
  exact ⟨[], [], [], .nil, ProxyPipe.hands_start cliToSrv toServer,
    ProxyPipe.hands_start srvToCli toClient⟩

/-- Only the receive queues matter, and what was received. -/
theorem Follows.congr (follows : s.Follows seen lm) (c2s : s.c2s.SameInput next.c2s)
    (s2c : s.s2c.SameInput next.s2c) : next.Follows seen lm := by
  intro sent answered restC restS toServer toClient
  rcases follows sent answered restC restS (c2s.received_eq ▸ toServer) (s2c.received_eq ▸ toClient)
    with ⟨left, right, history, past, handsC, handsS⟩
  exact ⟨left, right, history, past, handsC.congr c2s.rcvq_eq, handsS.congr s2c.rcvq_eq⟩

theorem Follows.setPipe (follows : s.Follows seen lm) (dir : Dir) {p : ProxyPipe}
    (same : (s.pipe dir).SameInput p) : (s.setPipe dir p).Follows seen lm := by
  unfold RfSession.setPipe
  unfold RfSession.pipe at same
  split
  · rename_i toClient
    rw [if_pos toClient] at same
    exact follows.congr ⟨rfl, rfl⟩ same
  · rename_i toServer
    rw [if_neg toServer] at same
    exact follows.congr same ⟨rfl, rfl⟩

theorem Follows.handleRead (follows : s.Follows seen lm) {dir : Dir} {results : List ReadvResult}
    (read : s.handleRead dir results = some next) : next.Follows seen lm := by
  rcases handleRead_spec read with ⟨answer, answerEq, rfl⟩
  rcases ProxyPipe.handleReadEvent_spec answerEq with ⟨more, reads, recvEq⟩
  unfold RfSession.setPipe
  unfold RfSession.pipe at reads recvEq
  split
  · rename_i toClient
    rw [if_pos toClient] at reads recvEq
    intro sent answered restC restS fromClient fromServer
    rcases reads.hands recvEq fromServer with ⟨before, middle, front, goesOn⟩
    rcases follows sent before restC middle fromClient front with
      ⟨left, right, history, past, handsC, handsS⟩
    exact ⟨left, right, history, past, handsC, goesOn _ handsS⟩
  · rename_i toServer
    rw [if_neg toServer] at reads recvEq
    intro sent answered restC restS fromClient fromServer
    rcases reads.hands recvEq fromClient with ⟨before, middle, front, goesOn⟩
    rcases follows before answered middle restS front fromServer with
      ⟨left, right, history, past, handsC, handsS⟩
    exact ⟨left, right, history, past, goesOn _ handsC, handsS⟩

theorem sameInput_dispose (s : RfSession (Option LootState)) (dir : Dir) (pkt : RfPacket) :
    s.c2s.SameInput (s.dispose dir pkt).c2s ∧ s.s2c.SameInput (s.dispose dir pkt).s2c := by
  unfold RfSession.dispose RfSession.setPipe RfSession.pipe
  split
  · exact ⟨⟨rfl, rfl⟩, ⟨rfl, rfl⟩⟩
  · split
    · exact ⟨⟨rfl, rfl⟩, ⟨rfl, rfl⟩⟩
    · exact ⟨⟨rfl, rfl⟩, ⟨rfl, rfl⟩⟩

/-- Whatever goes to the send queues leaves the input and the chain alone. -/
theorem route_rest (s : RfSession (Option LootState)) (dir : Dir) (frame : FilterFrame) :
    (s.route dir frame).flt = s.flt ∧ s.c2s.SameInput (s.route dir frame).c2s ∧
      s.s2c.SameInput (s.route dir frame).s2c := by
  have disposed := sameInput_dispose (s.inject frame.pre).1 dir frame.pkt
  refine ⟨(dispose_rest (s.inject frame.pre).1 dir frame.pkt).1, ?_, ?_⟩
  · exact ⟨disposed.1.rcvq_eq, disposed.1.received_eq⟩
  · exact ⟨disposed.2.rcvq_eq, disposed.2.received_eq⟩

/-- The frame that is filtered is the next one of the history. -/
theorem Follows.filterPkt (follows : s.Follows seen lm) {files : Files} (now : seen files)
    (loaded : s.flt = shippedChain files lm) {dir : Dir} {fuel : Nat} {pkt : RfPacket}
    {rest : List RfPacket} (queue : (s.pipe dir).rcvq.pq = pkt :: rest)
    (filtered : (s.popIn dir rest).filterPkt dir fuel pkt = some next) :
    Exists fun lm' => next.flt = shippedChain files lm' ∧ next.Follows seen lm' := by
  have popRest := setPipe_rest s dir
    { s.pipe dir with rcvq := { (s.pipe dir).rcvq with pq := rest } }
  rcases filterPkt_spec filtered with ⟨processed, handled, processedEq, handledEq, rfl⟩
  rw [popIn, popRest.2.1, loaded] at processedEq
  rcases flt_of_handled processedEq handledEq with ⟨lm', after, stepped⟩
  have routed := route_rest { s.popIn dir rest with flt := handled.flt, pool := handled.pool } dir
    handled.frame
  refine ⟨lm', routed.1.trans after, ?_⟩
  refine Follows.congr (s := { s.popIn dir rest with flt := handled.flt, pool := handled.pool }) ?_
    routed.2.1 routed.2.2
  intro sent answered restC restS fromClient fromServer
  unfold RfSession.popIn RfSession.setPipe RfSession.pipe at fromClient fromServer ⊢
  unfold RfSession.pipe at queue
  by_cases toClient : dir = srvToCli
  · simp only [if_pos toClient] at queue fromClient fromServer ⊢
    rcases follows sent answered restC restS fromClient fromServer with
      ⟨left, right, history, past, handsC, handsS⟩
    rcases handsS.announced pkt (queue ▸ List.mem_cons_self) with ⟨_, announced⟩
    rw [stepped _ announced]
    refine ⟨left, _, _, past.appendRight now, handsC, ?_⟩
    rw [List.map_append]
    exact handsS.pass queue rfl
  · simp only [if_neg toClient] at queue fromClient fromServer ⊢
    rcases follows sent answered restC restS fromClient fromServer with
      ⟨left, right, history, past, handsC, handsS⟩
    rcases handsC.announced pkt (queue ▸ List.mem_cons_self) with ⟨_, announced⟩
    rw [stepped _ announced]
    refine ⟨_, right, _, past.appendLeft now, ?_, handsS⟩
    rw [List.map_append]
    exact handsC.pass queue rfl

theorem Follows.handleWrite (follows : s.Follows seen lm) {dir : Dir} {results : List WritevResult}
    (written : s.handleWrite dir results = some next) : next.Follows seen lm := by
  rcases handleWrite_spec written with ⟨st, value, _, rfl⟩
  exact follows.setPipe dir (ProxyPipe.sameInput_afterSend value)

theorem Follows.timeoutCb (follows : s.Follows seen lm) {index : Nat} {writes : List WritevResult}
    (fired : s.timeoutCb index writes = some next) : next.flt = s.flt ∧ next.Follows seen lm := by
  rcases timeoutCb_spec fired with ⟨dp, emitted, _, _, emitEq, rfl⟩
  rcases emit_spec emitEq with ⟨st, value, _, rfl⟩
  exact ⟨(setPipe_rest (s.removeDelayed index) _ _).2.1,
    Follows.setPipe (s := s.removeDelayed index) follows dp.pkt.dir
      (ProxyPipe.sameInput_afterSend value)⟩

/-- A callback leaves a state that follows the frames, or deletes the session. -/
theorem Follows.step (follows : s.Follows seen lm) {files : Files} (now : seen files)
    (loaded : s.flt = shippedChain files lm) {callback : Callback} (taken : s.step callback = some next)
    (live : next.deleted = false) :
    Exists fun lm' => next.flt = shippedChain files lm' ∧ next.Follows seen lm' := by
  have kept := step_rule (fun s => Exists fun lm => s.flt = shippedChain files lm ∧ s.Follows seen lm)
    (fun s dir results next before read => by
      rcases before with ⟨lm, loaded, follows⟩
      refine ⟨lm, ?_, follows.handleRead read⟩
      rcases handleRead_spec read with ⟨answer, _, rfl⟩
      exact (setPipe_rest s dir answer.2).2.1.trans loaded)
    (fun _ _ _ _ _ _ before queue filtered => by
      rcases before with ⟨lm, loaded, follows⟩
      exact follows.filterPkt now loaded queue filtered)
    (fun _ before => before)
    (fun s dir results next before written => by
      rcases before with ⟨lm, loaded, follows⟩
      refine ⟨lm, ?_, follows.handleWrite written⟩
      rcases handleWrite_spec written with ⟨st, value, _, rfl⟩
      exact (setPipe_rest s dir _).2.1.trans loaded)
    (fun s index writes next before fired => by
      rcases before with ⟨lm, loaded, follows⟩
      rcases follows.timeoutCb fired with ⟨same, follows⟩
      exact ⟨lm, same.trans loaded, follows⟩)
    ⟨lm, loaded, follows⟩ taken
  rcases kept with later | ⟨last, _, rfl⟩
  · exact later
  · cases live

/-! ## A run -/

/-- A callback, with the drop lists as they are then. -/
def stepOn (s : RfSession (Option LootState)) (call : Files × Callback) :
    Option (RfSession (Option LootState)) :=
  (s.withFiles call.1).step call.2

/-- A session between two callbacks, whose filter follows the frames. -/
structure Obeys (seen : Files -> Prop) (s : RfSession (Option LootState)) : Prop where
  settled : s.Settled
  follows : Exists fun files => Exists fun lm => s.flt = shippedChain files lm ∧ s.Follows seen lm

theorem obeys_start (pool : Pool) (files : Files) :
    (RfSession.start pool (shippedChain files .new)).Obeys seen :=
  ⟨.start pool _, files, .new, rfl, follows_start pool _⟩

theorem Obeys.stepOn (obeys : s.Obeys seen) {call : Files × Callback} (now : seen call.1)
    (taken : s.stepOn call = some next) : next.Obeys seen ∨ next.deleted = true := by
  have settled : (s.withFiles call.1).Settled :=
    ⟨obeys.settled.sound.with_pool_flt _ _, ⟨obeys.settled.each.c2s, obeys.settled.each.s2c⟩,
      obeys.settled.timed⟩
  rcases obeys.follows with ⟨files, lm, loaded, follows⟩
  have reloaded : (s.withFiles call.1).flt = shippedChain call.1 lm := by
    rw [withFiles, loaded]
    rfl
  have kept : (s.withFiles call.1).Follows seen lm := follows.congr ⟨rfl, rfl⟩ ⟨rfl, rfl⟩
  rcases settled.step taken with after | deleted
  · cases live : next.deleted with
    | true => exact Or.inr rfl
    | false =>
        rcases kept.step now reloaded taken live with ⟨lm', loaded', follows'⟩
        exact Or.inl ⟨after, call.1, lm', loaded', follows'⟩
  · exact Or.inr deleted

/-- All frames have been filtered that were received. -/
theorem Obeys.filtered (obeys : s.Obeys seen) {sent answered : List (List Byte)}
    {restC restS : List Byte}
    (fromClient : wireFormat.Splits s.c2s.received sent restC)
    (fromServer : wireFormat.Splits s.s2c.received answered restS) :
    Exists fun left => Exists fun right => Exists fun history => Exists fun files =>
      left.map Prod.snd = sent ∧ right.map Prod.snd = answered ∧ Merges left right history ∧
        (forall frame, frame ∈ history -> seen frame.1) ∧
        s.flt = shippedChain files (history.foldl afterFrame .new) := by
  rcases obeys.follows with ⟨files, lm, loaded, follows⟩
  rcases follows sent answered restC restS fromClient fromServer with
    ⟨left, right, history, past, handsC, handsS⟩
  have emptyC := obeys.settled.each.c2s.filtered
  have emptyS := obeys.settled.each.s2c.filtered
  refine ⟨left, right, history, files, ?_, ?_, past.merged, past.known, past.state_eq ▸ loaded⟩
  · rw [handsC.split, emptyC, List.map_nil, List.append_nil]
  · rw [handsS.split, emptyS, List.map_nil, List.append_nil]

end RfSession

/-- Only private messages can change the state. -/
theorem afterFrame_of_other {frame : Files × List Byte}
    (other : getInt16 (frame.2.drop 2) ≠ RfxChat.privmsgOut) (lm : LootState) :
    afterFrame lm frame = lm :=
  if_neg other

/-- The loot filter obeys its commands and nothing else.  In every run of a session with the shipped
filters, with drop lists that may be others in every callback: when the received bytes are these
frames and what is pending, the state of the filter is what the commands among the frames have made
of the first state, in an order in which the frames of each stream follow one another.  If the
server sends no private message of the client's type, it is what those of the client have made of it
alone. -/
theorem loot_filter_obeys_commands (pool : Pool) (files : Files) (calls : List (Files × Callback))
    (s : RfSession (Option LootState))
    (reached : Run.run RfSession.stepOn (.start pool (shippedChain files .new)) calls = some s)
    (live : s.deleted = false) {sent answered : List (List Byte)} {restC restS : List Byte}
    (fromClient : wireFormat.Splits s.c2s.received sent restC)
    (fromServer : wireFormat.Splits s.s2c.received answered restS) :
    Exists fun left => Exists fun right => Exists fun history => Exists fun now =>
      left.map Prod.snd = sent ∧ right.map Prod.snd = answered ∧ Merges left right history ∧
        (forall frame, frame ∈ history -> Exists fun callback => (frame.1, callback) ∈ calls) ∧
        s.flt = shippedChain now (history.foldl afterFrame .new) ∧
        ((forall frame, frame ∈ answered -> getInt16 (frame.drop 2) ≠ RfxChat.privmsgOut) ->
          s.flt = shippedChain now (left.foldl afterFrame .new)) := by
  have met : Run.Meets RfSession.stepOn (fun _ call => True ∧ call ∈ calls)
      (.start pool (shippedChain files .new)) calls :=
    (Run.meets_true _ calls).and_labels fun _ member => member
  have kept := Run.run_invariant_of_meets
    (fun s : RfSession (Option LootState) =>
      s.Obeys (fun files => Exists fun callback => (files, callback) ∈ calls) ∨ s.deleted = true)
    (fun s call next before condition taken => by
      rcases before with obeys | deleted
      · exact obeys.stepOn ⟨call.2, condition.2⟩ taken
      · have none : s.stepOn call = none := if_pos deleted
        rw [none] at taken
        cases taken)
    (Or.inl (RfSession.obeys_start pool files)) met reached
  rcases kept with obeys | deleted
  · rcases obeys.filtered fromClient fromServer with
      ⟨left, right, history, now, sentEq, answeredEq, merged, known, loaded⟩
    refine ⟨left, right, history, now, sentEq, answeredEq, merged, known, loaded, fun others => ?_⟩
    have idle (frame : Files × List Byte) (member : frame ∈ right) (lm : LootState) :
        afterFrame lm frame = lm :=
      afterFrame_of_other (others _ (answeredEq ▸ List.mem_map_of_mem member)) lm
    rw [loaded, merged.foldl_eq idle]
  · rw [live] at deleted
    cases deleted

/-- The client tells `loot` to show nothing. -/
def showNothing : List Byte :=
  [15, 0, 2, 3] ++ text "loot: none" ++ [0]

/-- Somebody tells `loot` to show one kind of things. -/
def showOne : List Byte :=
  [15, 0, 2, 3] ++ text "loot: 0x11" ++ [0]

/-- The command of the client comes in two pieces; between them, there is one from the server. -/
def commandsFromBoth : List (Files × Callback) :=
  [(fun _ => none, .cli (some
      { reads := [.received (showNothing.take 7), .failed .eagain], fuel := 2, own := [], other := [] })
      none),
    (fun _ => none, .srv (some
      { reads := [.received showOne, .failed .eagain]
        fuel := 2
        own := [.failed .eagain]
        other := [] }) none),
    (fun _ => none, .cli (some
      { reads := [.received (showNothing.drop 7), .failed .eagain]
        fuel := 2
        own := []
        other := [.failed .eagain] }) none)]

/-- The two commands have made the state, one after the other. -/
theorem loot_filter_obeys_commands_both :
    Exists fun s => Exists fun now => Exists fun history =>
      Run.run RfSession.stepOn (.start RefCount.Heap.empty (shippedChain (fun _ => none) .new))
          commandsFromBoth = some s ∧
        s.c2s.received = showNothing ∧ s.s2c.received = showOne ∧
        s.flt = shippedChain now (history.foldl afterFrame .new) ∧
        (history = [(fun _ => none, showOne), (fun _ => none, showNothing)] ∨
          history = [(fun _ => none, showNothing), (fun _ => none, showOne)]) := by
  have ran : Exists fun s =>
      Run.run RfSession.stepOn (.start RefCount.Heap.empty (shippedChain (fun _ => none) .new))
          commandsFromBoth = some s ∧
        s.deleted = false ∧ s.c2s.received = showNothing ∧ s.s2c.received = showOne := by
    refine ⟨_, rfl, ?_, ?_, ?_⟩
    · rfl
    · rfl
    · rfl
  rcases ran with ⟨s, reached, live, toServer, toClient⟩
  have fromClient : wireFormat.Splits s.c2s.received [showNothing] [] := by
    have isFrame : wireFormat.IsFrame showNothing := ⟨by decide, by decide⟩
    rw [toServer]
    exact (Framing.Format.splits_nil wireFormat).cons isFrame
  have fromServer : wireFormat.Splits s.s2c.received [showOne] [] := by
    have isFrame : wireFormat.IsFrame showOne := ⟨by decide, by decide⟩
    rw [toClient]
    exact (Framing.Format.splits_nil wireFormat).cons isFrame
  rcases loot_filter_obeys_commands _ _ _ s reached live fromClient fromServer with
    ⟨left, right, history, now, sentEq, answeredEq, merged, known, loaded, _⟩
  refine ⟨s, now, history, reached, toServer, toClient, loaded, ?_⟩
  have files (frame : Files × List Byte) (member : frame ∈ history) : frame.1 = fun _ => none := by
    rcases known frame member with ⟨callback, made⟩
    simp only [commandsFromBoth, List.mem_cons, List.not_mem_nil, or_false, Prod.mk.injEq] at made
    rcases made with made | made | made
    all_goals exact made.1
  rcases List.map_eq_singleton_iff.mp sentEq with ⟨one, rfl, oneEq⟩
  rcases List.map_eq_singleton_iff.mp answeredEq with ⟨other, rfl, otherEq⟩
  have both : history = [other, one] ∨ history = [one, other] := by
    cases merged with
    | left _ rest =>
        cases rest with
        | right _ rest =>
            cases rest
            exact Or.inr rfl
    | right _ rest =>
        cases rest with
        | left _ rest =>
            cases rest
            exact Or.inl rfl
  have oneIs : one = (fun _ => none, showNothing) :=
    Prod.ext (files one (merged.mem_left List.mem_cons_self)) oneEq
  have otherIs : other = (fun _ => none, showOne) := by
    refine Prod.ext (files other ?_) otherEq
    rcases both with rfl | rfl
    · exact List.mem_cons_self
    · exact List.mem_cons_of_mem _ List.mem_cons_self
  rw [oneIs, otherIs] at both
  exact both

end Rfx
