import Rfx.Loot

namespace Rfx

open Library

/-!
# The chain of the filters that come with the program

The chat, loot and debug filters, all loaded, in this order.  What the chain
does to one packet is worked out in two steps: the filters see the packet, of
which at most one event comes, and then the events are handled, of which there
are at most two.  The two steps meet in the session, where the packet and the
reply go to the queues.
-/

variable {σ : Type}

/-- A filter with a state of its own, in a chain with filters that have none. -/
def RfxFilter.stateful (f : RfxFilter σ) : RfxFilter (Option σ) where
  processPkt := fun state frame =>
    state.bind fun st =>
      (f.processPkt st frame).map fun called => ⟨called.acts, some called.state, called.ret⟩
  processEvent := fun state frame ev =>
    state.bind fun st =>
      (f.processEvent st frame ev).map fun called => ⟨called.acts, some called.state, called.ret⟩

/-- `class rfx_debug`. -/
def rfxDebug : RfxFilter σ where
  processPkt := fun state _ => some ⟨[], state, .decline⟩
  processEvent := fun state _ _ => some ⟨[], state, .decline⟩

/-- The instances of the three filters. -/
def shippedChain (files : Files) (lm : LootState) : RfxFilterChain (Option LootState) :=
  [⟨some rfxChat, none⟩, ⟨some (rfxLoot files).stateful, some lm⟩, ⟨some rfxDebug, none⟩]

/-! ## What the filters make of a packet -/

/-- A new item, or one that comes into sight. -/
def IsItem (pkt : RfPacket) : Prop :=
  pkt.type = RfxLoot.lootDropNew ∨ pkt.type = RfxLoot.lootDropHorizon

instance (pkt : RfPacket) : Decidable (IsItem pkt) :=
  inferInstanceAs (Decidable (_ ∨ _))

/-- A private message to the nick `loot`. -/
def IsLootCommand (pkt : RfPacket) : Prop :=
  pkt.type = RfxChat.privmsgOut ∧
    (RfxChat.afterBrackets (pkt.wire.drop 4)).map RfxChat.nickText = some (text "loot")

instance (pkt : RfPacket) : Decidable (IsLootCommand pkt) :=
  inferInstanceAs (Decidable (_ ∧ _))

/-- The fields that the filters read are inside the packet. -/
structure ReadsInside (pkt : RfPacket) : Prop where
  whiteChat : pkt.type = RfxChat.whiteChatOut -> (RfxChat.parse (pkt.wire.drop 5)).isSome
  privmsg : pkt.type = RfxChat.privmsgOut -> (RfxChat.parse (pkt.wire.drop 4)).isSome
  item : IsItem pkt -> 6 ≤ pkt.len

/-- Is the bit of the item's id set? -/
def itemShown (lm : LootState) (pkt : RfPacket) : Bool :=
  lm.shown.test (getInt16 (pkt.data.drop 4))

/-- The event that the chat filter fires about a packet. -/
def sentEvent (pkt : RfPacket) : Option RfxEvent :=
  if pkt.type = RfxChat.whiteChatOut then
    (RfxChat.parse (pkt.wire.drop 5)).join.map fun found =>
      ⟨rfxevWchatSent, some pkt.ptr, found.1, found.2⟩
  else if pkt.type = RfxChat.privmsgOut then
    (RfxChat.parse (pkt.wire.drop 4)).join.map fun found =>
      ⟨rfxevPrivSent, some pkt.ptr, found.1, found.2⟩
  else none

/-- Only the description and the flags of a packet were changed. -/
structure Marked (pkt marked : RfPacket) : Prop where
  ptr_eq : marked.ptr = pkt.ptr
  len_eq : marked.len = pkt.len
  type_eq : marked.type = pkt.type
  dir_eq : marked.dir = pkt.dir
  data_eq : marked.data = pkt.data

namespace Marked

variable {pkt first second : RfPacket}

/-- Stores into the other fields. -/
theorem edit (pkt : RfPacket) (desc : Option String) (drop shown : Bool) :
    Marked pkt { pkt with desc := desc, drop := drop, shown := shown } :=
  ⟨rfl, rfl, rfl, rfl, rfl⟩

theorem trans (front : Marked pkt first) (back : Marked first second) : Marked pkt second :=
  ⟨back.ptr_eq.trans front.ptr_eq, back.len_eq.trans front.len_eq,
    back.type_eq.trans front.type_eq, back.dir_eq.trans front.dir_eq,
    back.data_eq.trans front.data_eq⟩

end Marked

theorem start_eq (pkt : RfPacket) : FilterFrame.start pkt = ⟨pkt, [], [], [], none⟩ := rfl

/-- The stores and the event for a message that a client sent. -/
theorem sent_spec (pool : Pool) (pkt : RfPacket) (desc : String) (code start : Nat)
    (inside : (RfxChat.parse (pkt.wire.drop start)).isSome) :
    Exists fun acts => Exists fun counted => Exists fun marked =>
      RfxChat.sent pkt desc code start = some acts ∧ Marked pkt marked ∧
        marked.drop = pkt.drop ∧
        applyAll pool (.start pkt) acts =
          some (counted, ⟨marked, [], [],
            ((RfxChat.parse (pkt.wire.drop start)).join.map fun found =>
              (⟨code, some pkt.ptr, found.1, found.2⟩ : RfxEvent)).toList, none⟩) := by
  rcases Option.isSome_iff_exists.mp inside with ⟨found, parsed⟩
  rw [RfxChat.sent, parsed]
  cases found with
  | none =>
      refine ⟨_, pool, { pkt with desc := some "UNKNOWN CHAT MESSAGE", shown := true }, rfl,
        .edit _ _ _ _, rfl, ?_⟩
      simp [applyAll, FltAct.apply, start_eq, FilterFrame.store, PktEdit.apply]
  | some found =>
      refine ⟨_, pool.ref pkt.ptr, { pkt with desc := some desc, shown := true }, rfl,
        .edit _ _ _ _, rfl, ?_⟩
      simp [applyAll, FltAct.apply, start_eq, FilterFrame.store, PktEdit.apply,
        FilterFrame.inHand]

/-- What the chat filter does to a packet. -/
theorem chat_spec (pool : Pool) {pkt : RfPacket} (inside : ReadsInside pkt) :
    Exists fun acts => Exists fun counted => Exists fun marked =>
      RfxChat.processPkt pkt = some acts ∧ Marked pkt marked ∧ marked.drop = pkt.drop ∧
        applyAll pool (.start pkt) acts =
          some (counted, ⟨marked, [], [], (sentEvent pkt).toList, none⟩) := by
  unfold RfxChat.processPkt sentEvent
  split
  · rename_i whiteChat
    exact sent_spec pool pkt _ _ _ (inside.whiteChat whiteChat)
  · split
    · rename_i privmsg
      exact sent_spec pool pkt _ _ _ (inside.privmsg privmsg)
    · split
      · refine ⟨_, pool, { pkt with desc := some "incoming chat message" }, rfl, .edit _ _ _ _, rfl, ?_⟩
        simp [applyAll, FltAct.apply, start_eq, FilterFrame.store, PktEdit.apply]
      · exact ⟨[], pool, pkt, rfl, .edit _ _ _ _, rfl, rfl⟩

/-- What the loot filter does to a packet. -/
theorem loot_spec (lm : LootState) (pool : Pool) {pkt : RfPacket} (evq : List RfxEvent)
    (inside : IsItem pkt -> 6 ≤ pkt.len) :
    Exists fun acts => Exists fun marked =>
      RfxLoot.processPkt lm pkt = some acts ∧ Marked pkt marked ∧
        marked.drop = (if IsItem pkt then !itemShown lm pkt else pkt.drop) ∧
        applyAll pool ⟨pkt, [], [], evq, none⟩ acts =
          some (pool, ⟨marked, [], [], evq, none⟩) := by
  have dropped (desc : String) (item : IsItem pkt) :
      Exists fun acts => Exists fun marked => RfxLoot.item lm pkt desc = some acts ∧
        Marked pkt marked ∧ marked.drop = (if IsItem pkt then !itemShown lm pkt else pkt.drop) ∧
          applyAll pool ⟨pkt, [], [], evq, none⟩ acts =
            some (pool, ⟨marked, [], [], evq, none⟩) := by
    refine ⟨_, { pkt with desc := some desc, drop := !itemShown lm pkt },
      if_pos (inside item), .edit _ _ _ _, (if_pos item).symm, ?_⟩
    simp [applyAll, FltAct.apply, FilterFrame.store, PktEdit.apply, itemShown]
  unfold RfxLoot.processPkt
  split
  · rename_i new
    exact dropped _ (.inl new)
  · rename_i notNew
    split
    · rename_i horizon
      exact dropped _ (.inr horizon)
    · rename_i notHorizon
      have other : ¬ IsItem pkt := not_or.mpr ⟨notNew, notHorizon⟩
      rw [if_neg other]
      split
      · refine ⟨_, { pkt with desc := some "loot disappear", shown := true }, rfl, .edit _ _ _ _, rfl, ?_⟩
        simp [applyAll, FltAct.apply, FilterFrame.store, PktEdit.apply]
      · exact ⟨[], pkt, rfl, .edit _ _ _ _, rfl, rfl⟩

namespace Marked

variable {pkt marked : RfPacket}

theorem isItem_iff (same : Marked pkt marked) : IsItem marked <-> IsItem pkt := by
  rw [IsItem, IsItem, same.type_eq]

theorem itemShown_eq (same : Marked pkt marked) (lm : LootState) :
    itemShown lm marked = itemShown lm pkt := by
  rw [itemShown, itemShown, same.data_eq]

end Marked

/-- What the chain does to a packet. -/
theorem processPkt_shipped (files : Files) (lm : LootState) (pool : Pool) {pkt : RfPacket}
    (inside : ReadsInside pkt) :
    Exists fun counted => Exists fun marked =>
      ChainState.processPkt ⟨shippedChain files lm, pool, .start pkt⟩ =
          some ⟨shippedChain files lm, counted, ⟨marked, [], [], (sentEvent pkt).toList, none⟩⟩ ∧
        Marked pkt marked ∧
        marked.drop = (if IsItem pkt then !itemShown lm pkt else pkt.drop) := by
  rcases chat_spec pool inside with ⟨chatActs, counted, first, chatEq, front, kept, chatApplied⟩
  have inside' : IsItem first -> 6 ≤ first.len := by
    rw [front.isItem_iff, front.len_eq]
    exact inside.item
  rcases loot_spec lm counted (sentEvent pkt).toList inside' with
    ⟨lootActs, second, lootEq, back, dropped, lootApplied⟩
  simp only [front.isItem_iff, front.itemShown_eq, kept] at dropped
  refine ⟨counted, second, ?_, front.trans back, dropped⟩
  have chatEq' : RfxChat.processPkt (FilterFrame.start pkt).pkt = some chatActs := chatEq
  simp [ChainState.processPkt, shippedChain, dispatch, rfxChat, rfxLoot, rfxDebug,
    RfxFilter.stateful, chatEq', chatApplied, lootEq, lootApplied, applyAll]

/-! ## What the filters make of the events -/

section Events

variable (files : Files) (lm : LootState) (pool : Pool)

/-- An event that no filter answers. -/
theorem quiet_event (frame : FilterFrame) {ev : RfxEvent} (noReply : ev.what ≠ rfxevSendReply)
    (noCommand : ¬ (ev.what = rfxevPrivSent ∧ ev.nick = text "loot")) :
    dispatch (fun f st frame => f.processEvent st frame ev) (shippedChain files lm) pool frame =
      some ⟨shippedChain files lm, pool, frame⟩ := by
  simp [shippedChain, dispatch, rfxChat, rfxLoot, rfxDebug, RfxFilter.stateful, applyAll,
    if_neg noReply, if_neg noCommand]

/-- A private message to `loot`: the loot filter carries out the command, asks
for a reply, and drops the message. -/
theorem command_event (pkt : RfPacket) (msg : List Byte) (cur : Option RfxEvent) :
    dispatch
        (fun f st frame =>
          f.processEvent st frame ⟨rfxevPrivSent, some pkt.ptr, text "loot", msg⟩)
        (shippedChain files lm) pool ⟨pkt, [], [], [], cur⟩ =
      some ⟨shippedChain files (RfxLoot.lootCmd files lm msg).1, pool,
        ⟨{ pkt with drop := true, shown := false }, [], [],
          [⟨rfxevSendReply, none, text "loot", (RfxLoot.lootCmd files lm msg).2⟩], cur⟩⟩ := by
  have other : rfxevPrivSent ≠ rfxevSendReply := by decide
  simp [shippedChain, dispatch, rfxChat, rfxLoot, RfxFilter.stateful, applyAll, FltAct.apply,
    FilterFrame.store, PktEdit.apply, RfxLoot.hideSource, if_neg other]

/-- The request for a reply: the chat filter appends the packet. -/
theorem reply_event (frame : FilterFrame) (nick msg : List Byte) :
    dispatch
        (fun f st frame => f.processEvent st frame ⟨rfxevSendReply, none, nick, msg⟩)
        (shippedChain files lm) pool frame =
      some ⟨shippedChain files lm, pool.alloc,
        { frame with post :=
            frame.post ++ [{ RfxChat.reply nick msg with ptr := pool.next }] }⟩ := by
  simp [shippedChain, dispatch, rfxChat, applyAll, FltAct.apply, pktNew, pqhPush, pktInit]

end Events

/-- What comes of a packet once its events have been handled. -/
inductive Handled (files : Files) (lm : LootState) (pkt : RfPacket) :
    ChainState (Option LootState) -> Prop
  | passed (pool : Pool) (marked : RfPacket) (plain : ¬ IsLootCommand pkt)
      (same : Marked pkt marked)
      (dropped : marked.drop = (if IsItem pkt then !itemShown lm pkt else pkt.drop)) :
      Handled files lm pkt ⟨shippedChain files lm, pool, .start marked⟩
  | answered (pool : Pool) (marked answer : RfPacket) (msg : List Byte)
      (command : IsLootCommand pkt)
      (parsed : RfxChat.parse (pkt.wire.drop 4) = some (some (text "loot", msg)))
      (dropped : marked.drop = true) (type_eq : answer.type = RfxChat.privmsgIn)
      (dir_eq : answer.dir = srvToCli) (due : answer.delay = 0) (wanted : answer.drop = false) :
      Handled files lm pkt
        ⟨shippedChain files (RfxLoot.lootCmd files lm msg).1, pool, ⟨marked, [], [answer], [], none⟩⟩

/-- The private message behind an event, and what the event is not. -/
theorem sentEvent_eq_some {pkt : RfPacket} {ev : RfxEvent} (sent : sentEvent pkt = some ev) :
    ev.what ≠ rfxevSendReply ∧
      (ev.what = rfxevPrivSent -> pkt.type = RfxChat.privmsgOut ∧
        ev = ⟨rfxevPrivSent, some pkt.ptr, ev.nick, ev.msg⟩ ∧
        RfxChat.parse (pkt.wire.drop 4) = some (some (ev.nick, ev.msg))) := by
  unfold sentEvent at sent
  split at sent
  · rcases Option.map_eq_some_iff.mp sent with ⟨found, _, rfl⟩
    have other : rfxevWchatSent ≠ rfxevPrivSent := by decide
    exact ⟨(by decide : rfxevWchatSent ≠ rfxevSendReply), fun priv => absurd priv other⟩
  · split at sent
    · rename_i privmsg
      rcases Option.map_eq_some_iff.mp sent with ⟨found, joined, rfl⟩
      exact ⟨(by decide : rfxevPrivSent ≠ rfxevSendReply),
        fun _ => ⟨privmsg, rfl, Option.join_eq_some_iff.mp joined⟩⟩
    · cases sent

/-- A command has an event, from the nick `loot`. -/
theorem sentEvent_of_command {pkt : RfPacket} (inside : ReadsInside pkt)
    (command : IsLootCommand pkt) :
    Exists fun ev => sentEvent pkt = some ev ∧ ev.what = rfxevPrivSent ∧ ev.nick = text "loot" := by
  rcases command with ⟨privmsg, nick⟩
  rcases Option.isSome_iff_exists.mp (inside.privmsg privmsg) with ⟨found, parsed⟩
  have named := (RfxChat.nick_of_parse parsed).trans nick
  rcases Option.map_eq_some_iff.mp named with ⟨both, rfl, loot⟩
  have other : ¬ pkt.type = RfxChat.whiteChatOut := by
    rw [privmsg]
    decide
  refine ⟨⟨rfxevPrivSent, some pkt.ptr, both.1, both.2⟩, ?_, rfl, loot⟩
  rw [sentEvent, if_neg other, if_pos privmsg, parsed]
  rfl

/-- The loop over the events ends after at most two of them. -/
theorem events_spec (files : Files) (lm : LootState) (pool : Pool) {pkt marked : RfPacket}
    (inside : ReadsInside pkt) (same : Marked pkt marked)
    (dropped : marked.drop = (if IsItem pkt then !itemShown lm pkt else pkt.drop)) :
    Exists fun handled =>
      ChainState.processEvents 2
          ⟨shippedChain files lm, pool, ⟨marked, [], [], (sentEvent pkt).toList, none⟩⟩ =
        some handled ∧ Handled files lm pkt handled := by
  cases sent : sentEvent pkt with
  | none =>
      refine ⟨⟨shippedChain files lm, pool, .start marked⟩, rfl, ?_⟩
      refine .passed pool marked (fun command => ?_) same dropped
      rcases sentEvent_of_command inside command with ⟨ev, found, _⟩
      rw [sent] at found
      cases found
  | some ev =>
      rcases sentEvent_eq_some sent with ⟨noReply, ofPrivmsg⟩
      by_cases command : ev.what = rfxevPrivSent ∧ ev.nick = text "loot"
      · rcases ofPrivmsg command.1 with ⟨privmsg, ev_eq, parsed⟩
        rw [command.2] at ev_eq parsed
        rw [← same.ptr_eq] at ev_eq
        have first := command_event files lm pool marked ev.msg (some ev)
        rw [← ev_eq] at first
        let answer := RfxLoot.lootCmd files lm ev.msg
        let asked : RfxEvent := ⟨rfxevSendReply, none, text "loot", answer.2⟩
        let hidden : RfPacket := { marked with drop := true, shown := false }
        have second := reply_event files answer.1 (deleteEvent pool ev)
          ⟨hidden, [], [], [], some asked⟩ (text "loot") answer.2
        refine ⟨_, ?_, .answered (deleteEvent pool ev).alloc hidden
          { RfxChat.reply (text "loot") answer.2 with ptr := (deleteEvent pool ev).next } ev.msg
          ⟨privmsg, (RfxChat.nick_of_parse parsed).symm⟩ parsed rfl rfl rfl rfl rfl⟩
        exact (ChainState.processEvents_cons 1 first).trans (ChainState.processEvents_cons 0 second)
      · have event := quiet_event files lm pool ⟨marked, [], [], [], some ev⟩ noReply command
        refine ⟨⟨shippedChain files lm, deleteEvent pool ev, .start marked⟩, ?_, ?_⟩
        · exact ChainState.processEvents_cons 1 event
        · refine .passed _ marked (fun found => ?_) same dropped
          rcases sentEvent_of_command inside found with ⟨other, isSent, answered⟩
          rw [sent] at isSent
          cases isSent
          exact command answered

end Rfx
