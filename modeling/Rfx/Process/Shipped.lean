import Rfx.Process.Transparency
import Rfx.Session.Forwarding
import Rfx.ShippedChain

namespace Rfx

open Library

/-!
# A process with the modules that come with the program

`main` loads the chat, the loot and the debug filter.  What they do to a packet is worked out
here for chains in which any of them may be missing, since a library can be lost: they create
packets for the client only, and what they drop are items and commands to `loot`.  So nothing but
the client's own frames goes to the server.
-/

variable {σ : Type}

/-! ## The code of the modules -/

/-- The code in `rfx_chat.so`. -/
def rfxChatClass : RfxFilterClass (Option σ) where
  filterNew := none
  process := fun _ => rfxChat
  saveState := fun _ s => s
  loadState := fun f s => (f, s, true)

/-- The code in `rfx_debug.so`. -/
def rfxDebugClass : RfxFilterClass (Option σ) where
  filterNew := none
  process := fun _ => rfxDebug
  saveState := fun _ s => s
  loadState := fun f s => (f, s, true)

/-- Code with a state of its own, beside code that has none. -/
def RfxFilterClass.stateful (cls : RfxFilterClass σ) : RfxFilterClass (Option σ) where
  filterNew := some cls.filterNew
  process := fun files => (cls.process files).stateful
  saveState := fun f s =>
    match f with
    | none => s
    | some f => cls.saveState f s
  loadState := fun f s =>
    match f with
    | none => (none, s, true)
    | some f => ((some (cls.loadState f s).1), (cls.loadState f s).2)

/-- The code of all three of them. -/
def shippedClasses : List (RfxFilterClass (Option LootState)) :=
  [rfxChatClass, rfxLootClass.stateful, rfxDebugClass]

/-- The filters that these modules create. -/
inductive ShippedFilter : RfxFilter (Option LootState) -> Prop
  | chat : ShippedFilter rfxChat
  | loot (files : Files) : ShippedFilter (rfxLoot files).stateful
  | debug : ShippedFilter rfxDebug

theorem shippedFilter_process {cls : RfxFilterClass (Option LootState)} (shipped : cls ∈ shippedClasses)
    (files : Files) : ShippedFilter (cls.process files) := by
  simp only [shippedClasses, List.mem_cons, List.not_mem_nil, or_false] at shipped
  rcases shipped with rfl | rfl | rfl
  · exact .chat
  · exact .loot files
  · exact .debug

/-! ## What they do to a packet -/

/-- What has become of a packet so far. -/
structure FilterFrame.Confined (pkt : RfPacket) (frame : FilterFrame) : Prop where
  same : Marked pkt frame.pkt
  dropped : frame.pkt.drop = true -> pkt.drop = true ∨ IsItem pkt ∨ IsLootCommand pkt
  commands : forall ev, ev ∈ frame.evq ∨ frame.cur = some ev ->
    ev.what = rfxevPrivSent -> ev.nick = text "loot" -> IsLootCommand pkt
  toClient : forall added, added ∈ frame.pre ++ frame.post -> added.dir = srvToCli

/-- What a filter may do about a packet. -/
def FltAct.Confined (pkt : RfPacket) : FltAct -> Prop
  | .push _ filled => filled.dir = srvToCli
  | .event what nick _ _ => what = rfxevPrivSent -> nick = text "loot" -> IsLootCommand pkt
  | .store _ (.drop value) => value = true -> IsItem pkt ∨ IsLootCommand pkt
  | .store _ (.shown _) => True
  | .store _ (.desc _) => True
  | .store _ _ => False

namespace FilterFrame.Confined

variable {pkt : RfPacket} {frame : FilterFrame}

theorem start (pkt : RfPacket) : (FilterFrame.start pkt).Confined pkt where
  same := ⟨rfl, rfl, rfl, rfl, rfl⟩
  dropped := fun drop => Or.inl drop
  commands := by
    rintro ev (queued | current)
    · cases queued
    · cases current
  toClient := fun added member => absurd member List.not_mem_nil

/-- A store that is allowed. -/
theorem edit {edit : PktEdit} {ptr : Nat} (may : (FltAct.store ptr edit).Confined pkt) (p : RfPacket) :
    Marked p (edit.apply p) ∧
      ((edit.apply p).drop = true -> p.drop = true ∨ IsItem pkt ∨ IsLootCommand pkt) := by
  cases edit with
  | drop value => exact ⟨.edit _ _ _ _, fun drop => Or.inr (may drop)⟩
  | shown value => exact ⟨.edit _ _ _ _, Or.inl⟩
  | desc value => exact ⟨.edit _ _ _ _, Or.inl⟩
  | delay value => exact False.elim may
  | dir value => exact False.elim may
  | type value => exact False.elim may
  | len value => exact False.elim may
  | byte index value => exact False.elim may

theorem act {pool : Pool} {next : Pool × FilterFrame} {act : FltAct} (confined : frame.Confined pkt)
    (may : act.Confined pkt) (applied : act.apply pool frame = some next) : next.2.Confined pkt := by
  have fired (ev : RfxEvent) (may : ev.what = rfxevPrivSent -> ev.nick = text "loot" -> IsLootCommand pkt) :
      ({ frame with evq := frame.evq ++ [ev] } : FilterFrame).Confined pkt := by
    refine ⟨confined.same, confined.dropped, ?_, confined.toClient⟩
    rintro other (queued | current)
    · rcases List.mem_append.mp queued with old | new
      · exact confined.commands other (Or.inl old)
      · exact List.mem_singleton.mp new ▸ may
    · exact confined.commands other (Or.inr current)
  cases act with
  | push toPost filled =>
      have new (added : RfPacket) (member : added ∈ (frame.pre ++ frame.post) ++
          [({ filled with ptr := (pktNew pool filled.len filled.type filled.dir).2.ptr } : RfPacket)]) :
          added.dir = srvToCli := by
        rcases List.mem_append.mp member with old | here
        · exact confined.toClient added old
        · exact List.mem_singleton.mp here ▸ may
      cases applied
      cases toPost with
      | false =>
          refine ⟨confined.same, confined.dropped, confined.commands, fun added member => new added ?_⟩
          simp only [Bool.false_eq_true, if_false, pqhPush, List.mem_append] at member ⊢
          tauto
      | true =>
          refine ⟨confined.same, confined.dropped, confined.commands, fun added member => new added ?_⟩
          simp only [if_true, pqhPush, List.mem_append] at member ⊢
          tauto
  | event what nick msg source =>
      cases source with
      | none =>
          cases applied
          exact fired _ may
      | some ptr =>
          simp only [FltAct.apply] at applied
          split at applied
          · cases applied
            exact fired _ may
          · cases applied
  | store ptr change =>
      cases applied
      have stored (p : RfPacket) : Marked p (if p.ptr = ptr then change.apply p else p) ∧
          ((if p.ptr = ptr then change.apply p else p).drop = true ->
            p.drop = true ∨ IsItem pkt ∨ IsLootCommand pkt) := by
        split
        · exact edit may p
        · exact ⟨⟨rfl, rfl, rfl, rfl, rfl⟩, Or.inl⟩
      refine ⟨confined.same.trans (stored frame.pkt).1, fun drop => ?_, confined.commands, ?_⟩
      · rcases (stored frame.pkt).2 drop with before | may
        · exact confined.dropped before
        · exact Or.inr may
      · intro added member
        have there : added ∈ (frame.pre ++ frame.post).map
            fun p => if p.ptr = ptr then change.apply p else p := List.map_append ▸ member
        rcases List.mem_map.mp there with ⟨p, old, rfl⟩
        exact (stored p).1.dir_eq.trans (confined.toClient p old)

/-- What is left of an item or a command goes no further, and everything else does. -/
theorem forwards {leave : List Byte -> Prop}
    (leaves : forall dir, Announced dir pkt -> IsItem pkt ∨ IsLootCommand pkt -> leave pkt.wire)
    (confined : frame.Confined pkt) : frame.Forwards leave pkt where
  toClient := confined.toClient
  wire_eq := by
    rw [RfPacket.wire, confined.same.data_eq, confined.same.len_eq]
    rfl
  dropped := by
    intro drop dir announced
    rcases confined.dropped drop with before | may
    · rw [announced.drop_eq] at before
      cases before
    · exact leaves dir announced may

end FilterFrame.Confined

/-- The chat filter fires an event from the nick `loot` for a command only. -/
theorem chat_confined {pkt : RfPacket} {acts : List FltAct} (processed : RfxChat.processPkt pkt = some acts) :
    forall act, act ∈ acts -> act.Confined pkt := by
  have sent {desc : String} {code start : Nat} {acts : List FltAct}
      (processed : RfxChat.sent pkt desc code start = some acts)
      (command : code = rfxevPrivSent -> start = 4 ∧ pkt.type = RfxChat.privmsgOut) :
      forall act, act ∈ acts -> act.Confined pkt := by
    rcases Option.map_eq_some_iff.mp processed with ⟨found, parsed, rfl⟩
    intro act member
    cases found with
    | none =>
        simp only [List.mem_cons, List.not_mem_nil, or_false] at member
        rcases member with rfl | rfl | rfl <;> trivial
    | some both =>
        simp only [List.mem_cons, List.not_mem_nil, or_false] at member
        rcases member with rfl | rfl | rfl
        · trivial
        · intro priv nick
          rcases command priv with ⟨rfl, type⟩
          refine ⟨type, ?_⟩
          rw [← RfxChat.nick_of_parse parsed, ← nick]
          rfl
        · trivial
  unfold RfxChat.processPkt at processed
  split at processed
  · exact sent processed fun priv => absurd priv (by decide)
  · split at processed
    · rename_i privmsg
      exact sent processed fun _ => ⟨rfl, privmsg⟩
    · split at processed
      · cases processed
        intro act member
        rw [List.mem_singleton.mp member]
        trivial
      · cases processed
        exact fun act member => absurd member List.not_mem_nil

/-- The loot filter drops items only. -/
theorem loot_confined {lm : LootState} {pkt : RfPacket} {acts : List FltAct}
    (processed : RfxLoot.processPkt lm pkt = some acts) : forall act, act ∈ acts -> act.Confined pkt := by
  have item {desc : String} {acts : List FltAct} (processed : RfxLoot.item lm pkt desc = some acts)
      (isItem : IsItem pkt) : forall act, act ∈ acts -> act.Confined pkt := by
    unfold RfxLoot.item at processed
    split at processed
    · cases processed
      intro act member
      simp only [List.mem_cons, List.not_mem_nil, or_false] at member
      rcases member with rfl | rfl
      · trivial
      · exact fun _ => Or.inl isItem
    · cases processed
  unfold RfxLoot.processPkt at processed
  split at processed
  · rename_i new
    exact item processed (Or.inl new)
  · split at processed
    · rename_i horizon
      exact item processed (Or.inr horizon)
    · split at processed
      · cases processed
        intro act member
        simp only [List.mem_cons, List.not_mem_nil, or_false] at member
        rcases member with rfl | rfl <;> trivial
      · cases processed
        exact fun act member => absurd member List.not_mem_nil

/-- A filter is called for a packet that may have been marked before. -/
theorem FltAct.Confined.of_marked {pkt marked : RfPacket} {act : FltAct} (same : Marked pkt marked)
    (confined : act.Confined marked) : act.Confined pkt := by
  have wire : marked.wire = pkt.wire := by
    rw [RfPacket.wire, same.data_eq, same.len_eq]
    rfl
  have command : IsLootCommand marked -> IsLootCommand pkt := by
    rw [IsLootCommand, IsLootCommand, same.type_eq, wire]
    exact id
  cases act with
  | push toPost filled => exact confined
  | event what nick msg source => exact fun priv loot => command (confined priv loot)
  | store ptr edit =>
      cases edit with
      | drop value => exact fun drop => (confined drop).imp same.isItem_iff.mp command
      | _ => exact confined

namespace ShippedFilter

variable {f : RfxFilter (Option LootState)} {pkt : RfPacket} {frame : FilterFrame}
  {state : Option LootState} {called : FltCall (Option LootState)}

theorem onPkt (shipped : ShippedFilter f) (confined : frame.Confined pkt)
    (calledEq : f.processPkt state frame = some called) :
    forall act, act ∈ called.acts -> act.Confined pkt := by
  cases shipped with
  | chat =>
      rcases Option.map_eq_some_iff.mp calledEq with ⟨acts, processed, rfl⟩
      exact fun act member => (chat_confined processed act member).of_marked confined.same
  | loot files =>
      rcases Option.bind_eq_some_iff.mp calledEq with ⟨lm, _, calledEq⟩
      rcases Option.map_eq_some_iff.mp calledEq with ⟨inner, innerEq, rfl⟩
      rcases Option.map_eq_some_iff.mp innerEq with ⟨acts, processed, rfl⟩
      exact fun act member => (loot_confined processed act member).of_marked confined.same
  | debug =>
      cases calledEq
      exact fun act member => absurd member List.not_mem_nil

theorem onEvent (shipped : ShippedFilter f) (confined : frame.Confined pkt) {ev : RfxEvent}
    (current : frame.cur = some ev) (calledEq : f.processEvent state frame ev = some called) :
    forall act, act ∈ called.acts -> act.Confined pkt := by
  cases shipped with
  | chat =>
      simp only [rfxChat] at calledEq
      split at calledEq
      · cases calledEq
        intro act member
        rw [List.mem_singleton.mp member]
        rfl
      · cases calledEq
        exact fun act member => absurd member List.not_mem_nil
  | loot files =>
      rcases Option.bind_eq_some_iff.mp calledEq with ⟨lm, _, calledEq⟩
      rcases Option.map_eq_some_iff.mp calledEq with ⟨inner, innerEq, rfl⟩
      simp only [rfxLoot] at innerEq
      split at innerEq
      · rename_i asked
        have command := confined.commands ev (Or.inr current) asked.1 asked.2
        cases innerEq
        intro act member
        rcases List.mem_cons.mp member with rfl | hides
        · exact fun priv => absurd priv (by decide)
        · unfold RfxLoot.hideSource at hides
          split at hides
          · cases hides
          · simp only [List.mem_cons, List.not_mem_nil, or_false] at hides
            rcases hides with rfl | rfl
            · exact fun _ => Or.inr command
            · trivial
      · cases innerEq
        exact fun act member => absurd member List.not_mem_nil
  | debug =>
      cases calledEq
      exact fun act member => absurd member List.not_mem_nil

end ShippedFilter

/-! ## The frames that the server does not get -/

/-- The frames of items and of commands to `loot`. -/
def LeftOut (frame : List Byte) : Prop :=
  getInt16 (frame.drop 2) = RfxLoot.lootDropNew ∨ getInt16 (frame.drop 2) = RfxLoot.lootDropHorizon ∨
    getInt16 (frame.drop 2) = RfxChat.privmsgOut ∧
      (RfxChat.afterBrackets (frame.drop 4)).map RfxChat.nickText = some (text "loot")

theorem leftOut_of_announced {dir : Dir} {pkt : RfPacket} (announced : Announced dir pkt)
    (may : IsItem pkt ∨ IsLootCommand pkt) : LeftOut pkt.wire := by
  have type : getInt16 (pkt.wire.drop 2) = pkt.type := by rw [announced.wire_eq, announced.type_eq]
  rw [LeftOut, type]
  rcases may with (new | horizon) | command
  · exact Or.inl new
  · exact Or.inr (Or.inl horizon)
  · exact Or.inr (Or.inr command)

/-- Any chain of filters of these modules. -/
theorem forwards_shipped :
    RfxFilterChain.Forwards LeftOut fun chain => forall f, some f ∈ chain.filters -> ShippedFilter f where
  handled := by
    intro chain pool pkt fuel processed handled shipped processedEq handledEq
    rcases chain_frame_rule (FltAct.Confined pkt) (fun _ frame => frame.Confined pkt)
      (fun pool frame act next confined may applied => confined.act may applied)
      (fun pool frame ev later confined queued _ => ⟨confined.same, confined.dropped, by
          rintro other (waiting | current)
          · exact confined.commands other (Or.inl (queued ▸ List.mem_cons_of_mem _ waiting))
          · cases current
            exact confined.commands ev (Or.inl (queued ▸ List.mem_cons_self)), confined.toClient⟩)
      (fun pool frame ev confined _ => ⟨confined.same, confined.dropped,
          fun other waiting => confined.commands other (waiting.imp_right nofun), confined.toClient⟩)
      (fun f member pool state frame called confined calledEq =>
        (shipped f member).onPkt confined calledEq)
      (fun f member pool state frame ev called confined current calledEq =>
        (shipped f member).onEvent confined current calledEq)
      (.start pkt) processedEq handledEq with ⟨confined, _, _, filters⟩
    exact ⟨fun f member => shipped f (filters ▸ member),
      confined.forwards fun dir announced => leftOut_of_announced announced⟩

/-- The server gets nothing but the client's own frames.  In every state of a process with any of
the modules that come with the program, and for every session, whatever the other sessions do,
whatever commands there are, and however the modules are reloaded, found missing or found again:
what was written to the server is the start of the frames that the client has sent, in order and
unchanged, without some of the frames that have the type of an item or are private messages to
`loot`; and an output that was shut down in good order was shut down after the end of the
client's stream, with all other frames written. -/
theorem server_gets_client_frames (base : List Nat) (plugins : List (Plugin (Option LootState)))
    (shipped : forall p, p ∈ plugins -> p.cls ∈ shippedClasses) (s : Process (Option LootState))
    (reached : Process.Reachable base plugins s) (c : Client (Option LootState))
    (member : c ∈ s.clients) : c.session.c2s.DeliversBut LeftOut := by
  have kept (s next : Process (Option LootState))
      (now : s.plugins.map Plugin.cls = plugins.map Plugin.cls ∧
        forall c, c ∈ s.clients -> c.session.Forwarding LeftOut)
      (move : Process.Move s next) : next.plugins.map Plugin.cls = plugins.map Plugin.cls ∧
        forall c, c ∈ next.clients -> c.session.Forwarding LeftOut := by
    refine ⟨(Process.classes_move move).trans now.1, ?_⟩
    apply Process.clients_move _ (RfSession.Forwarding LeftOut) ?_ ?_ ?_ ?_ now.2 move
    · exact fun chain => forall f, some f ∈ chain.filters -> ShippedFilter f
    · intro s pool flt forwarding
      exact ⟨forwarding.sound.with_pool_flt pool flt, forwarding.toClient, forwarding.relays⟩
    · exact fun pool => .start pool []
    · exact fun s callback next forwarding chain taken live => forwarding.step forwards_shipped chain taken live
    · intro files ch flt filtered
      refine Process.filters_rule (fun cls member files => ?_) filtered
      rw [now.1] at member
      rcases List.mem_map.mp member with ⟨p, there, rfl⟩
      exact shippedFilter_process (shipped p there) files
  have first : (Process.start base plugins).plugins.map Plugin.cls = plugins.map Plugin.cls ∧
      forall c, c ∈ (Process.start base plugins).clients -> c.session.Forwarding LeftOut :=
    ⟨rfl, fun _ member => absurd member List.not_mem_nil⟩
  exact ((Process.reachable_rule _ kept first reached).2 c member).relays.delivers

/-- A session in which the client asks `loot` for its state, and then sends a frame. -/
def askLoot : List LoopEvent :=
  [.connect [.connected 4 5],
    .client 0 (fun _ => none) (.cli (some
      { reads := [.received ([15, 0, 2, 3] ++ text "loot: info" ++ [0] ++ [4, 0, 1, 0]), .failed .eagain]
        fuel := 2
        own := [.accepted 4]
        other := [.failed .eagain] }) none)]

/-- The server gets the second frame only. -/
theorem server_gets_client_frames_second :
    Exists fun s => Exists fun c =>
      Process.Reachable [3] (shippedClasses.map fun cls => .load cls "1" none 0
        { object := some ⟨some "1", some 8⟩, mtime := some 0 }) s ∧
      s.clients[0]? = some c ∧ c.session.c2s.written = [4, 0, 1, 0] ∧
      c.session.c2s.DeliversBut LeftOut := by
  have shipped : forall p, p ∈ (shippedClasses.map fun cls => Plugin.load cls "1" none 0
      { object := some ⟨some "1", some 8⟩, mtime := some 0 }) -> p.cls ∈ shippedClasses := by
    intro p member
    rcases List.mem_map.mp member with ⟨cls, there, rfl⟩
    exact there
  have reached : Exists fun s => Exists fun c =>
      Process.Reachable [3] (shippedClasses.map fun cls => .load cls "1" none 0
        { object := some ⟨some "1", some 8⟩, mtime := some 0 }) s ∧
      s.clients[0]? = some c ∧ c.session.c2s.written = [4, 0, 1, 0] :=
    ⟨_, _, ⟨askLoot, rfl⟩, rfl, rfl⟩
  rcases reached with ⟨s, c, reached, found, written⟩
  exact ⟨s, c, reached, found, written,
    server_gets_client_frames [3] _ shipped s reached c (List.mem_of_getElem? found)⟩

end Rfx
