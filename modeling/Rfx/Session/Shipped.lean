import Rfx.Session.Callbacks
import Rfx.ShippedChain

namespace Rfx

open Library

/-!
# Sessions with the filters that come with the program

What the chain makes of a packet, taken to the queues of a session.  A turn of
the loop of `filter` appends the packet to the send queue of its pipe, or drops
it, or drops it and appends a reply; the loot state that a turn leaves behind is
the one that the next turn finds.  The drop lists are read from files that may
have changed between two turns.
-/

namespace RfSession

variable {σ : Type} {s next : RfSession σ}

/-- What was appended to the two send queues and to the delayed queue. -/
structure Adds (s next : RfSession σ) (toCli toSrv delayed : List RfPacket) : Prop where
  toCli_eq : next.s2c.sndq.pq = s.s2c.sndq.pq ++ toCli
  toSrv_eq : next.c2s.sndq.pq = s.c2s.sndq.pq ++ toSrv
  delayed_eq : next.dq.pkts = s.dq.pkts ++ delayed

namespace Adds

variable {middle last : RfSession σ} {toCli toSrv delayed toCli' toSrv' delayed' : List RfPacket}

theorem trans (first : s.Adds middle toCli toSrv delayed)
    (second : middle.Adds last toCli' toSrv' delayed') :
    s.Adds last (toCli ++ toCli') (toSrv ++ toSrv') (delayed ++ delayed') where
  toCli_eq := by rw [second.toCli_eq, first.toCli_eq, List.append_assoc]
  toSrv_eq := by rw [second.toSrv_eq, first.toSrv_eq, List.append_assoc]
  delayed_eq := by rw [second.delayed_eq, first.delayed_eq, List.append_assoc]

/-- A session with the same queues. -/
theorem nothing (toCli : next.s2c.sndq.pq = s.s2c.sndq.pq)
    (toSrv : next.c2s.sndq.pq = s.c2s.sndq.pq) (delayed : next.dq = s.dq) :
    s.Adds next [] [] [] where
  toCli_eq := by rw [toCli, List.append_nil]
  toSrv_eq := by rw [toSrv, List.append_nil]
  delayed_eq := by rw [delayed, List.append_nil]

end Adds

theorem Injects.adds {toCli toSrv released delayed : List RfPacket}
    (injects : s.Injects next toCli toSrv released delayed) : s.Adds next toCli toSrv delayed where
  toCli_eq := injects.toCli.pq_eq
  toSrv_eq := injects.toSrv.pq_eq
  delayed_eq := by
    rw [injects.rest]
    exact DelayedQueue.pkts_append _ _

theorem Injected.flt_eq {pqh : List RfPacket} (injected : s.Injected pqh next) :
    next.flt = s.flt := by
  rcases injected with ⟨_, _, _, _, _, injects⟩
  rw [injects.rest]

theorem Injected.adds_nothing (injected : s.Injected [] next) : s.Adds next [] [] [] := by
  rcases injected with ⟨toCli, toSrv, released, delayed, routes, injects⟩
  have empty := routes.perm.nil_eq
  simp only [List.nil_eq, List.append_eq_nil_iff] at empty
  rcases empty with ⟨⟨⟨rfl, rfl⟩, rfl⟩, rfl⟩
  exact injects.adds

/-- A reply to the client that is due goes to the client's send queue, or to the
delayed queue when the window is full. -/
theorem Injected.adds_reply {pkt : RfPacket} (injected : s.Injected [pkt] next)
    (dir_eq : pkt.dir = srvToCli) (wanted : pkt.drop = false) :
    s.Adds next [pkt] [] [] ∨ s.Adds next [] [] [pkt] := by
  rcases injected with ⟨toCli, toSrv, released, delayed, routes, injects⟩
  have only {other : RfPacket} (member : other ∈ toCli ++ toSrv ++ released ++ delayed) :
      other = pkt := List.mem_singleton.mp (routes.perm.mem_iff.mpr member)
  have noSrv : toSrv = [] := by
    apply List.eq_nil_iff_forall_not_mem.mpr
    intro other member
    have towards := (routes.of_toSrv other member).1.2
    have same : other = pkt := only (by simp [member])
    rw [same, dir_eq] at towards
    exact absurd towards (by decide)
  have noneReleased : released = [] := by
    apply List.eq_nil_iff_forall_not_mem.mpr
    intro other member
    have dropped := (routes.of_released other member).2
    have same : other = pkt := only (by simp [member])
    rw [same, wanted] at dropped
    cases dropped
  subst noSrv noneReleased
  have single : toCli ++ delayed = [pkt] := by
    simpa only [List.append_nil] using List.perm_singleton.mp routes.perm.symm
  rcases List.append_eq_singleton_iff.mp single with ⟨rfl, rfl⟩ | ⟨rfl, rfl⟩
  · exact Or.inr injects.adds
  · exact Or.inl injects.adds

/-- What a packet that is not dropped adds to the queue of its pipe. -/
theorem adds_dispose (s : RfSession σ) (dir : Dir) {pkt : RfPacket} (wanted : pkt.drop = false) :
    s.Adds (s.dispose dir pkt) (if dir = srvToCli then [pkt] else [])
      (if dir = srvToCli then [] else [pkt]) [] := by
  have kept : ¬ pkt.drop = true := by simp [wanted]
  rw [dispose, if_neg kept, setPipe]
  by_cases toCli : dir = srvToCli
  · simp only [if_pos toCli, pipe]
    exact ⟨rfl, (List.append_nil _).symm, (List.append_nil _).symm⟩
  · simp only [if_neg toCli, pipe]
    exact ⟨(List.append_nil _).symm, rfl, (List.append_nil _).symm⟩

theorem adds_dispose_dropped (s : RfSession σ) (dir : Dir) {pkt : RfPacket}
    (dropped : pkt.drop = true) : s.Adds (s.dispose dir pkt) [] [] [] := by
  rw [dispose, if_pos dropped]
  exact .nothing rfl rfl rfl

/-! ## What becomes of a packet -/

/-- The packet and nothing else was appended, to the queue of its pipe, with
the length, type and data that it had. -/
def Forwarded (s next : RfSession σ) (dir : Dir) (pkt : RfPacket) : Prop :=
  Exists fun sent : RfPacket => sent.len = pkt.len ∧ sent.type = pkt.type ∧ sent.data = pkt.data ∧
    s.Adds next (if dir = srvToCli then [sent] else []) (if dir = srvToCli then [] else [sent]) []

/-- A message to the client and nothing else was appended, to the queue of its
pipe or to the delayed queue. -/
def Answered (s next : RfSession σ) : Prop :=
  Exists fun answer : RfPacket => answer.type = RfxChat.privmsgIn ∧ answer.dir = srvToCli ∧
    (s.Adds next [answer] [] [] ∨ s.Adds next [] [] [answer])

/-- A packet that was forwarded was appended, and then something was. -/
theorem Forwarded.not_adds_nothing {dir : Dir} {pkt : RfPacket}
    (forwarded : s.Forwarded next dir pkt) : ¬ s.Adds next [] [] [] := by
  intro nothing
  rcases forwarded with ⟨sent, _, _, _, adds⟩
  have cli := nothing.toCli_eq.symm.trans adds.toCli_eq
  have srv := nothing.toSrv_eq.symm.trans adds.toSrv_eq
  by_cases toCli : dir = srvToCli
  · rw [if_pos toCli] at cli
    simp at cli
  · rw [if_neg toCli] at srv
    simp at srv

/-- What a session with the shipped filters makes of one packet, given the loot
state before and after it. -/
structure Outcome (files : Files) (dir : Dir) (pkt : RfPacket) (lm lm' : LootState)
    (s next : RfSession (Option LootState)) : Prop where
  loaded : next.flt = shippedChain files lm'
  command : IsLootCommand pkt -> s.Answered next ∧
    Exists fun msg => RfxChat.parse (pkt.wire.drop 4) = some (some (text "loot", msg)) ∧
      lm' = (RfxLoot.lootCmd files lm msg).1
  keeps : ¬ IsLootCommand pkt -> lm' = lm
  item : IsItem pkt -> (s.Forwarded next dir pkt <-> itemShown lm pkt = true)
  hidden : IsItem pkt -> itemShown lm pkt = false -> s.Adds next [] [] []
  other : ¬ IsLootCommand pkt -> ¬ IsItem pkt -> s.Forwarded next dir pkt

theorem not_isItem_of_command {pkt : RfPacket} (command : IsLootCommand pkt) : ¬ IsItem pkt := by
  have type_eq := command.1
  rintro (new | horizon)
  · rw [new] at type_eq
    exact absurd type_eq (by decide)
  · rw [horizon] at type_eq
    exact absurd type_eq (by decide)

/-- From what the chain leaves behind to the queues. -/
theorem route_shipped {s : RfSession (Option LootState)} (formed : s.Formed) {files : Files}
    {lm : LootState} (dir : Dir) {pkt : RfPacket} (wanted : pkt.drop = false)
    {handled : ChainState (Option LootState)} (outcome : Handled files lm pkt handled)
    (loaded : s.flt = handled.flt) :
    (s.route dir handled.frame).Formed ∧
      Exists fun lm' => Outcome files dir pkt lm lm' s (s.route dir handled.frame) := by
  rcases route_spec formed dir handled.frame with ⟨middle, before, after⟩
  have formed' := after.formed ((before.formed formed).dispose dir handled.frame.pkt)
  have flt_eq : (s.route dir handled.frame).flt = handled.flt := by
    rw [after.flt_eq, (dispose_rest _ _ _).1, before.flt_eq, loaded]
  refine ⟨formed', ?_⟩
  cases outcome with
  | passed pool marked plain same dropped =>
      have front := before.adds_nothing
      have back := after.adds_nothing
      cases drop : marked.drop with
      | true =>
          have nothing := (front.trans (middle.adds_dispose_dropped dir drop)).trans back
          rw [drop] at dropped
          have item : IsItem pkt := by
            by_contra other
            rw [if_neg other, wanted] at dropped
            cases dropped
          rw [if_pos item] at dropped
          have shown : itemShown lm pkt = false := by simpa using dropped.symm
          refine ⟨lm, flt_eq, fun command => absurd command plain, fun _ => rfl, fun _ => ?_,
            fun _ _ => nothing, fun _ other => absurd item other⟩
          rw [shown]
          exact ⟨fun forwarded => absurd nothing forwarded.not_adds_nothing, fun no => by cases no⟩
      | false =>
          have sent := (front.trans (middle.adds_dispose dir drop)).trans back
          simp only [List.nil_append, List.append_nil] at sent
          have forwarded : s.Forwarded (s.route dir (.start marked)) dir pkt :=
            ⟨marked, same.len_eq, same.type_eq, same.data_eq, sent⟩
          have shown (item : IsItem pkt) : itemShown lm pkt = true := by
            rw [drop, if_pos item] at dropped
            simpa using dropped.symm
          refine ⟨lm, flt_eq, fun command => absurd command plain, fun _ => rfl,
            fun item => ⟨fun _ => shown item, fun _ => forwarded⟩, fun item no => ?_,
            fun _ _ => forwarded⟩
          rw [shown item] at no
          cases no
  | answered pool marked answer msg command parsed dropped type_eq dir_eq due answerWanted =>
      have front := before.adds_nothing.trans (middle.adds_dispose_dropped dir dropped)
      have notItem := not_isItem_of_command command
      refine ⟨_, flt_eq, fun _ => ⟨⟨answer, type_eq, dir_eq, ?_⟩, msg, parsed, rfl⟩,
        fun plain => absurd command plain, fun item => absurd item notItem,
        fun item => absurd item notItem, fun plain => absurd command plain⟩
      exact (after.adds_reply dir_eq answerWanted).imp front.trans front.trans

/-- Only the three queues of the first session matter. -/
theorem Outcome.congr {files : Files} {dir : Dir} {pkt : RfPacket} {lm lm' : LootState}
    {s same next : RfSession (Option LootState)}
    (outcome : Outcome files dir pkt lm lm' same next) (toCli : same.s2c.sndq = s.s2c.sndq)
    (toSrv : same.c2s.sndq = s.c2s.sndq) (delayed : same.dq = s.dq) :
    Outcome files dir pkt lm lm' s next := by
  have adds : same.Adds next = s.Adds next := by
    funext toCli' toSrv' delayed'
    apply propext
    constructor
    · intro adds
      exact ⟨toCli ▸ adds.toCli_eq, toSrv ▸ adds.toSrv_eq, delayed ▸ adds.delayed_eq⟩
    · intro adds
      exact ⟨toCli ▸ adds.toCli_eq, toSrv ▸ adds.toSrv_eq, delayed ▸ adds.delayed_eq⟩
  rcases outcome with ⟨loaded, command, keeps, item, hidden, other⟩
  simp only [Answered, Forwarded, adds] at command item hidden other
  exact ⟨loaded, command, keeps, item, hidden, other⟩

/-! ## Turns of the loop -/

/-- The files as they are now. -/
def withFiles (files : Files) (s : RfSession (Option LootState)) : RfSession (Option LootState) :=
  { s with flt := s.flt.map fun i =>
      match i.state with
      | none => i
      | some lm => ⟨some (rfxLoot files).stateful, some lm⟩ }

/-- A packet that was taken from in front of the others. -/
structure Turn where
  files : Files
  dir : Dir
  pkt : RfPacket
  rest : List RfPacket

/-- A turn of the loop of `filter`, with two events at most. -/
def turn (s : RfSession (Option LootState)) (t : Turn) : Option (RfSession (Option LootState)) :=
  ((s.withFiles t.files).popIn t.dir t.rest).filterPkt t.dir 2 t.pkt

/-- `popIn` only touches a receive queue. -/
theorem popIn_rest (s : RfSession σ) (dir : Dir) (rest : List RfPacket) :
    (s.popIn dir rest).s2c.sndq = s.s2c.sndq ∧ (s.popIn dir rest).c2s.sndq = s.c2s.sndq ∧
      (s.popIn dir rest).dq = s.dq ∧ (s.popIn dir rest).flt = s.flt := by
  unfold popIn setPipe pipe
  split
  · exact ⟨rfl, rfl, rfl, rfl⟩
  · exact ⟨rfl, rfl, rfl, rfl⟩

/-- What a packet must be for a turn: as long as the filters need it, and not
marked to be dropped, as no packet is that `pkt_new` returns. -/
structure Legible (pkt : RfPacket) : Prop where
  inside : ReadsInside pkt
  wanted : pkt.drop = false

theorem turn_spec {s : RfSession (Option LootState)} (formed : s.Formed) {files : Files}
    {lm : LootState} (loaded : s.flt = shippedChain files lm) {t : Turn} (legible : Legible t.pkt) :
    Exists fun next => Exists fun lm' => s.turn t = some next ∧ next.Formed ∧
      Outcome t.files t.dir t.pkt lm lm' s next := by
  rcases popIn_rest (s.withFiles t.files) t.dir t.rest with ⟨toCli, toSrv, delayed, flt⟩
  have chain : ((s.withFiles t.files).popIn t.dir t.rest).flt = shippedChain t.files lm := by
    rw [flt, withFiles, loaded]
    rfl
  rcases processPkt_shipped t.files lm ((s.withFiles t.files).popIn t.dir t.rest).pool
    legible.inside with ⟨counted, marked, processedEq, same, dropped⟩
  rcases events_spec t.files lm counted legible.inside same dropped with
    ⟨handled, handledEq, outcome⟩
  let sent : RfSession (Option LootState) :=
    { (s.withFiles t.files).popIn t.dir t.rest with flt := handled.flt, pool := handled.pool }
  have formed' : sent.Formed :=
    ⟨toCli ▸ formed.toCli, toSrv ▸ formed.toSrv, toCli ▸ formed.toCli_dir,
      toSrv ▸ formed.toSrv_dir⟩
  rcases route_shipped formed' t.dir legible.wanted outcome rfl with ⟨after, lm', routed⟩
  refine ⟨sent.route t.dir handled.frame, lm', ?_, after, routed.congr toCli toSrv delayed⟩
  rw [turn, filterPkt, chain, processedEq, Option.bind_some, handledEq]
  rfl

/-- A run of turns keeps the chain, whatever files it finds. -/
theorem turns_spec {s : RfSession (Option LootState)} (formed : s.Formed) {files : Files}
    {lm : LootState} (loaded : s.flt = shippedChain files lm) {turns : List Turn}
    (legible : forall t, t ∈ turns -> Legible t.pkt) :
    Exists fun last => Exists fun files' => Exists fun lm' =>
      Run.run turn s turns = some last ∧ last.Formed ∧ last.flt = shippedChain files' lm' := by
  induction turns generalizing s files lm with
  | nil => exact ⟨s, files, lm, rfl, formed, loaded⟩
  | cons t turns inductionHypothesis =>
      rcases turn_spec formed loaded (legible t List.mem_cons_self) with
        ⟨next, lm', turned, formed', outcome⟩
      rcases inductionHypothesis formed' outcome.loaded
        (fun t member => legible t (List.mem_cons_of_mem _ member)) with
        ⟨last, files', lm'', ran, formed'', loaded'⟩
      exact ⟨last, files', lm'', Run.run_cons_eq_some.mpr ⟨next, turned, ran⟩, formed'', loaded'⟩

/-- The turns in which `filter` takes packets from a receive queue. -/
def turnsOf (files : Files) (dir : Dir) : List RfPacket -> List Turn
  | [] => []
  | pkt :: rest => ⟨files, dir, pkt, rest⟩ :: turnsOf files dir rest

theorem withFiles_of_loaded {s : RfSession (Option LootState)} {files : Files} {lm : LootState}
    (loaded : s.flt = shippedChain files lm) : s.withFiles files = s := by
  have same : (s.withFiles files).flt = s.flt := by
    rw [withFiles, loaded]
    rfl
  exact congrArg (fun flt => { s with flt := flt }) same

/-- `filter` on packets that the filters can read is a run of turns. -/
theorem filter_eq_run {s : RfSession (Option LootState)} (formed : s.Formed) {files : Files}
    {lm : LootState} (loaded : s.flt = shippedChain files lm) {dir : Dir}
    (legible : forall pkt, pkt ∈ (s.pipe dir).rcvq.pq -> Legible pkt) :
    s.filter dir 2 = Run.run turn s (turnsOf files dir (s.pipe dir).rcvq.pq) := by
  have loop : forall (pkts : List RfPacket) (s : RfSession (Option LootState)) (lm : LootState),
      s.Formed -> s.flt = shippedChain files lm -> (forall pkt, pkt ∈ pkts -> Legible pkt) ->
        filterLoop dir 2 pkts s = Run.run turn s (turnsOf files dir pkts) := by
    intro pkts
    induction pkts with
    | nil => exact fun _ _ _ _ _ => rfl
    | cons pkt rest inductionHypothesis =>
        intro s lm formed loaded legible
        have first : s.turn ⟨files, dir, pkt, rest⟩ = (s.popIn dir rest).filterPkt dir 2 pkt := by
          rw [turn, withFiles_of_loaded loaded]
        rcases turn_spec formed loaded (t := ⟨files, dir, pkt, rest⟩)
          (legible pkt List.mem_cons_self) with ⟨next, lm', turned, formed', outcome⟩
        rw [filterLoop, turnsOf, Run.run, ← first, turned]
        exact inductionHypothesis next lm' formed' outcome.loaded
          (fun pkt member => legible pkt (List.mem_cons_of_mem _ member))
  exact loop _ s lm formed loaded legible

end RfSession

/-- What the shipped filters do to a session.  For every sequence of packets in
either direction that the filters can read, on every state of the queues and of
the loot masks, each packet is handled with at most two events.  A private
message to `loot` is not forwarded: exactly one message to the client is queued
instead, and the masks are what the command makes of those that the packets
before it left.  An item is forwarded if and only if the bit of its id is set,
and otherwise nothing is queued.  Every other packet is forwarded.  What is
forwarded keeps its length, type and data, and nothing else is queued; the
masks do not change in any other case. -/
theorem shipped_filters_on_session {s : RfSession (Option LootState)} (formed : s.Formed)
    {files : Files} {lm : LootState} (loaded : s.flt = shippedChain files lm)
    (before : List RfSession.Turn) (t : RfSession.Turn)
    (legible : forall t', t' ∈ before ++ [t] -> RfSession.Legible t'.pkt) :
    Exists fun middle => Exists fun next => Exists fun files' => Exists fun lm' =>
      Exists fun lm'' =>
        Run.run RfSession.turn s before = some middle ∧ middle.flt = shippedChain files' lm' ∧
        middle.turn t = some next ∧ next.flt = shippedChain t.files lm'' ∧
        (IsLootCommand t.pkt ->
          middle.Answered next ∧
          Exists fun msg => RfxChat.parse (t.pkt.wire.drop 4) = some (some (text "loot", msg)) ∧
            lm'' = (RfxLoot.lootCmd t.files lm' msg).1) ∧
        (¬ IsLootCommand t.pkt -> lm'' = lm') ∧
        (IsItem t.pkt -> (middle.Forwarded next t.dir t.pkt <-> itemShown lm' t.pkt = true)) ∧
        (IsItem t.pkt -> itemShown lm' t.pkt = false -> middle.Adds next [] [] []) ∧
        (¬ IsLootCommand t.pkt -> ¬ IsItem t.pkt -> middle.Forwarded next t.dir t.pkt) := by
  rcases RfSession.turns_spec formed loaded
    (fun t' member => legible t' (List.mem_append_left _ member)) with
    ⟨middle, files', lm', ran, formed', loaded'⟩
  rcases RfSession.turn_spec formed' loaded'
    (legible t (List.mem_append_right _ List.mem_cons_self)) with
    ⟨next, lm'', turned, _, outcome⟩
  exact ⟨middle, next, files', lm', lm'', ran, loaded', turned, outcome.loaded, outcome.command,
    outcome.keeps, outcome.item, outcome.hidden, outcome.other⟩

/-- The private message `info` to `loot`. -/
def lootInfo : RfPacket :=
  { pktInit 0 15 0x0302 cliToSrv with
    data := headerBytes 15 0x0302 ++ text "loot: info" ++ [0]
    fits := by decide }

/-- The message as the first packet of a session. -/
theorem shipped_filters_on_session_info :
    Exists fun middle => Exists fun next =>
      Run.run RfSession.turn
        (.start RefCount.Heap.empty (shippedChain (fun _ => none) .new)) [] = some middle ∧
        middle.turn ⟨fun _ => none, cliToSrv, lootInfo, []⟩ = some next ∧ middle.Answered next := by
  have formed : (RfSession.start RefCount.Heap.empty
      (shippedChain (fun _ => none) .new)).Formed :=
    ⟨Sendq.inBounds_new _, Sendq.inBounds_new _, rfl, rfl⟩
  have legible : RfSession.Legible lootInfo :=
    ⟨⟨fun _ => by decide, fun _ => by decide, fun _ => by decide⟩, rfl⟩
  rcases shipped_filters_on_session formed rfl [] ⟨fun _ => none, cliToSrv, lootInfo, []⟩
    (fun t member => List.mem_singleton.mp member ▸ legible) with
    ⟨middle, next, _, _, _, ran, _, turned, _, command, _⟩
  exact ⟨middle, next, ran, turned, (command (by decide)).1⟩

end Rfx
