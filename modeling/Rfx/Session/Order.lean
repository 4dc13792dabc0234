import Rfx.Session.Watchers

namespace Rfx

open Library

/-!
# The order around a source packet

A filter prepends and appends packets to the packet it is called for.  The
packet itself is always pushed to the list of its pipe.  The packets around it
are pulled, and a pull moves no more packets than the window of the queue has
free entries; the others go to the delayed queue, behind everything that is in
the list.  The number of packets that a pull moves is exact, and so is the
condition under which the order holds.
-/

/-- The packets of a list that are due, wanted and of one direction. -/
def wantedBy (dir : Dir) (pqh : List RfPacket) : List RfPacket :=
  pqh.filter fun pkt => pkt.delay = 0 ∧ pkt.drop = false ∧ pkt.dir = dir

/-! ## What a pull moves and what it leaves -/

section Pull

variable {dir : Dir} {p : RfPacket}

theorem wantedBy_cons_of_not (rest : List RfPacket)
    (not : ¬ (p.delay = 0 ∧ p.drop = false ∧ p.dir = dir)) :
    wantedBy dir (p :: rest) = wantedBy dir rest :=
  List.filter_cons_of_neg (by simpa using not)

theorem wantedBy_cons (rest : List RfPacket) (due : p.delay = 0) (wanted : p.drop = false)
    (towards : p.dir = dir) : wantedBy dir (p :: rest) = p :: wantedBy dir rest :=
  List.filter_cons_of_pos (by simp [due, wanted, towards])

/-- The packets that are moved are the first that are wanted, as many as there
is room for. -/
theorem pqhPull_dst (dir : Dir) (outvSz i : Nat) (pool : Pool) (src dst : List RfPacket) :
    (pqhPull dir outvSz 0 i pool src dst).dst = dst ++ (wantedBy dir src).take (outvSz - i) := by
  induction src generalizing i pool dst with
  | nil => simp [pqhPull, wantedBy]
  | cons p rest inductionHypothesis =>
      unfold pqhPull
      split
      · rename_i full
        rw [Nat.sub_eq_zero_of_le full, List.take_zero, List.append_nil]
      · rename_i room
        split
        · rename_i later
          rw [wantedBy_cons_of_not rest fun wanted => absurd wanted.1 (Nat.ne_of_gt later)]
          exact inductionHypothesis i pool dst
        · rename_i due
          split
          · rename_i towards
            split
            · rename_i dropped
              rw [wantedBy_cons_of_not rest fun wanted => by simp [dropped] at wanted]
              exact inductionHypothesis i (pktUnref pool p) dst
            · rename_i wanted
              have moved := inductionHypothesis (i + 1) pool (pqhPush dst p)
              have count : outvSz - i = (outvSz - (i + 1)) + 1 := by omega
              rw [wantedBy_cons rest (Nat.eq_zero_of_not_pos due) (Bool.eq_false_iff.mpr wanted)
                towards, count, List.take_succ_cons]
              refine moved.trans ?_
              rw [pqhPush, List.append_assoc, List.singleton_append]
          · rename_i away
            rw [wantedBy_cons_of_not rest fun wanted => away wanted.2.2]
            exact inductionHypothesis i pool dst

/-- Nothing that the other direction wants is touched. -/
theorem wantedBy_pqhPull_src {dir other : Dir} (different : other ≠ dir) (outvSz i : Nat)
    (pool : Pool) (src dst : List RfPacket) :
    wantedBy other (pqhPull dir outvSz 0 i pool src dst).src = wantedBy other src := by
  induction src generalizing i pool dst with
  | nil => rfl
  | cons p rest inductionHypothesis =>
      have keep (kept : List RfPacket) (same : wantedBy other kept = wantedBy other rest) :
          wantedBy other (p :: kept) = wantedBy other (p :: rest) := by
        simp only [wantedBy] at same ⊢
        rw [List.filter_cons, List.filter_cons, same]
      unfold pqhPull
      split
      · rfl
      · split
        · exact keep _ (inductionHypothesis i pool dst)
        · split
          · rename_i towards
            have skip : wantedBy other (p :: rest) = wantedBy other rest :=
              wantedBy_cons_of_not rest fun wanted => different (wanted.2.2.symm.trans towards)
            rw [skip]
            split
            · exact inductionHypothesis i (pktUnref pool p) dst
            · exact inductionHypothesis (i + 1) pool (pqhPush dst p)
          · exact keep _ (inductionHypothesis i pool dst)

end Pull

namespace Sendq

theorem pq_pull (q : Sendq) (pool : Pool) (src : List RfPacket) :
    (q.pull pool src).2.1.pq = q.pq ++ (wantedBy q.dir src).take (wrivcnt - q.svc) := by
  have same : q.compact.pq = q.pq ∧ q.compact.dir = q.dir ∧ q.compact.svc = q.svc := by
    unfold compact
    split <;> exact ⟨rfl, rfl, rfl⟩
  unfold pull
  split
  · simp only [pqhPull_dst, same.1, same.2.1, same.2.2, Nat.sub_zero]
  · rename_i full
    rw [Nat.sub_eq_zero_of_le (Nat.le_of_not_lt full), List.take_zero, List.append_nil]

theorem wantedBy_pull {q : Sendq} {other : Dir} (different : other ≠ q.dir) (pool : Pool)
    (src : List RfPacket) : wantedBy other (q.pull pool src).2.2 = wantedBy other src := by
  have same : q.compact.dir = q.dir := by
    unfold compact
    split <;> rfl
  unfold pull
  split
  · exact wantedBy_pqhPull_src (same ▸ different) _ _ _ _ _
  · rfl

end Sendq

namespace RfSession

variable {σ : Type} {s next : RfSession σ}

/-- The entries of the window of a pipe that a pull can still use. -/
def room (s : RfSession σ) (dir : Dir) : Nat :=
  wrivcnt - (s.pipe dir).sndq.svc

theorem pq_inject (formed : s.Formed) (dir : Dir) (pqh : List RfPacket) :
    ((s.inject pqh).1.pipe dir).sndq.pq =
      (s.pipe dir).sndq.pq ++ (wantedBy (side dir) pqh).take (s.room dir) := by
  unfold room side pipe
  split
  · exact formed.toCli_dir ▸ Sendq.pq_pull s.s2c.sndq s.pool pqh
  · have different : cliToSrv ≠ s.s2c.sndq.dir := by
      rw [formed.toCli_dir]
      decide
    have left := Sendq.wantedBy_pull different s.pool pqh
    have pulled := Sendq.pq_pull s.c2s.sndq (s.s2c.sndq.pull s.pool pqh).1
      (s.s2c.sndq.pull s.pool pqh).2.2
    rw [formed.toSrv_dir, left] at pulled
    exact pulled

theorem svc_inject (formed : s.Formed) (dir : Dir) (pqh : List RfPacket) :
    ((s.inject pqh).1.pipe dir).sndq.svc =
      (s.pipe dir).sndq.svc + ((wantedBy (side dir) pqh).take (s.room dir)).length := by
  rcases inject_spec formed pqh with
    ⟨toCli, toSrv, released, delayed, next, injected, _, injects⟩
  have appended := pq_inject formed dir pqh
  rw [injected] at appended ⊢
  unfold pipe at appended ⊢
  split
  · rename_i isCli
    simp only [if_pos isCli, injects.toCli.pq_eq, List.append_cancel_left_eq] at appended
    rw [injects.toCli.svc_eq, appended]
  · rename_i isSrv
    simp only [if_neg isSrv, injects.toSrv.pq_eq, List.append_cancel_left_eq] at appended
    rw [injects.toSrv.svc_eq, appended]

theorem formed_inject (formed : s.Formed) (pqh : List RfPacket) : (s.inject pqh).1.Formed := by
  rcases inject_spec formed pqh with ⟨_, _, _, _, next, injected, _, injects⟩
  rw [injected]
  exact injects.formed formed

/-- A turn of the loop of `filter` appends the packets that fit in front of the
packet, the packet, and those that still fit behind it. -/
theorem pq_route (formed : s.Formed) (dir : Dir) {frame : FilterFrame}
    (wanted : frame.pkt.drop = false) :
    ((s.route dir frame).pipe dir).sndq.pq =
      (s.pipe dir).sndq.pq ++ (wantedBy (side dir) frame.pre).take (s.room dir) ++
        frame.pkt :: (wantedBy (side dir) frame.post).take
          (s.room dir - ((wantedBy (side dir) frame.pre).take (s.room dir)).length) := by
  let middle := ((s.inject frame.pre).1.dispose dir frame.pkt)
  have middleFormed : middle.Formed := (formed_inject formed frame.pre).dispose dir frame.pkt
  have same : (s.route dir frame).pipe dir = (middle.inject frame.post).1.pipe dir := rfl
  have middlePipe : middle.pipe dir = ((s.inject frame.pre).1.pipe dir).pushOut frame.pkt :=
    (pipe_dispose _ dir dir frame.pkt).trans (if_pos ⟨wanted, rfl⟩)
  have middlePq : (middle.pipe dir).sndq.pq =
      ((s.inject frame.pre).1.pipe dir).sndq.pq ++ [frame.pkt] := by
    rw [middlePipe]
    rfl
  have middleRoom : middle.room dir =
      s.room dir - ((wantedBy (side dir) frame.pre).take (s.room dir)).length := by
    have grown := svc_inject formed dir frame.pre
    have sameSvc : (middle.pipe dir).sndq.svc = ((s.inject frame.pre).1.pipe dir).sndq.svc := by
      rw [middlePipe]
      rfl
    rw [room, sameSvc, grown, Nat.sub_add_eq]
    rfl
  rw [same, pq_inject middleFormed, middlePq, pq_inject formed, middleRoom, List.append_assoc,
    List.singleton_append]

theorem formed_route (formed : s.Formed) (dir : Dir) (frame : FilterFrame) :
    (s.route dir frame).Formed := by
  rcases route_spec formed dir frame with ⟨middle, before, after⟩
  exact after.formed ((before.formed formed).dispose dir frame.pkt)

/-! ## Later states -/

/-- A later state of a session, as the list of one pipe shows it: the packets
`sent` have left the list at its front, and `more` was appended. -/
structure Later (dir : Dir) (s later : RfSession σ) (sent more : List RfPacket) : Prop where
  formed : later.Formed
  pq_eq : sent ++ (later.pipe dir).sndq.pq = (s.pipe dir).sndq.pq ++ more

namespace Later

variable {dir : Dir} {t u : RfSession σ} {sent more : List RfPacket}

theorem now (formed : s.Formed) (dir : Dir) : Later dir s s [] [] where
  formed := formed
  pq_eq := (List.append_nil _).symm

theorem append {pkts : List RfPacket} (later : Later dir s t sent more) (formed : u.Formed)
    (pq : (u.pipe dir).sndq.pq = (t.pipe dir).sndq.pq ++ pkts) :
    Later dir s u sent (more ++ pkts) where
  formed := formed
  pq_eq := by rw [pq, ← List.append_assoc, later.pq_eq, List.append_assoc]

theorem quiet (later : Later dir s t sent more) (formed : u.Formed)
    (pq : (u.pipe dir).sndq.pq = (t.pipe dir).sndq.pq) : Later dir s u sent more where
  formed := formed
  pq_eq := by rw [pq, later.pq_eq]

end Later

/-- Sending takes packets off the front of the list only. -/
theorem send_suffix {st final : SendState} {results : List WritevResult} {value : Int}
    (bounds : st.q.InBounds) (sent : st.send results = some (final, value)) :
    final.q.pq <:+ st.q.pq := by
  have kept := SendState.send_rule
    (fun now => now.q.InBounds ∧ now.q.pq <:+ st.q.pq) ?_ ?_ ⟨bounds, List.suffix_refl _⟩ sent
  · exact kept.2
  · intro now both
    refine ⟨SendState.inBounds_enter both.1, ?_⟩
    unfold SendState.enter
    split
    · exact both.2
    · exact both.2
  · intro now result next value both taken
    refine ⟨SendState.inBounds_body both.1 taken, ?_⟩
    cases result with
    | failed errno =>
        rw [(SendState.body_failed taken).1]
        exact both.2
    | accepted bytes =>
        cases (SendState.body_accepted both.1 taken).2.2.2.2.2.2 with
        | whole _ _ _ pq => exact pq ▸ (List.drop_suffix _ _).trans both.2
        | partly _ _ _ _ _ _ _ _ _ _ pq => exact pq ▸ (List.drop_suffix _ _).trans both.2

/-- What becomes of the lists when one pipe is stored with a changed list. -/
theorem pq_setPipe (s : RfSession σ) (own dir : Dir) {p : ProxyPipe} (holds : List RfPacket -> Prop)
    (changed : side dir = side own -> holds p.sndq.pq)
    (unchanged : side dir ≠ side own -> holds (s.pipe dir).sndq.pq) :
    holds ((s.setPipe own p).pipe dir).sndq.pq := by
  rw [pipe_setPipe_eq]
  by_cases same : side dir = side own
  · rw [if_pos same]
    exact changed same
  · rw [if_neg same]
    exact unchanged same

/-- A later state, whatever was sent and appended. -/
def Reaches (dir : Dir) (s t : RfSession σ) : Prop :=
  Exists fun sent => Exists fun more => Later dir s t sent more

namespace Reaches

variable {dir own : Dir} {t u : RfSession σ}

theorem append (reaches : Reaches dir s t) (formed : u.Formed)
    (pq : Exists fun pkts => (u.pipe dir).sndq.pq = (t.pipe dir).sndq.pq ++ pkts) :
    Reaches dir s u := by
  rcases reaches with ⟨sent, more, later⟩
  rcases pq with ⟨pkts, pq⟩
  exact ⟨sent, more ++ pkts, later.append formed pq⟩

theorem quiet (reaches : Reaches dir s t) (formed : u.Formed)
    (pq : (u.pipe dir).sndq.pq = (t.pipe dir).sndq.pq) : Reaches dir s u := by
  rcases reaches with ⟨sent, more, later⟩
  exact ⟨sent, more, later.quiet formed pq⟩

theorem handleRead (reaches : Reaches dir s t) (formed : u.Formed) {results : List ReadvResult}
    (read : t.handleRead own results = some u) : Reaches dir s u := by
  rcases handleRead_spec read with ⟨answer, answerEq, same⟩
  rcases ProxyPipe.handleReadEvent_spec answerEq with ⟨_, reads, _⟩
  refine reaches.quiet formed ?_
  rw [same]
  refine pq_setPipe t own dir (fun pq => pq = (t.pipe dir).sndq.pq) ?_ fun _ => rfl
  intro side
  rw [reads.sndq_eq, pipe_of_side t side]

theorem inject (reaches : Reaches dir s t) (formed : t.Formed) (pqh : List RfPacket) :
    Reaches dir s (t.inject pqh).1 :=
  reaches.append (formed_inject formed pqh) ⟨_, pq_inject formed dir pqh⟩

theorem dispose (reaches : Reaches dir s t) (formed : t.Formed) (pkt : RfPacket) :
    Reaches dir s (t.dispose own pkt) := by
  refine reaches.append (formed.dispose own pkt) ?_
  rw [pipe_dispose]
  split
  · exact ⟨[pkt], rfl⟩
  · exact ⟨[], (List.append_nil _).symm⟩

theorem route (reaches : Reaches dir s t) (formed : t.Formed) (frame : FilterFrame) :
    Reaches dir s (t.route own frame) := by
  have before := formed_inject formed frame.pre
  have middle := before.dispose own frame.pkt
  have reached := ((reaches.inject formed frame.pre).dispose before frame.pkt).inject middle frame.post
  exact reached.quiet (formed_route formed own frame) rfl

theorem filterPkt (reaches : Reaches dir s t) (formed : t.Formed) {fuel : Nat} {pkt : RfPacket}
    (filtered : t.filterPkt own fuel pkt = some u) : Reaches dir s u := by
  rcases filterPkt_spec filtered with ⟨_, handled, _, _, same⟩
  let chained : RfSession σ := { t with flt := handled.flt, pool := handled.pool }
  have chainedFormed : chained.Formed :=
    ⟨formed.toCli, formed.toSrv, formed.toCli_dir, formed.toSrv_dir⟩
  have reached : Reaches dir s chained := reaches.quiet chainedFormed rfl
  exact same ▸ reached.route chainedFormed handled.frame

/-- A packet may be pushed to the list before it is written. -/
theorem write (reaches : Reaches dir s t) (formed : u.Formed) {pool : Pool} {q : Sendq}
    {out : List Byte} {pushed : List RfPacket} {st : SendState} {value : Int}
    {results : List WritevResult} (bounds : q.InBounds)
    (pq : q.pq = (t.pipe own).sndq.pq ++ pushed)
    (sent : SendState.send ⟨pool, q, out⟩ results = some (st, value))
    (stored : (u.pipe dir).sndq.pq = ((t.setPipe own (({ t.pipe own with
      sndq := st.q, written := st.out } : ProxyPipe).afterSend value)).pipe dir).sndq.pq) :
    Reaches dir s u := by
  rcases reaches with ⟨gone, more, later⟩
  rcases send_suffix bounds sent with ⟨front, split⟩
  by_cases side : side dir = side own
  · rw [pipe_of_side (t.setPipe own _) side, pipe_setPipe, ProxyPipe.afterSend_eq] at stored
    refine ⟨gone ++ front, more ++ pushed, ⟨formed, ?_⟩⟩
    rw [stored, List.append_assoc, split, pq, ← List.append_assoc gone, ← pipe_of_side t side,
      later.pq_eq, List.append_assoc]
  · rw [pipe_setPipe_of_ne t side] at stored
    exact ⟨gone, more, later.quiet formed stored⟩

theorem handleWrite (reaches : Reaches dir s t) (before : t.Formed) (formed : u.Formed)
    {results : List WritevResult} (written : t.handleWrite own results = some u) :
    Reaches dir s u := by
  rcases handleWrite_spec written with ⟨st, value, sendEq, same⟩
  exact reaches.write formed (before.bounds own) (List.append_nil _).symm sendEq (same ▸ rfl)

theorem timeoutCb (reaches : Reaches dir s t) (before : t.Formed) (formed : u.Formed) {index : Nat}
    {writes : List WritevResult} (taken : t.timeoutCb index writes = some u) : Reaches dir s u := by
  rcases timeoutCb_spec taken with ⟨dp, emitted, _, _, emitEq, same⟩
  rcases emit_spec emitEq with ⟨st, value, sendEq, emittedEq⟩
  have bounds := before.bounds dp.pkt.dir
  have pushed : (((t.removeDelayed index).pipe dp.pkt.dir).sndq.pushOut dp.pkt).InBounds :=
    ⟨bounds.size, bounds.within, bounds.at_start⟩
  have removed : Reaches dir s (t.removeDelayed index) :=
    reaches.quiet ⟨before.toCli, before.toSrv, before.toCli_dir, before.toSrv_dir⟩ rfl
  refine removed.write formed pushed rfl sendEq ?_
  rw [same, emittedEq]
  rfl

/-- Every callback leads to a later state, or deletes the session. -/
theorem step (reaches : Reaches dir s t) (sound : t.Sound) {callback : Callback}
    (taken : t.step callback = some u) : u.Sound ∧ Reaches dir s u ∨ u.deleted = true := by
  have kept := step_rule (fun t => t.Sound ∧ Reaches dir s t) ?_ ?_ ?_ ?_ ?_ ⟨sound, reaches⟩ taken
  · rcases kept with live | ⟨last, _, same⟩
    · exact Or.inl live
    · exact Or.inr (same ▸ rfl)
  · intro t own results u now read
    have sound := now.1.handleRead read
    exact ⟨sound, now.2.handleRead sound.formed read⟩
  · intro t own fuel pkt rest u now _ filtered
    have popped := now.1.popIn own rest
    have reached : Reaches dir s (t.popIn own rest) := by
      refine now.2.quiet popped.formed ?_
      refine pq_setPipe t own dir (fun pq => pq = (t.pipe dir).sndq.pq) ?_ fun _ => rfl
      intro side
      rw [pipe_of_side t side]
    exact ⟨popped.filterPkt filtered, reached.filterPkt popped.formed filtered⟩
  · intro t now
    have sound := now.1.startTimers
    exact ⟨sound, now.2.quiet sound.formed rfl⟩
  · intro t own results u now written
    have sound := now.1.handleWrite written
    exact ⟨sound, now.2.handleWrite now.1.formed sound.formed written⟩
  · intro t index writes u now fired
    have sound := now.1.timeoutCb fired
    exact ⟨sound, now.2.timeoutCb now.1.formed sound.formed fired⟩

end Reaches

/-- Any number of callbacks later. -/
theorem reaches_of_run {dir : Dir} {callbacks : List Callback} (sound : s.Sound)
    (reached : Run.run step s callbacks = some next) : Reaches dir s next ∨ next.deleted = true := by
  have final := Run.run_invariant (fun t => t.Sound ∧ Reaches dir s t ∨ t.deleted = true)
    (fun t callback u now taken => by
      rcases now with ⟨sound, reaches⟩ | deleted
      · exact reaches.step sound taken
      · have live := (step_spec taken).1
        rw [deleted] at live
        cases live)
    (Or.inl ⟨sound, [], [], .now sound.formed dir⟩) reached
  rcases final with ⟨_, reaches⟩ | deleted
  · exact Or.inl reaches
  · exact Or.inr deleted

/-- The order around the packet of a frame.  The packets that were prepended to
it stand before it in the list of its pipe.  A packet that is processed in any
later state stands behind those that were appended. -/
def KeepsOrder (s : RfSession σ) (dir : Dir) (frame : FilterFrame) : Prop :=
  Exists fun before => Exists fun behind =>
    ((s.route dir frame).pipe dir).sndq.pq =
        (s.pipe dir).sndq.pq ++ before ++ frame.pkt :: behind ∧
      (wantedBy (side dir) frame.pre).Sublist before ∧
      forall (later : RfSession σ) (sent more : List RfPacket) (other : FilterFrame),
        Later dir (s.route dir frame) later sent more -> other.pkt.drop = false ->
          Exists fun between => Exists fun rest =>
            sent ++ ((later.route dir other).pipe dir).sndq.pq =
                (s.pipe dir).sndq.pq ++ before ++ frame.pkt :: (behind ++ between) ++
                  other.pkt :: rest ∧
              (wantedBy (side dir) frame.post).Sublist (behind ++ between)

/-- All packets around the packet of a frame that are due, wanted and of its
direction fit in what is left of the window. -/
def Fits (s : RfSession σ) (dir : Dir) (frame : FilterFrame) : Prop :=
  (wantedBy (side dir) frame.pre).length + (wantedBy (side dir) frame.post).length ≤ s.room dir

theorem keepsOrder_of_fits (formed : s.Formed) {dir : Dir} {frame : FilterFrame}
    (wanted : frame.pkt.drop = false) (fits : s.Fits dir frame) : s.KeepsOrder dir frame := by
  have routed := pq_route formed dir wanted
  unfold Fits at fits
  rw [List.take_of_length_le (Nat.le_trans (Nat.le_add_right _ _) fits),
    List.take_of_length_le (Nat.le_sub_of_add_le' fits)] at routed
  refine ⟨_, _, routed, List.Sublist.refl _, ?_⟩
  intro later sent more other follows wanted'
  let added := (wantedBy (side dir) other.pre).take (later.room dir)
  let rest := (wantedBy (side dir) other.post).take (later.room dir - added.length)
  refine ⟨more ++ added, rest, ?_, List.sublist_append_left _ _⟩
  rw [pq_route follows.formed dir wanted', ← List.append_assoc, ← List.append_assoc, follows.pq_eq,
    routed]
  simp only [List.append_assoc, List.cons_append, added, rest]

/-- A packet that did not fit stands behind the next source packet. -/
theorem fits_of_keepsOrder (formed : s.Formed) {dir : Dir} {frame : FilterFrame}
    (wanted : frame.pkt.drop = false) (keeps : s.KeepsOrder dir frame) : s.Fits dir frame := by
  rcases keeps with ⟨before, behind, same, prepended, follows⟩
  let plain := FilterFrame.start (pktInit 0 4 0 dir)
  have after : (s.route dir frame).Formed := formed_route formed dir frame
  rcases follows _ [] [] plain (.now after dir) rfl with ⟨between, rest, next, appended⟩
  rw [pq_route after dir (show plain.pkt.drop = false from rfl)] at next
  have routed := pq_route formed dir wanted
  have nothing : wantedBy (side dir) plain.pre = [] ∧ wantedBy (side dir) plain.post = [] :=
    ⟨rfl, rfl⟩
  rw [nothing.1, nothing.2, same] at next
  have none : between = [] := by
    have lengths := congrArg List.length next
    simp only [List.nil_append, List.take_nil, List.append_nil, List.length_append,
      List.length_cons, List.length_nil] at lengths
    exact List.eq_nil_of_length_eq_zero (by omega)
  rw [none, List.append_nil] at appended
  have lengths := congrArg List.length (same.symm.trans routed)
  simp only [List.length_append, List.length_cons, List.length_take] at lengths
  have few := prepended.length_le
  have few' := appended.length_le
  unfold Fits
  omega

end RfSession

/-- The packets that filters prepend to a source packet leave before it, and
those that they append leave behind it and before the next source packet,
exactly if all of them fit in what is left of the window of its pipe. -/
theorem order_kept_iff {σ : Type} (s : RfSession σ) (dir : Dir) (frame : FilterFrame)
    (formed : s.Formed) (wanted : frame.pkt.drop = false) :
    s.KeepsOrder dir frame <-> s.Fits dir frame :=
  ⟨RfSession.fits_of_keepsOrder formed wanted, RfSession.keepsOrder_of_fits formed wanted⟩

/-- In a session that has just started the window is empty, and a packet on
either side of the source packet keeps its place. -/
theorem order_kept_iff_idle :
    (RfSession.start RefCount.Heap.empty ([] : RfxFilterChain Unit)).KeepsOrder srvToCli
      { FilterFrame.start (pktInit 0 4 1 srvToCli) with
        pre := [pktInit 1 4 2 srvToCli]
        post := [pktInit 2 4 3 srvToCli] } := by
  have formed : (RfSession.start RefCount.Heap.empty ([] : RfxFilterChain Unit)).Formed :=
    ⟨Sendq.inBounds_new _, Sendq.inBounds_new _, rfl, rfl⟩
  have fits : (RfSession.start RefCount.Heap.empty ([] : RfxFilterChain Unit)).Fits srvToCli
      { FilterFrame.start (pktInit 0 4 1 srvToCli) with
        pre := [pktInit 1 4 2 srvToCli]
        post := [pktInit 2 4 3 srvToCli] } := by
    unfold RfSession.Fits
    decide
  exact (order_kept_iff _ _ _ formed rfl).mpr fits

/-- A session whose client has not accepted any of 64 packets yet. -/
def fullSession : RfSession Unit :=
  let idle := RfSession.start RefCount.Heap.empty []
  let pending := (List.range wrivcnt).map fun ptr => pktInit ptr 4 1 srvToCli
  { idle with s2c := { idle.s2c with sndq := (pending.foldl Sendq.pushOut (.new srvToCli)).fill } }

/-- The packet that is prepended to the next one from the server leaves after
it, with a timer. -/
theorem order_lost_in_full_session :
    Exists fun frame : FilterFrame => fullSession.Formed ∧ frame.pkt.drop = false ∧
      frame.pre = [pktInit 65 4 2 srvToCli] ∧ ¬ fullSession.KeepsOrder srvToCli frame ∧
        (fullSession.route srvToCli frame).s2c.sndq.pq.getLast? = some frame.pkt ∧
          (fullSession.route srvToCli frame).dq.pkts = frame.pre := by
  let frame : FilterFrame :=
    { FilterFrame.start (pktInit 64 4 1 srvToCli) with pre := [pktInit 65 4 2 srvToCli] }
  have formed : fullSession.Formed :=
    ⟨Sendq.inBounds_fill rfl, Sendq.inBounds_new _, rfl, rfl⟩
  refine ⟨frame, formed, rfl, rfl, ?_, rfl, rfl⟩
  intro keeps
  have fits := RfSession.fits_of_keepsOrder formed rfl keeps
  exact absurd fits (by unfold RfSession.Fits; decide)

end Rfx
