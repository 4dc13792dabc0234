import Rfx.SendQueue

namespace Rfx

open Library

/-!
# What the value of `send` says

`send` returns zero, a positive number or -1.  Zero means that the list is
empty: the window is filled again from the list whenever it runs empty, so it
is empty at the head of the loop only if the list is.  A positive number means
that `writev` would block and that packets are left.  For this the window must
never have more entries than the list has packets.
-/

/-- In bounds, and with no more entries in the window than packets in the list. -/
structure Sendq.Counted (q : Sendq) : Prop where
  bounds : q.InBounds
  count : q.svc ≤ q.pq.length

namespace Sendq.Counted

variable {q : Sendq}

theorem new (dir : Dir) : (Sendq.new dir).Counted where
  bounds := inBounds_new dir
  count := Nat.le_refl _

theorem svc_eq_zero (counted : q.Counted) (empty : q.pq = []) : q.svc = 0 := by
  have count := counted.count
  rw [empty] at count
  exact Nat.le_zero.mp count

theorem pending_eq_nil (counted : q.Counted) (empty : q.pq = []) : q.pending = [] := by
  have noWindow := counted.bounds.window_eq_nil.mpr (counted.svc_eq_zero empty)
  rw [pending, noWindow, empty, List.drop_nil]
  rfl

theorem pushOut (counted : q.Counted) (pkt : RfPacket) : (q.pushOut pkt).Counted where
  bounds := ⟨counted.bounds.size, counted.bounds.within, counted.bounds.at_start⟩
  count := by
    have count := counted.count
    simp only [Sendq.pushOut, pqhPush, List.length_append]
    omega

/-- The pushed packet is pending behind everything else. -/
theorem pending_pushOut (counted : q.Counted) (pkt : RfPacket) :
    (q.pushOut pkt).pending = q.pending ++ pkt.wire := by
  have behind : (pqhPush q.pq pkt).drop q.svc = q.pq.drop q.svc ++ [pkt] :=
    List.drop_append_of_le_length counted.count
  simp only [pending, window_pushOut]
  simp only [Sendq.pushOut, behind, wireBytes_append, wireBytes_cons, wireBytes_nil,
    List.append_nil, List.append_assoc]

theorem appends {next : Sendq} {pkts : List RfPacket} (counted : q.Counted)
    (appends : q.Appends next pkts) : next.Counted where
  bounds := appends.bounds
  count := by
    have count := counted.count
    rw [appends.svc_eq, appends.pq_eq, List.length_append]
    omega

theorem fill (counted : q.Counted) : q.fill.Counted where
  bounds := inBounds_fill counted.bounds.size
  count := by
    rw [svc_fill, pq_fill]
    exact Nat.min_le_right _ _

end Sendq.Counted

namespace SendState

/-- What entering `send` and every call of `writev` keep, `send` keeps. -/
theorem send_rule (holds : SendState -> Prop) (enter : forall st, holds st -> holds st.enter)
    (body : forall st result next value, holds st -> st.body result = some (next, value) ->
      holds next)
    {st final : SendState} {results : List WritevResult} {value : Int} (now : holds st)
    (sent : st.send results = some (final, value)) : holds final := by
  have loop : forall (results : List WritevResult) (st : SendState), holds st ->
      st.sendLoop results = some (final, value) -> holds final := by
    intro results
    induction results with
    | nil =>
        intro st now looped
        simp only [sendLoop] at looped
        split at looped
        · cases looped
          exact now
        · cases looped
    | cons result results inductionHypothesis =>
        intro st now looped
        simp only [sendLoop] at looped
        split at looped
        · cases looped
        · split at looped
          · cases looped
          · rename_i bodyEq
            exact inductionHypothesis _ (body _ _ _ _ now bodyEq) looped
          · rename_i bodyEq
            split at looped
            · cases looped
              exact body _ _ _ _ now bodyEq
            · cases looped
  exact loop results st.enter (enter st now) sent

/-- Bytes only move from the pending part to the accepted part. -/
theorem send_conserves {st final : SendState} {results : List WritevResult} {value : Int}
    (bounds : st.q.InBounds) (sent : st.send results = some (final, value)) :
    final.out ++ final.q.pending = st.out ++ st.q.pending := by
  have kept := send_rule
    (fun next => next.q.InBounds ∧ next.out ++ next.q.pending = st.out ++ st.q.pending)
    (fun next now => ⟨inBounds_enter now.1, (enter_conserves now.1).trans now.2⟩)
    (fun next _ _ _ now taken =>
      ⟨inBounds_body now.1 taken, (body_conserves now.1 taken).trans now.2⟩)
    ⟨bounds, rfl⟩ sent
  exact kept.2

theorem counted_enter {st : SendState} (counted : st.q.Counted) : st.enter.q.Counted := by
  unfold enter
  split
  · exact counted.fill
  · exact counted

theorem counted_body {st next : SendState} {result : WritevResult} {value : Option Int}
    (counted : st.q.Counted) (taken : st.body result = some (next, value)) : next.q.Counted where
  bounds := inBounds_body counted.bounds taken
  count := by
    have count := counted.count
    cases result with
    | failed errno =>
        rw [(body_failed taken).1]
        exact count
    | accepted bytes =>
        cases (body_accepted counted.bounds taken).2.2.2.2.2.2 with
        | whole _ _ newCount pq =>
            rw [newCount, pq]
            exact Nat.min_le_right _ _
        | partly k _ _ _ _ _ _ _ _ newCount pq =>
            rw [newCount, pq, List.length_drop]
            omega

theorem dir_enter (st : SendState) : st.enter.q.dir = st.q.dir := by
  unfold enter
  split <;> rfl

theorem dir_body {st next : SendState} {result : WritevResult} {value : Option Int}
    (bounds : st.q.InBounds) (taken : st.body result = some (next, value)) :
    next.q.dir = st.q.dir := by
  cases result with
  | failed errno => rw [(body_failed taken).1]
  | accepted bytes => exact (body_accepted bounds taken).2.2.2.2.1

theorem counted_send {st final : SendState} {results : List WritevResult} {value : Int}
    (counted : st.q.Counted) (sent : st.send results = some (final, value)) : final.q.Counted :=
  send_rule (fun st => st.q.Counted) (fun _ now => counted_enter now)
    (fun _ _ _ _ now taken => counted_body now taken) counted sent

/-- A `svc` of zero at the head of the loop of `send` means an empty list. -/
def Filled (st : SendState) : Prop :=
  st.q.svc = 0 -> st.q.pq = []

theorem filled_enter (st : SendState) : st.enter.Filled := by
  intro empty
  unfold enter at empty ⊢
  split at empty
  · rename_i zero
    rw [if_pos zero]
    exact Sendq.fill_svc_eq_zero empty
  · rename_i busy
    exact absurd empty busy

theorem filled_body {st next : SendState} {result : WritevResult} {value : Option Int}
    (bounds : st.q.InBounds) (filled : st.Filled) (taken : st.body result = some (next, value)) :
    next.Filled := by
  intro empty
  cases result with
  | failed errno =>
      rw [(body_failed taken).1] at empty ⊢
      exact filled empty
  | accepted bytes =>
      cases (body_accepted bounds taken).2.2.2.2.2.2 with
      | whole _ _ count pq =>
          rw [pq]
          apply List.eq_nil_of_length_eq_zero
          simp only [wrivcnt] at count
          omega
      | partly k left iov rest few _ _ _ _ count => omega

end SendState

/-- The last result is a failure with this `errno`. -/
def EndsIn (errno : Errno) (results : List WritevResult) : Prop :=
  results.getLast? = some (.failed errno)

instance (errno : Errno) (results : List WritevResult) : Decidable (EndsIn errno results) :=
  inferInstanceAs (Decidable (_ = _))

theorem endsIn_cons {errno : Errno} (result : WritevResult) {results : List WritevResult}
    (more : results ≠ []) : EndsIn errno (result :: results) <-> EndsIn errno results := by
  unfold EndsIn
  rw [List.getLast?_cons_of_ne_nil more]

/-- The three ways in which `send` returns, with the last result of `writev`
that goes with each. -/
inductive Outcome (results : List WritevResult) (final : SendState) : Int -> Prop
  | drained (through : ¬ EndsIn .eagain results) (unbroken : ¬ EndsIn .other results)
      (empty : final.q.pq = []) : Outcome results final 0
  | blocked {value : Int} (last : EndsIn .eagain results) (positive : 0 < value)
      (left : final.q.pq ≠ []) : Outcome results final value
  | broken (last : EndsIn .other results) : Outcome results final (-1)

/-- A result after which the loop goes on is not what it ends in. -/
theorem Outcome.goes_on {st next final : SendState} {result : WritevResult}
    {results : List WritevResult} {value : Int} (rest : Outcome results final value)
    (taken : st.body result = some (next, none)) : Outcome (result :: results) final value := by
  by_cases last : results = []
  · subst last
    cases rest with
    | drained _ _ empty =>
        cases result with
        | accepted bytes => exact .drained (by simp [EndsIn]) (by simp [EndsIn]) empty
        | failed errno =>
            rcases (SendState.body_failed taken).2 with ⟨_, intr⟩ | ⟨none, _⟩ | ⟨none, _⟩
            · subst intr
              exact .drained (by decide) (by decide) empty
            · cases none
            · cases none
    | blocked impossible => cases impossible
    | broken impossible => cases impossible
  · cases rest with
    | drained through unbroken empty =>
        exact .drained ((endsIn_cons result last).not.mpr through)
          ((endsIn_cons result last).not.mpr unbroken) empty
    | blocked blocked positive left =>
        exact .blocked ((endsIn_cons result last).mpr blocked) positive left
    | broken broken => exact .broken ((endsIn_cons result last).mpr broken)

/-- The loop is left, with packets in the list, when the descriptor is blocked or broken. -/
theorem Outcome.stops {st final : SendState} {result : WritevResult} {value : Int}
    (counted : st.q.Counted) (busy : st.q.svc ≠ 0)
    (taken : st.body result = some (final, some value)) : Outcome [result] final value := by
  cases result with
  | accepted bytes =>
      have none := (SendState.body_accepted counted.bounds taken).1
      cases none
  | failed errno =>
      rcases SendState.body_failed taken with ⟨same, ⟨none, _⟩ | ⟨count, again⟩ | ⟨error, other⟩⟩
      · cases none
      · cases count
        subst again
        have few := counted.count
        refine .blocked rfl (by omega) ?_
        intro empty
        rw [same] at empty
        rw [empty] at few
        exact busy (Nat.le_zero.mp few)
      · cases error
        subst other
        exact .broken rfl

theorem SendState.send_outcome {st final : SendState} {results : List WritevResult} {value : Int}
    (counted : st.q.Counted) (sent : st.send results = some (final, value)) :
    Outcome results final value := by
  have loop : forall (results : List WritevResult) (st : SendState), st.q.Counted -> st.Filled ->
      st.sendLoop results = some (final, value) -> Outcome results final value := by
    intro results
    induction results with
    | nil =>
        intro st counted filled looped
        simp only [sendLoop] at looped
        split at looped
        · rename_i empty
          cases looped
          exact .drained (by decide) (by decide) (filled empty)
        · cases looped
    | cons result results inductionHypothesis =>
        intro st counted filled looped
        simp only [sendLoop] at looped
        split at looped
        · cases looped
        · rename_i busy
          split at looped
          · cases looped
          · rename_i next bodyEq
            exact (inductionHypothesis next (counted_body counted bodyEq)
              (filled_body counted.bounds filled bodyEq) looped).goes_on bodyEq
          · rename_i next reached bodyEq
            split at looped
            · rename_i finished
              cases looped
              subst finished
              exact .stops counted busy bodyEq
            · cases looped
  exact loop results st.enter (counted_enter counted) (filled_enter st) sent

end Rfx
