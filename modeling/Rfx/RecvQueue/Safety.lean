import Mathlib.Data.List.Induction
import Rfx.RecvQueue.Framing

namespace Rfx

open Library Library.Framing

/-!
# Memory safety of the receive queue

Every length that the receive queue hands to `readv` or `memcpy` is an unsigned
difference of `rd_pos` and the announced length of the packet.  The differences
are positive and fit their buffers in every state that a legal stream can lead
to, however it is split.  The source has no check of the announced length.  A
header that announces fewer than four bytes leaves `rd_pos` at four behind the
end of the packet, and the next difference wraps around.
-/

/-- The points that `recv` can reach while taking `consumed` off the stream,
over any number of calls. -/
inductive RecvPoint.Reach (pool : Pool) (dir : Dir) : List Byte -> RecvPoint -> Prop
  | start : Reach pool dir [] (.reading (.start pool dir))
  | readv {consumed : List Byte} {s : RecvState} {result : ReadvResult} {point : RecvPoint}
      (before : Reach pool dir consumed (.reading s)) (taken : s.afterReadv result = some point) :
      Reach pool dir (consumed ++ result.bytes) point
  | extract {consumed p : List Byte} {s : RecvState} {point : RecvPoint}
      (before : Reach pool dir consumed (.extracting s p)) (taken : s.extractBody p = some point) :
      Reach pool dir consumed point
  | call {consumed : List Byte} {s : RecvState} {more : Bool}
      (before : Reach pool dir consumed (.returned s more)) :
      Reach pool dir consumed (.reading s)

/-- `rd_pos` lies inside the header, or behind the header and inside the packet. -/
def Recvq.Ready (q : Recvq) : Prop :=
  (q.rd = none -> q.rdPos < 4) ∧ forall rd, q.rd = some rd -> 4 ≤ q.rdPos ∧ q.rdPos < rd.len

/-- The copy that the inner loop makes from `bytes` unread bytes: its length is
positive and fits what is left of its destination. -/
def Recvq.CopySafe (q : Recvq) (bytes : Nat) : Prop :=
  match q.rd with
  | some rd => 0 < q.copyLen rd bytes ∧ q.copyLen rd bytes ≤ bytes ∧
      q.rdPos + q.copyLen rd bytes ≤ rd.data.length
  | none => bytes < 4 -> 0 < bytes ∧ q.rdPos + bytes ≤ q.rdBuf.length

/-- What a point of `recv` has to satisfy.  Before `readv` the first entry has a
positive length and ends inside its buffer.  With bytes left in the spill
buffer, the next copy is safe and the iteration leaves fewer of them. -/
def RecvPoint.Safe : RecvPoint -> Prop
  | .reading s =>
      s.q.Ready ∧ 0 < s.q.iovLen ∧ s.q.rdPos + s.q.iovLen ≤ s.q.target.length
  | .extracting s p =>
      p ≠ [] -> s.q.Ready ∧ s.q.CopySafe p.length ∧
        Exists fun point => s.extractBody p = some point ∧
          forall next rest, point = .extracting next rest -> rest.length < p.length
  | .returned s _ => s.q.Ready

namespace Recvq

theorem Inv.ready {q : Recvq} (inv : q.Inv) : q.Ready :=
  ⟨inv.header, fun rd shape => (inv.body rd shape).2⟩

theorem Inv.copySafe {q : Recvq} (inv : q.Inv) (clean : q.rd = none -> q.rdPos = 0)
    {bytes : Nat} (more : 0 < bytes) : q.CopySafe bytes := by
  unfold CopySafe
  split
  · rename_i rd shape
    rcases inv.body rd shape with ⟨announced, known, inside⟩
    rcases room_eq inv shape with ⟨room, roomInt⟩
    have size := announced.size
    simp only [copyLen, room, roomInt]
    split <;> omega
  · rename_i shape
    intro short
    rw [clean shape, inv.buf]
    exact ⟨more, by omega⟩

end Recvq

/-- What is known at a point after a legal stream: the queue is well formed,
and the pending bytes are the part of the stream that was not queued. -/
def RecvPoint.Accounted (consumed : List Byte) : RecvPoint -> Prop
  | .reading s => s.q.Inv ∧ Exists fun frames => wireFormat.Splits consumed frames s.q.pending
  | .returned s _ => s.q.Inv ∧ Exists fun frames => wireFormat.Splits consumed frames s.q.pending
  | .extracting s p =>
      s.q.Inv ∧ (s.q.rd = none -> s.q.rdPos = 0) ∧
        Exists fun before => Exists fun later => Exists fun rest =>
          wireFormat.Splits consumed (before ++ later) rest ∧
            wireFormat.Splits (s.q.pending ++ p) later rest

namespace RecvPoint

/-- A piece of `recv` keeps the account. -/
theorem Accounted.of_advance {q : Recvq} {consumed rest : List Byte} {point : RecvPoint}
    {before later : List (List Byte)} (whole : wireFormat.Splits consumed (before ++ later) rest)
    (advance : RecvState.Advance q later rest point) : point.Accounted consumed := by
  cases advance with
  | reading next progress => exact ⟨progress.inv, _, progress.pending_eq ▸ whole⟩
  | extracting next p done last middle progress clean frames_eq split =>
      refine ⟨progress.inv, clean, before ++ done, last, rest, ?_, progress.pending_eq.symm ▸ split⟩
      rw [List.append_assoc, ← frames_eq]
      exact whole

theorem possible_of_afterReadv {s : RecvState} {bytes : List Byte} {point : RecvPoint}
    (taken : s.afterReadv (.received bytes) = some point) : s.Possible (.received bytes) := by
  simp only [RecvState.afterReadv] at taken
  split at taken
  · rename_i offered
    exact ⟨offered.1, offered.2.1⟩
  · cases taken

/-- Every point reached with a legal stream is accounted for. -/
theorem Reach.accounted {pool : Pool} {dir : Dir} {consumed : List Byte} {point : RecvPoint}
    (reached : Reach pool dir consumed point) (legal : wireFormat.Legal consumed) :
    point.Accounted consumed := by
  induction reached with
  | start => exact ⟨Recvq.inv_new dir, [], wireFormat.splits_nil⟩
  | @readv consumed s result point _ taken inductionHypothesis =>
      rcases inductionHypothesis legal.of_append with ⟨inv, frames, front⟩
      have unchanged (nothing : result.bytes = []) : wireFormat.Splits (consumed ++ result.bytes)
          frames s.q.pending := by
        rw [nothing, List.append_nil]
        exact front
      cases result with
      | eof =>
          cases taken
          exact ⟨inv, frames, unchanged rfl⟩
      | failed errno =>
          cases errno <;> cases taken <;> exact ⟨inv, frames, unchanged rfl⟩
      | received bytes =>
          rcases Format.legal_iff_splits.mp legal with ⟨all, rest, whole⟩
          rcases whole.cut with ⟨before, middle, after, first, second, joined⟩
          have same := (first.unique front).2
          subst same
          rcases RecvState.afterReadv_spec inv (possible_of_afterReadv taken) second with
            ⟨point', taken', advance⟩
          cases taken.symm.trans taken'
          exact Accounted.of_advance (joined ▸ whole) advance
  | @extract consumed p s point _ taken inductionHypothesis =>
      rcases inductionHypothesis legal with ⟨inv, clean, before, later, rest, whole, split⟩
      by_cases empty : p = []
      · subst empty
        simp only [RecvState.extractBody, if_true, Option.some.injEq] at taken
        subst taken
        rw [List.append_nil] at split
        rcases split.unique (.of_pending (Recvq.pending_isPending inv)) with ⟨noFrames, same⟩
        exact ⟨inv, before ++ later, same ▸ whole⟩
      · rcases RecvState.extractBody_spec inv clean empty split with ⟨point', taken', advance, _⟩
        cases taken.symm.trans taken'
        exact Accounted.of_advance whole advance
  | call _ inductionHypothesis => exact inductionHypothesis legal

/-- An accounted point is safe. -/
theorem Accounted.safe {consumed : List Byte} {point : RecvPoint}
    (accounted : point.Accounted consumed) : point.Safe := by
  cases point with
  | reading s =>
      have room := Recvq.iovLen_eq accounted.1
      exact ⟨accounted.1.ready, room.1, Nat.le_of_eq room.2.1⟩
  | returned s more => exact accounted.1.ready
  | extracting s p =>
      intro more
      rcases accounted with ⟨inv, clean, _, _, _, _, split⟩
      rcases RecvState.extractBody_spec inv clean more split with ⟨point, taken, _, shorter⟩
      exact ⟨inv.ready, inv.copySafe clean (List.length_pos_iff.mpr more), point, taken, shorter⟩

/-- The inner loop is a path of points that ends at the next `readv`. -/
theorem Reach.extracted {pool : Pool} {dir : Dir} {consumed p : List Byte} {s next : RecvState}
    {fuel : Nat} (reached : Reach pool dir consumed (.extracting s p))
    (extracted : s.extract fuel p = some next) : Reach pool dir consumed (.reading next) := by
  induction fuel generalizing s p with
  | zero =>
      unfold RecvState.extract at extracted
      split at extracted
      · rename_i taken
        cases extracted
        exact .extract reached taken
      · cases extracted
      · cases extracted
  | succ fuel inductionHypothesis =>
      unfold RecvState.extract at extracted
      split at extracted
      · rename_i taken
        cases extracted
        exact .extract reached taken
      · rename_i taken
        exact inductionHypothesis (.extract reached taken) extracted
      · cases extracted

/-- A legal stream can be taken off byte by byte. -/
theorem reach_of_legal (pool : Pool) (dir : Dir) {stream : List Byte}
    (legal : wireFormat.Legal stream) :
    Exists fun s => Reach pool dir stream (.reading s) := by
  induction stream using List.reverseRecOn with
  | nil => exact ⟨_, .start⟩
  | append_singleton stream b inductionHypothesis =>
      rcases inductionHypothesis legal.of_append with ⟨s, reached⟩
      rcases reached.accounted legal.of_append with ⟨inv, frames, front⟩
      rcases Format.legal_iff_splits.mp legal with ⟨all, rest, whole⟩
      rcases whole.cut with ⟨before, middle, after, first, second, _⟩
      have same := (first.unique front).2
      subst same
      have room := (Recvq.iovLen_eq inv).1
      have possible : s.Possible (.received [b]) := ⟨List.cons_ne_nil _ _, by
        simp only [List.length_singleton]
        omega⟩
      rcases RecvState.afterReadv_spec inv possible second with ⟨point, taken, advance⟩
      have after := Reach.readv reached taken
      cases advance with
      | reading next progress => exact ⟨next, after⟩
      | extracting next p done later middle progress clean _ split =>
          rcases RecvState.extract_spec p.length (Nat.le_refl _) progress.inv clean
            (progress.pending_eq.symm ▸ split) with ⟨final, extracted, _⟩
          exact ⟨final, after.extracted extracted⟩

/-- The one way in which a legal stream becomes illegal with one more byte:
that byte completes a header which announces fewer than four bytes. -/
theorem short_header_of_illegal {consumed pending : List Byte} {frames : List (List Byte)} {b : Byte}
    (split : wireFormat.Splits consumed frames pending)
    (illegal : ¬ wireFormat.Legal (consumed ++ [b])) :
    pending.length = 3 ∧ getInt16 (pending ++ [b]) < 4 := by
  have illegal' : ¬ wireFormat.Legal (pending ++ [b]) := by
    intro legal
    rcases Format.legal_iff_splits.mp legal with ⟨after, rest, tail⟩
    exact illegal (Format.legal_iff_splits.mpr ⟨_, _, split.join tail⟩)
  have known : 4 ≤ (pending ++ [b]).length := Nat.le_of_not_lt fun short => illegal' (.short short)
  have announced : getInt16 (pending ++ [b]) < 4 := by
    apply Nat.lt_of_not_le
    intro long
    have rest : ((pending ++ [b]).drop (wireFormat.size (pending ++ [b]))).length < 4 := by
      rw [List.length_drop, List.length_append, List.length_singleton]
      change pending.length + 1 - getInt16 (pending ++ [b]) < 4
      rcases split.isPending with short | ⟨headed, longer⟩
      · change pending.length < 4 at short
        omega
      · have same : wireFormat.size (pending ++ [b]) = wireFormat.size pending :=
          wireFormat.size_append _ _ headed
        change getInt16 (pending ++ [b]) = wireFormat.size pending at same
        omega
    exact illegal' (.frame known long (.short rest))
  refine ⟨?_, announced⟩
  rw [List.length_append, List.length_singleton] at known
  rcases split.isPending with short | ⟨headed, longer⟩
  · change pending.length < 4 at short
    omega
  · have same : wireFormat.size (pending ++ [b]) = wireFormat.size pending :=
      wireFormat.size_append _ _ headed
    change getInt16 (pending ++ [b]) = wireFormat.size pending at same
    change 4 ≤ pending.length at headed
    omega

/-- A header that announces fewer than four bytes leads to a point that is not
safe: `rd_pos` is four, behind the end of the packet. -/
theorem reach_unsafe {pool : Pool} {dir : Dir} {consumed : List Byte} {s : RecvState} {b : Byte}
    (reached : Reach pool dir consumed (.reading s)) (inv : s.q.Inv)
    (three : s.q.pending.length = 3) (announced : getInt16 (s.q.pending ++ [b]) < 4) :
    Exists fun point => Reach pool dir (consumed ++ [b]) point ∧ ¬ point.Safe := by
  rw [Recvq.length_pending inv] at three
  cases shape : s.q.rd with
  | some rd =>
      have := (inv.body rd shape).2.1
      omega
  | none =>
      have room : s.q.iovLen = 1 := by
        rw [Recvq.iovLen_none shape (by omega), three]
      have target : s.q.target = s.q.rdBuf := by simp only [Recvq.target, shape]
      have fits : Buffer.Fits s.q.rdBuf 3 [b] := Nat.le_of_eq inv.buf.symm
      have header : Buffer.overwrite s.q.rdBuf 3 [b] = s.q.pending ++ [b] := by
        have copied := Buffer.take_overwrite fits
        rw [List.take_of_length_le (by rw [Buffer.length_overwrite fits, inv.buf]; rfl)] at copied
        simp only [Recvq.pending, target, three]
        exact copied
      have one : asInt 1 = 1 := asInt_eq (by decide)
      have small : getInt16 (s.q.pending ++ [b]) % 2 ^ 16 = getInt16 (s.q.pending ++ [b]) :=
        Nat.mod_eq_of_lt (by omega)
      let stored : RecvState := { s with q := s.q.store [b] }
      let opened := stored.allocate stored.q.rdBuf 4
      have storedBuf : stored.q.rdBuf = s.q.pending ++ [b] := by
        simp only [stored, Recvq.store, shape, three]
        exact header
      have unsettled : opened.q.settle = opened.q := by
        simp only [opened, Recvq.settle, RecvState.allocate, pktNew, pktInit, storedBuf, small]
        exact if_neg (by omega)
      have taken : s.afterReadv (.received [b]) = some (.extracting { opened with q := opened.q.settle } []) := by
        simp only [RecvState.afterReadv, room, shape, target, three, one]
        exact if_pos ⟨List.cons_ne_nil _ _, Nat.le_add_right 1 _, fits⟩
      have atEnd : (RecvState.extractBody { opened with q := opened.q.settle } []) =
          some (.reading { opened with q := opened.q.settle }) := rfl
      refine ⟨_, .extract (.readv reached taken) atEnd, ?_⟩
      intro safe
      have ready := safe.1.2
      rw [unsettled] at ready
      have inside := (ready _ rfl).2
      simp only [opened, RecvState.allocate, pktNew, pktInit, storedBuf, small] at inside
      omega

end RecvPoint

/-- Receive safety holds for exactly the legal streams: all points that can be
reached with prefixes of the stream, under every splitting of it, are safe if
and only if every header in it announces at least the four bytes of itself. -/
theorem recv_safe_iff_legal (pool : Pool) (dir : Dir) (stream : List Byte) :
    (forall consumed point, RecvPoint.Reach pool dir consumed point -> consumed <+: stream ->
      point.Safe) <-> wireFormat.Legal stream := by
  constructor
  · intro safe
    induction stream using List.reverseRecOn with
    | nil => exact .short (Nat.zero_lt_succ 3)
    | append_singleton stream b inductionHypothesis =>
        have legal := inductionHypothesis fun consumed point reached front =>
          safe consumed point reached (front.trans (List.prefix_append _ _))
        by_contra illegal
        rcases RecvPoint.reach_of_legal pool dir legal with ⟨s, reached⟩
        rcases reached.accounted legal with ⟨inv, frames, split⟩
        rcases RecvPoint.short_header_of_illegal split illegal with ⟨three, announced⟩
        rcases RecvPoint.reach_unsafe reached inv three announced with ⟨point, after, notSafe⟩
        exact notSafe (safe _ point after (List.prefix_refl _))
  · rintro legal consumed point reached ⟨back, same⟩
    exact (reached.accounted (same ▸ legal).of_append).safe

/-- Four zero bytes are enough to leave the safe states. -/
theorem recv_unsafe_after_zero_header :
    ¬ forall consumed point, RecvPoint.Reach RefCount.Heap.empty cliToSrv consumed point ->
      point.Safe := by
  intro safe
  let opened : RecvState :=
    { pool := RefCount.Heap.empty.alloc
      q := { Recvq.new cliToSrv with rd := some (pktInit 0 0 0 cliToSrv), rdPos := 4 } }
  have taken : (RecvState.start RefCount.Heap.empty cliToSrv).afterReadv
      (.received [0, 0, 0, 0]) = some (.extracting opened []) := by
    simp only [RecvState.afterReadv]
    rw [if_pos (by decide), if_pos (by decide)]
    rfl
  have ready := safe _ (.reading opened) (.extract (.readv .start taken) rfl)
  have inside := (ready.1.2 _ rfl).2
  exact absurd inside (by decide)

end Rfx
