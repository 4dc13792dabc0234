import Rfx.RecvQueue

namespace Rfx

open Library Library.Framing

/-!
# Framing by the receive queue

The stream of one direction is a length-prefixed format: a four-byte header
whose first two bytes give the length of the whole frame.  The bytes that the
receive queue has taken off the stream but not yet queued are its pending
bytes, in `rd_buf` or in the data of `rd`.  Every piece of the code that moves
bytes is shown to advance the split of the stream into frames, and the law for
cutting a split then covers every segmentation at once.
-/

/-- The frames of the protocol. -/
def wireFormat : Format Byte where
  header := 4
  size := getInt16
  header_pos := by decide
  size_append := fun front back known => getInt16_append front back (by omega)

/-- Equal header bytes give equal length and type fields. -/
theorem header_fields_eq {left right : List Byte} (same : left.take 4 = right.take 4) :
    getInt16 left = getInt16 right ∧ getInt16 (left.drop 2) = getInt16 (right.drop 2) := by
  have typeField (data : List Byte) : getInt16 ((data.take 4).drop 2) = getInt16 (data.drop 2) := by
    rw [List.drop_take]
    exact getInt16_take _ (by decide)
  constructor
  · rw [← getInt16_take left (show 2 ≤ 4 by decide), same, getInt16_take _ (by decide)]
  · rw [← typeField, same, typeField]

/-- A packet that stands for the frame in its data: its fields are those of the
frame's header, and the data is the frame. -/
structure Announced (dir : Dir) (pkt : RfPacket) : Prop where
  size : pkt.data.length = pkt.len
  len_eq : pkt.len = getInt16 pkt.data
  type_eq : pkt.type = getInt16 (pkt.data.drop 2)
  dir_eq : pkt.dir = dir
  drop_eq : pkt.drop = false
  delay_eq : pkt.delay = 0

theorem Announced.wire_eq {dir : Dir} {pkt : RfPacket} (announced : Announced dir pkt) :
    pkt.wire = pkt.data := by
  rw [RfPacket.wire, List.take_of_length_le (Nat.le_of_eq announced.size)]

/-- A store behind the header keeps the packet announced. -/
theorem Announced.overwrite {dir : Dir} {pkt : RfPacket} (announced : Announced dir pkt)
    {pos : Nat} {block : List Byte} (behind : 4 ≤ pos) (fits : Buffer.Fits pkt.data pos block)
    (fits' : pkt.len ≤ (Buffer.overwrite pkt.data pos block).length) :
    Announced dir { pkt with data := Buffer.overwrite pkt.data pos block, fits := fits' } := by
  have within : pos ≤ pkt.data.length := by
    unfold Buffer.Fits at fits
    omega
  have front : (Buffer.overwrite pkt.data pos block).take 4 = pkt.data.take 4 := by
    rw [Buffer.overwrite, List.append_assoc, List.take_append_of_le_length, List.take_take,
      Nat.min_eq_left behind]
    rw [List.length_take, Nat.min_eq_left within]
    exact behind
  have fields := header_fields_eq front
  exact ⟨(Buffer.length_overwrite fits).trans announced.size,
    announced.len_eq.trans fields.1.symm, announced.type_eq.trans fields.2.symm,
    announced.dir_eq, announced.drop_eq, announced.delay_eq⟩

/-- The first bytes of a packet created for a received header are that header. -/
theorem take_data_pktInit (ptr : Nat) (dir : Dir) {header : List Byte} (known : 4 ≤ header.length)
    (long : 4 ≤ getInt16 header) :
    (pktInit ptr (getInt16 header) (getInt16 (header.drop 2)) dir).data.take 4 = header.take 4 := by
  match header, known with
  | a :: b :: c :: d :: rest, _ =>
      have fields : headerBytes (getInt16 (a :: b :: c :: d :: rest))
          (getInt16 ((a :: b :: c :: d :: rest).drop 2)) = [a, b, c, d] :=
        headerBytes_getInt16 a b c d
      simp only [pktInit, List.take_take, Nat.min_eq_left long, fields]
      rfl

/-- A packet created for a received header is announced. -/
theorem announced_pktInit (ptr : Nat) (dir : Dir) {header : List Byte} (known : 4 ≤ header.length)
    (long : 4 ≤ getInt16 header) :
    Announced dir (pktInit ptr (getInt16 header) (getInt16 (header.drop 2)) dir) := by
  have front := take_data_pktInit ptr dir known long
  have short : getInt16 header % 2 ^ 16 = getInt16 header := Nat.mod_eq_of_lt (getInt16_lt _)
  have short' : getInt16 (header.drop 2) % 2 ^ 16 = getInt16 (header.drop 2) :=
    Nat.mod_eq_of_lt (getInt16_lt _)
  have fields := header_fields_eq front
  exact ⟨(length_data_pktInit _ _ _ _).trans short.symm, short.trans fields.1.symm,
    short'.trans fields.2.symm, rfl, rfl, rfl⟩

namespace Recvq

/-- The bytes taken off the stream that do not belong to a queued packet. -/
def pending (q : Recvq) : List Byte :=
  q.target.take q.rdPos

/-- The state of the receive queue at its reads and copies. -/
structure Inv (q : Recvq) : Prop where
  buf : q.rdBuf.length = 4
  header : q.rd = none -> q.rdPos < 4
  body : forall rd, q.rd = some rd -> Announced q.dir rd ∧ 4 ≤ q.rdPos ∧ q.rdPos < rd.len

/-- From one queue to a later one: packets for `done` were queued, and `rest`
is pending. -/
structure Progress (q next : Recvq) (done : List (List Byte)) (rest : List Byte) : Prop where
  inv : next.Inv
  dir_eq : next.dir = q.dir
  pending_eq : next.pending = rest
  queued : Exists fun pkts => next.pq = q.pq ++ pkts ∧ pkts.map RfPacket.data = done ∧
    forall pkt, pkt ∈ pkts -> Announced q.dir pkt

theorem Progress.trans {q middle next : Recvq} {first second : List (List Byte)}
    {rest rest' : List Byte} (front : Progress q middle first rest)
    (back : Progress middle next second rest') : Progress q next (first ++ second) rest' where
  inv := back.inv
  dir_eq := back.dir_eq.trans front.dir_eq
  pending_eq := back.pending_eq
  queued := by
    rcases front.queued with ⟨early, early_eq, early_done, early_announced⟩
    rcases back.queued with ⟨late, late_eq, late_done, late_announced⟩
    refine ⟨early ++ late, by rw [late_eq, early_eq, List.append_assoc],
      by rw [List.map_append, early_done, late_done], ?_⟩
    intro pkt member
    rcases List.mem_append.mp member with first | second
    · exact early_announced pkt first
    · exact front.dir_eq ▸ late_announced pkt second

theorem Progress.refl {q : Recvq} (inv : q.Inv) : Progress q q [] q.pending where
  inv := inv
  dir_eq := rfl
  pending_eq := rfl
  queued := ⟨[], by simp, rfl, fun _ member => absurd member List.not_mem_nil⟩

theorem inv_new (dir : Dir) : (new dir).Inv where
  buf := rfl
  header := fun _ => Nat.zero_lt_succ 3
  body := fun _ impossible => by cases impossible

theorem length_pending {q : Recvq} (inv : q.Inv) : q.pending.length = q.rdPos := by
  cases shape : q.rd with
  | none =>
      have := inv.header shape
      simp only [pending, target, shape, List.length_take, inv.buf]
      omega
  | some rd =>
      rcases inv.body rd shape with ⟨announced, _, inside⟩
      simp only [pending, target, shape, List.length_take, announced.size]
      omega

/-- While a packet is being read, its length is what the pending bytes announce. -/
theorem size_pending {q : Recvq} (inv : q.Inv) {rd : RfPacket} (shape : q.rd = some rd) :
    wireFormat.size q.pending = rd.len := by
  rcases inv.body rd shape with ⟨announced, known, _⟩
  have front : q.pending = rd.data.take q.rdPos := by simp only [pending, target, shape]
  rw [front]
  exact (getInt16_take _ (by omega)).trans announced.len_eq.symm

theorem pending_isPending {q : Recvq} (inv : q.Inv) : wireFormat.IsPending q.pending := by
  have length := length_pending inv
  cases shape : q.rd with
  | none => exact Or.inl (by rw [length]; exact inv.header shape)
  | some rd =>
      rcases inv.body rd shape with ⟨_, known, inside⟩
      exact Or.inr ⟨by rw [length]; exact known, by rw [length, size_pending inv shape]; exact inside⟩

theorem iovLen_none {q : Recvq} (shape : q.rd = none) (short : q.rdPos < 4) :
    q.iovLen = 4 - q.rdPos := by
  simp only [iovLen, shape]
  exact wrapSub_eq (by omega) (by decide)

theorem len_lt_of_announced {dir : Dir} {rd : RfPacket} (announced : Announced dir rd) :
    rd.len < 2 ^ 16 := by
  rw [announced.len_eq]
  exact getInt16_lt _

theorem room_eq {q : Recvq} (inv : q.Inv) {rd : RfPacket} (shape : q.rd = some rd) :
    wrapSub 32 rd.len q.rdPos = rd.len - q.rdPos ∧
      asInt (rd.len - q.rdPos) = (rd.len - q.rdPos : Nat) := by
  rcases inv.body rd shape with ⟨announced, _, inside⟩
  have small := len_lt_of_announced announced
  exact ⟨wrapSub_eq (by omega) (by omega), asInt_eq (by omega)⟩

theorem iovLen_some {q : Recvq} (inv : q.Inv) {rd : RfPacket} (shape : q.rd = some rd) :
    q.iovLen = rd.len - q.rdPos := by
  simp only [iovLen, shape]
  exact (room_eq inv shape).1

/-- The first entry of `readv` ends where its target ends. -/
theorem iovLen_eq {q : Recvq} (inv : q.Inv) :
    0 < q.iovLen ∧ q.rdPos + q.iovLen = q.target.length ∧ asInt q.iovLen = q.iovLen := by
  cases shape : q.rd with
  | none =>
      have short := inv.header shape
      rw [iovLen_none shape short]
      refine ⟨by omega, ?_, asInt_eq (by omega)⟩
      simp only [target, shape, inv.buf]
      omega
  | some rd =>
      rcases inv.body rd shape with ⟨announced, _, inside⟩
      rw [iovLen_some inv shape]
      refine ⟨by omega, ?_, (room_eq inv shape).2⟩
      simp only [target, shape, announced.size]
      omega

/-- Where nothing is left to read, what is pending is the rest. -/
theorem Progress.of_pending {q : Recvq} (inv : q.Inv) {frames : List (List Byte)} {rest : List Byte}
    (split : wireFormat.Splits q.pending frames rest) : Progress q q frames rest := by
  rcases split.unique (.of_pending (pending_isPending inv)) with ⟨noFrames, same⟩
  rw [noFrames, same]
  exact .refl inv

/-! ### Stores into the current target -/

/-- Bytes stored without filling the target become pending. -/
theorem store_pending {q : Recvq} (inv : q.Inv) {bytes : List Byte}
    (fewer : bytes.length < q.iovLen) :
    Progress q { q.store bytes with rdPos := q.rdPos + bytes.length } [] (q.pending ++ bytes) := by
  have room := iovLen_eq inv
  have fits : Buffer.Fits q.target q.rdPos bytes := by
    unfold Buffer.Fits
    omega
  have stored := Buffer.take_overwrite fits
  cases shape : q.rd with
  | none =>
      have short := iovLen_none shape (inv.header shape)
      simp only [target, shape] at fits stored
      refine ⟨⟨?_, ?_, ?_⟩, by simp only [store, shape], ?_,
        ⟨[], by simp only [store, shape, List.append_nil], rfl,
          fun _ member => absurd member List.not_mem_nil⟩⟩
      · simp only [store, shape]
        exact (Buffer.length_overwrite fits).trans inv.buf
      · intro _
        simp only
        omega
      · intro rd impossible
        simp only [store, shape] at impossible
        cases impossible
      · simp only [pending, target, store, shape]
        exact stored
  | some rd =>
      rcases inv.body rd shape with ⟨announced, known, inside⟩
      have long := iovLen_some inv shape
      simp only [target, shape] at fits stored
      refine ⟨⟨?_, ?_, ?_⟩, by simp only [store, shape], ?_,
        ⟨[], by simp only [store, shape, List.append_nil], rfl,
          fun _ member => absurd member List.not_mem_nil⟩⟩
      · simp only [store, shape]
        exact inv.buf
      · intro impossible
        simp only [store, shape] at impossible
        cases impossible
      · intro other same
        simp only [store, shape, Option.some.injEq] at same
        subst same
        refine ⟨?_, by simp only; omega, by simp only; omega⟩
        simp only [store, shape]
        exact announced.overwrite known fits _
      · simp only [pending, target, store, shape]
        exact stored

/-- Bytes stored up to the end of the packet being read complete it. -/
theorem store_finish {q : Recvq} (inv : q.Inv) {rd : RfPacket} (shape : q.rd = some rd)
    {bytes : List Byte} (exactly : bytes.length = rd.len - q.rdPos) :
    Progress q (q.store bytes).finish [q.pending ++ bytes] [] ∧
      (q.store bytes).finish.rd = none ∧ (q.store bytes).finish.rdPos = 0 := by
  rcases inv.body rd shape with ⟨announced, known, inside⟩
  have size := announced.size
  have fits : Buffer.Fits rd.data q.rdPos bytes := by
    unfold Buffer.Fits
    omega
  have whole : Buffer.overwrite rd.data q.rdPos bytes = q.pending ++ bytes := by
    have stored := Buffer.take_overwrite fits
    rw [List.take_of_length_le (by rw [Buffer.length_overwrite fits]; omega)] at stored
    rw [stored]
    simp only [pending, target, shape]
  have written := announced.overwrite known fits
    (Nat.le_trans rd.fits (Buffer.le_length_overwrite _ _ _))
  refine ⟨⟨⟨?_, ?_, ?_⟩, ?_, ?_, ?_⟩, ?_, ?_⟩
  · simp only [store, shape, finish]
    exact inv.buf
  · intro _
    simp only [store, shape, finish]
    decide
  · intro other impossible
    simp only [store, shape, finish] at impossible
    cases impossible
  · simp only [store, shape, finish]
  · simp only [pending, target, store, shape, finish, List.take_zero]
  · simp only [store, shape, finish, pqhPush]
    refine ⟨_, rfl, congrArg (fun data => [data]) whole, ?_⟩
    intro pkt member
    rw [List.mem_singleton.mp member]
    exact written
  · simp only [store, shape, finish]
  · simp only [store, shape, finish]

end Recvq

/-! ## The pieces of `recv` -/

namespace RecvState

open Recvq

/-- A point of `recv` reached with `frames` and then `rest` still to come: at
the next `readv` all of them are accounted for; inside the inner loop the
pending bytes and the unread bytes split into what is left. -/
inductive Advance (q : Recvq) (frames : List (List Byte)) (rest : List Byte) : RecvPoint -> Prop
  | reading (next : RecvState) (progress : Progress q next.q frames rest) :
      Advance q frames rest (.reading next)
  | extracting (next : RecvState) (p : List Byte) (done later : List (List Byte))
      (middle : List Byte) (progress : Progress q next.q done middle)
      (clean : next.q.rd = none -> next.q.rdPos = 0) (frames_eq : frames = done ++ later)
      (split : wireFormat.Splits (middle ++ p) later rest) :
      Advance q frames rest (.extracting next p)

/-- A header that announces more bytes is pending in the new packet. -/
theorem allocate_opens (s : RecvState) (buf : s.q.rdBuf.length = 4) {header : List Byte}
    (known : 4 ≤ header.length) (more : 4 < getInt16 header) :
    (s.allocate header 4).q.settle = (s.allocate header 4).q ∧
      Progress s.q (s.allocate header 4).q [] (header.take 4) := by
  have short : getInt16 header % 2 ^ 16 = getInt16 header := Nat.mod_eq_of_lt (getInt16_lt _)
  have long := Nat.le_of_lt more
  constructor
  · simp only [settle, allocate, pktNew, pktInit, short]
    exact if_neg (by omega)
  · refine ⟨⟨buf, fun impossible => (by cases impossible), ?_⟩, rfl, ?_,
      [], (List.append_nil _).symm, rfl, fun _ member => absurd member List.not_mem_nil⟩
    · intro rd same
      cases same
      refine ⟨announced_pktInit _ _ known long, Nat.le_refl _, ?_⟩
      simp only [allocate, pktNew, pktInit, short]
      omega
    · exact take_data_pktInit _ _ known long

/-- A header that is the whole packet completes it. -/
theorem allocate_completes (s : RecvState) (buf : s.q.rdBuf.length = 4) {header : List Byte}
    (known : 4 ≤ header.length) (whole : getInt16 header = 4) :
    (s.allocate header 4).q.settle = (s.allocate header 4).q.finish ∧
      Progress s.q (s.allocate header 4).q.finish [header.take 4] [] := by
  have short : getInt16 header % 2 ^ 16 = getInt16 header := Nat.mod_eq_of_lt (getInt16_lt _)
  have long : 4 ≤ getInt16 header := Nat.le_of_eq whole.symm
  have data : (pktInit s.pool.next (getInt16 header) (getInt16 (header.drop 2)) s.q.dir).data =
      header.take 4 := by
    rw [← take_data_pktInit s.pool.next s.q.dir known long, List.take_of_length_le]
    rw [length_data_pktInit, whole]
  constructor
  · simp only [settle, allocate, pktNew, pktInit, short]
    exact if_pos whole.symm
  · refine ⟨⟨buf, fun _ => Nat.zero_lt_succ 3, fun _ impossible => by cases impossible⟩, rfl, rfl,
      [_], rfl, congrArg (fun data => [data]) data, ?_⟩
    intro pkt member
    rw [List.mem_singleton.mp member]
    exact announced_pktInit s.pool.next s.q.dir known long

/-- A packet allocated for four received header bytes: it is queued at once if
the header is the whole packet, and the header is pending otherwise. -/
theorem allocate_spec (s : RecvState) (buf : s.q.rdBuf.length = 4) {header p rest : List Byte}
    {frames : List (List Byte)} (known : 4 ≤ header.length)
    (split : wireFormat.Splits (header.take 4 ++ p) frames rest) :
    Advance s.q frames rest
      (.extracting { s.allocate header 4 with q := (s.allocate header 4).q.settle } p) := by
  have four : (header.take 4).length = 4 := by
    rw [List.length_take, Nat.min_eq_left known]
  have size : wireFormat.size (header.take 4 ++ p) = getInt16 header := by
    change getInt16 _ = _
    rw [getInt16_append _ _ (by omega), getInt16_take _ (by decide)]
  have streamKnown : wireFormat.header ≤ (header.take 4 ++ p).length := by
    rw [List.length_append, four]
    exact Nat.le_add_right 4 _
  have long : 4 ≤ getInt16 header := by
    rcases split.of_header streamKnown with ⟨longer, _, _⟩ | ⟨long, _⟩
    · rw [size, List.length_append, four] at longer
      omega
    · exact size ▸ long
  by_cases whole : getInt16 header = 4
  · rcases allocate_completes s buf known whole with ⟨completed, progress⟩
    rcases split.of_header streamKnown with ⟨longer, _, _⟩ | ⟨_, _, later, frames_eq, tail⟩
    · rw [size, List.length_append, four] at longer
      omega
    · rw [size, whole, List.take_left' four] at frames_eq
      rw [size, whole, List.drop_left' four] at tail
      rw [completed]
      exact .extracting _ p [header.take 4] later [] progress (fun _ => rfl) frames_eq tail
  · rcases allocate_opens s buf known (by omega) with ⟨opened, progress⟩
    rw [opened]
    exact .extracting _ p [] frames (header.take 4) progress (fun impossible => by cases impossible)
      rfl split

/-- Where the bytes complete the packet that is read, it is the first frame, and
what follows splits into the others. -/
theorem split_at_room {q : Recvq} (inv : q.Inv) {rd : RfPacket} (shape : q.rd = some rd)
    {bytes rest : List Byte} {frames : List (List Byte)}
    (split : wireFormat.Splits (q.pending ++ bytes) frames rest)
    (enough : rd.len - q.rdPos ≤ bytes.length) :
    Exists fun later => frames = (q.pending ++ bytes.take (rd.len - q.rdPos)) :: later ∧
      wireFormat.Splits (bytes.drop (rd.len - q.rdPos)) later rest := by
  rcases inv.body rd shape with ⟨_, known, inside⟩
  have pendingLength := length_pending inv
  have size : wireFormat.size (q.pending ++ bytes) = rd.len := by
    rw [wireFormat.size_append _ _ (by rw [pendingLength]; exact known), size_pending inv shape]
  have streamKnown : wireFormat.header ≤ (q.pending ++ bytes).length := by
    rw [List.length_append, pendingLength]
    exact Nat.le_trans known (Nat.le_add_right _ _)
  rcases split.of_header streamKnown with ⟨longer, _, _⟩ | ⟨_, _, later, frames_eq, tail⟩
  · rw [size, List.length_append, pendingLength] at longer
    omega
  · have frontEq : (q.pending ++ bytes).take rd.len = q.pending ++ bytes.take (rd.len - q.rdPos) := by
      rw [List.take_append, pendingLength, List.take_of_length_le (by omega)]
    have backEq : (q.pending ++ bytes).drop rd.len = bytes.drop (rd.len - q.rdPos) := by
      rw [List.drop_append, pendingLength, List.drop_of_length_le (by omega), List.nil_append]
    rw [size, frontEq] at frames_eq
    rw [size, backEq] at tail
    exact ⟨later, frames_eq, tail⟩

/-- Between two packets, the spill buffer starts with a header, or with a part of one. -/
theorem extractBody_header {s : RecvState} {p rest : List Byte} {frames : List (List Byte)}
    (inv : s.q.Inv) (shape : s.q.rd = none) (zero : s.q.rdPos = 0) (more : p ≠ [])
    (split : wireFormat.Splits (s.q.pending ++ p) frames rest) :
    Exists fun point => s.extractBody p = some point ∧ Advance s.q frames rest point ∧
      forall next later, point = .extracting next later -> later.length < p.length := by
  have positive : 0 < p.length := List.length_pos_iff.mpr more
  have noPending : s.q.pending = [] := by
    rw [← List.length_eq_zero_iff, length_pending inv, zero]
  rw [noPending, List.nil_append] at split
  unfold extractBody
  rw [if_neg more]
  simp only [shape, zero]
  by_cases known : 4 ≤ p.length
  · rw [if_pos known]
    have joined : p.take 4 ++ p.drop 4 = p := List.take_append_drop 4 p
    refine ⟨_, rfl, allocate_spec s inv.buf known (by rwa [joined]), ?_⟩
    intro next later same
    cases same
    rw [List.length_drop]
    omega
  · rw [if_neg known]
    have fits : Buffer.Fits s.q.rdBuf 0 p := by
      simp only [Buffer.Fits, inv.buf]
      omega
    have fewer : p.length < s.q.iovLen := by
      rw [iovLen_none shape (by omega), zero]
      omega
    rcases split.of_short (Nat.lt_of_not_le known) with ⟨noFrames, same⟩
    have progress := store_pending inv fewer
    rw [noPending, List.nil_append, zero] at progress
    rw [if_pos fits]
    refine ⟨_, rfl, ?_, fun _ _ impossible => by cases impossible⟩
    rw [noFrames, same]
    exact .reading _ progress

/-- Inside a packet, the spill buffer continues it, or completes it. -/
theorem extractBody_packet {s : RecvState} {p rest : List Byte} {frames : List (List Byte)}
    (inv : s.q.Inv) {rd : RfPacket} (shape : s.q.rd = some rd) (more : p ≠ [])
    (split : wireFormat.Splits (s.q.pending ++ p) frames rest) :
    Exists fun point => s.extractBody p = some point ∧ Advance s.q frames rest point ∧
      forall next later, point = .extracting next later -> later.length < p.length := by
  have positive : 0 < p.length := List.length_pos_iff.mpr more
  rcases inv.body rd shape with ⟨announced, _, inside⟩
  rcases room_eq inv shape with ⟨room, roomInt⟩
  have dataSize := announced.size
  unfold extractBody
  rw [if_neg more]
  simp only [shape, copyLen, room, roomInt]
  by_cases enough : rd.len - s.q.rdPos ≤ p.length
  · have above : ¬ (p.length : Int) < ((rd.len - s.q.rdPos : Nat) : Int) := by omega
    have pieceLength : (p.take (rd.len - s.q.rdPos)).length = rd.len - s.q.rdPos := by
      rw [List.length_take]
      omega
    have fits : Buffer.Fits rd.data s.q.rdPos (p.take (rd.len - s.q.rdPos)) := by
      unfold Buffer.Fits
      omega
    rcases store_finish inv shape pieceLength with ⟨progress, _, atStart⟩
    have settled : ({ s.q.store (p.take (rd.len - s.q.rdPos)) with
        rdPos := s.q.rdPos + (rd.len - s.q.rdPos) } : Recvq).settle =
          (s.q.store (p.take (rd.len - s.q.rdPos))).finish := by
      simp only [settle, store, shape, finish]
      exact if_pos (by omega)
    rcases split_at_room inv shape split enough with ⟨later, frames_eq, tail⟩
    simp only [if_neg above, Int.toNat_natCast]
    rw [if_pos ⟨Int.natCast_nonneg _, fits⟩, settled]
    refine ⟨_, rfl, .extracting _ _ [_] later [] progress (fun _ => atStart) frames_eq tail, ?_⟩
    intro next later same
    cases same
    rw [List.length_drop]
    omega
  · have fewer : p.length < s.q.iovLen := by
      rw [iovLen_some inv shape]
      omega
    have below : (p.length : Int) < ((rd.len - s.q.rdPos : Nat) : Int) := by omega
    have fits : Buffer.Fits rd.data s.q.rdPos p := by
      unfold Buffer.Fits
      omega
    have progress := store_pending inv fewer
    have unsettled : ({ s.q.store p with rdPos := s.q.rdPos + p.length } : Recvq).settle =
        { s.q.store p with rdPos := s.q.rdPos + p.length } := by
      simp only [settle, store, shape]
      exact if_neg (by omega)
    simp only [if_pos below, Int.toNat_natCast, List.take_length, List.drop_length]
    rw [if_pos ⟨Int.natCast_nonneg _, fits⟩, unsettled]
    refine ⟨_, rfl, ?_, ?_⟩
    · refine .extracting _ [] [] frames (s.q.pending ++ p) progress ?_ rfl ?_
      · intro impossible
        simp only [store, shape] at impossible
        cases impossible
      · rw [List.append_nil]
        exact split
    · intro next later same
      cases same
      exact positive

/-- One iteration of the inner loop goes on, or leaves the loop. -/
theorem extractBody_spec {s : RecvState} {p rest : List Byte} {frames : List (List Byte)}
    (inv : s.q.Inv) (clean : s.q.rd = none -> s.q.rdPos = 0) (more : p ≠ [])
    (split : wireFormat.Splits (s.q.pending ++ p) frames rest) :
    Exists fun point => s.extractBody p = some point ∧ Advance s.q frames rest point ∧
      forall next later, point = .extracting next later -> later.length < p.length := by
  cases shape : s.q.rd with
  | none => exact extractBody_header inv shape (clean shape) more split
  | some rd => exact extractBody_packet inv shape more split

/-- The inner loop uses up the spill buffer. -/
theorem extract_spec (fuel : Nat) {s : RecvState} {p rest : List Byte} {frames : List (List Byte)}
    (enough : p.length ≤ fuel) (inv : s.q.Inv) (clean : s.q.rd = none -> s.q.rdPos = 0)
    (split : wireFormat.Splits (s.q.pending ++ p) frames rest) :
    Exists fun next => s.extract fuel p = some next ∧ Progress s.q next.q frames rest := by
  induction fuel generalizing s p frames with
  | zero =>
      have empty : p = [] := List.eq_nil_of_length_eq_zero (Nat.le_zero.mp enough)
      subst empty
      rw [List.append_nil] at split
      exact ⟨s, by simp [extract, extractBody], .of_pending inv split⟩
  | succ fuel inductionHypothesis =>
      by_cases empty : p = []
      · subst empty
        rw [List.append_nil] at split
        exact ⟨s, by simp [extract, extractBody], .of_pending inv split⟩
      · rcases extractBody_spec inv clean empty split with ⟨point, taken, advance, shorter⟩
        unfold extract
        rw [taken]
        cases advance with
        | reading next progress => exact ⟨next, rfl, progress⟩
        | extracting next later done last middle progress clean' frames_eq split' =>
            have fewer := shorter next later rfl
            rcases inductionHypothesis (by omega) progress.inv clean'
              (progress.pending_eq.symm ▸ split') with ⟨final, extracted, rest⟩
            exact ⟨final, extracted, frames_eq ▸ progress.trans rest⟩

/-- Bytes that fill the header buffer complete a header. -/
theorem rdBuf_store {q : Recvq} (inv : q.Inv) (shape : q.rd = none) {bytes : List Byte}
    (exactly : bytes.length = q.iovLen) :
    (q.store bytes).rdBuf = q.pending ++ bytes ∧ (q.store bytes).rdBuf.length = 4 := by
  have ends := iovLen_none shape (inv.header shape)
  have short := inv.header shape
  have fits : Buffer.Fits q.rdBuf q.rdPos bytes := by
    simp only [Buffer.Fits, inv.buf]
    omega
  have size : (q.store bytes).rdBuf.length = 4 := by
    simp only [store, shape]
    exact (Buffer.length_overwrite fits).trans inv.buf
  have copied := Buffer.take_overwrite fits
  rw [List.take_of_length_le (by rw [Buffer.length_overwrite fits, inv.buf]; omega)] at copied
  refine ⟨?_, size⟩
  simp only [store, shape, pending, target]
  exact copied

/-- The header is complete, and a packet is allocated for it. -/
theorem afterReadv_header {s : RecvState} {bytes rest : List Byte} {frames : List (List Byte)}
    (inv : s.q.Inv) (shape : s.q.rd = none) (filled : s.q.iovLen ≤ bytes.length)
    (split : wireFormat.Splits (s.q.pending ++ bytes) frames rest) :
    Advance s.q frames rest (.extracting
      { ({ s with q := s.q.store (bytes.take s.q.iovLen) }).allocate
          (s.q.store (bytes.take s.q.iovLen)).rdBuf 4 with
        q := (({ s with q := s.q.store (bytes.take s.q.iovLen) }).allocate
          (s.q.store (bytes.take s.q.iovLen)).rdBuf 4).q.settle }
      (bytes.drop s.q.iovLen)) := by
  have pieceLength : (bytes.take s.q.iovLen).length = s.q.iovLen := by
    rw [List.length_take, Nat.min_eq_left filled]
  rcases rdBuf_store inv shape pieceLength with ⟨stored, four⟩
  have joined : ((s.q.store (bytes.take s.q.iovLen)).rdBuf.take 4) ++ bytes.drop s.q.iovLen =
      s.q.pending ++ bytes := by
    rw [List.take_of_length_le (Nat.le_of_eq four), stored, List.append_assoc,
      List.take_append_drop]
  have samePq : (s.q.store (bytes.take s.q.iovLen)).pq = s.q.pq := by
    simp only [store, shape]
  have sameDir : (s.q.store (bytes.take s.q.iovLen)).dir = s.q.dir := by
    simp only [store, shape]
  cases allocate_spec { s with q := s.q.store (bytes.take s.q.iovLen) } four
      (Nat.le_of_eq four.symm) (joined.symm ▸ split) with
  | extracting _ _ done later middle progress clean frames_eq split =>
      refine .extracting _ _ done later middle ⟨progress.inv, progress.dir_eq.trans sameDir,
        progress.pending_eq, ?_⟩ clean frames_eq split
      rcases progress.queued with ⟨pkts, queued, data, announced⟩
      exact ⟨pkts, samePq ▸ queued, data, sameDir ▸ announced⟩

/-- The outer loop up to the inner one, for bytes that continue a legal stream. -/
theorem afterReadv_spec {s : RecvState} {bytes rest : List Byte} {frames : List (List Byte)}
    (inv : s.q.Inv) (possible : s.Possible (.received bytes))
    (split : wireFormat.Splits (s.q.pending ++ bytes) frames rest) :
    Exists fun point =>
      s.afterReadv (.received bytes) = some point ∧ Advance s.q frames rest point := by
  rcases iovLen_eq inv with ⟨positive, ends, same⟩
  have pendingLength := length_pending inv
  have fits : Buffer.Fits s.q.target s.q.rdPos (bytes.take s.q.iovLen) := by
    simp only [Buffer.Fits, List.length_take]
    omega
  simp only [afterReadv, same]
  rw [if_pos ⟨possible.1, possible.2, fits⟩]
  by_cases filled : s.q.iovLen ≤ bytes.length
  · have filledInt : (s.q.iovLen : Int) ≤ bytes.length := by omega
    rw [if_pos filledInt]
    have pieceLength : (bytes.take s.q.iovLen).length = s.q.iovLen := by
      rw [List.length_take, Nat.min_eq_left filled]
    cases shape : s.q.rd with
    | none => exact ⟨_, rfl, afterReadv_header inv shape filled split⟩
    | some rd =>
        have room := iovLen_some inv shape
        rcases store_finish inv shape (pieceLength.trans room) with ⟨progress, _, atStart⟩
        rcases split_at_room inv shape split (room ▸ filled) with ⟨later, frames_eq, tail⟩
        rw [← room] at frames_eq tail
        exact ⟨_, rfl, .extracting _ _ [_] later [] progress (fun _ => atStart) frames_eq tail⟩
  · have unfilled : bytes.length < s.q.iovLen := Nat.lt_of_not_le filled
    have unfilledInt : ¬ (s.q.iovLen : Int) ≤ bytes.length := by omega
    rw [if_neg unfilledInt, List.take_of_length_le (Nat.le_of_lt unfilled)]
    have progress := store_pending inv unfilled
    have pending := pending_isPending progress.inv
    rw [progress.pending_eq] at pending
    rcases split.unique (.of_pending pending) with ⟨noFrames, same⟩
    refine ⟨_, rfl, ?_⟩
    rw [noFrames, same]
    exact .reading _ progress

/-- One iteration of the outer loop takes the delivered bytes off the stream:
it never gets stuck on a legal stream, queues exactly the frames completed by
them, and keeps the rest pending. -/
theorem body_spec {s : RecvState} {result : ReadvResult} {rest : List Byte}
    {frames : List (List Byte)} (inv : s.q.Inv) (possible : s.Possible result)
    (split : wireFormat.Splits (s.q.pending ++ result.bytes) frames rest) :
    Exists fun next => Exists fun value =>
      s.body result = some (next, value) ∧ Progress s.q next.q frames rest := by
  have unchanged (nothing : result.bytes = []) : Progress s.q s.q frames rest := by
    rw [nothing, List.append_nil] at split
    exact .of_pending inv split
  cases result with
  | eof => exact ⟨s, _, rfl, unchanged rfl⟩
  | failed errno => cases errno <;> exact ⟨s, _, rfl, unchanged rfl⟩
  | received bytes =>
      rcases afterReadv_spec inv possible split with ⟨point, taken, advance⟩
      unfold body
      rw [taken]
      cases advance with
      | reading next progress => exact ⟨next, none, rfl, progress⟩
      | extracting next p done later middle progress clean frames_eq split' =>
          rcases extract_spec p.length (Nat.le_refl _) progress.inv clean
            (progress.pending_eq.symm ▸ split') with ⟨final, extracted, last⟩
          refine ⟨final, none, ?_, frames_eq ▸ progress.trans last⟩
          simp only [extracted, Option.map_some]

/-- Any number of reads, over any number of calls. -/
theorem run_spec {s : RecvState} {results : List ReadvResult} {rest : List Byte}
    {frames : List (List Byte)} (inv : s.q.Inv) (possible : Run.Meets step Possible s results)
    (split : wireFormat.Splits (s.q.pending ++ results.flatMap ReadvResult.bytes) frames rest) :
    Exists fun final => Run.run step s results = some final ∧ Progress s.q final.q frames rest := by
  induction results generalizing s frames with
  | nil =>
      rw [List.flatMap_nil, List.append_nil] at split
      rcases split.unique (.of_pending (pending_isPending inv)) with ⟨noFrames, same⟩
      refine ⟨s, rfl, ?_⟩
      rw [noFrames, same]
      exact .refl inv
  | cons result results inductionHypothesis =>
      rw [List.flatMap_cons, ← List.append_assoc] at split
      rcases split.cut with ⟨early, middle, late, front, back, joined⟩
      rcases body_spec inv possible.1 front with ⟨next, value, taken, progress⟩
      have stepped : s.step result = some next := by simp [step, taken]
      rcases inductionHypothesis progress.inv (possible.2 next stepped)
        (progress.pending_eq.symm ▸ back) with ⟨final, reached, last⟩
      exact ⟨final, Run.run_cons_eq_some.mpr ⟨next, stepped, reached⟩, joined ▸ progress.trans last⟩

end RecvState

/-- Framing is exact and independent of segmentation.  For every stream of
complete frames followed by a proper prefix of one more, and for every way in
which `readv` can deliver it over any number of calls of `recv`, the receive
queue gets through the stream; it then holds one packet for each frame, in
order, with its length, type and bytes, and exactly the prefix is pending. -/
theorem framing_exact (pool : Pool) (dir : Dir) (frames : List (List Byte)) (rest another : List Byte)
    (isFrame : forall frame, frame ∈ frames -> wireFormat.IsFrame frame)
    (isFrame' : wireFormat.IsFrame (rest ++ another)) (proper : another ≠ [])
    (results : List ReadvResult)
    (possible : Run.Meets RecvState.step RecvState.Possible (.start pool dir) results)
    (delivered : results.flatMap ReadvResult.bytes = frames.flatten ++ rest) :
    Exists fun final : RecvState =>
      Run.run RecvState.step (.start pool dir) results = some final ∧
        (final.q.pq.map fun pkt => (pkt.len, pkt.type, pkt.data)) =
          (frames.map fun frame => (frame.length, getInt16 (frame.drop 2), frame)) ∧
        (final.q.rd = none -> final.q.rdBuf.take final.q.rdPos = rest) ∧
        (forall rd, final.q.rd = some rd -> rd.data.take final.q.rdPos = rest) := by
  have pending : wireFormat.IsPending rest := by
    refine isFrame'.pending_of_prefix rfl ?_
    rw [List.length_append]
    have := List.length_pos_iff.mpr proper
    omega
  have split : wireFormat.Splits ((RecvState.start pool dir).q.pending ++
      results.flatMap ReadvResult.bytes) frames rest := by
    rw [delivered]
    exact ⟨rfl, isFrame, pending⟩
  rcases RecvState.run_spec (Recvq.inv_new dir) possible split with ⟨final, reached, progress⟩
  refine ⟨final, reached, ?_, ?_, ?_⟩
  · rcases progress.queued with ⟨pkts, queued, data, announced⟩
    have all : final.q.pq = pkts := queued
    rw [all, ← data, List.map_map]
    apply List.map_congr_left
    intro pkt member
    have fields := announced pkt member
    simp only [Function.comp, fields.size, ← fields.type_eq]
  · intro shape
    rw [← progress.pending_eq]
    simp only [Recvq.pending, Recvq.target, shape]
  · intro rd shape
    rw [← progress.pending_eq]
    simp only [Recvq.pending, Recvq.target, shape]

/-- Two frames and the first three bytes of a third one, in three reads that
cut a header and a body. -/
theorem framing_exact_three_reads :
    Exists fun final : RecvState =>
      Run.run RecvState.step (.start RefCount.Heap.empty srvToCli)
        [.received [5, 0, 1], .failed .eagain, .received [2, 9, 4, 0], .failed .eintr,
          .received [7, 7, 6, 0, 3]] = some final ∧
        (final.q.pq.map fun pkt => (pkt.len, pkt.type, pkt.data)) =
          [(5, 513, [5, 0, 1, 2, 9]), (4, 1799, [4, 0, 7, 7])] := by
  have frame (bytes : List Byte) (known : 4 ≤ bytes.length) (size : getInt16 bytes = bytes.length) :
      wireFormat.IsFrame bytes := ⟨known, size⟩
  have isFrame : forall bytes, bytes ∈ [[5, 0, 1, 2, 9], [4, 0, 7, 7]] ->
      wireFormat.IsFrame bytes := by
    intro bytes member
    simp only [List.mem_cons, List.not_mem_nil, or_false] at member
    rcases member with same | same <;> subst same <;> exact frame _ (by decide) (by decide)
  have exactly := framing_exact RefCount.Heap.empty srvToCli [[5, 0, 1, 2, 9], [4, 0, 7, 7]]
    [6, 0, 3] [0, 0, 0] isFrame (frame _ (by decide) (by decide)) (by decide)
    [.received [5, 0, 1], .failed .eagain, .received [2, 9, 4, 0], .failed .eintr,
      .received [7, 7, 6, 0, 3]]
    (by decide)
    (by decide)
  rcases exactly with ⟨final, reached, packets, _⟩
  exact ⟨final, reached, packets⟩

end Rfx
