import Rfx.Chat
import Rfx.RecvQueue.Framing

namespace Rfx
namespace RfxChat

open Library

/-!
# The reply packet

The data of a reply is written by several stores at computed positions.  They
replace one part of the zeroed data each, without a gap, so that the parts can be
read off in a row; the header says how long the row is.
-/

/-- The bytes of a message that a reply has room for. -/
def replyLen (msg : List Byte) : Nat :=
  min msg.length 240

/-- The stores into the data of a reply, with their positions. -/
def replyStores (nick msg : List Byte) : List (Nat × List Byte) :=
  [(4, tmpl), (4 + 5, strncpy nick 10),
    (tmpl.length + 4, [(replyLen msg + 2).toUInt8, 0x3a, 0x20]),
    (tmpl.length + 4 + 3, msg.take (replyLen msg)),
    (tmpl.length + 4 + 3 + replyLen msg, [0])]

/-- The template up to the nick. -/
def tmplFront : List Byte :=
  tmpl.take 5

/-- The template from the byte behind the nick on. -/
def tmplBack : List Byte :=
  tmpl.drop 15

/-- The parts of a reply in a row. -/
def replyParts (nick msg : List Byte) : List Byte :=
  headerBytes (32 + replyLen msg) privmsgIn ++ (tmplFront ++ (strncpy nick 10 ++ (tmplBack ++
    ([(replyLen msg + 2).toUInt8, 0x3a, 0x20] ++ (msg.take (replyLen msg) ++ [0])))))

theorem length_strncpy (s : List Byte) (n : Nat) : (strncpy s n).length = n := by
  have copied : ((s.takeWhile (· ≠ 0)).take n).length ≤ n := by
    rw [List.length_take]
    exact Nat.min_le_left _ _
  rw [strncpy, List.length_append, List.length_replicate]
  omega

theorem replyLen_le (msg : List Byte) : replyLen msg ≤ 240 :=
  Nat.min_le_right _ _

theorem length_take_replyLen (msg : List Byte) : (msg.take (replyLen msg)).length = replyLen msg := by
  rw [List.length_take]
  exact Nat.min_eq_left (Nat.min_le_left _ _)

theorem length_replyParts (nick msg : List Byte) :
    (replyParts nick msg).length = 32 + replyLen msg := by
  have front : tmplFront.length = 5 := rfl
  have behind : tmplBack.length = 9 := rfl
  simp only [replyParts, List.length_append, length_headerBytes, length_strncpy, front, behind,
    length_take_replyLen, List.length_cons, List.length_nil]
  omega

/-- Every store ends inside the data. -/
theorem replyStores_fit {nick msg : List Byte} {store : Nat × List Byte}
    (member : store ∈ replyStores nick msg) : store.1 + store.2.length ≤ 32 + replyLen msg := by
  have known : tmpl.length = 24 := rfl
  have strncpyLength := length_strncpy nick 10
  have bodyLength := length_take_replyLen msg
  simp only [replyStores, List.mem_cons, List.not_mem_nil, or_false] at member
  rcases member with rfl | rfl | rfl | rfl | rfl
  · change 4 + tmpl.length ≤ _
    omega
  · change 4 + 5 + (strncpy nick 10).length ≤ _
    omega
  · change tmpl.length + 4 + 3 ≤ _
    omega
  · change tmpl.length + 4 + 3 + (msg.take (replyLen msg)).length ≤ _
    omega
  · change tmpl.length + 4 + 3 + replyLen msg + 1 ≤ _
    omega

theorem reply_eq (nick msg : List Byte) : (reply nick msg).data =
    (replyStores nick msg).foldl (fun data store => Buffer.overwrite data store.1 store.2)
      (pktInit 0 (32 + replyLen msg) privmsgIn srvToCli).data := by
  have len : (if msg.length > 0xf0 then 0xf0 else msg.length) = replyLen msg := by
    rw [replyLen]
    split <;> omega
  have size : 4 + tmpl.length + 3 + replyLen msg + 1 = 32 + replyLen msg := by
    have known : tmpl.length = 24 := rfl
    omega
  simp only [reply, len, size]
  rfl

theorem len_reply (nick msg : List Byte) : (reply nick msg).len = 32 + replyLen msg := by
  have known : tmpl.length = 24 := rfl
  have small := replyLen_le msg
  change (4 + tmpl.length + 3 + (if msg.length > 0xf0 then 0xf0 else msg.length) + 1) % 2 ^ 16 = _
  rw [replyLen] at small ⊢
  split <;> omega

/-- The data before the stores, in the parts that they replace. -/
theorem data_pktInit_reply (msg : List Byte) :
    (pktInit 0 (32 + replyLen msg) privmsgIn srvToCli).data =
      headerBytes (32 + replyLen msg) privmsgIn ++ (List.replicate 24 0 ++ (List.replicate 3 0 ++
        (List.replicate (replyLen msg) 0 ++ List.replicate 1 0))) := by
  have zeros : (List.replicate (32 + replyLen msg - 4) 0 : List Byte) = List.replicate 24 0 ++
      (List.replicate 3 0 ++ (List.replicate (replyLen msg) 0 ++ List.replicate 1 0)) := by
    rw [← List.replicate_add, ← List.replicate_add, ← List.replicate_add]
    congr 1
    omega
  rw [← zeros]
  apply List.take_of_length_le
  rw [List.length_append, length_headerBytes, List.length_replicate]
  omega

/-- The stores put the parts in a row. -/
theorem data_reply (nick msg : List Byte) : (reply nick msg).data = replyParts nick msg := by
  have known : tmpl.length = 24 := rfl
  have template : tmpl = tmplFront ++ (List.replicate 10 0 ++ tmplBack) := rfl
  have front : tmplFront.length = 5 := rfl
  have behind : tmplBack.length = 9 := rfl
  have nickLength := length_strncpy nick 10
  have bodyLength := length_take_replyLen msg
  rw [reply_eq, data_pktInit_reply, replyParts, replyStores]
  simp only [List.foldl_cons, List.foldl_nil]
  generalize headerEq : headerBytes (32 + replyLen msg) privmsgIn = header
  generalize countEq : [(replyLen msg + 2).toUInt8, 0x3a, 0x20] = count
  generalize strncpy nick 10 = name at nickLength
  generalize msg.take (replyLen msg) = body at bodyLength
  have headLength : header.length = 4 := headerEq ▸ rfl
  have countLength : count.length = 3 := countEq ▸ rfl
  have first (back : List Byte) :
      Buffer.overwrite (header ++ (List.replicate 24 0 ++ back)) 4 tmpl =
        (header ++ tmplFront) ++ (List.replicate 10 0 ++ (tmplBack ++ back)) := by
    rw [Buffer.overwrite_middle (List.replicate 24 0) back headLength.symm known, template]
    simp only [List.append_assoc]
  have second (back : List Byte) :
      Buffer.overwrite ((header ++ tmplFront) ++ (List.replicate 10 0 ++ back)) (4 + 5) name =
        (header ++ tmplFront) ++ (name ++ back) := by
    refine Buffer.overwrite_middle (List.replicate 10 0) back ?_ nickLength
    rw [List.length_append, headLength, front]
  have third (back : List Byte) :
      Buffer.overwrite ((header ++ tmplFront) ++ (name ++ (tmplBack ++ (List.replicate 3 0 ++ back))))
          (tmpl.length + 4) count =
        (header ++ tmplFront ++ name ++ tmplBack ++ count) ++ back := by
    have here : tmpl.length + 4 = (header ++ tmplFront ++ name ++ tmplBack).length := by
      simp only [List.length_append, headLength, front, nickLength, behind, known]
    have stored := Buffer.overwrite_middle (List.replicate 3 0) back here countLength
    simp only [List.append_assoc] at stored ⊢
    exact stored
  have ends : (header ++ tmplFront ++ name ++ tmplBack ++ count).length = tmpl.length + 4 + 3 := by
    simp only [List.length_append, headLength, front, nickLength, behind, countLength, known]
  rw [first, second, third]
  generalize frontEq : header ++ tmplFront ++ name ++ tmplBack ++ count = written at ends
  have fourth (back : List Byte) :
      Buffer.overwrite (written ++ (List.replicate (replyLen msg) 0 ++ back)) (tmpl.length + 4 + 3) body =
        (written ++ body) ++ back := by
    rw [Buffer.overwrite_middle (List.replicate (replyLen msg) 0) back ends.symm
      (bodyLength.trans List.length_replicate.symm), List.append_assoc]
  have fifth : Buffer.overwrite ((written ++ body) ++ List.replicate 1 0)
      (tmpl.length + 4 + 3 + replyLen msg) [0] = (written ++ body) ++ [0] := by
    have here : tmpl.length + 4 + 3 + replyLen msg = (written ++ body).length := by
      rw [List.length_append, ends, bodyLength]
    exact Buffer.overwrite_middle [0] [] here rfl
  rw [fourth, fifth, ← frontEq]
  simp only [List.append_assoc]

/-- A packet that tells a message from a nick. -/
structure TellsReply (nick msg : List Byte) (pkt : RfPacket) : Prop where
  size : pkt.data.length = 32 + min msg.length 240
  len_eq : pkt.len = pkt.data.length
  header_len : getInt16 pkt.data = pkt.data.length
  type_eq : pkt.type = privmsgIn
  header_type : getInt16 (pkt.data.drop 2) = privmsgIn
  nick_eq : (pkt.data.drop 9).take 10 = (nick.takeWhile (· ≠ 0)).take 10 ++
    List.replicate (10 - ((nick.takeWhile (· ≠ 0)).take 10).length) 0
  nick_end : pkt.data[19]? = some 0
  count_eq : Exists fun b => pkt.data[28]? = some b ∧ b.toNat = min msg.length 240 + 2
  colon : pkt.data[29]? = some 0x3a
  blank : pkt.data[30]? = some 0x20
  body : (pkt.data.drop 31).take (min msg.length 240) = msg.take (min msg.length 240)
  last : pkt.data[31 + min msg.length 240]? = some 0

/-! ## Reading the parts off -/

theorem drop_replyParts_nick (nick msg : List Byte) :
    (replyParts nick msg).drop 9 = strncpy nick 10 ++ (tmplBack ++
      ([(replyLen msg + 2).toUInt8, 0x3a, 0x20] ++ (msg.take (replyLen msg) ++ [0]))) := by
  have front : tmplFront.length = 5 := rfl
  have start : (headerBytes (32 + replyLen msg) privmsgIn ++ tmplFront).length = 9 := by
    rw [List.length_append, length_headerBytes, front]
  rw [replyParts, ← List.append_assoc, List.drop_left' start]

theorem drop_replyParts_template (nick msg : List Byte) :
    (replyParts nick msg).drop 19 = tmplBack ++
      ([(replyLen msg + 2).toUInt8, 0x3a, 0x20] ++ (msg.take (replyLen msg) ++ [0])) := by
  have behind : (replyParts nick msg).drop 19 = ((replyParts nick msg).drop 9).drop 10 := by
    rw [List.drop_drop]
  rw [behind, drop_replyParts_nick, List.drop_left' (length_strncpy nick 10)]

theorem drop_replyParts_count (nick msg : List Byte) :
    (replyParts nick msg).drop 28 =
      (replyLen msg + 2).toUInt8 :: 0x3a :: 0x20 :: (msg.take (replyLen msg) ++ [0]) := by
  have behind : (replyParts nick msg).drop 28 = ((replyParts nick msg).drop 19).drop 9 := by
    rw [List.drop_drop]
  have template : tmplBack.length = 9 := rfl
  rw [behind, drop_replyParts_template, List.drop_left' template]
  rfl

theorem drop_replyParts_body (nick msg : List Byte) :
    (replyParts nick msg).drop 31 = msg.take (replyLen msg) ++ [0] := by
  have behind : (replyParts nick msg).drop 31 = ((replyParts nick msg).drop 28).drop 3 := by
    rw [List.drop_drop]
  rw [behind, drop_replyParts_count]
  rfl

/-- A packet whose data is the row of the parts tells the message. -/
theorem tellsReply_of_data {nick msg : List Byte} {pkt : RfPacket}
    (data : pkt.data = replyParts nick msg) (len : pkt.len = 32 + replyLen msg)
    (type : pkt.type = privmsgIn) : TellsReply nick msg pkt := by
  have size : pkt.data.length = 32 + replyLen msg := data ▸ length_replyParts nick msg
  have small := replyLen_le msg
  have bodyLength := length_take_replyLen msg
  have fields := getInt16_headerBytes (32 + replyLen msg) privmsgIn (tmplFront ++ (strncpy nick 10 ++
    (tmplBack ++ ([(replyLen msg + 2).toUInt8, 0x3a, 0x20] ++ (msg.take (replyLen msg) ++ [0])))))
  have template (i : Nat) := congrArg (fun bytes => bytes[i]?) (drop_replyParts_template nick msg)
  have count (i : Nat) := congrArg (fun bytes => bytes[i]?) (drop_replyParts_count nick msg)
  have body (i : Nat) := congrArg (fun bytes => bytes[i]?) (drop_replyParts_body nick msg)
  simp only [List.getElem?_drop, ← data] at template count body
  exact {
    size := size
    len_eq := len.trans size.symm
    header_len := by
      rw [size, data, replyParts, fields.1]
      exact Nat.mod_eq_of_lt (by omega)
    type_eq := type
    header_type := by
      rw [data, replyParts, fields.2]
      rfl
    nick_eq := by
      rw [data, drop_replyParts_nick, List.take_left' (length_strncpy nick 10)]
      rfl
    nick_end := template 0
    count_eq := by
      refine ⟨_, count 0, ?_⟩
      change (replyLen msg + 2) % 256 = replyLen msg + 2
      omega
    colon := count 1
    blank := count 2
    body := by
      rw [data, drop_replyParts_body]
      exact List.take_left' bodyLength
    last := by
      have behind := body (replyLen msg)
      rw [List.getElem?_append_right (Nat.le_of_eq bodyLength), bodyLength, Nat.sub_self] at behind
      exact behind }

/-- Whoever receives the bytes of a reply, in whatever pieces, receives the reply. -/
theorem received_reply {nick msg : List Byte} {pkt : RfPacket} (tells : TellsReply nick msg pkt)
    (pool : Pool) (dir : Dir) {results : List ReadvResult}
    (possible : Run.Meets RecvState.step RecvState.Possible (.start pool dir) results)
    (delivered : results.flatMap ReadvResult.bytes = pkt.wire) :
    Exists fun final : RecvState => Exists fun got : RfPacket =>
      Run.run RecvState.step (.start pool dir) results = some final ∧ final.q.pq = [got] ∧
        got.len = pkt.len ∧ got.type = pkt.type ∧ got.data = pkt.data ∧ final.q.pending = [] := by
  have whole : pkt.wire = pkt.data := by
    rw [RfPacket.wire, tells.len_eq, List.take_length]
  have isFrame : wireFormat.IsFrame pkt.data := by
    refine ⟨?_, tells.header_len⟩
    have size := tells.size
    change 4 ≤ pkt.data.length
    omega
  have split : wireFormat.Splits ((RecvState.start pool dir).q.pending ++
      results.flatMap ReadvResult.bytes) [pkt.data] [] := by
    rw [delivered, whole]
    refine ⟨?_, ?_, wireFormat.isPending_nil⟩
    · rw [List.flatten_singleton, List.append_nil]
      rfl
    · intro frame member
      rwa [List.mem_singleton.mp member]
  rcases RecvState.run_spec (Recvq.inv_new dir) possible split with ⟨final, reached, progress⟩
  rcases progress.queued with ⟨pkts, queued, dataEq, announced⟩
  rcases List.map_eq_singleton_iff.mp dataEq with ⟨got, rfl, same⟩
  have fields := announced got (List.mem_singleton_self got)
  refine ⟨final, got, reached, queued, ?_, ?_, same, progress.pending_eq⟩
  · rw [← fields.size, same, tells.len_eq]
  · rw [fields.type_eq, same, tells.header_type, tells.type_eq]

/-- A reply is one packet, pushed behind the others of `post`; all of its stores
stay inside its data; it tells the message; and whoever receives its bytes, in
whatever pieces, receives it. -/
theorem reply_encoding {σ : Type} (state : σ) (pool : Pool) (frame : FilterFrame)
    (source : Option Nat) (nick msg : List Byte) :
    Exists fun pkt : RfPacket =>
      (rfxChat.processEvent state frame ⟨rfxevSendReply, source, nick, msg⟩).bind
          (fun call => (applyAll pool frame call.acts).map fun done => (done, call.state, call.ret)) =
        some ((pool.alloc, { frame with post := pqhPush frame.post pkt }), state, .brk) ∧
      pkt.ptr = pool.next ∧ pkt.dir = srvToCli ∧ TellsReply nick msg pkt ∧
      pkt.data = (replyStores nick msg).foldl (fun data store => Buffer.overwrite data store.1 store.2)
        (pktInit pool.next (32 + replyLen msg) privmsgIn srvToCli).data ∧
      (forall store, store ∈ replyStores nick msg -> store.1 + store.2.length ≤ pkt.data.length) ∧
      (forall receiver dir results,
        Run.Meets RecvState.step RecvState.Possible (.start receiver dir) results ->
        results.flatMap ReadvResult.bytes = pkt.wire ->
        Exists fun final : RecvState => Exists fun got : RfPacket =>
          Run.run RecvState.step (.start receiver dir) results = some final ∧ final.q.pq = [got] ∧
            got.len = pkt.len ∧ got.type = privmsgIn ∧ got.data = pkt.data ∧ final.q.pending = []) := by
  have len : (reply nick msg).len = 32 + replyLen msg := len_reply nick msg
  have tells : TellsReply nick msg { reply nick msg with ptr := pool.next } :=
    tellsReply_of_data (data_reply nick msg) len rfl
  refine ⟨{ reply nick msg with ptr := pool.next }, rfl, rfl, rfl, tells, reply_eq nick msg, ?_, ?_⟩
  · intro store member
    rw [tells.size]
    exact replyStores_fit member
  · intro receiver dir results possible delivered
    exact received_reply tells receiver dir possible delivered

end RfxChat
end Rfx
