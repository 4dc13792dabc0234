import Rfx.Library.Scan
import Rfx.ShippedChain

namespace Rfx

open Library

/-!
# What the filters read of a packet

The chat filter looks for the message behind the nick, and the loot filter for
the id of an item.  The search for the message ends at the first place where the
byte is a colon *or* the next byte is a space, while the comment above it says
that it looks for a colon followed by a space.  Neither filter looks at the
length of the packet before it reads the first byte or the id, nor for the end
of the packet while it copies the message.
-/

namespace RfxChat

/-- A colon or a space: the loop over the message ends here. -/
def Stops (b c : Byte) : Prop :=
  b = 0x3a ∨ c = 0x20

/-- A colon and a space. -/
def Separates (b c : Byte) : Prop :=
  b = 0x3a ∧ c = 0x20

instance : DecidableRel Stops :=
  fun _ _ => inferInstanceAs (Decidable (_ ∨ _))

instance : DecidableRel Separates :=
  fun _ _ => inferInstanceAs (Decidable (_ ∧ _))

/-- The value of the pointer `msg`, unless it is the literal. -/
def msgStart (p : List Byte) : Option (List Byte) :=
  match seekMsg p with
  | _ :: _ :: b :: msg => some (b :: msg)
  | _ => none

theorem message_eq (p : List Byte) :
    message p = (match msgStart p with
      | some msg => cStr msg
      | none => some (text "<ERROR>")) := by
  match found : seekMsg p with
  | [] => simp only [message, msgStart, found]
  | [_] => simp only [message, msgStart, found]
  | [_, _] => simp only [message, msgStart, found]
  | _ :: _ :: _ :: _ => simp only [message, msgStart, found]

/-- The loop stops at the first place where it can. -/
theorem msgStart_eq (p : List Byte) : msgStart p = Scan.afterFirst Stops p := by
  induction p with
  | nil => rfl
  | cons b tail inductionHypothesis =>
      match tail, inductionHypothesis with
      | [], _ => rfl
      | [c], _ =>
          by_cases more : b ≠ 0x3a ∧ c ≠ 0x20
          · simp only [msgStart, seekMsg, if_pos more, Scan.afterFirst]
          · simp only [msgStart, seekMsg, if_neg more, Scan.afterFirst]
      | c :: d :: p, inductionHypothesis =>
          rw [msgStart, seekMsg, Scan.afterFirst, ← inductionHypothesis]
          by_cases stops : Stops b c
          · have ends : ¬ (b ≠ 0x3a ∧ c ≠ 0x20) := by
              rintro ⟨noColon, noSpace⟩
              exact stops.elim noColon noSpace
            rw [if_neg ends, if_pos stops]
          · rw [if_neg stops, if_pos (not_or.mp stops)]
            rfl

/-- The bytes of a nick and its end from the bytes behind the prefix. -/
def behindNick (nick : List Byte) : List Byte :=
  nick.drop (nickText nick).length

/-- What the filter finds, from the nick's text and the place of the message. -/
theorem parse_eq {body : List Byte} (inside : body ≠ []) :
    parse body = (match afterBrackets body with
      | none => some none
      | some nick => (message (behindNick nick)).map fun msg => some (nickText nick, msg)) := by
  have found (nick : List Byte) : (nickAndMsg nick).map some =
      (message (behindNick nick)).map fun msg => some (nickText nick, msg) := by
    rw [nickAndMsg, behindNick, nickLen_eq, Option.map_map, ← nickLen_eq, take_nickLen]
    rfl
  match body, inside with
  | b :: tail, _ =>
      by_cases opening : b = 0x5b
      · rw [parse, afterBrackets, if_pos opening, seekBracket_eq, if_pos (by rw [opening]; rfl)]
        generalize (b :: tail).dropWhile (· ≠ 0x5d) = closing
        match closing with
        | [] => rfl
        | [_] => rfl
        | _ :: c :: rest => exact found (c :: rest)
      · rw [parse, afterBrackets, if_neg opening, if_neg (by simpa using opening)]
        exact found (b :: tail)

/-! ## Reads -/

theorem cStr_isSome (p : List Byte) : (cStr p).isSome <-> 0 ∈ p := by
  induction p with
  | nil => simp [cStr]
  | cons b p inductionHypothesis =>
      by_cases ends : b = 0
      · simp [cStr, ends]
      · have other : ¬ (0 : Byte) = b := fun same => ends same.symm
        simp [cStr, ends, other, inductionHypothesis]

/-- The text that the loop over the message finds ends inside the packet. -/
def TextEnds (p : List Byte) : Prop :=
  forall msg, Scan.afterFirst Stops p = some msg -> 0 ∈ msg

theorem message_isSome (p : List Byte) : (message p).isSome <-> TextEnds p := by
  rw [message_eq, msgStart_eq, TextEnds]
  cases Scan.afterFirst Stops p with
  | none => simp
  | some msg => simp [cStr_isSome]

/-- A sent message whose nick starts inside the packet and whose text, if there
is any, ends there. -/
structure SentInside (pkt : RfPacket) (start : Nat) : Prop where
  nick : start < pkt.len
  text : forall nick, afterBrackets (pkt.wire.drop start) = some nick -> TextEnds (behindNick nick)

theorem parse_isSome (pkt : RfPacket) (start : Nat) :
    (parse (pkt.wire.drop start)).isSome <-> SentInside pkt start := by
  have length : (pkt.wire.drop start).length = pkt.len - start := by
    rw [List.length_drop, RfPacket.wire, List.length_take, Nat.min_eq_left pkt.fits]
  by_cases inside : start < pkt.len
  · have nonempty : pkt.wire.drop start ≠ [] := by
      apply List.length_pos_iff.mp
      omega
    rw [parse_eq nonempty]
    constructor
    · intro parsed
      refine ⟨inside, ?_⟩
      intro nick found
      rw [found] at parsed
      simpa [message_isSome] using parsed
    · intro bounded
      cases found : afterBrackets (pkt.wire.drop start) with
      | none => rfl
      | some nick => simpa [message_isSome] using bounded.text nick found
  · have empty : pkt.wire.drop start = [] := by
      apply List.eq_nil_of_length_eq_zero
      omega
    rw [empty]
    exact ⟨fun parsed => absurd parsed (by decide), fun bounded => absurd bounded.nick inside⟩

theorem sent_isSome (pkt : RfPacket) (desc : String) (code start : Nat) :
    (sent pkt desc code start).isSome <-> SentInside pkt start := by
  rw [sent, Option.isSome_map, parse_isSome]

end RfxChat

/-- The packet is long enough for what the filters read of its type. -/
structure ReadsFit (pkt : RfPacket) : Prop where
  whiteChat : pkt.type = RfxChat.whiteChatOut -> RfxChat.SentInside pkt 5
  privmsg : pkt.type = RfxChat.privmsgOut -> RfxChat.SentInside pkt 4
  item : IsItem pkt -> 6 ≤ pkt.len

theorem chat_isSome (pkt : RfPacket) :
    (RfxChat.processPkt pkt).isSome <->
      (pkt.type = RfxChat.whiteChatOut -> RfxChat.SentInside pkt 5) ∧
        (pkt.type = RfxChat.privmsgOut -> RfxChat.SentInside pkt 4) := by
  unfold RfxChat.processPkt
  split
  · rename_i whiteChat
    have other : ¬ pkt.type = RfxChat.privmsgOut := by
      rw [whiteChat]
      decide
    rw [RfxChat.sent_isSome]
    exact ⟨fun inside => ⟨fun _ => inside, fun privmsg => absurd privmsg other⟩,
      fun inside => inside.1 whiteChat⟩
  · rename_i other
    split
    · rename_i privmsg
      rw [RfxChat.sent_isSome]
      exact ⟨fun inside => ⟨fun whiteChat => absurd whiteChat other, fun _ => inside⟩,
        fun inside => inside.2 privmsg⟩
    · rename_i other'
      have total : (if pkt.type = RfxChat.privmsgIn then
          some [FltAct.store pkt.ptr (.desc "incoming chat message")] else some []).isSome := by
        split <;> rfl
      exact ⟨fun _ => ⟨fun whiteChat => absurd whiteChat other, fun privmsg => absurd privmsg other'⟩,
        fun _ => total⟩

theorem loot_isSome (lm : LootState) (pkt : RfPacket) :
    (RfxLoot.processPkt lm pkt).isSome <-> (IsItem pkt -> 6 ≤ pkt.len) := by
  have read (desc : String) : (RfxLoot.item lm pkt desc).isSome <-> 6 ≤ pkt.len := by
    unfold RfxLoot.item
    split
    · rename_i long
      exact ⟨fun _ => long, fun _ => rfl⟩
    · rename_i short
      exact ⟨fun read => absurd read (by decide), fun long => absurd long short⟩
  unfold RfxLoot.processPkt
  split
  · rename_i new
    rw [read]
    exact ⟨fun long _ => long, fun long => long (.inl new)⟩
  · rename_i notNew
    split
    · rename_i horizon
      rw [read]
      exact ⟨fun long _ => long, fun long => long (.inr horizon)⟩
    · rename_i notHorizon
      have other : ¬ IsItem pkt := not_or.mpr ⟨notNew, notHorizon⟩
      refine ⟨fun _ item => absurd item other, fun _ => ?_⟩
      split <;> rfl

/-- The filters read only inside the packet exactly if it is long enough for
what they expect in a packet of its type: a sent message has at least one byte
where the nick starts, and the text that is taken for the message has a NUL
before the end of the packet; an item has an id.  All other packets are safe. -/
theorem filters_read_inside_iff (lm : LootState) (pkt : RfPacket) :
    (RfxChat.processPkt pkt).isSome ∧ (RfxLoot.processPkt lm pkt).isSome <-> ReadsFit pkt := by
  rw [chat_isSome, loot_isSome]
  exact ⟨fun both => ⟨both.1.1, both.1.2, both.2⟩,
    fun fit => ⟨⟨fit.whiteChat, fit.privmsg⟩, fit.item⟩⟩

/-- A private message that consists of its header only. -/
theorem filters_read_outside :
    (RfxChat.processPkt (pktInit 0 4 0x0302 cliToSrv)).isSome = false := by
  decide

/-! ## The message -/

namespace RfxChat

/-- The first place with a colon or a space, if bytes follow it, has a colon
and a space. -/
def SeparatorFirst (p : List Byte) : Prop :=
  forall k, Scan.First Stops p k -> Scan.HoldsAt Separates p k

/-- The text that a pointer into the packet stands for. -/
def textAt : Option (List Byte) -> Option (List Byte)
  | some msg => cStr msg
  | none => some (text "<ERROR>")

/-- What the filter does with a message whose nick was found. -/
def sentActs (pkt : RfPacket) (desc : String) (code : Nat) (nick msg : List Byte) : List FltAct :=
  [.store pkt.ptr (.desc desc), .event code nick msg (some pkt.ptr), .store pkt.ptr (.shown true)]

/-- The two kinds of sent messages, with the offset of the nick. -/
inductive Sent (pkt : RfPacket) : String -> Nat -> Nat -> Prop
  | whiteChat (type_eq : pkt.type = whiteChatOut) :
      Sent pkt "white chat send from client" rfxevWchatSent 5
  | privmsg (type_eq : pkt.type = privmsgOut) :
      Sent pkt "private message send from client" rfxevPrivSent 4

theorem processPkt_of_sent {pkt : RfPacket} {desc : String} {code start : Nat}
    (kind : Sent pkt desc code start) : processPkt pkt = sent pkt desc code start := by
  cases kind with
  | whiteChat type_eq => rw [processPkt, if_pos type_eq]
  | privmsg type_eq =>
      have other : ¬ pkt.type = whiteChatOut := by
        rw [type_eq]
        decide
      rw [processPkt, if_neg other, if_pos type_eq]

theorem processPkt_of_nick {pkt : RfPacket} {desc : String} {code start : Nat}
    (kind : Sent pkt desc code start) (inside : start < pkt.len) {nick : List Byte}
    (found : afterBrackets (pkt.wire.drop start) = some nick) :
    processPkt pkt =
      (textAt (msgStart (behindNick nick))).map (sentActs pkt desc code (nickText nick)) := by
  have nonempty : pkt.wire.drop start ≠ [] := by
    apply List.length_pos_iff.mp
    rw [List.length_drop, RfPacket.wire, List.length_take, Nat.min_eq_left pkt.fits]
    omega
  have same : textAt (msgStart (behindNick nick)) = message (behindNick nick) := by
    rw [message_eq]
    cases msgStart (behindNick nick) <;> rfl
  rw [processPkt_of_sent kind, sent, parse_eq nonempty, found, same]
  simp only [Option.map_map]
  rfl

end RfxChat

/-- The message in the event of a sent message.  The filter takes for it the
text behind the first colon that a space follows exactly if no lone colon and
no lone space stands between the nick and that place; where there is no such
place, exactly if no lone one stands behind the nick at all.  Then the event has
that text up to the first NUL, or `<ERROR>` where there is none. -/
theorem message_behind_separator_iff {pkt : RfPacket} {desc : String} {code start : Nat}
    (kind : RfxChat.Sent pkt desc code start) (inside : start < pkt.len) {nick : List Byte}
    (found : RfxChat.afterBrackets (pkt.wire.drop start) = some nick) :
    (RfxChat.msgStart (RfxChat.behindNick nick) =
        Scan.afterFirst RfxChat.Separates (RfxChat.behindNick nick) <->
      RfxChat.SeparatorFirst (RfxChat.behindNick nick)) ∧
    RfxChat.processPkt pkt = (RfxChat.textAt (RfxChat.msgStart (RfxChat.behindNick nick))).map
      (RfxChat.sentActs pkt desc code (RfxChat.nickText nick)) ∧
    (RfxChat.SeparatorFirst (RfxChat.behindNick nick) ->
      RfxChat.processPkt pkt =
        (RfxChat.textAt (Scan.afterFirst RfxChat.Separates (RfxChat.behindNick nick))).map
          (RfxChat.sentActs pkt desc code (RfxChat.nickText nick))) := by
  have place : RfxChat.msgStart (RfxChat.behindNick nick) =
        Scan.afterFirst RfxChat.Separates (RfxChat.behindNick nick) <->
      RfxChat.SeparatorFirst (RfxChat.behindNick nick) := by
    rw [RfxChat.msgStart_eq]
    exact Scan.afterFirst_eq_iff (fun _ _ both => Or.inl both.1) _
  have acts := RfxChat.processPkt_of_nick kind inside found
  refine ⟨place, acts, ?_⟩
  intro separator
  rw [acts, place.mpr separator]

/-- A private message with a given body. -/
def privmsgPkt (body : List Byte) : RfPacket where
  ptr := 0
  len := 4 + body.length
  type := RfxChat.privmsgOut
  dir := cliToSrv
  drop := false
  shown := false
  delay := 0
  desc := none
  data := headerBytes (4 + body.length) RfxChat.privmsgOut ++ body
  fits := by rw [List.length_append, length_headerBytes]

/-- The usual form of a private message: the nick, a NUL, a length, the text. -/
theorem message_behind_separator_usual :
    RfxChat.processPkt (privmsgPkt (text "bob" ++ [0, 5] ++ text ": hi" ++ [0])) =
      some (RfxChat.sentActs (privmsgPkt (text "bob" ++ [0, 5] ++ text ": hi" ++ [0]))
        "private message send from client" rfxevPrivSent (text "bob") (text "hi")) := by
  have separator : RfxChat.SeparatorFirst
      (RfxChat.behindNick (text "bob" ++ [0, 5] ++ text ": hi" ++ [0])) := by
    have first : Scan.First RfxChat.Stops
        (RfxChat.behindNick (text "bob" ++ [0, 5] ++ text ": hi" ++ [0])) 2 :=
      .succ (by decide) (.succ (by decide) (.zero (by decide)))
    intro k other
    rw [other.unique first]
    exact ⟨0x3a, 0x20, rfl, rfl, rfl, rfl⟩
  exact (message_behind_separator_iff (.privmsg rfl) (by decide) rfl).2.2 separator

/-- The same message with a text of 32 bytes announced: its length is a space. -/
theorem message_with_lone_space :
    RfxChat.parse ((privmsgPkt (text "bob" ++ [0, 0x20] ++ text ": hi" ++ [0])).wire.drop 4) =
        some (some (text "bob", text ": hi")) ∧
      Scan.afterFirst RfxChat.Separates
        (RfxChat.behindNick (text "bob" ++ [0, 0x20] ++ text ": hi" ++ [0])) =
          some (text "hi" ++ [0]) := by
  decide

end Rfx
