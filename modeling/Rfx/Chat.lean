import Rfx.Filter
import Rfx.Library.Buffer

namespace Rfx

open Library

/-!
# The chat filter

The model of `rfx_chat.cpp`.  A pointer into a packet is the list of the bytes
from it to the end of the packet, so that `p < end` says that the list is not
empty.  A read at the end of the packet or behind it has no result.
-/

/-- The bytes of a string literal. -/
def text (s : String) : List Byte :=
  s.toList.map fun c => c.toNat.toUInt8

/-- The string up to the first NUL. -/
def cStr : List Byte -> Option (List Byte)
  | [] => none
  | b :: p => if b = 0 then some [] else (cStr p).map (b :: ·)

/-- `RFXEV_WCHAT_SENT`. -/
def rfxevWchatSent : Nat := 1

/-- `RFXEV_PRIV_SENT`. -/
def rfxevPrivSent : Nat := 3

/-- `RFXEV_SEND_REPLY`. -/
def rfxevSendReply : Nat := 5

namespace RfxChat

/-- `WHITE_CHAT_OUT`. -/
def whiteChatOut : Nat := 0x0202

/-- `PRIVMSG_OUT`. -/
def privmsgOut : Nat := 0x0302

/-- `PRIVMSG_IN`. -/
def privmsgIn : Nat := 0x0a02

/-! ## Parsing a sent message -/

/-- The loop that looks for `]`. -/
def seekBracket : List Byte -> List Byte
  | [] => []
  | b :: p => if b = 0x5d then b :: p else seekBracket p

/-- The loop that counts the bytes of the nick. -/
def nickLen : List Byte -> Nat
  | [] => 0
  | b :: p => if b ≠ 0 ∧ b ≠ 0x3a ∧ b ≠ 0x20 then nickLen p + 1 else 0

/-- The loop that looks for the start of the message. -/
def seekMsg : List Byte -> List Byte
  | b :: c :: p => if b ≠ 0x3a ∧ c ≠ 0x20 then seekMsg (c :: p) else b :: c :: p
  | p => p

/-- The message after a nick that ended at `p`. -/
def message (p : List Byte) : Option (List Byte) :=
  match seekMsg p with
  | _ :: _ :: b :: msg => cStr (b :: msg)
  | _ => some (text "<ERROR>")

/-- The nick that starts at `nick`, and the message. -/
def nickAndMsg (nick : List Byte) : Option (List Byte × List Byte) :=
  (message (nick.drop (nickLen nick))).map fun msg => (nick.take (nickLen nick), msg)

/-- What stands at `nick`: a nick and a message, or a format that the filter
does not know. -/
def parse (nick : List Byte) : Option (Option (List Byte × List Byte)) :=
  match nick with
  | [] => none
  | b :: _ =>
      if b = 0x5b then
        match seekBracket nick with
        | _ :: c :: rest => (nickAndMsg (c :: rest)).map some
        | _ => some none
      else (nickAndMsg nick).map some

/-- The common text of the two kinds of sent messages. -/
def sent (pkt : RfPacket) (desc : String) (code start : Nat) : Option (List FltAct) :=
  (parse (pkt.wire.drop start)).map fun
    | some (nick, msg) =>
        [.store pkt.ptr (.desc desc), .event code nick msg (some pkt.ptr),
          .store pkt.ptr (.shown true)]
    | none =>
        [.store pkt.ptr (.desc desc), .store pkt.ptr (.desc "UNKNOWN CHAT MESSAGE"),
          .store pkt.ptr (.shown true)]

/-- `process` for a packet. -/
def processPkt (pkt : RfPacket) : Option (List FltAct) :=
  if pkt.type = whiteChatOut then sent pkt "white chat send from client" rfxevWchatSent 5
  else if pkt.type = privmsgOut then sent pkt "private message send from client" rfxevPrivSent 4
  else if pkt.type = privmsgIn then some [.store pkt.ptr (.desc "incoming chat message")]
  else some []

/-! ## The reply -/

/-- What `strncpy` stores. -/
def strncpy (s : List Byte) (n : Nat) : List Byte :=
  let copied := (s.takeWhile (· ≠ 0)).take n
  copied ++ List.replicate (n - copied.length) 0

/-- `tmpl`. -/
def tmpl : List Byte :=
  [0x02, 0x11, 0x05, 0x00, 0x00,
    0, 0, 0, 0, 0, 0, 0, 0, 0, 0, 0,
    0xff, 0xff, 0xff, 0xff,
    0x00, 0x00, 0x01, 0x00]

/-- The data of the reply after each of the stores into it. -/
def replyData (data nick msg : List Byte) (l : Nat) : List Byte :=
  let data := Buffer.overwrite data 4 tmpl
  let data := Buffer.overwrite data (4 + 5) (strncpy nick 10)
  let data := Buffer.overwrite data (tmpl.length + 4) [(l + 2).toUInt8, 0x3a, 0x20]
  let data := Buffer.overwrite data (tmpl.length + 4 + 3) (msg.take l)
  Buffer.overwrite data (tmpl.length + 4 + 3 + l) [0]

theorem le_length_replyData (data nick msg : List Byte) (l : Nat) :
    data.length ≤ (replyData data nick msg l).length :=
  (Buffer.le_length_overwrite _ _ _).trans <| (Buffer.le_length_overwrite _ _ _).trans <|
    (Buffer.le_length_overwrite _ _ _).trans <| (Buffer.le_length_overwrite _ _ _).trans <|
      Buffer.le_length_overwrite _ _ _

/-- The packet that tells the client a message from `nick`. -/
def reply (nick msg : List Byte) : RfPacket :=
  let l := if msg.length > 0xf0 then 0xf0 else msg.length
  let pkt := pktInit 0 (4 + tmpl.length + 3 + l + 1) privmsgIn srvToCli
  { pkt with
    data := replyData pkt.data nick msg l
    fits := pkt.fits.trans (le_length_replyData _ _ _ _) }

end RfxChat

/-- `class rfx_chat`, which has no state. -/
def rfxChat {σ : Type} : RfxFilter σ where
  processPkt := fun state frame =>
    (RfxChat.processPkt frame.pkt).map fun acts => ⟨acts, state, .decline⟩
  processEvent := fun state _ ev =>
    if ev.what = rfxevSendReply then
      some ⟨[.push true (RfxChat.reply ev.nick ev.msg)], state, .brk⟩
    else some ⟨[], state, .decline⟩

/-! ## The nick -/

namespace RfxChat

/-- The bytes that end a nick. -/
def EndsNick (b : Byte) : Prop :=
  b = 0 ∨ b = 0x3a ∨ b = 0x20

instance (b : Byte) : Decidable (EndsNick b) :=
  inferInstanceAs (Decidable (_ ∨ _))

/-- The text up to the first byte that ends a nick. -/
def nickText (body : List Byte) : List Byte :=
  body.takeWhile fun b => ¬ EndsNick b

/-- What follows an optional prefix in brackets, if there is anything. -/
def afterBrackets (body : List Byte) : Option (List Byte) :=
  if body.head? = some 0x5b then
    match body.dropWhile (· ≠ 0x5d) with
    | _ :: c :: rest => some (c :: rest)
    | _ => none
  else some body

theorem seekBracket_eq (p : List Byte) : seekBracket p = p.dropWhile (· ≠ 0x5d) := by
  induction p with
  | nil => rfl
  | cons b p inductionHypothesis =>
      rw [seekBracket, List.dropWhile_cons, inductionHypothesis]
      by_cases close : b = 0x5d <;> simp [close]

theorem nickLen_eq (p : List Byte) : nickLen p = (nickText p).length := by
  induction p with
  | nil => rfl
  | cons b p inductionHypothesis =>
      rw [nickLen, nickText, List.takeWhile_cons, ← nickText]
      by_cases ends : EndsNick b
      · have stop : ¬ (b ≠ 0 ∧ b ≠ 0x3a ∧ b ≠ 0x20) := by
          rcases ends with ends | ends | ends <;> simp [ends]
        simp only [if_neg stop, ends]
        rfl
      · have more : b ≠ 0 ∧ b ≠ 0x3a ∧ b ≠ 0x20 := by
          simpa only [EndsNick, not_or] using ends
        simp only [if_pos more, ends, not_false_eq_true, decide_true, if_true, List.length_cons,
          inductionHypothesis]

theorem take_nickLen (p : List Byte) : p.take (nickLen p) = nickText p := by
  rw [nickLen_eq]
  exact (List.prefix_iff_eq_take.mp (List.takeWhile_prefix _)).symm

theorem nick_of_nickAndMsg {nick : List Byte} {found : Option (List Byte × List Byte)}
    (parsed : (nickAndMsg nick).map some = some found) :
    found.map Prod.fst = some (nickText nick) := by
  rcases Option.map_eq_some_iff.mp parsed with ⟨both, readEq, rfl⟩
  rcases Option.map_eq_some_iff.mp readEq with ⟨msg, _, rfl⟩
  rw [Option.map_some, take_nickLen]

/-- The nick that the filter finds is the text behind the optional prefix. -/
theorem nick_of_parse {body : List Byte} {found : Option (List Byte × List Byte)}
    (parsed : parse body = some found) :
    found.map Prod.fst = (afterBrackets body).map nickText := by
  unfold parse at parsed
  split at parsed
  · cases parsed
  · rename_i b tail
    split at parsed
    · rename_i opening
      rw [seekBracket_eq] at parsed
      rw [afterBrackets, if_pos (by rw [opening]; rfl)]
      split at parsed
      · exact nick_of_nickAndMsg parsed
      · cases parsed
        rfl
    · rename_i plain
      rw [afterBrackets, if_neg (by simpa using plain)]
      exact nick_of_nickAndMsg parsed

end RfxChat

end Rfx
