import Rfx.Chat

namespace Rfx

/-!
# The loot filter

The model of `rfx_loot.cpp`.  A mask has one bit for each of the 16-bit ids.
The drop lists that a command can name are files.
-/

/-- The content of the file that `fopen` finds under a name, if there is one. -/
abbrev Files := List Byte -> Option (List Byte)

/-- `loot_mask`. -/
structure LootMask where
  mask : Vector Byte 8192
  deriving DecidableEq

namespace LootMask

/-- The bit of an id in its byte. -/
def bit (idx : Nat) : Byte :=
  0x80 >>> (idx &&& 7).toUInt8

/-- The constructor. -/
def new (flag : Bool) : LootMask where
  mask := Vector.replicate 8192 (if flag then 0xff else 0)

/-- `set` for all ids. -/
def setAll (m : LootMask) (flag : Bool) : LootMask where
  mask := m.mask.map fun _ => if flag then 0xff else 0

/-- Is the bit of an id set? -/
def test (m : LootMask) (idx : Nat) : Bool :=
  if inside : idx >>> 3 < 8192 then bit idx &&& m.mask[idx >>> 3] ≠ 0 else false

/-- `set` for one id, with its previous value. -/
def set (m : LootMask) (idx : Nat) (flag : Bool) : LootMask × Bool :=
  if inside : idx >>> 3 < 8192 then
    let byte := m.mask[idx >>> 3]
    (⟨m.mask.set (idx >>> 3) (if flag then byte ||| bit idx else byte &&& ~~~bit idx)⟩,
      byte &&& bit idx ≠ 0)
  else (m, false)

/-- `operator +=`. -/
def add (m other : LootMask) : LootMask where
  mask := Vector.zipWith (fun a b => a ||| b) m.mask other.mask

/-- `operator -=`. -/
def sub (m other : LootMask) : LootMask where
  mask := Vector.zipWith (fun a b => a &&& ~~~b) m.mask other.mask

/-- How many bits are set? -/
def count (m : LootMask) : Nat :=
  (m.mask.toList.map fun byte => (List.range 8).countP fun j => bit j &&& byte ≠ 0).sum

/-- Load a mask from a file; a file that is too short fails. -/
def fload (files : Files) (name : List Byte) : Option LootMask :=
  (files name).bind fun content =>
    if complete : 8192 ≤ content.length then
      some ⟨⟨(content.take 8192).toArray, by simpa using complete⟩⟩
    else none

end LootMask

/-- `loot_state`. -/
structure LootState where
  shown : LootMask
  pick : LootMask
  deriving DecidableEq

/-- The constructor. -/
def LootState.new : LootState where
  shown := .new true
  pick := .new false

namespace RfxLoot

/-- `LOOT_DROP_NEW`. -/
def lootDropNew : Nat := 0x1403

/-- `LOOT_DROP_HORIZON`. -/
def lootDropHorizon : Nat := 0x0f04

/-- `LOOT_DISAPPEAR`. -/
def lootDisappear : Nat := 0x1c03

/-! ## Commands -/

/-- `isspace` in the C locale. -/
def isspace (c : Byte) : Bool :=
  c = 0x20 || (0x09 ≤ c && c ≤ 0x0d)

/-- `isxdigit` in the C locale. -/
def isxdigit (c : Byte) : Bool :=
  (0x30 ≤ c && c ≤ 0x39) || (0x61 ≤ c && c ≤ 0x66) || (0x41 ≤ c && c ≤ 0x46)

/-- The value of a hex digit. -/
def hex2i (digit : Byte) : Byte :=
  if 0x30 ≤ digit ∧ digit ≤ 0x39 then digit - 0x30
  else if 0x61 ≤ digit ∧ digit ≤ 0x66 then digit - 0x61 + 10
  else if 0x41 ≤ digit ∧ digit ≤ 0x46 then digit - 0x41 + 10
  else 0

/-- The loop that reads an id, which stops at the first other character. -/
def hexId : UInt32 -> List Byte -> UInt32
  | id, [] => id
  | id, c :: n => if isxdigit c then hexId ((id <<< 4) ||| (hex2i c).toUInt32) n else id

/-- The name of a drop list, as it fits into `fn`. -/
def fileName (name : List Byte) : List Byte :=
  (text "drop/list-" ++ name ++ text ".bin").take 63

/-- Make the mask that `n` stands for out of `m`. -/
def parseMask (files : Files) (m : LootMask) (n : List Byte) :
    Option LootMask :=
  if n = text "all" then some (m.setAll true)
  else if n = text "none" then some (m.setAll false)
  else if 1 < n.length ∧ n.head? = some 0x40 then LootMask.fload files (fileName (n.drop 1))
  else if 2 < n.length ∧ n.take 2 = text "0x" then
    some ((m.setAll false).set (hexId 0 (n.drop 2)).toNat true).1
  else none

/-- The empty text is no mask. -/
theorem named_of_parseMask {files : Files} {m d : LootMask}
    {n : List Byte} (parsed : parseMask files m n = some d) : n ≠ [] := by
  rintro rfl
  cases parsed

/-- `OP_SET`, `OP_ADD` and `OP_SUB`. -/
inductive Op
  | set
  | add
  | sub
  deriving DecidableEq

/-- The mask `nm` after an operation with `d`. -/
def Op.apply (nm d : LootMask) : Op -> LootMask
  | .set => d
  | .add => nm.add d
  | .sub => nm.sub d

/-- What a turn of the loop finds: an operation, the bytes that name a mask, and
the rest of the command. -/
structure Token where
  op : Op
  name : List Byte
  rest : List Byte
  deriving DecidableEq

/-- An optional sign. -/
def signed : List Byte -> Op × List Byte
  | [] => (.set, [])
  | c :: m => if c = 0x2b then (.add, m) else if c = 0x2d then (.sub, m) else (.set, c :: m)

/-- The bytes that can be part of a name. -/
def inName (c : Byte) : Bool :=
  c ≠ 0x2b && c ≠ 0x2d && !isspace c

/-- The next token, unless only spaces are left. -/
def nextToken (m : List Byte) : Option Token :=
  match m.dropWhile isspace with
  | [] => none
  | c :: m =>
      let found := signed (c :: m)
      some ⟨found.1, found.2.takeWhile inName, found.2.dropWhile inName⟩

theorem length_signed_le (m : List Byte) : (signed m).2.length ≤ m.length := by
  unfold signed
  split
  · exact Nat.le_refl _
  · split
    · exact Nat.le_succ _
    · split
      · exact Nat.le_succ _
      · exact Nat.le_refl _

/-- A token with a name uses up some of the command. -/
theorem length_rest_lt {m : List Byte} {token : Token} (next : nextToken m = some token)
    (named : token.name ≠ []) : token.rest.length < m.length := by
  unfold nextToken at next
  split at next
  · cases next
  · rename_i c tail skipped
    cases next
    have split : ((signed (c :: tail)).2.takeWhile inName).length +
        ((signed (c :: tail)).2.dropWhile inName).length = (signed (c :: tail)).2.length := by
      rw [← List.length_append, List.takeWhile_append_dropWhile]
    have positive : 0 < ((signed (c :: tail)).2.takeWhile inName).length :=
      List.length_pos_iff.mpr named
    have spaces : (c :: tail).length ≤ m.length := by
      rw [← skipped]
      exact (List.dropWhile_sublist _).length_le
    calc
      ((signed (c :: tail)).2.dropWhile inName).length < (signed (c :: tail)).2.length := by omega
      _ ≤ (c :: tail).length := length_signed_le _
      _ ≤ m.length := spaces

/-- The loop of `loot_cmd`, which ends without a mask when a token is wrong.
The mask that the tokens are read to is the same variable in all turns. -/
def cmdLoop (files : Files) (d nm : LootMask) (m : List Byte) :
    Option LootMask :=
  match _ : nextToken m with
  | none => some nm
  | some token =>
      match _ : parseMask files d token.name with
      | none => none
      | some d => cmdLoop files d (token.op.apply nm d) token.rest
termination_by m.length
decreasing_by
  apply length_rest_lt
  · assumption
  · apply named_of_parseMask
    assumption

/-- A number in decimal. -/
def decimal (n : Nat) : List Byte :=
  (Nat.toDigits 10 n).map fun c => c.toNat.toUInt8

/-- The reply to a command, as it fits into `reply`. -/
def cmdReply (nm : LootMask) : List Byte :=
  (text "ok, show = " ++ decimal nm.count ++ text ", ignore = " ++
    decimal (65536 - nm.count)).take 31

/-- The mask that a command asks for. -/
def cmdMask (files : Files) (lm : LootState) (msg : List Byte) :
    Option LootMask :=
  if msg = text "info" then some lm.shown
  else cmdLoop files (.new false) lm.shown (msg.takeWhile (· ≠ 0))

/-- `loot_cmd`: the state after a command, and the reply. -/
def lootCmd (files : Files) (lm : LootState) (msg : List Byte) :
    LootState × List Byte :=
  match cmdMask files lm msg with
  | none => (lm, text "can't parse loot mask")
  | some nm => ({ lm with shown := nm }, cmdReply nm)

/-! ## The filter -/

/-- An item is dropped unless its id is in the mask. -/
def item (lm : LootState) (pkt : RfPacket) (desc : String) : Option (List FltAct) :=
  if 6 ≤ pkt.len then
    some [.store pkt.ptr (.desc desc),
      .store pkt.ptr (.drop (!lm.shown.test (getInt16 (pkt.data.drop 4))))]
  else none

/-- `process` for a packet. -/
def processPkt (lm : LootState) (pkt : RfPacket) : Option (List FltAct) :=
  if pkt.type = lootDropNew then item lm pkt "new item on the ground"
  else if pkt.type = lootDropHorizon then item lm pkt "new item at the vision range"
  else if pkt.type = lootDisappear then
    some [.store pkt.ptr (.desc "loot disappear"), .store pkt.ptr (.shown true)]
  else some []

/-- The stores into the source of an event, if it has one. -/
def hideSource (ev : RfxEvent) : List FltAct :=
  match ev.source with
  | none => []
  | some ptr => [.store ptr (.drop true), .store ptr (.shown false)]

end RfxLoot

/-- `class rfx_loot`. -/
def rfxLoot (files : Files) : RfxFilter LootState where
  processPkt := fun lm frame =>
    (RfxLoot.processPkt lm frame.pkt).map fun acts => ⟨acts, lm, .decline⟩
  processEvent := fun lm _ ev =>
    if ev.what = rfxevPrivSent ∧ ev.nick = text "loot" then
      let done := RfxLoot.lootCmd files lm ev.msg
      some ⟨.event rfxevSendReply ev.nick done.2 none :: RfxLoot.hideSource ev, done.1, .brk⟩
    else some ⟨[], lm, .decline⟩

end Rfx
