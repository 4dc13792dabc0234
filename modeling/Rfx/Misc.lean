import Rfx.Descriptor
import Rfx.Library.Buffer
import Rfx.Library.Loop
import Rfx.Loot

namespace Rfx
namespace Misc

open Library
open RfxLoot (isxdigit)

/-!
# Files, dumps and escapes

The model of `read_file_to_string`, `hexdump` and `uri_decode` of `misc.c`.  An access
to an array or a string behind its end is a fault.  What is in an array before it is
written to is arbitrary.
-/

/-! ## `read_file_to_string` -/

/-- The state of the loop: the buffer, and what the descriptor has not read yet. -/
structure Reading where
  str : List Byte
  pos : Nat
  rest : List Byte
  calls : Nat

/-- How it ends. -/
inductive FileRead
  | returned (str : List Byte)
  | aborted
  | fault

/-- The zero behind what was read. -/
def terminate (r : Reading) : FileRead :=
  match Buffer.store r.str r.pos 0 with
  | some str => .returned str
  | none => .fault

/-- A turn of the loop for a file that is there, of `size` bytes. -/
def readFileToString (script : Script) (size : Nat) : Reading -> Loop.Step Reading FileRead := fun r =>
  if r.pos < size then
    match script r.calls with
    | .failed .other => .done .aborted
    | .failed .eintr | .failed .eagain => .next { r with calls := r.calls + 1 }
    | .moved n =>
        let bytes := transfer n (min size r.rest.length)
        if bytes = 0 then .done (terminate r)
        else if Buffer.Fits r.str 0 (r.rest.take bytes) ∧ r.pos + bytes < 2 ^ 31 then
          .next ⟨Buffer.overwrite r.str 0 (r.rest.take bytes), r.pos + bytes, r.rest.drop bytes,
            r.calls + 1⟩
        else .done .fault
  else .done (terminate r)

/-! ## `uri_decode` -/

/-- `xdigit2i`, for hex digits. -/
def xdigit2i (c : Byte) : UInt32 :=
  if 0x30 ≤ c ∧ c ≤ 0x39 then c.toUInt32 - 0x30
  else if 0x41 ≤ c ∧ c ≤ 0x46 then c.toUInt32 - 0x41 + 10
  else c.toUInt32 - 0x61 + 10

/-- The condition that both loops have: a `%` with two hex digits behind it inside the source. -/
def isEscape (src : List Byte) (s : Nat) : Option Bool :=
  src[s]?.bind fun c =>
    if c = 0x25 ∧ s + 2 < src.length then
      src[s + 1]?.bind fun high => if isxdigit high then src[s + 2]?.map isxdigit else some false
    else some false

/-- The state of both loops. -/
structure Decoding where
  skipping : Bool
  s : Nat
  d : Nat
  dst : List Byte

/-- Write a byte, and go on behind `taken` bytes of the source. -/
def Decoding.put (u : Decoding) (byte : Byte) (taken : Nat) :
    Loop.Step Decoding (Option (UInt32 × List Byte)) :=
  match Buffer.store u.dst u.d byte with
  | some dst => .next ⟨false, u.s + taken, u.d + 1, dst⟩
  | none => .done none

/-- A turn of one of the two loops: the one that copies, until the destination is full, and the one
behind `skip_rest` that only counts. -/
def uriDecode (src : List Byte) : Decoding -> Loop.Step Decoding (Option (UInt32 × List Byte)) :=
    fun u =>
  if u.s < src.length then
    if u.skipping then
      match isEscape src u.s with
      | some true => .next { u with d := u.d + 1, s := u.s + 3 }
      | some false => .next { u with d := u.d + 1, s := u.s + 1 }
      | none => .done none
    else if u.dst.length ≤ u.d then .next { u with skipping := true }
    else
      match isEscape src u.s with
      | some true =>
          match src[u.s + 1]?, src[u.s + 2]? with
          | some high, some low => u.put ((xdigit2i high <<< 4) ||| xdigit2i low).toUInt8 3
          | _, _ => .done none
      | some false =>
          match src[u.s]? with
          | some c => u.put c 1
          | none => .done none
      | none => .done none
  else .done (some (u.d.toUInt32, u.dst))

/-! ## `hexdump` -/

def frame : Nat := 16

/-- The sizes of `hex` and `cc`. -/
def hexSize : Nat := 3 * frame + 2 * (frame - 1) / 4 + 1

def ccSize : Nat := frame + 1

/-- `xd[digit]`. -/
def xd (digit : Byte) : Byte :=
  (text "0123456789abcdef").getD digit.toNat 0

/-- The arrays of a turn, and the position in `hex`. -/
structure Columns where
  k : Nat
  hex : List Byte
  cc : List Byte

/-- The loop body for one byte: its digits, a separator behind every fourth byte but the last, and its
character. -/
def dumpByte (j : Nat) (c : Byte) (a : Columns) : Option Columns :=
  (Buffer.store a.hex a.k 0x20).bind fun hex =>
  (Buffer.store hex (a.k + 1) (xd (c >>> 4))).bind fun hex =>
  (Buffer.store hex (a.k + 2) (xd (c &&& 0xf))).bind fun hex =>
  (if (j + 1) % 4 = 0 ∧ j + 1 ≠ frame then
    (Buffer.store hex (a.k + 3) 0x20).bind fun hex =>
    (Buffer.store hex (a.k + 4) 0x7c).map fun hex => (a.k + 5, hex)
  else some (a.k + 3, hex)).bind fun put =>
  (Buffer.store a.cc j (if 0x20 ≤ c ∧ c ≤ 127 then c else 0x2e)).map fun cc =>
    ⟨put.1, put.2, cc⟩

/-- The inner loop, from byte number `j` of the frame on. -/
def dumpBytes : Nat -> List Byte -> Columns -> Option Columns
  | _, [], a => some a
  | j, c :: src, a => (dumpByte j c a).bind fun a => dumpBytes (j + 1) src a

/-- What `fprintf` prints for `%s`: the bytes in front of a zero in the array. -/
def cString (array : List Byte) : Option (List Byte) :=
  if 0 ∈ array then some (array.takeWhile fun c => c ≠ 0) else none

/-- What `fprintf` prints for `%08x`. -/
def hex8 (n : UInt32) : List Byte :=
  (List.range 8).reverse.map fun i => xd ((n >>> (4 * i).toUInt32) &&& 0xf).toUInt8

/-- A line of the dump. -/
structure Line where
  offset : UInt32
  hex : List Byte
  cc : List Byte

/-- `"%08x %s  %s\n"`. -/
def Line.print (line : Line) : List Byte :=
  hex8 line.offset ++ [0x20] ++ line.hex ++ [0x20, 0x20] ++ line.cc ++ [0x0a]

/-- What is behind the inner loop: spaces up to the end of `hex`, and the zeros. -/
def dumpLine (offset : UInt32) (sz : Nat) (a : Columns) : Option Line :=
  if a.k ≤ hexSize ∧ Buffer.Fits a.hex a.k (List.replicate (hexSize - a.k) 0x20) then
    (Buffer.store (Buffer.overwrite a.hex a.k (List.replicate (hexSize - a.k) 0x20))
      (hexSize - 1) 0).bind fun hex =>
    (Buffer.store a.cc sz 0).bind fun cc =>
    (cString hex).bind fun hex =>
    (cString cc).map fun cc => ⟨offset, hex, cc⟩
  else none

/-- What the arrays hold at the start of a turn. -/
abbrev Stack := UInt32 -> Vector Byte hexSize × Vector Byte ccSize

/-- The state of the outer loop: the position, and what was printed. -/
structure Dumping where
  i : UInt32
  out : List Byte

/-- A turn of the outer loop. -/
def hexdump (stack : Stack) (rel : UInt32) (data : List Byte) (size : UInt32) :
    Dumping -> Loop.Step Dumping (Option (List Byte)) := fun w =>
  if w.i < size then
    let sz := (if w.i + frame.toUInt32 < size then frame.toUInt32 else size - w.i).toNat
    let src := (data.drop w.i.toNat).take sz
    if src.length = sz then
      match (dumpBytes 0 src ⟨0, (stack w.i).1.toList, (stack w.i).2.toList⟩).bind
          (dumpLine (rel + w.i) sz) with
      | some line => .next ⟨w.i + frame.toUInt32, w.out ++ line.print⟩
      | none => .done none
    else .done none
  else .done (some w.out)

end Misc
end Rfx
