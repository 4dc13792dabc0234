import Mathlib.Algebra.Order.Ring.Nat
import Mathlib.Data.List.Perm.Basic
import Rfx.Library.Buffer
import Rfx.Library.RefCount

namespace Rfx

open Library

/-!
# Packets and packet queues

The model of `pktq.h` and `pktq.c`.  A packet is an allocated record with a
buffer of bytes behind it, reached through its address.  Its reference count is
not a field of the record here: two owners of one packet see one count, so the
counts live in the pool, by address, and `pktNew`, `pktRef` and `pktUnref` act
on the pool.  A queue is the list of the packets that are linked in it.

`dyn_desc` and the header of `pkt_dump` only serve the console and are not modelled.
-/

abbrev Byte := UInt8

/-- What holds for all 256 bytes holds for a byte. -/
theorem forall_byte {p : Byte -> Prop} (all : forall c : Fin 256, p c.val.toUInt8) (c : Byte) :
    p c := by
  have here := all ⟨c.toNat, c.toNat_lt⟩
  simp only [Nat.toUInt8_eq, UInt8.ofNat_toNat] at here
  exact here

/-- The two-bit field `dir`. -/
abbrev Dir := Fin 4

def cliToSrv : Dir := 0
def srvToCli : Dir := 1

/-- `WRIVCNT`, the number of entries of the vector a send queue writes from. -/
def wrivcnt : Nat := 64

/-- The allocator and all reference counts. -/
abbrev Pool := RefCount.Heap

/-- `GET_INT16`: two bytes, the low one first. -/
def getInt16 (p : List Byte) : Nat :=
  (p.getD 0 0).toNat ||| ((p.getD 1 0).toNat <<< 8)

theorem getInt16_eq (p : List Byte) :
    getInt16 p = (p.getD 0 0).toNat + 256 * (p.getD 1 0).toNat := by
  have low : (p.getD 0 0).toNat < 2 ^ 8 := UInt8.toNat_lt _
  rw [getInt16, Nat.or_comm, ← Nat.shiftLeft_add_eq_or_of_lt low, Nat.shiftLeft_eq]
  omega

theorem getInt16_lt (p : List Byte) : getInt16 p < 2 ^ 16 := by
  have low : (p.getD 0 0).toNat < 2 ^ 8 := UInt8.toNat_lt _
  have high : (p.getD 1 0).toNat < 2 ^ 8 := UInt8.toNat_lt _
  rw [getInt16_eq]
  omega

/-- The length field of a frame is read from its first two bytes only. -/
theorem getInt16_append (front back : List Byte) (known : 2 ≤ front.length) :
    getInt16 (front ++ back) = getInt16 front := by
  match front, known with
  | _ :: _ :: _, _ => rfl

/-- Only the first two bytes matter. -/
theorem getInt16_take (p : List Byte) {n : Nat} (known : 2 ≤ n) : getInt16 (p.take n) = getInt16 p := by
  match n, known with
  | n + 2, _ =>
      match p with
      | [] => rfl
      | [_] => rfl
      | _ :: _ :: _ => rfl

/-- `rf_packet`.  `len` and `type` are 16-bit fields; the source never lets
`len` exceed the bytes allocated behind the record. -/
structure RfPacket where
  ptr : Nat
  len : Nat
  type : Nat
  dir : Dir
  drop : Bool
  shown : Bool
  delay : Nat
  desc : Option String
  data : List Byte
  fits : len ≤ data.length
  deriving DecidableEq

/-- The bytes that stand for the packet on the wire. -/
def RfPacket.wire (pkt : RfPacket) : List Byte :=
  pkt.data.take pkt.len

/-- The wire bytes of a list of packets, one after the other. -/
def wireBytes (pkts : List RfPacket) : List Byte :=
  pkts.flatMap RfPacket.wire

@[simp] theorem wireBytes_nil : wireBytes [] = [] := rfl

@[simp] theorem wireBytes_cons (pkt : RfPacket) (pkts : List RfPacket) :
    wireBytes (pkt :: pkts) = pkt.wire ++ wireBytes pkts := rfl

@[simp] theorem wireBytes_append (first second : List RfPacket) :
    wireBytes (first ++ second) = wireBytes first ++ wireBytes second :=
  List.flatMap_append

/-- The four header bytes that `pkt_new` stores. -/
def headerBytes (len type : Nat) : List Byte :=
  [(len &&& 0xff).toUInt8, ((len >>> 8) &&& 0xff).toUInt8,
    (type &&& 0xff).toUInt8, ((type >>> 8) &&& 0xff).toUInt8]

@[simp] theorem length_headerBytes (len type : Nat) : (headerBytes len type).length = 4 := rfl

private theorem toUInt8_and (b : Byte) (n : Nat) (same : n % 256 = b.toNat) :
    (n &&& 0xff).toUInt8 = b := by
  rw [show (0xff : Nat) = 2 ^ 8 - 1 from rfl, Nat.and_two_pow_sub_one_eq_mod, same]
  exact UInt8.ofNat_toNat

/-- A header read back from four received bytes is stored as those bytes. -/
theorem headerBytes_getInt16 (a b c d : Byte) :
    headerBytes (getInt16 [a, b]) (getInt16 [c, d]) = [a, b, c, d] := by
  have bounds : a.toNat < 256 ∧ b.toNat < 256 ∧ c.toNat < 256 ∧ d.toNat < 256 :=
    ⟨UInt8.toNat_lt a, UInt8.toNat_lt b, UInt8.toNat_lt c, UInt8.toNat_lt d⟩
  have low (x y : Byte) (small : x.toNat < 256) : getInt16 [x, y] % 256 = x.toNat := by
    rw [getInt16_eq]
    simp only [List.getD_cons_zero, List.getD_cons_succ]
    omega
  have high (x y : Byte) (small : x.toNat < 256) (small' : y.toNat < 256) :
      (getInt16 [x, y] >>> 8) % 256 = y.toNat := by
    rw [getInt16_eq, Nat.shiftRight_eq_div_pow]
    simp only [List.getD_cons_zero, List.getD_cons_succ]
    omega
  simp only [headerBytes]
  rw [toUInt8_and a _ (low a b bounds.1), toUInt8_and b _ (high a b bounds.1 bounds.2.1),
    toUInt8_and c _ (low c d bounds.2.2.1), toUInt8_and d _ (high c d bounds.2.2.1 bounds.2.2.2)]

/-- Length and type as they are read back from the stored header. -/
theorem getInt16_headerBytes (len type : Nat) (rest : List Byte) :
    getInt16 (headerBytes len type ++ rest) = len % 2 ^ 16 ∧
      getInt16 ((headerBytes len type ++ rest).drop 2) = type % 2 ^ 16 := by
  have field (n : Nat) (bytes : List Byte) :
      getInt16 ((n &&& 0xff).toUInt8 :: ((n >>> 8) &&& 0xff).toUInt8 :: bytes) = n % 2 ^ 16 := by
    rw [getInt16_eq, Nat.shiftRight_eq_div_pow]
    simp only [List.getD_cons_zero, List.getD_cons_succ, Nat.toUInt8, UInt8.toNat_ofNat',
      show (0xff : Nat) = 2 ^ 8 - 1 from rfl, Nat.and_two_pow_sub_one_eq_mod]
    omega
  exact ⟨field len _, field type _⟩

/-- The record that `pkt_new` initialises at address `ptr`.  The buffer is
zeroed and its first four bytes hold the header; with fewer than four bytes
allocated the header store runs past the buffer, and only the bytes inside it
are part of the packet. -/
def pktInit (ptr len type : Nat) (dir : Dir) : RfPacket where
  ptr := ptr
  len := len % 2 ^ 16
  type := type % 2 ^ 16
  dir := dir
  drop := false
  shown := false
  delay := 0
  desc := none
  data := (headerBytes len type ++ List.replicate (len - 4) 0).take len
  fits := by
    have small : len % 2 ^ 16 ≤ len := Nat.mod_le _ _
    simp only [List.length_take, List.length_append, length_headerBytes, List.length_replicate]
    omega

@[simp] theorem length_data_pktInit (ptr len type : Nat) (dir : Dir) :
    (pktInit ptr len type dir).data.length = len := by
  simp only [pktInit, List.length_take, List.length_append, length_headerBytes,
    List.length_replicate]
  omega

/-- Creates a packet.  The length is supposed to include the packet header. -/
def pktNew (pool : Pool) (len type : Nat) (dir : Dir) : Pool × RfPacket :=
  (pool.alloc, pktInit pool.next len type dir)

/-- Increases the reference count. -/
def pktRef (pool : Pool) (pkt : RfPacket) : Pool :=
  pool.ref pkt.ptr

/-- Drops a reference; the packet is freed with its last one. -/
def pktUnref (pool : Pool) (pkt : RfPacket) : Pool :=
  pool.unref pkt.ptr

/-- `struct iovec` with its base inside the data of a packet.  The field
`inside` keeps the described bytes within the packet's buffer. -/
structure Iovec where
  pkt : RfPacket
  off : Nat
  len : Nat
  inside : off + len ≤ pkt.data.length
  deriving DecidableEq

namespace Iovec

/-- The entry that covers a whole packet. -/
def ofPacket (pkt : RfPacket) : Iovec :=
  ⟨pkt, 0, pkt.len, by have := pkt.fits; omega⟩

/-- The content of an entry that has never been written. -/
def unset : Iovec :=
  ofPacket (pktInit 0 0 0 cliToSrv)

/-- The described bytes. -/
def bytes (iov : Iovec) : List Byte :=
  (iov.pkt.data.drop iov.off).take iov.len

/-- Move the base forward over bytes that have been sent.  The source does so
only for fewer bytes than the entry has. -/
def advance (iov : Iovec) (sent : Nat) : Iovec where
  pkt := iov.pkt
  off := iov.off + min sent iov.len
  len := iov.len - sent
  inside := by have := iov.inside; omega

@[simp] theorem length_bytes (iov : Iovec) : iov.bytes.length = iov.len := by
  have := iov.inside
  simp only [bytes, List.length_take, List.length_drop]
  omega

@[simp] theorem bytes_ofPacket (pkt : RfPacket) : (ofPacket pkt).bytes = pkt.wire := rfl

theorem bytes_advance (iov : Iovec) {sent : Nat} (partly : sent ≤ iov.len) :
    (iov.advance sent).bytes = iov.bytes.drop sent := by
  simp only [bytes, advance, Nat.min_eq_left partly]
  rw [List.drop_take, List.drop_drop]

end Iovec

/-! ## Queues -/

/-- Appends a packet to the tail. -/
def pqhPush (pqh : List RfPacket) (pkt : RfPacket) : List RfPacket :=
  pqh ++ [pkt]

/-- Removes and releases the first packet. -/
def pqhDiscard (pool : Pool) : List RfPacket -> Pool × List RfPacket
  | [] => (pool, [])
  | pkt :: rest => (pktUnref pool pkt, rest)

/-- Releases every packet of a queue that is about to disappear. -/
def pqhClear (pool : Pool) (pqh : List RfPacket) : Pool :=
  pqh.foldl pktUnref pool

theorem pqhClear_append (pool : Pool) (first second : List RfPacket) :
    pqhClear pool (first ++ second) = pqhClear (pqhClear pool first) second :=
  List.foldl_append

/-- What `pqh_pull` leaves behind: the pool, both queues, and the entries it
wrote to `outv` (their number is its return value). -/
structure Pulled where
  pool : Pool
  src : List RfPacket
  dst : List RfPacket
  outv : List Iovec

namespace Pulled

/-- The packet stays in the source queue. -/
def keep (pulled : Pulled) (pkt : RfPacket) : Pulled :=
  { pulled with src := pkt :: pulled.src }

/-- The packet was described in `outv` before the remaining entries. -/
def describe (pulled : Pulled) (pkt : RfPacket) : Pulled :=
  { pulled with outv := .ofPacket pkt :: pulled.outv }

end Pulled

/-- Pulls packets of one direction from `src` to `dst`, with an entry of `outv`
for each, until `i` reaches `outvSz`.  Packets that are still to be delayed or
go the other way stay; packets marked `drop` are released. -/
def pqhPull (dir : Dir) (outvSz minDelay : Nat) :
    Nat -> Pool -> List RfPacket -> List RfPacket -> Pulled
  | _, pool, [], dst => ⟨pool, [], dst, []⟩
  | i, pool, p :: rest, dst =>
      if outvSz ≤ i then
        ⟨pool, p :: rest, dst, []⟩
      else if minDelay < p.delay then
        (pqhPull dir outvSz minDelay i pool rest dst).keep p
      else if p.dir = dir then
        if p.drop then
          pqhPull dir outvSz minDelay i (pktUnref pool p) rest dst
        else
          (pqhPull dir outvSz minDelay (i + 1) pool rest (pqhPush dst p)).describe p
      else
        (pqhPull dir outvSz minDelay i pool rest dst).keep p

/-- A packet that `pqh_pull` looks at with room in `outv` and does not keep. -/
def Eligible (dir : Dir) (minDelay : Nat) (pkt : RfPacket) : Prop :=
  pkt.delay ≤ minDelay ∧ pkt.dir = dir

/-- The fate of the packets of `src`: each is moved, released or kept, and the
order is kept inside each of the three lists. -/
structure Shares (dir : Dir) (minDelay : Nat) (src moved released kept : List RfPacket) :
    Prop where
  perm : src.Perm (moved ++ released ++ kept)
  moved_sublist : moved.Sublist src
  released_sublist : released.Sublist src
  kept_sublist : kept.Sublist src
  of_moved : forall pkt, pkt ∈ moved -> Eligible dir minDelay pkt ∧ pkt.drop = false
  of_released : forall pkt, pkt ∈ released -> Eligible dir minDelay pkt ∧ pkt.drop = true

namespace Shares

variable {dir : Dir} {minDelay : Nat} {src moved released kept : List RfPacket} {pkt : RfPacket}

theorem none (dir : Dir) (minDelay : Nat) (src : List RfPacket) :
    Shares dir minDelay src [] [] src where
  perm := List.Perm.refl _
  moved_sublist := List.nil_sublist _
  released_sublist := List.nil_sublist _
  kept_sublist := List.Sublist.refl _
  of_moved := fun _ member => absurd member List.not_mem_nil
  of_released := fun _ member => absurd member List.not_mem_nil

theorem keep (shares : Shares dir minDelay src moved released kept) :
    Shares dir minDelay (pkt :: src) moved released (pkt :: kept) where
  perm := (shares.perm.cons pkt).trans List.perm_middle.symm
  moved_sublist := shares.moved_sublist.cons pkt
  released_sublist := shares.released_sublist.cons pkt
  kept_sublist := shares.kept_sublist.cons_cons pkt
  of_moved := shares.of_moved
  of_released := shares.of_released

theorem move (eligible : Eligible dir minDelay pkt) (wanted : pkt.drop = false)
    (shares : Shares dir minDelay src moved released kept) :
    Shares dir minDelay (pkt :: src) (pkt :: moved) released kept where
  perm := shares.perm.cons pkt
  moved_sublist := shares.moved_sublist.cons_cons pkt
  released_sublist := shares.released_sublist.cons pkt
  kept_sublist := shares.kept_sublist.cons pkt
  of_moved := by
    intro other member
    rcases List.mem_cons.mp member with same | later
    · exact same ▸ ⟨eligible, wanted⟩
    · exact shares.of_moved other later
  of_released := shares.of_released

theorem release (eligible : Eligible dir minDelay pkt) (dropped : pkt.drop = true)
    (shares : Shares dir minDelay src moved released kept) :
    Shares dir minDelay (pkt :: src) moved (pkt :: released) kept where
  perm := by
    have inner : (pkt :: (moved ++ released ++ kept)).Perm (moved ++ (pkt :: released) ++ kept) := by
      simpa only [List.append_assoc, List.cons_append] using
        (@List.perm_middle _ pkt moved (released ++ kept)).symm
    exact (shares.perm.cons pkt).trans inner
  moved_sublist := shares.moved_sublist.cons pkt
  released_sublist := shares.released_sublist.cons_cons pkt
  kept_sublist := shares.kept_sublist.cons pkt
  of_moved := shares.of_moved
  of_released := by
    intro other member
    rcases List.mem_cons.mp member with same | later
    · exact same ▸ ⟨eligible, dropped⟩
    · exact shares.of_released other later

end Shares

/-- What one call of `pqh_pull` does, said once for all its callers. -/
theorem pqhPull_spec (dir : Dir) (outvSz minDelay i : Nat) (pool : Pool)
    (src dst : List RfPacket) :
    Exists fun moved => Exists fun released => Exists fun kept =>
      Shares dir minDelay src moved released kept ∧ moved.length ≤ outvSz - i ∧
        pqhPull dir outvSz minDelay i pool src dst =
          ⟨pqhClear pool released, kept, dst ++ moved, moved.map .ofPacket⟩ := by
  induction src generalizing i pool dst with
  | nil => exact ⟨[], [], [], .none _ _ _, Nat.zero_le _, by simp [pqhPull, pqhClear]⟩
  | cons p rest inductionHypothesis =>
      unfold pqhPull
      split
      · exact ⟨[], [], p :: rest, .none _ _ _, Nat.zero_le _, by simp [pqhClear]⟩
      · split
        · rcases inductionHypothesis i pool dst with ⟨moved, released, kept, shares, room, same⟩
          exact ⟨moved, released, p :: kept, shares.keep, room, by rw [same]; rfl⟩
        · rename_i room due
          split
          · rename_i towards
            have eligible : Eligible dir minDelay p := ⟨Nat.le_of_not_lt due, towards⟩
            split
            · rename_i dropped
              rcases inductionHypothesis i (pktUnref pool p) dst with
                ⟨moved, released, kept, shares, bound, same⟩
              exact ⟨moved, p :: released, kept, shares.release eligible dropped, bound, same⟩
            · rename_i wanted
              rcases inductionHypothesis (i + 1) pool (pqhPush dst p) with
                ⟨moved, released, kept, shares, bound, same⟩
              refine ⟨p :: moved, released, kept,
                shares.move eligible (Bool.eq_false_iff.mpr wanted), ?_, ?_⟩
              · rw [List.length_cons]
                omega
              · rw [same]
                simp [Pulled.describe, pqhPush]
          · rcases inductionHypothesis i pool dst with ⟨moved, released, kept, shares, bound, same⟩
            exact ⟨moved, released, p :: kept, shares.keep, bound, by rw [same]; rfl⟩

end Rfx
