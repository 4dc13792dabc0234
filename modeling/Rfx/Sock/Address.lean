import Rfx.Mconf.Printers
import Rfx.Mconf.RoundTrip

namespace Rfx
namespace Sock

open Mconf (digit digits digits_decimal snprintf strtol)
open RfxLoot (decimal isspace)

/-!
# Socket addresses

The model of `init_addr` and `addr2a` in `sock.c`, on a little-endian machine.  Names of hosts
are looked up by `gethostbyname`, which is a parameter here; the dots and digits of an address
are the name of a host, too.
-/

/-- The name in `addr_t`: a local one up to its zero, an internet address as it is in `sin_addr`
and `sin_port`, or one of another family. -/
inductive Name
  | file (path : List Byte)
  | inet (addr : UInt32) (port : UInt16)
  | unknown
  deriving DecidableEq

/-- `addr_t`. -/
structure AddrT where
  name : Name
  namelen : Nat
  aAddr : List Byte
  deriving DecidableEq

/-- `htons`. -/
def htons (p : UInt16) : UInt16 :=
  p <<< 8 ||| p >>> 8

/-- `isdigit`. -/
def isdigit (c : Byte) : Bool :=
  0x30 ≤ c && c ≤ 0x39

/-- `atoi`, which is `strtol` with base 10. -/
def atoi (s : List Byte) : UInt32 :=
  let s := s.dropWhile isspace
  let signed := s.head? = some 0x2d ∨ s.head? = some 0x2b
  let read := digits 10 0 (if signed then s.drop 1 else s)
  UInt32.ofInt (strtol ⟨s.head? = some 0x2d, read.1, read.2⟩).1

/-- `sizeof(name->sun_path)`. -/
def sunPathSize : Nat := 108

/-- `init_addr`; there is no result when it returns 1. -/
def initAddr (gethostbyname : List Byte -> Option UInt32) (astring : List Byte) : Option AddrT :=
  if text "file:" <+: astring then
    let path := (astring.drop 5).take (sunPathSize - 1)
    some ⟨.file path, 2 + path.length, astring⟩
  else
    let host := astring.takeWhile (· ≠ 0x3a)
    let colon := astring.dropWhile (· ≠ 0x3a)
    if colon ≠ [] ∨ astring.head?.any isdigit then
      (if colon ≠ [] ∧ host ≠ [] then gethostbyname host else some 0).map fun addr =>
        ⟨.inet addr (htons (atoi (if colon ≠ [] then colon.drop 1 else astring)).toUInt16), 16, astring⟩
    else none

/-- `"%u.%u.%u.%u"` with `IPn`. -/
def dotted (addr : UInt32) : List Byte :=
  decimal (addr &&& 0xff).toNat ++ 0x2e :: decimal ((addr >>> 8) &&& 0xff).toNat ++
    0x2e :: decimal ((addr >>> 16) &&& 0xff).toNat ++ 0x2e :: decimal ((addr >>> 24) &&& 0xff).toNat

/-- What `addr2a` prints, if it prints anything. -/
def addrText : Name -> Option (List Byte)
  | .file _ => none
  | .inet addr port => some (dotted addr ++ 0x3a :: decimal (htons port).toNat)
  | .unknown => some (text "<unknown>")

/-- `addr2a`: what is written to the buffer, and `*size`. -/
def addr2a (name : Name) (size : UInt32) : List Byte × UInt32 :=
  let l := ((addrText name).getD []).length.toUInt32
  (((addrText name).map (snprintf size.toNat)).getD [], if size ≤ l then size - 1 else l)

/-! ## Digits -/

theorem isdigit_of_mem_decimal {n : Nat} {c : Byte} (member : c ∈ decimal n) : isdigit c = true := by
  rcases List.mem_map.mp member with ⟨char, there, rfl⟩
  have range := Nat.isDigit_of_mem_toDigits (by decide) (by decide) there
  have all : forall n : Fin 58, 48 ≤ n.val -> isdigit n.val.toUInt8 = true := by decide
  rw [Char.isDigit, Bool.and_eq_true, decide_eq_true_eq, decide_eq_true_eq] at range
  have lower : 48 ≤ char.toNat := UInt32.le_iff_toNat_le.mp range.1
  have upper : char.toNat ≤ 57 := UInt32.le_iff_toNat_le.mp range.2
  exact all ⟨char.toNat, by omega⟩ lower

theorem length_decimal_le {n k : Nat} (positive : 0 < k) (small : n < 10 ^ k) :
    (decimal n).length ≤ k := by
  rw [decimal, List.length_map]
  exact (Nat.length_toDigits_le_iff (by decide) positive).mpr small

theorem htons_htons (p : UInt16) : htons (htons p) = p := by
  apply UInt16.eq_of_toBitVec_eq
  apply BitVec.eq_of_getLsbD_eq
  intro i small
  have beyond : p.toBitVec.getLsbD (8 + (8 + i)) = false := BitVec.getLsbD_of_ge _ _ (by omega)
  by_cases low : i < 8
  · have inside : 8 + i < 16 := by omega
    simp [htons, low, small, inside, beyond]
  · have back : 8 + (i - 8) = i := by omega
    have near : i - 8 < 8 := by omega
    have far : ¬ 8 + i < 16 := by omega
    simp [htons, low, small, beyond, back, near, far]

/-- Only digits and dots. -/
theorem mem_dotted {addr : UInt32} {c : Byte} (member : c ∈ dotted addr) : isdigit c = true ∨ c = 0x2e := by
  simp only [dotted, List.append_assoc, List.cons_append, List.mem_append, List.mem_cons] at member
  rcases member with first | rfl | second | rfl | third | rfl | fourth
  · exact Or.inl (isdigit_of_mem_decimal first)
  · exact Or.inr rfl
  · exact Or.inl (isdigit_of_mem_decimal second)
  · exact Or.inr rfl
  · exact Or.inl (isdigit_of_mem_decimal third)
  · exact Or.inr rfl
  · exact Or.inl (isdigit_of_mem_decimal fourth)

theorem atoi_decimal {n : Nat} (small : n < 2 ^ 32) : (atoi (decimal n)).toNat = n := by
  have first : Exists fun c => Exists fun rest => decimal n = c :: rest ∧ isdigit c = true := by
    cases shape : decimal n with
    | nil => exact absurd shape (Mconf.decimal_ne_nil n)
    | cons c rest =>
        have member : c ∈ decimal n := shape ▸ List.mem_cons_self
        exact ⟨c, rest, rfl, isdigit_of_mem_decimal member⟩
  rcases first with ⟨c, rest, shape, range⟩
  have plain : isspace c = false ∧ c ≠ 0x2d ∧ c ≠ 0x2b := by
    clear shape
    revert c
    apply forall_byte
    decide +kernel
  have skipped : (decimal n).dropWhile isspace = decimal n := by
    rw [shape, List.dropWhile_cons_of_neg (by rw [plain.1]; decide)]
  have head : (decimal n).head? = some c := by rw [shape]; rfl
  have minus : ¬ (decimal n).head? = some 0x2d := by
    rw [head]
    exact fun same => plain.2.1 (Option.some.inj same)
  have plus : ¬ (decimal n).head? = some 0x2b := by
    rw [head]
    exact fun same => plain.2.2 (Option.some.inj same)
  have value : (strtol ⟨false, n, []⟩).1 = n := by
    rw [strtol]
    simp only [Bool.false_eq_true, if_false]
    rw [if_neg (by rw [Mconf.longMax]; omega), if_neg (by rw [Mconf.longMin]; omega)]
  rw [atoi]
  simp only [skipped, minus, plus, or_self, if_false, digits_decimal, decide_false, value]
  rw [UInt32.ofInt]
  simp
  omega

/-! ## What is printed -/

theorem length_octet (addr : UInt32) (shift : UInt32) :
    (decimal ((addr >>> shift) &&& 0xff).toNat).length ≤ 3 := by
  apply length_decimal_le (by decide)
  rw [UInt32.toNat_and]
  exact Nat.lt_of_le_of_lt Nat.and_le_right (by decide)

/-- With its zero an address needs no more than 22 bytes. -/
theorem length_addrText (addr : UInt32) (port : UInt16) :
    (dotted addr ++ 0x3a :: decimal (htons port).toNat).length ≤ 21 := by
  have first := length_octet addr 0
  have second := length_octet addr 8
  have third := length_octet addr 16
  have fourth := length_octet addr 24
  have last : (decimal (htons port).toNat).length ≤ 5 :=
    length_decimal_le (by decide) (Nat.lt_trans (htons port).toNat_lt (by decide))
  rw [UInt32.shiftRight_zero] at first
  simp only [dotted, List.length_append, List.length_cons]
  omega

/-- What is printed is cut to the room in front of the zero, and `*size` is its length. -/
theorem addr2a_spec {name : Name} {s : List Byte} (text : addrText name = some s) (short : s.length < 2 ^ 32)
    {size : UInt32} (room : 0 < size) :
    (addr2a name size).1 = s.take (size.toNat - 1) ++ [0] ∧
      (addr2a name size).2.toNat = (s.take (size.toNat - 1)).length := by
  have positive : 0 < size.toNat := UInt32.lt_iff_toNat_lt.mp room
  have length : s.length.toUInt32.toNat = s.length := UInt32.toNat_ofNat_of_lt' short
  rw [addr2a, text]
  simp only [Option.map_some, Option.getD_some]
  constructor
  · rw [snprintf, Mconf.unsigned_natCast]
    cases count : size.toNat with
    | zero => omega
    | succ n => rfl
  · rw [List.length_take]
    split
    · rename_i cut
      have less := UInt32.le_iff_toNat_le.mp cut
      have one : (1 : UInt32) ≤ size := UInt32.le_iff_toNat_le.mpr positive
      rw [UInt32.toNat_sub_of_le _ _ one]
      change size.toNat - 1 = _
      omega
    · rename_i fits
      have more : ¬ size.toNat ≤ s.length.toUInt32.toNat := fun le => fits (UInt32.le_iff_toNat_le.mpr le)
      omega

/-- Without a buffer nothing is written, and `*size` wraps around. -/
theorem addr2a_zero (name : Name) : addr2a name 0 = ([], 0xffffffff) := by
  have nothing : ((addrText name).map (snprintf (0 : UInt32).toNat)).getD [] = [] := by
    cases addrText name with
    | none => rfl
    | some s => rfl
  rw [addr2a, nothing, if_pos (UInt32.le_iff_toNat_le.mpr (Nat.zero_le _))]
  rfl

/-- Only the name of a local address is not printed. -/
theorem addrText_of_ne_file {name : Name} (shown : forall path, name ≠ .file path) :
    Exists fun s => addrText name = some s ∧ s.length ≤ 21 := by
  cases name with
  | file path => exact absurd rfl (shown path)
  | inet addr port => exact ⟨_, rfl, length_addrText addr port⟩
  | unknown => exact ⟨_, rfl, by decide⟩

/-! ## What is read -/

/-- The text of an address is neither a local name nor without a port. -/
theorem initAddr_text {gethostbyname : List Byte -> Option UInt32} {addr : UInt32} (port : UInt16)
    (numeric : gethostbyname (dotted addr) = some addr) :
    initAddr gethostbyname (dotted addr ++ 0x3a :: decimal (htons port).toNat) =
      some ⟨.inet addr port, 16, dotted addr ++ 0x3a :: decimal (htons port).toNat⟩ := by
  have plain : forall c, c ∈ dotted addr -> c ≠ 0x3a ∧ c ≠ 0x66 := by
    intro c member
    have digit := mem_dotted member
    clear member
    revert c
    apply forall_byte
    decide +kernel
  have some : dotted addr ≠ [] := by
    rw [dotted]
    simp
  have colon : forall c, c ∈ dotted addr -> decide (c ≠ 0x3a) = true :=
    fun c member => decide_eq_true (plain c member).1
  have host : (dotted addr ++ 0x3a :: decimal (htons port).toNat).takeWhile (· ≠ 0x3a) = dotted addr := by
    rw [List.takeWhile_append_of_pos colon, List.takeWhile_cons_of_neg (by decide), List.append_nil]
  have behind : (dotted addr ++ 0x3a :: decimal (htons port).toNat).dropWhile (· ≠ 0x3a) =
      0x3a :: decimal (htons port).toNat := by
    rw [List.dropWhile_append_of_pos colon, List.dropWhile_cons_of_neg (by decide)]
  have notFile : ¬ text "file:" <+: dotted addr ++ 0x3a :: decimal (htons port).toNat := by
    cases shape : dotted addr with
    | nil => exact absurd shape some
    | cons c rest =>
        intro front
        have member : c ∈ dotted addr := shape ▸ List.mem_cons_self
        exact (plain c member).2 (List.cons_prefix_cons.mp front).1.symm
  have read : htons (atoi (decimal (htons port).toNat)).toUInt16 = port := by
    have value := atoi_decimal (Nat.lt_trans (htons port).toNat_lt (by decide))
    have same : (atoi (decimal (htons port).toNat)).toUInt16 = htons port := by
      apply UInt16.toNat_inj.mp
      rw [UInt32.toNat_toUInt16, value]
      exact Nat.mod_eq_of_lt (htons port).toNat_lt
    rw [same, htons_htons]
  rw [initAddr, if_neg notFile]
  simp only [host, behind]
  simp [some, numeric, read]

/-- Addresses are read back.  `addr2a` never writes behind the buffer.  If there is a buffer, it puts
a zero behind the length that it stores in `*size`, but for a local address, for which it writes
nothing; and without one the length wraps around.  With 22 bytes it has room for every internet
address; then `init_addr` reads what was printed as the same address and port, if `gethostbyname`
knows the address by its digits. -/
theorem printed_address_reads_back (gethostbyname : List Byte -> Option UInt32) (name : Name)
    (size : UInt32) :
    let shown := addr2a name size
    shown.1.length ≤ size.toNat ∧
      (0 < size -> (forall path, name ≠ .file path) -> shown.1[shown.2.toNat]? = some 0) ∧
      (0 < size -> forall path, name = .file path -> shown = ([], 0)) ∧
      (size = 0 -> shown.2 = 0xffffffff) ∧
      forall addr port, name = .inet addr port -> gethostbyname (dotted addr) = some addr ->
        22 ≤ size -> Exists fun read =>
          initAddr gethostbyname (shown.1.take shown.2.toNat) = some read ∧
            read.name = .inet addr port ∧ read.namelen = 16 := by
  intro shown
  have printed {s : List Byte} (text : addrText name = some s) (short : s.length ≤ 21) (room : 0 < size) :
      shown.1 = s.take (size.toNat - 1) ++ [0] ∧ shown.2.toNat = (s.take (size.toNat - 1)).length :=
    addr2a_spec text (by omega) room
  have file {path : List Byte} (isFile : name = .file path) (room : 0 < size) : shown = ([], 0) := by
    subst isFile
    have more : ¬ size ≤ (([] : List Byte).length).toUInt32 := UInt32.not_le.mpr room
    exact congrArg (Prod.mk []) (if_neg more)
  refine ⟨?_, fun room notFile => ?_, fun room path isFile => file isFile room, ?_, ?_⟩
  · by_cases room : 0 < size
    · have positive : 0 < size.toNat := UInt32.lt_iff_toNat_lt.mp room
      by_cases isFile : Exists fun path => name = .file path
      · rcases isFile with ⟨path, isFile⟩
        rw [file isFile room]
        exact Nat.zero_le _
      · rcases addrText_of_ne_file (not_exists.mp isFile) with ⟨s, text, short⟩
        rw [(printed text short room).1, List.length_append, List.length_take, List.length_singleton]
        omega
    · have none : size = 0 := UInt32.le_zero_iff.mp (UInt32.not_lt.mp room)
      subst none
      exact Nat.le_of_eq (congrArg (fun shown : List Byte × UInt32 => shown.1.length) (addr2a_zero name))
  · rcases addrText_of_ne_file notFile with ⟨s, text, short⟩
    rcases printed text short room with ⟨written, length⟩
    rw [written, length, List.getElem?_append_right (Nat.le_refl _), Nat.sub_self]
    rfl
  · rintro rfl
    exact congrArg Prod.snd (addr2a_zero name)
  · rintro addr port rfl numeric enough
    have fits : 22 ≤ size.toNat := UInt32.le_iff_toNat_le.mp enough
    have short := length_addrText addr port
    rcases printed rfl short (UInt32.lt_iff_toNat_lt.mpr (Nat.lt_of_lt_of_le (by decide) fits)) with
      ⟨written, length⟩
    have whole : shown.1.take shown.2.toNat = dotted addr ++ 0x3a :: decimal (htons port).toNat := by
      rw [written, length, List.take_left, List.take_of_length_le (by omega)]
    rw [whole]
    exact ⟨_, initAddr_text port numeric, rfl, rfl⟩

/-- The address of the server that `main` connects to; and what eight bytes have room for. -/
theorem printed_address_reads_back_server :
    (Exists fun read =>
      initAddr (fun host => if host = text "127.0.0.1" then some 0x100007f else none)
          ((addr2a (.inet 0x100007f 0x846c) 32).1.take (addr2a (.inet 0x100007f 0x846c) 32).2.toNat) =
        some read ∧ read.name = .inet 0x100007f 0x846c ∧ read.namelen = 16) ∧
      (addr2a (.inet 0x100007f 0x846c) 8).1 = text "127.0.0" ++ [0] ∧
      (addr2a (.inet 0x100007f 0x846c) 8).1[(addr2a (.inet 0x100007f 0x846c) 8).2.toNat]? = some 0 := by
  have reads (size : UInt32) :=
    printed_address_reads_back (fun host => if host = text "127.0.0.1" then some 0x100007f else none)
      (.inet 0x100007f 0x846c) size
  refine ⟨(reads 32).2.2.2.2 0x100007f 0x846c rfl (by decide) (by decide), by decide +kernel, ?_⟩
  exact (reads 8).2.1 (by decide) nofun

end Sock
end Rfx
