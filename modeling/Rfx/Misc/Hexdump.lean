import Rfx.Misc.UriDecode

namespace Rfx
namespace Misc

open Library

/-!
# What a dump shows

The digits of every byte are printed with a space in front of them, and the position
in `hex` never gets beyond the last separator, so that the spaces behind it fill the
array up to its zero whatever the length of the frame.  A reader who skips spaces and
bars gets the dumped bytes back.
-/

/-! ## Reading a dump -/

/-- The characters between the digits. -/
def isSeparator (c : Byte) : Bool :=
  c = 0x20 || c = 0x7c

/-- Two digits are one byte. -/
def readPairs : List Byte -> List Byte
  | high :: low :: rest => hexByte high low :: readPairs rest
  | _ => []

/-- Read the digits of hex columns. -/
def readHex (hex : List Byte) : List Byte :=
  readPairs (hex.filter fun c => !isSeparator c)

/-- The digits of bytes. -/
def hexDigits (bytes : List Byte) : List Byte :=
  bytes.flatMap fun c : Byte => [xd (c >>> 4), xd (c &&& 0xf)]

theorem hexByte_xd (c : Byte) : hexByte (xd (c >>> 4)) (xd (c &&& 0xf)) = c := by
  revert c
  apply forall_byte
  decide +kernel

theorem readPairs_hexDigits (bytes : List Byte) : readPairs (hexDigits bytes) = bytes := by
  induction bytes with
  | nil => rfl
  | cons c bytes inductionHypothesis =>
      change hexByte _ _ :: readPairs (hexDigits bytes) = _
      rw [hexByte_xd, inductionHypothesis]

/-- A digit is none of the other characters of `hex`. -/
theorem xd_spec (c : Byte) :
    (isSeparator (xd (c >>> 4)) = false ∧ xd (c >>> 4) ≠ 0) ∧
      isSeparator (xd (c &&& 0xf)) = false ∧ xd (c &&& 0xf) ≠ 0 := by
  revert c
  apply forall_byte
  decide +kernel

/-! ## The column of a frame -/

/-- What is printed for byte number `j` of a frame. -/
def cell (j : Nat) (c : Byte) : List Byte :=
  [0x20, xd (c >>> 4), xd (c &&& 0xf)] ++
    if (j + 1) % 4 = 0 ∧ j + 1 ≠ frame then [0x20, 0x7c] else []

/-- What is printed for the bytes from number `j` on. -/
def cells : Nat -> List Byte -> List Byte
  | _, [] => []
  | j, c :: src => cell j c ++ cells (j + 1) src

/-- The position in front of byte number `j`. -/
def position (j : Nat) : Nat :=
  3 * j + 2 * (min j (frame - 1) / 4)

theorem position_succ {j : Nat} (inside : j < frame) (c : Byte) :
    position (j + 1) = position j + (cell j c).length := by
  unfold position cell
  unfold frame at inside ⊢
  rw [List.length_append]
  split
  · simp only [List.length_cons, List.length_nil]
    omega
  · simp only [List.length_cons, List.length_nil]
    omega

theorem filter_cell (j : Nat) (c : Byte) :
    (cell j c).filter (fun c => !isSeparator c) = [xd (c >>> 4), xd (c &&& 0xf)] := by
  have digits := xd_spec c
  have space : isSeparator 0x20 = true := rfl
  have bar : isSeparator 0x7c = true := rfl
  unfold cell
  split <;> simp [digits.1.1, digits.2.1, space, bar]

theorem filter_cells (j : Nat) (src : List Byte) :
    (cells j src).filter (fun c => !isSeparator c) = hexDigits src := by
  induction src generalizing j with
  | nil => rfl
  | cons c src inductionHypothesis =>
      rw [cells, List.filter_append, filter_cell, inductionHypothesis]
      rfl

theorem zero_not_mem_cells (j : Nat) (src : List Byte) : 0 ∉ cells j src := by
  induction src generalizing j with
  | nil => exact List.not_mem_nil
  | cons c src inductionHypothesis =>
      have digits := xd_spec c
      have notHere : 0 ∉ cell j c := by
        unfold cell
        split <;> simp [digits.1.2.symm, digits.2.2.symm]
      rw [cells, List.mem_append]
      rintro (here | later)
      · exact notHere here
      · exact inductionHypothesis (j + 1) later

/-! ## The arrays -/

/-- The character that stands for a byte. -/
def shownChar (c : Byte) : Byte :=
  if 0x20 ≤ c ∧ c ≤ 127 then c else 0x2e

theorem zero_not_mem_chars (src : List Byte) : 0 ∉ src.map shownChar := by
  intro zero
  rcases List.mem_map.mp zero with ⟨c, -, same⟩
  unfold shownChar at same
  split at same
  · next printable =>
      rw [same] at printable
      exact absurd printable.1 (by decide)
  · cases same

/-- What the arrays hold of the columns in front of byte number `j`. -/
structure Dumped (j : Nat) (column chars : List Byte) (a : Columns) : Prop where
  hex : Buffer.Starts a.hex hexSize column
  cc : Buffer.Starts a.cc ccSize chars
  k : a.k = column.length
  behind : column.length = position j
  chars : chars.length = j

/-- The digits and the separator are written inside `hex`. -/
theorem Dumped.digits {j : Nat} {column chars : List Byte} {a : Columns}
    (dumped : Dumped j column chars a) (inside : j < frame) (c : Byte) :
    Exists fun hex => Buffer.Starts hex hexSize (column ++ cell j c) ∧ forall cc,
      Buffer.store a.cc j (shownChar c) = some cc ->
        dumpByte j c a = some ⟨(column ++ cell j c).length, hex, cc⟩ := by
  have room : position j + 5 ≤ hexSize := by
    unfold position hexSize
    unfold frame at inside ⊢
    omega
  have behind := dumped.behind
  have k := dumped.k
  rcases dumped.hex.store k (by omega) 0x20 with ⟨hex1, stored1, starts1⟩
  have next1 : a.k + 1 = (column ++ [(0x20 : Byte)]).length := by simp [k]
  rcases starts1.store next1 (by omega) (xd (c >>> 4)) with ⟨hex2, stored2, starts2⟩
  have next2 : a.k + 2 = (column ++ [(0x20 : Byte)] ++ [xd (c >>> 4)]).length := by simp [k]
  rcases starts2.store next2 (by omega) (xd (c &&& 0xf)) with ⟨hex3, stored3, starts3⟩
  have next3 : a.k + 3 =
      (column ++ [(0x20 : Byte)] ++ [xd (c >>> 4)] ++ [xd (c &&& 0xf)]).length := by simp [k]
  by_cases bar : (j + 1) % 4 = 0 ∧ j + 1 ≠ frame
  · rcases starts3.store next3 (by omega) 0x20 with ⟨hex4, stored4, starts4⟩
    have next4 : a.k + 4 =
        (column ++ [(0x20 : Byte)] ++ [xd (c >>> 4)] ++ [xd (c &&& 0xf)] ++ [0x20]).length := by
      simp [k]
    rcases starts4.store next4 (by omega) 0x7c with ⟨hex5, stored5, starts5⟩
    have all : column ++ cell j c =
        column ++ [(0x20 : Byte)] ++ [xd (c >>> 4)] ++ [xd (c &&& 0xf)] ++ [0x20] ++ [0x7c] := by
      rw [cell, if_pos bar]
      simp
    refine ⟨hex5, all ▸ starts5, ?_⟩
    intro cc stored
    have length : (column ++ cell j c).length = a.k + 5 := by
      rw [all, List.length_append, ← next4]
      rfl
    unfold shownChar at stored
    simp only [dumpByte, stored1, stored2, stored3, stored4, stored5, stored, if_pos bar,
      Option.bind_some, Option.map_some, length]
  · have all : column ++ cell j c =
        column ++ [(0x20 : Byte)] ++ [xd (c >>> 4)] ++ [xd (c &&& 0xf)] := by
      rw [cell, if_neg bar]
      simp
    refine ⟨hex3, all ▸ starts3, ?_⟩
    intro cc stored
    have length : (column ++ cell j c).length = a.k + 3 := by
      rw [all, ← next3]
    unfold shownChar at stored
    simp only [dumpByte, stored1, stored2, stored3, stored, if_neg bar, Option.bind_some,
      Option.map_some, length]

/-- A byte is dumped inside the arrays. -/
theorem Dumped.next {j : Nat} {column chars : List Byte} {a : Columns}
    (dumped : Dumped j column chars a) (inside : j < frame) (c : Byte) :
    Exists fun next => dumpByte j c a = some next ∧
      Dumped (j + 1) (column ++ cell j c) (chars ++ [shownChar c]) next := by
  rcases dumped.digits inside c with ⟨hex, starts, dump⟩
  have room : j < ccSize := by
    unfold ccSize
    omega
  rcases dumped.cc.store dumped.chars.symm room (shownChar c) with ⟨cc, stored, ccStarts⟩
  refine ⟨_, dump cc stored, starts, ccStarts, rfl, ?_, ?_⟩
  · rw [List.length_append, dumped.behind, position_succ inside c]
  · rw [List.length_append, dumped.chars]
    rfl

/-- All bytes of a frame are dumped inside the arrays. -/
theorem Dumped.bytes {j : Nat} {column chars : List Byte} {a : Columns} {src : List Byte}
    (dumped : Dumped j column chars a) (inside : j + src.length ≤ frame) :
    Exists fun last => dumpBytes j src a = some last ∧
      Dumped (j + src.length) (column ++ cells j src) (chars ++ src.map shownChar) last := by
  induction src generalizing j column chars a with
  | nil =>
      refine ⟨a, rfl, ?_⟩
      rw [cells, List.append_nil, List.map_nil, List.append_nil]
      exact dumped
  | cons c src inductionHypothesis =>
      rw [List.length_cons] at inside
      rcases dumped.next (by omega) c with ⟨next, here, dumped'⟩
      have behind : j + 1 + src.length ≤ frame := by omega
      rcases inductionHypothesis dumped' behind with ⟨last, later, all⟩
      refine ⟨last, ?_, ?_⟩
      · rw [dumpBytes, here, Option.bind_some, later]
      · rw [cells, List.map_cons, List.length_cons, ← List.append_assoc, List.append_cons,
          Nat.add_comm src.length, ← Nat.add_assoc]
        exact all

/-! ## A line -/

/-- An array is printed up to its zero. -/
theorem cString_of_starts {array shown : List Byte} {size : Nat}
    (starts : Buffer.Starts array size (shown ++ [0])) (text : 0 ∉ shown) :
    cString array = some shown := by
  have split := starts.eq
  have terminated : 0 ∈ array := by
    rw [split]
    simp
  have inFront : forall c, c ∈ shown -> decide (c ≠ 0) = true := by
    intro c member
    exact decide_eq_true fun zero => text (zero ▸ member)
  rw [cString, if_pos terminated, split, List.append_assoc, List.takeWhile_append_of_pos inFront]
  exact congrArg some (List.append_nil shown)

/-- The characters in front of the zero of `hex`. -/
def hexColumn (src : List Byte) : List Byte :=
  cells 0 src ++ List.replicate (hexSize - 1 - (cells 0 src).length) 0x20

theorem zero_not_mem_hexColumn (src : List Byte) : 0 ∉ hexColumn src := by
  rw [hexColumn, List.mem_append]
  rintro (digit | space)
  · exact zero_not_mem_cells 0 src digit
  · cases List.eq_of_mem_replicate space

/-- The line of a frame. -/
def lineOf (offset : UInt32) (src : List Byte) : Line :=
  ⟨offset, hexColumn src, src.map shownChar⟩

theorem position_le {j : Nat} (le : j ≤ frame) : position j ≤ hexSize - 2 := by
  unfold position hexSize
  unfold frame at le ⊢
  omega

/-- A frame is printed as one line. -/
theorem dumpLine_of_dumped {offset : UInt32} {src : List Byte} {a : Columns} (le : src.length ≤ frame)
    (dumped : Dumped src.length (cells 0 src) (src.map shownChar) a) :
    dumpLine offset src.length a = some (lineOf offset src) := by
  have last := position_le le
  have behind := dumped.behind
  have k := dumped.k
  have size : hexSize = 56 := rfl
  have filled :
      (cells 0 src).length + (List.replicate (hexSize - a.k) (0x20 : Byte)).length ≤ hexSize := by
    rw [List.length_replicate]
    omega
  rcases dumped.hex.overwrite k (by rw [k]; exact filled) with ⟨fits, spaces⟩
  have oneLess : List.replicate (hexSize - a.k) (0x20 : Byte) =
      List.replicate (hexSize - 1 - (cells 0 src).length) 0x20 ++ [0x20] := by
    rw [← List.replicate_succ']
    congr 1
    omega
  rw [oneLess, ← List.append_assoc] at spaces
  have column : hexSize - 1 = (hexColumn src).length := by
    rw [hexColumn, List.length_append, List.length_replicate]
    omega
  rcases spaces.left.store column (by omega) 0 with ⟨hex, hexStored, hexStarts⟩
  have chars := dumped.chars
  have ccRoom : src.length < ccSize := by
    unfold ccSize
    omega
  rcases dumped.cc.store chars.symm ccRoom 0 with ⟨cc, ccStored, ccStarts⟩
  rw [dumpLine, if_pos ⟨by omega, fits⟩, oneLess, hexStored, Option.bind_some, ccStored,
    Option.bind_some, cString_of_starts hexStarts (zero_not_mem_hexColumn src), Option.bind_some,
    cString_of_starts ccStarts (zero_not_mem_chars src), Option.map_some, lineOf, hexColumn]

/-- Every line has the same length up to its characters. -/
theorem length_hexColumn {src : List Byte} (le : (cells 0 src).length ≤ hexSize - 2) :
    (hexColumn src).length = 55 := by
  have size : hexSize = 56 := rfl
  rw [hexColumn, List.length_append, List.length_replicate]
  omega

theorem filter_hexColumn (src : List Byte) :
    (hexColumn src).filter (fun c => !isSeparator c) = hexDigits src := by
  have space : isSeparator 0x20 = true := rfl
  rw [hexColumn, List.filter_append, filter_cells, List.filter_replicate, if_neg (by simp [space]),
    List.append_nil]

/-- A turn prints the line of a frame. -/
theorem dump_frame (offset : UInt32) (stack : Vector Byte hexSize × Vector Byte ccSize)
    {src : List Byte} (le : src.length ≤ frame) :
    (dumpBytes 0 src ⟨0, stack.1.toList, stack.2.toList⟩).bind (dumpLine offset src.length) =
        some (lineOf offset src) ∧
      (lineOf offset src).hex.length = 55 := by
  have start : Dumped 0 [] [] ⟨0, stack.1.toList, stack.2.toList⟩ :=
    ⟨.nil (Vector.length_toList), .nil (Vector.length_toList), rfl, rfl, rfl⟩
  have inside : 0 + src.length ≤ frame := by omega
  rcases start.bytes inside with ⟨last, dumped, all⟩
  rw [List.nil_append, List.nil_append, Nat.zero_add] at all
  constructor
  · rw [dumped, Option.bind_some, dumpLine_of_dumped le all]
  · apply length_hexColumn
    rw [all.behind]
    exact position_le le

/-! ## The whole dump -/

/-- What is printed in front of position `i` shows the data in front of it. -/
structure Shows (rel : UInt32) (data : List Byte) (i : Nat) (lines : List Line) : Prop where
  count : lines.length = (i + 15) / 16
  offsets : forall n, (inside : n < lines.length) -> lines[n].offset = rel + (16 * n).toUInt32
  aligned : forall line, line ∈ lines -> line.hex.length = 55
  digits : (lines.flatMap Line.hex).filter (fun c => !isSeparator c) = hexDigits (data.take i)

theorem hexDigits_append (front back : List Byte) :
    hexDigits (front ++ back) = hexDigits front ++ hexDigits back :=
  List.flatMap_append

/-- A line more. -/
theorem Shows.next {rel : UInt32} {data : List Byte} {n sz : Nat} {lines : List Line}
    (before : Shows rel data (16 * n) lines) (positive : 0 < sz) (le : sz ≤ 16)
    (width : (lineOf (rel + (16 * n).toUInt32) ((data.drop (16 * n)).take sz)).hex.length = 55) :
    Shows rel data (16 * n + sz)
      (lines ++ [lineOf (rel + (16 * n).toUInt32) ((data.drop (16 * n)).take sz)]) := by
  have count : lines.length = n := by
    rw [before.count]
    omega
  constructor
  · rw [List.length_append, List.length_singleton, count]
    omega
  · intro m inside
    by_cases here : m < lines.length
    · rw [List.getElem_append_left here]
      exact before.offsets m here
    · rw [List.length_append, List.length_singleton] at inside
      have last : m = n := by omega
      subst last
      rw [List.getElem_append_right (by omega), List.getElem_singleton, lineOf]
  · intro other member
    rcases List.mem_append.mp member with earlier | here
    · exact before.aligned other earlier
    · rw [List.mem_singleton.mp here, width]
  · rw [List.flatMap_append, List.filter_append, before.digits, List.flatMap_singleton, lineOf,
      filter_hexColumn, List.take_add, hexDigits_append]

/-- What was printed before a turn: whole frames, and behind the last turn the rest. -/
structure Printing (rel size : UInt32) (data : List Byte) (w : Dumping) (lines : List Line) : Prop where
  i : w.i.toNat = 16 * lines.length
  out : w.out = lines.flatMap Line.print
  shows : Shows rel data (min (16 * lines.length) size.toNat) lines

/-- The position after a turn, and how many bytes the turn dumps. -/
theorem toNat_advanced {i size : UInt32} (small : size.toNat < 2 ^ 32 - 16) (more : i < size) :
    (i + frame.toUInt32).toNat = i.toNat + 16 ∧
      (if i + frame.toUInt32 < size then frame.toUInt32 else size - i).toNat =
        min 16 (size.toNat - i.toNat) := by
  have below : i.toNat < size.toNat := UInt32.lt_iff_toNat_lt.mp more
  have sixteen : frame.toUInt32.toNat = 16 := rfl
  have advanced : (i + frame.toUInt32).toNat = i.toNat + 16 := by
    rw [UInt32.toNat_add, sixteen]
    omega
  refine ⟨advanced, ?_⟩
  split
  · next inside =>
      have less := UInt32.lt_iff_toNat_lt.mp inside
      omega
  · next beyond =>
      have notLess : ¬ (i + frame.toUInt32).toNat < size.toNat := fun less =>
        beyond (UInt32.lt_iff_toNat_lt.mpr less)
      rw [UInt32.toNat_sub_of_le _ _ (UInt32.le_iff_toNat_le.mpr (Nat.le_of_lt below))]
      omega

/-- Every turn prints the next line. -/
theorem hexdump_turn (stack : Stack) {rel size : UInt32} {data : List Byte} {w : Dumping}
    {lines : List Line} (fits : size.toNat ≤ data.length) (small : size.toNat < 2 ^ 32 - 16)
    (printing : Printing rel size data w lines) (more : w.i < size) :
    Exists fun next => hexdump stack rel data size w = .next next ∧ w.i.toNat < next.i.toNat ∧
      Exists fun line => Printing rel size data next (lines ++ [line]) := by
  have below : w.i.toNat < size.toNat := UInt32.lt_iff_toNat_lt.mp more
  have i := printing.i
  rcases toNat_advanced small more with ⟨advanced, sz⟩
  generalize bytes : min 16 (size.toNat - w.i.toNat) = n at sz
  have length : ((data.drop w.i.toNat).take n).length = n := by
    rw [List.length_take, List.length_drop]
    omega
  have le : ((data.drop w.i.toNat).take n).length ≤ frame := by
    rw [length]
    unfold frame
    omega
  rcases dump_frame (rel + w.i) (stack w.i) le with ⟨dumped, width⟩
  rw [length] at dumped
  have offset : w.i = (16 * lines.length).toUInt32 := by
    rw [← i, Nat.toUInt32_eq, UInt32.ofNat_toNat]
  refine ⟨⟨w.i + frame.toUInt32, w.out ++ (lineOf (rel + w.i) ((data.drop w.i.toNat).take n)).print⟩,
    ?_, ?_, lineOf (rel + w.i) ((data.drop w.i.toNat).take n), ?_⟩
  · rw [hexdump, if_pos more]
    simp only [sz, length, if_true, dumped]
  · dsimp only
    omega
  · have before := printing.shows
    rw [Nat.min_eq_left (by omega)] at before
    rw [i, offset] at width
    rw [i, offset]
    constructor
    · dsimp only
      rw [← offset, advanced, i, List.length_append]
      rfl
    · dsimp only
      rw [printing.out, List.flatMap_append, List.flatMap_singleton]
    · have reached : min (16 * (lines.length + 1)) size.toNat = 16 * lines.length + n := by omega
      rw [List.length_append, List.length_singleton, reached]
      exact before.next (by omega) (by omega) width

/-- All lines are printed. -/
theorem hexdump_shows (stack : Stack) (rel : UInt32) {data : List Byte} {size : UInt32}
    (fits : size.toNat ≤ data.length) (small : size.toNat < 2 ^ 32 - 16) :
    Exists fun lines : List Line =>
      Loop.Returns (hexdump stack rel data size) ⟨0, []⟩ (some (lines.flatMap Line.print)) ∧
        Shows rel data size.toNat lines := by
  have start : Printing rel size data ⟨0, []⟩ [] := by
    refine ⟨rfl, rfl, ?_⟩
    rw [List.length_nil, Nat.mul_zero, Nat.zero_min]
    exact ⟨rfl, fun n inside => absurd inside (Nat.not_lt_zero n), nofun, rfl⟩
  have ends : Exists fun result => Loop.Returns (hexdump stack rel data size) ⟨0, []⟩ result ∧
      Exists fun lines => result = some (lines.flatMap Line.print) ∧
        Shows rel data size.toNat lines := by
    apply Loop.returns_of_turns (fun w => Exists fun lines => Printing rel size data w lines) _
      (fun w => size.toNat + 16 - w.i.toNat) ?_ ⟨[], start⟩
    rintro w ⟨lines, printing⟩
    by_cases more : w.i < size
    · left
      rcases hexdump_turn stack fits small printing more with ⟨next, turn, further, line, printed⟩
      have below : w.i.toNat < size.toNat := UInt32.lt_iff_toNat_lt.mp more
      exact ⟨next, turn, ⟨_, printed⟩, by omega⟩
    · right
      have notLess : ¬ w.i.toNat < size.toNat := fun less => more (UInt32.lt_iff_toNat_lt.mpr less)
      have i := printing.i
      have shown := printing.shows
      rw [Nat.min_eq_right (by omega)] at shown
      refine ⟨some w.out, ?_, lines, congrArg some printing.out, shown⟩
      rw [hexdump, if_neg more]
  rcases ends with ⟨result, returned, lines, rfl, shown⟩
  exact ⟨lines, returned, shown⟩

theorem Shows.read {rel : UInt32} {data : List Byte} {i : Nat} {lines : List Line}
    (shown : Shows rel data i lines) : readHex (lines.flatMap Line.hex) = data.take i := by
  rw [readHex, shown.digits, readPairs_hexDigits]

/-- The whole dump is printed, and what is read from its lines is the data. -/
theorem hexdump_spec (stack : Stack) (rel : UInt32) {data : List Byte} {size : UInt32}
    (fits : size.toNat ≤ data.length) (small : size.toNat < 2 ^ 32 - 16) :
    Exists fun lines : List Line =>
      Loop.Returns (hexdump stack rel data size) ⟨0, []⟩ (some (lines.flatMap Line.print)) ∧
      lines.length = (size.toNat + 15) / 16 ∧
      (forall n, (inside : n < lines.length) -> lines[n].offset = rel + (16 * n).toUInt32) ∧
      (forall line, line ∈ lines -> line.hex.length = 55) ∧
      readHex (lines.flatMap Line.hex) = data.take size.toNat := by
  rcases hexdump_shows stack rel fits small with ⟨lines, returned, shown⟩
  exact ⟨lines, returned, shown.count, shown.offsets, shown.aligned, shown.read⟩

/-- The first 35 of 40 bytes make three lines, of which the last one is short.  The arrays hold
anything at first. -/
theorem hexdump_spec_lines :
    Exists fun lines : List Line =>
      Loop.Returns (hexdump (fun _ => (Vector.replicate hexSize 7, Vector.replicate ccSize 9)) 0x100
        ((List.range 40).map Nat.toUInt8) 35) ⟨0, []⟩ (some (lines.flatMap Line.print)) ∧
      lines.map Line.offset = [0x100, 0x110, 0x120] ∧
      (forall line, line ∈ lines -> line.hex.length = 55) ∧
      readHex (lines.flatMap Line.hex) = (List.range 35).map Nat.toUInt8 := by
  have fits : (35 : UInt32).toNat ≤ ((List.range 40).map Nat.toUInt8).length := by decide
  rcases hexdump_spec (fun _ => (Vector.replicate hexSize 7, Vector.replicate ccSize 9)) 0x100 fits
    (by decide) with ⟨lines, returned, count, offsets, aligned, read⟩
  refine ⟨lines, returned, ?_, aligned, read⟩
  have three : lines.length = 3 := count
  apply List.ext_getElem (by rw [List.length_map, three]; rfl)
  intro n inside _
  rw [List.length_map] at inside
  rw [List.getElem_map, offsets n inside]
  have all : forall n : Fin 3, (0x100 : UInt32) + (16 * n.val).toUInt32 =
      ([0x100, 0x110, 0x120] : List UInt32)[n.val] := by decide
  exact all ⟨n, three ▸ inside⟩

/-! ## Packets -/

/-- The dump that `pkt_dump` prints behind its header. -/
def pktDump (stack : Stack) (pkt : RfPacket) : Dumping -> Loop.Step Dumping (Option (List Byte)) :=
  hexdump stack 0 pkt.data pkt.len.toUInt32

/-- The bytes of a packet on the wire are read from its dump. -/
theorem pktDump_wire (stack : Stack) (pkt : RfPacket) (small : pkt.len < 2 ^ 16) :
    Exists fun lines : List Line =>
      Loop.Returns (pktDump stack pkt) ⟨0, []⟩ (some (lines.flatMap Line.print)) ∧
        readHex (lines.flatMap Line.hex) = pkt.wire := by
  have size : pkt.len.toUInt32.toNat = pkt.len :=
    UInt32.toNat_ofNat_of_lt' (Nat.lt_trans small (by decide))
  have fits : pkt.len.toUInt32.toNat ≤ pkt.data.length := size.symm ▸ pkt.fits
  rcases hexdump_shows stack 0 fits (by omega) with ⟨lines, returned, shown⟩
  refine ⟨lines, returned, ?_⟩
  rw [shown.read, size, RfPacket.wire]

end Misc
end Rfx
