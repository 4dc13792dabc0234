import Rfx.Misc

namespace Rfx
namespace Misc

open Library
open RfxLoot (isxdigit)

/-!
# Percent-decoding into a buffer of any size

`uri_decode` copies until its buffer is full and counts from there on.  Both loops find
the same escapes at the same places, so that the two together go through the source
once: what is copied is the start of the decoded source, as long as the buffer, and what
is counted is all of it.
-/

/-- The byte that two hex digits stand for. -/
def hexByte (high low : Byte) : Byte :=
  (16 * (xdigit2i high).toNat + (xdigit2i low).toNat).toUInt8

/-- The decoded source: a `%` and two hex digits are one byte, and every other byte is itself. -/
def decode : List Byte -> List Byte
  | c :: high :: low :: rest =>
      if c = 0x25 ∧ isxdigit high = true ∧ isxdigit low = true then hexByte high low :: decode rest
      else c :: decode (high :: low :: rest)
  | c :: rest => c :: decode rest
  | [] => []

example : decode [0x61, 0x25, 0x34, 0x31, 0x25, 0x34] = [0x61, 0x41, 0x25, 0x34] := rfl

theorem xdigit2i_lt {c : Byte} (digit : isxdigit c = true) : (xdigit2i c).toNat < 16 := by
  revert c
  apply forall_byte
  decide +kernel

/-- Two digits are put together bit by bit. -/
theorem hexByte_eq {high low : Byte} (highDigit : isxdigit high = true)
    (lowDigit : isxdigit low = true) :
    ((xdigit2i high <<< 4) ||| xdigit2i low).toUInt8 = hexByte high low := by
  have highBound := xdigit2i_lt highDigit
  have lowBound : (xdigit2i low).toNat < 2 ^ 4 := xdigit2i_lt lowDigit
  apply UInt8.toNat_inj.mp
  have shifted : (xdigit2i high <<< 4).toNat = (xdigit2i high).toNat <<< 4 := by
    rw [UInt32.toNat_shiftLeft]
    change (xdigit2i high).toNat <<< 4 % 2 ^ 32 = _
    rw [Nat.shiftLeft_eq]
    omega
  rw [UInt32.toNat_toUInt8, UInt32.toNat_or, shifted, ← Nat.shiftLeft_add_eq_or_of_lt lowBound,
    Nat.shiftLeft_eq, hexByte, Nat.toUInt8_eq, UInt8.toNat_ofNat']
  congr 1
  omega

theorem length_decode_le (src : List Byte) : (decode src).length ≤ src.length := by
  induction src using decode.induct with
  | case1 c high low rest escape inductionHypothesis =>
      rw [decode, if_pos escape]
      simp only [List.length_cons]
      omega
  | case2 c high low rest plain inductionHypothesis =>
      rw [decode, if_neg plain]
      simp only [List.length_cons] at inductionHypothesis ⊢
      omega
  | case3 c rest short inductionHypothesis =>
      rw [decode]
      · simp only [List.length_cons]
        omega
      · exact short
  | case4 => exact Nat.le_refl 0

/-! ## One byte of the result -/

theorem decode_escape {c high low : Byte} {rest : List Byte}
    (escape : c = 0x25 ∧ isxdigit high = true ∧ isxdigit low = true) :
    decode (c :: high :: low :: rest) = hexByte high low :: decode rest := by
  rw [decode, if_pos escape]

/-- What is no escape is copied. -/
theorem decode_plain {c : Byte} {rest : List Byte}
    (plain : forall high low behind, rest = high :: low :: behind ->
      ¬ (c = 0x25 ∧ isxdigit high = true ∧ isxdigit low = true)) :
    decode (c :: rest) = c :: decode rest := by
  match rest, plain with
  | [], _ => rfl
  | [_], _ => rfl
  | high :: low :: behind, plain => rw [decode, if_neg (plain high low behind rfl)]

/-- What both loops find at a place inside the source. -/
inductive Found (src : List Byte) (s : Nat) : Prop
  | escape (high low : Byte) (is : isEscape src s = some true) (inside : s + 3 ≤ src.length)
      (first : src[s + 1]? = some high) (second : src[s + 2]? = some low)
      (highDigit : isxdigit high = true) (lowDigit : isxdigit low = true)
      (decoded : decode (src.drop s) = hexByte high low :: decode (src.drop (s + 3)))
  | plain (c : Byte) (isNot : isEscape src s = some false) (here : src[s]? = some c)
      (decoded : decode (src.drop s) = c :: decode (src.drop (s + 1)))

theorem found {src : List Byte} {s : Nat} (inside : s < src.length) : Found src s := by
  have here := List.getElem?_eq_getElem inside
  have split := List.drop_eq_getElem_cons inside
  generalize src[s] = c at here split
  by_cases room : s + 2 < src.length
  · have first := List.getElem?_eq_getElem (show s + 1 < src.length by omega)
    have second := List.getElem?_eq_getElem room
    have behind : src.drop (s + 1) = _ := List.drop_eq_getElem_cons (show s + 1 < src.length by omega)
    rw [List.drop_eq_getElem_cons room] at behind
    generalize src[s + 1] = high at first behind
    generalize src[s + 2] = low at second behind
    rw [behind] at split
    by_cases escape : c = 0x25 ∧ isxdigit high = true ∧ isxdigit low = true
    · refine .escape high low ?_ room first second escape.2.1 escape.2.2 ?_
      · rw [isEscape, here, Option.bind_some, if_pos ⟨escape.1, room⟩, first, Option.bind_some,
          if_pos escape.2.1, second, Option.map_some, escape.2.2]
      · rw [split, decode_escape escape]
    · refine .plain c ?_ here ?_
      · rw [isEscape, here, Option.bind_some]
        split_ifs with percent
        · rw [first, Option.bind_some]
          split_ifs with highDigit
          · rw [second, Option.map_some]
            simp only [percent.1, highDigit, true_and] at escape
            simpa using escape
          · rfl
        · rfl
      · rw [split, behind]
        apply decode_plain
        rintro _ _ _ ⟨⟩
        exact escape
  · refine .plain c ?_ here ?_
    · rw [isEscape, here, Option.bind_some, if_neg fun both => room both.2]
    · rw [split]
      apply decode_plain
      intro high low behind long
      have length := congrArg List.length long
      rw [List.length_drop, List.length_cons, List.length_cons] at length
      omega

/-! ## Both loops -/

/-- `done` is the part of the decoded source that is behind: counted, and copied as far as there is
room. -/
structure Decoded (src dst : List Byte) (u : Decoding) (done : List Byte) : Prop where
  source : decode src = done ++ decode (src.drop u.s)
  inside : u.s ≤ src.length
  counted : u.d = done.length
  copied : u.dst = done.take dst.length ++ dst.drop done.length
  full : u.skipping = true -> dst.length ≤ done.length
  room : u.skipping = false -> done.length ≤ dst.length

theorem Decoded.start (src dst : List Byte) : Decoded src dst ⟨false, 0, 0, dst⟩ [] where
  source := rfl
  inside := Nat.zero_le _
  counted := rfl
  copied := by rw [List.take_nil, List.nil_append, List.length_nil, List.drop_zero]
  full := nofun
  room := fun _ => Nat.zero_le _

theorem Decoded.length {src dst done : List Byte} {u : Decoding} (decoded : Decoded src dst u done) :
    u.dst.length = dst.length := by
  rw [decoded.copied, List.length_append, List.length_take, List.length_drop]
  omega

/-- A byte that is copied. -/
theorem Decoded.put {src dst done : List Byte} {u : Decoding} (decoded : Decoded src dst u done)
    (free : u.d < u.dst.length) {byte : Byte} {taken : Nat} (inside : u.s + taken ≤ src.length)
    (found : decode (src.drop u.s) = byte :: decode (src.drop (u.s + taken))) :
    Exists fun next => u.put byte taken = .next next ∧ next.s = u.s + taken ∧
      Decoded src dst next (done ++ [byte]) := by
  have length := decoded.length
  have counted := decoded.counted
  have whole : done.take dst.length = done := List.take_of_length_le (by omega)
  rcases Buffer.store_spec free byte with ⟨next, stored, size, start, rest⟩
  refine ⟨⟨false, u.s + taken, u.d + 1, next⟩, ?_, rfl, ?_⟩
  · rw [Decoding.put, stored]
  · have longer : (done ++ [byte]).length = u.d + 1 := by
      rw [List.length_append, List.length_singleton, counted]
    constructor
    · rw [decoded.source, found, List.append_assoc]
      rfl
    · exact inside
    · exact longer.symm
    · have front : next.take (u.d + 1) = done ++ [byte] := by
        rw [start, decoded.copied, whole, counted, List.take_left]
      have back : next.drop (u.d + 1) = dst.drop (u.d + 1) := by
        rw [rest, decoded.copied, whole, counted, List.drop_append, List.drop_of_length_le (by omega),
          List.drop_drop, List.nil_append]
        congr 1
        omega
      rw [longer, List.take_of_length_le (by omega), ← back, ← front, List.take_append_drop]
    · nofun
    · intro _
      omega

/-- A byte that is only counted. -/
theorem Decoded.skip {src dst done : List Byte} {u : Decoding} (decoded : Decoded src dst u done)
    (skipping : u.skipping = true) {byte : Byte} {taken : Nat} (inside : u.s + taken ≤ src.length)
    (found : decode (src.drop u.s) = byte :: decode (src.drop (u.s + taken))) :
    Decoded src dst { u with d := u.d + 1, s := u.s + taken } (done ++ [byte]) := by
  have full := decoded.full skipping
  have longer : (done ++ [byte]).length = done.length + 1 := List.length_append
  constructor
  · rw [decoded.source, found, List.append_assoc]
    rfl
  · exact inside
  · rw [longer, decoded.counted]
  · dsimp only
    rw [decoded.copied, List.take_append_of_le_length full, longer, List.drop_of_length_le full,
      List.drop_of_length_le (by omega)]
  · intro _
    omega
  · intro copying
    cases skipping.symm.trans copying

/-- The second loop begins where the first one has no more room. -/
theorem Decoded.skipRest {src dst done : List Byte} {u : Decoding} (decoded : Decoded src dst u done)
    (full : u.dst.length ≤ u.d) : Decoded src dst { u with skipping := true } done where
  source := decoded.source
  inside := decoded.inside
  counted := decoded.counted
  copied := decoded.copied
  full := by
    intro _
    rw [← decoded.length, ← decoded.counted]
    exact full
  room := nofun

/-- What is left to do: two for each byte, and one for the change to the second loop. -/
def remaining (src : List Byte) (u : Decoding) : Nat :=
  2 * (src.length - u.s) + if u.skipping then 0 else 1

/-- Every turn inside the source finds the next byte of the decoded source, or goes over to the second
loop. -/
theorem uriDecode_turn {src dst done : List Byte} {u : Decoding} (decoded : Decoded src dst u done)
    (more : u.s < src.length) :
    Exists fun next => uriDecode src u = .next next ∧ remaining src next < remaining src u ∧
      Exists fun done => Decoded src dst next done := by
  cases skipping : u.skipping with
  | true =>
      cases found more with
      | escape high low is inside first second highDigit lowDigit here =>
          refine ⟨_, ?_, ?_, _, decoded.skip skipping inside here⟩
          · rw [uriDecode, if_pos more, skipping, if_pos rfl, is]
          · simp only [remaining, skipping]
            omega
      | plain c isNot first here =>
          refine ⟨_, ?_, ?_, _, decoded.skip skipping more here⟩
          · rw [uriDecode, if_pos more, skipping, if_pos rfl, isNot]
          · simp only [remaining, skipping]
            omega
  | false =>
      by_cases full : u.dst.length ≤ u.d
      · refine ⟨_, ?_, ?_, _, decoded.skipRest full⟩
        · rw [uriDecode, if_pos more, skipping, if_neg Bool.false_ne_true, if_pos full]
        · simp only [remaining, skipping, if_true, if_neg Bool.false_ne_true]
          omega
      · have free : u.d < u.dst.length := Nat.lt_of_not_le full
        have less : forall next : Decoding, u.s < next.s -> remaining src next < remaining src u := by
          intro next further
          simp only [remaining, skipping, if_neg Bool.false_ne_true]
          split <;> omega
        cases found more with
        | escape high low is inside first second highDigit lowDigit here =>
            rcases decoded.put free inside here with ⟨next, put, further, decoded⟩
            refine ⟨next, ?_, less next (by omega), _, decoded⟩
            rw [uriDecode, if_pos more, skipping, if_neg Bool.false_ne_true, if_neg full, is]
            simp only [first, second]
            rw [hexByte_eq highDigit lowDigit, put]
        | plain c isNot first here =>
            rcases decoded.put free more here with ⟨next, put, further, decoded⟩
            refine ⟨next, ?_, less next (by omega), _, decoded⟩
            rw [uriDecode, if_pos more, skipping, if_neg Bool.false_ne_true, if_neg full, isNot]
            simp only [first]
            exact put

/-- What is behind the loops when the source is at its end. -/
theorem Decoded.finish {src dst done : List Byte} {u : Decoding} (decoded : Decoded src dst u done)
    (ended : ¬ u.s < src.length) :
    uriDecode src u = .done (some ((decode src).length.toUInt32,
      (decode src).take dst.length ++ dst.drop (decode src).length)) := by
  have whole : decode src = done := by
    rw [decoded.source, List.drop_of_length_le (Nat.le_of_not_lt ended), decode, List.append_nil]
  rw [uriDecode, if_neg ended, whole, decoded.counted, decoded.copied]

theorem uriDecode_returns (src dst : List Byte) :
    Loop.Returns (uriDecode src) ⟨false, 0, 0, dst⟩ (some ((decode src).length.toUInt32,
      (decode src).take dst.length ++ dst.drop (decode src).length)) := by
  apply Loop.returns_result (fun u => Exists fun done => Decoded src dst u done) (remaining src) ?_
    ⟨[], Decoded.start src dst⟩
  rintro u ⟨done, decoded⟩
  by_cases more : u.s < src.length
  · left
    rcases uriDecode_turn decoded more with ⟨next, turn, less, kept⟩
    exact ⟨next, turn, kept, less⟩
  · exact Or.inr (decoded.finish more)

/-- The length of the decoded source is returned, and its start is copied; nothing is read behind the
source or written behind the buffer.  A buffer of the length that is returned gets all of it. -/
theorem uriDecode_spec (src dst : List Byte) (small : src.length < 2 ^ 32) :
    Exists fun result : UInt32 => result.toNat = (decode src).length ∧
      Loop.Returns (uriDecode src) ⟨false, 0, 0, dst⟩
        (some (result, (decode src).take dst.length ++ dst.drop (decode src).length)) ∧
      forall again : List Byte, again.length = result.toNat ->
        Loop.Returns (uriDecode src) ⟨false, 0, 0, again⟩ (some (result, decode src)) := by
  have fits : (decode src).length < 2 ^ 32 := Nat.lt_of_le_of_lt (length_decode_le src) small
  have result : (decode src).length.toUInt32.toNat = (decode src).length :=
    UInt32.toNat_ofNat_of_lt' fits
  refine ⟨_, result, uriDecode_returns src dst, ?_⟩
  intro again size
  have returned := uriDecode_returns src again
  rw [result] at size
  rw [size, List.take_length, List.drop_of_length_le (Nat.le_of_eq size), List.append_nil] at returned
  exact returned

/-- An escape in front of a buffer that is full. -/
theorem uriDecode_spec_escape :
    [0x61, 0x25, 0x34, 0x31].length < 2 ^ 32 ∧
    Loop.Returns (uriDecode [0x61, 0x25, 0x34, 0x31]) ⟨false, 0, 0, [0]⟩ (some (2, [0x61])) := by
  have small : ([0x61, 0x25, 0x34, 0x31] : List Byte).length < 2 ^ 32 := by decide
  rcases uriDecode_spec [0x61, 0x25, 0x34, 0x31] [0] small with ⟨result, length, returned, -⟩
  have two : result = 2 := UInt32.toNat_inj.mp length
  subst two
  exact ⟨small, returned⟩

end Misc
end Rfx
