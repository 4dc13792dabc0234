import Rfx.Mconf.Help

namespace Rfx
namespace Mconf

open Library
open Words (Shorter)

/-!
# The description loop

A pass copies the words that fit on the line.  A word that is exactly as wide as what is left
of the line does not fit, as the copy stops when it reaches the end of the line and not
when it goes beyond it.  Every pass but the first one has the whole description column, so the
loop comes to an end exactly if every word is shorter than this column.
-/

/-! ## One pass -/

theorem copyWords_full {e : Nat} {line s : List Byte} (full : e ≤ line.length ∨ s = []) :
    copyWords e line s = ⟨line, s, 0⟩ := by
  rw [copyWords, dif_neg]
  rintro ⟨room, some⟩
  rcases full with full | none
  · exact Nat.not_lt_of_le full room
  · exact some none

/-- The next word does not fit. -/
theorem copyWords_stop {e : Nat} {line s : List Byte} (room : line.length < e) (some : s ≠ [])
    (long : e - line.length ≤ (s.takeWhile inWord).length) :
    copyWords e line s = ⟨line, s, e - line.length⟩ := by
  have copied : ((s.takeWhile inWord).take (e - line.length)).length = e - line.length := by
    rw [List.length_take, Nat.min_eq_left long]
  rw [copyWords, dif_pos ⟨room, some⟩]
  dsimp only
  rw [copied, if_pos (by omega)]

/-- The next word fits, and the whitespace behind it becomes a space. -/
theorem copyWords_next {e : Nat} {line s : List Byte} (some : s ≠ [])
    (short : (s.takeWhile inWord).length < e - line.length) :
    copyWords e line s =
      copyWords e (line ++ s.takeWhile inWord ++
          if (s.dropWhile inWord).head?.any isWs then [0x20] else [])
        ((s.dropWhile inWord).dropWhile isWs) := by
  have copied : (s.takeWhile inWord).take (e - line.length) = s.takeWhile inWord :=
    List.take_of_length_le (Nat.le_of_lt short)
  rw [copyWords, dif_pos ⟨by omega, some⟩]
  dsimp only
  rw [copied, (Words.front_takeWhile inWord s).drop_eq, if_neg (by omega)]

/-- Behind a word and the whitespace that follows it there is less. -/
theorem length_behind_space {s : List Byte} (some : s ≠ []) :
    ((s.dropWhile inWord).dropWhile isWs).length < s.length := by
  have shorter := length_behind_word some (List.length_pos_iff.mpr some)
  rw [List.take_of_length_le (List.takeWhile_sublist inWord).length_le,
    (Words.front_takeWhile inWord s).drop_eq] at shorter
  exact shorter

/-- What the loop over the words does. -/
structure Copied (e : Nat) (line s : List Byte) (filled : Filled) : Prop where
  rest : filled.s <:+ s
  longer : line.length ≤ filled.line.length
  inside : filled.line.length + filled.j ≤ max line.length e
  words : forall n, e ≤ n + line.length -> Shorter inWord n filled.s -> Shorter inWord n s

theorem Copied.nothing {e j : Nat} {line : List Byte} (s : List Byte)
    (inside : line.length + j ≤ max line.length e) : Copied e line s ⟨line, s, j⟩ where
  rest := List.suffix_rfl
  longer := Nat.le_refl _
  inside := inside
  words := fun _ _ short => short

theorem shorter_behind {n : Nat} {s : List Byte} :
    Shorter inWord n s <->
      (s.takeWhile inWord).length < n ∧ Shorter inWord n ((s.dropWhile inWord).dropWhile isWs) := by
  rw [(Words.front_takeWhile inWord s).shorter_iff, and_congr_right_iff]
  intro _
  have spaces := @List.takeWhile_append_dropWhile _ isWs (s.dropWhile inWord)
  constructor
  · intro short
    exact short.within (List.dropWhile_suffix isWs).isInfix
  · intro short
    rw [← spaces]
    apply Words.shorter_append _ short
    intro c member
    rw [inWord, List.mem_takeWhile_imp member]
    rfl

theorem copyWords_copied (e : Nat) (line s : List Byte) : Copied e line s (copyWords e line s) := by
  induction left : s.length using Nat.strongRecOn generalizing line s with
  | ind n inductionHypothesis =>
      by_cases full : e ≤ line.length ∨ s = []
      · rw [copyWords_full full]
        exact .nothing s (by omega)
      · rw [not_or, Nat.not_le] at full
        by_cases long : e - line.length ≤ (s.takeWhile inWord).length
        · rw [copyWords_stop full.1 full.2 long]
          exact .nothing s (by omega)
        · rw [Nat.not_le] at long
          rw [copyWords_next full.2 long]
          generalize gapEq :
            (if (s.dropWhile inWord).head?.any isWs then ([0x20] : List Byte) else []) = gap
          have gapLe : gap.length ≤ 1 := by
            rw [← gapEq]
            split <;> decide
          have next := inductionHypothesis _ (left ▸ length_behind_space full.2)
            (line ++ s.takeWhile inWord ++ gap) ((s.dropWhile inWord).dropWhile isWs) rfl
          have longer := next.longer
          have inside := next.inside
          rw [List.length_append, List.length_append] at longer inside
          constructor
          · exact next.rest.trans ((List.dropWhile_suffix isWs).trans (List.dropWhile_suffix inWord))
          · omega
          · omega
          · intro n wide short
            apply shorter_behind.mpr
            refine ⟨by omega, next.words n ?_ short⟩
            rw [List.length_append, List.length_append]
            omega

/-- A line that ends in front of a column, and has the whole column left for the first word. -/
theorem copyWords_progress {column e : Nat} {line s : List Byte} (narrow : line.length ≤ column)
    (some : s ≠ []) (short : Shorter inWord (e - column) s) :
    (copyWords e (pad column line) s).s.length < s.length := by
  have first := (shorter_behind.mp short).1
  have padded : (pad column line).length = column := by
    rw [length_pad, Nat.max_eq_right narrow]
  rw [copyWords_next some (by rw [padded]; exact first)]
  exact Nat.lt_of_le_of_lt (copyWords_copied e _ _).rest.length_le (length_behind_space some)

/-! ## The loop -/

section Passes

variable {column e : Nat} {c next : Cursor}

/-- What a pass leaves of the comment. -/
def restOf (column e : Nat) (c : Cursor) : List Byte :=
  (copyWords e (pad column c.line) c.s).s

theorem helpPass_none : (helpPass column e c).2 = none <-> restOf column e c = [] := by
  rw [helpPass]
  dsimp only
  split
  · next empty => exact iff_of_true rfl empty
  · next some => exact iff_of_false (Option.some_ne_none _) some

theorem helpPass_some :
    (helpPass column e c).2 = some next <-> restOf column e c ≠ [] ∧ next = ⟨[], restOf column e c⟩ := by
  rw [helpPass]
  dsimp only
  split
  · next empty => exact iff_of_false (Option.some_ne_none _).symm fun both => both.1 empty
  · next some =>
      rw [Option.some.injEq, eq_comm]
      exact (and_iff_right some).symm

theorem restOf_suffix : restOf column e c <:+ c.s :=
  (copyWords_copied e _ c.s).rest

/-- Words that are shorter than the column are those that a pass copies, and those that it
leaves. -/
theorem shorter_of_restOf (short : Shorter inWord (e - column) (restOf column e c)) :
    Shorter inWord (e - column) c.s := by
  apply (copyWords_copied e (pad column c.line) c.s).words _ _ short
  rw [length_pad]
  omega

/-- A description is shown completely exactly if each of its words is shorter than the column. -/
theorem ends_helpPass :
    (Trace.Ends fun fuel => Trace.loop (helpPass column e) fuel c) <->
      c.s = [] ∨ Shorter inWord (e - column) c.s := by
  constructor
  · intro ended
    refine Trace.of_ends_loop (p := fun c => c.s = [] ∨ Shorter inWord (e - column) c.s) ?_ ?_ ended
    · intro c last
      rw [helpPass_none] at last
      by_cases none : c.s = []
      · exact Or.inl none
      · right
        apply shorter_of_restOf
        rw [last]
        apply Words.shorter_of_length
        rw [List.length_nil]
        by_contra full
        rw [restOf, copyWords_full (Or.inl (by rw [length_pad]; omega))] at last
        exact none last
    · intro c next more later
      rcases helpPass_some.mp more with ⟨some, rfl⟩
      exact Or.inr (shorter_of_restOf (later.resolve_left some))
  · intro fits
    have short (some : restOf column e c ≠ []) : Shorter inWord (e - column) (restOf column e c) := by
      rcases fits with none | short
      · exact absurd (List.suffix_nil.mp (none ▸ restOf_suffix)) some
      · exact short.within restOf_suffix.isInfix
    cases followed : (helpPass column e c).2 with
    | none => exact Trace.ends_loop_of_none followed
    | some next =>
        apply Trace.ends_loop_of_some followed
        rcases helpPass_some.mp followed with ⟨some, rfl⟩
        refine Trace.ends_loop
          (fun c => c.line = [] ∧ c.s ≠ [] ∧ Shorter inWord (e - column) c.s) (fun c => c.s.length)
          ?_ ⟨rfl, some, short some⟩
        intro c next ⟨begun, more, short⟩ followed
        rcases helpPass_some.mp followed with ⟨some, rfl⟩
        have narrow : c.line.length ≤ column := by
          rw [begun]
          exact Nat.zero_le _
        exact ⟨⟨rfl, some, short.within restOf_suffix.isInfix⟩, copyWords_progress narrow more short⟩

end Passes

end Mconf
end Rfx
