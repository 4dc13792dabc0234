import Mathlib.Data.List.Basic

namespace Library
namespace Buffer

variable {X : Type}

/-!
# Copies into fixed-size buffers

A buffer is a list whose length does not change.  `overwrite` is the effect of
copying a block to an offset of the buffer, and `fits` is the condition under
which that copy stays inside it.  Nothing here depends on the element type, so
the same lemmas serve byte buffers and arrays of descriptors.
-/

/-- The copy of `block` to offset `pos` ends inside `buffer`. -/
def Fits (buffer : List X) (pos : Nat) (block : List X) : Prop :=
  pos + block.length ≤ buffer.length

instance (buffer : List X) (pos : Nat) (block : List X) :
    Decidable (Fits buffer pos block) :=
  inferInstanceAs (Decidable (_ ≤ _))

/-- Copy `block` over the positions of `buffer` that start at `pos`. -/
def overwrite (buffer : List X) (pos : Nat) (block : List X) : List X :=
  buffer.take pos ++ block ++ buffer.drop (pos + block.length)

theorem length_overwrite {buffer block : List X} {pos : Nat}
    (fits : Fits buffer pos block) : (overwrite buffer pos block).length = buffer.length := by
  unfold Fits at fits
  simp only [overwrite, List.length_append, List.length_take, List.length_drop]
  omega

theorem le_length_overwrite (buffer : List X) (pos : Nat) (block : List X) :
    buffer.length ≤ (overwrite buffer pos block).length := by
  simp only [overwrite, List.length_append, List.length_take, List.length_drop]
  omega

/-- The part of the buffer up to the end of the copy: the old start, then the block. -/
theorem take_overwrite {buffer block : List X} {pos : Nat}
    (fits : Fits buffer pos block) :
    (overwrite buffer pos block).take (pos + block.length) = buffer.take pos ++ block := by
  unfold Fits at fits
  apply List.take_left'
  simp only [List.length_append, List.length_take]
  omega

/-- Behind the end of the copy nothing is changed. -/
theorem getElem?_overwrite {buffer block : List X} {pos i : Nat} (fits : Fits buffer pos block)
    (behind : pos + block.length ≤ i) : (overwrite buffer pos block)[i]? = buffer[i]? := by
  unfold Fits at fits
  have front : (buffer.take pos ++ block).length = pos + block.length := by
    rw [List.length_append, List.length_take]
    omega
  rw [overwrite, List.getElem?_append_right (by omega), front, List.getElem?_drop]
  congr 1
  omega

/-- A copy over the middle one of three parts. -/
theorem overwrite_middle {front block : List X} (old back : List X) {pos : Nat}
    (here : pos = front.length) (same : block.length = old.length) :
    overwrite (front ++ (old ++ back)) pos block = front ++ (block ++ back) := by
  subst here
  rw [overwrite, List.take_left, same, ← List.append_assoc front old back, ← List.length_append,
    List.drop_left, List.append_assoc]

/-- Write one element, if there is room for it at its position. -/
def store (buffer : List X) (pos : Nat) (x : X) : Option (List X) :=
  if pos < buffer.length then some (buffer.set pos x) else none

/-- An element that is written behind the start of a buffer makes the start longer. -/
theorem store_spec {buffer : List X} {pos : Nat} (inside : pos < buffer.length) (x : X) :
    Exists fun next => store buffer pos x = some next ∧ next.length = buffer.length ∧
      next.take (pos + 1) = buffer.take pos ++ [x] ∧ next.drop (pos + 1) = buffer.drop (pos + 1) := by
  refine ⟨buffer.set pos x, if_pos inside, List.length_set, ?_, ?_⟩
  · have there : pos < (buffer.set pos x).length := by rwa [List.length_set]
    rw [List.take_succ_eq_append_getElem there, List.getElem_set_self,
      List.take_set_of_le (Nat.le_refl pos)]
  · exact List.drop_set_of_lt (Nat.lt_succ_self pos)

/-- A buffer of some size that starts with what was written to it so far. -/
structure Starts (buffer : List X) (size : Nat) (written : List X) : Prop where
  size : buffer.length = size
  written : buffer.take written.length = written

variable {buffer written : List X} {size : Nat}

theorem Starts.nil (same : buffer.length = size) : Starts buffer size [] :=
  ⟨same, List.take_zero⟩

theorem Starts.left {back : List X} (starts : Starts buffer size (written ++ back)) :
    Starts buffer size written := by
  have front := congrArg (List.take written.length) starts.written
  rw [List.take_take, List.take_left, List.length_append,
    Nat.min_eq_left (Nat.le_add_right ..)] at front
  exact ⟨starts.size, front⟩

theorem Starts.eq (starts : Starts buffer size written) :
    buffer = written ++ buffer.drop written.length := by
  have split := List.take_append_drop written.length buffer
  rw [starts.written] at split
  exact split.symm

/-- One element more. -/
theorem Starts.store {pos : Nat} (starts : Starts buffer size written) (here : pos = written.length)
    (room : pos < size) (x : X) :
    Exists fun next => Buffer.store buffer pos x = some next ∧ Starts next size (written ++ [x]) := by
  subst here
  rcases store_spec (starts.size.symm ▸ room) x with ⟨next, stored, length, start, -⟩
  refine ⟨next, stored, length.trans starts.size, ?_⟩
  rw [List.length_append, List.length_singleton, start, starts.written]

/-- A block more. -/
theorem Starts.overwrite {pos : Nat} {block : List X} (starts : Starts buffer size written)
    (here : pos = written.length) (room : pos + block.length ≤ size) :
    Fits buffer pos block ∧ Starts (Buffer.overwrite buffer pos block) size (written ++ block) := by
  subst here
  have fits : Fits buffer written.length block := by
    rw [Fits, starts.size]
    exact room
  refine ⟨fits, ?_, ?_⟩
  · rw [length_overwrite fits, starts.size]
  · rw [List.length_append, take_overwrite fits, starts.written]

end Buffer
end Library
