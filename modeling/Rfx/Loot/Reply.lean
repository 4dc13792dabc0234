import Rfx.Loot.Command

namespace Rfx
namespace RfxLoot

/-!
# The reply to a loot command

The text of the reply has 22 bytes without the two counts, which are at most five
digits each, and `reply` keeps 31 bytes.  So the text is cut exactly if both
counts have five digits.
-/

/-- The reply that tells `count` ids. -/
def okText (count : Nat) : List Byte :=
  text "ok, show = " ++ decimal count ++ text ", ignore = " ++ decimal (65536 - count)

theorem length_okText (count : Nat) : (okText count).length =
    22 + (Nat.toDigits 10 count).length + (Nat.toDigits 10 (65536 - count)).length := by
  have front : (text "ok, show = ").length = 11 := rfl
  have middle : (text ", ignore = ").length = 11 := rfl
  simp only [okText, decimal, List.length_append, List.length_map, front, middle]
  omega

/-- The reply fits unless both counts have five digits. -/
theorem take_okText_iff {count : Nat} (bounded : count ≤ 65536) :
    (okText count).take 31 = okText count <-> count < 10000 ∨ 55536 < count := by
  have digits (n k : Nat) (positive : 0 < k) : (Nat.toDigits 10 n).length ≤ k <-> n < 10 ^ k :=
    Nat.length_toDigits_le_iff (by decide) positive
  have shown4 := digits count 4 (by decide)
  have shown5 := digits count 5 (by decide)
  have ignored4 := digits (65536 - count) 4 (by decide)
  have ignored5 := digits (65536 - count) 5 (by decide)
  rw [List.take_eq_self_iff, length_okText]
  omega

theorem cmdReply_eq (nm : LootMask) : cmdReply nm = (okText nm.count).take 31 :=
  rfl

/-- The ids that a command asks for, if every token of it stands for a mask. -/
def Asks (files : Files) (lm : LootState) (msg : List Byte) (ids : Set Nat) : Prop :=
  if msg = text "info" then ids = lm.shown.ids
  else Exists fun tokens => Tokens (msg.takeWhile (· ≠ 0)) tokens ∧
    (forall token, token ∈ tokens -> maskOf files token.2 ≠ none) ∧
      ids = idsAfter files lm.shown.ids tokens

/-- A command succeeds exactly with what it asks for. -/
theorem cmdMask_ids {files : Files} {lm : LootState} {msg : List Byte} {ids : Set Nat} :
    Asks files lm msg ids <-> Exists fun nm => cmdMask files lm msg = some nm ∧ nm.ids = ids := by
  rw [Asks]
  by_cases info : msg = text "info"
  · rw [if_pos info, cmdMask, if_pos info]
    constructor
    · exact fun same => ⟨lm.shown, rfl, same.symm⟩
    · rintro ⟨nm, same, rfl⟩
      rw [Option.some.inj same]
  · rw [if_neg info]
    constructor
    · rintro ⟨tokens, read, accepted, rfl⟩
      rw [cmdMask_eq info read]
      exact foldlM_of_accepted accepted lm.shown
    · rintro ⟨nm, found, rfl⟩
      rcases exists_tokens (msg.takeWhile (· ≠ 0)) with ⟨tokens, read⟩
      rw [cmdMask_eq info read] at found
      have accepted : forall token, token ∈ tokens -> maskOf files token.2 ≠ none := by
        intro token member rejected
        rw [foldlM_of_rejected member rejected] at found
        cases found
      rcases foldlM_of_accepted accepted lm.shown with ⟨after, folded, ids⟩
      rw [found] at folded
      exact ⟨tokens, read, accepted, Option.some.inj folded ▸ ids⟩

theorem lootCmd_of_cmdMask {files : Files} {lm : LootState} {msg : List Byte} {nm : LootMask}
    (found : cmdMask files lm msg = some nm) :
    lootCmd files lm msg = ({ lm with shown := nm }, cmdReply nm) := by
  rw [lootCmd, found]

/-- The reply of a command that succeeds tells how many ids are shown and how many
are not, exactly if one of the two counts has less than five digits. -/
theorem reply_tells_counts_iff (files : Files) (lm : LootState) (msg : List Byte) :
    (cmdMask files lm msg ≠ none -> (lootCmd files lm msg).2 =
        okText ((Finset.range 65536).filter fun id =>
          (lootCmd files lm msg).1.shown.test id = true).card) <->
      forall ids, Asks files lm msg ids -> ids.ncard < 10000 ∨ 55536 < ids.ncard := by
  constructor
  · intro told ids asks
    rcases cmdMask_ids.mp asks with ⟨nm, found, rfl⟩
    have exactly := told (Option.ne_none_iff_exists'.mpr ⟨nm, found⟩)
    rw [lootCmd_of_cmdMask found, cmdReply_eq, ← LootMask.count_eq] at exactly
    rw [LootMask.ncard_ids]
    exact (take_okText_iff (LootMask.count_le nm)).mp exactly
  · intro fits success
    rcases Option.ne_none_iff_exists'.mp success with ⟨nm, found⟩
    have counts := fits nm.ids (cmdMask_ids.mpr ⟨nm, found, rfl⟩)
    rw [LootMask.ncard_ids] at counts
    rw [lootCmd_of_cmdMask found, cmdReply_eq, ← LootMask.count_eq]
    exact (take_okText_iff (LootMask.count_le nm)).mpr counts

/-- A mask of half of the ids. -/
def half : LootMask where
  mask := Vector.replicate 8192 0x0f

theorem count_half : half.count = 32768 := by
  rw [LootMask.count, half, Vector.toList_replicate, List.map_replicate, List.sum_replicate]
  rfl

/-- With half of the ids the last digit is lost. -/
theorem reply_loses_digit :
    ¬ (cmdMask (fun _ => none) { shown := half, pick := .new false } (text "info") ≠ none ->
      (lootCmd (fun _ => none) { shown := half, pick := .new false } (text "info")).2 =
        okText ((Finset.range 65536).filter fun id =>
          (lootCmd (fun _ => none) { shown := half, pick := .new false }
            (text "info")).1.shown.test id = true).card) := by
  intro told
  have success : cmdMask (fun _ => none) { shown := half, pick := .new false } (text "info") =
      some half := by
    rw [cmdMask, if_pos rfl]
  have exactly := told (Option.ne_none_iff_exists'.mpr ⟨half, success⟩)
  rw [lootCmd_info, cmdReply_eq, ← LootMask.count_eq, count_half] at exactly
  exact absurd ((take_okText_iff (by decide)).mp exactly) (by decide)

end RfxLoot
end Rfx
