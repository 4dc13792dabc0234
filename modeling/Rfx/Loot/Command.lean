import Rfx.Library.Words
import Rfx.Loot.Mask

namespace Rfx
namespace RfxLoot

open Library

/-!
# What a loot command does

A command is a row of tokens.  `Tokens` says which ones without following the
scanner, and `lootCmd` is then a fold over them that a token without a mask ends.
-/

/-! ## The mask of a name -/

/-- The mask that a name stands for by itself. -/
def maskOf (files : Files) (name : List Byte) : Option LootMask :=
  parseMask files (.new false) name

/-- Nothing is left of what an earlier token had put into the mask. -/
theorem parseMask_eq (files : Files) (d : LootMask) (name : List Byte) :
    parseMask files d name = maskOf files name := by
  unfold maskOf parseMask
  simp only [LootMask.setAll_eq]

/-- The ids that a name stands for. -/
def idsOf (files : Files) (name : List Byte) : Set Nat :=
  {id | Exists fun d => maskOf files name = some d ∧ id ∈ d.ids}

theorem idsOf_eq {files : Files} {name : List Byte} {d : LootMask}
    (parsed : maskOf files name = some d) : idsOf files name = d.ids := by
  ext id
  constructor
  · rintro ⟨other, same, member⟩
    rw [parsed] at same
    rwa [Option.some.inj same]
  · exact fun member => ⟨d, parsed, member⟩

/-- What an operation does to a set of ids. -/
def Op.onIds (before named : Set Nat) : Op -> Set Nat
  | .set => named
  | .add => before ∪ named
  | .sub => before \ named

theorem Op.ids_apply (op : Op) (nm d : LootMask) : (op.apply nm d).ids = op.onIds nm.ids d.ids := by
  cases op with
  | set => rfl
  | add => exact LootMask.ids_add nm d
  | sub => exact LootMask.ids_sub nm d

/-! ## The tokens of a command -/

/-- How an operation is written in front of a name. -/
def signText : Op -> List Byte
  | .set => []
  | .add => [0x2b]
  | .sub => [0x2d]

/-- The tokens of a command: after spaces, an optional sign and the longest run of
bytes that can be part of a name, until only spaces are left.  A sign that no such
byte follows is a token with an empty name. -/
inductive Tokens : List Byte -> List (Op × List Byte) -> Prop
  | blank {m : List Byte} (spaces : forall c, c ∈ m -> isspace c = true) : Tokens m []
  | token {spaces name rest : List Byte} {op : Op} {later : List (Op × List Byte)}
      (skipped : forall c, c ∈ spaces -> isspace c = true)
      (found : signText op ++ name ≠ [])
      (longest : Words.Front inName (name ++ rest) name rest)
      (others : Tokens rest later) :
      Tokens (spaces ++ (signText op ++ (name ++ rest))) ((op, name) :: later)

theorem signText_signed (m : List Byte) : signText (signed m).1 ++ (signed m).2 = m := by
  cases m with
  | nil => rfl
  | cons c m =>
      rw [signed]
      by_cases plus : c = 0x2b
      · rw [if_pos plus, plus]
        rfl
      · by_cases minus : c = 0x2d
        · rw [if_neg plus, if_pos minus, minus]
          rfl
        · rw [if_neg plus, if_neg minus]
          rfl

theorem not_isspace_of_inName {c : Byte} (named : inName c = true) : isspace c = false := by
  simpa using (Bool.and_eq_true_iff.mp named).2

theorem not_sign_of_inName {c : Byte} (named : inName c = true) : c ≠ 0x2b ∧ c ≠ 0x2d := by
  simpa using (Bool.and_eq_true_iff.mp named).1

theorem signed_append {op : Op} {m : List Byte}
    (plain : op = .set -> forall c, m.head? = some c -> inName c = true) :
    signed (signText op ++ m) = (op, m) := by
  cases op with
  | add => rfl
  | sub => rfl
  | set =>
      cases m with
      | nil => rfl
      | cons c tail =>
          have noSign := not_sign_of_inName (plain rfl c rfl)
          change signed (c :: tail) = _
          rw [signed, if_neg noSign.1, if_neg noSign.2]

theorem noSign_of_signText {c : Byte} {tail : List Byte}
    (noSign : signText (signed (c :: tail)).1 = []) : c ≠ 0x2b ∧ c ≠ 0x2d := by
  constructor
  · rintro rfl
    cases noSign
  · rintro rfl
    cases noSign

theorem nextToken_eq_none {m : List Byte} :
    nextToken m = none <-> forall c, c ∈ m -> isspace c = true := by
  rw [← List.dropWhile_eq_nil_iff, nextToken]
  cases m.dropWhile isspace with
  | nil => simp
  | cons c tail => simp

/-- The scanner finds the token that stands in front. -/
theorem nextToken_token {spaces name rest : List Byte} {op : Op}
    (skipped : forall c, c ∈ spaces -> isspace c = true) (found : signText op ++ name ≠ [])
    (longest : Words.Front inName (name ++ rest) name rest) :
    nextToken (spaces ++ (signText op ++ (name ++ rest))) = some ⟨op, name, rest⟩ := by
  have firstNamed : op = .set -> forall c, (name ++ rest).head? = some c -> inName c = true := by
    intro unsigned c first
    subst unsigned
    cases name with
    | nil => exact absurd rfl found
    | cons b tail =>
        cases first
        exact longest.all c (List.mem_cons_self ..)
  have noSpace : (signText op ++ (name ++ rest)).dropWhile isspace = signText op ++ (name ++ rest) := by
    apply Words.dropWhile_eq_self
    intro c first
    cases op with
    | add => cases first; rfl
    | sub => cases first; rfl
    | set => exact not_isspace_of_inName (firstNamed rfl c first)
  rw [nextToken, List.dropWhile_append_of_pos skipped, noSpace]
  have signedEq := signed_append firstNamed
  cases shape : signText op ++ (name ++ rest) with
  | nil =>
      have nothing := List.append_eq_nil_iff.mp shape
      have noName := List.append_eq_nil_iff.mp nothing.2
      exact absurd (by rw [nothing.1, noName.1]; rfl) found
  | cons c tail =>
      rw [shape] at signedEq
      simp only [signedEq, longest.takeWhile_eq, longest.dropWhile_eq]

/-- What the scanner finds is a token that stands in front. -/
theorem nextToken_eq_some {m : List Byte} {token : Token} (next : nextToken m = some token) :
    Exists fun spaces => m = spaces ++ (signText token.op ++ (token.name ++ token.rest)) ∧
      (forall c, c ∈ spaces -> isspace c = true) ∧ signText token.op ++ token.name ≠ [] ∧
        Words.Front inName (token.name ++ token.rest) token.name token.rest := by
  have spaces := Words.front_takeWhile isspace m
  rw [nextToken] at next
  cases shape : m.dropWhile isspace with
  | nil =>
      rw [shape] at next
      cases next
  | cons c tail =>
      rw [shape] at next spaces
      cases next
      have cut := Words.front_takeWhile inName (signed (c :: tail)).2
      have whole := signText_signed (c :: tail)
      refine ⟨m.takeWhile isspace, ?_, spaces.all, ?_, ?_⟩
      · rw [List.takeWhile_append_dropWhile, whole]
        exact spaces.eq
      · intro nothing
        rcases List.append_eq_nil_iff.mp nothing with ⟨noSign, noName⟩
        have noSpace : isspace c = false := spaces.stop c rfl
        have unsigned := noSign_of_signText noSign
        have named : inName c = true := by simp [inName, unsigned, noSpace]
        rw [noSign, List.nil_append] at whole
        change (signed (c :: tail)).2.takeWhile inName = [] at noName
        rw [whole, List.takeWhile_cons, if_pos named] at noName
        cases noName
      · rw [List.takeWhile_append_dropWhile]
        exact cut

/-- Every token uses up some of the command, whether it has a name or only a sign. -/
theorem length_rest {m : List Byte} {token : Token} (next : nextToken m = some token) :
    token.rest.length < m.length := by
  rcases nextToken_eq_some next with ⟨spaces, whole, _, found, _⟩
  have positive := List.length_pos_iff.mpr found
  have lengths := congrArg List.length whole
  simp only [List.length_append] at positive lengths
  omega

/-- Every command has tokens. -/
theorem exists_tokens (m : List Byte) : Exists (Tokens m) := by
  cases next : nextToken m with
  | none => exact ⟨[], .blank (nextToken_eq_none.mp next)⟩
  | some token =>
      have shorter := length_rest next
      rcases exists_tokens token.rest with ⟨later, others⟩
      rcases nextToken_eq_some next with ⟨spaces, whole, skipped, found, longest⟩
      exact ⟨(token.op, token.name) :: later, whole ▸ .token skipped found longest others⟩
termination_by m.length

/-- A command has no other tokens. -/
theorem Tokens.unique {m : List Byte} {first second : List (Op × List Byte)}
    (left : Tokens m first) (right : Tokens m second) : second = first := by
  induction left generalizing second with
  | blank spaces =>
      have nothing := nextToken_eq_none.mpr spaces
      cases right with
      | blank _ => rfl
      | token skipped found longest _ =>
          rw [nextToken_token skipped found longest] at nothing
          cases nothing
  | token skipped found longest _ inductionHypothesis =>
      have next := nextToken_token skipped found longest
      generalize wholeEq : _ ++ (signText _ ++ _) = whole at right next
      cases right with
      | blank spaces =>
          rw [nextToken_eq_none.mpr spaces] at next
          cases next
      | token skipped' found' longest' others' =>
          rw [nextToken_token skipped' found' longest'] at next
          cases next
          rw [inductionHypothesis others']

/-! ## The loop over the tokens -/

/-- What a token makes of a mask. -/
def tokenStep (files : Files) (nm : LootMask) (token : Op × List Byte) : Option LootMask :=
  (maskOf files token.2).map fun d => token.1.apply nm d

theorem cmdLoop_of_blank {files : Files} {m : List Byte} (next : nextToken m = none)
    (d nm : LootMask) : cmdLoop files d nm m = some nm := by
  rw [cmdLoop]
  split
  · rfl
  · rename_i token found
    rw [next] at found
    cases found

theorem cmdLoop_of_token {files : Files} {m : List Byte} {token : Token}
    (next : nextToken m = some token) (d nm : LootMask) :
    cmdLoop files d nm m = (maskOf files token.name).bind fun named =>
      cmdLoop files named (token.op.apply nm named) token.rest := by
  rw [cmdLoop]
  split
  · rename_i found
    rw [next] at found
    cases found
  · rename_i other found
    rw [next] at found
    cases found
    split
    · rename_i rejected
      rw [← parseMask_eq files d, rejected, Option.bind_none]
    · rename_i named accepted
      rw [← parseMask_eq files d, accepted, Option.bind_some]

/-- The loop goes through the tokens and applies each of them. -/
theorem cmdLoop_eq {files : Files} {m : List Byte} {tokens : List (Op × List Byte)}
    (read : Tokens m tokens) (d nm : LootMask) :
    cmdLoop files d nm m = tokens.foldlM (tokenStep files) nm := by
  induction read generalizing d nm with
  | blank spaces => exact cmdLoop_of_blank (nextToken_eq_none.mpr spaces) d nm
  | token skipped found longest _ inductionHypothesis =>
      rename_i name rest op later _
      rw [cmdLoop_of_token (nextToken_token skipped found longest), List.foldlM_cons, tokenStep]
      cases maskOf files name with
      | none => rfl
      | some named => exact inductionHypothesis named (op.apply nm named)

/-- The set of ids after all tokens, each taken by itself. -/
def idsAfter (files : Files) (before : Set Nat) (tokens : List (Op × List Byte)) : Set Nat :=
  tokens.foldl (fun ids token => token.1.onIds ids (idsOf files token.2)) before

/-- When every token has a mask, the loop ends with the fold of the masks. -/
theorem foldlM_of_accepted {files : Files} {tokens : List (Op × List Byte)}
    (accepted : forall token, token ∈ tokens -> maskOf files token.2 ≠ none) (nm : LootMask) :
    Exists fun after => tokens.foldlM (tokenStep files) nm = some after ∧
      after.ids = idsAfter files nm.ids tokens := by
  induction tokens generalizing nm with
  | nil => exact ⟨nm, rfl, rfl⟩
  | cons token later inductionHypothesis =>
      rcases Option.ne_none_iff_exists'.mp (accepted token (List.mem_cons_self ..)) with ⟨d, parsed⟩
      have others : forall other, other ∈ later -> maskOf files other.2 ≠ none :=
        fun other member => accepted other (List.mem_cons_of_mem _ member)
      rcases inductionHypothesis others (token.1.apply nm d) with ⟨after, folded, ids⟩
      refine ⟨after, ?_, ?_⟩
      · rw [List.foldlM_cons, tokenStep, parsed]
        exact folded
      · rw [ids, idsAfter, idsAfter, List.foldl_cons, Op.ids_apply, idsOf_eq parsed]

/-- When some token has no mask, the loop ends without one, wherever the token stands. -/
theorem foldlM_of_rejected {files : Files} {tokens : List (Op × List Byte)}
    {token : Op × List Byte} (member : token ∈ tokens) (rejected : maskOf files token.2 = none)
    (nm : LootMask) : tokens.foldlM (tokenStep files) nm = none := by
  induction tokens generalizing nm with
  | nil => cases member
  | cons first later inductionHypothesis =>
      rw [List.foldlM_cons]
      rcases List.mem_cons.mp member with here | behind
      · rw [tokenStep, ← here, rejected]
        rfl
      · cases tokenStep files nm first with
        | none => rfl
        | some after => exact inductionHypothesis behind after

theorem lootCmd_info (files : Files) (lm : LootState) :
    lootCmd files lm (text "info") = (lm, cmdReply lm.shown) := by
  rw [lootCmd, cmdMask, if_pos rfl]

/-- A command that is not `info` is the loop over its tokens. -/
theorem cmdMask_eq {files : Files} {lm : LootState} {msg : List Byte}
    {tokens : List (Op × List Byte)} (command : msg ≠ text "info")
    (read : Tokens (msg.takeWhile (· ≠ 0)) tokens) :
    cmdMask files lm msg = tokens.foldlM (tokenStep files) lm.shown := by
  rw [cmdMask, if_neg command, cmdLoop_eq read]

/-- What a command does: each of its tokens stands for a mask of its own, whatever
was read before; `shown` becomes what the operations make of the old ids, in the
order of the tokens; and a single token without a mask leaves everything as it was. -/
theorem lootCmd_applies_tokens (files : Files) (lm : LootState) (msg : List Byte) :
    (forall d name, parseMask files d name = maskOf files name) ∧
    (Exists fun tokens => Tokens (msg.takeWhile (· ≠ 0)) tokens ∧
      (forall others, Tokens (msg.takeWhile (· ≠ 0)) others -> others = tokens) ∧
      (msg ≠ text "info" ->
        ((forall token, token ∈ tokens -> maskOf files token.2 ≠ none) ->
          (lootCmd files lm msg).1.shown.ids = idsAfter files lm.shown.ids tokens ∧
            (lootCmd files lm msg).1.pick = lm.pick) ∧
        (forall token, token ∈ tokens -> maskOf files token.2 = none ->
          lootCmd files lm msg = (lm, text "can't parse loot mask")))) ∧
    (msg = text "info" ∨ (forall c, c ∈ msg.takeWhile (· ≠ 0) -> isspace c = true) ->
      (lootCmd files lm msg).1 = lm) := by
  refine ⟨fun d name => parseMask_eq files d name, ?_, ?_⟩
  · rcases exists_tokens (msg.takeWhile (· ≠ 0)) with ⟨tokens, read⟩
    refine ⟨tokens, read, fun others readOthers => read.unique readOthers, fun command => ⟨?_, ?_⟩⟩
    · intro accepted
      rcases foldlM_of_accepted accepted lm.shown with ⟨after, folded, ids⟩
      rw [lootCmd, cmdMask_eq command read, folded]
      exact ⟨ids, rfl⟩
    · intro token member rejected
      rw [lootCmd, cmdMask_eq command read, foldlM_of_rejected member rejected]
  · intro unchanged
    by_cases info : msg = text "info"
    · rw [info, lootCmd_info]
    · have blank := unchanged.resolve_left info
      rw [lootCmd, cmdMask_eq info (.blank blank)]
      rfl

end RfxLoot
end Rfx
