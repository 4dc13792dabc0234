import Rfx.Mconf.Description
import Rfx.Mconf.Printers

namespace Rfx
namespace Mconf

open Library
open Words (Shorter)

/-!
# The end of the help text

The text comes to an end if every description does.  Each pass takes something of the
description unless a word is as wide as the description column, or the option is so wide that
its width, which is an `unsigned`, was taken modulo 2^32.
-/

variable {M : Type}

/-! ## One parameter -/

/-- There is a description, and each word of it is shorter than the description column. -/
def Described (optW width : Nat) (p : MetadParam M) : Prop :=
  Exists fun s => description p = some s ∧ (s = [] ∨ Shorter inWord (width - (optW + 6)) s)

/-- `to_string` returns. -/
def Answers (optW : Nat) (m : M) (p : MetadParam M) : Prop :=
  forall print, p.toString = some print -> print p.ptr (maxlen optW) m ≠ none

/-- The help for a parameter comes to an end. -/
def Passes (optW width : Nat) (m : M) (p : MetadParam M) : Prop :=
  Displayed p -> Described optW width p ∧ Answers optW m p

theorem helpDescription_some {p : MetadParam M} {s : List Byte} (described : description p = some s)
    (optW width fuel : Nat) : helpDescription optW width fuel p =
      Trace.loop (helpPass (optW + 6) width) fuel ⟨optionColumn p, s⟩ := by
  rw [helpDescription, described]

theorem fueled_helpDescription (optW width : Nat) (p : MetadParam M) :
    Trace.Fueled fun fuel => helpDescription optW width fuel p := by
  unfold helpDescription
  cases description p with
  | none => exact Trace.fueled_const _
  | some s => exact Trace.fueled_loop _ _

theorem ends_helpDescription {optW width : Nat} {p : MetadParam M} :
    (Trace.Ends fun fuel => helpDescription optW width fuel p) <-> Described optW width p := by
  unfold helpDescription Described
  cases description p with
  | none =>
      refine iff_of_false ?_ (by simp)
      rintro ⟨fuel, returned⟩
      cases returned
  | some s =>
      rw [ends_helpPass]
      simp only [Option.some.injEq, exists_eq_left']

theorem returns_helpDefault {optW : Nat} {m : M} {p : MetadParam M} :
    (helpDefault optW m p).Returns <-> Answers optW m p := by
  unfold helpDefault Answers
  cases p.toString with
  | none => exact iff_of_true rfl nofun
  | some print =>
      dsimp only
      simp only [Option.some.injEq, forall_eq']
      cases print p.ptr (maxlen optW) m with
      | none => exact iff_of_false nofun (absurd rfl)
      | some printed => exact iff_of_true rfl (Option.some_ne_none printed)

theorem fueled_helpParam (optW width : Nat) (m : M) (p : MetadParam M) :
    Trace.Fueled fun fuel => helpParam optW width fuel m p := by
  unfold helpParam
  by_cases displayed : Displayed p
  · simp only [if_pos displayed]
    exact (Trace.fueled_const _).andThen
      ((fueled_helpDescription optW width p).andThen (Trace.fueled_const _))
  · simp only [if_neg displayed]
    exact Trace.fueled_const _

theorem ends_helpParam {optW width : Nat} {m : M} {p : MetadParam M} :
    (Trace.Ends fun fuel => helpParam optW width fuel m p) <-> Passes optW width m p := by
  unfold Passes
  by_cases displayed : Displayed p
  · rw [forall_prop_of_true displayed]
    unfold helpParam
    simp only [if_pos displayed]
    rw [Trace.ends_andThen (Trace.fueled_const _)
        ((fueled_helpDescription optW width p).andThen (Trace.fueled_const _)),
      Trace.ends_andThen (fueled_helpDescription optW width p) (Trace.fueled_const _),
      Trace.ends_const, Trace.ends_const, ends_helpDescription, returns_helpDefault]
    exact and_iff_right (Trace.returns_emit _)
  · unfold helpParam
    simp only [if_neg displayed]
    exact iff_of_true ⟨0, Trace.returns_emit _⟩ fun shown => absurd shown displayed

/-- What is done for a parameter. -/
theorem throughout_helpParam {event : HelpEvent -> Prop} {optW width : Nat} {m : M}
    {p : MetadParam M} :
    (Trace.Throughout event fun fuel => helpParam optW width fuel m p) <->
      (Displayed p ->
        (forall e, e ∈ writes 0 (optionColumn p).length -> event e) ∧
          (Trace.Throughout event fun fuel => helpDescription optW width fuel p) ∧
            (Described optW width p -> (helpDefault optW m p).Always event)) := by
  by_cases displayed : Displayed p
  · rw [forall_prop_of_true displayed]
    unfold helpParam
    simp only [if_pos displayed]
    rw [Trace.throughout_andThen (Trace.fueled_const _)
        ((fueled_helpDescription optW width p).andThen (Trace.fueled_const _)),
      Trace.throughout_andThen (fueled_helpDescription optW width p) (Trace.fueled_const _),
      Trace.throughout_const, Trace.throughout_const, Trace.ends_const, ends_helpDescription,
      Trace.always_emit]
    exact and_congr_right fun _ => forall_prop_of_true (Trace.returns_emit _)
  · unfold helpParam
    simp only [if_neg displayed]
    exact iff_of_true (fun _ e member => absurd member List.not_mem_nil) fun shown => absurd shown displayed

/-! ## The passes -/

/-- A pass consumes at least one character of a comment that is not exhausted. -/
def Consuming : HelpEvent -> Prop
  | .write _ => True
  | .puts _ => True
  | .pass before after => before ≠ 0 -> after < before

theorem consuming_writes {start stop : Nat} {e : HelpEvent} (member : e ∈ writes start stop) :
    Consuming e := by
  rcases mem_writes.mp member with ⟨i, _, _, rfl⟩
  exact trivial

theorem helpDefault_consuming (optW : Nat) (m : M) (p : MetadParam M) :
    (helpDefault optW m p).Always Consuming := by
  unfold helpDefault
  cases p.toString with
  | none => exact fun e member => absurd member List.not_mem_nil
  | some print =>
      dsimp only
      cases print p.ptr (maxlen optW) m with
      | none =>
          rw [Trace.Always, List.forall_mem_append]
          exact ⟨fun _ => consuming_writes, fun _ => consuming_writes⟩
      | some printed =>
          rw [Trace.always_emit, List.forall_mem_append, List.forall_mem_append, List.forall_mem_append]
          refine ⟨⟨⟨fun _ => consuming_writes, fun _ => consuming_writes⟩, fun _ => consuming_writes⟩, ?_⟩
          split
          · rw [List.forall_mem_cons, List.forall_mem_singleton]
            exact ⟨trivial, trivial⟩
          · exact fun e member => absurd member List.not_mem_nil

/-- The events of a pass, as far as it matters what it consumes. -/
theorem helpPass_consuming {column e : Nat} {c : Cursor} :
    (forall event, event ∈ (helpPass column e c).1 -> Consuming event) <->
      (c.s ≠ [] -> (restOf column e c).length < c.s.length) := by
  rw [helpPass, finish, List.forall_mem_append, List.forall_mem_append, List.forall_mem_append,
    List.forall_mem_append, List.forall_mem_singleton, List.forall_mem_singleton]
  have passed : Consuming (.pass c.s.length (restOf column e c).length) <->
      (c.s ≠ [] -> (restOf column e c).length < c.s.length) :=
    imp_congr_left (not_congr List.length_eq_zero_iff)
  rw [← passed]
  constructor
  · exact And.right
  · intro consumes
    exact ⟨⟨⟨fun _ => consuming_writes, fun _ => consuming_writes⟩, fun _ => consuming_writes, trivial⟩,
      consumes⟩

/-- When the option ends in front of the description column, each pass consumes something of a
description whose words are shorter than this column. -/
theorem helpDescription_consuming {optW width : Nat} {p : MetadParam M} {s : List Byte}
    (described : description p = some s)
    (fits : s ≠ [] -> optionWidth p ≤ optW ∧ Shorter inWord (width - (optW + 6)) s) :
    Trace.Throughout Consuming fun fuel => helpDescription optW width fuel p := by
  simp only [helpDescription_some described]
  refine Trace.throughout_loop (fun c : Cursor => c.s ≠ [] -> c.line.length ≤ optW + 6 ∧
    Shorter inWord (width - (optW + 6)) c.s) ?_ ?_ ?_
  · intro c ready
    apply helpPass_consuming.mpr
    intro some
    exact copyWords_progress (ready some).1 some (ready some).2
  · intro c next ready more some
    rcases helpPass_some.mp more with ⟨_, rfl⟩
    have before : c.s ≠ [] := by
      rintro none
      exact some (List.suffix_nil.mp (none ▸ restOf_suffix))
    exact ⟨Nat.zero_le _, (ready before).2.within restOf_suffix.isInfix⟩
  · intro some
    refine ⟨?_, (fits some).2⟩
    have narrow := (fits some).1
    rw [length_optionColumn]
    omega

/-- When the option ends behind the line, the first pass consumes nothing. -/
theorem optionWidth_lt_of_consuming {optW width : Nat} {p : MetadParam M} {s : List Byte}
    (described : description p = some s) (some : s ≠ [])
    (consuming : Trace.Throughout Consuming fun fuel => helpDescription optW width fuel p) :
    2 + optionWidth p < width := by
  simp only [helpDescription_some described] at consuming
  have consumes := helpPass_consuming.mp (fun event member => consuming.first member) some
  by_contra full
  rw [restOf, copyWords_full] at consumes
  · exact Nat.lt_irrefl _ consumes
  · left
    rw [length_pad, length_optionColumn]
    omega

/-! ## The whole text -/

theorem ends_mconfHelpMsg {cf : Mconf M} {width : Nat} {m : M} :
    Trace.Ends (cf.mconfHelpMsg width m) <-> forall p, p ∈ cf.params -> Passes cf.optW width m p :=
  (Trace.ends_sequence (fueled_helpParam cf.optW width m)).trans
    (forall₂_congr fun _ _ => ends_helpParam)

theorem le_foldl_max {X : Type} (f : X -> Nat) (xs : List X) (start : Nat) :
    start ≤ xs.foldl (fun most x => max most (f x)) start ∧
      forall x, x ∈ xs -> f x ≤ xs.foldl (fun most x => max most (f x)) start := by
  induction xs generalizing start with
  | nil => exact ⟨Nat.le_refl _, nofun⟩
  | cons x xs inductionHypothesis =>
      rcases inductionHypothesis (max start (f x)) with ⟨first, later⟩
      rw [List.foldl_cons]
      refine ⟨Nat.le_trans (Nat.le_max_left ..) first, ?_⟩
      rw [List.forall_mem_cons]
      exact ⟨Nat.le_trans (Nat.le_max_right ..) first, later⟩

theorem optionWidth_le {cf : Mconf M} {p : MetadParam M} (member : p ∈ cf.params) :
    optionWidth p % 2 ^ 32 ≤ cf.optW :=
  (le_foldl_max (fun p => optionWidth p % 2 ^ 32) cf.params 0).2 p member

/-- The help for a parameter can be shown: `to_string` returns, and where there is something to
describe, the option is not wider than the widest one that was found, and each word is shorter
than the description column. -/
structure Showable (optW width : Nat) (m : M) (p : MetadParam M) : Prop where
  answers : Answers optW m p
  option : forall s, description p = some s -> s ≠ [] -> optionWidth p ≤ optW
  words : forall s, description p = some s -> s ≠ [] -> Shorter inWord (width - (optW + 6)) s

/-- The help text comes to an end, with each pass consuming at least one character of the
comment, exactly if the help for each parameter can be shown. -/
theorem mconfHelpMsg_consumes_iff {cf : Mconf M} {width : Nat} {m : M}
    (comments : forall p, p ∈ cf.params -> p.comment ≠ none) (inside : width ≤ 127) :
    Trace.Ends (cf.mconfHelpMsg width m) ∧ Trace.Throughout Consuming (cf.mconfHelpMsg width m) <->
      forall p, p ∈ cf.params -> Displayed p -> Showable cf.optW width m p := by
  have fueled := fueled_helpParam cf.optW width m
  rw [ends_mconfHelpMsg]
  constructor
  · rintro ⟨ended, consuming⟩ p member displayed
    rcases ended p member displayed with ⟨⟨shown, same, fits⟩, answers⟩
    rcases List.append_of_mem member with ⟨before, after, split⟩
    have reached (q : MetadParam M) (earlier : q ∈ before) :
        Trace.Ends fun fuel => helpParam cf.optW width fuel m q :=
      ends_helpParam.mpr (ended q (split ▸ List.mem_append_left _ earlier))
    have here := (Trace.throughout_sequence fueled).mp consuming before p after split reached
    have described := (throughout_helpParam.mp here displayed).2.1
    refine ⟨answers, ?_, ?_⟩
    · intro s isS some
      have below := optionWidth_lt_of_consuming isS some described
      have wrapped := optionWidth_le member
      rwa [Nat.mod_eq_of_lt (by omega)] at wrapped
    · intro s isS some
      cases isS.symm.trans same
      exact fits.resolve_left some
  · intro showable
    have described (p : MetadParam M) (member : p ∈ cf.params) :
        Exists fun s => description p = some s := by
      rcases Option.ne_none_iff_exists'.mp (comments p member) with ⟨comment, commented⟩
      exact ⟨_, by rw [description, commented]; rfl⟩
    constructor
    · intro p member displayed
      rcases described p member with ⟨s, isS⟩
      have words := (showable p member displayed).words s isS
      exact ⟨⟨s, isS, or_iff_not_imp_left.mpr words⟩, (showable p member displayed).answers⟩
    · refine (Trace.throughout_sequence fueled).mpr ?_
      intro before p after split _
      have member : p ∈ cf.params := split ▸ List.mem_append_right _ List.mem_cons_self
      refine throughout_helpParam.mpr ?_
      intro displayed
      rcases described p member with ⟨s, isS⟩
      have fits (some : s ≠ []) : optionWidth p ≤ cf.optW ∧ Shorter inWord (width - (cf.optW + 6)) s :=
        ⟨(showable p member displayed).option s isS some, (showable p member displayed).words s isS some⟩
      exact ⟨fun _ => consuming_writes, helpDescription_consuming isS fits,
        fun _ => helpDefault_consuming cf.optW m p⟩

/-- A configuration with one parameter, whose value is shown. -/
def helpConf (comment : List Byte) : Mconf Memory :=
  { sizeConf with
    cb := [⟨[{ sizeParam with toString := some mconfGetUintSize, comment := some comment }],
      some (text "main")⟩] }

/-- The help for `-s, --size SIZE`. -/
theorem mconfHelpMsg_consumes_iff_size :
    Trace.Ends ((helpConf (text "SIZE|of a buffer")).mconfHelpMsg 79 freshState.memory) ∧
      Trace.Throughout Consuming
        ((helpConf (text "SIZE|of a buffer")).mconfHelpMsg 79 freshState.memory) := by
  refine (mconfHelpMsg_consumes_iff ?_ (by decide)).mpr ?_
  · intro p member
    rw [List.mem_singleton.mp member]
    exact Option.some_ne_none _
  · intro p member _
    rw [List.mem_singleton.mp member]
    constructor
    · intro print same
      cases same
      exact Option.some_ne_none _
    · intro s isS _
      decide
    · intro s isS _
      cases isS
      exact Words.shorter_of_length (by decide)

/-- A word that is exactly as wide as the description column is never shown. -/
theorem mconfHelpMsg_never_ends :
    (helpConf (List.replicate 63 0x61)).optW + 6 = 16 ∧
      ¬ Trace.Ends ((helpConf (List.replicate 63 0x61)).mconfHelpMsg 79 freshState.memory) := by
  have column : (helpConf (List.replicate 63 0x61)).optW + 6 = 16 := by decide +kernel
  refine ⟨column, ?_⟩
  intro ended
  have passes := ends_mconfHelpMsg.mp ended _ (List.mem_singleton.mpr rfl) (by decide)
  rcases passes.1 with ⟨s, described, fits⟩
  have whole : s = List.replicate 63 0x61 := (Option.some.inj described).symm.trans (by decide +kernel)
  rw [whole, column] at fits
  rcases fits with none | short
  · cases none
  · have less := short (List.replicate 63 0x61) List.infix_rfl fun c member => by
      rw [List.eq_of_mem_replicate member]
      rfl
    rw [List.length_replicate] at less
    exact Nat.lt_irrefl _ less

end Mconf
end Rfx
