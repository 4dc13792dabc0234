import Rfx.Library.Run
import Rfx.Mconf.Requests

namespace Rfx
namespace Mconf

open Library

/-!
# Registered parameters

What `mconf_add` makes sure of, whatever was registered before: parameters of
different blocks have no conflict, and `opt_idx` tells long options apart, from each
other and from the short options.  Parameters of one block are not compared.
-/

variable {M : Type}

/-- There is a long option and no short option beside it. -/
def LongOnly (p : MetadParam M) : Prop :=
  p.optLong ≠ none ∧ p.optShort = 0

/-- `opt_idx` is the short option beside the long one, or else in a range. -/
def Numbered (low high : Nat) (p : MetadParam M) : Prop :=
  p.optLong ≠ none ->
    if p.optShort = 0 then low ≤ p.optIdx ∧ p.optIdx < high else p.optIdx = charInt p.optShort

/-- What a parameter is called: its short option, its long option and its config name. -/
structure Names where
  optShort : Byte
  optLong : Option (List Byte)
  confName : Option (List Byte)
  deriving DecidableEq

def names (p : MetadParam M) : Names :=
  ⟨p.optShort, p.optLong, p.confName⟩

/-- What stays the same in a block when it is registered. -/
def blockNames (block : MconfBlock M) : Option (List Byte) × List Names :=
  (block.sec, block.opt.map names)

theorem Numbered.mono {low high low' high' : Nat} {p : MetadParam M} (numbered : Numbered low high p)
    (lower : low' ≤ low) (higher : high ≤ high') : Numbered low' high' p := by
  intro long
  have before := numbered long
  split at before
  · next longOnly =>
      rw [if_pos longOnly]
      exact ⟨Int.le_trans (Int.ofNat_le.mpr lower) before.1,
        Int.lt_of_lt_of_le before.2 (Int.ofNat_le.mpr higher)⟩
  · next short =>
      rw [if_neg short]
      exact before

/-- A number is no character but the short option beside it. -/
theorem Numbered.optIdx_ne {high : Nat} {p : MetadParam M} {c : Byte} (numbered : Numbered 256 high p)
    (long : p.optLong ≠ none) (other : p.optShort ≠ c) : p.optIdx ≠ charInt c := by
  have number := numbered long
  have bound := charInt_lt c
  by_cases longOnly : p.optShort = 0
  · rw [if_pos longOnly] at number
    omega
  · rw [if_neg longOnly] at number
    rw [number]
    exact fun same => other (charInt_inj.mp same)

theorem checkBlock_eq_false {blockSection sec : Option (List Byte)} {opt : MetadParam M}
    {ps : List (MetadParam M)} :
    checkBlock blockSection sec opt ps = some false <->
      forall p, p ∈ ps -> conflict blockSection sec p opt = some false := by
  induction ps with
  | nil => simp [checkBlock]
  | cons p ps inductionHypothesis =>
      rw [checkBlock, Option.bind_eq_some_iff, List.forall_mem_cons, ← inductionHypothesis]
      constructor
      · rintro ⟨found, tested, rest⟩
        cases found with
        | true => cases rest
        | false => exact ⟨tested, rest⟩
      · exact fun both => ⟨false, both.1, both.2⟩

theorem mconfCheckConflict_eq_false {sec : Option (List Byte)} {opt : MetadParam M}
    {blocks : List (MconfBlock M)} :
    mconfCheckConflict sec opt blocks = some false <->
      forall block, block ∈ blocks -> forall p, p ∈ block.opt ->
        conflict block.sec sec p opt = some false := by
  induction blocks with
  | nil => simp [mconfCheckConflict]
  | cons block blocks inductionHypothesis =>
      rw [mconfCheckConflict, Option.bind_eq_some_iff, List.forall_mem_cons, ← inductionHypothesis,
        ← checkBlock_eq_false]
      constructor
      · rintro ⟨found, tested, rest⟩
        cases found with
        | true => cases rest
        | false => exact ⟨tested, rest⟩
      · exact fun both => ⟨false, both.1, both.2⟩

/-! ## One block -/

/-- Counting a parameter gives it a number, and changes nothing else about it. -/
theorem account_eq {cf counted : Mconf M} {opt opt' : MetadParam M}
    (accounted : account cf opt = some (counted, opt')) :
    counted.cb = cf.cb ∧ cf.longIdx ≤ counted.longIdx ∧ opt' = { opt with optIdx := opt'.optIdx } ∧
      Numbered cf.longIdx counted.longIdx opt' := by
  unfold account at accounted
  dsimp only at accounted
  split at accounted
  · next noLong =>
      cases accounted
      exact ⟨rfl, Nat.le_refl _, rfl, fun long => absurd noLong long⟩
  · split at accounted
    · next short =>
        cases accounted
        exact ⟨rfl, Nat.le_refl _, rfl, fun _ => by rw [if_neg short]⟩
    · next longOnly =>
        split at accounted
        · cases accounted
          refine ⟨rfl, Nat.le_succ _, rfl, fun _ => ?_⟩
          rw [if_pos (not_not.mp longOnly)]
          exact ⟨Int.le_refl _, Int.ofNat_lt.mpr (Nat.lt_succ_self _)⟩
        · cases accounted

/-- The loop of `mconf_add` leaves the registered blocks and the names alone. -/
theorem addParams_frame {cf final : Mconf M} {sec : Option (List Byte)}
    {opts opts' : List (MetadParam M)} {complete : Bool}
    (added : addParams sec cf opts = some (final, opts', complete)) :
    final.cb = cf.cb ∧ cf.longIdx ≤ final.longIdx ∧ opts'.map names = opts.map names := by
  induction opts generalizing cf opts' with
  | nil =>
      cases added
      exact ⟨rfl, Nat.le_refl _, rfl⟩
  | cons opt opts inductionHypothesis =>
      rcases Option.bind_eq_some_iff.mp added with ⟨found, _, rest⟩
      split at rest
      · cases rest
        exact ⟨rfl, Nat.le_refl _, rfl⟩
      · rcases Option.bind_eq_some_iff.mp rest with ⟨⟨counted, opt'⟩, accounted, behind⟩
        rcases Option.map_eq_some_iff.mp behind with ⟨⟨last, others, whole⟩, later, same⟩
        cases same
        rcases account_eq accounted with ⟨sameCb, more, sameOpt, _⟩
        rcases inductionHypothesis later with ⟨lastCb, moreLater, sameNames⟩
        have here : names opt' = names opt := by rw [sameOpt]; rfl
        exact ⟨lastCb.trans sameCb, Nat.le_trans more moreLater,
          by rw [List.map_cons, List.map_cons, here, sameNames]⟩

/-- The parameters of a block that was gone through completely. -/
structure Checked (cf final : Mconf M) (sec : Option (List Byte)) (opts : List (MetadParam M)) :
    Prop where
  apart : forall q, q ∈ opts -> mconfCheckConflict sec q cf.cb = some false
  numbered : forall q, q ∈ opts -> Numbered cf.longIdx final.longIdx q
  ordered : opts.Pairwise fun p q => LongOnly p -> LongOnly q -> p.optIdx < q.optIdx

theorem addParams_checked {cf final : Mconf M} {sec : Option (List Byte)}
    {opts opts' : List (MetadParam M)}
    (added : addParams sec cf opts = some (final, opts', true)) : Checked cf final sec opts' := by
  induction opts generalizing cf opts' with
  | nil =>
      cases added
      exact ⟨nofun, nofun, List.Pairwise.nil⟩
  | cons opt opts inductionHypothesis =>
      rcases Option.bind_eq_some_iff.mp added with ⟨found, tested, rest⟩
      cases found with
      | true => cases rest
      | false =>
          rcases Option.bind_eq_some_iff.mp rest with ⟨⟨counted, opt'⟩, accounted, behind⟩
          rcases Option.map_eq_some_iff.mp behind with ⟨⟨last, others, whole⟩, later, same⟩
          cases same
          rcases account_eq accounted with ⟨sameCb, more, sameOpt, numberedHere⟩
          have checked := inductionHypothesis later
          have moreLater := (addParams_frame later).2.1
          have tested' : mconfCheckConflict sec opt' cf.cb = some false := by
            rw [mconfCheckConflict_eq_false] at tested ⊢
            rw [sameOpt]
            exact tested
          refine ⟨?_, ?_, ?_⟩
          · rw [List.forall_mem_cons]
            refine ⟨tested', fun q member => ?_⟩
            rw [← sameCb]
            exact checked.apart q member
          · rw [List.forall_mem_cons]
            exact ⟨numberedHere.mono (Nat.le_refl _) moreLater,
              fun q member => (checked.numbered q member).mono more (Nat.le_refl _)⟩
          · refine List.Pairwise.cons (fun q member longHere longThere => ?_) checked.ordered
            have here := numberedHere longHere.1
            have there := checked.numbered q member longThere.1
            rw [if_pos longHere.2] at here
            rw [if_pos longThere.2] at there
            exact Int.lt_of_lt_of_le here.2 there.1

/-! ## All blocks -/

/-- What holds of every configuration, whatever was added to it. -/
structure Registered (cf : Mconf M) : Prop where
  beyond : 256 ≤ cf.longIdx
  numbered : forall e, e ∈ cf.entries -> Numbered 256 cf.longIdx e.param
  ordered : cf.entries.Pairwise fun a b =>
    LongOnly a.param -> LongOnly b.param -> a.param.optIdx < b.param.optIdx
  apart : cf.cb.Pairwise fun one other => forall p, p ∈ one.opt -> forall q, q ∈ other.opt ->
    conflict one.sec other.sec p q = some false

theorem mconfInit_registered (address : Nat) (cfgPath : Option (List Byte)) (argv : List (List Byte)) :
    Registered (mconfInit address cfgPath argv : Mconf M) where
  beyond := Nat.le_refl 256
  numbered := nofun
  ordered := List.Pairwise.nil
  apart := List.Pairwise.nil

theorem Registered.mconfAdd {cf final : Mconf M} {sec : Option (List Byte)}
    {opts opts' : List (MetadParam M)} {code : Int} (registered : Registered cf)
    (added : cf.mconfAdd sec opts = some (final, opts', code)) : Registered final := by
  rcases Option.map_eq_some_iff.mp added with ⟨⟨last, others, complete⟩, loop, same⟩
  rcases addParams_frame loop with ⟨sameCb, more, _⟩
  have sameEntries : last.entries = cf.entries := by rw [entries, entries, sameCb]
  have kept : forall e, e ∈ cf.entries -> Numbered 256 last.longIdx e.param :=
    fun e member => (registered.numbered e member).mono (Nat.le_refl _) more
  cases complete with
  | false =>
      cases same
      exact ⟨Nat.le_trans registered.beyond more, by rw [sameEntries]; exact kept,
        by rw [sameEntries]; exact registered.ordered, by rw [sameCb]; exact registered.apart⟩
  | true =>
      cases same
      have checked := addParams_checked loop
      have entriesEq : entries { last with cb := last.cb ++ [⟨others, sec⟩] } =
          cf.entries ++ blockEntries ⟨others, sec⟩ := by
        simp only [entries, sameCb, List.flatMap_append, List.flatMap_cons, List.flatMap_nil,
          List.append_nil]
      refine ⟨Nat.le_trans registered.beyond more, ?_, ?_, ?_⟩
      · rw [entriesEq]
        intro e member
        rcases List.mem_append.mp member with before | here
        · exact kept e before
        · rcases List.mem_map.mp here with ⟨q, inside, rfl⟩
          exact (checked.numbered q inside).mono registered.beyond (Nat.le_refl _)
      · rw [entriesEq, List.pairwise_append]
        refine ⟨registered.ordered, List.pairwise_map.mpr checked.ordered, ?_⟩
        intro e before e' here longBefore longHere
        rcases List.mem_map.mp here with ⟨q, inside, rfl⟩
        have old := registered.numbered e before longBefore.1
        have new := checked.numbered q inside longHere.1
        rw [if_pos longBefore.2] at old
        rw [if_pos longHere.2] at new
        exact Int.lt_of_lt_of_le old.2 new.1
      · rw [sameCb, List.pairwise_append]
        refine ⟨registered.apart, List.pairwise_singleton _ _, ?_⟩
        intro block before other here p inBlock q inside
        rw [List.mem_singleton] at here
        subst here
        exact mconfCheckConflict_eq_false.mp (checked.apart q inside) block before p inBlock

/-- Add a block, whatever `mconf_add` returns. -/
def addBlock (cf : Mconf M) (block : MconfBlock M) : Option (Mconf M) :=
  (cf.mconfAdd block.sec block.opt).map Prod.fst

/-- Add a block for which `mconf_add` returns 0. -/
def acceptBlock (cf : Mconf M) (block : MconfBlock M) : Option (Mconf M) :=
  (cf.mconfAdd block.sec block.opt).bind fun added => if added.2.2 = 0 then some added.1 else none

theorem addBlock_of_acceptBlock {cf final : Mconf M} {block : MconfBlock M}
    (accepted : cf.acceptBlock block = some final) : cf.addBlock block = some final := by
  rcases Option.bind_eq_some_iff.mp accepted with ⟨added, made, returned⟩
  split at returned
  · cases returned
    exact Option.map_eq_some_iff.mpr ⟨added, made, rfl⟩
  · cases returned

theorem Registered.addBlock {cf final : Mconf M} {block : MconfBlock M} (registered : Registered cf)
    (added : cf.addBlock block = some final) : Registered final := by
  rcases Option.map_eq_some_iff.mp added with ⟨result, made, same⟩
  cases same
  exact registered.mconfAdd made

theorem registered_of_run {address : Nat} {cfgPath : Option (List Byte)} {argv : List (List Byte)}
    {blocks : List (MconfBlock M)} {cf : Mconf M}
    (added : Run.run addBlock (mconfInit address cfgPath argv) blocks = some cf) : Registered cf :=
  Run.run_invariant Registered (fun _ _ _ registered step => registered.addBlock step)
    (mconfInit_registered address cfgPath argv) added

theorem registered_of_accepted {address : Nat} {cfgPath : Option (List Byte)}
    {argv : List (List Byte)} {blocks : List (MconfBlock M)} {cf : Mconf M}
    (accepted : Run.run acceptBlock (mconfInit address cfgPath argv) blocks = some cf) :
    Registered cf :=
  Run.run_invariant Registered
    (fun _ _ _ registered step => registered.addBlock (addBlock_of_acceptBlock step))
    (mconfInit_registered address cfgPath argv) accepted

/-- An accepted block is registered behind the others, under its names. -/
theorem acceptBlock_names {cf final : Mconf M} {block : MconfBlock M}
    (accepted : cf.acceptBlock block = some final) :
    final.cb.map blockNames = cf.cb.map blockNames ++ [blockNames block] := by
  rcases Option.bind_eq_some_iff.mp accepted with ⟨⟨last, opts', code⟩, made, returned⟩
  rcases Option.map_eq_some_iff.mp made with ⟨⟨middle, others, complete⟩, loop, same⟩
  rcases addParams_frame loop with ⟨sameCb, _, sameNames⟩
  cases complete with
  | false =>
      cases same
      cases returned
  | true =>
      cases same
      cases returned
      rw [List.map_append, sameCb, List.map_singleton, blockNames, sameNames]
      rfl

theorem run_names {cf final : Mconf M} {blocks : List (MconfBlock M)}
    (accepted : Run.run acceptBlock cf blocks = some final) :
    final.cb.map blockNames = cf.cb.map blockNames ++ blocks.map blockNames := by
  induction blocks generalizing cf with
  | nil =>
      cases accepted
      exact (List.append_nil _).symm
  | cons block blocks inductionHypothesis =>
      rcases Run.run_cons_eq_some.mp accepted with ⟨next, step, rest⟩
      rw [inductionHypothesis rest, acceptBlock_names step, List.append_assoc]
      rfl

end Mconf

end Rfx
