import Mathlib.Data.List.Forall2
import Rfx.Library.Run
import Rfx.Module

namespace Rfx

open Library

/-!
# Reloading a module

What a module is for: each instance has the state of its filter, packets change
that state while the library is open, and nothing else does.  The steady module
below has just that, and no save or restore; whether a library is open is one
bit of it.  The module of the program keeps the state in the filter or in an
`rfx_state`, in turn, and every run of it is a run of the steady module with the
same states.
-/

variable {F : Type}

/-- A filter that was saved to a new `rfx_state` is restored from it. -/
def RfxFilterClass.Restores (cls : RfxFilterClass F) : Prop :=
  forall f, (cls.loadState cls.filterNew (cls.saveState f (.new 0))).1 = f ∧
    (cls.loadState cls.filterNew (cls.saveState f (.new 0))).2.2 = true

theorem restores_rfxLootClass : rfxLootClass.Restores :=
  fun lm => LootState.restore_save .new lm

/-- A module that keeps the state of each instance.  An instance that was
created without a library has no state before the next one is opened. -/
structure SteadyModule (F : Type) where
  opened : Bool
  kept : List (Option F)

namespace SteadyModule

/-- A packet or an event changes the state of an instance while a library is
open. -/
def process (m : SteadyModule F) (index : Nat) (call : F -> Option (FltCall F)) :
    Option (SteadyModule F) :=
  match m.kept[index]? with
  | none => none
  | some none => some m
  | some (some f) =>
      if m.opened then
        (call f).map fun called => { m with kept := m.kept.set index (some called.state) }
      else some m

def step (cls : RfxFilterClass F) (apiVer : String) (m : SteadyModule F) :
    ModuleOp -> Option (SteadyModule F)
  | .reload attempt =>
      if attempt.loads apiVer then
        some { opened := true, kept := m.kept.map fun f => some (f.getD cls.filterNew) }
      else some { m with opened := false }
  | .newInstance =>
      some { m with kept := m.kept ++ [if m.opened then some cls.filterNew else none] }
  | .destroy index =>
      if index < m.kept.length then some { m with kept := m.kept.eraseIdx index } else none
  | .processPkt index files frame => m.process index fun f => (cls.process files).processPkt f frame
  | .processEvent index files frame ev =>
      m.process index fun f => (cls.process files).processEvent f frame ev

end SteadyModule

/-- Where an instance has the state that it should have: in its filter while the
library is open, and otherwise in one saved state, from which it is restored. -/
def AttachedInstance.Holds (cls : RfxFilterClass F) (opened : Bool) (i : AttachedInstance F) :
    Option F -> Prop
  | none => opened = false ∧ i.flt = none ∧ i.st = none
  | some f =>
      if opened then i.flt = some f ∧ i.st = none
      else i.flt = none ∧ Exists fun st => i.st = some st ∧
        (cls.loadState cls.filterNew st).1 = f ∧ (cls.loadState cls.filterNew st).2.2 = true

namespace AttachedInstance

variable {cls : RfxFilterClass F} {i : AttachedInstance F} {kept : Option F} {opened : Bool}

/-- Saving puts the state where a closed library leaves it. -/
theorem Holds.save (restores : cls.Restores) (holds : i.Holds cls true kept) :
    (i.save cls).Holds cls false kept := by
  cases kept with
  | none => cases holds.1
  | some f =>
      simp only [Holds, if_true] at holds
      simp only [AttachedInstance.save, holds.1, Holds, Bool.false_eq_true, if_false]
      exact ⟨trivial, _, rfl, restores f⟩

/-- Recreating takes it back. -/
theorem Holds.recreate (holds : i.Holds cls false kept) :
    (i.recreate cls cls.filterNew).Holds cls true (some (kept.getD cls.filterNew)) := by
  cases kept with
  | none =>
      rcases holds with ⟨_, flt, st⟩
      simp only [AttachedInstance.recreate, st, Holds, if_true, Option.getD_none, and_self]
  | some f =>
      simp only [Holds, Bool.false_eq_true, if_false] at holds
      rcases holds with ⟨_, st, saved, same, _⟩
      simp only [AttachedInstance.recreate, saved, Holds, if_true, Option.getD_some, same, and_self]

theorem Holds.flt_isSome (holds : i.Holds cls opened kept) : i.flt.isSome = opened := by
  cases kept with
  | none => rw [holds.1, holds.2.1]; rfl
  | some f =>
      cases opened with
      | true =>
          simp only [Holds, if_true] at holds
          rw [holds.1]
          rfl
      | false =>
          simp only [Holds, Bool.false_eq_true, if_false] at holds
          rw [holds.1]
          rfl

end AttachedInstance

namespace RfxModule

variable {cls : RfxFilterClass F} {apiVer : String} {m next : RfxModule F} {steady : SteadyModule F}

/-- A module keeps the states of a steady one. -/
structure Keeps (cls : RfxFilterClass F) (m : RfxModule F) (steady : SteadyModule F) : Prop where
  linked : m.Linked
  opened : m.dlh.isSome = steady.opened
  holds : List.Forall₂ (AttachedInstance.Holds cls steady.opened) m.ih steady.kept

namespace Keeps

/-- Closing the library changes no state. -/
theorem unload (restores : cls.Restores) (keeps : m.Keeps cls steady) :
    (m.unload cls).Keeps cls { steady with opened := false } := by
  have closed := keeps.linked.unload cls
  refine ⟨⟨by rw [closed.1, closed.2]; rfl, by rw [closed.1]; nofun⟩, by rw [closed.1]; rfl, ?_⟩
  have holds := keeps.holds
  unfold RfxModule.unload
  split
  · rename_i open_
    rw [← keeps.opened, open_] at holds
    simp only [List.forall₂_map_left_iff]
    exact holds.imp fun _ _ now => now.save restores
  · rename_i still
    rw [← keeps.opened, Bool.eq_false_iff.mpr still] at holds
    exact holds

theorem reload (restores : cls.Restores) (keeps : m.Keeps cls steady) {attempt : LoadAttempt}
    (taken : m.reload cls apiVer attempt = some next) :
    Exists fun steady' => steady.step cls apiVer (.reload attempt) = some steady' ∧
      next.Keeps cls steady' := by
  have closed := keeps.unload restores
  rcases reload_spec cls apiVer m attempt with ⟨result, same, failed, succeeded⟩
  rw [same] at taken
  cases taken
  cases loads : attempt.loads apiVer with
  | false =>
      refine ⟨{ steady with opened := false }, ?_, failed loads ▸ closed⟩
      simp only [SteadyModule.step, loads, Bool.false_eq_true, if_false]
  | true =>
      rcases succeeded loads with ⟨open_, linked, instances⟩
      refine ⟨{ opened := true, kept := steady.kept.map fun f => some (f.getD cls.filterNew) }, ?_,
        ⟨linked, open_, ?_⟩⟩
      · simp only [SteadyModule.step, loads, if_true]
      rw [instances]
      simp only [List.forall₂_map_left_iff, List.forall₂_map_right_iff]
      exact closed.holds.imp fun _ _ now => now.recreate

theorem newInstance (keeps : m.Keeps cls steady) (taken : m.newInstance cls = some next) :
    Exists fun steady' => steady.step cls apiVer .newInstance = some steady' ∧
      next.Keeps cls steady' := by
  rw [keeps.linked.newInstance cls] at taken
  cases taken
  refine ⟨_, rfl, ⟨⟨keeps.linked.pointer, keeps.linked.found⟩, keeps.opened, ?_⟩⟩
  refine List.rel_append keeps.holds (.cons ?_ .nil)
  rw [keeps.opened]
  cases steady.opened with
  | true => exact ⟨rfl, rfl⟩
  | false => exact ⟨rfl, rfl, rfl⟩

theorem destroy (keeps : m.Keeps cls steady) {index : Nat} (taken : m.destroy index = some next) :
    Exists fun steady' => steady.step cls apiVer (.destroy index) = some steady' ∧
      next.Keeps cls steady' := by
  unfold RfxModule.destroy at taken
  split at taken
  · rename_i inside
    cases taken
    have inside' : index < steady.kept.length := keeps.holds.length_eq ▸ inside
    refine ⟨{ steady with kept := steady.kept.eraseIdx index }, ?_,
      ⟨⟨keeps.linked.pointer, keeps.linked.found⟩, keeps.opened, ?_⟩⟩
    · simp only [SteadyModule.step, if_pos inside']
    · simp only [List.eraseIdx_eq_take_drop_succ]
      exact List.rel_append (List.forall₂_take _ keeps.holds) (List.forall₂_drop _ keeps.holds)
  · cases taken

/-- The instance at a position and the state that it should have. -/
theorem at_index (keeps : m.Keeps cls steady) {index : Nat} {i : AttachedInstance F}
    (found : m.ih[index]? = some i) :
    Exists fun kept => steady.kept[index]? = some kept ∧ i.Holds cls steady.opened kept := by
  rcases List.getElem?_eq_some_iff.mp found with ⟨inside, same⟩
  have inside' : index < steady.kept.length := keeps.holds.length_eq ▸ inside
  refine ⟨steady.kept[index], List.getElem?_eq_getElem inside', ?_⟩
  have holds := (List.forall₂_iff_get.mp keeps.holds).2 index inside inside'
  simp only [List.get_eq_getElem, same] at holds
  exact holds

/-- The instance that has a state. -/
theorem holder (keeps : m.Keeps cls steady) {index : Nat} {kept : Option F}
    (found : steady.kept[index]? = some kept) :
    Exists fun i => m.ih[index]? = some i ∧ i.Holds cls steady.opened kept := by
  have inside' := (List.getElem?_eq_some_iff.mp found).1
  have inside : index < m.ih.length := keeps.holds.length_eq ▸ inside'
  rcases keeps.at_index (List.getElem?_eq_getElem inside) with ⟨other, otherEq, holds⟩
  rw [found, Option.some.injEq] at otherEq
  exact ⟨m.ih[index], List.getElem?_eq_getElem inside, otherEq ▸ holds⟩

/-- The filter of an instance is called only while the library is open, and the
new state is kept by the same instance. -/
theorem process (keeps : m.Keeps cls steady) {index : Nat} {call : F -> Option (FltCall F)}
    (taken : m.process index call = some next) :
    Exists fun steady' => steady.process index call = some steady' ∧ next.Keeps cls steady' := by
  unfold RfxModule.process at taken
  split at taken
  · cases taken
  · rename_i i found
    rcases keeps.at_index found with ⟨kept, keptEq, holds⟩
    have flt_isSome := holds.flt_isSome
    unfold SteadyModule.process
    simp only [keptEq]
    split at taken
    · rename_i noFilter
      cases taken
      rw [noFilter] at flt_isSome
      cases kept with
      | none => exact ⟨steady, rfl, keeps⟩
      | some f =>
          simp only [← flt_isSome, Option.isSome_none, Bool.false_eq_true, if_false]
          exact ⟨steady, rfl, keeps⟩
    · rename_i f filter
      split at taken
      · rename_i open_
        rw [Option.map_eq_some_iff] at taken
        rcases taken with ⟨called, calledEq, same⟩
        subst same
        have opened := keeps.opened.symm.trans open_
        cases kept with
        | none =>
            rw [opened] at holds
            cases holds.1
        | some g =>
            rw [opened] at holds
            simp only [AttachedInstance.Holds, if_true, filter, Option.some.injEq] at holds
            rcases holds with ⟨sameFilter, noState⟩
            subst sameFilter
            refine ⟨{ steady with kept := steady.kept.set index (some called.state) }, ?_,
              ⟨⟨keeps.linked.pointer, keeps.linked.found⟩, keeps.opened, ?_⟩⟩
            · simp only [opened, if_true, calledEq, Option.map_some]
            · have inside := (List.getElem?_eq_some_iff.mp found).1
              have inside' := (List.getElem?_eq_some_iff.mp keptEq).1
              simp only [List.set_eq_take_append_cons_drop, if_pos inside, if_pos inside']
              refine List.rel_append (List.forall₂_take _ keeps.holds)
                (.cons ?_ (List.forall₂_drop _ keeps.holds))
              simp only [AttachedInstance.Holds, opened, if_true, noState, and_self]
      · cases taken

theorem step (restores : cls.Restores) (keeps : m.Keeps cls steady) {op : ModuleOp}
    (taken : m.step cls apiVer op = some next) :
    Exists fun steady' => steady.step cls apiVer op = some steady' ∧ next.Keeps cls steady' := by
  cases op with
  | reload attempt => exact keeps.reload restores taken
  | newInstance => exact keeps.newInstance taken
  | destroy index => exact keeps.destroy taken
  | processPkt index files frame => exact keeps.process taken
  | processEvent index files frame ev => exact keeps.process taken

theorem run (restores : cls.Restores) (keeps : m.Keeps cls steady) {ops : List ModuleOp}
    (reached : Run.run (RfxModule.step cls apiVer) m ops = some next) :
    Exists fun steady' => Run.run (SteadyModule.step cls apiVer) steady ops = some steady' ∧
      next.Keeps cls steady' := by
  have simulates : forall (m : RfxModule F) (steady : SteadyModule F) (op : ModuleOp)
      (next : RfxModule F), m.Keeps cls steady -> m.step cls apiVer op = some next ->
        Exists fun steady' => steady.step cls apiVer op = some steady' ∧ next.Keeps cls steady' :=
    fun _ _ _ _ now taken => now.step restores taken
  exact Run.run_simulation (Keeps cls) simulates keeps reached

/-- An instance whose filter has a state keeps that state. -/
theorem kept_of_flt (keeps : m.Keeps cls steady) {index : Nat} {f : F}
    (had : m.ih[index]?.bind AttachedInstance.flt = some f) :
    steady.kept[index]? = some (some f) := by
  rcases Option.bind_eq_some_iff.mp had with ⟨i, found, filter⟩
  rcases keeps.at_index found with ⟨kept, keptEq, holds⟩
  cases kept with
  | none =>
      rw [holds.2.1] at filter
      cases filter
  | some g =>
      cases opened : steady.opened with
      | true =>
          rw [opened] at holds
          simp only [AttachedInstance.Holds, if_true, filter, Option.some.injEq] at holds
          rw [keptEq, holds.1]
      | false =>
          rw [opened] at holds
          simp only [AttachedInstance.Holds, Bool.false_eq_true, if_false, filter] at holds
          cases holds.1

end Keeps

/-- The states that the live instances of a loaded module have. -/
theorem keeps_of_live (linked : m.Linked) (opened : m.dlh.isSome = true)
    (live : forall i, i ∈ m.ih -> i.flt.isSome = true ∧ i.st = none) :
    m.Keeps cls { opened := true, kept := m.ih.map AttachedInstance.flt } := by
  refine ⟨linked, opened, ?_⟩
  simp only [List.forall₂_map_right_iff, List.forall₂_same]
  intro i member
  rcases live i member with ⟨filter, noState⟩
  cases flt : i.flt with
  | none =>
      rw [flt] at filter
      cases filter
  | some f => exact ⟨flt, noState⟩

end RfxModule

/-! ## Outages -/

/-- Neither a new or a destroyed instance, nor a reload that succeeds. -/
def ModuleOp.Waits (apiVer : String) : ModuleOp -> Prop
  | .reload attempt => attempt.loads apiVer = false
  | .newInstance => False
  | .destroy _ => False
  | .processPkt _ _ _ => True
  | .processEvent _ _ _ _ => True

/-- A reload that fails, and what comes after it until a reload succeeds; or no
outage at all. -/
def Outage (apiVer : String) : List ModuleOp -> Prop
  | [] => True
  | first :: rest =>
      (Exists fun attempt => first = .reload attempt ∧ attempt.loads apiVer = false) ∧
        forall op, op ∈ rest -> op.Waits apiVer

namespace SteadyModule

variable {cls : RfxFilterClass F} {apiVer : String} {m next : SteadyModule F}

theorem process_closed {index : Nat} {call : F -> Option (FltCall F)} (closed : m.opened = false)
    (taken : m.process index call = some next) : next = m := by
  unfold process at taken
  split at taken
  · cases taken
  · cases taken
    rfl
  · rw [closed, if_neg Bool.false_ne_true] at taken
    cases taken
    rfl

theorem step_waits {op : ModuleOp} (waits : op.Waits apiVer) (closed : m.opened = false)
    (taken : m.step cls apiVer op = some next) : next = m := by
  cases op with
  | reload attempt =>
      have fails : attempt.loads apiVer = false := waits
      simp only [step, fails, Bool.false_eq_true, if_false] at taken
      cases taken
      rw [← closed]
  | newInstance => exact waits.elim
  | destroy index => exact waits.elim
  | processPkt index files frame => exact process_closed closed taken
  | processEvent index files frame ev => exact process_closed closed taken

/-- No state changes in an outage. -/
theorem run_outage {ops : List ModuleOp} (outage : Outage apiVer ops)
    (reached : Run.run (step cls apiVer) m ops = some next) : next.kept = m.kept := by
  cases ops with
  | nil =>
      cases reached
      rfl
  | cons first rest =>
      rcases outage with ⟨⟨attempt, same, fails⟩, waits⟩
      subst same
      rcases Run.run_cons_eq_some.mp reached with ⟨closed, taken, later⟩
      simp only [step, fails, Bool.false_eq_true, if_false, Option.some.injEq] at taken
      have kept : forall ops, (forall op, op ∈ ops -> op.Waits apiVer) ->
          Run.run (step cls apiVer) closed ops = some next -> next = closed := by
        intro ops
        induction ops with
        | nil =>
            intro _ reached
            cases reached
            rfl
        | cons op ops inductionHypothesis =>
            intro waits reached
            rcases Run.run_cons_eq_some.mp reached with ⟨middle, stepped, later⟩
            have same := step_waits (waits op List.mem_cons_self) (by rw [← taken]) stepped
            rw [same] at later
            exact inductionHypothesis (fun op member => waits op (List.mem_cons_of_mem _ member)) later
      rw [kept rest waits later, ← taken]

end SteadyModule

/-- Hot reload preserves the masks.  Whatever happens to a loaded module with
live instances, every instance holds the masks that it has in the run of the
steady module: in its filter while the library is open, and otherwise in exactly
one saved state, from which they are restored.  When a reload succeeds, at once
or after any number of failed attempts, every instance has the masks that it had
when the library was last closed. -/
theorem hot_reload_preserves_masks (apiVer : String) (m : RfxModule LootState) (linked : m.Linked)
    (opened : m.dlh.isSome = true)
    (live : forall i, i ∈ m.ih -> i.flt.isSome = true ∧ i.st = none) (ops : List ModuleOp)
    (final : RfxModule LootState)
    (reached : Run.run (RfxModule.step rfxLootClass apiVer) m ops = some final) :
    (Exists fun steady : SteadyModule LootState =>
      Run.run (SteadyModule.step rfxLootClass apiVer)
          { opened := true, kept := m.ih.map AttachedInstance.flt } ops = some steady ∧
        steady.opened = final.dlh.isSome ∧
        List.Forall₂ (AttachedInstance.Holds rfxLootClass steady.opened) final.ih steady.kept) ∧
      forall waiting attempt after, Outage apiVer waiting -> attempt.loads apiVer = true ->
        Run.run (RfxModule.step rfxLootClass apiVer) final (waiting ++ [.reload attempt]) =
            some after ->
          forall (index : Nat) (lm : LootState),
            final.ih[index]?.bind AttachedInstance.flt = some lm ->
              after.ih[index]?.bind AttachedInstance.flt = some lm := by
  rcases (RfxModule.keeps_of_live linked opened live).run restores_rfxLootClass reached with
    ⟨steady, ran, keeps⟩
  refine ⟨⟨steady, ran, keeps.opened.symm, keeps.holds⟩, ?_⟩
  intro waiting attempt after outage loads later index lm had
  rcases keeps.run restores_rfxLootClass later with ⟨reopened, ranLater, keepsAfter⟩
  rcases Run.run_append.mp ranLater with ⟨middle, waited, reloaded⟩
  have sameKept := SteadyModule.run_outage outage waited
  simp only [Run.run_cons_eq_some, SteadyModule.step, loads, if_true, Option.some.injEq,
    exists_eq_left', Run.run_nil, sameKept] at reloaded
  have kept : reopened.kept[index]? = some (some lm) := by
    rw [← reloaded, List.getElem?_map, keeps.kept_of_flt had]
    rfl
  have openedAfter : reopened.opened = true := by rw [← reloaded]
  rcases keepsAfter.holder kept with ⟨i, found, holds⟩
  rw [openedAfter] at holds
  rw [found, Option.bind_some]
  exact holds.1

/-- One client; the library is missing twice, a packet passes in between, and
the third reload brings the masks back. -/
theorem hot_reload_preserves_masks_missing :
    Exists fun after : RfxModule LootState =>
      after.ih[0]?.bind AttachedInstance.flt = some ⟨.new true, .new true⟩ := by
  let library : SharedObject := { apiVer := some "1", filterSym := some 8 }
  let m : RfxModule LootState :=
    { dlh := some library
      filterNew := some 8
      tstamp := 0
      ih := [⟨none, some ⟨.new true, .new true⟩⟩] }
  let missing : LoadAttempt := { object := none, mtime := none }
  let found : LoadAttempt := { object := some library, mtime := some 5 }
  have live : forall i, i ∈ m.ih -> i.flt.isSome = true ∧ i.st = none := by
    intro i member
    rw [List.mem_singleton.mp member]
    exact ⟨rfl, rfl⟩
  have preserved := hot_reload_preserves_masks "1" m ⟨rfl, fun _ => rfl⟩ rfl live [] m rfl
  have outage : Outage "1" [.reload missing,
      .processPkt 0 (fun _ => none) (.start (pktInit 0 4 1 cliToSrv)), .reload missing] := by
    refine ⟨⟨missing, rfl, rfl⟩, ?_⟩
    intro op member
    rcases List.mem_cons.mp member with head | tail
    · exact head ▸ trivial
    · exact List.mem_singleton.mp tail ▸ rfl
  exact ⟨_, preserved.2 _ found _ outage rfl rfl 0 _ rfl⟩

end Rfx
