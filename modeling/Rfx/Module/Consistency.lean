import Rfx.Library.Run
import Rfx.Module

namespace Rfx

open Library

/-!
# The pointers of a module

`dlh`, `filter_new` and the filters of the instances change on different exits
of `load` and `reload`.  Where the first attempt to load a module fails,
`filter_new` still has the value that it had before the constructor, which the
constructor does not set.
-/

namespace RfxModule

variable {F : Type} {cls : RfxFilterClass F} {apiVer : String} {m next : RfxModule F}

/-- What the three members have to agree about: `filter_new` is set exactly
while a library is open, `new_instance` calls it only then, and exactly then
every instance has a filter. -/
structure Consistent (cls : RfxFilterClass F) (m : RfxModule F) : Prop where
  pointer : m.filterNew.isSome = m.dlh.isSome
  calls : (m.newInstance cls).isSome = true
  filters : forall i, i ∈ m.ih -> i.flt.isSome = m.dlh.isSome

/-- The invariant behind it. -/
structure Sound (m : RfxModule F) : Prop where
  linked : m.Linked
  filters : forall i, i ∈ m.ih -> i.flt.isSome = m.dlh.isSome

namespace Sound

theorem newInstance (sound : m.Sound) (taken : m.newInstance cls = some next) : next.Sound := by
  rw [sound.linked.newInstance cls] at taken
  cases taken
  refine ⟨⟨sound.linked.pointer, sound.linked.found⟩, ?_⟩
  intro i member
  rcases List.mem_append.mp member with old | new
  · exact sound.filters i old
  · rw [List.mem_singleton.mp new]
    cases m.dlh.isSome <;> rfl

theorem consistent (sound : m.Sound) (cls : RfxFilterClass F) : m.Consistent cls where
  pointer := sound.linked.isSome_pointer
  calls := by
    rw [sound.linked.newInstance cls]
    rfl
  filters := sound.filters

/-- No instance has a filter once the library has been closed. -/
theorem unload (sound : m.Sound) (cls : RfxFilterClass F) :
    (m.unload cls).Sound ∧ (m.unload cls).dlh = none := by
  have closed := sound.linked.unload cls
  refine ⟨⟨⟨by rw [closed.1, closed.2]; rfl, by rw [closed.1]; nofun⟩, ?_⟩, closed.1⟩
  rw [closed.1]
  unfold RfxModule.unload
  split
  · intro i member
    rcases List.mem_map.mp member with ⟨old, _, same⟩
    rw [← same, AttachedInstance.save]
    split
    · rfl
    · rename_i none
      rw [none]
      rfl
  · rename_i still
    have none : m.dlh = none := by simpa using still
    exact fun i member => none ▸ sound.filters i member

theorem reload (sound : m.Sound) {attempt : LoadAttempt}
    (taken : m.reload cls apiVer attempt = some next) : next.Sound := by
  rcases reload_spec cls apiVer m attempt with ⟨result, same, failed, succeeded⟩
  rw [same] at taken
  cases taken
  cases loads : attempt.loads apiVer with
  | false => exact failed loads ▸ (sound.unload cls).1
  | true =>
      rcases succeeded loads with ⟨open_, linked, instances⟩
      refine ⟨linked, ?_⟩
      intro i member
      rw [instances] at member
      rcases List.mem_map.mp member with ⟨old, _, same⟩
      rw [open_, ← same, AttachedInstance.recreate]
      split <;> rfl

theorem process (sound : m.Sound) {index : Nat} {call : F -> Option (FltCall F)}
    (taken : m.process index call = some next) : next.Sound := by
  unfold RfxModule.process at taken
  split at taken
  · cases taken
  · split at taken
    · cases taken
      exact sound
    · split at taken
      · rename_i open_
        rw [Option.map_eq_some_iff] at taken
        rcases taken with ⟨called, _, same⟩
        subst same
        refine ⟨⟨sound.linked.pointer, sound.linked.found⟩, ?_⟩
        intro other member
        rcases List.mem_or_eq_of_mem_set member with old | new
        · exact sound.filters other old
        · rw [new]
          exact open_.symm
      · cases taken

/-- Every operation keeps the invariant. -/
theorem step (sound : m.Sound) {op : ModuleOp} (taken : m.step cls apiVer op = some next) :
    next.Sound := by
  cases op with
  | reload attempt => exact sound.reload taken
  | newInstance => exact sound.newInstance taken
  | destroy index =>
      simp only [RfxModule.step, RfxModule.destroy] at taken
      split at taken
      · cases taken
        exact ⟨⟨sound.linked.pointer, sound.linked.found⟩,
          fun i member => sound.filters i (List.mem_of_mem_eraseIdx member)⟩
      · cases taken
  | processPkt index files frame => exact sound.process taken
  | processEvent index files frame ev => exact sound.process taken

end Sound

theorem sound_loadPlugin {filterNew : Option Nat} (tstamp : Int) {attempt : LoadAttempt}
    (good : filterNew = none ∨ attempt.loads apiVer = true) :
    (loadPlugin apiVer filterNew tstamp attempt : RfxModule F).Sound := by
  have spec := load_spec apiVer (new filterNew tstamp : RfxModule F) attempt
  cases loads : attempt.loads apiVer with
  | true =>
      have loaded := spec.2.1 loads
      refine ⟨loaded.linked, ?_⟩
      intro i member
      rw [loadPlugin] at member
      cases loaded with
      | intro h sym tstamp found same =>
          rw [same] at member
          exact absurd member List.not_mem_nil
  | false =>
      have unset : filterNew = none := by
        rcases good with unset | loaded
        · exact unset
        · rw [loads] at loaded
          cases loaded
      subst unset
      rw [loadPlugin, spec.2.2 loads]
      exact ⟨⟨rfl, nofun⟩, fun _ member => absurd member List.not_mem_nil⟩

end RfxModule

/-- A module and its instances agree in every state of every run after the first
attempt to load the module exactly if that attempt succeeds, or the memory of
the module happened to hold `NULL` where the constructor leaves `filter_new`. -/
theorem module_consistent_iff {F : Type} (cls : RfxFilterClass F) (apiVer : String)
    (filterNew : Option Nat) (tstamp : Int) (attempt : LoadAttempt) :
    (forall ops m, Run.run (RfxModule.step cls apiVer)
        (.loadPlugin apiVer filterNew tstamp attempt) ops = some m -> m.Consistent cls) <->
      filterNew = none ∨ attempt.loads apiVer = true := by
  constructor
  · intro always
    have first := (always [] _ rfl).pointer
    have spec := RfxModule.load_spec apiVer (.new filterNew tstamp : RfxModule F) attempt
    cases loads : attempt.loads apiVer with
    | true => exact Or.inr rfl
    | false =>
        rw [RfxModule.loadPlugin, spec.2.2 loads] at first
        left
        simpa [RfxModule.new] using first
  · intro good ops m reached
    have sound := Run.run_invariant RfxModule.Sound (fun _ _ _ now taken => now.step taken)
      (RfxModule.sound_loadPlugin tstamp good) reached
    exact sound.consistent cls

/-- The file is missing when the program starts, and the first session calls an
address that nobody has set. -/
theorem missing_plugin_is_called :
    Exists fun m : RfxModule LootState =>
      m = .loadPlugin "1" (some 0xdead) 0 { object := none, mtime := none } ∧
        m.dlh.isSome = false ∧ m.filterNew = some 0xdead ∧
        (m.newInstance rfxLootClass).isSome = false ∧ ¬ m.Consistent rfxLootClass :=
  ⟨_, rfl, rfl, rfl, rfl, fun consistent => Bool.noConfusion consistent.pointer⟩

end Rfx
