import Mathlib.Data.Multiset.UnionInter
import Rfx.Module.Consistency
import Rfx.Process

namespace Rfx

open Library Library.Parts

/-!
# Modules, instances and chains

The instances in the lists of the modules are the instances in the chains of the
sessions.  A session that ends takes its instances along, so no module saves or restores
one that is gone, and no chain calls one.
-/

/-- The instances of a session. -/
def Client.instances {F : Type} (c : Client F) : Multiset InstancePtr :=
  c.ch

/-- A reload keeps all instances. -/
theorem RfxModule.length_ih_reload {F : Type} {cls : RfxFilterClass F} {apiVer : String}
    {m next : RfxModule F} {attempt : LoadAttempt} (taken : m.reload cls apiVer attempt = some next) :
    next.ih.length = m.ih.length := by
  have unloaded : (m.unload cls).ih.length = m.ih.length := by
    rw [unload]
    split
    · exact List.length_map _
    · rfl
  rcases reload_spec cls apiVer m attempt with ⟨result, same, failed, succeeded⟩
  rw [same] at taken
  cases taken
  cases loads : attempt.loads apiVer with
  | false => exact failed loads ▸ unloaded
  | true => rw [(succeeded loads).2.2, List.length_map, unloaded]

theorem RfxModule.ih_loadPlugin {F : Type} {apiVer : String} {filterNew : Option Nat} {tstamp : Int}
    {attempt : LoadAttempt} :
    (loadPlugin apiVer filterNew tstamp attempt : RfxModule F).ih = [] := by
  have spec := load_spec apiVer (new filterNew tstamp : RfxModule F) attempt
  cases loads : attempt.loads apiVer with
  | false => rw [loadPlugin, spec.2.2 loads, new]
  | true =>
      cases spec.2.1 loads with
      | intro h sym tstamp found same => rw [loadPlugin, same, new]

namespace Plugin

variable {F : Type} {p : Plugin F} {address other : Nat}

/-- A module whose pointers agree, with an address for each of its instances. -/
structure Sound (p : Plugin F) : Prop where
  module : p.module.Sound
  nodup : p.addresses.Nodup
  length_eq : p.addresses.length = p.module.ih.length

/-- The module with another instance. -/
def added (p : Plugin F) (address : Nat) : Plugin F :=
  { p with
    module := { p.module with
      ih := p.module.ih ++ [⟨none, if p.module.dlh.isSome then some p.cls.filterNew else none⟩] }
    addresses := p.addresses ++ [address] }

namespace Sound

theorem newInstance_eq (sound : p.Sound) (address : Nat) : p.newInstance address = some (p.added address) := by
  rw [newInstance, sound.module.linked.newInstance]
  rfl

theorem added (sound : p.Sound) (new : address ∉ p.addresses) : (p.added address).Sound where
  module := sound.module.newInstance (sound.module.linked.newInstance p.cls)
  nodup := by
    rw [Plugin.added, List.nodup_append]
    refine ⟨sound.nodup, List.nodup_singleton _, ?_⟩
    rintro old member last there rfl
    exact new (List.mem_singleton.mp there ▸ member)
  length_eq := by
    rw [Plugin.added, List.length_append, List.length_append, sound.length_eq]
    rfl

/-- An instance that is in the list has a position there. -/
theorem position_lt (sound : p.Sound) (member : address ∈ p.addresses) :
    p.position address < p.module.ih.length :=
  sound.length_eq ▸ List.idxOf_lt_length_of_mem member

theorem destroy (sound : p.Sound) (member : address ∈ p.addresses) :
    Exists fun p' => p.destroy address = some p' ∧ p'.Sound ∧
      forall other, other ∈ p'.addresses <-> other ∈ p.addresses ∧ other ≠ address := by
  have inside := sound.position_lt member
  have inside' : p.position address < p.addresses.length := List.idxOf_lt_length_of_mem member
  have erased : p.addresses.eraseIdx (p.position address) = p.addresses.erase address :=
    (List.erase_eq_eraseIdx_of_idxOf rfl).symm
  refine ⟨{ p with
    module := { p.module with ih := p.module.ih.eraseIdx (p.position address) }
    addresses := p.addresses.eraseIdx (p.position address) }, ?_, ⟨?_, ?_, ?_⟩, ?_⟩
  · rw [Plugin.destroy, RfxModule.destroy, if_pos inside]
    rfl
  · exact ⟨⟨sound.module.linked.pointer, sound.module.linked.found⟩,
      fun i member => sound.module.filters i (List.mem_of_mem_eraseIdx member)⟩
  · exact sound.nodup.sublist (List.eraseIdx_sublist _ _)
  · rw [List.length_eraseIdx_of_lt inside, List.length_eraseIdx_of_lt inside', sound.length_eq]
  · intro other
    rw [erased, sound.nodup.mem_erase_iff]
    exact and_comm

/-- A chain can look at every instance in the list. -/
theorem look_isSome (sound : p.Sound) (member : address ∈ p.addresses) (files : Files) :
    (p.look files address).isSome = true := by
  have inside := sound.position_lt member
  have found := List.getElem?_eq_getElem inside
  have filters := sound.module.filters _ (List.getElem_mem inside)
  rw [look, found]
  cases flt : (p.module.ih[p.position address]).flt with
  | none => simp only [flt, Option.isSome_some]
  | some f =>
      rw [flt] at filters
      simp only [flt, ← filters, Option.isSome_some, if_true]

theorem keep (sound : p.Sound) (address : Nat) (state : F) : (p.keep address state).Sound where
  module := by
    refine ⟨⟨sound.module.linked.pointer, sound.module.linked.found⟩, ?_⟩
    intro i member
    rcases List.mem_iff_getElem?.mp member with ⟨index, found⟩
    rw [Plugin.keep, List.getElem?_modify] at found
    rcases Option.map_eq_some_iff.mp found with ⟨old, oldEq, same⟩
    have filters := sound.module.filters old (List.mem_of_getElem? oldEq)
    rw [← same]
    split
    · exact Option.isSome_map.trans filters
    · exact filters
  nodup := sound.nodup
  length_eq := sound.length_eq.trans (List.length_modify _ _ _).symm

theorem reload (sound : p.Sound) {module : RfxModule F} {attempt : LoadAttempt}
    (taken : p.module.reload p.cls p.apiVer attempt = some module) :
    ({ p with module } : Plugin F).Sound where
  module := sound.module.reload taken
  nodup := sound.nodup
  length_eq := sound.length_eq.trans (RfxModule.length_ih_reload taken).symm

end Sound

end Plugin

namespace Process

variable {F : Type} {s next : Process F} {plugins : List (Plugin F)} {held : Multiset InstancePtr}

/-- The chain of a new session. -/
def newChain (index next count : Nat) : List InstancePtr :=
  (List.range count).map fun j => ⟨index + j, next + j⟩

theorem newChain_succ (index next count : Nat) :
    newChain index next (count + 1) = ⟨index, next⟩ :: newChain (index + 1) (next + 1) count := by
  rw [newChain, List.range_succ_eq_map, List.map_cons, List.map_map, newChain]
  refine congrArg₂ List.cons rfl (List.map_congr_left fun j _ => ?_)
  simp only [Function.comp_apply, InstancePtr.mk.injEq]
  omega

theorem mem_newChain {index next count : Nat} {i : InstancePtr} :
    i ∈ newChain index next count <->
      Exists fun j => j < count ∧ i = ⟨index + j, next + j⟩ := by
  simp only [newChain, List.mem_map, List.mem_range]
  exact exists_congr fun j => and_congr_right fun _ => eq_comm

theorem nodup_newChain (index next count : Nat) : (newChain index next count).Nodup := by
  refine List.nodup_range.map fun first second same => ?_
  exact Nat.add_left_cancel (congrArg InstancePtr.module same)

theorem modules_newChain (next count : Nat) :
    (newChain 0 next count).map InstancePtr.module = List.range count := by
  rw [newChain, List.map_map]
  refine (List.map_congr_left fun j _ => ?_).trans (List.map_id _)
  exact Nat.zero_add j

/-- Every module gets an instance. -/
theorem buildChain_eq {plugins : List (Plugin F)} (sound : forall p, p ∈ plugins -> p.Sound)
    (index next : Nat) :
    buildChain index next plugins =
      some (plugins.mapIdx fun j p => p.added (next + j), newChain index next plugins.length) := by
  induction plugins generalizing index next with
  | nil => rfl
  | cons p plugins inductionHypothesis =>
      have first := (sound p List.mem_cons_self).newInstance_eq next
      have rest := inductionHypothesis (fun p member => sound p (List.mem_cons_of_mem _ member))
        (index + 1) (next + 1)
      rw [buildChain, first, Option.bind_some, rest, Option.map_some, List.mapIdx_cons,
        List.length_cons, newChain_succ]
      simp only [Nat.add_zero, Nat.add_assoc, Nat.add_comm 1]

/-- The instances in the lists of the modules are the ones in `held`. -/
structure Listing (plugins : List (Plugin F)) (held : Multiset InstancePtr) : Prop where
  sound : forall p, p ∈ plugins -> p.Sound
  listed : forall (index : Nat) (p : Plugin F), plugins[index]? = some p -> forall address,
    address ∈ p.addresses <-> (⟨index, address⟩ : InstancePtr) ∈ held
  inside : forall i, i ∈ held -> i.module < plugins.length
  nodup : held.Nodup

namespace Listing

theorem found (listing : Listing plugins held) {i : InstancePtr} (member : i ∈ held) :
    Exists fun p => plugins[i.module]? = some p ∧ p.Sound ∧ i.address ∈ p.addresses := by
  have at_module := List.getElem?_eq_getElem (listing.inside i member)
  exact ⟨_, at_module, listing.sound _ (List.mem_of_getElem? at_module),
    (listing.listed _ _ at_module i.address).mpr member⟩

/-- A module changes and keeps its instances. -/
theorem modify (listing : Listing plugins held) (index : Nat) {f : Plugin F -> Plugin F}
    (sound : forall p, p.Sound -> (f p).Sound) (same : forall p, (f p).addresses = p.addresses) :
    Listing (plugins.modify index f) held where
  sound := by
    intro p member
    rcases List.mem_iff_getElem?.mp member with ⟨place, found⟩
    rw [List.getElem?_modify] at found
    rcases Option.map_eq_some_iff.mp found with ⟨old, oldEq, rfl⟩
    have before := listing.sound old (List.mem_of_getElem? oldEq)
    split
    · exact sound old before
    · exact before
  listed := by
    intro place p found address
    rw [List.getElem?_modify] at found
    rcases Option.map_eq_some_iff.mp found with ⟨old, oldEq, rfl⟩
    rw [← listing.listed place old oldEq address]
    split
    · rw [same]
    · rfl
  inside := fun i member => (List.length_modify _ _ _).symm ▸ listing.inside i member
  nodup := listing.nodup

theorem keepStates (listing : Listing plugins held) (ch : List InstancePtr) (chain : RfxFilterChain F) :
    Listing (Process.keepStates ch chain plugins) held ∧
      (Process.keepStates ch chain plugins).length = plugins.length := by
  induction ch generalizing chain plugins with
  | nil => exact ⟨listing, rfl⟩
  | cons i ch inductionHypothesis =>
      cases chain with
      | nil => exact ⟨listing, rfl⟩
      | cons state chain =>
          have kept := listing.modify i.module (f := fun p => p.keep i.address state.state)
            (fun p sound => sound.keep i.address state.state) (fun _ => rfl)
          have rest := inductionHypothesis kept chain
          exact ⟨rest.1, rest.2.trans (List.length_modify _ _ _)⟩

/-- All filters of a chain can be called. -/
theorem filters (listing : Listing plugins held) (files : Files) {ch : List InstancePtr}
    (members : forall i, i ∈ ch -> i ∈ held) :
    Exists fun flt => Process.filters files plugins ch = some flt ∧ flt.length = ch.length := by
  induction ch with
  | nil => exact ⟨[], rfl, rfl⟩
  | cons i ch inductionHypothesis =>
      rcases listing.found (members i List.mem_cons_self) with ⟨p, found, sound, member⟩
      rcases Option.isSome_iff_exists.mp (sound.look_isSome member files) with ⟨first, looked⟩
      rcases inductionHypothesis fun i member => members i (List.mem_cons_of_mem _ member) with
        ⟨flt, rest, same⟩
      refine ⟨first :: flt, ?_, congrArg Nat.succ same⟩
      rw [Process.filters, found, Option.bind_some, looked, Option.bind_some, rest, Option.map_some]

theorem destroy {i : InstancePtr} (listing : Listing plugins (i ::ₘ held)) :
    Exists fun p => Exists fun p' => plugins[i.module]? = some p ∧ p.destroy i.address = some p' ∧
      Listing (plugins.set i.module p') held := by
  rcases listing.found (Multiset.mem_cons_self i held) with ⟨p, found, sound, member⟩
  rcases sound.destroy member with ⟨p', destroyed, sound', left⟩
  rcases Multiset.nodup_cons.mp listing.nodup with ⟨once, nodup⟩
  refine ⟨p, p', found, destroyed, ?_, ?_, ?_, nodup⟩
  · intro q member
    rcases List.mem_or_eq_of_mem_set member with old | new
    · exact listing.sound q old
    · exact new ▸ sound'
  · intro index q found' address
    have before {q : Plugin F} (found : plugins[index]? = some q) :=
      (listing.listed index q found address).trans Multiset.mem_cons
    by_cases same : i.module = index
    · subst same
      rw [List.getElem?_set_self (listing.inside i (Multiset.mem_cons_self i held))] at found'
      cases found'
      rw [left, before found]
      constructor
      · rintro ⟨this | other, different⟩
        · exact absurd (congrArg InstancePtr.address this) different
        · exact other
      · intro other
        refine ⟨Or.inr other, ?_⟩
        rintro rfl
        exact once other
    · rw [List.getElem?_set_ne same] at found'
      rw [before found']
      apply or_iff_right
      rintro rfl
      exact same rfl
  · intro other member
    rw [List.length_set]
    exact listing.inside other (Multiset.mem_cons_of_mem member)

theorem destroyChain {ch : List InstancePtr} (listing : Listing plugins (ch + held)) :
    Exists fun plugins' => Process.destroyChain ch plugins = some plugins' ∧
      Listing plugins' held ∧ plugins'.length = plugins.length := by
  induction ch generalizing plugins with
  | nil => exact ⟨plugins, rfl, (Multiset.zero_add held) ▸ listing, rfl⟩
  | cons i ch inductionHypothesis =>
      rw [← Multiset.cons_coe, Multiset.cons_add] at listing
      rcases listing.destroy with ⟨p, p', found, destroyed, rest⟩
      rcases inductionHypothesis rest with ⟨plugins', chain, last, same⟩
      refine ⟨plugins', ?_, last, same.trans List.length_set⟩
      rw [Process.destroyChain, found, Option.bind_some, destroyed, Option.bind_some, chain]

theorem reloaded {checks : List PluginCheck} {plugins' : List (Plugin F)}
    (listing : Listing plugins held) (taken : reloadPlugins checks plugins = some plugins') :
    Listing plugins' held ∧ plugins'.length = plugins.length := by
  have each := reloadPlugins_spec taken
  have before {index : Nat} {p' : Plugin F} (found' : plugins'[index]? = some p') :
      Exists fun p => plugins[index]? = some p ∧ Reloads p p' := by
    have inside' := (List.getElem?_eq_some_iff.mp found').1
    have inside : index < plugins.length := each.length_eq ▸ inside'
    refine ⟨plugins[index], List.getElem?_eq_getElem inside, ?_⟩
    have reloads := (List.forall₂_iff_get.mp each).2 index inside inside'
    rw [List.get_eq_getElem, List.get_eq_getElem] at reloads
    exact (List.getElem?_eq_some_iff.mp found').2 ▸ reloads
  refine ⟨⟨?_, ?_, ?_, listing.nodup⟩, each.length_eq.symm⟩
  · intro p' member
    rcases List.mem_iff_getElem?.mp member with ⟨index, found'⟩
    rcases before found' with ⟨p, found, reloads⟩
    have sound := listing.sound p (List.mem_of_getElem? found)
    cases reloads with
    | unchanged => exact sound
    | reloaded attempt module taken => exact sound.reload taken
  · intro index p' found' address
    rcases before found' with ⟨p, found, reloads⟩
    rw [← listing.listed index p found address]
    cases reloads <;> rfl
  · exact fun i member => each.length_eq ▸ listing.inside i member

/-- The new instances of a session are in the lists of their modules. -/
theorem built (listing : Listing plugins held) {next : Nat}
    (fresh : forall i, i ∈ held -> i.address < next) :
    Listing (plugins.mapIdx fun j p => p.added (next + j)) (newChain 0 next plugins.length + held) where
  sound := by
    intro p' member
    rcases List.mem_mapIdx.mp member with ⟨j, inside, rfl⟩
    have found := List.getElem?_eq_getElem inside
    apply (listing.sound _ (List.getElem_mem inside)).added
    intro old
    have small := fresh _ ((listing.listed j _ found (next + j)).mp old)
    exact absurd small (Nat.not_lt.mpr (Nat.le_add_right next j))
  listed := by
    intro index p' found address
    rw [List.getElem?_mapIdx] at found
    rcases Option.map_eq_some_iff.mp found with ⟨p, before, rfl⟩
    have inside : index < plugins.length := (List.getElem?_eq_some_iff.mp before).1
    rw [Plugin.added, List.mem_append, listing.listed index p before address, Multiset.mem_add,
      Multiset.mem_coe, mem_newChain, List.mem_singleton, or_comm]
    apply or_congr_left
    constructor
    · rintro rfl
      exact ⟨index, inside, by rw [Nat.zero_add]⟩
    · rintro ⟨j, _, same⟩
      have module := congrArg InstancePtr.module same
      have number := congrArg InstancePtr.address same
      simp only at module number
      omega
  inside := by
    intro i member
    rw [List.length_mapIdx]
    rcases Multiset.mem_add.mp member with new | old
    · rcases mem_newChain.mp (Multiset.mem_coe.mp new) with ⟨j, inside, rfl⟩
      simpa only [Nat.zero_add] using inside
    · exact listing.inside i old
  nodup := by
    refine Multiset.nodup_add.mpr ⟨Multiset.coe_nodup.mpr (nodup_newChain _ _ _), listing.nodup, ?_⟩
    refine Multiset.disjoint_left.mpr fun {i} new old => ?_
    rcases mem_newChain.mp (Multiset.mem_coe.mp new) with ⟨j, _, rfl⟩
    exact absurd (fresh _ old) (Nat.not_lt.mpr (Nat.le_add_right next j))

end Listing

/-- The modules and the chains agree about their instances. -/
structure Placed (s : Process F) : Prop where
  listing : Listing s.plugins (total Client.instances s.clients)
  chains : forall c, c ∈ s.clients -> c.ch.map InstancePtr.module = List.range s.plugins.length
  fresh : forall i, i ∈ total Client.instances s.clients -> i.address < s.next

namespace Placed

/-- A new session. -/
theorem client (placed : s.Placed) {plugins : List (Plugin F)} {ch : List InstancePtr} (cli srv : Nat)
    (built : buildChain 0 s.next s.plugins = some (plugins, ch)) (fds : Library.Handles.Table Nat)
    (bootstraps : List Bootstrap) :
    Placed { s with
      fds, plugins, bootstraps
      next := s.next + s.plugins.length
      clients := s.clients ++ [⟨cli, srv, ch, .start s.pool []⟩] } := by
  rw [buildChain_eq placed.listing.sound] at built
  cases built
  have together : total Client.instances
      (s.clients ++ [⟨cli, srv, newChain 0 s.next s.plugins.length, .start s.pool []⟩]) =
        ↑(newChain 0 s.next s.plugins.length) + total Client.instances s.clients := by
    rw [total_append, total_singleton, add_comm]
    rfl
  refine ⟨?_, ?_, ?_⟩
  · rw [together]
    exact placed.listing.built placed.fresh
  · intro c member
    rw [List.length_mapIdx]
    rcases List.mem_append.mp member with old | new
    · exact placed.chains c old
    · rw [List.mem_singleton.mp new]
      exact modules_newChain _ _
  · rw [together]
    intro i member
    rcases Multiset.mem_add.mp member with new | old
    · rcases mem_newChain.mp (Multiset.mem_coe.mp new) with ⟨j, inside, rfl⟩
      exact Nat.add_lt_add_left inside _
    · exact Nat.lt_of_lt_of_le (placed.fresh i old) (Nat.le_add_right _ _)

theorem move (placed : s.Placed) (move : Move s next) : next.Placed := by
  cases move with
  | waiting cli srv fds opened => exact ⟨placed.listing, placed.chains, placed.fresh⟩
  | watched index b b' found watched => exact ⟨placed.listing, placed.chains, placed.fresh⟩
  | failed index b found => exact ⟨placed.listing, placed.chains, placed.fresh⟩
  | connected cli srv fds plugins ch opened built => exact placed.client cli srv built fds s.bootstraps
  | established index b plugins ch found built => exact placed.client b.cli b.srv built s.fds _
  | called index c files flt callback session found filtered stepped live =>
      have same : total Client.instances (s.clients.set index { c with session }) =
          total Client.instances s.clients := by
        rw [total_set found, total_eq found]
        rfl
      have kept := placed.listing.keepStates c.ch session.flt
      refine ⟨same.symm ▸ kept.1, ?_, same.symm ▸ placed.fresh⟩
      intro other member
      rw [kept.2]
      rcases List.mem_or_eq_of_mem_set member with old | new
      · exact placed.chains other old
      · exact new ▸ placed.chains c (List.mem_of_getElem? found)
  | ended index c files flt callback session plugins found filtered stepped deleted destroyed =>
      have split : total Client.instances s.clients =
          ↑c.ch + total Client.instances (s.clients.eraseIdx index) := total_eq found
      rcases (split ▸ placed.listing).destroyChain with ⟨plugins', chain, listing, same⟩
      rw [destroyed] at chain
      cases chain
      refine ⟨listing, ?_, ?_⟩
      · intro other member
        rw [same]
        exact placed.chains other (List.mem_of_mem_eraseIdx member)
      · intro i member
        exact placed.fresh i (split ▸ Multiset.mem_add.mpr (Or.inr member))
  | reloaded checks plugins reloaded =>
      have again := placed.listing.reloaded reloaded
      exact ⟨again.1, fun c member => again.2.symm ▸ placed.chains c member, placed.fresh⟩

/-- The number of modules stays the same. -/
theorem length_move (placed : s.Placed) (move : Move s next) :
    next.plugins.length = s.plugins.length := by
  cases move with
  | waiting cli srv fds opened => rfl
  | watched index b b' found watched => rfl
  | failed index b found => rfl
  | connected cli srv fds plugins ch opened built =>
      rw [buildChain_eq placed.listing.sound] at built
      cases built
      exact List.length_mapIdx
  | established index b plugins ch found built =>
      rw [buildChain_eq placed.listing.sound] at built
      cases built
      exact List.length_mapIdx
  | called index c files flt callback session found filtered stepped live =>
      exact (placed.listing.keepStates c.ch session.flt).2
  | ended index c files flt callback session plugins found filtered stepped deleted destroyed =>
      have split : total Client.instances s.clients =
          ↑c.ch + total Client.instances (s.clients.eraseIdx index) := total_eq found
      rcases (split ▸ placed.listing).destroyChain with ⟨plugins', chain, _, same⟩
      rw [destroyed] at chain
      cases chain
      exact same
  | reloaded checks plugins reloaded => exact (placed.listing.reloaded reloaded).2

end Placed

/-- What `load_plugins` makes of a plugin, where the pointer that the constructor leaves
unset is `NULL` or is set by the first attempt. -/
def Started (p : Plugin F) : Prop :=
  Exists fun filterNew => Exists fun tstamp => Exists fun attempt =>
    p = .load p.cls p.apiVer filterNew tstamp attempt ∧
      (filterNew = none ∨ attempt.loads p.apiVer = true)

theorem placed_of_reachable {base : List Nat} (started : forall p, p ∈ plugins -> Started p)
    (reached : Reachable base plugins s) : s.Placed ∧ s.plugins.length = plugins.length := by
  refine reachable_rule (fun s => s.Placed ∧ s.plugins.length = plugins.length)
    (fun _ _ now move => ⟨now.1.move move, (now.1.length_move move).trans now.2⟩)
    ⟨⟨⟨?_, ?_, ?_, Multiset.nodup_zero⟩, ?_, ?_⟩, rfl⟩ reached
  · intro p member
    rcases started p member with ⟨filterNew, tstamp, attempt, same, good⟩
    have sound : p.module.Sound := same ▸ RfxModule.sound_loadPlugin tstamp good
    have none : p.addresses = [] := congrArg Plugin.addresses same
    have empty : p.module.ih = [] := same ▸ RfxModule.ih_loadPlugin
    exact ⟨sound, none ▸ List.nodup_nil, by rw [none, empty]; rfl⟩
  · intro index p found address
    rcases started p (List.mem_of_getElem? found) with ⟨filterNew, tstamp, attempt, same, _⟩
    have none : p.addresses = [] := congrArg Plugin.addresses same
    rw [none]
    exact iff_of_false List.not_mem_nil (Multiset.notMem_zero _)
  · exact fun i member => absurd member (Multiset.notMem_zero i)
  · exact fun c member => absurd member List.not_mem_nil
  · exact fun i member => absurd member (Multiset.notMem_zero i)

theorem mem_instances {c : Client F} {index : Nat} (found : s.clients[index]? = some c)
    {i : InstancePtr} (member : i ∈ c.ch) : i ∈ total Client.instances s.clients := by
  rw [total_eq found]
  exact Multiset.mem_add.mpr (Or.inl (Multiset.mem_coe.mpr member))

end Process

/-- A module whose filters count packets. -/
def countClass : RfxFilterClass Nat where
  filterNew := 0
  process := fun _ =>
    { processPkt := fun count _ => some ⟨[], count + 1, .decline⟩
      processEvent := fun count _ _ => some ⟨[], count, .decline⟩ }
  saveState := fun count s => s.write (List.replicate count 0)
  loadState := fun _ s => (s.state.length, s, true)

/-- Its library has been found. -/
def countPlugin : Plugin Nat :=
  .load countClass "1" none 0 { object := some ⟨some "1", some 8⟩, mtime := some 0 }

theorem started_countPlugin : forall p, p ∈ [countPlugin] -> Process.Started p := by
  intro p member
  rw [List.mem_singleton.mp member]
  exact ⟨none, 0, _, rfl, Or.inl rfl⟩

/-- Two sessions, of which the first one has counted a packet when the library is lost. -/
def countEvents : List LoopEvent :=
  [.connect [.connected 4 5, .inProgress 6 7], .writable 0, .bootstrapIo 0 false,
    .client 0 (fun _ => none) (.cli (some
      { reads := [.received [4, 0, 1, 0], .failed .eagain]
        fuel := 0
        own := [.accepted 4]
        other := [] }) none),
    .pluginsCheck [{ mtime := some 2, now := 9, attempt := { object := none, mtime := none } }]]

/-- Each session has one instance of each module, in the order in which the modules were
loaded.  The lists of the modules hold these instances, each once, and no others; and
all of them have a filter exactly while the library of their module is open. -/
theorem instances_accounted {F : Type} (base : List Nat) (plugins : List (Plugin F))
    (started : forall p, p ∈ plugins -> Process.Started p) (s : Process F)
    (reached : Process.Reachable base plugins s) :
    (forall c, c ∈ s.clients -> c.ch.map InstancePtr.module = List.range plugins.length) ∧
      (total Client.instances s.clients).Nodup ∧
      forall (index : Nat) (p : Plugin F), s.plugins[index]? = some p ->
        p.addresses.Nodup ∧ p.addresses.length = p.module.ih.length ∧
          (forall address, address ∈ p.addresses <->
            (⟨index, address⟩ : InstancePtr) ∈ total Client.instances s.clients) ∧
          forall i, i ∈ p.module.ih -> i.flt.isSome = p.module.dlh.isSome := by
  rcases Process.placed_of_reachable started reached with ⟨placed, count⟩
  refine ⟨fun c member => count ▸ placed.chains c member, placed.listing.nodup, ?_⟩
  intro index p found
  have sound := placed.listing.sound p (List.mem_of_getElem? found)
  exact ⟨sound.nodup, sound.length_eq, placed.listing.listed index p found, sound.module.filters⟩

theorem instances_accounted_lost :
    Exists fun s => Process.Reachable [3] [countPlugin] s ∧ s.clients.length = 2 ∧
      (s.plugins.map fun p => p.module.dlh) = [none] ∧
      forall c, c ∈ s.clients -> c.ch.map InstancePtr.module = [0] := by
  have reached : Process.Reachable [3] [countPlugin] _ := ⟨countEvents, rfl⟩
  exact ⟨_, reached, rfl, rfl, (instances_accounted [3] _ started_countPlugin _ reached).1⟩

/-- The modules never get in the way.  A connection can always be given a session; the
filters of a session can always be called, whatever has been reloaded; and a callback
of a session has a result in the process exactly if it has one in the session, also if
it is its last one. -/
theorem modules_always_answer {F : Type} (base : List Nat) (plugins : List (Plugin F))
    (started : forall p, p ∈ plugins -> Process.Started p) (s : Process F)
    (reached : Process.Reachable base plugins s) :
    (forall cli srv, (s.proxyRun cli srv).isSome = true) ∧
      forall index c files, s.clients[index]? = some c ->
        Exists fun flt => Process.filters files s.plugins c.ch = some flt ∧
          flt.length = plugins.length ∧ forall callback,
            (s.step (.client index files callback)).isSome =
              ({ c.session with pool := s.pool, flt }.step callback).isSome := by
  rcases Process.placed_of_reachable started reached with ⟨placed, count⟩
  constructor
  · intro cli srv
    rw [Process.proxyRun, Process.buildChain_eq placed.listing.sound]
    rfl
  · intro index c files found
    rcases placed.listing.filters files fun i member => Process.mem_instances found member with
      ⟨flt, filtered, length⟩
    refine ⟨flt, filtered, ?_, fun callback => ?_⟩
    · have modules := congrArg List.length (placed.chains c (List.mem_of_getElem? found))
      rw [List.length_map, List.length_range] at modules
      rw [length, modules, count]
    · have split : total Client.instances s.clients =
          ↑c.ch + total Client.instances (s.clients.eraseIdx index) := total_eq found
      rcases (split ▸ placed.listing).destroyChain with ⟨plugins', chain, _, _⟩
      simp only [Process.step, Process.clientCb, found, Option.bind_some, filtered, chain]
      cases ({ c.session with pool := s.pool, flt }.step callback) with
      | none => rfl
      | some session =>
          simp only [Option.bind_some]
          split <;> rfl

theorem modules_always_answer_lost :
    Exists fun s => Process.Reachable [3] [countPlugin] s ∧
      (s.plugins.map fun p => p.module.dlh) = [none] ∧ forall cli srv, (s.proxyRun cli srv).isSome = true := by
  have reached : Process.Reachable [3] [countPlugin] _ := ⟨countEvents, rfl⟩
  exact ⟨_, reached, rfl, (modules_always_answer [3] _ started_countPlugin _ reached).1⟩

end Rfx
