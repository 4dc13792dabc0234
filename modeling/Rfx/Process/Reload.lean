import Rfx.Module.Reload
import Rfx.Process.Instances

namespace Rfx

open Library

/-!
# Reloading behind the sessions

Modules are looked at once a second, whatever the sessions are doing.  As long as every
library that has to be opened again can be opened, the sessions do not notice: the
process gets into the states that it gets into without any reload, up to the libraries.
-/

namespace Plugin

variable {F : Type} {p p' q : Plugin F} {address : Nat}

/-- The same module with another library. -/
structure Alike (p q : Plugin F) : Prop where
  cls : q.cls = p.cls
  apiVer : q.apiVer = p.apiVer
  addresses : q.addresses = p.addresses
  ih : q.module.ih = p.module.ih
  linked : p.module.Linked ∧ q.module.Linked
  opened : p.module.dlh.isSome = true ∧ q.module.dlh.isSome = true

/-- The filters of a module are all there, and what they save is what they load. -/
structure Live (p : Plugin F) : Prop where
  filters : forall i, i ∈ p.module.ih -> i.flt.isSome = true ∧ i.st = none
  restores : p.cls.Restores

namespace Alike

theorem newInstance (alike : p.Alike q) (live : p.Live) (taken : p.newInstance address = some p') :
    Exists fun q' => q.newInstance address = some q' ∧ p'.Alike q' ∧ p'.Live := by
  rw [Plugin.newInstance, alike.linked.1.newInstance] at taken
  cases taken
  refine ⟨_, by rw [Plugin.newInstance, alike.linked.2.newInstance]; rfl, ?_, ?_, live.restores⟩
  · refine ⟨alike.cls, alike.apiVer, congrArg (· ++ [address]) alike.addresses, ?_, ?_, alike.opened⟩
    · simp only [alike.ih, alike.opened.1, alike.opened.2, alike.cls]
    · exact ⟨⟨alike.linked.1.pointer, alike.linked.1.found⟩,
        ⟨alike.linked.2.pointer, alike.linked.2.found⟩⟩
  · intro i member
    rcases List.mem_append.mp member with old | new
    · exact live.filters i old
    · rw [List.mem_singleton.mp new, alike.opened.1]
      exact ⟨rfl, rfl⟩

theorem position_eq (alike : p.Alike q) (address : Nat) : q.position address = p.position address :=
  congrArg (List.idxOf address) alike.addresses

theorem destroy (alike : p.Alike q) (live : p.Live) (taken : p.destroy address = some p') :
    Exists fun q' => q.destroy address = some q' ∧ p'.Alike q' ∧ p'.Live := by
  rcases Option.map_eq_some_iff.mp taken with ⟨module, destroyed, rfl⟩
  rw [RfxModule.destroy] at destroyed
  split at destroyed
  · rename_i inside
    cases destroyed
    rw [← alike.ih, ← alike.position_eq] at inside
    refine ⟨_, by rw [Plugin.destroy, RfxModule.destroy, if_pos inside]; rfl, ?_, ?_, live.restores⟩
    · refine ⟨alike.cls, alike.apiVer, ?_, ?_, ?_, alike.opened⟩
      · simp only [alike.addresses, alike.position_eq]
      · simp only [alike.ih, alike.position_eq]
      · exact ⟨⟨alike.linked.1.pointer, alike.linked.1.found⟩,
          ⟨alike.linked.2.pointer, alike.linked.2.found⟩⟩
    · exact fun i member => live.filters i (List.mem_of_mem_eraseIdx member)
  · cases destroyed

theorem look_eq (alike : p.Alike q) (files : Files) (address : Nat) :
    q.look files address = p.look files address := by
  rw [look, look, alike.ih, alike.position_eq, alike.cls, alike.opened.1, alike.opened.2]

theorem keep (alike : p.Alike q) (live : p.Live) (address : Nat) (state : F) :
    (p.keep address state).Alike (q.keep address state) ∧ (p.keep address state).Live := by
  refine ⟨⟨alike.cls, alike.apiVer, alike.addresses, ?_, ?_, alike.opened⟩, ?_, live.restores⟩
  · simp only [Plugin.keep, alike.ih, alike.position_eq]
  · exact ⟨⟨alike.linked.1.pointer, alike.linked.1.found⟩,
      ⟨alike.linked.2.pointer, alike.linked.2.found⟩⟩
  · intro i member
    rcases List.mem_iff_getElem?.mp member with ⟨index, found⟩
    rw [Plugin.keep, List.getElem?_modify] at found
    rcases Option.map_eq_some_iff.mp found with ⟨old, oldEq, same⟩
    have filters := live.filters old (List.mem_of_getElem? oldEq)
    rw [← same]
    split
    · exact ⟨Option.isSome_map.trans filters.1, filters.2⟩
    · exact filters

/-- A library that is opened again finds all filters in the states that they had. -/
theorem ih_reload (linked : p.module.Linked) (opened : p.module.dlh.isSome = true) (live : p.Live)
    {attempt : LoadAttempt} (loads : attempt.loads p.apiVer = true) {module : RfxModule F}
    (taken : p.module.reload p.cls p.apiVer attempt = some module) :
    module.ih = p.module.ih ∧ module.Linked ∧ module.dlh.isSome = true := by
  have keeps : p.module.Keeps p.cls _ := RfxModule.keeps_of_live linked opened live.filters
  rcases keeps.reload live.restores taken with ⟨steady, stepped, after⟩
  simp only [SteadyModule.step, loads, if_true, Option.some.injEq] at stepped
  subst stepped
  refine ⟨?_, after.linked, after.opened⟩
  have each := after.holds
  simp only [List.forall₂_map_right_iff] at each
  have same : List.Forall₂ (fun i j => i = j) module.ih p.module.ih := by
    apply List.forall₂_iff_get.mpr
    refine ⟨each.length_eq, fun index inside inside' => ?_⟩
    have holds := (List.forall₂_iff_get.mp each).2 index inside inside'
    rcases live.filters _ (List.get_mem p.module.ih ⟨index, inside'⟩) with ⟨filter, noState⟩
    rcases Option.isSome_iff_exists.mp filter with ⟨f, flt⟩
    rw [flt, Option.getD_some] at holds
    simp only [AttachedInstance.Holds, if_true] at holds
    cases old : p.module.ih.get ⟨index, inside'⟩
    cases new : module.ih.get ⟨index, inside⟩
    rw [new] at holds
    rw [old] at flt noState
    simp only at holds flt noState
    rw [holds.1, holds.2, flt, noState]
  rwa [List.forall₂_eq_eq_eq] at same

theorem reload (alike : p.Alike q) (live : p.Live) {attempt : LoadAttempt}
    (loads : attempt.loads p.apiVer = true) {module : RfxModule F}
    (taken : p.module.reload p.cls p.apiVer attempt = some module) :
    ({ p with module } : Plugin F).Alike q ∧ ({ p with module } : Plugin F).Live := by
  rcases ih_reload alike.linked.1 alike.opened.1 live loads taken with ⟨same, linked, opened⟩
  refine ⟨⟨alike.cls, alike.apiVer, alike.addresses, alike.ih.trans same.symm,
    ⟨linked, alike.linked.2⟩, ⟨opened, alike.opened.2⟩⟩, ?_, live.restores⟩
  exact fun i member => live.filters i (same ▸ member)

end Alike

/-- The modules of two processes that differ in their libraries. -/
abbrev Agree (ps qs : List (Plugin F)) : Prop :=
  List.Forall₂ (fun p q => p.Alike q ∧ p.Live) ps qs

namespace Agree

variable {ps qs ps' : List (Plugin F)}

theorem at_index (agree : Agree ps qs) {index : Nat} (found : ps[index]? = some p) :
    Exists fun q => qs[index]? = some q ∧ p.Alike q ∧ p.Live := by
  induction agree generalizing index with
  | nil => cases found
  | cons first rest inductionHypothesis =>
      cases index with
      | zero =>
          cases found
          exact ⟨_, rfl, first⟩
      | succ index => exact inductionHypothesis found

theorem set (agree : Agree ps qs) (index : Nat) (alike : p.Alike q ∧ p.Live) :
    Agree (ps.set index p) (qs.set index q) := by
  induction agree generalizing index with
  | nil => exact .nil
  | cons first rest inductionHypothesis =>
      cases index with
      | zero => exact .cons alike rest
      | succ index => exact .cons first (inductionHypothesis index)

theorem modify (agree : Agree ps qs) (index : Nat) {f : Plugin F -> Plugin F}
    (kept : forall p q, p.Alike q -> p.Live -> (f p).Alike (f q) ∧ (f p).Live) :
    Agree (ps.modify index f) (qs.modify index f) := by
  induction agree generalizing index with
  | nil =>
      rw [List.modify_nil]
      exact .nil
  | cons first rest inductionHypothesis =>
      cases index with
      | zero => exact .cons (kept _ _ first.1 first.2) rest
      | succ index => exact .cons first (inductionHypothesis index)

theorem buildChain (agree : Agree ps qs) {index next : Nat} {ch : List InstancePtr}
    (built : Process.buildChain index next ps = some (ps', ch)) :
    Exists fun qs' => Process.buildChain index next qs = some (qs', ch) ∧ Agree ps' qs' := by
  induction agree generalizing index next ps' ch with
  | nil =>
      cases built
      exact ⟨[], rfl, .nil⟩
  | cons first rest inductionHypothesis =>
      rcases Option.bind_eq_some_iff.mp built with ⟨p', added, built⟩
      rcases Option.map_eq_some_iff.mp built with ⟨⟨ps', later⟩, others, same⟩
      cases same
      rcases first.1.newInstance first.2 added with ⟨q', added', alike⟩
      rcases inductionHypothesis others with ⟨qs', others', agree⟩
      refine ⟨q' :: qs', ?_, .cons alike agree⟩
      rw [Process.buildChain, added', Option.bind_some, others']
      rfl

theorem destroyChain (agree : Agree ps qs) {ch : List InstancePtr}
    (destroyed : Process.destroyChain ch ps = some ps') :
    Exists fun qs' => Process.destroyChain ch qs = some qs' ∧ Agree ps' qs' := by
  induction ch generalizing ps qs with
  | nil =>
      cases destroyed
      exact ⟨qs, rfl, agree⟩
  | cons i ch inductionHypothesis =>
      rcases Option.bind_eq_some_iff.mp destroyed with ⟨p, found, destroyed⟩
      rcases Option.bind_eq_some_iff.mp destroyed with ⟨p', gone, rest⟩
      rcases agree.at_index found with ⟨q, found', alike, live⟩
      rcases alike.destroy live gone with ⟨q', gone', after⟩
      rcases inductionHypothesis (agree.set i.module after) rest with ⟨qs', rest', last⟩
      refine ⟨qs', ?_, last⟩
      rw [Process.destroyChain, found', Option.bind_some, gone', Option.bind_some, rest']

theorem filters (agree : Agree ps qs) (files : Files) {ch : List InstancePtr} {flt : RfxFilterChain F}
    (filtered : Process.filters files ps ch = some flt) : Process.filters files qs ch = some flt := by
  induction ch generalizing flt with
  | nil => exact filtered
  | cons i ch inductionHypothesis =>
      rcases Option.bind_eq_some_iff.mp filtered with ⟨p, found, filtered⟩
      rcases Option.bind_eq_some_iff.mp filtered with ⟨first, looked, filtered⟩
      rcases Option.map_eq_some_iff.mp filtered with ⟨rest, others, rfl⟩
      rcases agree.at_index found with ⟨q, found', alike, _⟩
      rw [Process.filters, found', Option.bind_some, alike.look_eq, looked, Option.bind_some,
        inductionHypothesis others, Option.map_some]

theorem keepStates (agree : Agree ps qs) (ch : List InstancePtr) (flt : RfxFilterChain F) :
    Agree (Process.keepStates ch flt ps) (Process.keepStates ch flt qs) := by
  induction ch generalizing ps qs flt with
  | nil => exact agree
  | cons i ch inductionHypothesis =>
      cases flt with
      | nil => exact agree
      | cons found flt =>
          apply inductionHypothesis
          exact agree.modify i.module fun p q alike live => alike.keep live i.address found.state

/-- A check after which every library is open leaves everything in its place. -/
theorem reloadPlugins (agree : Agree ps qs) {checks : List PluginCheck}
    (smooth : List.Forall₂ (fun check p => p.module.needReload check.mtime check.now = true ->
      check.attempt.loads p.apiVer = true) checks ps)
    (reloaded : Process.reloadPlugins checks ps = some ps') : Agree ps' qs := by
  induction agree generalizing checks ps' with
  | nil =>
      cases smooth
      cases reloaded
      exact .nil
  | cons first rest inductionHypothesis =>
      cases smooth with
      | cons goesWell others =>
          rcases Option.bind_eq_some_iff.mp reloaded with ⟨p', firstEq, reloaded⟩
          rcases Option.map_eq_some_iff.mp reloaded with ⟨ps', restEq, rfl⟩
          refine .cons ?_ (inductionHypothesis others restEq)
          split at firstEq
          · rename_i needed
            rcases Option.map_eq_some_iff.mp firstEq with ⟨module, taken, rfl⟩
            exact first.1.reload first.2 (goesWell needed) taken
          · cases firstEq
            exact first

end Agree
end Plugin

namespace Process

variable {F : Type} {s t next : Process F}

/-- Two processes that differ in their libraries only. -/
inductive Alike (s : Process F) : Process F -> Prop
  | intro (qs : List (Plugin F)) (agree : Plugin.Agree s.plugins qs) : Alike s { s with plugins := qs }

/-- Every module whose library has to be opened again finds it. -/
def Smooth (s : Process F) : LoopEvent -> Prop
  | .pluginsCheck checks => List.Forall₂ (fun check p => p.module.needReload check.mtime check.now = true ->
      check.attempt.loads p.apiVer = true) checks s.plugins
  | _ => True

/-- What happens to the modules behind the sessions. -/
def isCheck : LoopEvent -> Bool
  | .pluginsCheck _ => true
  | _ => false

namespace Alike

theorem proxyRun (alike : s.Alike t) {cli srv : Nat} (taken : s.proxyRun cli srv = some next) :
    Exists fun next' => t.proxyRun cli srv = some next' ∧ next.Alike next' := by
  rcases alike with ⟨qs, agree⟩
  rcases Option.map_eq_some_iff.mp taken with ⟨⟨ps', ch⟩, built, rfl⟩
  rcases agree.buildChain built with ⟨qs', built', agree'⟩
  refine ⟨_, ?_, .intro qs' agree'⟩
  rw [Process.proxyRun, built', Option.map_some, ← agree.length_eq]

theorem close (alike : s.Alike t) (fd : Nat) : (s.close fd).Alike (t.close fd) := by
  rcases alike with ⟨qs, agree⟩
  exact .intro qs agree

theorem openFd (alike : s.Alike t) {fd : Nat} (taken : s.openFd fd = some next) :
    Exists fun next' => t.openFd fd = some next' ∧ next.Alike next' := by
  rcases alike with ⟨qs, agree⟩
  rcases openFd_eq_some taken with ⟨fds, opened, rfl⟩
  refine ⟨_, ?_, .intro qs agree⟩
  rw [Process.openFd, opened]
  rfl

theorem accept (alike : s.Alike t) {accepted : Accepted} (taken : s.accept accepted = some next) :
    Exists fun next' => t.accept accepted = some next' ∧ next.Alike next' := by
  have away {cli srv : Nat} (taken : (s.openFd cli).bind (fun s =>
      (s.openFd srv).map fun s => (s.close cli).close srv) = some next) :
      Exists fun next' => (t.openFd cli).bind (fun t =>
        (t.openFd srv).map fun t => (t.close cli).close srv) = some next' ∧ next.Alike next' := by
    rcases Option.bind_eq_some_iff.mp taken with ⟨one, first, taken⟩
    rcases Option.map_eq_some_iff.mp taken with ⟨two, second, rfl⟩
    rcases alike.openFd first with ⟨one', first', alike₁⟩
    rcases alike₁.openFd second with ⟨two', second', alike₂⟩
    refine ⟨_, ?_, (alike₂.close cli).close srv⟩
    rw [first', Option.bind_some, second', Option.map_some]
  cases accepted with
  | noSocket cli =>
      rcases Option.map_eq_some_iff.mp taken with ⟨one, first, rfl⟩
      rcases alike.openFd first with ⟨one', first', alike₁⟩
      refine ⟨_, ?_, alike₁.close cli⟩
      rw [Process.accept, first', Option.map_some]
  | blocking cli srv => exact away taken
  | refused cli srv => exact away taken
  | inProgress cli srv =>
      rcases Option.bind_eq_some_iff.mp taken with ⟨one, first, taken⟩
      rcases Option.map_eq_some_iff.mp taken with ⟨two, second, rfl⟩
      rcases alike.openFd first with ⟨one', first', alike₁⟩
      rcases alike₁.openFd second with ⟨two', second', alike₂⟩
      rcases alike₂ with ⟨qs, agree⟩
      refine ⟨_, ?_, .intro qs agree⟩
      rw [Process.accept, first', Option.bind_some, second', Option.map_some]
  | connected cli srv =>
      rcases Option.bind_eq_some_iff.mp taken with ⟨one, first, taken⟩
      rcases Option.bind_eq_some_iff.mp taken with ⟨two, second, taken⟩
      rcases alike.openFd first with ⟨one', first', alike₁⟩
      rcases alike₁.openFd second with ⟨two', second', alike₂⟩
      rcases alike₂.proxyRun taken with ⟨next', ran, alike₃⟩
      refine ⟨next', ?_, alike₃⟩
      rw [Process.accept, first', Option.bind_some, second', Option.bind_some, ran]

theorem cliConnectCb (alike : s.Alike t) {accepted : List Accepted}
    (taken : cliConnectCb accepted s = some next) :
    Exists fun next' => Process.cliConnectCb accepted t = some next' ∧ next.Alike next' := by
  induction accepted generalizing s t with
  | nil =>
      cases taken
      exact ⟨t, rfl, alike⟩
  | cons first later inductionHypothesis =>
      rcases Option.bind_eq_some_iff.mp taken with ⟨middle, accepted, rest⟩
      rcases alike.accept accepted with ⟨middle', accepted', alike₁⟩
      rcases inductionHypothesis alike₁ rest with ⟨next', rest', alike₂⟩
      refine ⟨next', ?_, alike₂⟩
      rw [Process.cliConnectCb, accepted', Option.bind_some, rest']

theorem bootstrapIoCb (alike : s.Alike t) {index : Nat} {failed : Bool}
    (taken : s.bootstrapIoCb index failed = some next) :
    Exists fun next' => t.bootstrapIoCb index failed = some next' ∧ next.Alike next' := by
  have ⟨qs, agree⟩ := alike
  rcases Option.bind_eq_some_iff.mp taken with ⟨b, found, taken⟩
  split at taken
  · rename_i pending
    rcases Option.bind_eq_some_iff.mp taken with ⟨_, gone, taken⟩
    simp only [Process.bootstrapIoCb, found, Option.bind_some, pending, if_true, gone]
    split at taken
    · rename_i failed
      cases taken
      exact ⟨_, if_pos failed, .intro qs agree⟩
    · rename_i connected
      rw [if_neg connected]
      exact proxyRun (s := { s with bootstraps := s.bootstraps.eraseIdx index }) (.intro qs agree) taken
  · cases taken

theorem bootstrapTmrCb (alike : s.Alike t) {index : Nat}
    (taken : s.bootstrapTmrCb index = some next) :
    Exists fun next' => t.bootstrapTmrCb index = some next' ∧ next.Alike next' := by
  have ⟨qs, agree⟩ := alike
  rcases Option.bind_eq_some_iff.mp taken with ⟨b, found, taken⟩
  split at taken
  · rename_i pending
    simp only [Process.bootstrapTmrCb, found, Option.bind_some, pending, if_true]
    simp only at taken
    split at taken
    · rename_i later
      cases taken
      exact ⟨_, if_pos later, .intro qs agree⟩
    · rename_i quiet
      rcases Option.map_eq_some_iff.mp taken with ⟨_, gone, rfl⟩
      rw [if_neg quiet, gone]
      exact ⟨_, rfl, .intro qs agree⟩
  · cases taken

theorem writable (alike : s.Alike t) {index : Nat} (taken : s.writable index = some next) :
    Exists fun next' => t.writable index = some next' ∧ next.Alike next' := by
  rcases alike with ⟨qs, agree⟩
  rcases Option.bind_eq_some_iff.mp taken with ⟨b, found, taken⟩
  split at taken
  · rename_i active
    cases taken
    refine ⟨_, ?_, .intro qs agree⟩
    rw [Process.writable, found, Option.bind_some, if_pos active]
  · cases taken

theorem expired (alike : s.Alike t) {index : Nat} (taken : s.expired index = some next) :
    Exists fun next' => t.expired index = some next' ∧ next.Alike next' := by
  rcases alike with ⟨qs, agree⟩
  rcases Option.bind_eq_some_iff.mp taken with ⟨b, found, taken⟩
  split at taken
  · rename_i active
    cases taken
    refine ⟨_, ?_, .intro qs agree⟩
    rw [Process.expired, found, Option.bind_some, if_pos active]
  · cases taken

theorem clientCb (alike : s.Alike t) {index : Nat} {files : Files} {callback : Callback}
    (taken : s.clientCb index files callback = some next) :
    Exists fun next' => t.clientCb index files callback = some next' ∧ next.Alike next' := by
  rcases alike with ⟨qs, agree⟩
  simp only [Process.clientCb, Option.bind_eq_some_iff] at taken
  rcases taken with ⟨c, found, flt, filtered, session, stepped, taken⟩
  simp only [Process.clientCb, found, agree.filters files filtered, stepped, Option.bind_some]
  split at taken
  · rename_i deleted
    rcases Option.map_eq_some_iff.mp taken with ⟨ps', destroyed, rfl⟩
    rcases agree.destroyChain destroyed with ⟨qs', destroyed', agree'⟩
    rw [if_pos deleted, destroyed']
    exact ⟨_, rfl, .intro qs' agree'⟩
  · rename_i live
    cases taken
    rw [if_neg live]
    exact ⟨_, rfl, .intro _ (agree.keepStates c.ch session.flt)⟩

/-- Both processes do the same. -/
theorem step (alike : s.Alike t) {event : LoopEvent} (taken : s.step event = some next)
    (shown : isCheck event = false) :
    Exists fun next' => t.step event = some next' ∧ next.Alike next' := by
  cases event with
  | connect accepted => exact alike.cliConnectCb taken
  | writable index => exact alike.writable taken
  | expired index => exact alike.expired taken
  | bootstrapIo index failed => exact alike.bootstrapIoCb taken
  | bootstrapTimer index => exact alike.bootstrapTmrCb taken
  | client index files callback => exact alike.clientCb taken
  | pluginsCheck checks => cases shown

/-- A check that goes well leaves everything in its place. -/
theorem check (alike : s.Alike t) {event : LoopEvent} (smooth : s.Smooth event)
    (taken : s.step event = some next) (hidden : isCheck event = true) : next.Alike t := by
  rcases alike with ⟨qs, agree⟩
  cases event with
  | pluginsCheck checks =>
      rcases Option.map_eq_some_iff.mp taken with ⟨ps', reloaded, rfl⟩
      exact .intro (s := { s with plugins := ps' }) qs (agree.reloadPlugins smooth reloaded)
  | _ => cases hidden

end Alike

/-- A plugin whose library was there at the start, and whose filters load what they save. -/
def Opened (p : Plugin F) : Prop :=
  (Exists fun filterNew => Exists fun tstamp => Exists fun attempt =>
    p = .load p.cls p.apiVer filterNew tstamp attempt ∧ attempt.loads p.apiVer = true) ∧
    p.cls.Restores

theorem alike_of_opened {p : Plugin F} (opened : Opened p) : p.Alike p ∧ p.Live := by
  rcases opened with ⟨⟨filterNew, tstamp, attempt, same, loads⟩, restores⟩
  have spec := RfxModule.load_spec p.apiVer (.new filterNew tstamp : RfxModule F) attempt
  have loaded := spec.2.1 loads
  have module : p.module = .loadPlugin p.apiVer filterNew tstamp attempt := congrArg Plugin.module same
  have linked : p.module.Linked := module ▸ loaded.linked
  have library : p.module.dlh.isSome = true := by
    rw [module, RfxModule.loadPlugin]
    cases loaded with
    | intro h sym tstamp found same => rw [same, Option.isSome_some]
  refine ⟨⟨rfl, rfl, rfl, rfl, ⟨linked, linked⟩, library, library⟩, ?_, restores⟩
  rw [module, RfxModule.ih_loadPlugin]
  exact fun i member => absurd member List.not_mem_nil

end Process

/-- Reloads are invisible.  As long as each library that has changed can be opened again,
the process gets into the same state, up to the libraries, as if nobody had ever looked at
them: it has the same descriptors and connections, every session has the same bytes,
packets and timers, and every filter has the same state. -/
theorem reload_is_invisible {F : Type} (base : List Nat) (plugins : List (Plugin F))
    (opened : forall p, p ∈ plugins -> Process.Opened p) (events : List LoopEvent) (s : Process F)
    (smooth : Run.Meets Process.step Process.Smooth (.start base plugins) events)
    (reached : Run.run Process.step (.start base plugins) events = some s) :
    Exists fun t => Run.run Process.step (.start base plugins)
        (events.filter fun event => !Process.isCheck event) = some t ∧
      t.fds = s.fds ∧ t.pool = s.pool ∧ t.bootstraps = s.bootstraps ∧ t.clients = s.clients ∧
      List.Forall₂ (fun p q => q.addresses = p.addresses ∧ q.module.ih = p.module.ih)
        s.plugins t.plugins := by
  have first : (Process.start base plugins).Alike (.start base plugins) :=
    .intro plugins (List.forall₂_same.mpr fun p member => Process.alike_of_opened (opened p member))
  rcases Run.run_simulation_hiding Process.isCheck Process.Alike
    (fun _ _ _ _ alike smooth taken hidden => alike.check smooth taken hidden)
    (fun _ _ _ _ alike _ taken shown => alike.step taken shown) first smooth reached with
    ⟨t, ran, alike⟩
  rcases alike with ⟨qs, agree⟩
  exact ⟨_, ran, rfl, rfl, rfl, rfl, agree.imp fun _ _ both => ⟨both.1.addresses, both.1.ih⟩⟩

theorem restores_countClass : countClass.Restores := by
  intro count
  refine ⟨?_, rfl⟩
  simp only [countClass, RfxState.new, RfxState.write, List.nil_append, List.length_replicate]

/-- A packet is counted, and then the library is opened again. -/
def reloadEvents : List LoopEvent :=
  [.connect [.connected 4 5],
    .client 0 (fun _ => none) (.cli (some
      { reads := [.received [4, 0, 1, 0], .failed .eagain]
        fuel := 0
        own := [.accepted 4]
        other := [] }) none),
    .pluginsCheck
      [{ mtime := some 2, now := 9, attempt := { object := some ⟨some "1", some 7⟩, mtime := some 2 } }]]

theorem reload_is_invisible_counted :
    Exists fun s => Exists fun t =>
      Run.run Process.step (.start [3] [countPlugin]) reloadEvents = some s ∧
        Run.run Process.step (.start [3] [countPlugin])
          (reloadEvents.filter fun event => !Process.isCheck event) = some t ∧
        (s.plugins.map fun p => p.module.ih) = [[⟨none, some 1⟩]] ∧ t.clients = s.clients := by
  have opened : forall p, p ∈ [countPlugin] -> Process.Opened p := by
    intro p member
    rw [List.mem_singleton.mp member]
    exact ⟨⟨none, 0, _, rfl, rfl⟩, restores_countClass⟩
  have smooth : Run.Meets Process.step Process.Smooth (.start [3] [countPlugin]) reloadEvents := by
    refine ⟨trivial, fun one first => ?_⟩
    cases first
    refine ⟨trivial, fun two second => ?_⟩
    cases second
    exact ⟨.cons (fun _ => rfl) .nil, fun _ _ => trivial⟩
  have reached : Exists fun s =>
      Run.run Process.step (.start [3] [countPlugin]) reloadEvents = some s ∧
        (s.plugins.map fun p => p.module.ih) = [[⟨none, some 1⟩]] := ⟨_, rfl, rfl⟩
  rcases reached with ⟨s, reached, counted⟩
  rcases reload_is_invisible [3] [countPlugin] opened reloadEvents s smooth reached with
    ⟨t, ran, _, _, _, same, _⟩
  exact ⟨s, t, reached, ran, counted, same⟩

end Rfx
