import Rfx.Process.Sessions
import Rfx.Session.Transparency

namespace Rfx

open Library

/-!
# A process whose modules do nothing to the packets

Every module has one class for its whole life, whichever library it was loaded from last.
Where no class does anything to a packet, neither does a chain that is built of them, nor
one from which a lost library has taken filters away; so every session of the process
relays both of its streams.
-/

/-- All filters of a class stay within what is allowed. -/
def RfxFilterClass.Acts {F : Type} (allowed : FltAct -> Prop) (cls : RfxFilterClass F) : Prop :=
  forall files, (cls.process files).Acts allowed

namespace Process

variable {F : Type} {s next : Process F} {plugins plugins' : List (Plugin F)}

/-! ## The classes of the modules -/

theorem classes_buildChain {index next : Nat} {ch : List InstancePtr}
    (built : buildChain index next plugins = some (plugins', ch)) :
    plugins'.map Plugin.cls = plugins.map Plugin.cls := by
  induction plugins generalizing index next plugins' ch with
  | nil =>
      cases built
      rfl
  | cons p plugins inductionHypothesis =>
      rcases Option.bind_eq_some_iff.mp built with ⟨p', added, built⟩
      rcases Option.map_eq_some_iff.mp built with ⟨⟨rest, later⟩, others, same⟩
      cases same
      rcases Option.map_eq_some_iff.mp added with ⟨module, _, rfl⟩
      rw [List.map_cons, List.map_cons, inductionHypothesis others]

theorem classes_destroyChain {ch : List InstancePtr}
    (destroyed : destroyChain ch plugins = some plugins') :
    plugins'.map Plugin.cls = plugins.map Plugin.cls := by
  induction ch generalizing plugins with
  | nil =>
      cases destroyed
      rfl
  | cons i ch inductionHypothesis =>
      rcases Option.bind_eq_some_iff.mp destroyed with ⟨p, found, destroyed⟩
      rcases Option.bind_eq_some_iff.mp destroyed with ⟨p', gone, rest⟩
      rcases Option.map_eq_some_iff.mp gone with ⟨module, _, rfl⟩
      rw [inductionHypothesis rest, List.map_set]
      apply List.ext_getElem?
      intro place
      rw [List.getElem?_set]
      split
      · rename_i same
        subst same
        rw [List.getElem?_map, found, List.length_map, if_pos (List.getElem?_eq_some_iff.mp found).1]
        rfl
      · rfl

theorem classes_keepStates (ch : List InstancePtr) (chain : RfxFilterChain F) :
    (keepStates ch chain plugins).map Plugin.cls = plugins.map Plugin.cls := by
  induction ch generalizing chain plugins with
  | nil => rfl
  | cons i ch inductionHypothesis =>
      cases chain with
      | nil => rfl
      | cons found chain =>
          rw [keepStates, inductionHypothesis]
          apply List.ext_getElem?
          intro place
          rw [List.getElem?_map, List.getElem?_map, List.getElem?_modify]
          cases plugins[place]? with
          | none => rfl
          | some p =>
              apply congrArg some
              split <;> rfl

theorem classes_reloadPlugins {checks : List PluginCheck}
    (reloaded : reloadPlugins checks plugins = some plugins') :
    plugins'.map Plugin.cls = plugins.map Plugin.cls := by
  have each := reloadPlugins_spec reloaded
  clear reloaded
  induction each with
  | nil => rfl
  | cons first rest inductionHypothesis =>
      rw [List.map_cons, List.map_cons, inductionHypothesis]
      cases first <;> rfl

/-- The modules keep their classes. -/
theorem classes_move (move : Move s next) :
    next.plugins.map Plugin.cls = s.plugins.map Plugin.cls := by
  cases move with
  | waiting cli srv fds opened => rfl
  | watched index b b' found watched => rfl
  | failed index b found => rfl
  | connected cli srv fds plugins ch opened built => exact classes_buildChain built
  | established index b plugins ch found built => exact classes_buildChain built
  | called index c files flt callback session found filtered stepped live =>
      exact classes_keepStates c.ch session.flt
  | ended index c files flt callback session plugins found filtered stepped deleted destroyed =>
      exact classes_destroyChain destroyed
  | reloaded checks plugins reloaded => exact classes_reloadPlugins reloaded

/-- What a chain finds at an instance is a filter of its class. -/
theorem look_rule {good : RfxFilter F -> Prop} {files : Files} {p : Plugin F} {address : Nat}
    {found : RfxInstance F} {f : RfxFilter F} (all : forall files, good (p.cls.process files))
    (looked : p.look files address = some found) (same : found.flt = some f) : good f := by
  rw [Plugin.look] at looked
  split at looked
  · cases looked
  · split at looked
    · cases looked
      cases same
    · split at looked
      · cases looked
        cases same
        exact all files
      · cases looked

/-- What all filters of the classes satisfy, the filters of a chain do. -/
theorem filters_rule {good : RfxFilter F -> Prop} {files : Files} {ch : List InstancePtr}
    {flt : RfxFilterChain F}
    (all : forall cls, cls ∈ plugins.map Plugin.cls -> forall files, good (cls.process files))
    (filtered : filters files plugins ch = some flt) : forall f, some f ∈ flt.filters -> good f := by
  induction ch generalizing flt with
  | nil =>
      cases filtered
      exact fun f member => absurd member List.not_mem_nil
  | cons i ch inductionHypothesis =>
      rcases Option.bind_eq_some_iff.mp filtered with ⟨p, found, filtered⟩
      rcases Option.bind_eq_some_iff.mp filtered with ⟨first, looked, filtered⟩
      rcases Option.map_eq_some_iff.mp filtered with ⟨rest, others, rfl⟩
      have cls := all p.cls (List.mem_map_of_mem (List.mem_of_getElem? found))
      intro f member
      rcases List.mem_cons.mp member with here | later
      · exact look_rule cls looked here.symm
      · exact inductionHypothesis others f later

end Process

namespace RfSession

variable {σ : Type} {s next : RfSession σ}

/-- A session that relays its streams, whatever its filters are. -/
structure Relays (s : RfSession σ) : Prop where
  sound : s.Sound
  idle : s.dq.qh = []
  each : EachPipe (fun _ => ProxyPipe.Relays) s

theorem Transparent.relays (transparent : s.Transparent) : s.Relays :=
  ⟨transparent.sound, transparent.idle, transparent.each⟩

/-- It goes on relaying them with filters that do nothing to its packets. -/
theorem Relays.step (relays : s.Relays)
    (quiet : s.flt.Acts fun act => act.AddsNothing ∧ act.KeepsWire) {callback : Callback}
    (taken : s.step callback = some next) (live : next.deleted = false) : next.Relays := by
  have transparent : s.Transparent := ⟨relays.sound, quiet, relays.idle, relays.each⟩
  rcases transparent.step taken with later | ⟨last, _, rfl⟩
  · exact later.relays
  · cases live

end RfSession

/-- The process is transparent.  If no class of filters adds a packet, sets `drop` or
`delay`, or rewrites the bytes of a packet, then in every state of the process and for
both pipes of every session, whatever the other sessions do and however the modules are
reloaded, found missing or found again: the bytes written are a prefix of the complete
frames of the stream that was read, and an output that was shut down in good order was
shut down after the end of the stream and with all complete frames written. -/
theorem process_is_transparent {F : Type} (base : List Nat) (plugins : List (Plugin F))
    (quiet : forall p, p ∈ plugins -> p.cls.Acts fun act => act.AddsNothing ∧ act.KeepsWire)
    (s : Process F) (reached : Process.Reachable base plugins s) (c : Client F)
    (member : c ∈ s.clients) : c.session.c2s.Delivers ∧ c.session.s2c.Delivers := by
  have kept (s next : Process F)
      (now : s.plugins.map Plugin.cls = plugins.map Plugin.cls ∧
        forall c, c ∈ s.clients -> c.session.Relays)
      (move : Process.Move s next) : next.plugins.map Plugin.cls = plugins.map Plugin.cls ∧
        forall c, c ∈ next.clients -> c.session.Relays := by
    refine ⟨(Process.classes_move move).trans now.1, ?_⟩
    apply Process.clients_move _ RfSession.Relays ?_ ?_ ?_ ?_ now.2 move
    · exact RfxFilterChain.Acts fun act => act.AddsNothing ∧ act.KeepsWire
    · intro s pool flt relays
      exact ⟨relays.sound.with_pool_flt pool flt, relays.idle, ⟨relays.each.c2s, relays.each.s2c⟩⟩
    · exact fun pool => ⟨.start pool [], rfl, ⟨.start _, .start _⟩⟩
    · exact fun s callback next relays quiet taken live => relays.step quiet taken live
    · intro files ch flt filtered
      refine Process.filters_rule (fun cls member => ?_) filtered
      rw [now.1] at member
      rcases List.mem_map.mp member with ⟨p, there, rfl⟩
      exact quiet p there
  have first : (Process.start base plugins).plugins.map Plugin.cls = plugins.map Plugin.cls ∧
      forall c, c ∈ (Process.start base plugins).clients -> c.session.Relays :=
    ⟨rfl, fun _ member => absurd member List.not_mem_nil⟩
  have relays := (Process.reachable_rule _ kept first reached).2 c member
  exact ⟨relays.each.c2s.delivers, relays.each.s2c.delivers⟩

/-- The first session has written the packet that its filter has counted. -/
theorem process_is_transparent_lost :
    Exists fun s => Exists fun c => Process.Reachable [3] [countPlugin] s ∧ s.clients[0]? = some c ∧
      c.session.c2s.written = [4, 0, 1, 0] ∧ c.session.c2s.Delivers := by
  have quiet : forall p, p ∈ [countPlugin] ->
      p.cls.Acts fun act => act.AddsNothing ∧ act.KeepsWire := by
    intro p member files
    rw [List.mem_singleton.mp member]
    refine ⟨fun _ frame called calledEq act acts => ?_, fun _ _ _ called calledEq act acts => ?_⟩
    · cases calledEq
      cases acts
    · cases calledEq
      cases acts
  have reached : Exists fun s => Exists fun c => Process.Reachable [3] [countPlugin] s ∧
      s.clients[0]? = some c ∧ c.session.c2s.written = [4, 0, 1, 0] :=
    ⟨_, _, ⟨countEvents, rfl⟩, rfl, rfl⟩
  rcases reached with ⟨s, c, reached, found, written⟩
  refine ⟨s, c, reached, found, written, ?_⟩
  exact (process_is_transparent [3] [countPlugin] quiet s reached c (List.mem_of_getElem? found)).1

end Rfx
