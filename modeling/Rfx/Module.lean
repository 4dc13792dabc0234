import Mathlib.Data.List.GetD
import Rfx.Loot

namespace Rfx

/-!
# Modules

The model of `rfx_state` in `rfx_api.h`, of `rfx_module` and `rfx_instance` in
`main.cpp`, and of what `rfx_loot` does to save and load its state.  A module is
a shared library that is opened and closed while sessions exist.  Each session
has an instance of it, which holds a filter while the library is open, and the
state that the filter saved while it is not.

What the dynamic linker finds in a file is an argument of every attempt to load
it.  The texts that are logged are not modelled.
-/

/-! ## Saved states -/

/-- `rfx_state`.  No filter saves as many bytes as `unsigned` could not count. -/
structure RfxState where
  version : Int
  pos : Nat
  state : List Byte
  inside : pos ≤ state.length

namespace RfxState

/-- The constructor. -/
def new (v : Int) : RfxState where
  version := v
  pos := 0
  state := []
  inside := Nat.le_refl 0

/-- Read up to `len` bytes behind those that were read before. -/
def read (s : RfxState) (len : Nat) : List Byte × RfxState :=
  let l := if s.state.length - s.pos < len then s.state.length - s.pos else len
  ((s.state.drop s.pos).take l, {
    s with
    pos := s.pos + l
    inside := by
      have inside := s.inside
      simp only [l]
      split <;> omega })

/-- Write some bytes behind all others. -/
def write (s : RfxState) (src : List Byte) : RfxState where
  version := s.version
  pos := s.pos
  state := s.state ++ src
  inside := by
    have inside := s.inside
    rw [List.length_append]
    omega

/-- Bytes that are all there are read completely. -/
theorem read_eq {s : RfxState} {bytes later : List Byte}
    (next : s.state.drop s.pos = bytes ++ later) :
    (s.read bytes.length).1 = bytes ∧ (s.read bytes.length).2.state = s.state ∧
      (s.read bytes.length).2.pos = s.pos + bytes.length := by
  have enough : ¬ s.state.length - s.pos < bytes.length := by
    have lengths := congrArg List.length next
    rw [List.length_drop, List.length_append] at lengths
    omega
  simp only [read, if_neg enough, next, List.take_left, and_self]

end RfxState

/-! ## The state of the loot filter -/

namespace LootMask

/-- `save`. -/
def save (m : LootMask) (s : RfxState) : RfxState :=
  s.write m.mask.toList

/-- `restore`; the bytes that are missing stay as they are. -/
def restore (m : LootMask) (s : RfxState) : LootMask × RfxState × Bool :=
  let got := s.read 8192
  (⟨Vector.ofFn fun i => got.1.getD i m.mask[i]⟩, got.2, got.1.length = 8192)

/-- A mask that is all there is restored, whatever it replaces. -/
theorem restore_eq (old m : LootMask) {s : RfxState} {later : List Byte}
    (next : s.state.drop s.pos = m.mask.toList ++ later) :
    (old.restore s).1 = m ∧ (old.restore s).2.2 = true ∧
      (old.restore s).2.1.state.drop (old.restore s).2.1.pos = later := by
  have size : m.mask.toList.length = 8192 := Vector.length_toList
  have got := RfxState.read_eq next
  rw [size] at got
  refine ⟨?_, ?_, ?_⟩
  · cases m with
    | mk mask =>
        simp only [restore, got.1, LootMask.mk.injEq]
        apply Vector.ext
        intro i inside
        rw [Vector.getElem_ofFn, List.getD_eq_getElem _ _ (by rw [size]; exact inside),
          Vector.getElem_toList]
  · simp only [restore, got.1, size, decide_true]
  · simp only [restore, got.2.1, got.2.2, ← List.drop_drop, next]
    exact List.drop_left' size

end LootMask

namespace LootState

/-- `save`. -/
def save (lm : LootState) (s : RfxState) : RfxState :=
  lm.pick.save (lm.shown.save s)

/-- `restore`; `pick` is read only when `shown` was there. -/
def restore (lm : LootState) (s : RfxState) : LootState × RfxState × Bool :=
  let shown := lm.shown.restore s
  if shown.2.2 then
    let pick := lm.pick.restore shown.2.1
    (⟨shown.1, pick.1⟩, pick.2)
  else
    (⟨shown.1, lm.pick⟩, shown.2)

/-- What was saved to a new state is restored, whatever it replaces. -/
theorem restore_save (old lm : LootState) :
    (old.restore (lm.save (.new 0))).1 = lm ∧ (old.restore (lm.save (.new 0))).2.2 = true := by
  have saved : (lm.save (.new 0)).state.drop (lm.save (.new 0)).pos =
      lm.shown.mask.toList ++ lm.pick.mask.toList := rfl
  have shown := LootMask.restore_eq old.shown lm.shown saved
  have rest := shown.2.2
  rw [← List.append_nil lm.pick.mask.toList] at rest
  have pick := LootMask.restore_eq old.pick lm.pick rest
  unfold restore
  simp only [shown.1, shown.2.1, if_true, pick.1, pick.2.1, and_self]

end LootState

/-! ## Modules and instances -/

/-- The code of a filter: what `rfx_filter_new` returns, and the members of the
class.  Every library that is opened for a module is taken to contain the same
code. -/
structure RfxFilterClass (F : Type) where
  filterNew : F
  process : Files -> RfxFilter F
  saveState : F -> RfxState -> RfxState
  loadState : F -> RfxState -> F × RfxState × Bool

/-- The code in `rfx_loot.so`. -/
def rfxLootClass : RfxFilterClass LootState where
  filterNew := .new
  process := rfxLoot
  saveState := LootState.save
  loadState := LootState.restore

/-- A library that `dlopen` opened: what `dlsym` finds under
`API_SIGNATURE_SYM`, and the address that it finds under `API_FILTER_SYM`. -/
structure SharedObject where
  apiVer : Option String
  filterSym : Option Nat
  deriving DecidableEq

/-- What an attempt to load a module finds: the library, unless `dlopen` fails,
and the time of its last modification, unless `stat` fails. -/
structure LoadAttempt where
  object : Option SharedObject
  mtime : Option Int

/-- `rfx_instance`, as far as its module is concerned; no function ever stores
`flt_new`. -/
structure AttachedInstance (F : Type) where
  st : Option RfxState
  flt : Option F

namespace AttachedInstance

variable {F : Type}

/-- The loop body in `reload` that saves the state and destroys the filter. -/
def save (cls : RfxFilterClass F) (i : AttachedInstance F) : AttachedInstance F :=
  match i.flt with
  | some f => { st := some (cls.saveState f (.new 0)), flt := none }
  | none => i

/-- The loop body in `reload` that recreates the filter; `f` is what
`filter_new` returned. -/
def recreate (cls : RfxFilterClass F) (f : F) (i : AttachedInstance F) : AttachedInstance F :=
  match i.st with
  | some st => { st := none, flt := some (cls.loadState f st).1 }
  | none => { i with flt := some f }

end AttachedInstance

/-- `class rfx_module`.  `filterNew` is an address, or `NULL`. -/
structure RfxModule (F : Type) where
  dlh : Option SharedObject
  filterNew : Option Nat
  tstamp : Int
  ih : List (AttachedInstance F)

namespace RfxModule

variable {F : Type}

/-- The constructor, which leaves two members as they are. -/
def new (filterNew : Option Nat) (tstamp : Int) : RfxModule F where
  dlh := none
  filterNew := filterNew
  tstamp := tstamp
  ih := []

/-- A call of `filter_new`.  It has a result only while a library is open that
has the function at that address. -/
def callFilterNew (cls : RfxFilterClass F) (m : RfxModule F) : Option F :=
  match m.dlh, m.filterNew with
  | some h, some address => if h.filterSym = some address then some cls.filterNew else none
  | _, _ => none

/-- `new_instance`. -/
def newInstance (cls : RfxFilterClass F) (m : RfxModule F) : Option (RfxModule F) :=
  match m.filterNew with
  | none => some { m with ih := m.ih ++ [⟨none, none⟩] }
  | some _ => (m.callFilterNew cls).map fun f => { m with ih := m.ih ++ [⟨none, some f⟩] }

/-- `load`. -/
def load (apiVer : String) (m : RfxModule F) (attempt : LoadAttempt) : RfxModule F × Bool :=
  match attempt.object with
  | none => (m, false)
  | some h =>
      match h.apiVer with
      | none => (m, false)
      | some ver =>
          if ver ≠ apiVer then (m, false)
          else
            match h.filterSym with
            | none => (m, false)
            | some sym =>
                ({ m with tstamp := attempt.mtime.getD m.tstamp, filterNew := some sym, dlh := some h },
                  true)

/-- The first half of `reload`. -/
def unload (cls : RfxFilterClass F) (m : RfxModule F) : RfxModule F :=
  if m.dlh.isSome then
    { m with ih := m.ih.map (AttachedInstance.save cls), dlh := none, filterNew := none }
  else m

/-- `reload`. -/
def reload (cls : RfxFilterClass F) (apiVer : String) (m : RfxModule F) (attempt : LoadAttempt) :
    Option (RfxModule F) :=
  let loaded := (m.unload cls).load apiVer attempt
  if loaded.2 then
    (loaded.1.callFilterNew cls).map fun f =>
      { loaded.1 with ih := loaded.1.ih.map (AttachedInstance.recreate cls f) }
  else some loaded.1

/-- `need_reload`, given what `stat` and `time` say. -/
def needReload (m : RfxModule F) (mtime : Option Int) (now : Int) : Bool :=
  m.dlh.isNone ||
    match mtime with
    | some mtime => mtime ≠ m.tstamp && 1 < now - mtime
    | none => false

/-- The destructor of an instance. -/
def destroy (m : RfxModule F) (index : Nat) : Option (RfxModule F) :=
  if index < m.ih.length then some { m with ih := m.ih.eraseIdx index } else none

/-- A chain calls the filter of an instance, unless it has none.  The code of the
filter is part of the library. -/
def process (m : RfxModule F) (index : Nat) (call : F -> Option (FltCall F)) :
    Option (RfxModule F) :=
  match m.ih[index]? with
  | none => none
  | some i =>
      match i.flt with
      | none => some m
      | some f =>
          if m.dlh.isSome then
            (call f).map fun called =>
              { m with ih := m.ih.set index { i with flt := some called.state } }
          else none

end RfxModule

/-- What happens to a module once it has been constructed and loaded for the
first time.  An instance is named by its position in the module's list. -/
inductive ModuleOp
  | reload (attempt : LoadAttempt)
  | newInstance
  | destroy (index : Nat)
  | processPkt (index : Nat) (files : Files) (frame : FilterFrame)
  | processEvent (index : Nat) (files : Files) (frame : FilterFrame) (ev : RfxEvent)

namespace RfxModule

variable {F : Type}

/-- What `load_plugins` does for one plugin. -/
def loadPlugin (apiVer : String) (filterNew : Option Nat) (tstamp : Int) (attempt : LoadAttempt) :
    RfxModule F :=
  ((new filterNew tstamp).load apiVer attempt).1

def step (cls : RfxFilterClass F) (apiVer : String) (m : RfxModule F) :
    ModuleOp -> Option (RfxModule F)
  | .reload attempt => m.reload cls apiVer attempt
  | .newInstance => m.newInstance cls
  | .destroy index => m.destroy index
  | .processPkt index files frame => m.process index fun f => (cls.process files).processPkt f frame
  | .processEvent index files frame ev =>
      m.process index fun f => (cls.process files).processEvent f frame ev

end RfxModule

/-! ## What loading and reloading come to -/

/-- All stages of `load` succeed. -/
def LoadAttempt.loads (apiVer : String) (attempt : LoadAttempt) : Bool :=
  match attempt.object with
  | none => false
  | some h => h.apiVer = some apiVer && h.filterSym.isSome

namespace RfxModule

variable {F : Type}

/-- `filter_new` is the function of the library that is open, and no function
while none is. -/
structure Linked (m : RfxModule F) : Prop where
  pointer : m.filterNew = m.dlh.bind SharedObject.filterSym
  found : m.dlh.isSome = true -> m.filterNew.isSome = true

/-- A module after an attempt that succeeded. -/
inductive Loaded (m next : RfxModule F) : Prop
  | intro (h : SharedObject) (sym : Nat) (tstamp : Int) (found : h.filterSym = some sym)
      (same : next = { m with dlh := some h, filterNew := some sym, tstamp := tstamp })

theorem load_spec (apiVer : String) (m : RfxModule F) (attempt : LoadAttempt) :
    (m.load apiVer attempt).2 = attempt.loads apiVer ∧
      (attempt.loads apiVer = true -> Loaded m (m.load apiVer attempt).1) ∧
      (attempt.loads apiVer = false -> (m.load apiVer attempt).1 = m) := by
  unfold load LoadAttempt.loads
  cases attempt.object with
  | none => simp
  | some h =>
      cases ver : h.apiVer with
      | none => simp [ver]
      | some text =>
          cases sym : h.filterSym with
          | none => by_cases same : text = apiVer <;> simp [ver, sym, same]
          | some address =>
              by_cases same : text = apiVer
              · simp only [ver, sym, same, ne_eq, not_true_eq_false, if_false]
                exact ⟨rfl, fun _ => .intro h address _ sym rfl, nofun⟩
              · simp [ver, sym, same]

theorem Loaded.linked {m next : RfxModule F} (loaded : Loaded m next) : next.Linked := by
  cases loaded with
  | intro h sym tstamp found same =>
      rw [same]
      exact ⟨found.symm, fun _ => rfl⟩

theorem Loaded.callFilterNew {m next : RfxModule F} (loaded : Loaded m next)
    (cls : RfxFilterClass F) : next.callFilterNew cls = some cls.filterNew := by
  cases loaded with
  | intro h sym tstamp found same =>
      rw [same]
      simp only [RfxModule.callFilterNew, found, if_true]

/-- A call through the pointer is defined while the library is open. -/
theorem Linked.callFilterNew {m : RfxModule F} (linked : m.Linked) (cls : RfxFilterClass F)
    (open_ : m.dlh.isSome = true) : m.callFilterNew cls = some cls.filterNew := by
  have found := linked.found open_
  have pointer := linked.pointer
  unfold RfxModule.callFilterNew
  cases dlh : m.dlh with
  | none =>
      rw [dlh] at open_
      cases open_
  | some h =>
      cases filterNew : m.filterNew with
      | none =>
          rw [filterNew] at found
          cases found
      | some address =>
          rw [dlh, filterNew] at pointer
          simp only [Option.bind_some] at pointer
          simp only [← pointer, if_true]

theorem Linked.isSome_pointer {m : RfxModule F} (linked : m.Linked) :
    m.filterNew.isSome = m.dlh.isSome := by
  cases dlh : m.dlh with
  | none =>
      rw [linked.pointer, dlh]
      rfl
  | some h => exact (linked.found (by rw [dlh]; rfl)).trans rfl

/-- A new instance has a filter exactly if the library is open. -/
theorem Linked.newInstance {m : RfxModule F} (linked : m.Linked) (cls : RfxFilterClass F) :
    m.newInstance cls = some { m with
      ih := m.ih ++ [⟨none, if m.dlh.isSome then some cls.filterNew else none⟩] } := by
  have pointer := linked.isSome_pointer
  unfold RfxModule.newInstance
  split
  · rename_i unset
    rw [unset] at pointer
    simp only [← pointer, Option.isSome_none, Bool.false_eq_true, if_false, unset]
  · rename_i address set
    rw [set] at pointer
    simp only [linked.callFilterNew cls pointer.symm, ← pointer, Option.map_some, Option.isSome_some,
      if_true, set]

theorem Linked.unload {m : RfxModule F} (linked : m.Linked) (cls : RfxFilterClass F) :
    (m.unload cls).dlh = none ∧ (m.unload cls).filterNew = none := by
  unfold RfxModule.unload
  split
  · exact ⟨rfl, rfl⟩
  · rename_i closed
    have none : m.dlh = none := by simpa using closed
    exact ⟨none, by rw [linked.pointer, none]; rfl⟩

/-- A reload always has a result.  Where the attempt fails, the module stays
without a library; otherwise all filters are created from the new one. -/
theorem reload_spec (cls : RfxFilterClass F) (apiVer : String) (m : RfxModule F)
    (attempt : LoadAttempt) :
    Exists fun next => m.reload cls apiVer attempt = some next ∧
      (attempt.loads apiVer = false -> next = m.unload cls) ∧
      (attempt.loads apiVer = true -> next.dlh.isSome = true ∧ next.Linked ∧
        next.ih = (m.unload cls).ih.map (AttachedInstance.recreate cls cls.filterNew)) := by
  have spec := load_spec apiVer (m.unload cls) attempt
  cases loads : attempt.loads apiVer with
  | false =>
      have same := spec.2.2 loads
      refine ⟨m.unload cls, ?_, fun _ => rfl, nofun⟩
      simp only [reload, spec.1, loads, same, Bool.false_eq_true, if_false]
  | true =>
      have loaded := spec.2.1 loads
      let opened := ((m.unload cls).load apiVer attempt).1
      refine ⟨{ opened with ih := opened.ih.map (AttachedInstance.recreate cls cls.filterNew) }, ?_,
        nofun, fun _ => ?_⟩
      · simp only [reload, spec.1, loads, if_true, loaded.callFilterNew cls, Option.map_some, opened]
      · have linked := loaded.linked
        refine ⟨?_, ⟨linked.pointer, linked.found⟩, ?_⟩
        · cases loaded with
          | intro h sym tstamp found same => simp only [opened, same, Option.isSome_some]
        · cases loaded with
          | intro h sym tstamp found same => simp only [opened, same]

end RfxModule

end Rfx
