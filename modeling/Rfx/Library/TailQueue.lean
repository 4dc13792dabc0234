import Mathlib.Data.List.Nodup
import Mathlib.Logic.Function.Basic

namespace Library
namespace TailQueue

/-!
# Tail queues

A tail queue links its elements in both directions without any memory of its own.
Each element has a pointer to the next one, and the address of the pointer that
points to itself; the head has a pointer to the first element, and the address of
the pointer at the end.  Such an address is a *slot* here.  The operations follow
these addresses, so they touch heads and elements that they were not given.

An operation has no result if it uses the fields of an element that is not alive.
A memory represents a list for each head, and every operation changes the list of
its own head only.
-/

/-- The address of a pointer to an element. -/
inductive Slot (H N : Type)
  | first (head : H)
  | next (elm : N)
  deriving DecidableEq

/-- The fields of all heads and elements. -/
structure Memory (H N : Type) where
  target : Slot H N -> Option N
  last : H -> Slot H N
  prev : N -> Slot H N

variable {H N : Type}

/-- The pointer at a slot can be stored to. -/
def Slot.usable (alive : N -> Bool) : Slot H N -> Bool
  | .first _ => true
  | .next elm => alive elm

namespace Memory

section Operations

variable [DecidableEq H] [DecidableEq N]

/-- `TAILQ_INIT`. -/
def init (m : Memory H N) (head : H) : Memory H N :=
  { m with
    target := Function.update m.target (.first head) none
    last := Function.update m.last head (.first head) }

/-- `TAILQ_FIRST`. -/
def first (m : Memory H N) (head : H) : Option N :=
  m.target (.first head)

/-- `TAILQ_NEXT`. -/
def next (alive : N -> Bool) (m : Memory H N) (elm : N) : Option (Option N) :=
  if alive elm then some (m.target (.next elm)) else none

/-- The element becomes the last one: what `TAILQ_INSERT_TAIL` stores. -/
def linkLast (m : Memory H N) (head : H) (elm : N) : Memory H N where
  target := Function.update (Function.update m.target (.next elm) none) (m.last head) (some elm)
  last := Function.update m.last head (.next elm)
  prev := Function.update m.prev elm (m.last head)

/-- `TAILQ_INSERT_TAIL`. -/
def insertTail (alive : N -> Bool) (m : Memory H N) (head : H) (elm : N) : Option (Memory H N) :=
  if alive elm && (m.last head).usable alive then some (m.linkLast head elm) else none

/-- The address behind an element goes to what is behind it: the first half of
`TAILQ_REMOVE`. -/
def passBack (alive : N -> Bool) (m : Memory H N) (head : H) (elm : N) : Option (Memory H N) :=
  match m.target (.next elm) with
  | some behind =>
      if alive behind then some { m with prev := Function.update m.prev behind (m.prev elm) }
      else none
  | none => some { m with last := Function.update m.last head (m.prev elm) }

/-- The pointer to an element goes to what is behind it: the second half of `TAILQ_REMOVE`. -/
def bypass (m : Memory H N) (elm : N) : Memory H N :=
  { m with target := Function.update m.target (m.prev elm) (m.target (.next elm)) }

/-- `TAILQ_REMOVE`. -/
def remove (alive : N -> Bool) (m : Memory H N) (head : H) (elm : N) : Option (Memory H N) :=
  if alive elm then
    (m.passBack alive head elm).bind fun m =>
      if (m.prev elm).usable alive then some (m.bypass elm) else none
  else none

end Operations

end Memory

/-! ## Paths -/

/-- Following the pointers from `slot` on leads through `elms` to the slot `last`, and
every element on the way knows where it was found. -/
def Path (m : Memory H N) (last : Slot H N) : Slot H N -> List N -> Prop
  | slot, [] => m.target slot = none ∧ last = slot
  | slot, elm :: elms => m.target slot = some elm ∧ m.prev elm = slot ∧ Path m last (.next elm) elms

/-- The slot behind the elements of a path. -/
def endOf : Slot H N -> List N -> Slot H N
  | slot, [] => slot
  | _, elm :: elms => endOf (.next elm) elms

theorem endOf_eq (slot : Slot H N) (elms : List N) :
    endOf slot elms = slot ∨ Exists fun elm => elm ∈ elms ∧ endOf slot elms = .next elm := by
  induction elms generalizing slot with
  | nil => exact Or.inl rfl
  | cons elm elms inductionHypothesis =>
      right
      rcases inductionHypothesis (.next elm) with here | ⟨later, member, there⟩
      · exact ⟨elm, List.mem_cons_self, here⟩
      · exact ⟨later, List.mem_cons_of_mem _ member, there⟩

/-- No element of the list stands in front of its own path. -/
def Fresh (slot : Slot H N) (elms : List N) : Prop :=
  forall elm, elm ∈ elms -> slot ≠ .next elm

theorem fresh_next {elm : N} {elms : List N} (new : elm ∉ elms) :
    Fresh (.next elm : Slot H N) elms := by
  intro other member same
  cases same
  exact new member

theorem fresh_first (head : H) (elms : List N) : Fresh (.first head : Slot H N) elms :=
  fun _ _ same => nomatch same

namespace Path

variable {m m' : Memory H N} {last slot : Slot H N} {elms : List N}

theorem last_eq (path : Path m last slot elms) : last = endOf slot elms := by
  induction elms generalizing slot with
  | nil => exact path.2
  | cons elm elms inductionHypothesis => exact inductionHypothesis path.2.2

theorem target_eq (path : Path m last slot elms) : m.target slot = elms.head? := by
  cases elms with
  | nil => exact path.1
  | cons elm elms => exact path.1

/-- A path depends on its own slots and elements only. -/
theorem frame (path : Path m last slot elms) (here : m'.target slot = m.target slot)
    (targets : forall elm, elm ∈ elms -> m'.target (.next elm) = m.target (.next elm))
    (prevs : forall elm, elm ∈ elms -> m'.prev elm = m.prev elm) : Path m' last slot elms := by
  induction elms generalizing slot with
  | nil => exact ⟨here.trans path.1, path.2⟩
  | cons elm elms inductionHypothesis =>
      rcases path with ⟨found, back, rest⟩
      refine ⟨here.trans found, (prevs elm List.mem_cons_self).trans back, ?_⟩
      apply inductionHypothesis rest (targets elm List.mem_cons_self)
      · exact fun other member => targets other (List.mem_cons_of_mem _ member)
      · exact fun other member => prevs other (List.mem_cons_of_mem _ member)

/-- The path behind the elements in front. -/
theorem behind {front back : List N} (path : Path m last slot (front ++ back)) :
    Path m last (endOf slot front) back := by
  induction front generalizing slot with
  | nil => exact path
  | cons elm front inductionHypothesis => exact inductionHypothesis path.2.2

/-- An element behind the last one. -/
theorem snoc {elm : N} (path : Path m last slot elms) (fresh : Fresh slot elms)
    (nodup : elms.Nodup) (new : elm ∉ elms) (apart : slot ≠ .next elm)
    (ended : m'.target last = some elm) (nothing : m'.target (.next elm) = none)
    (back : m'.prev elm = last)
    (targets : forall other, other ≠ last -> other ≠ .next elm -> m'.target other = m.target other)
    (prevs : forall other, other ≠ elm -> m'.prev other = m.prev other) :
    Path m' (.next elm) slot (elms ++ [elm]) := by
  induction elms generalizing slot with
  | nil =>
      have same : last = slot := path.2
      subst same
      exact ⟨ended, back, nothing, rfl⟩
  | cons here elms inductionHypothesis =>
      rcases path with ⟨found, known, rest⟩
      rcases List.nodup_cons.mp nodup with ⟨unseen, nodup⟩
      have notLast : slot ≠ last := by
        rw [rest.last_eq]
        rcases endOf_eq (.next here : Slot H N) elms with same | ⟨other, member, same⟩
        · rw [same]
          exact fresh here List.mem_cons_self
        · rw [same]
          exact fresh other (List.mem_cons_of_mem _ member)
      have different : here ≠ elm := fun same => new (same ▸ List.mem_cons_self)
      refine ⟨(targets slot notLast apart).trans found, (prevs here different).trans known, ?_⟩
      apply inductionHypothesis rest (fresh_next unseen) nodup
      · exact fun member => new (List.mem_cons_of_mem _ member)
      · intro same
        cases same
        exact different rfl

/-- The path without one of its elements; `at_end` is where its end is if the element was
the last one. -/
theorem without {front back : List N} {elm : N} {last' : Slot H N}
    (path : Path m last slot (front ++ elm :: back)) (fresh : Fresh slot (front ++ elm :: back))
    (nodup : (front ++ elm :: back).Nodup)
    (passed : m'.target (endOf slot front) = back.head?)
    (at_end : last' = if back = [] then endOf slot front else last)
    (targets : forall other, other ≠ endOf slot front -> m'.target other = m.target other)
    (prevs : forall other, other ∈ back.head? -> m'.prev other = endOf slot front)
    (same : forall other, other ∉ back.head? -> m'.prev other = m.prev other) :
    Path m' last' slot (front ++ back) := by
  induction front generalizing slot with
  | nil =>
      cases back with
      | nil => exact ⟨passed, at_end.trans (if_pos rfl)⟩
      | cons here back =>
          rcases path with ⟨_, _, rest⟩
          rcases rest with ⟨_, _, rest⟩
          have end_eq : last' = last := at_end.trans (if_neg (List.cons_ne_nil _ _))
          subst end_eq
          have unseen := (List.nodup_cons.mp (List.nodup_cons.mp nodup).2).1
          have apart {other : N} (member : other ∈ here :: back) : slot ≠ .next other :=
            fresh other (List.mem_cons_of_mem _ member)
          refine ⟨passed, prevs here rfl, rest.frame ?_ ?_ ?_⟩
          · exact targets _ (apart List.mem_cons_self).symm
          · exact fun other member => targets _ (apart (List.mem_cons_of_mem _ member)).symm
          · intro other member
            apply same
            intro first
            cases first
            exact unseen member
  | cons here front inductionHypothesis =>
      rcases path with ⟨found, known, rest⟩
      rcases List.nodup_cons.mp nodup with ⟨unseen, nodup⟩
      have notThere : slot ≠ endOf slot (here :: front) := by
        change slot ≠ endOf (.next here) front
        rcases endOf_eq (.next here : Slot H N) front with equal | ⟨other, member, equal⟩
        · rw [equal]
          exact fresh here List.mem_cons_self
        · rw [equal]
          exact fresh other (List.mem_cons_of_mem _ (List.mem_append_left _ member))
      have notBehind : here ∉ back.head? := by
        intro first
        have member : here ∈ back := List.mem_of_mem_head? first
        exact unseen (List.mem_append_right _ (List.mem_cons_of_mem _ member))
      refine ⟨(targets slot notThere).trans found, (same here notBehind).trans known, ?_⟩
      exact inductionHypothesis rest (fresh_next unseen) nodup passed at_end targets prevs

end Path

/-! ## Queues -/

/-- A head with its list. -/
structure IsQueue (alive : N -> Bool) (m : Memory H N) (head : H) (elms : List N) : Prop where
  path : Path m (m.last head) (.first head) elms
  nodup : elms.Nodup
  live : forall elm, elm ∈ elms -> alive elm = true

/-- A memory with a list for each head that is in use; no element is in two lists. -/
structure Represents (alive : N -> Bool) (m : Memory H N) (queues : H -> Option (List N)) : Prop where
  queue : forall head elms, queues head = some elms -> IsQueue alive m head elms
  apart : forall head other elms elms', queues head = some elms -> queues other = some elms' ->
    head ≠ other -> elms.Disjoint elms'

namespace IsQueue

variable {alive : N -> Bool} {m m' : Memory H N} {head : H} {elms front back : List N} {elm : N}

theorem last_eq (queue : IsQueue alive m head elms) : m.last head = endOf (.first head) elms :=
  queue.path.last_eq

/-- The last slot of a queue belongs to its head or to one of its elements. -/
theorem usable_last (queue : IsQueue alive m head elms) :
    (m.last head).usable alive = true := by
  rw [queue.last_eq]
  rcases endOf_eq (.first head) elms with same | ⟨other, member, same⟩
  · rw [same]
    rfl
  · rw [same]
    exact queue.live other member

/-- A queue depends on its own fields only. -/
theorem frame (queue : IsQueue alive m head elms) (last : m'.last head = m.last head)
    (here : m'.target (.first head) = m.target (.first head))
    (targets : forall elm, elm ∈ elms -> m'.target (.next elm) = m.target (.next elm))
    (prevs : forall elm, elm ∈ elms -> m'.prev elm = m.prev elm) : IsQueue alive m' head elms where
  path := last ▸ queue.path.frame here targets prevs
  nodup := queue.nodup
  live := queue.live

theorem first_eq (queue : IsQueue alive m head elms) : m.first head = elms.head? :=
  queue.path.target_eq

theorem next_eq (queue : IsQueue alive m head (front ++ elm :: back)) :
    m.next alive elm = some back.head? := by
  have live : alive elm = true :=
    queue.live elm (List.mem_append_right _ List.mem_cons_self)
  rw [Memory.next, if_pos live]
  exact congrArg some queue.path.behind.2.2.target_eq

/-- An element knows the slot that points to it. -/
theorem prev_eq (queue : IsQueue alive m head (front ++ elm :: back)) :
    m.prev elm = endOf (.first head) front :=
  queue.path.behind.2.1

/-- Where the pointer to the element behind `front` is. -/
theorem endOf_apart (other : H) (different : other ≠ head) {elms' : List N}
    (disjoint : elms.Disjoint elms') :
    endOf (.first head) elms ≠ .first other ∧
      forall elm, elm ∈ elms' -> endOf (.first head) elms ≠ .next elm := by
  rcases endOf_eq (.first head) elms with same | ⟨last, member, same⟩
  · rw [same]
    constructor
    · intro equal
      cases equal
      exact different rfl
    · exact fun _ _ equal => nomatch equal
  · rw [same]
    constructor
    · exact fun equal => nomatch equal
    · intro elm there equal
      cases equal
      exact disjoint member there

end IsQueue

namespace Represents

variable {alive alive' : N -> Bool} {m : Memory H N} {queues : H -> Option (List N)}

/-- No head is in use. -/
theorem nothing (alive : N -> Bool) (m : Memory H N) : Represents alive m fun _ => none where
  queue := fun _ _ found => nomatch found
  apart := fun _ _ _ _ found => nomatch found

/-- The fields of elements that are in no list do not matter. -/
theorem of_alive (represents : Represents alive m queues)
    (live : forall head elms elm, queues head = some elms -> elm ∈ elms -> alive' elm = true) :
    Represents alive' m queues where
  queue := fun head elms found =>
    ⟨(represents.queue head elms found).path, (represents.queue head elms found).nodup,
      fun elm member => live head elms elm found member⟩
  apart := represents.apart

/-- A step that changes one list and keeps the other queues. -/
theorem update [DecidableEq H] {head : H} {m' : Memory H N} {after : Option (List N)} (represents : Represents alive m queues)
    (mine : forall elms, after = some elms -> IsQueue alive m' head elms)
    (theirs : forall other elms, other ≠ head -> queues other = some elms ->
      IsQueue alive m' other elms)
    (apart : forall other elms elms', other ≠ head -> queues other = some elms ->
      after = some elms' -> elms.Disjoint elms') :
    Represents alive m' (Function.update queues head after) where
  queue := by
    intro other elms found
    by_cases same : other = head
    · subst same
      rw [Function.update_self] at found
      exact mine elms found
    · rw [Function.update_of_ne same] at found
      exact theirs other elms same found
  apart := by
    intro one other elms elms' found found' different
    by_cases oneHere : one = head
    · subst oneHere
      rw [Function.update_self] at found
      rw [Function.update_of_ne different.symm] at found'
      exact List.disjoint_symm (apart other elms' elms different.symm found' found)
    · rw [Function.update_of_ne oneHere] at found
      by_cases otherHere : other = head
      · subst otherHere
        rw [Function.update_self] at found'
        exact apart one elms elms' different found found'
      · rw [Function.update_of_ne otherHere] at found'
        exact represents.apart one other elms elms' found found' different

/-- A head that is not used any more. -/
theorem forget [DecidableEq H] (represents : Represents alive m queues) (head : H) :
    Represents alive m (Function.update queues head none) := by
  apply represents.update
  · exact fun _ none => nomatch none
  · exact fun other elms _ found => represents.queue other elms found
  · exact fun _ _ _ _ _ none => nomatch none

end Represents

section Operations

variable [DecidableEq H] [DecidableEq N]

namespace IsQueue

variable {alive : N -> Bool} {m m' : Memory H N} {head other : H}
  {elms elms' front back : List N} {elm : N}

theorem init (alive : N -> Bool) (m : Memory H N) (head : H) : IsQueue alive (m.init head) head [] where
  path := ⟨Function.update_self _ _ _, Function.update_self _ _ _⟩
  nodup := List.nodup_nil
  live := fun _ member => absurd member List.not_mem_nil

theorem linkLast (queue : IsQueue alive m head elms) (live : alive elm = true) (new : elm ∉ elms) :
    IsQueue alive (m.linkLast head elm) head (elms ++ [elm]) := by
  have notNext : m.last head ≠ .next elm := by
    rw [queue.last_eq]
    rcases endOf_eq (.first head) elms with same | ⟨other, member, same⟩
    · rw [same]
      exact nofun
    · rw [same]
      intro equal
      cases equal
      exact new member
  refine ⟨?_, ?_, ?_⟩
  · have last : (m.linkLast head elm).last head = .next elm := Function.update_self _ _ _
    rw [last]
    apply queue.path.snoc (fresh_first head elms) queue.nodup new nofun
    · exact Function.update_self _ _ _
    · exact (Function.update_of_ne notNext.symm _ _).trans (Function.update_self _ _ _)
    · exact Function.update_self _ _ _
    · intro other notLast notElm
      exact (Function.update_of_ne notLast _ _).trans (Function.update_of_ne notElm _ _)
    · exact fun other different => Function.update_of_ne different _ _
  · exact List.nodup_append.mpr ⟨queue.nodup, List.nodup_singleton _, by
      intro other member last same here
      rw [List.mem_singleton] at same
      exact new (same ▸ here ▸ member)⟩
  · intro other member
    rcases List.mem_append.mp member with old | here
    · exact queue.live other old
    · exact List.mem_singleton.mp here ▸ live

/-- Linking an element leaves the other queues alone. -/
theorem linkLast_other (queue : IsQueue alive m head elms) (theirs : IsQueue alive m other elms')
    (different : other ≠ head) (disjoint : elms.Disjoint elms') (new : elm ∉ elms') :
    IsQueue alive (m.linkLast head elm) other elms' := by
  have apart := endOf_apart other different disjoint
  rw [← queue.last_eq] at apart
  apply theirs.frame
  · exact Function.update_of_ne different _ _
  · have notNew : (Slot.first other : Slot H N) ≠ .next elm := nofun
    exact (Function.update_of_ne apart.1.symm _ _).trans (Function.update_of_ne notNew _ _)
  · intro there member
    have notNew : (Slot.next there : Slot H N) ≠ .next elm := by
      intro same
      cases same
      exact new member
    exact (Function.update_of_ne (apart.2 there member).symm _ _).trans
      (Function.update_of_ne notNew _ _)
  · intro there member
    have different : there ≠ elm := fun same => new (same ▸ member)
    exact Function.update_of_ne different _ _

/-- What `TAILQ_REMOVE` comes to for an element between `front` and `back`. -/
def unlinked (m : Memory H N) (head : H) (front back : List N) : Memory H N where
  target := Function.update m.target (endOf (.first head) front) back.head?
  last := if back = [] then Function.update m.last head (endOf (.first head) front) else m.last
  prev :=
    match back.head? with
    | some behind => Function.update m.prev behind (endOf (.first head) front)
    | none => m.prev

theorem remove_eq (queue : IsQueue alive m head (front ++ elm :: back)) :
    m.remove alive head elm = some (unlinked m head front back) := by
  have live : alive elm = true := queue.live elm (List.mem_append_right _ List.mem_cons_self)
  have prev := queue.prev_eq
  have target : m.target (.next elm) = back.head? := queue.path.behind.2.2.target_eq
  have usable : (endOf (.first head) front : Slot H N).usable alive = true := by
    rcases endOf_eq (.first head) front with same | ⟨other, member, same⟩
    · rw [same]
      rfl
    · rw [same]
      exact queue.live other (List.mem_append_left _ member)
  rw [Memory.remove, if_pos live, Memory.passBack, target]
  cases back with
  | nil =>
      simp only [List.head?_nil, Option.bind_some, prev, usable, if_true, Memory.bypass, target,
        unlinked]
  | cons behind back =>
      have liveBehind : alive behind = true :=
        queue.live behind (List.mem_append_right _ (List.mem_cons_of_mem _ List.mem_cons_self))
      have different : elm ≠ behind := by
        rintro rfl
        have nodup := (List.nodup_append.mp queue.nodup).2.1
        exact (List.nodup_cons.mp nodup).1 List.mem_cons_self
      simp only [List.head?_cons, liveBehind, if_true, Option.bind_some, prev,
        Function.update_of_ne different, usable, Memory.bypass, target, unlinked,
        List.cons_ne_nil, if_false]

theorem unlink (queue : IsQueue alive m head (front ++ elm :: back)) :
    IsQueue alive (unlinked m head front back) head (front ++ back) where
  path := by
    apply queue.path.without (fresh_first head _) queue.nodup
    · exact Function.update_self _ _ _
    · unfold unlinked
      split
      · exact Function.update_self _ _ _
      · rfl
    · exact fun other different => Function.update_of_ne different _ _
    · intro other first
      rw [Option.mem_def] at first
      simp only [unlinked, first, Function.update_self]
    · intro other notFirst
      unfold unlinked
      cases behind : back.head? with
      | none => rfl
      | some here =>
          have different : other ≠ here := by
            rintro rfl
            exact notFirst behind
          exact Function.update_of_ne different _ _
  nodup := queue.nodup.sublist ((List.sublist_cons_self elm back).append_left front)
  live := fun other member =>
    queue.live other (((List.sublist_cons_self elm back).append_left front).subset member)

/-- Unlinking an element leaves the other queues alone. -/
theorem unlink_other (theirs : IsQueue alive m other elms') (different : other ≠ head)
    (disjoint : (front ++ elm :: back).Disjoint elms') :
    IsQueue alive (unlinked m head front back) other elms' := by
  have disjointFront : front.Disjoint elms' :=
    fun _ member there => disjoint (List.mem_append_left _ member) there
  have apart := endOf_apart other different disjointFront
  apply theirs.frame
  · unfold unlinked
    split
    · exact Function.update_of_ne different _ _
    · rfl
  · exact Function.update_of_ne apart.1.symm _ _
  · exact fun there member => Function.update_of_ne (apart.2 there member).symm _ _
  · intro there member
    unfold unlinked
    cases behind : back.head? with
    | none => rfl
    | some here =>
        have linked : here ∈ back := List.mem_of_mem_head? behind
        have notHere : there ≠ here := by
          rintro rfl
          exact disjoint (List.mem_append_right _ (List.mem_cons_of_mem _ linked)) member
        exact Function.update_of_ne notHere _ _

end IsQueue

namespace Represents

variable {alive : N -> Bool} {m : Memory H N} {queues : H -> Option (List N)} {head : H}
  {elms front back : List N} {elm : N}

theorem init (represents : Represents alive m queues) (head : H) :
    Represents alive (m.init head) (Function.update queues head (some [])) := by
  apply represents.update
  · intro elms same
    cases same
    exact .init alive m head
  · intro other elms different found
    apply (represents.queue other elms found).frame
    · exact Function.update_of_ne different _ _
    · have apart : (Slot.first other : Slot H N) ≠ .first head := by
        intro same
        cases same
        exact different rfl
      exact Function.update_of_ne apart _ _
    · intro elm _
      have apart : (Slot.next elm : Slot H N) ≠ .first head := nofun
      exact Function.update_of_ne apart none m.target
    · exact fun _ _ => rfl
  · intro other elms elms' _ _ same
    cases same
    exact List.disjoint_nil_right elms

theorem insertTail (represents : Represents alive m queues) (found : queues head = some elms)
    (live : alive elm = true)
    (free : forall other elms, queues other = some elms -> elm ∉ elms) :
    Exists fun m' => m.insertTail alive head elm = some m' ∧
      Represents alive m' (Function.update queues head (some (elms ++ [elm]))) := by
  have queue := represents.queue head elms found
  refine ⟨m.linkLast head elm, ?_, ?_⟩
  · rw [Memory.insertTail, live, queue.usable_last]
    rfl
  · apply represents.update
    · intro elms' same
      cases same
      exact queue.linkLast live (free head elms found)
    · intro other elms' different found'
      exact queue.linkLast_other (represents.queue other elms' found') different
        (represents.apart head other elms elms' found found' different.symm) (free other elms' found')
    · intro other elms' elms'' different found' same
      cases same
      intro there member linked
      rcases List.mem_append.mp linked with old | new
      · exact represents.apart other head elms' elms found' found different member old
      · exact free other elms' found' (List.mem_singleton.mp new ▸ member)

theorem remove (represents : Represents alive m queues)
    (found : queues head = some (front ++ elm :: back)) :
    Exists fun m' => m.remove alive head elm = some m' ∧
      Represents alive m' (Function.update queues head (some (front ++ back))) := by
  have queue := represents.queue head _ found
  refine ⟨IsQueue.unlinked m head front back, queue.remove_eq, ?_⟩
  apply represents.update
  · intro elms' same
    cases same
    exact queue.unlink
  · intro other elms' different found'
    exact IsQueue.unlink_other (represents.queue other elms' found') different
      (represents.apart head other _ elms' found found' different.symm)
  · intro other elms' elms'' different found' same
    cases same
    intro there member linked
    exact represents.apart other head elms' _ found' found different member
      (((List.sublist_cons_self elm back).append_left front).subset linked)

end Represents
end Operations

end TailQueue
end Library
