import Mathlib.Data.Multiset.Filter
import Mathlib.Logic.Relation
import Mathlib.Logic.Function.Basic

namespace Library
namespace RefCount

/-!
# Reference counts and the owners they stand for

A heap hands out addresses and keeps one counter for each.  A ledger adds the
owners: a multiset of tokens, each saying that some place holds an address.
The four elementary steps of a manual ownership discipline are allocation,
handing a token to another place, taking a further reference, and giving one
up.  A ledger is exact when every counter is the number of tokens; exactness is
kept by each elementary step, hence by every path of them, and in an exact
ledger no dead address is ever touched.

Some places are *links*: an address may hang on at most one of them.
-/

/-- One call of the reference-count interface. -/
inductive HeapOp
  | alloc (address : Nat)
  | ref (address : Nat)
  | unref (address : Nat)
  deriving DecidableEq, Repr

/-- Counters by address.  A counter of zero means dead: not yet allocated, or
freed.  `log` lists the calls, newest first; `stale` lists the addresses that
were referenced or unreferenced while dead. -/
structure Heap where
  next : Nat
  refc : Nat -> Nat
  log : List HeapOp
  stale : List Nat

namespace Heap

def empty : Heap where
  next := 0
  refc := fun _ => 0
  log := []
  stale := []

/-- A fresh address with one reference. -/
def alloc (heap : Heap) : Heap where
  next := heap.next + 1
  refc := Function.update heap.refc heap.next 1
  log := .alloc heap.next :: heap.log
  stale := heap.stale

def ref (heap : Heap) (address : Nat) : Heap where
  next := heap.next
  refc := Function.update heap.refc address (heap.refc address + 1)
  log := .ref address :: heap.log
  stale := if heap.refc address = 0 then address :: heap.stale else heap.stale

/-- Drop one reference; the address is freed when its counter reaches zero. -/
def unref (heap : Heap) (address : Nat) : Heap where
  next := heap.next
  refc := Function.update heap.refc address (heap.refc address - 1)
  log := .unref address :: heap.log
  stale := if heap.refc address = 0 then address :: heap.stale else heap.stale

theorem refc_alloc (heap : Heap) :
    heap.alloc.refc = Function.update heap.refc heap.next 1 := rfl

theorem refc_ref (heap : Heap) (address : Nat) :
    (heap.ref address).refc = Function.update heap.refc address (heap.refc address + 1) := rfl

theorem refc_unref (heap : Heap) (address : Nat) :
    (heap.unref address).refc = Function.update heap.refc address (heap.refc address - 1) := rfl

end Heap

variable {Place : Type}

/-- A heap together with the tokens of its owners. -/
structure Ledger (Place : Type) where
  heap : Heap
  tokens : Multiset (Place × Nat)

namespace Ledger

/-- How many places hold the address. -/
def owners (ledger : Ledger Place) (address : Nat) : Nat :=
  ledger.tokens.countP (fun token => token.2 = address)

/-- How many link places hold the address. -/
def links (link : Place -> Bool) (ledger : Ledger Place) (address : Nat) : Nat :=
  ledger.tokens.countP (fun token => link token.1 = true ∧ token.2 = address)

/-- Every counter is the number of owners, no address hangs on two links, and
no dead address was ever touched. -/
structure Exact (link : Place -> Bool) (ledger : Ledger Place) : Prop where
  refc_eq : forall address, ledger.heap.refc address = ledger.owners address
  linked_once : forall address, ledger.links link address ≤ 1
  unallocated : forall address, ledger.heap.next ≤ address -> ledger.heap.refc address = 0
  stale_eq : ledger.heap.stale = []

/-- The elementary ownership steps. -/
inductive Step (link : Place -> Bool) : Ledger Place -> Ledger Place -> Prop
  | alloc (place : Place) (heap : Heap) (tokens : Multiset (Place × Nat)) :
      Step link ⟨heap, tokens⟩ ⟨heap.alloc, (place, heap.next) ::ₘ tokens⟩
  | move (source target : Place) (address : Nat) (heap : Heap) (tokens : Multiset (Place × Nat))
      (linked : link target = true -> link source = true ∨
        links link ⟨heap, tokens⟩ address = 0) :
      Step link ⟨heap, (source, address) ::ₘ tokens⟩ ⟨heap, (target, address) ::ₘ tokens⟩
  | ref (target : Place) (address : Nat) (heap : Heap) (tokens : Multiset (Place × Nat))
      (held : Exists fun source => (source, address) ∈ tokens)
      (linked : link target = true -> links link ⟨heap, tokens⟩ address = 0) :
      Step link ⟨heap, tokens⟩ ⟨heap.ref address, (target, address) ::ₘ tokens⟩
  | unref (source : Place) (address : Nat) (heap : Heap) (tokens : Multiset (Place × Nat)) :
      Step link ⟨heap, (source, address) ::ₘ tokens⟩ ⟨heap.unref address, tokens⟩

/-- Paths of elementary steps. -/
abbrev Path (link : Place -> Bool) : Ledger Place -> Ledger Place -> Prop :=
  Relation.ReflTransGen (Step link)

variable {link : Place -> Bool} {heap : Heap} {tokens : Multiset (Place × Nat)}

theorem exact_empty (link : Place -> Bool) : Exact link ⟨Heap.empty, 0⟩ where
  refc_eq := fun _ => by simp [Heap.empty, owners]
  linked_once := fun _ => by simp [links]
  unallocated := fun _ _ => rfl
  stale_eq := rfl

theorem owners_cons (place : Place) (held address : Nat) :
    owners ⟨heap, (place, held) ::ₘ tokens⟩ address =
      owners ⟨heap, tokens⟩ address + if held = address then 1 else 0 := by
  simp only [owners, Multiset.countP_cons]

theorem links_cons (place : Place) (held address : Nat) :
    links link ⟨heap, (place, held) ::ₘ tokens⟩ address =
      links link ⟨heap, tokens⟩ address +
        if link place = true ∧ held = address then 1 else 0 := by
  simp only [links, Multiset.countP_cons]

theorem links_mono {few many : Place -> Bool} (sub : forall place, few place = true -> many place = true)
    (ledger : Ledger Place) (address : Nat) : ledger.links few address ≤ ledger.links many address := by
  unfold links
  rw [Multiset.countP_eq_card_filter, Multiset.countP_eq_card_filter]
  exact Multiset.card_le_card
    (Multiset.monotone_filter_right _ fun token both => ⟨sub token.1 both.1, both.2⟩)

theorem links_le_owners (link : Place -> Bool) (ledger : Ledger Place) (address : Nat) :
    ledger.links link address ≤ ledger.owners address := by
  unfold links owners
  rw [Multiset.countP_eq_card_filter, Multiset.countP_eq_card_filter]
  exact Multiset.card_le_card (Multiset.monotone_filter_right _ fun _ both => both.2)

theorem owners_pos_of_mem {place : Place} {address : Nat} (held : (place, address) ∈ tokens) :
    0 < owners ⟨heap, tokens⟩ address :=
  Multiset.countP_pos.mpr ⟨_, held, rfl⟩

namespace Exact

/-- Where all places are links, an address that is held has one owner. -/
theorem refc_eq_one {place : Place} {address : Nat} (exact : Exact link ⟨heap, tokens⟩)
    (all : forall token, token ∈ tokens -> link token.1 = true) (held : (place, address) ∈ tokens) :
    heap.refc address = 1 := by
  have same : links link ⟨heap, tokens⟩ address = owners ⟨heap, tokens⟩ address := by
    refine Multiset.countP_congr rfl fun token owner => ?_
    simp only [all token owner, true_and]
  have once := exact.linked_once address
  have positive : 0 < owners ⟨heap, tokens⟩ address := owners_pos_of_mem held
  have counted : heap.refc address = owners ⟨heap, tokens⟩ address := exact.refc_eq address
  omega

/-- A place that holds an address keeps it alive. -/
theorem live {place : Place} {address : Nat} (exact : Exact link ⟨heap, tokens⟩)
    (held : (place, address) ∈ tokens) : 0 < heap.refc address := by
  have counted : heap.refc address = owners ⟨heap, tokens⟩ address := exact.refc_eq address
  rw [counted]
  exact owners_pos_of_mem held

/-- The next address is held by nobody. -/
theorem fresh (exact : Exact link ⟨heap, tokens⟩) : owners ⟨heap, tokens⟩ heap.next = 0 :=
  (exact.refc_eq heap.next).symm.trans (exact.unallocated heap.next (Nat.le_refl _))

theorem alloc (place : Place) (exact : Exact link ⟨heap, tokens⟩) :
    Exact link ⟨heap.alloc, (place, heap.next) ::ₘ tokens⟩ where
  refc_eq := by
    intro address
    rw [owners_cons]
    by_cases same : address = heap.next
    · subst same
      have none : owners ⟨heap.alloc, tokens⟩ heap.next = 0 := exact.fresh
      rw [none, if_pos rfl]
      exact Function.update_self _ _ _
    · have old : heap.refc address = owners ⟨heap.alloc, tokens⟩ address := exact.refc_eq address
      rw [if_neg (Ne.symm same), ← old]
      exact Function.update_of_ne same _ _
  linked_once := by
    intro address
    rw [links_cons]
    by_cases same : heap.next = address
    · have none : links link ⟨heap.alloc, tokens⟩ address = 0 := by
        have bound := links_le_owners link ⟨heap, tokens⟩ address
        rw [← same, exact.fresh] at bound
        exact same ▸ Nat.le_zero.mp bound
      rw [none]
      split <;> omega
    · have old : links link ⟨heap.alloc, tokens⟩ address ≤ 1 := exact.linked_once address
      rw [if_neg (fun both => same both.2)]
      exact old
  unallocated := by
    intro address above
    have different : address ≠ heap.next := Nat.ne_of_gt above
    have older : heap.next ≤ address := Nat.le_of_succ_le above
    change Function.update heap.refc heap.next 1 address = 0
    rw [Function.update_of_ne different]
    exact exact.unallocated address older
  stale_eq := exact.stale_eq

theorem move {source target : Place} {address : Nat}
    (exact : Exact link ⟨heap, (source, address) ::ₘ tokens⟩)
    (linked : link target = true -> link source = true ∨
      links link ⟨heap, tokens⟩ address = 0) :
    Exact link ⟨heap, (target, address) ::ₘ tokens⟩ where
  refc_eq := by
    intro other
    have old := exact.refc_eq other
    rw [owners_cons] at old ⊢
    exact old
  linked_once := by
    intro other
    have old := exact.linked_once other
    rw [links_cons] at old ⊢
    by_cases both : link target = true ∧ address = other
    · rw [if_pos both]
      rcases linked both.1 with sourceLinked | none
      · rw [if_pos ⟨sourceLinked, both.2⟩] at old
        exact old
      · have none' : links link ⟨heap, tokens⟩ other = 0 := both.2 ▸ none
        omega
    · rw [if_neg both]
      exact Nat.le_trans (Nat.le_add_right _ _) old
  unallocated := exact.unallocated
  stale_eq := exact.stale_eq

theorem ref {target : Place} {address : Nat} (exact : Exact link ⟨heap, tokens⟩)
    (held : Exists fun source => (source, address) ∈ tokens)
    (linked : link target = true -> links link ⟨heap, tokens⟩ address = 0) :
    Exact link ⟨heap.ref address, (target, address) ::ₘ tokens⟩ where
  refc_eq := by
    intro other
    have old : heap.refc other = owners ⟨heap.ref address, tokens⟩ other := exact.refc_eq other
    rw [owners_cons, ← old]
    by_cases same : address = other
    · subst same
      simp [Heap.ref]
    · rw [if_neg same]
      exact Function.update_of_ne (Ne.symm same) _ _
  linked_once := by
    intro other
    have old : links link ⟨heap.ref address, tokens⟩ other ≤ 1 := exact.linked_once other
    rw [links_cons]
    by_cases both : link target = true ∧ address = other
    · have none : links link ⟨heap.ref address, tokens⟩ other = 0 := both.2 ▸ linked both.1
      rw [if_pos both, none]
    · rw [if_neg both]
      exact old
  unallocated := by
    intro other above
    rcases held with ⟨source, member⟩
    have alive := exact.live member
    have dead := exact.unallocated other above
    have different : other ≠ address := by
      intro same
      change heap.refc other = 0 at dead
      rw [same] at dead
      omega
    exact (Function.update_of_ne different _ _).trans dead
  stale_eq := by
    rcases held with ⟨source, member⟩
    have alive := exact.live member
    change (if heap.refc address = 0 then _ else heap.stale) = []
    rw [if_neg (by omega)]
    exact exact.stale_eq

theorem unref {source : Place} {address : Nat}
    (exact : Exact link ⟨heap, (source, address) ::ₘ tokens⟩) :
    Exact link ⟨heap.unref address, tokens⟩ where
  refc_eq := by
    intro other
    have old := exact.refc_eq other
    rw [owners_cons] at old
    change Function.update heap.refc address (heap.refc address - 1) other =
      owners ⟨heap, tokens⟩ other
    by_cases same : address = other
    · subst same
      rw [if_pos rfl] at old
      rw [Function.update_self]
      change heap.refc address = _ at old
      omega
    · rw [if_neg same] at old
      rw [Function.update_of_ne (Ne.symm same)]
      exact old
  linked_once := by
    intro other
    have old := exact.linked_once other
    rw [links_cons] at old
    exact Nat.le_trans (Nat.le_add_right _ _) old
  unallocated := by
    intro other above
    have dead := exact.unallocated other above
    change Function.update heap.refc address (heap.refc address - 1) other = 0
    change heap.refc other = 0 at dead
    by_cases same : other = address
    · subst same
      rw [Function.update_self, dead]
    · rw [Function.update_of_ne same, dead]
  stale_eq := by
    have alive := exact.live (Multiset.mem_cons_self _ _)
    change (if heap.refc address = 0 then _ else heap.stale) = []
    rw [if_neg (by omega)]
    exact exact.stale_eq

/-- As far as the counts go, any one owner of an address could be a linked one and
all the others unlinked ones. -/
theorem link_one {place : Place} {address : Nat} (exact : Exact link ⟨heap, tokens⟩)
    (held : (place, address) ∈ tokens) (target via : Place) (free : link via = false) :
    Exists fun tokens' => Exact link ⟨heap, tokens'⟩ ∧ (target, address) ∈ tokens' := by
  rcases Multiset.exists_cons_of_mem held with ⟨rest, rfl⟩
  refine ⟨(target, address) ::ₘ rest.map fun token => (via, token.2), ?_, Multiset.mem_cons_self _ _⟩
  have noLinks (other : Nat) : links link ⟨heap, rest.map fun token => (via, token.2)⟩ other = 0 := by
    rw [links, Multiset.countP_map, Multiset.card_eq_zero, Multiset.filter_eq_nil]
    rintro token _ ⟨unfree, _⟩
    rw [free] at unfree
    cases unfree
  have sameOwners (other : Nat) :
      owners ⟨heap, rest.map fun token => (via, token.2)⟩ other = owners ⟨heap, rest⟩ other := by
    rw [owners, owners, Multiset.countP_map, Multiset.countP_eq_card_filter]
  refine ⟨fun other => ?_, fun other => ?_, exact.unallocated, exact.stale_eq⟩
  · have old := exact.refc_eq other
    rw [owners_cons] at old ⊢
    rw [sameOwners]
    exact old
  · rw [links_cons, noLinks]
    split <;> omega

/-- One elementary step keeps a ledger exact. -/
theorem step {first second : Ledger Place} (exact : Exact link first)
    (taken : Step link first second) : Exact link second := by
  cases taken with
  | alloc place => exact exact.alloc place
  | move _ _ _ _ _ linked => exact exact.move linked
  | ref _ _ _ _ held linked => exact exact.ref held linked
  | unref => exact exact.unref

/-- Every ledger on a path that starts exact is exact. -/
theorem path {first second : Ledger Place} (exact : Exact link first)
    (taken : Path link first second) : Exact link second := by
  induction taken with
  | refl => exact exact
  | tail _ last inductionHypothesis => exact inductionHypothesis.step last

end Exact

/-! ## Programs over a ledger -/

/-- The tokens of one place for a list of addresses. -/
def hold (place : Place) (addresses : List Nat) : Multiset (Place × Nat) :=
  ((addresses.map fun address => (place, address) : List (Place × Nat)) : Multiset (Place × Nat))

@[simp] theorem hold_nil (place : Place) : hold place [] = 0 := rfl

@[simp] theorem hold_cons (place : Place) (address : Nat) (addresses : List Nat) :
    hold place (address :: addresses) = (place, address) ::ₘ hold place addresses := rfl

@[simp] theorem hold_append (place : Place) (first second : List Nat) :
    hold place (first ++ second) = hold place first + hold place second := by
  simp only [hold, List.map_append, Multiset.coe_add]

theorem hold_perm (place : Place) {first second : List Nat} (perm : first.Perm second) :
    hold place first = hold place second :=
  Multiset.coe_eq_coe.mpr (perm.map _)

theorem mem_hold {place : Place} {addresses : List Nat} {address : Nat}
    (member : address ∈ addresses) : (place, address) ∈ hold place addresses :=
  Multiset.mem_coe.mpr (List.mem_map.mpr ⟨address, member, rfl⟩)

theorem owners_add (first second : Multiset (Place × Nat)) (address : Nat) :
    owners ⟨heap, first + second⟩ address =
      owners ⟨heap, first⟩ address + owners ⟨heap, second⟩ address :=
  Multiset.countP_add _ _ _

theorem owners_hold (place : Place) (addresses : List Nat) (address : Nat) :
    owners ⟨heap, hold place addresses⟩ address = addresses.count address := by
  induction addresses with
  | nil => rfl
  | cons held addresses inductionHypothesis =>
      rw [hold_cons, owners_cons, inductionHypothesis, List.count_cons]
      simp only [beq_iff_eq]

/-- Elementary steps lead from one ledger to another, whatever else is held as
long as everything together is exact. -/
def Leads (link : Place -> Bool) (first second : Ledger Place) : Prop :=
  forall rest, Exact link ⟨first.heap, first.tokens + rest⟩ ->
    Path link ⟨first.heap, first.tokens + rest⟩ ⟨second.heap, second.tokens + rest⟩

namespace Leads

variable {source target via : Place} {address : Nat}

theorem refl (ledger : Ledger Place) : Leads link ledger ledger :=
  fun _ _ => .refl

theorem trans {first second third : Ledger Place} (front : Leads link first second)
    (back : Leads link second third) : Leads link first third := by
  intro rest exact
  have path := front rest exact
  exact path.trans (back rest (exact.path path))

/-- The frame rule. -/
theorem within {before after all all' : Multiset (Place × Nat)} {heap' : Heap}
    (leads : Leads link ⟨heap, before⟩ ⟨heap', after⟩) (frame : Multiset (Place × Nat))
    (first : all = before + frame) (second : all' = after + frame) :
    Leads link ⟨heap, all⟩ ⟨heap', all'⟩ := by
  intro rest exact
  have path := leads (frame + rest)
  simp only [← Multiset.add_assoc, ← first, ← second] at path
  exact path exact

theorem alloc (place : Place) (heap : Heap) :
    Leads link ⟨heap, 0⟩ ⟨heap.alloc, hold place [heap.next]⟩ := by
  intro rest _
  simp only [hold_cons, hold_nil, Multiset.zero_add, Multiset.cons_add]
  exact .single (.alloc place heap rest)

theorem move (linked : link target = true -> link source = true) (heap : Heap)
    (addresses : List Nat) :
    Leads link ⟨heap, hold source addresses⟩ ⟨heap, hold target addresses⟩ := by
  induction addresses with
  | nil => exact refl _
  | cons address addresses inductionHypothesis =>
      have first : Leads link ⟨heap, hold source (address :: addresses)⟩
          ⟨heap, (target, address) ::ₘ hold source addresses⟩ := by
        intro rest _
        simp only [hold_cons, Multiset.cons_add]
        exact .single (.move source target address heap _ fun new => Or.inl (linked new))
      refine first.trans (inductionHypothesis.within {(target, address)} ?_ ?_)
      · rw [Multiset.add_comm, Multiset.singleton_add]
      · rw [Multiset.add_comm, Multiset.singleton_add, hold_cons]

theorem ref (target : Place) (held : (source, address) ∈ tokens) (free : link target = false)
    (heap : Heap) :
    Leads link ⟨heap, tokens⟩ ⟨heap.ref address, hold target [address] + tokens⟩ := by
  intro rest _
  simp only [hold_cons, hold_nil, Multiset.zero_add, Multiset.cons_add]
  refine .single (.ref target address heap _ ⟨source, Multiset.mem_add.mpr (Or.inl held)⟩ ?_)
  intro new
  rw [free] at new
  cases new

theorem unref (source : Place) (heap : Heap) (addresses : List Nat) :
    Leads link ⟨heap, hold source addresses⟩ ⟨addresses.foldl Heap.unref heap, 0⟩ := by
  induction addresses generalizing heap with
  | nil => exact refl _
  | cons address addresses inductionHypothesis =>
      have first : Leads link ⟨heap, hold source (address :: addresses)⟩
          ⟨heap.unref address, hold source addresses⟩ := by
        intro rest _
        simp only [hold_cons, Multiset.cons_add]
        exact .single (.unref source address heap _)
      exact first.trans (inductionHypothesis (heap.unref address))

/-- A linked address is unlinked, but kept, and then linked again with a second
reference. -/
theorem relink (old : link source = true) (free : link via = false) (target : Place)
    (heap : Heap) (address : Nat) :
    Leads link ⟨heap, hold source [address]⟩
      ⟨heap.ref address, hold target [address] + hold via [address]⟩ := by
  intro rest exact
  simp only [hold_cons, hold_nil, Multiset.cons_add, Multiset.zero_add] at exact ⊢
  have elsewhere : links link ⟨heap, (via, address) ::ₘ rest⟩ address = 0 := by
    have once := exact.linked_once address
    rw [links_cons, if_pos ⟨old, rfl⟩] at once
    rw [links_cons, if_neg (by rw [free]; simp)]
    omega
  refine .tail (.single (.move source via address heap rest fun new => ?_))
    (.ref target address heap ((via, address) ::ₘ rest) ⟨via, Multiset.mem_cons_self _ _⟩
      fun _ => elsewhere)
  rw [free] at new
  cases new

end Leads

end Ledger
end RefCount
end Library
