import Mathlib.Algebra.BigOperators.Group.List.Basic
import Mathlib.Algebra.Order.Group.Multiset

namespace Library
namespace Handles

/-!
# Handles and the parts that own them

A table of open handles, such as the descriptors of a process.  A handle that has been
closed may be handed out again, so a part that closes a handle twice, or uses one that
it has given away, gets hold of somebody else's.  As long as each open handle belongs to
exactly one part, that cannot happen.
-/

/-- The open handles; `stale` lists those that were closed without being open. -/
structure Table (K : Type) where
  opened : List K
  stale : List K

variable {K : Type}

namespace Table

variable [DecidableEq K]

/-- A handle that is not in use becomes open. -/
def opens (t : Table K) (handle : K) : Option (Table K) :=
  if handle ∈ t.opened then none else some { t with opened := handle :: t.opened }

def close (t : Table K) (handle : K) : Table K :=
  if handle ∈ t.opened then { t with opened := t.opened.erase handle }
  else { t with stale := handle :: t.stale }

variable {t one two : Table K} {handle other : K}

theorem opens_eq_some (taken : t.opens handle = some one) :
    handle ∉ t.opened ∧ one = { t with opened := handle :: t.opened } := by
  rw [opens] at taken
  split at taken
  · cases taken
  · rename_i free
    exact ⟨free, (Option.some.inj taken).symm⟩

/-- Opening and closing leaves nothing behind. -/
theorem close_opens (taken : t.opens handle = some one) : one.close handle = t := by
  rcases opens_eq_some taken with ⟨_, rfl⟩
  rw [close, if_pos List.mem_cons_self, List.erase_cons_head]

/-- Nor do two handles that are closed in the order in which they were opened. -/
theorem close_close_opens (first : t.opens handle = some one) (second : one.opens other = some two) :
    (two.close handle).close other = t := by
  rcases opens_eq_some first with ⟨_, rfl⟩
  rcases opens_eq_some second with ⟨free, rfl⟩
  have different : (other == handle) = false :=
    beq_eq_false_iff_ne.mpr (List.ne_of_not_mem_cons free)
  have erased : (other :: handle :: t.opened).erase handle = other :: t.opened := by
    rw [List.erase_cons_tail (Bool.eq_false_iff.mp different), List.erase_cons_head]
  simp only [close, List.mem_cons_of_mem _ List.mem_cons_self, List.mem_cons_self, if_true, erased,
    List.erase_cons_head]

end Table

/-- Each open handle has one owner, and no handle was ever closed by anybody else. -/
structure Owned (t : Table K) (owners : Multiset K) : Prop where
  opened_eq : (t.opened : Multiset K) = owners
  nodup : t.opened.Nodup
  stale_eq : t.stale = []

namespace Owned

variable {t next : Table K} {owners : Multiset K} {handle : K}

/-- No two parts own the same handle. -/
theorem nodup_owners (owned : Owned t owners) : owners.Nodup :=
  owned.opened_eq ▸ Multiset.coe_nodup.mpr owned.nodup

variable [DecidableEq K]

theorem opens (owned : Owned t owners) (taken : t.opens handle = some next) :
    Owned next (handle ::ₘ owners) := by
  rcases Table.opens_eq_some taken with ⟨free, rfl⟩
  exact ⟨congrArg (handle ::ₘ ·) owned.opened_eq, List.nodup_cons.mpr ⟨free, owned.nodup⟩,
    owned.stale_eq⟩

theorem close (owned : Owned t (handle ::ₘ owners)) : Owned (t.close handle) owners := by
  have open_ : handle ∈ t.opened := by
    have held : handle ∈ (t.opened : Multiset K) := owned.opened_eq ▸ Multiset.mem_cons_self _ _
    exact held
  rw [Table.close, if_pos open_]
  refine ⟨?_, owned.nodup.erase handle, owned.stale_eq⟩
  have erased := congrArg (Multiset.erase · handle) owned.opened_eq
  rw [Multiset.erase_cons_head] at erased
  exact erased

end Owned
end Handles

/-! ## Parts -/

namespace Parts

variable {A M : Type} [AddCommMonoid M] (has : A -> M)

/-- What all parts have together. -/
def total (parts : List A) : M :=
  (parts.map has).sum

variable {has} {parts : List A} {index : Nat} {part other : A}

theorem total_append (parts more : List A) : total has (parts ++ more) = total has parts + total has more := by
  rw [total, List.map_append, List.sum_append]
  rfl

theorem total_singleton (part : A) : total has [part] = has part := by
  rw [total, List.map_singleton, List.sum_singleton]

/-- One part and the others. -/
theorem total_eq (found : parts[index]? = some part) :
    total has parts = has part + total has (parts.eraseIdx index) := by
  induction parts generalizing index with
  | nil => cases found
  | cons first parts inductionHypothesis =>
      cases index with
      | zero =>
          cases found
          exact List.sum_cons
      | succ index =>
          have rest : total has parts = has part + total has (parts.eraseIdx index) :=
            inductionHypothesis found
          unfold total at *
          rw [List.map_cons, List.sum_cons, rest, List.eraseIdx_cons_succ, List.map_cons,
            List.sum_cons, add_left_comm]

/-- Only one part changes. -/
theorem total_set (found : parts[index]? = some part) :
    total has (parts.set index other) = has other + total has (parts.eraseIdx index) := by
  have inside : index < parts.length := (List.getElem?_eq_some_iff.mp found).1
  have replaced : (parts.set index other)[index]? = some other := List.getElem?_set_self inside
  rw [total_eq replaced, List.eraseIdx_set_eq]

/-- What the parts have together, some part has. -/
theorem mem_total {B : Type} {has : A -> Multiset B} {b : B} :
    b ∈ total has parts <-> Exists fun part => part ∈ parts ∧ b ∈ has part := by
  induction parts with
  | nil => exact iff_of_false (Multiset.notMem_zero b) fun ⟨_, member, _⟩ => List.not_mem_nil member
  | cons first parts inductionHypothesis =>
      have split : total has (first :: parts) = has first + total has parts := List.sum_cons
      rw [split, Multiset.mem_add, inductionHypothesis]
      simp only [List.mem_cons, or_and_right, exists_or, exists_eq_left]

end Parts
end Library
