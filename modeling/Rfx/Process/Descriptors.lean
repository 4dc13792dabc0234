import Mathlib.Tactic.Abel
import Rfx.Process

namespace Rfx

open Library Library.Handles Library.Parts

/-!
# Descriptors

Every descriptor that the process opens belongs to one bootstrap or to one session,
which closes it once.
-/

/-- The descriptors of a connection. -/
def pair (cli srv : Nat) : Multiset Nat :=
  cli ::ₘ {srv}

def Bootstrap.fds (b : Bootstrap) : Multiset Nat :=
  pair b.cli b.srv

def Client.fds {F : Type} (c : Client F) : Multiset Nat :=
  pair c.cli c.srv

theorem pair_add (cli srv : Nat) (others : Multiset Nat) :
    pair cli srv + others = cli ::ₘ srv ::ₘ others := by
  rw [pair, Multiset.cons_add, Multiset.singleton_add]

namespace Process

variable {F : Type} {s next : Process F} {base : List Nat} {plugins : List (Plugin F)}

/-- The owners of all descriptors; those in `base` are never closed. -/
def owners (base : List Nat) (s : Process F) : Multiset Nat :=
  (base : Multiset Nat) + total Bootstrap.fds s.bootstraps + total Client.fds s.clients

theorem owned_opens {fds opened : Table Nat} {cli srv : Nat} {held : Multiset Nat}
    (owned : Owned fds held) (taken : (fds.opens cli).bind (fun fds => fds.opens srv) = some opened) :
    Owned opened (pair cli srv + held) := by
  rcases Option.bind_eq_some_iff.mp taken with ⟨one, first, second⟩
  rw [pair_add, Multiset.cons_swap]
  exact (owned.opens first).opens second

theorem owned_close {fds : Table Nat} {cli srv : Nat} {held : Multiset Nat}
    (owned : Owned fds (pair cli srv + held)) : Owned ((fds.close cli).close srv) held := by
  rw [pair_add] at owned
  exact owned.close.close

/-- Every move takes the descriptors along. -/
theorem owned_move (owned : Owned s.fds (s.owners base)) (move : Move s next) :
    Owned next.fds (next.owners base) := by
  cases move with
  | waiting cli srv fds opened =>
      have both := owned_opens owned opened
      have same : pair cli srv + s.owners base = (↑base + total Bootstrap.fds
          (s.bootstraps ++ [.start cli srv])) + total Client.fds s.clients := by
        rw [total_append, total_singleton, owners, Bootstrap.fds, Bootstrap.start]
        abel
      rw [same] at both
      exact both
  | watched index b b' found watched =>
      have same : b'.fds = b.fds := by cases watched <;> rfl
      rw [owners, total_set found, same, ← total_eq found]
      exact owned
  | failed index b found =>
      have split : s.owners base = pair b.cli b.srv + (↑base +
          total Bootstrap.fds (s.bootstraps.eraseIdx index) + total Client.fds s.clients) := by
        rw [owners, total_eq found, Bootstrap.fds]
        abel
      exact owned_close (split ▸ owned)
  | connected cli srv fds plugins ch opened built =>
      have both := owned_opens owned opened
      have same : pair cli srv + s.owners base = ↑base + total Bootstrap.fds s.bootstraps +
          total Client.fds (s.clients ++ [⟨cli, srv, ch, .start s.pool []⟩]) := by
        rw [total_append, total_singleton, owners, Client.fds]
        abel
      rw [same] at both
      exact both
  | established index b plugins ch found built =>
      have same : s.owners base = ↑base + total Bootstrap.fds (s.bootstraps.eraseIdx index) +
          total Client.fds (s.clients ++ [⟨b.cli, b.srv, ch, .start s.pool []⟩]) := by
        rw [total_append, total_singleton, owners, total_eq found, Client.fds, Bootstrap.fds]
        abel
      rw [same] at owned
      exact owned
  | called index c files flt callback session found filtered stepped live =>
      have same : Client.fds { c with session } = c.fds := rfl
      rw [owners, total_set found, same, ← total_eq found]
      exact owned
  | ended index c files flt callback session plugins found filtered stepped deleted destroyed =>
      have split : s.owners base = pair c.cli c.srv + (↑base + total Bootstrap.fds s.bootstraps +
          total Client.fds (s.clients.eraseIdx index)) := by
        rw [owners, total_eq found, Client.fds]
        abel
      exact owned_close (split ▸ owned)
  | reloaded checks plugins reloaded => exact owned

end Process

/-- Descriptors are neither leaked nor closed twice.  Whatever connections are accepted,
established, refused or timed out, and however sessions end: each open descriptor
belongs to one bootstrap or to one session or has been open from the start, no two of
them have one in common, and no descriptor was closed that was not open. -/
theorem descriptors_accounted {F : Type} (base : List Nat) (different : base.Nodup)
    (plugins : List (Plugin F)) (s : Process F) (reached : Process.Reachable base plugins s) :
    (s.fds.opened : Multiset Nat) = s.owners base ∧ (s.owners base).Nodup ∧ s.fds.stale = [] := by
  have first : Owned (Process.start base plugins).fds ((Process.start base plugins).owners base) :=
    ⟨by simp [Process.owners, Process.start, total], different, rfl⟩
  have owned := Process.reachable_rule (fun s => Owned s.fds (s.owners base))
    (fun _ _ now move => Process.owned_move now move) first reached
  exact ⟨owned.opened_eq, owned.nodup_owners, owned.stale_eq⟩

/-- A client is refused, another one is waiting for its server. -/
theorem descriptors_accounted_waiting :
    Exists fun s : Process Unit =>
      Process.Reachable [0, 1, 2, 3] [] s ∧ (s.fds.opened : Multiset Nat) = s.owners [0, 1, 2, 3] ∧
        s.bootstraps.length = 1 := by
  let events : List LoopEvent := [.connect [.refused 4 5, .inProgress 4 5], .writable 0]
  have reached : Process.Reachable [0, 1, 2, 3] ([] : List (Plugin Unit)) _ := ⟨events, rfl⟩
  exact ⟨_, reached, (descriptors_accounted [0, 1, 2, 3] (by decide) [] _ reached).1, rfl⟩

end Rfx
