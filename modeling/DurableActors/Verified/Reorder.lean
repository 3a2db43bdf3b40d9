import Mathlib.Algebra.Order.Ring.Nat
import Mathlib.Data.List.Nodup
import Mathlib.Data.List.Perm.Basic

/-!
# Reorder buffers

Numbered items arrive in any order and are released in the order of their
numbers, from one on.  A buffer holds the number to be released next and the
items that arrived too early.

`Keeps` is the invariant: the numbers that arrived are those that were released
and those that wait, and nothing waits that has been released.
-/

namespace DurableActors.Verified.Reorder

variable {α : Type*}

/-- The number to be released next, and the items that wait for their turn. -/
structure Buffer (α : Type*) where
  next : Nat
  ready : List (Nat × α)

/-- What is listed under its own key, and the rest. -/
theorem perm_cons_filter {xs : List (Nat × α)} (hnodup : (xs.map Prod.fst).Nodup) {p : Nat × α}
    (hp : p ∈ xs) : (p :: xs.filter fun q => q.1 ≠ p.1).Perm xs := by
  induction xs with
  | nil => cases hp
  | cons x xs ih =>
    obtain ⟨hnotin, hnodup⟩ := List.nodup_cons.mp hnodup
    have hfresh : ∀ q ∈ xs, q.1 ≠ x.1 := fun q hq heq => hnotin (heq ▸ List.mem_map_of_mem hq)
    rcases List.mem_cons.mp hp with rfl | hp
    · rw [List.filter_cons_of_neg (by simp), List.filter_eq_self.mpr (by simpa using hfresh)]
    · rw [List.filter_cons_of_pos (by simpa using (hfresh p hp).symm)]
      exact (List.Perm.swap x p _).trans ((ih hnodup hp).cons x)

namespace Buffer

/-- The numbers that wait. -/
def keys (b : Buffer α) : List Nat := b.ready.map Prod.fst

/-- The numbers that have been released. -/
def released (b : Buffer α) : List Nat := List.range' 1 (b.next - 1)

def insert (b : Buffer α) (s : Nat) (a : α) : Buffer α := { b with ready := (s, a) :: b.ready }

/-- The buffer without the number `s`. -/
def drop (b : Buffer α) (s : Nat) : Buffer α :=
  { b with ready := b.ready.filter fun p => p.1 ≠ s }

/-- The buffer after the release of its next number. -/
def release (b : Buffer α) : Buffer α := { b.drop b.next with next := b.next + 1 }

/-- The number has neither been released nor does it wait. -/
def Fresh (b : Buffer α) (s : Nat) : Prop := b.next ≤ s ∧ s ∉ b.keys

/-- The invariant of a buffer at which the numbers `arrived` have arrived. -/
structure Keeps (b : Buffer α) (arrived : List Nat) : Prop where
  positive : 0 < b.next
  nodup : b.keys.Nodup
  waiting : ∀ s ∈ b.keys, b.next ≤ s
  perm : arrived.Perm (b.released ++ b.keys)

variable {b : Buffer α} {arrived : List Nat} {s : Nat}

theorem keys_drop (b : Buffer α) (s : Nat) : (b.drop s).keys = b.keys.filter (· ≠ s) := by
  unfold drop keys
  rw [List.filter_map]
  rfl

theorem released_succ (h : 0 < b.next) :
    List.range' 1 (b.next + 1 - 1) = b.released ++ [b.next] := by
  obtain ⟨m, hm⟩ : ∃ m, b.next = m + 1 := ⟨b.next - 1, by omega⟩
  unfold released
  rw [hm, Nat.add_sub_cancel, Nat.add_sub_cancel, List.range'_concat]
  simp [Nat.add_comm]

namespace Keeps

theorem insert (h : b.Keeps arrived) (hfresh : b.Fresh s) (a : α) :
    (b.insert s a).Keeps (s :: arrived) := by
  constructor
  case positive => exact h.positive
  case nodup => exact List.nodup_cons.mpr ⟨hfresh.2, h.nodup⟩
  case waiting =>
    intro t ht
    rcases List.mem_cons.mp ht with rfl | ht
    · exact hfresh.1
    · exact h.waiting t ht
  case perm => exact (h.perm.cons s).trans List.perm_middle.symm

/-- The next number is released. -/
theorem release (h : b.Keeps arrived) (hnext : b.next ∈ b.keys) : b.release.Keeps arrived := by
  have hkeys : b.release.keys = b.keys.filter (· ≠ b.next) := keys_drop b b.next
  constructor
  case positive => exact Nat.succ_pos _
  case nodup =>
    rw [hkeys]
    exact h.nodup.filter _
  case waiting =>
    intro t ht
    rw [hkeys, List.mem_filter, decide_eq_true_eq] at ht
    have hle := h.waiting t ht.1
    have hne := ht.2
    change b.next + 1 ≤ t
    omega
  case perm =>
    rw [hkeys]
    obtain ⟨p, hp, hfirst⟩ := List.mem_map.mp hnext
    have hperm : b.keys.Perm (b.next :: b.keys.filter (· ≠ b.next)) := by
      rw [← keys_drop, ← hfirst]
      exact ((perm_cons_filter h.nodup hp).map Prod.fst).symm
    refine h.perm.trans ((hperm.append_left b.released).trans ?_)
    change (b.released ++ b.next :: _).Perm (List.range' 1 (b.next + 1 - 1) ++ _)
    rw [released_succ h.positive, List.append_assoc]
    exact List.Perm.refl _

/-- **Nothing is left behind**: when all of `1, …, n` arrived and the next
number does not wait, all have been released. -/
theorem complete {n : Nat} (h : b.Keeps arrived) (hnext : b.next ∉ b.keys)
    (hperm : arrived.Perm (List.range' 1 n)) : b.next = n + 1 ∧ b.ready = [] := by
  have hall : (b.released ++ b.keys).Perm (List.range' 1 n) := h.perm.symm.trans hperm
  have hlength : b.next - 1 + b.keys.length = n := by
    have := hall.length_eq
    simpa [released] using this
  have hpos := h.positive
  have hlarge : n < b.next := by
    by_contra hle
    have hmem : b.next ∈ List.range' 1 n := by
      rw [List.mem_range'_1]
      omega
    rcases List.mem_append.mp (hall.mem_iff.mpr hmem) with hreleased | hkeys
    · rw [released, List.mem_range'_1] at hreleased
      omega
    · exact hnext hkeys
  have hnone : b.keys.length = 0 := by omega
  refine ⟨by omega, ?_⟩
  rw [keys, List.length_map] at hnone
  exact List.length_eq_zero_iff.mp hnone

end Keeps

end Buffer

end DurableActors.Verified.Reorder
