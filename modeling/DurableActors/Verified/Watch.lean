import Mathlib.Algebra.Order.Ring.Nat
import Mathlib.Data.List.Nodup

/-!
# A watch channel with one receiver

The sender overwrites the value and bumps a version; the receiver remembers
the last version it has seen and is woken when there is a newer one.  A channel
whose value says nothing is used as a signal, and then the receiver cannot tell
who sent it.  The model keeps what the channel forgets: the senders of all
versions, in order.  The version is their number.
-/

namespace DurableActors.Verified

/-- The senders of the versions so far, and the version the receiver has seen. -/
structure Watch (α : Type*) where
  sent : List α
  seen : Nat
  seen_le : seen ≤ sent.length
deriving DecidableEq, Repr

namespace Watch

variable {α : Type*} (c : Watch α)

/-- A channel, as it is created. -/
def fresh : Watch α := ⟨[], 0, Nat.le_refl 0⟩

/-- `send_replace`. -/
def send (a : α) : Watch α :=
  ⟨c.sent ++ [a], c.seen, by rw [List.length_append]; exact Nat.le_add_right_of_le c.seen_le⟩

/-- `borrow_and_update`: the receiver has seen the current version. -/
def borrowAndUpdate : Watch α := ⟨c.sent, c.sent.length, Nat.le_refl _⟩

/-- The senders of the versions that the receiver has not seen. -/
def unseen : List α := c.sent.drop c.seen

/-- `changed` is ready. -/
def hasChanged : Bool := c.seen < c.sent.length

@[simp] theorem sent_send (a : α) : (c.send a).sent = c.sent ++ [a] := rfl

@[simp] theorem unseen_send (a : α) : (c.send a).unseen = c.unseen ++ [a] :=
  List.drop_append_of_le_length c.seen_le

@[simp] theorem unseen_borrowAndUpdate : c.borrowAndUpdate.unseen = [] :=
  List.drop_length

theorem unseen_ne_nil (h : c.hasChanged = true) : c.unseen ≠ [] := by
  intro hnil
  have hle := List.drop_eq_nil_iff.mp hnil
  exact absurd (of_decide_eq_true h) (Nat.not_lt.mpr hle)

/-- If only `a` can have sent what was not seen, and nobody sends twice, then
the receiver is woken by one signal of `a`. -/
theorem unseen_eq_singleton {a : α} (hnodup : c.sent.Nodup) (hall : ∀ x ∈ c.unseen, x = a)
    (h : c.hasChanged = true) : c.unseen = [a] := by
  have hunique : c.unseen.Nodup := hnodup.sublist (List.drop_sublist _ _)
  rcases hcases : c.unseen with _ | ⟨x, rest⟩
  · exact absurd hcases (c.unseen_ne_nil h)
  · rw [hcases] at hall hunique
    obtain rfl := hall x (by simp)
    cases rest with
    | nil => rfl
    | cons y rest =>
      have hy := hall y (by simp)
      simp [hy] at hunique

end Watch

end DurableActors.Verified
