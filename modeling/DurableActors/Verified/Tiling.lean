import Mathlib.Algebra.Order.Ring.Nat
import Mathlib.Data.List.Basic

/-!
# Lists of closed ranges without gaps

The items of a list stand for ranges `first x, …, last x` of numbers.
`Tiles a xs b` says that they follow one another without gap or overlap, that
the first one starts at `a`, and that the last one ends right before `b`.
-/

namespace DurableActors.Verified

section

variable {α : Type*} (first last : α → Nat)

/-- The ranges cover `a, …, b - 1`, in order. -/
def Tiles : Nat → List α → Nat → Prop
  | a, [], b => a = b
  | a, x :: xs, b => first x = a ∧ first x ≤ last x ∧ Tiles (last x + 1) xs b

end

namespace Tiles

variable {α : Type*} {first last : α → Nat} {a b c : Nat} {xs ys : List α}

theorem append (hxs : Tiles first last a xs b) (hys : Tiles first last b ys c) :
    Tiles first last a (xs ++ ys) c := by
  induction xs generalizing a with
  | nil =>
    rw [show a = b from hxs]
    exact hys
  | cons x xs ih =>
    obtain ⟨hfirst, hle, hrest⟩ := hxs
    exact ⟨hfirst, hle, ih hrest⟩

theorem head_first {x : α} (h : Tiles first last a (x :: xs) b) : first x = a := h.1

/-- The last range ends where the tiling does. -/
theorem last_eq {x : α} (h : Tiles first last a xs b) (hx : xs.getLast? = some x) :
    last x + 1 = b := by
  induction xs generalizing a with
  | nil => cases hx
  | cons y xs ih =>
    cases xs with
    | nil =>
      obtain rfl : y = x := by simpa using hx
      exact h.2.2
    | cons z xs =>
      rw [List.getLast?_cons_cons] at hx
      exact ih h.2.2 hx

end Tiles

end DurableActors.Verified
