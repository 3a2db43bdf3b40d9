import Mathlib.Algebra.Order.Ring.Nat
import Mathlib.Data.List.Infix

/-!
# Journals

A journal is the list of what happened, newest first.  A law says what must hold
of an entry and the entries before it; a journal is lawful if every entry obeys
the law.  Each step of a component adds a few entries, so that a journal is shown
lawful one entry at a time (`Lawful.cons`), and a statement about any point of a
run is read off the entry at that point (`Lawful.at`).
-/

namespace DurableActors.Verified.Journal

variable {α : Type*} {law : α → List α → Prop}

/-- Every entry obeys the law, given the entries before it. -/
def Lawful (law : α → List α → Prop) : List α → Prop
  | [] => True
  | e :: before => law e before ∧ Lawful law before

theorem Lawful.cons {e : α} {before : List α} (h : Lawful law before) (he : law e before) :
    Lawful law (e :: before) := ⟨he, h⟩

/-- The entry at any point of the journal. -/
theorem Lawful.at {after before : List α} {e : α} (h : Lawful law (after ++ e :: before)) :
    law e before := by
  induction after with
  | nil => exact h.1
  | cons f after ih => exact ih h.2

end DurableActors.Verified.Journal
