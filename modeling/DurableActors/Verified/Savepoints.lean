import Mathlib.Algebra.Order.Ring.Nat
import Mathlib.Data.List.Basic

/-!
# Transactions with savepoints

A database connection in the way SQL exposes it: the current content and a
stack of restore points.  `BEGIN` sets an anonymous one and is refused inside
a transaction, `SAVEPOINT` sets a named one, `ROLLBACK TO` and `RELEASE`
address the innermost one with a name, `COMMIT` and `ROLLBACK` end the whole
transaction.  The content is any type, and a restore point may carry a tag.

`Numbered` is the discipline of a caller that names each savepoint by its depth:
the name then finds the restore point at that depth.
-/

namespace DurableActors.Verified.Savepoints

variable {τ σ : Type*}

/-- A restore point: its name (none for `BEGIN`), its tag and the content to
restore. -/
structure Mark (τ σ : Type*) where
  name : Option Nat
  tag : τ
  saved : σ
deriving DecidableEq, Repr

/-- A connection: its content and its restore points, innermost first. -/
structure Connection (τ σ : Type*) where
  current : σ
  marks : List (Mark τ σ)
deriving DecidableEq, Repr

variable (c : Connection τ σ)

/-- No transaction is open. -/
def Connection.autocommit : Bool := c.marks.isEmpty

/-- A statement that changes the content. -/
def Connection.write (f : σ → σ) : Connection τ σ := { c with current := f c.current }

/-- Set a restore point. -/
def Connection.push (name : Option Nat) (tag : τ) : Connection τ σ :=
  { c with marks := ⟨name, tag, c.current⟩ :: c.marks }

/-- `BEGIN`. -/
def Connection.begin (tag : τ) : Option (Connection τ σ) :=
  if c.autocommit then some (c.push none tag) else none

/-- `SAVEPOINT name`. -/
def Connection.savepoint (name : Nat) (tag : τ) : Connection τ σ :=
  c.push (some name) tag

/-- The restore points from the innermost one with this name on. -/
def Connection.find (name : Nat) : List (Mark τ σ) :=
  c.marks.dropWhile fun m => m.name ≠ some name

/-- `RELEASE name`. -/
def Connection.release (name : Nat) : Option (Connection τ σ) :=
  match c.find name with
  | [] => none
  | _ :: rest => some { c with marks := rest }

/-- `ROLLBACK TO name`. -/
def Connection.rollbackTo (name : Nat) : Option (Connection τ σ) :=
  match c.find name with
  | [] => none
  | m :: rest => some ⟨m.saved, m :: rest⟩

/-- `COMMIT`. -/
def Connection.commit : Option (Connection τ σ) :=
  if c.autocommit then none else some { c with marks := [] }

/-- `ROLLBACK`. -/
def Connection.rollback : Option (Connection τ σ) :=
  match c.marks.getLast? with
  | none => none
  | some m => some ⟨m.saved, []⟩

/-! ## Savepoints named by their depth -/

/-- The outermost restore point is a `BEGIN`, and the one at depth `d ≥ 2` has
the name `d`. -/
def Numbered : List (Mark τ σ) → Prop
  | [] => True
  | m :: rest =>
    m.name = (if rest = [] then none else some (rest.length + 1)) ∧ Numbered rest

theorem Numbered.drop {marks : List (Mark τ σ)} (h : Numbered marks) (n : Nat) :
    Numbered (marks.drop n) := by
  induction n generalizing marks with
  | zero => exact h
  | succ n ih =>
    cases marks with
    | nil => exact h
    | cons m rest => exact ih h.2

/-- The search by name finds the restore point at that depth. -/
theorem dropWhile_numbered {marks : List (Mark τ σ)} (h : Numbered marks) {d : Nat}
    (hd : 2 ≤ d) (hle : d ≤ marks.length) :
    marks.dropWhile (fun m => m.name ≠ some d) = marks.drop (marks.length - d) := by
  induction marks with
  | nil =>
    simp only [List.length_nil] at hle
    omega
  | cons m rest ih =>
    by_cases htop : rest.length + 1 = d
    · have hne : rest ≠ [] := by
        rintro rfl
        simp only [List.length_nil] at htop
        omega
      have hname : m.name = some d := by
        rw [h.1, if_neg hne, htop]
      rw [List.dropWhile_cons_of_neg (by simp [hname])]
      simp [htop]
    · have hname : m.name ≠ some d := by
        rw [h.1]
        split
        · simp
        · intro heq
          exact htop (Option.some.inj heq)
      rw [List.dropWhile_cons_of_pos (by simp [hname])]
      rw [List.length_cons] at hle
      rw [ih h.2 (by omega), List.length_cons,
        show rest.length + 1 - d = (rest.length - d) + 1 by omega,
        List.drop_succ_cons]

/-- `ROLLBACK TO` and then `RELEASE` of a depth that is open: the restore
points from before it remain, with the content it had saved. -/
theorem rollbackTo_release {c : Connection τ σ} (h : Numbered c.marks) {d : Nat}
    (hd : 2 ≤ d) (hle : d ≤ c.marks.length) :
    ∃ m, c.marks.drop (c.marks.length - d) = m :: c.marks.drop (c.marks.length + 1 - d) ∧
      ∃ c', c.rollbackTo d = some c' ∧
        c'.release d = some ⟨m.saved, c.marks.drop (c.marks.length + 1 - d)⟩ := by
  have hlt : c.marks.length - d < c.marks.length := by omega
  obtain ⟨m, hm⟩ : ∃ m, c.marks.drop (c.marks.length - d) =
      m :: c.marks.drop (c.marks.length + 1 - d) := by
    refine ⟨c.marks[c.marks.length - d], ?_⟩
    rw [List.drop_eq_getElem_cons hlt,
      show c.marks.length - d + 1 = c.marks.length + 1 - d by omega]
  have hfind : c.find d = m :: c.marks.drop (c.marks.length + 1 - d) := by
    rw [Connection.find, dropWhile_numbered h hd hle, hm]
  have hnum : Numbered (m :: c.marks.drop (c.marks.length + 1 - d)) := by
    rw [← hm]
    exact h.drop _
  have hlen : (c.marks.drop (c.marks.length + 1 - d)).length + 1 = d := by
    rw [List.length_drop]
    omega
  have hname : m.name = some d := by
    have hne : c.marks.drop (c.marks.length + 1 - d) ≠ [] := by
      intro hnil
      rw [hnil, List.length_nil] at hlen
      omega
    rw [hnum.1, if_neg hne, hlen]
  refine ⟨m, hm, ⟨m.saved, m :: c.marks.drop (c.marks.length + 1 - d)⟩, ?_, ?_⟩
  · rw [Connection.rollbackTo, hfind]
  · rw [Connection.release, Connection.find, List.dropWhile_cons_of_neg (by simp [hname])]

/-- `RELEASE` of the innermost restore point. -/
theorem release_innermost {c : Connection τ σ} (h : Numbered c.marks) (hd : 2 ≤ c.marks.length) :
    c.release c.marks.length = some { c with marks := c.marks.tail } := by
  rw [Connection.release, Connection.find, dropWhile_numbered h hd (Nat.le_refl _), Nat.sub_self,
    List.drop_zero]
  cases hm : c.marks with
  | nil =>
    simp [hm] at hd
  | cons m rest => rfl

end DurableActors.Verified.Savepoints
