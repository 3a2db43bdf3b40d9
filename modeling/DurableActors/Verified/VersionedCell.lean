import Mathlib.Algebra.Order.Ring.Nat
import Mathlib.Data.List.Basic

/-!
# A cell with generations

An object store's conditional write replaces an object only when the caller
names the object's current generation.  The cell is kept as the list of every
value it has held, oldest first: generations count from one, the current
value is the last, and a successful swap appends.  Nothing is ever removed,
so what a reader learnt about a generation stays true.
-/

namespace DurableActors.Verified.VersionedCell

variable {α : Type*}
variable {g : Nat} {cell : List α}

/-- The generation a conditional write has to name; `none` is the condition
that the object does not exist. -/
def generation : List α → Option Nat
  | [] => none
  | a :: as => some (a :: as).length

/-- Read the current value with its generation. -/
def load (cell : List α) : Option (Nat × α) :=
  cell.getLast?.map fun a => (cell.length, a)

/-- The value the cell held at generation `g`. -/
def valueAt (cell : List α) : Nat → Option α
  | 0 => none
  | g + 1 => cell[g]?

/-- The cell after a conditional write. -/
def swap (cell : List α) (expected : Option Nat) (a : α) : List α :=
  if expected = generation cell then cell ++ [a] else cell

theorem generation_eq_none : generation cell = none ↔ cell = [] := by
  cases cell <;> simp [generation]

theorem generation_eq_some : generation cell = some g ↔ g = cell.length ∧ cell ≠ [] := by
  cases cell with
  | nil => simp [generation]
  | cons a as => simp [generation, eq_comm]

theorem load_eq_some {a : α} :
    load cell = some (g, a) ↔ g = cell.length ∧ cell.getLast? = some a := by
  simp only [load, Option.map_eq_some_iff, Prod.mk.injEq]
  constructor
  · rintro ⟨b, hb, rfl, rfl⟩
    exact ⟨rfl, hb⟩
  · rintro ⟨rfl, ha⟩
    exact ⟨a, ha, rfl, rfl⟩

theorem valueAt_mem {a : α} (h : valueAt cell g = some a) : a ∈ cell := by
  cases g with
  | zero => simp [valueAt] at h
  | succ g => exact List.mem_of_getElem? h

/-- Whatever the cell held, it held at some generation. -/
theorem exists_valueAt {a : α} (h : a ∈ cell) : ∃ g, valueAt cell g = some a := by
  obtain ⟨i, hi⟩ := List.mem_iff_getElem?.mp h
  exact ⟨i + 1, hi⟩

theorem valueAt_le {a : α} (h : valueAt cell g = some a) : g ≤ cell.length := by
  cases g with
  | zero => exact Nat.zero_le _
  | succ g => exact (List.getElem?_eq_some_iff.mp h).1

/-- A generation keeps its value when the cell grows. -/
theorem valueAt_append {a : α} (rest : List α) (h : valueAt cell g = some a) :
    valueAt (cell ++ rest) g = some a := by
  cases g with
  | zero => simp [valueAt] at h
  | succ g =>
    have hlt : g < cell.length := (List.getElem?_eq_some_iff.mp h).1
    simpa [valueAt, List.getElem?_append_left hlt] using h

theorem getLast?_eq_valueAt (cell : List α) : cell.getLast? = valueAt cell cell.length := by
  cases cell with
  | nil => rfl
  | cons a as => simp [valueAt, List.getLast?_eq_getElem?]

theorem valueAt_of_load {a : α} (h : load cell = some (g, a)) : valueAt cell g = some a := by
  obtain ⟨rfl, ha⟩ := load_eq_some.mp h
  rw [← getLast?_eq_valueAt, ha]

/-- A caller whose expected generation is still current read the current
value. -/
theorem getLast?_of_generation {a : α} (hg : some g = generation cell)
    (ha : valueAt cell g = some a) : cell.getLast? = some a := by
  obtain ⟨rfl, -⟩ := generation_eq_some.mp hg.symm
  rw [getLast?_eq_valueAt, ha]

/-- A pairwise relation extends over an append once it is transitive and
relates the last value to the new one. -/
theorem pairwise_append_last {R : α → α → Prop} {a : α} (htrans : ∀ x y z, R x y → R y z → R x z)
    (hcell : cell.Pairwise R) (hlast : ∀ b, cell.getLast? = some b → R b a) :
    (cell ++ [a]).Pairwise R := by
  rw [List.pairwise_append]
  refine ⟨hcell, List.pairwise_singleton _ _, ?_⟩
  intro x hx y hy
  obtain rfl := List.mem_singleton.mp hy
  rcases List.eq_nil_or_concat cell with rfl | ⟨init, b, rfl⟩
  · simp at hx
  · have hb : R b y := hlast b (by simp)
    rw [List.concat_eq_append, List.mem_append, List.mem_singleton] at hx
    rcases hx with hx | rfl
    · have hxb : R x b := by
        rw [List.concat_eq_append, List.pairwise_append] at hcell
        exact hcell.2.2 x hx b (by simp)
      exact htrans x b y hxb hb
    · exact hb

end DurableActors.Verified.VersionedCell
