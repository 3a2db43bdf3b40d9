import Mathlib.Algebra.Order.Ring.Nat
import Mathlib.Data.List.Forall2

/-!
# Computations that return an error or panic

`Checked α` is the result of a fallible function: a value, an error with the
messages that callers have added to it, outermost first, or a panic.  Indexing
and slicing panic out of bounds, so that a function in which every access is
guarded can be proved not to.

The lemmas read off what an `ok` result says about each statement of a `do`
block, and that a block panics only if one of its statements does.
-/

namespace DurableActors.Verified

/-- How a computation fails. -/
inductive Fault
  | error (messages : List String)
  | panic
deriving DecidableEq, Repr

universe u

abbrev Checked (α : Type u) := Except Fault α

namespace Checked

variable {α β : Type u}
variable {xs : List α}

/-- `ensure!`. -/
def ensure (condition : Bool) (message : String) : Checked Unit :=
  if condition = true then .ok () else .error (.error [message])

/-- `Option::context`. -/
def ofOption (message : String) : Option α → Checked α
  | some a => .ok a
  | none => .error (.error [message])

/-- `Result::context`. -/
def context (message : String) : Checked α → Checked α
  | .ok a => .ok a
  | .error (.error messages) => .error (.error (message :: messages))
  | .error .panic => .error .panic

/-- `xs[i]`. -/
def index (xs : List α) (i : Nat) : Checked α :=
  match xs[i]? with
  | some x => .ok x
  | none => .error .panic

/-- `&xs[start..stop]`. -/
def slice (xs : List α) (start stop : Nat) : Checked (List α) :=
  if start ≤ stop ∧ stop ≤ xs.length then .ok ((xs.take stop).drop start)
  else .error .panic

/-- `if let Some(a) = o { f(a)?; }`. -/
def ifSome (o : Option α) (f : α → Checked PUnit.{u + 1}) : Checked PUnit.{u + 1} :=
  match o with
  | some a => f a
  | none => .ok ⟨⟩

/-- `u64::checked_add`. -/
def checkedAdd (a b : Nat) : Option Nat := if a + b < 2 ^ 64 then some (a + b) else none

theorem checkedAdd_eq_some {a b c : Nat} : checkedAdd a b = some c ↔ a + b = c ∧ c < 2 ^ 64 := by
  unfold checkedAdd
  split <;> simp <;> omega

/-! ## Successful computations -/

theorem bind_eq_ok {x : Checked α} {f : α → Checked β} {b : β} :
    (x >>= f) = .ok b ↔ ∃ a, x = .ok a ∧ f a = .ok b := by
  cases x with
  | error e =>
    constructor
    · intro h
      cases h
    · rintro ⟨a, ha, -⟩
      cases ha
  | ok a =>
    constructor
    · intro h
      exact ⟨a, rfl, h⟩
    · rintro ⟨a', ha, h⟩
      cases ha
      exact h

theorem bind_ok {x : Checked α} {f : α → Checked β} {a : α} {b : β} (hx : x = .ok a)
    (hf : f a = .ok b) : (x >>= f) = .ok b := bind_eq_ok.mpr ⟨a, hx, hf⟩

/-- The same for computations with errors of another type. -/
theorem bind_eq_ok_of {ε : Type} {x : Except ε α} {f : α → Except ε β} {b : β}
    (h : (x >>= f) = .ok b) : ∃ a, x = .ok a ∧ f a = .ok b := by
  cases x with
  | error e => cases h
  | ok a => exact ⟨a, rfl, h⟩

/-- A computation over a list succeeds with the successes at its elements. -/
theorem mapM_eq_ok {ε : Type} {f : α → Except ε β} {ys : List β} :
    xs.mapM f = .ok ys ↔ List.Forall₂ (fun x y => f x = .ok y) xs ys := by
  induction xs generalizing ys with
  | nil =>
    rw [List.mapM_nil, List.forall₂_nil_left_iff]
    exact ⟨fun h => (Except.ok.inj h).symm, fun h => congrArg Except.ok h.symm⟩
  | cons x xs ih =>
    rw [List.mapM_cons, List.forall₂_cons_left_iff]
    constructor
    · intro h
      obtain ⟨y, hy, h⟩ := bind_eq_ok_of h
      obtain ⟨rest, hrest, h⟩ := bind_eq_ok_of h
      exact ⟨y, rest, hy, ih.mp hrest, (Except.ok.inj h).symm⟩
    · rintro ⟨y, rest, hy, hrest, rfl⟩
      rw [hy, ih.mpr hrest]
      rfl

/-- Computations over two lists that agree at each place. -/
theorem mapM_congr {α' : Type u} {ε : Type} {f : α → Except ε β} {g : α' → Except ε β}
    {xs' : List α'} (h : List.Forall₂ (fun x x' => f x = g x') xs xs') :
    xs.mapM f = xs'.mapM g := by
  induction h with
  | nil => rfl
  | cons hhead _ ih => rw [List.mapM_cons, List.mapM_cons, hhead, ih]

theorem exists_of_mem_mapM {ε : Type} {f : α → Except ε β} {ys : List β}
    (h : xs.mapM f = .ok ys) {y : β} (hy : y ∈ ys) : ∃ x ∈ xs, f x = .ok y := by
  have hpairs := mapM_eq_ok.mp h
  clear h
  induction hpairs with
  | nil => cases hy
  | cons hhead _ ih =>
    obtain rfl | hy := List.mem_cons.mp hy
    · exact ⟨_, List.mem_cons_self, hhead⟩
    · obtain ⟨x, hx, hfx⟩ := ih hy
      exact ⟨x, List.mem_cons_of_mem _ hx, hfx⟩

theorem exists_mem_of_mapM {ε : Type} {f : α → Except ε β} {ys : List β}
    (h : xs.mapM f = .ok ys) {x : α} (hx : x ∈ xs) : ∃ y ∈ ys, f x = .ok y := by
  have hpairs := mapM_eq_ok.mp h
  clear h
  induction hpairs with
  | nil => cases hx
  | cons hhead _ ih =>
    obtain rfl | hx := List.mem_cons.mp hx
    · exact ⟨_, List.mem_cons_self, hhead⟩
    · obtain ⟨y, hy, hfx⟩ := ih hx
      exact ⟨y, List.mem_cons_of_mem _ hy, hfx⟩

theorem exists_mapM_eq_ok {ε : Type} {f : α → Except ε β}
    (h : ∀ x ∈ xs, ∃ y, f x = .ok y) : ∃ ys, xs.mapM f = .ok ys := by
  induction xs with
  | nil => exact ⟨[], rfl⟩
  | cons x xs ih =>
    obtain ⟨y, hy⟩ := h x List.mem_cons_self
    obtain ⟨ys, hys⟩ := ih fun x hx => h x (List.mem_cons_of_mem _ hx)
    exact ⟨y :: ys, mapM_eq_ok.mpr (.cons hy (mapM_eq_ok.mp hys))⟩

theorem ensure_eq_ok {condition : Bool} {message : String} {u : Unit} :
    ensure condition message = .ok u ↔ condition = true := by
  unfold ensure
  split <;> simp [*]

theorem ensure_ok {c : Bool} {message : String} {β : Type} {f : Unit → Checked β} {b : β}
    (hc : c = true)
    (hf : f () = .ok b) : (ensure c message >>= f) = .ok b := bind_ok (ensure_eq_ok.mpr hc) hf

theorem ofOption_eq_ok {message : String} {o : Option α} {a : α} :
    ofOption message o = .ok a ↔ o = some a := by
  cases o <;> simp [ofOption]

theorem context_eq_ok {message : String} {x : Checked α} {a : α} :
    context message x = .ok a ↔ x = .ok a := by
  cases x with
  | ok b => rfl
  | error e => cases e <;> simp [context]

theorem index_eq_ok {i : Nat} {x : α} : index xs i = .ok x ↔ xs[i]? = some x := by
  unfold index
  split <;> simp [*]

/-! ## No panics -/

/-- The computation does not panic. -/
def Safe (x : Checked α) : Prop := x ≠ .error .panic

theorem safe_ok (a : α) : Safe (.ok a : Checked α) := nofun

theorem safe_error (messages : List String) : Safe (.error (.error messages) : Checked α) := nofun

theorem safe_bind {x : Checked α} {f : α → Checked β} (hx : Safe x)
    (hf : ∀ a, x = .ok a → Safe (f a)) : Safe (x >>= f) := by
  cases x with
  | ok a => exact hf a rfl
  | error e =>
    intro h
    exact hx (by rw [Except.error.inj h])

theorem safe_ensure (condition : Bool) (message : String) : Safe (ensure condition message) := by
  unfold ensure
  split
  · exact safe_ok _
  · exact safe_error _

theorem safe_ofOption (message : String) (o : Option α) : Safe (ofOption message o) := by
  cases o with
  | none => exact safe_error _
  | some a => exact safe_ok a

theorem safe_context {message : String} {x : Checked α} (hx : Safe x) :
    Safe (context message x) := by
  cases x with
  | ok a => exact safe_ok a
  | error e =>
    cases e with
    | error messages => exact safe_error _
    | panic => exact absurd rfl hx

theorem safe_index {i : Nat} (h : i < xs.length) : Safe (index xs i) := by
  unfold index
  rw [List.getElem?_eq_getElem h]
  exact safe_ok _

theorem safe_slice {start stop : Nat} (h : start ≤ stop) (hstop : stop ≤ xs.length) :
    Safe (slice xs start stop) := by
  unfold slice
  rw [if_pos ⟨h, hstop⟩]
  exact safe_ok _

end Checked

end DurableActors.Verified
