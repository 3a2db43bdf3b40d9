import Mathlib.Algebra.Order.Ring.Nat
import Mathlib.Data.List.Sort
import Mathlib.Order.Nat

/-!
# Ordered maps as sorted association lists

A map from natural numbers that is traversed in key order.  `insert` keeps
the list strictly sorted and replaces the value of a key that is already
there, so membership describes the map completely.
-/

namespace DurableActors.Verified.OrderedMap

variable {α : Type*}
variable {m : List (Nat × α)}

/-- The value stored under `k`. -/
def lookup (k : Nat) : List (Nat × α) → Option α
  | [] => none
  | (k', v) :: m => if k = k' then some v else lookup k m

/-- Store `v` under `k`. -/
def insert (k : Nat) (v : α) : List (Nat × α) → List (Nat × α)
  | [] => [(k, v)]
  | (k', v') :: m =>
    if k < k' then (k, v) :: (k', v') :: m
    else if k = k' then (k, v) :: m
    else (k', v') :: insert k v m

/-- Keys in strictly increasing order. -/
def Sorted (m : List (Nat × α)) : Prop := m.Pairwise fun x y => x.1 < y.1

theorem lookup_eq_some_mem {k : Nat} {v : α} (h : lookup k m = some v) : (k, v) ∈ m := by
  induction m with
  | nil => simp [lookup] at h
  | cons x m ih =>
    obtain ⟨k', v'⟩ := x
    unfold lookup at h
    split at h
    · rename_i hk
      obtain rfl := Option.some.inj h
      simp [hk]
    · exact List.mem_cons_of_mem _ (ih h)

theorem mem_of_mem_insert {k : Nat} {v : α} {x : Nat × α} (h : x ∈ insert k v m) :
    x = (k, v) ∨ x ∈ m := by
  induction m with
  | nil => exact .inl (List.mem_singleton.mp h)
  | cons y m ih =>
    obtain ⟨k', v'⟩ := y
    unfold insert at h
    split at h
    · exact List.mem_cons.mp h
    · split at h
      · exact (List.mem_cons.mp h).imp_right (List.mem_cons_of_mem _)
      · rcases List.mem_cons.mp h with rfl | h
        · exact .inr List.mem_cons_self
        · exact (ih h).imp_right (List.mem_cons_of_mem _)

theorem mem_insert {k : Nat} {v : α} (hm : Sorted m) {x : Nat × α} :
    x ∈ insert k v m ↔ x = (k, v) ∨ x ∈ m ∧ x.1 ≠ k := by
  induction m with
  | nil => simp [insert]
  | cons y m ih =>
    obtain ⟨k', v'⟩ := y
    obtain ⟨hy, hm'⟩ := List.pairwise_cons.mp hm
    unfold insert
    split
    · rename_i hlt
      have hne : ∀ z ∈ (k', v') :: m, z.1 ≠ k := by
        intro z hz
        rcases List.mem_cons.mp hz with rfl | hz
        · exact hlt.ne'
        · exact (hlt.trans (hy z hz)).ne'
      rw [List.mem_cons]
      exact or_congr_right ⟨fun hx => ⟨hx, hne x hx⟩, fun hx => hx.1⟩
    · split
      · rename_i heq
        subst heq
        rw [List.mem_cons]
        apply or_congr_right
        constructor
        · intro hx
          exact ⟨List.mem_cons_of_mem _ hx, (hy x hx).ne'⟩
        · rintro ⟨hx, hne⟩
          rcases List.mem_cons.mp hx with rfl | hx
          · exact absurd rfl hne
          · exact hx
      · rename_i hnlt hne
        rw [List.mem_cons, ih hm', List.mem_cons]
        constructor
        · rintro (rfl | rfl | ⟨hx, hxk⟩)
          · exact .inr ⟨.inl rfl, fun h => hne h.symm⟩
          · exact .inl rfl
          · exact .inr ⟨.inr hx, hxk⟩
        · rintro (rfl | ⟨rfl | hx, hxk⟩)
          · exact .inr (.inl rfl)
          · exact .inl rfl
          · exact .inr (.inr ⟨hx, hxk⟩)

theorem sorted_insert {k : Nat} {v : α} (hm : Sorted m) : Sorted (insert k v m) := by
  induction m with
  | nil => exact List.pairwise_singleton _ _
  | cons y m ih =>
    obtain ⟨k', v'⟩ := y
    obtain ⟨hy, hm'⟩ := List.pairwise_cons.mp hm
    unfold insert
    split
    · rename_i hlt
      refine List.pairwise_cons.mpr ⟨fun z hz => ?_, hm⟩
      rcases List.mem_cons.mp hz with rfl | hz
      · exact hlt
      · exact hlt.trans (hy z hz)
    · split
      · rename_i heq
        subst heq
        exact List.pairwise_cons.mpr ⟨hy, hm'⟩
      · rename_i hnlt hne
        refine List.pairwise_cons.mpr ⟨fun z hz => ?_, ih hm'⟩
        rcases (mem_insert hm').mp hz with rfl | ⟨hz, -⟩
        · show k' < k
          omega
        · exact hy z hz

/-- A sorted list is determined by its members. -/
theorem Sorted.ext {m' : List (Nat × α)} (hm : Sorted m) (hm' : Sorted m')
    (h : ∀ x, x ∈ m ↔ x ∈ m') : m = m' := by
  have : Std.Irrefl (fun x y : Nat × α => x.1 < y.1) := ⟨fun x => lt_irrefl x.1⟩
  have : Std.Antisymm (fun x y : Nat × α => x.1 < y.1) :=
    ⟨fun x y hxy hyx => absurd (hxy.trans hyx) (lt_irrefl x.1)⟩
  exact List.Pairwise.eq_of_mem_iff hm hm' h

end DurableActors.Verified.OrderedMap
