import Mathlib.Algebra.Order.Ring.Nat
import Mathlib.Data.List.Basic

/-!
# Machines that answer calls

A machine takes a call in a state and gives an answer and the next state.  Two
machines over the same calls agree when a relation between their states is kept
by every call and related states answer alike.
-/

namespace DurableActors.Verified.Machine

variable {σ τ α β : Type*}

/-- The answers to a sequence of calls. -/
def answers (handle : σ → α → β × σ) : σ → List α → List β
  | _, [] => []
  | s, call :: calls => (handle s call).1 :: answers handle (handle s call).2 calls

/-- The answers to those calls that are kept. -/
def answersOf (handle : σ → α → β × σ) (keep : α → Bool) : σ → List α → List β
  | _, [] => []
  | s, call :: calls =>
    if keep call then (handle s call).1 :: answersOf handle keep (handle s call).2 calls
    else answersOf handle keep (handle s call).2 calls

/-- The state after a sequence of calls. -/
def after (handle : σ → α → β × σ) (s : σ) (calls : List α) : σ :=
  calls.foldl (fun s call => (handle s call).2) s

theorem after_cons (handle : σ → α → β × σ) (s : σ) (call : α) (calls : List α) :
    after handle s (call :: calls) = after handle (handle s call).2 calls := rfl

theorem after_append (handle : σ → α → β × σ) (s : σ) (calls later : List α) :
    after handle s (calls ++ later) = after handle (after handle s calls) later :=
  List.foldl_append

/-- What every call keeps holds after the calls. -/
theorem after_invariant {handle : σ → α → β × σ} {P : σ → Prop} {Q : α → Prop}
    (hcall : ∀ s call, P s → Q call → P (handle s call).2) {s : σ} {calls : List α} (hs : P s)
    (hcalls : ∀ call ∈ calls, Q call) : P (after handle s calls) := by
  induction calls generalizing s with
  | nil => exact hs
  | cons call calls ih =>
    obtain ⟨hfirst, hrest⟩ := List.forall_mem_cons.mp hcalls
    exact ih (hcall s call hs hfirst) hrest

theorem answers_append (handle : σ → α → β × σ) (s : σ) (calls later : List α) :
    answers handle s (calls ++ later) =
      answers handle s calls ++ answers handle (after handle s calls) later := by
  induction calls generalizing s with
  | nil => rfl
  | cons call calls ih => simp only [List.cons_append, answers, after_cons, ih]

theorem answersOf_append (handle : σ → α → β × σ) (keep : α → Bool) (s : σ)
    (calls later : List α) :
    answersOf handle keep s (calls ++ later) =
      answersOf handle keep s calls ++ answersOf handle keep (after handle s calls) later := by
  induction calls generalizing s with
  | nil => rfl
  | cons call calls ih =>
    rw [List.cons_append, answersOf, answersOf, ih]
    split
    · rfl
    · rfl

theorem answersOf_eq_nil (handle : σ → α → β × σ) {keep : α → Bool} (s : σ) {calls : List α}
    (h : ∀ call ∈ calls, keep call = false) : answersOf handle keep s calls = [] := by
  induction calls generalizing s with
  | nil => rfl
  | cons call calls ih =>
    obtain ⟨hcall, hcalls⟩ := List.forall_mem_cons.mp h
    rw [answersOf, if_neg (Bool.eq_false_iff.mp hcall), ih _ hcalls]

/-- Related states answer every sequence of calls alike and end related. -/
theorem simulate {handle : σ → α → β × σ} {handle' : τ → α → β × τ} {R : σ → τ → Prop}
    {C : σ → List α → Prop} (hcall : ∀ s t call calls, R s t → C s (call :: calls) →
      (handle s call).1 = (handle' t call).1 ∧ R (handle s call).2 (handle' t call).2 ∧
        C (handle s call).2 calls) {s : σ} {t : τ} {calls : List α} (hR : R s t) (hC : C s calls) :
    answers handle s calls = answers handle' t calls ∧
      R (after handle s calls) (after handle' t calls) := by
  induction calls generalizing s t with
  | nil => exact ⟨rfl, hR⟩
  | cons call calls ih =>
    obtain ⟨hanswer, hnext, hrest⟩ := hcall s t call calls hR hC
    obtain ⟨hanswers, hend⟩ := ih hnext hrest
    refine ⟨?_, hend⟩
    rw [answers, answers, hanswer, hanswers]

end DurableActors.Verified.Machine
