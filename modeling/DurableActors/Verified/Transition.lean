import Mathlib.Algebra.Order.Ring.Nat
import Mathlib.Data.List.Basic
import Mathlib.Logic.Function.Basic

/-!
# Runs of a partial step function

A component is a state type, an action type and an executable step function
that refuses an action which is not enabled.  The scheduler, the network and
every crash are choices of the action list, so a statement about every
interleaving is a statement about every list the step function accepts.

Two rules carry the developments built on top of this file.  `run_invariant`
is the induction from one step to a whole run.  `Guarded` restricts a run by
a condition on each step and on the state it is taken in, and
`run_guarded_invariant` is the same induction under that restriction.

`Ensures` states what a step establishes, if it is taken, by its outcome alone, so
the cases of the step function are the cases of the proof.
-/

namespace DurableActors.Verified.Transition

variable {σ α : Type*}
variable {as : List α} {step : σ → α → Option σ}

/-- Take the actions in order; `none` as soon as one is not enabled. -/
def run (step : σ → α → Option σ) : σ → List α → Option σ
  | s, [] => some s
  | s, a :: as => (step s a).bind fun t => run step t as

/-- Every action of the run satisfies `C` in the state it is taken in. -/
def Guarded (step : σ → α → Option σ) (C : σ → α → Prop) : σ → List α → Prop
  | _, [] => True
  | s, a :: as => C s a ∧ ∀ t, step s a = some t → Guarded step C t as

@[simp] theorem run_nil (step : σ → α → Option σ) (s : σ) : run step s [] = some s := rfl

theorem run_cons_eq_some {s u : σ} {a : α} :
    run step s (a :: as) = some u ↔ ∃ t, step s a = some t ∧ run step t as = some u := by
  simp only [run, Option.bind_eq_some_iff]

/-- Where the actions end, if each of them can be taken. -/
def final (step : σ → α → Option σ) (s : σ) (as : List α) : σ := (run step s as).getD s

theorem run_eq_final {s : σ} (h : (run step s as).isSome = true) :
    run step s as = some (final step s as) := by
  obtain ⟨t, ht⟩ := Option.isSome_iff_exists.mp h
  rw [final, ht, Option.getD_some]

/-- What a guarded step preserves, a guarded run preserves. -/
theorem run_guarded_invariant {C : σ → α → Prop} {Inv : σ → Prop}
    (hstep : ∀ s a t, Inv s → C s a → step s a = some t → Inv t) {s u : σ} (hs : Inv s)
    (hC : Guarded step C s as) (hrun : run step s as = some u) : Inv u := by
  induction as generalizing s with
  | nil =>
    rw [run_nil, Option.some.injEq] at hrun
    exact hrun ▸ hs
  | cons a as ih =>
    obtain ⟨t, ht, hrest⟩ := run_cons_eq_some.mp hrun
    exact ih (hstep s a t hs hC.1 ht) (hC.2 t ht) hrest

/-- A guard can be checked along a concrete run. -/
instance Guarded.decidable {step : σ → α → Option σ} {C : σ → α → Prop}
    [∀ s a, Decidable (C s a)] :
    ∀ (s : σ) (as : List α), Decidable (Guarded step C s as)
  | _, [] => .isTrue trivial
  | s, a :: as =>
    match h : step s a with
    | none => decidable_of_iff (C s a) (by simp [Guarded, h])
    | some t =>
      have := @Guarded.decidable step C _ t as
      decidable_of_iff (C s a ∧ Guarded step C t as) (by simp [Guarded, h])

/-- A condition on the actions alone guards the run it holds along. -/
theorem Guarded.of_forall {C : σ → α → Prop} (h : ∀ a ∈ as, ∀ s, C s a) (s : σ) :
    Guarded step C s as := by
  induction as generalizing s with
  | nil => trivial
  | cons a as ih =>
    exact ⟨h a (by simp) s,
      fun t _ => ih (fun b hb => h b (List.mem_cons_of_mem a hb)) t⟩

/-- What a step preserves, a run preserves. -/
theorem run_invariant {Inv : σ → Prop} (hstep : ∀ s a t, Inv s → step s a = some t → Inv t)
    {s u : σ} (hs : Inv s) (hrun : run step s as = some u) : Inv u := by
  have hguarded : Guarded step (fun _ _ => True) s as := .of_forall (fun _ _ _ => trivial) s
  exact run_guarded_invariant (fun s a t hs _ => hstep s a t hs) hs hguarded hrun

/-- Two guards along one run. -/
theorem Guarded.and {C C' : σ → α → Prop} {s : σ} (hC : Guarded step C s as)
    (hC' : Guarded step C' s as) : Guarded step (fun s a => C s a ∧ C' s a) s as := by
  induction as generalizing s with
  | nil => trivial
  | cons a as ih => exact ⟨⟨hC.1, hC'.1⟩, fun t ht => ih (hC.2 t ht) (hC'.2 t ht)⟩

/-- A guard may be exchanged for what it entails in the states it reaches. -/
theorem Guarded.imp {C C' : σ → α → Prop} {J : σ → Prop}
    (hstep : ∀ s a t, J s → C s a → step s a = some t → J t) (himp : ∀ s a, J s → C s a → C' s a)
    {s : σ} (hs : J s) (hC : Guarded step C s as) : Guarded step C' s as := by
  induction as generalizing s with
  | nil => trivial
  | cons a as ih =>
    exact ⟨himp s a hs hC.1, fun t ht => ih (hstep s a t hs hC.1 ht) (hC.2 t ht)⟩

/-- What the steps of a run put out, in order. -/
def outputs {β : Type*} (step : σ → α → Option σ) (out : σ → α → List β) :
    σ → List α → List β
  | _, [] => []
  | s, a :: as =>
    out s a ++
      match step s a with
      | some t => outputs step out t as
      | none => []

theorem outputs_cons {β : Type*} (out : σ → α → List β) {s t : σ} {a : α} (as : List α)
    (hstep : step s a = some t) :
    outputs step out s (a :: as) = out s a ++ outputs step out t as := by
  simp only [outputs, hstep]

/-- A phase `P` that is only left for good.  If every step in it keeps the balance of what
is held and taken in against what is put out and held, so does every run that starts and
ends in it. -/
theorem run_conserved {β : Type*} {P Over : σ → Prop} {held : σ → List β}
    {into out : σ → α → List β}
    (hbalance : ∀ s a t, P s → step s a = some t → held s ++ into s a = out s a ++ held t)
    (hleave : ∀ s a t, P s → step s a = some t → P t ∨ Over t)
    (hover : ∀ s a t, Over s → step s a = some t → Over t) (hapart : ∀ s, Over s → ¬ P s)
    {s u : σ} (hs : P s) (hrun : run step s as = some u) (hu : P u) :
    held s ++ outputs step into s as = outputs step out s as ++ held u := by
  induction as generalizing s with
  | nil =>
    rw [run_nil, Option.some.injEq] at hrun
    rw [hrun, outputs, outputs, List.append_nil, List.nil_append]
  | cons a as ih =>
    obtain ⟨t, ht, hrest⟩ := run_cons_eq_some.mp hrun
    have hphase : P t := by
      refine (hleave s a t hs ht).resolve_right fun hgone => ?_
      exact hapart u (run_invariant hover hgone hrest) hu
    rw [outputs_cons into as ht, outputs_cons out as ht, ← List.append_assoc,
      hbalance s a t hs ht, List.append_assoc, ih hphase hrest, List.append_assoc]

/-- The outcome of a step that is taken satisfies `P`. -/
def Ensures (P : σ → Prop) : Option σ → Prop
  | none => True
  | some t => P t

theorem Ensures.of_eq {P : σ → Prop} {outcome : Option σ} {t : σ} (h : Ensures P outcome)
    (ht : outcome = some t) : P t := by
  subst ht
  exact h

theorem Ensures.map {τ : Type*} {P : σ → Prop} {f : τ → σ} {outcome : Option τ}
    (h : Ensures (fun x => P (f x)) outcome) : Ensures P (outcome.map f) := by
  cases outcome with
  | none => trivial
  | some x => exact h

/-- What holds of the new value and of the other components holds of every one. -/
@[elab_as_elim]
theorem update_cases {ι β : Type*} [DecidableEq ι] {f : ι → β} {i : ι} {b : β}
    {motive : ι → β → Prop} (j : ι) (self : motive i b) (other : j ≠ i → motive j (f j)) :
    motive j (Function.update f i b j) := by
  by_cases h : j = i
  · subst h
    rwa [Function.update_self]
  · rw [Function.update_of_ne h]
    exact other h

end DurableActors.Verified.Transition
