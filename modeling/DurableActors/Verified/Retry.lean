import Mathlib.Algebra.Order.Ring.Nat
import Mathlib.Tactic.TypeStar

/-!
# Retry loops

A loop that tries until an attempt is final.  Attempts may have an effect that
must not be repeated; each reports how often it had it.  If an attempt that
asks for another one never had the effect, the loop has it as often as its
last attempt.
-/

namespace DurableActors.Verified.Retry

variable {σ α β : Type*}

/-- A value and how often the effect took place on the way to it. -/
structure Traced (β : Type*) where
  value : β
  effects : Nat
deriving DecidableEq, Repr

/-- Try again with a new state, or end with a value. -/
inductive Decision (σ β : Type*)
  | again (state : σ)
  | done (value : β)
deriving DecidableEq, Repr

/-- Run the attempts until one is final. -/
def run (attempt : σ → α → Traced (Decision σ β)) : σ → List α → Traced (Decision σ β)
  | s, [] => ⟨.again s, 0⟩
  | s, a :: rest =>
    match attempt s a with
    | ⟨.done v, n⟩ => ⟨.done v, n⟩
    | ⟨.again s', n⟩ =>
      let r := run attempt s' rest
      ⟨r.value, n + r.effects⟩

/-- Whoever asks for another attempt had no effect and keeps the invariant, and
a final value satisfies `P` with the effects had. -/
def Sound (I : σ → Prop) (P : β → Nat → Prop) (t : Traced (Decision σ β)) : Prop :=
  match t.value with
  | .again s => t.effects = 0 ∧ I s
  | .done v => P v t.effects

/-- **Sound attempts make a sound loop.** -/
theorem run_sound {attempt : σ → α → Traced (Decision σ β)} {I : σ → Prop}
    {P : β → Nat → Prop} (h : ∀ s a, I s → Sound I P (attempt s a)) (attempts : List α)
    {s : σ} (hs : I s) : Sound I P (run attempt s attempts) := by
  induction attempts generalizing s with
  | nil => exact ⟨rfl, hs⟩
  | cons a rest ih =>
    have ha := h s a hs
    unfold run
    split
    · rename_i v n heq
      rw [heq] at ha
      exact ha
    · rename_i s' n heq
      rw [heq] at ha
      obtain ⟨hn, hs'⟩ := ha
      change n = 0 at hn
      have hrest := ih hs'
      dsimp only
      rw [hn, Nat.zero_add]
      exact hrest

end DurableActors.Verified.Retry
