import DurableActors.Verified.Checked

/-!
# Asynchronous calls that fail or are dropped midway

An `async` method that borrows its receiver mutably runs alone, but it can
stop at every `await`: the awaited operation fails, or the caller drops the
future.  Either way the receiver keeps what was assigned to it so far.  A
`Call` is such a method: a state transformer whose state survives an early
end.  What the awaited operations answer is given as data.

`Ends x s Q E` is the weakest precondition of a call: started in `s` it either
returns and satisfies `Q`, or stops early and satisfies `E`.
-/

namespace DurableActors.Verified

/-- How a call stops early. -/
inductive Interrupt
  | error (fault : Fault)
  | dropped
deriving DecidableEq, Repr

/-- A method on a state `σ`; the state is kept when it stops early. -/
abbrev Call (σ α : Type) := EStateM Interrupt σ α

/-- What an awaited operation comes to. -/
inductive Answer (α : Type)
  | ready (a : α)
  | failed (fault : Fault)
  | dropped
deriving DecidableEq, Repr

namespace Call

variable {σ τ α β : Type}

/-- Await an operation. -/
def await : Answer α → Call σ α
  | .ready a => pure a
  | .failed fault => throw (.error fault)
  | .dropped => throw .dropped

/-- Await an operation that cannot fail: it completes or the call is dropped. -/
def pause (completed : Bool) : Call σ Unit :=
  if completed = true then pure () else throw .dropped

/-- The `?` operator on a fallible computation. -/
def lift : Checked α → Call σ α
  | .ok a => pure a
  | .error fault => throw (.error fault)

/-- `ensure!`. -/
def ensure (condition : Bool) (message : String) : Call σ Unit :=
  if condition = true then pure () else throw (.error (.error [message]))

/-- Run a call on an optional part of the state. -/
def within (part : σ → Option τ) (update : τ → σ → σ) (message : String)
    (x : Call τ α) : Call σ α := fun s =>
  match part s with
  | none => .error (.error (.error [message])) s
  | some t =>
    match x t with
    | .ok a t' => .ok a (update t' s)
    | .error e t' => .error e (update t' s)

/-! ## Postconditions -/

/-- From `s` the call returns in `Q` or stops early in `E`. -/
def Ends (x : Call σ α) (s : σ) (Q : α → σ → Prop) (E : Interrupt → σ → Prop) : Prop :=
  match x s with
  | .ok a t => Q a t
  | .error e t => E e t

variable {s : σ} {Q Q' : α → σ → Prop} {E E' : Interrupt → σ → Prop}

theorem Ends.mono {x : Call σ α} (h : Ends x s Q E) (hQ : ∀ a t, Q a t → Q' a t)
    (hE : ∀ e t, E e t → E' e t) : Ends x s Q' E' := by
  unfold Ends at h ⊢
  split at h
  · exact hQ _ _ h
  · exact hE _ _ h

theorem Ends.bind {x : Call σ β} {f : β → Call σ α}
    (h : Ends x s (fun b t => Ends (f b) t Q E) E) : Ends (x >>= f) s Q E := by
  unfold Ends at h ⊢
  cases hx : x s with
  | ok b t =>
    rw [hx] at h
    simpa only [Bind.bind, EStateM.bind, hx] using h
  | error e t =>
    rw [hx] at h
    simpa only [Bind.bind, EStateM.bind, hx] using h

theorem Ends.pure {a : α} (h : Q a s) : Ends (Pure.pure a) s Q E := h

theorem Ends.get {Q : σ → σ → Prop} (h : Q s s) : Ends (MonadState.get : Call σ σ) s Q E := h

theorem Ends.modify {Q : Unit → σ → Prop} {f : σ → σ} (h : Q () (f s)) :
    Ends (modify f : Call σ Unit) s Q E := h

theorem Ends.await {answer : Answer α} (hQ : ∀ a, answer = .ready a → Q a s)
    (hE : ∀ e, E e s) : Ends (Call.await answer) s Q E := by
  cases answer with
  | ready a => exact hQ a rfl
  | failed fault => exact hE (.error fault)
  | dropped => exact hE .dropped

theorem Ends.pause {Q : Unit → σ → Prop} {completed : Bool} (hQ : Q () s)
    (hE : E .dropped s) : Ends (Call.pause completed) s Q E := by
  cases completed with
  | true => exact hQ
  | false => exact hE

theorem Ends.lift {x : Checked α} (hQ : ∀ a, x = .ok a → Q a s)
    (hE : ∀ fault, x = .error fault → E (.error fault) s) : Ends (Call.lift x) s Q E := by
  cases x with
  | ok a => exact hQ a rfl
  | error fault => exact hE fault rfl

theorem Ends.ensure {Q : Unit → σ → Prop} {condition : Bool} {message : String}
    (hQ : condition = true → Q () s) (hE : condition = false → E (.error (.error [message])) s) :
    Ends (Call.ensure condition message) s Q E := by
  cases condition with
  | true => exact hQ rfl
  | false => exact hE rfl

theorem Ends.within {part : σ → Option τ} {update : τ → σ → σ} {message : String} {x : Call τ α}
    (h : ∀ t, part s = some t →
      Ends x t (fun a t' => Q a (update t' s)) (fun e t' => E e (update t' s)))
    (hE : ∀ e, E e s) : Ends (Call.within part update message x) s Q E := by
  unfold Ends Call.within
  cases hpart : part s with
  | none => exact hE _
  | some t =>
    have ht := h t hpart
    unfold Ends at ht
    cases hx : x t with
    | ok a t' =>
      rw [hx] at ht
      simpa only [hx] using ht
    | error e t' =>
      rw [hx] at ht
      simpa only [hx] using ht

end Call

end DurableActors.Verified
