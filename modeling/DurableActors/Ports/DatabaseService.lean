import DurableActors.Ports.DatabaseSession

/-!
# The database service of an actor host

`DatabaseService` and `DatabaseInvocation` of `host/actor_database.rs`: one task
that handles the commands of all scopes one after the other.  Sequenced
completions wait in `ready` until their turn; while the service works through
them it takes no other command.  An error of a call, a completion out of
sequence and a failed sequenced publication end the service.
-/

namespace DurableActors.Ports.Database

open Verified

/-! ## State -/

/-- A `Commit` call: the resident database it ran on, the position it returned,
and the transactions made until then. -/
structure Commit where
  opening : Nat
  txid : Nat
  seen : List Nat
deriving DecidableEq, Repr

/-- `InvocationScope`.  The background scope has no epoch. -/
structure Scope where
  request : Nat
  epoch : Option Nat
  active : Bool
  committed : Nat
  commits : List Commit
deriving DecidableEq, Repr

/-- What was answered: an immediate call that appended transactions succeeded
when the local database held `seen` and the session was at `version`; a
completion was answered for a scope that had committed `seen`. -/
inductive Event
  | wrote (seen : List Nat) (version : Nat)
  | completed (scope : Nat) (seen : List Nat) (completion : Completion)
deriving DecidableEq, Repr

/-- `DatabaseService`.  `ready` maps a sequence number to the scope and the
result of its completion. -/
structure Service where
  session : Session
  scopes : List Scope
  ready : List (Nat × Nat × Nat)
  nextSequence : Nat -- a `u64`, not bounded here
  draining : Bool
  stopped : Bool
  events : List Event
deriving DecidableEq, Repr

/-- A service that has started on what is stored. -/
def Service.initial (durable : List Snapshot) : Service :=
  ⟨.initial durable, [], [], 1, false, false, []⟩

variable (w : Service) (a : Answers)

/-- The storage loads what it holds. -/
def Answers.Sound (durable : List Snapshot) : Prop :=
  ∀ loaded ∈ a.loaded, ∀ x ∈ loaded.snapshot, x ∈ durable

instance (durable : List Snapshot) : Decidable (a.Sound durable) :=
  inferInstanceAs (Decidable (∀ loaded ∈ a.loaded, _))

/-! ## Commands -/

/-- `Command::Prepare`. -/
def Service.prepare (scope : Scope) (replay : Bool) : Prepared × Service :=
  let (prepared, session) :=
    w.session.prepareInvocation a scope.request scope.epoch replay
  (prepared, { w with session := session })

/-- The scope after a `Commit` call that returned a position. -/
def Scope.record (scope : Scope) (r : Resident) : Option Nat → Scope
  | none => scope
  | some txid =>
    { scope with
      committed := txid
      commits := ⟨r.opening, txid, r.contents⟩ :: scope.commits }

/-- An immediate SQLite call that appends transactions. -/
def Answers.wrote (call : Call) : Bool :=
  !call.isAlarm && call.immediate && a.executed.any fun e => 0 < e.transactions

/-- `DatabaseService::call`.  The scope is checked again when its turn comes. -/
def Service.call (k : Nat) (scope : Scope) (call : Call) : Service :=
  if scope.active = false then w
  else
    let (reply, session) := w.session.databaseCall a scope.request scope.epoch call
    match reply, session.cached with
    | .executed committed, some r =>
      { w with
        session := session
        scopes := w.scopes.set k (scope.record r committed)
        events :=
          if a.wrote call = true then .wrote r.contents r.version :: w.events
          else w.events }
    | .executed _, none => { w with session := session }
    | .rejected, _ => { w with session := session }
    | .error, _ => { w with session := session, stopped := true }

/-- `DatabaseService::publish`. -/
def Service.publish (k : Nat) (scope : Scope) (result : Nat) : Completion × Service :=
  let committed := if 0 < scope.committed then some scope.committed else none
  let (completion, session) :=
    w.session.complete a scope.request scope.epoch result committed
  (completion,
    { w with
      session := session
      events := .completed k (scope.commits.flatMap Commit.seen) completion :: w.events })

/-- `DatabaseService::complete`. -/
def Service.complete (k : Nat) (scope : Scope) (result : Nat) : Option Nat → Service
  | none => (w.publish a k scope result).2
  | some sequence =>
    if sequence < w.nextSequence ∨ (w.ready.any fun p => p.1 = sequence) = true then
      { w with
        stopped := true
        events := .completed k (scope.commits.flatMap Commit.seen) .error :: w.events }
    else { w with ready := (sequence, k, result) :: w.ready, draining := true }

/-- The completion whose turn it is. -/
def Service.next : Option (Nat × Nat × Nat) :=
  w.ready.find? fun p => p.1 = w.nextSequence

/-- One turn of the loop in `complete`. -/
def Service.publishReady : Service :=
  match w.next with
  | none => { w with draining := false }
  | some (sequence, k, result) =>
    let rest := { w with ready := w.ready.filter fun p => p.1 ≠ sequence }
    match w.scopes[k]? with
    | none => rest
    | some scope =>
      match rest.publish a k scope result with
      | (.done _, w') => { w' with nextSequence := w'.nextSequence + 1 }
      | (_, w') => { w' with stopped := true }

/-! ## Steps -/

/-- A command of the service, or one of its steps. -/
inductive Action
  /-- a new scope; the background scope has no epoch -/
  | scope (request : Nat) (epoch : Option Nat)
  /-- `DatabaseInvocation::close`, also before a completion is sent -/
  | close (k : Nat)
  | prepare (k : Nat) (replay : Bool) (a : Answers)
  | call (k : Nat) (call : Call) (a : Answers)
  | activate (a : Answers)
  | hydrated (activation : Activation) (ok : Bool) (a : Answers)
  | complete (k : Nat) (result : Nat) (sequence : Option Nat) (a : Answers)
  | publishReady (a : Answers)
  | reset
  /-- the service is cancelled between two commands -/
  | stop
deriving DecidableEq, Repr

/-- The service takes a command: it runs and is not in the loop of
`complete`. -/
def Service.idle : Bool := !w.stopped && !w.draining

/-- One command; `none` if the service does not take it now. -/
def step : Action → Option Service
  | .scope request epoch =>
    some { w with scopes := w.scopes ++ [⟨request, epoch, true, 0, []⟩] }
  | .close k =>
    some { w with scopes := w.scopes.modify k fun scope => { scope with active := false } }
  | .prepare k replay a =>
    match w.scopes[k]? with
    | none => none
    | some scope =>
      if w.idle = true ∧ a.Sound w.session.durable then
        some (w.prepare a scope replay).2
      else none
  | .call k call a =>
    match w.scopes[k]? with
    | none => none
    | some scope => if w.idle = true then some (w.call a k scope call) else none
  | .activate a =>
    if w.idle = true ∧ a.Sound w.session.durable then
      some { w with session := (w.session.prepareActivation a).2 }
    else none
  | .hydrated activation ok a =>
    if w.idle = true then
      some { w with session := w.session.finishActivation a activation ok }
    else none
  | .complete k result sequence a =>
    match w.scopes[k]? with
    | none => none
    | some scope =>
      if w.idle = true then some (w.complete a k scope result sequence) else none
  | .publishReady a =>
    if w.stopped = false ∧ w.draining = true then some (w.publishReady a) else none
  | .reset => if w.idle = true then some { w with session := w.session.reset } else none
  | .stop => if w.idle = true then some { w with stopped := true } else none

end DurableActors.Ports.Database
