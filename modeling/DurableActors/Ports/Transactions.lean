import DurableActors.Verified.Transition
import DurableActors.Verified.Savepoints

/-!
# `db.transaction`

`DatabaseProxy` of `sdk/src/host/database.ts` with the persisted fields of
`sdk/src/host/persisted-fields.ts`, for every schedule of the continuations of
one worker.  An async context is named by the innermost `db.transaction` call
it was started in, since all contexts of one call share its
`AsyncLocalStorage` depth.  SQLite is a stack of restore points whose tags are
the calls that opened them, over the list of all writes; the fields stored in
`__terse_fields` are read off that list.

A statement may succeed, fail and leave the transaction open, or make SQLite
roll the whole transaction back, as `INSERT OR ROLLBACK` does.
-/

namespace DurableActors.Ports.Transactions

open Verified
open Verified.Savepoints (Connection Mark Numbered)

/-! ## Statements and fields -/

/-- A value, up to deep equality. -/
abbrev Value := Nat

/-- What an actor writes: SQL of its own, or a persisted field with the value assigned
and its JSON clone (`none` stands for `undefined`, and deletes the row).  The two differ
for a value that JSON does not keep, as an object with an `undefined` property.  SQL
cannot reach the field table. -/
inductive Statement
  | sql (text : Nat)
  | assign (field : Nat) (value image : Option Value)
deriving DecidableEq, Repr

/-- How a statement ends. -/
inductive Outcome
  | ok
  | failed
  | rolledBack
deriving DecidableEq, Repr

/-- A write, with the calls around the context that executed it. -/
structure Write where
  scope : List Nat
  statement : Statement
deriving DecidableEq, Repr

/-- The stored fields after a statement: the JSON clone is stored. -/
def Statement.fields (fields : Nat → Option Value) : Statement → Nat → Option Value
  | .sql _ => fields
  | .assign field _ image => Function.update fields field image

/-- The fields in memory after a statement: the setter keeps the value itself. -/
def Statement.memory (memory : Nat → Option Value) : Statement → Nat → Option Value
  | .sql _ => memory
  | .assign field value _ => Function.update memory field value

/-- The fields stored in a database with these writes. -/
def stored (writes : List Write) : Nat → Option Value :=
  writes.foldl (fun fields w => w.statement.fields fields) fun _ => none

theorem stored_append (writes : List Write) (w : Write) :
    stored (writes ++ [w]) = w.statement.fields (stored writes) := by
  rw [stored, List.foldl_append]
  rfl

/-! ## The worker -/

inductive Status
  | running
  | resolved
  | rejected
deriving DecidableEq, Repr

/-- A `db.transaction` call that opened a frame: its depth, and itself and the
calls around it, innermost first. -/
structure Call where
  depth : Nat
  scope : List Nat
  status : Status
deriving DecidableEq, Repr

/-- What happened: a write by a context of call `caller` while `innermost` was
the innermost open transaction, or the end of a call and the owners of the
frames it closed. -/
inductive Event
  | wrote (caller innermost : Option Nat)
  | settled (call : Nat) (resolved : Bool) (closed : List Nat)
deriving DecidableEq, Repr

/-- `DatabaseProxy.depth`, the connection, the fields bound to the instance
and their values in memory, all calls so far and what happened. -/
structure Worker where
  depth : Nat
  sqlite : Connection Nat (List Write)
  names : List Nat
  memory : Nat → Option Value
  calls : List Call
  events : List Event

/-- A worker whose instance was just hydrated from the stored fields. -/
def Worker.initial (fields : List (Nat × Option Value)) : Worker :=
  let writes := fields.map fun p => ⟨[], .assign p.1 p.2 p.2⟩
  ⟨0, ⟨writes, []⟩, fields.map Prod.fst, stored writes, [], []⟩

variable (w : Worker)

/-- The depth and the enclosing calls of a context: `none` is a context
outside all transactions. -/
def Worker.context : Option Nat → Option (Nat × List Nat)
  | none => some (0, [])
  | some k => (w.calls[k]?).map fun call => (call.depth, call.scope)

/-! ## `DatabaseProxy` -/

/-- The start of `transaction`: check the access, then `BEGIN` or `SAVEPOINT`.
A refused access or a failing statement rejects the call at once. -/
def Worker.begin (depth : Nat) (scope : List Nat) : Worker :=
  if depth ≠ w.depth then w
  else
    let k := w.calls.length
    let control :=
      if w.depth + 1 = 1 then w.sqlite.begin k
      else some (w.sqlite.savepoint (w.depth + 1) k)
    match control with
    | none => w
    | some sqlite =>
      { w with
        sqlite := sqlite
        depth := w.depth + 1
        calls := w.calls ++ [⟨w.depth + 1, k :: scope, .running⟩] }

/-- The `rollback` operation: nothing to do without a transaction. -/
def finishRollback (sqlite : Connection Nat (List Write)) :
    Connection Nat (List Write) := (sqlite.rollback).getD sqlite

/-- `DatabaseProxy.rollback`. -/
def Worker.rollback : Worker :=
  { w with sqlite := finishRollback w.sqlite, depth := 0 }

/-- `DatabaseProxy.commit`; it throws while a transaction is open. -/
def Worker.commit : Worker :=
  if 0 < w.depth then w else { w with sqlite := (w.sqlite.commit).getD w.sqlite }

/-- `restoreFields`: the bound fields that differ from `written`, or all. -/
def Worker.restoreFields (written : Option (Nat → Option Value)) : Worker :=
  { w with
    memory := fun field =>
      if field ∈ w.names ∧
          written.all (fun fields => fields field ≠ stored w.sqlite.current field) then
        stored w.sqlite.current field
      else w.memory field }

/-- `rollbackTo`. -/
def Worker.rollbackTo (depth : Nat) : Worker :=
  let written := stored w.sqlite.current
  if depth = 1 then
    { w with sqlite := finishRollback w.sqlite }.restoreFields (some written)
  else
    match (w.sqlite.rollbackTo depth).bind fun c => c.release depth with
    | some sqlite => { w with sqlite := sqlite }.restoreFields (some written)
    | none => w.rollback.restoreFields none

/-- `COMMIT` or `RELEASE` when the operation of a call at `depth` resolved and
the proxy is at that depth.  The statement may fail and leave the transaction
open (`done = false`), as `COMMIT` does on a deferred constraint. -/
def Worker.release (depth : Nat) (resolved done : Bool) :
    Option (Connection Nat (List Write)) :=
  if resolved = true ∧ w.depth = depth ∧ done = true then
    if depth = 1 then w.sqlite.commit else w.sqlite.release depth
  else none

def Worker.setStatus (k : Nat) (status : Status) : List Call :=
  w.calls.modify k fun call => { call with status := status }

/-- The owners of the frames that are gone in `sqlite`. -/
def Worker.closed (sqlite : Connection Nat (List Write)) : List Nat :=
  (w.sqlite.marks.take (w.sqlite.marks.length - sqlite.marks.length)).map Mark.tag

/-- The end of `transaction`, when the operation has settled. -/
def Worker.settle (k : Nat) (call : Call) (resolved done : Bool) : Worker :=
  match w.release call.depth resolved done with
  | some sqlite =>
    { w with
      sqlite := sqlite
      depth := min w.depth (call.depth - 1)
      calls := w.setStatus k .resolved
      events := .settled k true (w.closed sqlite) :: w.events }
  | none =>
    let after := if call.depth ≤ w.depth then w.rollbackTo call.depth else w
    { after with
      depth := min after.depth (call.depth - 1)
      calls := w.setStatus k .rejected
      events := .settled k false (w.closed after.sqlite) :: w.events }

/-- A statement or a field assignment of a context.  The field takes its new
value in memory once the statement has succeeded. -/
def Worker.exec (caller : Option Nat) (depth : Nat) (scope : List Nat)
    (statement : Statement) (outcome : Outcome) : Worker :=
  if depth ≠ w.depth then w
  else
    match outcome with
    | .ok =>
      { w with
        sqlite := w.sqlite.write (· ++ [⟨scope, statement⟩])
        memory := statement.memory w.memory
        events := .wrote caller (w.sqlite.marks.head?.map Mark.tag) :: w.events }
    | .failed => w
    | .rolledBack => { w with sqlite := finishRollback w.sqlite }

/-- What the worker does next. -/
inductive Action
  /-- a context executes a statement or assigns a field -/
  | exec (context : Option Nat) (statement : Statement) (outcome : Outcome)
  /-- a context calls `db.transaction` -/
  | begin (context : Option Nat)
  /-- the operation of a call settles and the call ends -/
  | settle (k : Nat) (resolved done : Bool)
  /-- an invocation ends with `commit` -/
  | commit
  /-- an invocation ends with `rollback` -/
  | rollback
deriving DecidableEq, Repr

def step : Action → Option Worker
  | .exec context statement outcome =>
    (w.context context).map fun c => w.exec context c.1 c.2 statement outcome
  | .begin context => (w.context context).map fun c => w.begin c.1 c.2
  | .settle k resolved done =>
    match w.calls[k]? with
    | none => none
    | some call =>
      if call.status = .running then some (w.settle k call resolved done) else none
  | .commit => some w.commit
  | .rollback => some w.rollback

end DurableActors.Ports.Transactions
