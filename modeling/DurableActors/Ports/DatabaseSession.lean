import Mathlib
import DurableActors.Verified.Transition

/-!
# The database session of an actor host

`DatabaseSession` of `host/actor_database/session.rs`.  A session keeps at most
one resident database, whose local transactions Litestream numbers from the
position the capture was opened at, and publishes them as snapshots.  What the
storage, the clock and SQLite answer is given to each function as `Answers`.

Transactions are numbered over the whole life of the session, so that one can
say which of them a snapshot contains; results, request ids and payloads are
opaque numbers.
-/

namespace DurableActors.Ports.Database

/-! ## Snapshots -/

/-- The fields of a `StateSnapshot` besides its files. -/
structure Header where
  version : Nat
  epoch : Nat
  request : Nat
  completion : Option Nat
  txid : Nat
deriving DecidableEq, Repr

/-- A snapshot with the transactions in its LTX files.  A `SnapshotRef` carries
the digest of the parent, so the parent is part of the snapshot. -/
inductive Snapshot
  | full (header : Header) (files : List Nat)
  | delta (header : Header) (files : List Nat) (parent : Snapshot)
deriving DecidableEq, Repr

def Snapshot.header : Snapshot → Header
  | .full header _ => header
  | .delta header _ _ => header

/-- The transactions of the database restored from a snapshot. -/
def Snapshot.contents : Snapshot → List Nat
  | .full _ files => files
  | .delta _ files parent => parent.contents ++ files

/-- A `WritePlan`: the version and the owner epoch of its stream. -/
structure Ticket where
  version : Nat
  epoch : Nat
deriving DecidableEq, Repr

/-! ## What the environment answers -/

/-- How `write_snapshot` ends; a lost answer is an error although the snapshot
is durable. -/
inductive Write
  | stored
  | lost
  | failed
deriving DecidableEq, Repr

/-- What SQLite did: whether the call succeeded, whether the engine reports a
commit, and how many transactions were appended to the WAL. -/
structure Executed where
  ok : Bool
  committed : Bool
  transactions : Nat
deriving DecidableEq, Repr

/-- The state version and snapshot that `load_actor_state` or `acquire_actor`
found. -/
structure Loaded where
  version : Nat
  snapshot : Option Snapshot
deriving DecidableEq, Repr

/-- The answers to one command: the authority checks before and after the
work, the storage's, SQLite's and Litestream's answers. -/
structure Answers where
  authority : Bool := true
  confirmed : Bool := true
  loaded : Option Loaded := none
  epoch : Nat := 0
  restored : Bool := true
  resumed : Bool := false
  ticket : Option Ticket := none
  captured : Bool := true
  full : Bool := false
  encoded : Bool := true
  write : Write := .stored
  executed : Option Executed := none
  synced : Bool := true
  alarm : Bool := true
deriving DecidableEq, Repr

/-! ## The resident database -/

/-- A publication that has not been confirmed. -/
structure Pending where
  snapshot : Snapshot
  txid : Nat
  ticket : Ticket
  durable : Bool
deriving DecidableEq, Repr

/-- `ResidentDatabase` with its `SqliteCapture`.  `base` is what the local
database held when it was opened, at position `start`; `log` are the local
transactions since, the first of them at position `start + 1`.  `opening` tells
the resident databases of one session apart. -/
structure Resident where
  opening : Nat
  epoch : Nat
  version : Nat
  base : List Nat
  start : Nat
  log : List Nat
  captured : Nat
  head : Option Snapshot
  published : Option Nat
  synced : Nat
  last : Option (Nat × Nat)
  nextWrite : Option Ticket
  pending : Option Pending
deriving DecidableEq, Repr

variable (r : Resident) (a : Answers)

/-- All transactions of the local database. -/
def Resident.contents : List Nat := r.base ++ r.log

/-- Those up to a position. -/
def Resident.upTo (txid : Nat) : List Nat := r.base ++ r.log.take (txid - r.start)

/-- The position of the last local transaction. -/
def Resident.position : Nat := r.start + r.log.length

/-- `ResidentDatabase::open` on a new history. -/
def Resident.empty (opening epoch : Nat) : Resident :=
  { opening := opening, epoch := epoch, version := 0, base := [], start := 0, log := [],
    captured := 0, head := none, published := none, synced := 0, last := none,
    nextWrite := none, pending := none }

/-- `unpublished`. -/
def Resident.unpublished (committed : Option Nat) : Option Nat :=
  committed.filter fun txid => r.published.all (· < txid)

/-- `replay`. -/
def Resident.replay (request : Nat) : Option Nat :=
  match r.last with
  | some (id, result) => if id = request then some result else none
  | none => none

/-- `capture_sqlite`: the files since the last capture.  They start at position
one, or with a full copy, or need the durable head as parent.  A capture that
fails for want of a parent has already moved on. -/
def Resident.captureSqlite (header : Header) (txid : Nat) : Resident × Option Snapshot :=
  if a.captured = true ∧ r.captured ≤ txid ∧ txid ≤ r.position then
    let after := { r with captured := txid }
    if txid = r.captured then (after, none)
    else if r.captured = 0 ∨ a.full = true then (after, some (.full header (r.upTo txid)))
    else
      (after, r.head.map fun parent =>
        .delta header ((r.log.take (txid - r.start)).drop (r.captured - r.start)) parent)
  else (r, none)

/-- The end of `finish_pending_commit`, once the snapshot is durable. -/
def Resident.finish (p : Pending) : Resident :=
  { r with
    pending := none
    head := some p.snapshot
    version := p.snapshot.header.version
    published := some p.txid
    last := p.snapshot.header.completion.map fun result => (p.snapshot.header.request, result)
    nextWrite := some ⟨p.snapshot.header.version + 1, p.ticket.epoch⟩ }

/-- What a write to the storage leaves: its result, the resident database and
the durable snapshots. -/
structure Published where
  ok : Bool
  resident : Resident
  durable : List Snapshot

/-- `write_snapshot` of a pending commit and what follows it. -/
def Resident.writePending (durable : List Snapshot) (p : Pending) : Published :=
  match a.write with
  | .failed => ⟨false, { r with pending := some p }, durable⟩
  | .lost => ⟨false, { r with pending := some p }, p.snapshot :: durable⟩
  | .stored => ⟨true, r.finish { p with durable := true }, p.snapshot :: durable⟩

/-- `publish_state_once`. -/
def Resident.publishState (durable : List Snapshot) (request epoch : Nat)
    (completion : Option Nat) (txid : Nat) : Published :=
  let next := r.version + 1
  let ticket := (r.nextWrite.filter fun t => t.version = next ∧ t.epoch = epoch).or a.ticket
  let r := { r with nextWrite := none }
  match ticket with
  | none => ⟨false, r, durable⟩
  | some ticket =>
    if ticket.version ≠ next ∨ ticket.epoch ≠ epoch then ⟨false, r, durable⟩
    else
      match r.captureSqlite a ⟨next, epoch, request, completion, txid⟩ txid with
      | (r, none) => ⟨false, r, durable⟩
      | (r, some snapshot) =>
        if a.encoded = false then ⟨false, r, durable⟩
        else r.writePending a durable ⟨snapshot, txid, ticket, false⟩

/-- `finish_pending_commit`. -/
def Resident.finishPendingCommit (durable : List Snapshot) : Published :=
  match r.pending with
  | none => ⟨true, r, durable⟩
  | some p =>
    if p.durable = true then ⟨true, r.finish p, durable⟩
    else if a.ticket = some p.ticket then r.writePending a durable p
    else ⟨false, r, durable⟩

/-! ## The session -/

structure Activation where
  epoch : Nat
  version : Nat
deriving DecidableEq, Repr

/-- `DatabaseSession`, with the snapshots the storage holds, the number of
resident databases opened and of local transactions made so far. -/
structure Session where
  cached : Option Resident
  prepared : Option Activation
  activation : Option Activation
  durable : List Snapshot
  opened : Nat
  transactions : Nat
deriving DecidableEq, Repr

/-- A session over a storage that already holds snapshots. -/
def Session.initial (durable : List Snapshot) : Session :=
  ⟨none, none, none, durable, 0, 0⟩

variable (s : Session)

/-- An effect on sockets.  State snapshots and updates are published with the
version of the state. -/
inductive Effect
  | state (version : Option Nat)
  | message (id : Nat)
deriving DecidableEq, Repr

/-- `ActorExecutionResult`. -/
inductive ExecutionResult
  | completed (result : Nat) (effects : List Effect)
  | failed (code message : String)
  | hostUnavailable
deriving DecidableEq, Repr

/-- `ActorInvocationFailure::outcome_unknown_after_execution`. -/
def outcomeUnknown : ExecutionResult :=
  .failed "outcome_unknown"
    "actor execution completed, but its durable publication outcome could not be confirmed"

/-- The result of `prepare_invocation`, errors included. -/
inductive Prepared
  | execute
  | completed (result : ExecutionResult)
  | error
deriving DecidableEq, Repr

/-- Open a resident database from what was loaded: a new one for version zero,
`load_cached` otherwise.  With `resumed` the capture continues the history of
the snapshot, else it starts a new one. -/
def Session.openLoaded (epoch : Nat) (loaded : Loaded) : Option Resident :=
  match loaded.version, loaded.snapshot with
  | 0, none => if a.restored = true then some (.empty s.opened epoch) else none
  | 0, some _ => none
  | _ + 1, none => none
  | version + 1, some x =>
    if x.header.version = version + 1 ∧ x.header.epoch ≤ epoch ∧ a.restored = true then
      let start := if a.resumed = true then x.header.txid else 0
      some
        { Resident.empty s.opened epoch with
          version := version + 1
          base := x.contents
          start := start
          captured := start
          head := if a.resumed = true ∧ 0 < start then some x else none
          published := some start
          synced := start
          last := x.header.completion.map fun result => (x.header.request, result) }
    else none

/-- `take_or_load_state`.  A resident database of another epoch is dropped. -/
def Session.takeOrLoad (epoch : Nat) : Option Resident :=
  match s.cached.filter fun r => r.epoch = epoch with
  | some r => some r
  | none => a.loaded.bind (s.openLoaded a epoch)

/-- `prepare_invocation`. -/
def Session.prepareInvocation (request : Nat) (epoch : Option Nat) (replay : Bool) :
    Prepared × Session :=
  match epoch with
  | none => (.error, s)
  | some epoch =>
    if a.authority = false then (.completed .hostUnavailable, s)
    else
      match s.takeOrLoad a epoch with
      | none => (.error, { s with cached := none, opened := s.opened + 1 })
      | some r =>
        let p := r.finishPendingCommit a s.durable
        let after :=
          { s with cached := some p.resident, durable := p.durable, opened := s.opened + 1 }
        if p.ok = false then (.completed outcomeUnknown, after)
        else if a.confirmed = false then (.completed .hostUnavailable, after)
        else
          match if replay = true then p.resident.replay request else none with
          | some result => (.completed (.completed result []), after)
          | none => (.execute, after)

/-- The operations of `DatabaseCall`, without their payloads. -/
inductive Call
  | exec (immediate : Bool)
  | fields
  | initializeFields
  | persistField (immediate : Bool)
  | deleteField (immediate : Bool)
  | replaceFields
  | alarm
  | setAlarm (immediate : Bool)
  | deleteAlarm (immediate : Bool)
  | commit
  | rollback
deriving DecidableEq, Repr

/-- `DatabaseCall::immediate`. -/
def Call.immediate : Call → Bool
  | .exec immediate => immediate
  | .persistField immediate => immediate
  | .deleteField immediate => immediate
  | .setAlarm immediate => immediate
  | .deleteAlarm immediate => immediate
  | _ => false

/-- The alarm operations, which the control plane handles. -/
def Call.isAlarm : Call → Bool
  | .alarm => true
  | .setAlarm _ => true
  | .deleteAlarm _ => true
  | _ => false

/-- `DatabaseReply`, or an error that stops the service. -/
inductive Reply
  | executed (committed : Option Nat)
  | rejected
  | error
deriving DecidableEq, Repr

/-- `publish_immediate`. -/
def Resident.publishImmediate (durable : List Snapshot) (request : Nat) : Published :=
  if a.authority = true ∧ r.published.all (· < r.synced) then
    let p := r.publishState a durable request r.epoch none r.synced
    { p with ok := p.ok && a.confirmed }
  else ⟨false, r, durable⟩

/-- The local transactions of one SQLite call. -/
def Resident.append (e : Executed) (next : Nat) : Resident :=
  { r with log := r.log ++ List.range' next e.transactions }

/-- `execute_database_call` once SQLite has run the call. -/
def Resident.afterCall (durable : List Snapshot) (request : Nat) (call : Call)
    (e : Executed) : Reply × Resident × List Snapshot :=
  let reply (r : Resident) : Reply :=
    if e.ok = true then .executed (if call = .commit then some r.synced else none)
    else .rejected
  if e.committed = false then (reply r, r, durable)
  else if a.synced = false then (.error, r, durable)
  else
    let previous := r.synced
    let r := { r with synced := r.position }
    if call.immediate = true ∧ previous < r.synced then
      let p := r.publishImmediate a durable request
      (if p.ok = true then reply p.resident else .error, p.resident, p.durable)
    else (reply r, r, durable)

/-- `database_call`. -/
def Session.databaseCall (request : Nat) (epoch : Option Nat) (call : Call) :
    Reply × Session :=
  match s.cached with
  | none => (.rejected, s)
  | some r =>
    if epoch.all (r.epoch = ·) = false then (.error, s)
    else if call.isAlarm = true then
      (if a.alarm = true then .executed none else .error, s)
    else
      match a.executed with
      | none => (.rejected, s)
      | some e =>
        let (reply, r, durable) :=
          (r.append e s.transactions).afterCall a s.durable request call e
        (reply, { s with cached := some r, durable := durable,
                         transactions := s.transactions + e.transactions })

/-- `prepare_activation`: whether the actor has to be hydrated, and with what. -/
def Session.prepareActivation : Option Activation × Session :=
  let s' := { s with prepared := none }
  if a.authority = false then (none, s')
  else
    match s.activation, s.prepared with
    | some activation, _ => (some activation, s')
    | none, some activation => (some activation, s)
    | none, none =>
      match a.loaded with
      | none => (none, s')
      | some loaded =>
        let found : Loaded := if loaded.version = 0 then ⟨0, none⟩ else loaded
        match s.cached.or (s.openLoaded a a.epoch found) with
        | none => (none, { s' with opened := s.opened + 1 })
        | some r =>
          let after := { s' with cached := some r, opened := s.opened + 1 }
          if a.confirmed = false then (none, after)
          else
            let activation := ⟨a.epoch, loaded.version⟩
            (some activation, { after with prepared := some activation })

/-- `finish_activation`. -/
def Session.finishActivation (activation : Activation) (ok : Bool) : Session :=
  let s := { s with prepared := none }
  match s.cached with
  | none => s
  | some r =>
    if ok = true ∧ a.authority = true ∧ r.epoch = activation.epoch then
      { s with activation := some { activation with version := r.version } }
    else s

/-- The result of `complete`: a version, a `PublicationError`, or another
error. -/
inductive Completion
  | done (version : Nat)
  | unconfirmed
  | error
deriving DecidableEq, Repr

/-- The publication in `complete`: nothing is written when the commit has been
published with another one. -/
def Resident.publishResult (durable : List Snapshot) (request epoch result : Nat)
    (committed : Option Nat) : Published :=
  match r.unpublished committed with
  | some txid => r.publishState a durable request epoch (some result) txid
  | none => ⟨true, r, durable⟩

/-- `complete`.  The resident database is taken first: it is gone when the
epoch differs, and when a publication fails before it is pending. -/
def Session.complete (request : Nat) (epoch : Option Nat) (result : Nat)
    (committed : Option Nat) : Completion × Session :=
  match epoch, s.cached with
  | none, _ => (.error, s)
  | some _, none => (.error, s)
  | some epoch, some r =>
    if r.epoch ≠ epoch then (.error, { s with cached := none })
    else
      let p := r.publishResult a s.durable request epoch result committed
      if p.ok = false then
        (.unconfirmed,
          { s with
            activation := none
            cached := if p.resident.pending = none then none else some p.resident
            durable := p.durable })
      else
        let after := { s with cached := some p.resident, durable := p.durable }
        if a.confirmed = true then (.done p.resident.version, after) else (.error, after)

/-- `reset`. -/
def Session.reset : Session :=
  { s with cached := none, prepared := none, activation := none }

end DurableActors.Ports.Database
