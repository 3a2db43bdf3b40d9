import DurableActors.Ports.Recovery
import DurableActors.Ports.SnapshotEncode
import DurableActors.Ports.SqliteCapture
import DurableActors.Verified.Transition

/-!
# Publishing the local database

`ResidentDatabase` and the publication paths of `host/actor_database/session.rs`
with the data they write: the LTX files of a capture, the reference to the parent,
the encoded object and its name.  The session model says which transactions reach
a snapshot; here it is followed which objects are stored.

The state is that of one activation: the resident database, if there is one, and
the storage.  The environment decides which calls of the storage and of Litestream
fail, what the replica directory holds and where a sync ends.  A write that fails
may have been stored.
-/

namespace DurableActors.Ports.Sqlite

open Verified
open Verified.Checked

/-! ## Plans and objects -/

/-- `StateStream`. -/
structure StateStream where
  session : String
  path : String
  epoch : Nat
  base : Nat
deriving DecidableEq, Repr

/-- `WritePlan`. -/
structure WritePlan where
  stream : StateStream
  version : Nat
  object : String
deriving DecidableEq, Repr

/-- `StateStream::object`. -/
def StateStream.object (stream : StateStream) (version : Nat) : String :=
  stream.path ++ toString version ++ ".json"

/-- `StateStream::snapshot`. -/
def StateStream.snapshot (codec : Codec) (stream : StateStream) (bytes : Bytes) :
    Checked SnapshotRef := do
  let snapshot ← StateSnapshot.decode codec bytes
  snapshot.validateObject codec (stream.object snapshot.version)
  ensure (snapshot.epoch = stream.epoch ∧ stream.base < snapshot.version)
    "snapshot belongs to another stream"
  return SnapshotRef.new codec (stream.object snapshot.version) snapshot bytes

/-- What an activation is given: the codec, the path of the actor's snapshots of
an epoch, and the stream it writes to. -/
structure Site where
  serde : Serde
  path : Nat → String
  session : String
  epoch : Nat
  base : Nat

/-- `Ownership::stream`. -/
def Site.stream (site : Site) : StateStream :=
  ⟨site.session, site.path site.epoch, site.epoch, site.base⟩

/-- `write_plan`. -/
def Site.plan (site : Site) (version : Nat) : WritePlan :=
  ⟨site.stream, version, site.stream.object version⟩

/-- `snapshot_object_name` of the actor. -/
def Site.objectName (site : Site) (s : StateSnapshot) : String :=
  site.path s.epoch ++ toString s.version ++ ".json"

/-- A stored snapshot. -/
structure Stored where
  object : String
  bytes : Bytes
  snapshot : StateSnapshot
deriving DecidableEq, Repr

/-- The reference to a stored snapshot. -/
def Stored.reference (codec : Codec) (d : Stored) : SnapshotRef :=
  SnapshotRef.new codec d.object d.snapshot d.bytes

/-! ## The storage -/

/-- The objects, and the snapshots of the activation in the order in which they
became durable, newest first. -/
structure Storage where
  objects : List (String × Bytes)
  written : List Stored
deriving DecidableEq, Repr

def Storage.get (storage : Storage) (object : String) : Option Bytes :=
  storage.objects.lookup object

/-- `persist`: objects are immutable. -/
def Storage.persist (storage : Storage) (d : Stored) : Option Storage :=
  let written :=
    if storage.written.any (fun e => e.object = d.object) = true then storage.written
    else d :: storage.written
  match storage.get d.object with
  | none => some ⟨(d.object, d.bytes) :: storage.objects, written⟩
  | some bytes => if bytes = d.bytes then some ⟨storage.objects, written⟩ else none

/-- How a write ends, if nothing is wrong with it: it is stored, its answer is
lost, or nothing is stored. -/
inductive Write
  | stored
  | lost
  | refused
deriving DecidableEq, Repr

section

variable (site : Site)

/-- `write_snapshot`. -/
def writeSnapshot (storage : Storage) (plan : WritePlan) (snapshot : StateSnapshot)
    (bytes : Bytes) (write : Write) : Bool × Storage :=
  match plan.stream.snapshot site.serde.toCodec bytes with
  | .error _ => (false, storage)
  | .ok reference =>
    if reference.object = plan.object ∧ reference.version = plan.version ∧
        write ≠ .refused then
      match storage.persist ⟨plan.object, bytes, snapshot⟩ with
      | none => (false, storage)
      | some storage => (write = .stored, storage)
    else (false, storage)

/-! ## The resident database -/

/-- `PendingStateCommit`. -/
structure PendingStateCommit where
  snapshot : StateSnapshot
  txid : Nat
  ticket : WritePlan
  durable : Bool
deriving DecidableEq, Repr

/-- `ResidentDatabase`. -/
structure ResidentDatabase where
  sqlite : SqliteCapture
  head : Option SnapshotRef
  epoch : Nat
  version : Nat
  published : Option Nat
  synced : Nat
  lastRequest : Option String
  lastResult : Option String
  nextWrite : Option WritePlan
  pending : Option PendingStateCommit
deriving DecidableEq, Repr

/-- `ResidentDatabase::open`. -/
def ResidentDatabase.open (epoch : Nat) (sqlite : SqliteCapture) : ResidentDatabase :=
  { sqlite := sqlite, head := none, epoch := epoch, version := 0, published := none,
    synced := sqlite.txid, lastRequest := none, lastResult := none, nextWrite := none,
    pending := none }

variable (r : ResidentDatabase)

/-- `unpublished`. -/
def ResidentDatabase.unpublished (committed : Option Nat) : Option Nat :=
  committed.filter fun txid => r.published.all (· < txid)

/-- `set_completion`. -/
def ResidentDatabase.setCompletion (request : String) (completion : Option String) :
    ResidentDatabase :=
  { r with lastRequest := completion.map fun _ => request, lastResult := completion }

/-- `capture_sqlite`.  Once the files are taken the capture has moved on, also if
there is no parent for them. -/
def ResidentDatabase.captureSqlite (directory : List LtxFile) (txid : Nat) :
    Checked SqliteSnapshot × ResidentDatabase :=
  match r.sqlite.capture directory txid with
  | .error e => (.error e, r)
  | .ok (files, sqlite) =>
    let after := { r with sqlite := sqlite }
    match files.head? with
    | none => (.error (.error ["actor commit has no replication files"]), after)
    | some first =>
      if first.first = 1 then (.ok ⟨sqlite.txid, none, files⟩, after)
      else
        match r.head with
        | none => (.error (.error ["SQLite state has no durable head"]), after)
        | some parent => (.ok ⟨sqlite.txid, some parent, files⟩, after)

/-- What the environment answers to a publication: whether the storage gives a
plan, the replica directory if it can be read, the invocation with its time, which is
missing while the clock is before the Unix epoch, and how the write ends. -/
structure Answers where
  authority : Bool := true
  planned : Bool := true
  directory : Option (List LtxFile) := some []
  attribution : Option StateAttribution := some ⟨"", none, 0, false⟩
  write : Write := .stored
  confirmed : Bool := true
deriving DecidableEq, Repr

variable (a : Answers) (storage : Storage)

/-- What a publication leaves.  `wrote` tells that `write_snapshot` was called. -/
structure Published where
  ok : Bool
  wrote : Bool
  resident : ResidentDatabase
  storage : Storage

/-- The end of `finish_pending_commit`, for a durable commit. -/
def ResidentDatabase.settle (p : PendingStateCommit) (bytes : Bytes) : ResidentDatabase :=
  { r with
    pending := none
    head := some (SnapshotRef.new site.serde.toCodec p.ticket.object p.snapshot bytes)
    version := p.snapshot.version
    published := some p.txid
    nextWrite := some { p.ticket with
      version := p.snapshot.version + 1
      object := p.ticket.stream.object (p.snapshot.version + 1) } }.setCompletion
    p.snapshot.request p.snapshot.completion

/-- `write_snapshot` for a pending commit, and what follows if it succeeds. -/
def ResidentDatabase.writePending (p : PendingStateCommit) (bytes : Bytes) : Published :=
  match writeSnapshot site storage p.ticket p.snapshot bytes a.write with
  | (false, storage) => ⟨false, true, { r with pending := some p }, storage⟩
  | (true, storage) => ⟨true, true, r.settle site { p with durable := true } bytes, storage⟩

/-- `prepare_state_write`. -/
def ResidentDatabase.prepareStateWrite : Option WritePlan :=
  if a.planned = true then some (site.plan (r.version + 1)) else none

/-- The plan that `publish_state_once` uses: the one left by the last write, if
it fits. -/
def ResidentDatabase.ticket : Option WritePlan :=
  (r.nextWrite.filter fun plan =>
    plan.version = r.version + 1 ∧ plan.stream.epoch = r.epoch).or
      (r.prepareStateWrite site a)

/-- The snapshot and the object that `publish_state_once` writes. -/
def ResidentDatabase.prepareSnapshot (request : String) (completion : Option String)
    (txid : Nat) : Option (StateSnapshot × Bytes) × ResidentDatabase :=
  match a.directory with
  | none => (none, r)
  | some directory =>
    let (sqlite, r) := r.captureSqlite directory txid
    let encoded := do
      let sqlite ← sqlite
      let attribution ← ofOption "system clock is before the Unix epoch" a.attribution
      let snapshot : StateSnapshot :=
        ⟨some attribution, r.version + 1, r.epoch, request, sqlite, completion⟩
      let bytes ← snapshot.encode site.serde
      return (snapshot, bytes)
    (encoded.toOption, r)

/-- `publish_state_once`. -/
def ResidentDatabase.publishStateOnce (request : String) (completion : Option String)
    (txid : Nat) : Published :=
  let spent := { r with nextWrite := none }
  match r.ticket site a with
  | none => ⟨false, false, spent, storage⟩
  | some ticket =>
    if ticket.version = r.version + 1 ∧ ticket.stream.epoch = r.epoch then
      match spent.prepareSnapshot site a request completion txid with
      | (none, r) => ⟨false, false, r, storage⟩
      | (some (snapshot, bytes), r) =>
        r.writePending site a storage ⟨snapshot, txid, ticket, false⟩ bytes
    else ⟨false, false, spent, storage⟩

/-- `finish_pending_commit`. -/
def ResidentDatabase.finishPendingCommit : Published :=
  match r.pending with
  | none => ⟨true, false, r, storage⟩
  | some p =>
    match p.snapshot.encode site.serde with
    | .error _ => ⟨false, false, r, storage⟩
    | .ok bytes =>
      if p.durable = true then ⟨true, false, r.settle site p bytes, storage⟩
      else
        match r.prepareStateWrite site a with
        | none => ⟨false, false, r, storage⟩
        | some renewed =>
          if renewed.stream = p.ticket.stream ∧ renewed.object = p.ticket.object then
            r.writePending site a storage { p with ticket := renewed } bytes
          else ⟨false, false, r, storage⟩

end

/-! ## The activation -/

/-- One activation.  `found` is what the storage held before it, `refused` that a
write has failed or was cancelled, and `stopped` that the database service has
ended. -/
structure Publisher where
  resident : Option ResidentDatabase
  storage : Storage
  found : Option Stored
  refused : Bool
  stopped : Bool
deriving DecidableEq, Repr

/-- An activation that has written nothing. -/
def Publisher.initial (objects : List (String × Bytes)) (found : Option Stored) : Publisher :=
  ⟨none, ⟨objects, []⟩, found, false, false⟩

/-- The newest durable snapshot. -/
def Publisher.newest (w : Publisher) : Option Stored := w.storage.written.head?.or w.found

section

variable (site : Site) (w : Publisher)

/-- What the environment answers when a database is loaded: a prefetched
checkpoint, whether SQLite and Litestream open the files, and whether the capture
resumes the restored history. -/
structure LoadAnswers where
  prefetched : Option PrefetchedCheckpoint := none
  restored : Bool := true
  resumed : Bool := true
deriving DecidableEq, Repr

/-- `load_cached`.  The parent of a capture that does not resume is not used. -/
def loadCached (storage : Storage) (version : Nat) (bytes : Bytes) (a : LoadAnswers) :
    Checked ResidentDatabase := do
  let codec := site.serde.toCodec
  let snapshot ← StateSnapshot.decode codec bytes
  ensure (snapshot.version = version) "actor snapshot version does not match its state head"
  ensure (snapshot.epoch ≤ site.epoch) "actor snapshot belongs to a newer owner epoch"
  let object := site.objectName snapshot
  let (resolved, _) ← (resolve codec (storedHistory storage.get) () (snapshot.version + 1)
    object bytes a.prefetched).getD (.error (.error ["history is too long"]))
  ensure a.restored "restore failed"
  let position := if a.resumed = true then resolved.sqlite.txid else 0
  let r := ResidentDatabase.open site.epoch (SqliteCapture.open position)
  return { r with
    head := if a.resumed = true ∧ 0 < r.synced then
        some (SnapshotRef.new codec object snapshot bytes) else none
    version := version
    published := some r.synced }.setCompletion snapshot.request snapshot.completion

/-- `take_or_load_state` when nothing is resident: the newest durable snapshot is
loaded. -/
def Publisher.load (a : LoadAnswers) : Option ResidentDatabase :=
  match w.newest with
  | none => if a.restored = true then
      some (ResidentDatabase.open site.epoch (SqliteCapture.open 0)) else none
  | some d => (loadCached site w.storage d.snapshot.version d.bytes a).toOption

/-- The state after a publication. -/
def Publisher.after (p : Published) : Publisher :=
  { w with
    resident := some p.resident
    storage := p.storage
    refused := w.refused || (p.wrote && !p.ok) }

/-- `publish_immediate`.  An error ends the service. -/
def Publisher.publishImmediate (r : ResidentDatabase) (request : String) (a : Answers) :
    Publisher :=
  if a.authority = true ∧ (r.published.all (· < r.synced)) = true then
    let p := r.publishStateOnce site a w.storage request none r.synced
    { w.after p with stopped := !(p.ok && a.confirmed) }
  else { w with resident := some r, stopped := true }

/-- `complete`. -/
def Publisher.complete (r : ResidentDatabase) (request result : String)
    (committed : Option Nat) (a : Answers) : Publisher :=
  match r.unpublished committed with
  | none => w
  | some txid =>
    let p := r.publishStateOnce site a w.storage request (some result) txid
    let after := w.after p
    if p.ok = false ∧ p.resident.pending = none then { after with resident := none } else after

/-- A command of the publisher with the answers of the storage. -/
inductive Action
  /-- the newest durable snapshot is loaded -/
  | load (a : LoadAnswers)
  /-- a call commits and is not published at once -/
  | sync (position : Nat)
  /-- a call commits and is published at once -/
  | immediate (request : String) (position : Nat) (a : Answers)
  | complete (request result : String) (committed : Option Nat) (a : Answers)
  /-- the pending commit is finished before an invocation -/
  | prepare (a : Answers)
  | reset
  /-- the service ends -/
  | stop
deriving DecidableEq, Repr

def Publisher.step : Action → Option Publisher
  | .load a =>
    if w.stopped = false ∧ w.resident = none then
      (w.load site a).map fun r => { w with resident := some r }
    else none
  | .sync position =>
    match w.resident with
    | none => none
    | some r =>
      if w.stopped = true then none
      else some { w with resident := some { r with synced := position } }
  | .immediate request position a =>
    match w.resident with
    | none => none
    | some r =>
      if w.stopped = true ∨ position ≤ r.synced then none
      else some (w.publishImmediate site { r with synced := position } request a)
  | .complete request result committed a =>
    match w.resident with
    | none => none
    | some r =>
      if w.stopped = true then none
      else some (w.complete site r request result committed a)
  | .prepare a =>
    match w.resident with
    | none => none
    | some r =>
      if w.stopped = true then none
      else some (w.after (r.finishPendingCommit site a w.storage))
  | .reset => if w.stopped = true then none else some { w with resident := none }
  | .stop => some { w with stopped := true }

end

/-- The steps of an activation. -/
inductive Publisher.Steps (site : Site) (w : Publisher) : Action → Publisher → Prop
  | load {a : LoadAnswers} {r : ResidentDatabase} (hstopped : w.stopped = false)
      (habsent : w.resident = none) (hload : w.load site a = some r) :
      Steps site w (.load a) { w with resident := some r }
  | sync {position : Nat} {r : ResidentDatabase} (hstopped : w.stopped = false)
      (hr : w.resident = some r) :
      Steps site w (.sync position) { w with resident := some { r with synced := position } }
  | immediate {request : String} {position : Nat} {a : Answers} {r : ResidentDatabase}
      (hstopped : w.stopped = false) (hr : w.resident = some r) (hlater : r.synced < position) :
      Steps site w (.immediate request position a)
        (w.publishImmediate site { r with synced := position } request a)
  | complete {request result : String} {committed : Option Nat} {a : Answers}
      {r : ResidentDatabase} (hstopped : w.stopped = false) (hr : w.resident = some r) :
      Steps site w (.complete request result committed a)
        (w.complete site r request result committed a)
  | prepare {a : Answers} {r : ResidentDatabase} (hstopped : w.stopped = false)
      (hr : w.resident = some r) :
      Steps site w (.prepare a) (w.after (r.finishPendingCommit site a w.storage))
  | reset (hstopped : w.stopped = false) : Steps site w .reset { w with resident := none }
  | stop : Steps site w .stop { w with stopped := true }

/-- A step is one of those listed. -/
theorem Publisher.steps {site : Site} {w w' : Publisher} {action : Action}
    (hstep : w.step site action = some w') : w.Steps site action w' := by
  have hall : Transition.Ensures (w.Steps site action) (w.step site action) := by
    fun_cases Publisher.step site w action with
    | case1 a hready =>
      cases hload : w.load site a with
      | none => trivial
      | some r => exact .load hready.1 hready.2 hload
    | case5 position r hr hruns => exact .sync (Bool.eq_false_iff.mpr hruns) hr
    | case8 request position a r hr hruns =>
      rw [not_or] at hruns
      exact .immediate (Bool.eq_false_iff.mpr hruns.1) hr (Nat.lt_of_not_le hruns.2)
    | case11 request result committed a r hr hruns =>
      exact .complete (Bool.eq_false_iff.mpr hruns) hr
    | case14 a r hr hruns => exact .prepare (Bool.eq_false_iff.mpr hruns) hr
    | case16 hruns => exact .reset (Bool.eq_false_iff.mpr hruns)
    | case17 => exact .stop
    | _ => trivial
  exact hall.of_eq hstep

end DurableActors.Ports.Sqlite
