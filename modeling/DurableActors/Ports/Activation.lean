import Mathlib.Data.List.MinMax
import Mathlib.Data.Finset.Card
import DurableActors.Verified.VersionedCell

/-!
# Activation, renewal, snapshot writes and release

The objects of `bucket/runtime.rs`, `bucket/runtime/activation.rs`,
`bucket/runtime/session.rs`, `host/storage.rs` and `host/persistence.rs` that
decide who may write an actor's state.  One actor is modelled, shared by any
number of host sessions.

The authority object is a cell with generations, kept as the list of every
record ever installed, so generation `g` is the `g`-th entry.  The snapshot
store is put-if-absent.  A request that has been sent stays in a pool and may
reach the store at any later time, which covers lost responses, retries and
crashes between a request and its answer.  Every await point of the source is
a boundary between two actions, and an action touches shared state once.

A lease's route, the actor key and the persistence backend are the same in
every record here and are left out.
-/

namespace DurableActors.Ports.Activation

open Verified

/-- The largest value of the source's `u64`. -/
def u64Max : Nat := 2 ^ 64 - 1

/-- `MAX_HOST_LEASE_DURATION_MS`. -/
def maxHostLeaseDurationMs : Nat := 60000

/-- The safety margin `LeaseFence::confirm` takes off a lease. -/
def fenceMarginMs : Nat := 5000

/-- A host session: the pair of `HostId` and `session_id`. -/
abbrev Host := Nat

/-! ## Snapshots -/

/-- A snapshot object's name.  `snapshot_position` reads the owner epoch and
the state version back off it. -/
structure Object where
  epoch : Nat
  version : Nat
deriving DecidableEq, Repr

/-- The order `snapshot_position` puts on names: epoch first. -/
def Object.le (a b : Object) : Prop :=
  a.epoch < b.epoch ∨ a.epoch = b.epoch ∧ a.version ≤ b.version

instance : LE Object := ⟨Object.le⟩

instance (a b : Object) : Decidable (a ≤ b) :=
  inferInstanceAs (Decidable (_ ∨ _))

/-- `SnapshotRef`.  `decode_snapshot` and `StateStream::snapshot` refuse a
snapshot whose name does not carry its own epoch and version, so
`state_version` is read off the name. -/
structure SnapshotRef where
  object : Object
  requestId : Nat
  digest : Nat
deriving DecidableEq, Repr

def SnapshotRef.stateVersion (snapshot : SnapshotRef) : Nat :=
  snapshot.object.version

/-- The bytes of a `StateSnapshot`: the fields the write path decodes, and the
rest of the document. -/
structure Snapshot where
  ownerEpoch : Nat
  stateVersion : Nat
  requestId : Nat
  parent : Option SnapshotRef
  payload : Nat
deriving DecidableEq, Repr

def Snapshot.object (snapshot : Snapshot) : Object :=
  ⟨snapshot.ownerEpoch, snapshot.stateVersion⟩

/-- What a deployment fixes: the digest function, each session's region and
lease duration, and whether `SnapshotStore::finish` closes the stream
(`RapidSnapshots`) or does nothing (`BucketSnapshots`). -/
structure Config where
  checksum : Snapshot → Nat
  region : Host → Nat
  durationMs : Host → Nat
  closesStream : Bool

/-- `SnapshotRef::new`. -/
def Config.reference (cfg : Config) (bytes : Snapshot) : SnapshotRef :=
  ⟨bytes.object, bytes.requestId, cfg.checksum bytes⟩

/-- `advance`: move a witness forward to a later one.  Two different
witnesses of one position are an error. -/
def advance (current candidate : Option SnapshotRef) :
    Option (Option SnapshotRef) :=
  match candidate with
  | none => some current
  | some next =>
    match current with
    | none => some (some next)
    | some held =>
      if held.object = next.object then
        if held = next then some current else none
      else if held.object ≤ next.object then some (some next)
      else some current

/-! ## Ownership records -/

/-- `HostLease`, with the session that holds it. -/
structure HostLease where
  session : Host
  expiresAtMs : Nat
deriving DecidableEq, Repr

/-- `Ownership`. -/
structure Ownership where
  isSealed : Bool
  epoch : Nat
  region : Nat
  base : Option SnapshotRef
  lease : HostLease
  mutation : Nat
deriving DecidableEq, Repr

/-- `StateStream`; the prefix is determined by the epoch. -/
structure StateStream where
  session : Host
  ownerEpoch : Nat
  baseVersion : Nat
deriving DecidableEq, Repr

/-- The version that a base stands for. -/
def baseVersion (base : Option SnapshotRef) : Nat :=
  base.elim 0 SnapshotRef.stateVersion

/-- `Ownership::stream`. -/
def Ownership.stream (record : Ownership) : StateStream :=
  ⟨record.lease.session, record.epoch, baseVersion record.base⟩

/-- `StateStream::snapshot`. -/
def StateStream.snapshot (cfg : Config) (stream : StateStream)
    (bytes : Snapshot) : Option SnapshotRef :=
  if bytes.ownerEpoch = stream.ownerEpoch ∧
      stream.baseVersion < bytes.stateVersion then
    some (cfg.reference bytes)
  else none

/-- `WritePlan`. -/
structure WritePlan where
  stateVersion : Nat
  objectName : Object
  stream : StateStream
deriving DecidableEq, Repr

/-- `RuntimeStorage::new_lease`: refused when the expiration overflows. -/
def newLease (cfg : Config) (host : Host) (now : Nat) : Option HostLease :=
  if 0 < cfg.durationMs host ∧ cfg.durationMs host ≤ maxHostLeaseDurationMs ∧
      now + cfg.durationMs host ≤ u64Max then
    some ⟨host, now + cfg.durationMs host⟩
  else none

/-- `RuntimeStorage::validate_activation`. -/
def validateActivation (cfg : Config) (host : Host) (now : Nat) :
    Option Ownership → Bool
  | none => true
  | some record =>
    decide (record.region = cfg.region host ∧
      record.lease.session ≠ host ∧ record.lease.expiresAtMs ≤ now)

/-- The filter `register_activation` puts on the owner hint. -/
def hintUsable (cfg : Config) (host : Host) (now : Nat)
    (hint : Nat × Ownership) : Bool :=
  decide (hint.2.isSealed = true ∧ 0 < hint.1 ∧
    hint.2.region = cfg.region host ∧ hint.2.lease.expiresAtMs ≤ now ∧
    hint.2.lease.session ≠ host)

/-- `RuntimeStorage::activation_record`.  The mutation is filled in when the
record is sent. -/
def activationRecord (cfg : Config) (host : Host) (now : Nat)
    (current : Option Ownership) : Option Ownership :=
  match newLease cfg host now with
  | none => none
  | some lease =>
    match current with
    | none => some ⟨false, 1, cfg.region host, none, lease, 0⟩
    | some record =>
      if record.epoch + 1 ≤ u64Max then
        some ⟨false, record.epoch + 1, cfg.region host, record.base,
          lease, 0⟩
      else none

/-! ## The local lease fence -/

/-- `LeaseFence`. -/
structure LeaseFence where
  deadline : Option Nat := none
  fenced : Bool := false
deriving DecidableEq, Repr

/-- `LeaseFence::check`: the fence after the call and whether it passed. -/
def LeaseFence.check (fence : LeaseFence) (now : Nat) : LeaseFence × Bool :=
  match fence.deadline with
  | none => (fence, false)
  | some deadline =>
    let fence := if deadline ≤ now then { fence with fenced := true } else fence
    (fence, !fence.fenced)

/-- `LeaseFence::begin`. -/
def LeaseFence.begin (fence : LeaseFence) (now : Nat) : LeaseFence × Bool :=
  match fence.deadline with
  | none => (fence, !fence.fenced)
  | some _ => fence.check now

/-- The last part of `LeaseFence::confirm`: keep the deadline unless it has
already passed. -/
def LeaseFence.arm (fence : LeaseFence) (deadline now : Nat) :
    LeaseFence × Bool :=
  if deadline ≤ now then ({ fence with fenced := true }, false)
  else ({ fence with deadline := some deadline }, true)

/-- `LeaseFence::confirm`. -/
def LeaseFence.confirm (fence : LeaseFence) (started duration now : Nat) :
    LeaseFence × Bool :=
  match fence.begin now with
  | (fence, false) => (fence, false)
  | (fence, true) => fence.arm (started + (duration - fenceMarginMs)) now

/-! ## Calls in progress -/

/-- A `compare_and_swap` of the authority object. -/
structure Claim where
  host : Host
  expected : Option Nat
  record : Ownership
deriving DecidableEq, Repr

/-- Where a call of `HostStorage::register` stands.  The `renewal` mutex lets
one such call run per session at a time. -/
inductive Registration
  | idle
  | reading (started : Nat) (hint : Option (Nat × Ownership)) (newActor : Bool)
  | validating (started : Nat) (hinted : Bool)
      (current : Option (Nat × Ownership))
  | stamping (started : Nat) (hinted : Bool)
      (current : Option (Nat × Ownership))
  | listing (started generation : Nat) (previous record : Ownership)
  | loading (started generation : Nat) (previous record : Ownership)
      (recovered : Option Snapshot)
  | claiming (started : Nat) (hinted joined : Bool) (claim : Claim)
  | adopting (started : Nat) (record : Ownership)
  | confirming (started : Nat) (lease : HostLease)
  | releasing (record : Ownership) (attempt : Nat)
  | swapping (record : Ownership) (attempt : Nat) (claim : Claim)
  | renewReading (started : Nat)
  | renewChecking (started generation : Nat) (record : Ownership)
  | renewStamping (started generation : Nat) (record : Ownership)
  | renewClaiming (started : Nat) (claim : Claim)
  | renewAdopting (started : Nat) (record : Ownership)
deriving DecidableEq, Repr

/-- Where `HostStorage::finish` stands.  A checkpoint of `none` is the release
without one. -/
inductive Shutdown
  | running
  | closing (snapshot : Option SnapshotRef)
  | fencing (checkpoint : Option (Option SnapshotRef))
  | releasing (checkpoint : Option (Option SnapshotRef)) (attempt : Nat)
  | swapping (checkpoint : Option (Option SnapshotRef)) (attempt : Nat)
      (claim : Claim)
  | finished
deriving DecidableEq, Repr

/-- The base of the sealed record has been read and the fence is not set
yet. -/
def Shutdown.sealing : Shutdown → Bool
  | .closing _ => true
  | .fencing (some _) => true
  | _ => false

/-- The steps of `ActorPersistence::write_snapshot`: the first fence check,
the owner check, the dependency check, the counted upload, its answer, the
second owner check, the recorded upload. -/
inductive WritePc
  | idle | entered | planned | verified | putting | stored | rechecked
  | recorded
deriving DecidableEq, Repr

/-- One `write_snapshot` call. -/
structure Write where
  pc : WritePc
  host : Host
  plan : WritePlan
  bytes : Snapshot
deriving DecidableEq, Repr

def Write.none : Write :=
  ⟨.idle, 0, ⟨0, ⟨0, 0⟩, ⟨0, 0, 0⟩⟩, ⟨0, 0, 0, .none, 0⟩⟩

/-- `UploadedSnapshots`.  The counters are `u64`, which is not bounded here. -/
structure UploadedSnapshots where
  started : Nat := 0
  completed : Nat := 0
  latest : Option SnapshotRef := none
deriving DecidableEq, Repr

/-- The shared stores and every session's `HostStorage`, one map per field.
`pending` and `acknowledged` are observations: the writes counted in
`started` and not in `completed`, and the writes answered with success. -/
structure World where
  now : Nat
  history : List Ownership
  requests : List Claim
  snapshots : List Snapshot
  puts : List Snapshot
  mutations : Nat
  fence : Host → LeaseFence
  stop : Host → Bool
  lease : Host → Option HostLease
  owned : Host → Option Ownership
  uploaded : Host → UploadedSnapshots
  streamClosed : Host → Bool
  registration : Host → Registration
  shutdown : Host → Shutdown
  writes : Nat → Write
  pending : Host → Finset Nat
  acknowledged : List Object

/-! ## The stores -/

/-- `RuntimeStorageReader::load`. -/
def World.load (s : World) : Option (Nat × Ownership) :=
  VersionedCell.load s.history

/-- `BucketSnapshots::get`. -/
def World.get (s : World) (object : Object) : Option Snapshot :=
  s.snapshots.find? fun x => decide (x.object = object)

/-- `BucketSnapshots::latest` under the prefix of one epoch. -/
def World.latest (s : World) (epoch : Nat) : Option Snapshot :=
  (s.snapshots.filter fun x => decide (x.ownerEpoch = epoch)).argmax
    Snapshot.stateVersion

/-- `read_persisted` followed by `SnapshotRef::verify`. -/
def World.verified (cfg : Config) (s : World) (snapshot : SnapshotRef) : Bool :=
  (s.get snapshot.object).any fun bytes =>
    decide (cfg.checksum bytes = snapshot.digest)

/-- `RuntimeStorageReader::load_latest`: the base advanced by the recovered
snapshot, read back and verified unless it is the recovered one. -/
def World.loadLatest (cfg : Config) (s : World) (base : Option SnapshotRef)
    (recovered : Option Snapshot) : Option (Option SnapshotRef) :=
  match advance base (recovered.map cfg.reference) with
  | none => none
  | some none => some none
  | some (some candidate) =>
    if recovered.map cfg.reference = some candidate then
      some (some candidate)
    else if s.verified cfg candidate then some (some candidate)
    else none

/-- `RuntimeStorage::ensure_write_owner`. -/
def World.ensureWriteOwner (s : World) (host : Host) (plan : WritePlan) : Bool :=
  match s.owned host with
  | none => false
  | some record =>
    decide (record.stream = plan.stream ∧ s.now < record.lease.expiresAtMs)

/-- `HostStorage::ensure_authority`: the fence after the call and whether it
passed. -/
def World.ensureAuthority (s : World) (host : Host) : LeaseFence × Bool :=
  if s.stop host then (s.fence host, false) else (s.fence host).check s.now

/-- `RuntimeStorage::upload_checkpoint`, behind the local ownership check of
`drain_activation`. -/
def World.uploadCheckpoint (s : World) (host : Host) :
    Option (Option SnapshotRef) :=
  match s.owned host with
  | none => none
  | some record =>
    if record.lease.session ≠ host then none
    else if (s.uploaded host).started = (s.uploaded host).completed then
      advance record.base (s.uploaded host).latest
    else none

/-- The record one turn of the loop of `release_with_checkpoint` sends, with
the generation it replaces; `none` when there is nothing to release. -/
def World.releaseClaim (s : World) (host : Host)
    (checkpoint : Option (Option SnapshotRef)) : Option Claim :=
  match s.load with
  | none => none
  | some (generation, record) =>
    if record.lease.session ≠ host ∨ record.lease.expiresAtMs = 0 then none
    else
      let released := { record with
        lease := { record.lease with expiresAtMs := 0 }
        mutation := s.mutations }
      match checkpoint with
      | none => some ⟨host, some generation, released⟩
      | some snapshot =>
        some ⟨host, some generation,
          { released with base := snapshot, isSealed := true }⟩

/-- Send a conditional request under a fresh mutation. -/
def World.send (s : World) (claim : Claim) : World :=
  { s with
    requests := claim :: s.requests
    mutations := s.mutations + 1 }

end DurableActors.Ports.Activation
