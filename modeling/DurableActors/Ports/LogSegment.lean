import DurableActors.Verified.Transition
import DurableActors.Ports.LogArchive

/-!
# One log segment and everything that works on it

The state machine of `bucket/rapid`: the session that appends records to the
replicas of a segment, the background archiver that copies acknowledged
records to the archive, readers, recoverers (`recover_segment`) and sweepers.
Every call to the archive or to a replica is one step, so all interleavings
are covered.

A write to the archive is put-if-absent.  It first becomes a request, which
stays around forever and may land at any later time, and the caller goes on
once the archive holds the value it wrote; a caller that gives up leaves its
request behind.  This covers lost responses, timeouts and retries.  A replica
read may fail in any step, and a failed fencing read may or may not have
sealed the replica.
-/

namespace DurableActors.Ports.Log

open Verified

variable (cfg : SegmentConfig)

/-! ## Objects -/

/-- An append-only replica object.  A deleted one keeps its bytes here, but no
operation can see them. -/
structure Replica where
  bytes : Bytes
  isSealed : Bool
  deleted : Bool
deriving DecidableEq, Repr

/-- `LogZone::read_range`: exactly the requested bytes, or an error. -/
def Replica.readRange (replica : Replica) (start length : Nat) : Option Bytes :=
  if replica.deleted = false ∧ start + length ≤ replica.bytes.length then
    some ((replica.bytes.drop start).take length)
  else none

/-- What a request asks of the archive or of a replica. -/
inductive Request
  | batch (batch : Batch)
  | closed (closed : ClosedSegment)
  | replicated (closed : ClosedSegment)
  | cleaned
  | delete (replica : Nat)
deriving DecidableEq, Repr

/-- `Pending`, the archiver's queue.  The deadline `since` only decides when
the archiver moves. -/
structure Pending where
  stop : Nat
  version : Nat
  cacheStart : Nat
  cache : Bytes
  closed : Bool
deriving DecidableEq, Repr

/-- The archiver never caches more than this. -/
def cacheLimit : Nat := 1024 * 1024

/-- `Archiver::append`. -/
def Pending.append (pending : Pending) (frame : Bytes) (version : Nat) : Pending :=
  let cached : Bool := decide (pending.cacheStart + pending.cache.length = pending.stop ∧
    pending.cache.length < min cfg.batchBytes cacheLimit)
  { pending with
    cache := if cached then pending.cache ++ frame else pending.cache
    stop := pending.stop + frame.length
    version := version }

/-- `take_cache`. -/
def Pending.takeCache (pending : Pending) (through : Nat) :
    Option Bytes × Pending :=
  if pending.cacheStart ≠ through ∨ pending.cache.length = 0 then (none, pending)
  else
    (some pending.cache,
      { pending with
        cacheStart := pending.cacheStart + pending.cache.length
        cache := [] })

/-- What the archiver does to its queue after an upload. -/
def Pending.uploaded (pending : Pending) (through : Nat) : Pending :=
  if pending.cache = [] then { pending with cacheStart := through } else pending

/-! ## Pure parts of the operations -/

/-- The choice `read_replicas` makes among the copies: the longest one, if no
two of them diverge. -/
def selectCopies : List Record → List (List Record) → Except String (List Record)
  | selected, [] => .ok selected
  | selected, records :: copies =>
    if (selected.zip records).any (fun p => p.1 ≠ p.2) then
      .error "divergent log replicas"
    else
      selectCopies (if selected.length < records.length then records else selected)
        copies

/-- Decode every copy that was read. -/
def decodeCopies : List Bytes → Except String (List (List Record))
  | [] => .ok []
  | bytes :: copies =>
    match decode cfg.digest bytes with
    | .error error => .error error
    | .ok records =>
      match decodeCopies copies with
      | .error error => .error error
      | .ok rest => .ok (records :: rest)

/-- The end of `read_replicas`, on the answers of the replicas. -/
def joinReplicas (answers : List (Nat × Option Bytes)) :
    Except String (List Record) :=
  match decodeCopies cfg (answers.filterMap Prod.snd) with
  | .error error => .error error
  | .ok copies =>
    if copies = [] then
      .error "acknowledged log is unavailable in all configured zones"
    else selectCopies [] copies

/-- The merge in `read_segment`: one record for a version. -/
def mergeRecords : List Record → List (Nat × Record) →
    Except String (List (Nat × Record))
  | [], merged => .ok merged
  | record :: records, merged =>
    if (OrderedMap.lookup record.version merged).any (fun r => r ≠ record) then
      .error "conflicting archived record"
    else mergeRecords records (OrderedMap.insert record.version record merged)

/-- The upload loop of `recover_segment`: the batches it puts, in order.
Every record here was encoded by `append`, so encoding it again succeeds. -/
def recoverBatches : Nat → Nat → Bytes → List Record → List Batch
  | _, through, batch, [] =>
    if 0 < batch.length then [⟨through, through + batch.length, batch⟩] else []
  | offset, through, batch, record :: records =>
    let frame := record.frame cfg.digest
    let offset := offset + frame.length
    if offset ≤ through then recoverBatches offset through batch records
    else
      let batch := batch ++ frame
      if cfg.batchBytes ≤ batch.length then
        ⟨through, through + batch.length, batch⟩ ::
          recoverBatches offset (through + batch.length) [] records
      else recoverBatches offset through batch records

/-- The loop of `upload`: how many bytes of the range make up the batch. -/
def cutLength : Nat → List Record → Except String Nat
  | length, [] => .ok length
  | length, record :: records =>
    if cfg.identity record = false then
      .error "archive record identity mismatch"
    else if cfg.batchBytes ≤ length + record.size then .ok (length + record.size)
    else cutLength (length + record.size) records

/-- The batch `upload` puts, from the bytes it read at `start`. -/
def cutBatch (start : Nat) (bytes : Bytes) : Except String Batch :=
  match decode cfg.digest bytes with
  | .error error => .error error
  | .ok records =>
    match cutLength cfg 0 records with
    | .error error => .error error
    | .ok length =>
      if length = 0 then .error "archive range has no complete record"
      else .ok ⟨start, start + length, bytes.take length⟩

/-- The length of the first range `read_batch` asks for. -/
def requestedLength (start stop : Nat) : Nat :=
  min (stop - start) (max cfg.batchBytes headerLength)

/-- The closed marker of a recoverer. -/
def recoveredMarker (records : List Record) : ClosedSegment where
  lastVersion :=
    match records.getLast? with
    | none => cfg.firstVersion - 1
    | some record => record.version
  endOffset := totalSize records

/-! ## Tasks -/

/-- Who called `read_segment`. -/
inductive ReadCaller
  | plain (fence : Bool)
  | recover
deriving DecidableEq, Repr

def ReadCaller.fence : ReadCaller → Bool
  | .plain fence => fence
  | .recover => true

/-- Where a `read_segment` call stands.  The constructors name what comes
next: the first look at the replicated marker, the first listing, the replica
reads (with the answers so far), and after a failure of all of these the
second look at the marker and the second listing. -/
inductive ReadPc
  | marker
  | listing (marker : Option ClosedSegment)
  | replicas (archived : List Record) (answers : List (Nat × Option Bytes))
  | lastMarker
  | lastListing (closed : ClosedSegment)
deriving DecidableEq, Repr

/-- Who called `upload`: the archiver (with its local variables) or
`complete_segment`. -/
inductive UploadCaller
  | archiver (through : Nat) (published : Bool)
  | sweeper (closed : ClosedSegment)
deriving DecidableEq, Repr

/-- Where an `upload` call stands. -/
inductive UploadPc
  | head (start stop : Nat)
  | tail (start stop : Nat) (bytes : Bytes) (length : Nat)
  | fallback (start stop : Nat)
  | put (batch : Batch)
deriving DecidableEq, Repr

/-- A running call, and what it does next. -/
inductive Task
  | reading (caller : ReadCaller) (since : List Record) (pc : ReadPc)
  -- `recover_segment`
  | recovered (records : List Record)
  | recoverListing (records : List Record)
  | recoverClosed (records : List Record) (through : Nat)
  | recoverUpload (closed : ClosedSegment) (batches : List Batch)
  | recoverClosing (closed : ClosedSegment)
  | recoverClose (closed : ClosedSegment)
  | recoverMark (closed : ClosedSegment)
  -- the archiver's loop
  | archive (through : Nat) (published : Bool)
  | archiveClose (through : Nat) (closed : ClosedSegment)
  | upload (caller : UploadCaller) (pc : UploadPc)
  -- `sweep_segment` and `complete_segment`
  | sweep
  | sweepClosed
  | sweepReplicated (closed : ClosedSegment)
  | completeListing (closed : ClosedSegment)
  | completing (closed : ClosedSegment) (through : Nat)
  | completeValidate (closed : ClosedSegment)
  -- `mark_replicated` and `cleanup_segment`, for the archiver and the sweeper
  | mark (closed : ClosedSegment)
  | cleanup
  | deleting (replica : Nat)
  | cleaning
deriving DecidableEq, Repr

/-- A `read_segment` that returned: what was acknowledged when it started, and
the records it returned. -/
structure ReadResult where
  since : List Record
  records : List Record
deriving DecidableEq, Repr

/-- The segment, its objects and all running calls. -/
structure State where
  /-- the records `put` has acknowledged -/
  acked : List Record
  /-- the record of an append without a response; the session is unhealthy -/
  inflight : Option Record
  /-- the session has left the segment -/
  retired : Bool
  pending : Pending
  replicas : Nat → Replica
  batches : List Batch
  closed : Option ClosedSegment
  replicated : Option ClosedSegment
  cleaned : Bool
  requests : List Request
  tasks : Nat → Option Task
  reads : List ReadResult

/-- The number of the archiver's task. -/
def archiverTask : Nat := 0

/-- A segment that was just installed. -/
def State.installed : State where
  acked := []
  inflight := none
  retired := false
  pending := ⟨0, cfg.installedAt, 0, [], false⟩
  replicas := fun _ => ⟨[], false, false⟩
  batches := []
  closed := none
  replicated := none
  cleaned := false
  requests := []
  tasks := fun w => if w = archiverTask then some (.archive 0 false) else none
  reads := []

/-- Everything that was ever appended. -/
def State.log (s : State) : List Record := s.acked ++ s.inflight.toList

/-! ## One task -/

/-- What one step of a task changes: the task itself (`none` when the call
ends), the archiver's queue, and the results of `read_segment`. -/
structure Move where
  task : Option Task
  pending : Pending
  reads : List ReadResult

variable (s : State)

/-- Go on with `task`. -/
def State.goto (task : Task) : Move := ⟨some task, s.pending, s.reads⟩

/-- The call ends. -/
def State.stop : Move := ⟨none, s.pending, s.reads⟩

/-- `read_segment` returns. -/
def State.returned (caller : ReadCaller) (since records : List Record) : Move where
  task :=
    match caller with
    | .plain _ => none
    | .recover => some (.recovered records)
  pending := s.pending
  reads := ⟨since, records⟩ :: s.reads

/-- `read_segment`. -/
def State.advanceRead (caller : ReadCaller) (since : List Record) :
    ReadPc → Option Move
  | .marker => some (s.goto (.reading caller since (.listing s.replicated)))
  | .listing marker =>
    match archived cfg s.batches, marker with
    | .error _, _ => some s.stop
    | .ok (stop, records), some closed =>
      if closed.validate cfg stop records then
        some (s.returned caller since records)
      else some s.stop
    | .ok (_, records), none =>
      some (s.goto (.reading caller since (.replicas records [])))
  | .replicas archived answers =>
    if answers.length < cfg.replicas then none
    else
      match joinReplicas cfg answers with
      | .error _ => some (s.goto (.reading caller since .lastMarker))
      | .ok rapid =>
        match mergeRecords (archived ++ rapid) [] with
        | .error _ => some s.stop
        | .ok merged => some (s.returned caller since (merged.map Prod.snd))
  | .lastMarker =>
    match s.replicated with
    | none => some s.stop
    | some closed => some (s.goto (.reading caller since (.lastListing closed)))
  | .lastListing closed =>
    match archived cfg s.batches with
    | .error _ => some s.stop
    | .ok (stop, records) =>
      if closed.validate cfg stop records then
        some (s.returned caller since records)
      else some s.stop

/-- `upload` fails: the archiver goes back to its loop, `complete_segment`
gives up. -/
def State.uploadFailed : UploadCaller → Move
  | .archiver through published => s.goto (.archive through published)
  | .sweeper _ => s.stop

/-- `upload` returns `next`. -/
def State.uploaded (next : Nat) : UploadCaller → Move
  | .archiver _ published =>
    { s.goto (.archive next published) with pending := s.pending.uploaded next }
  | .sweeper closed => s.goto (.completing closed next)

/-- The part of `upload` between reading the range and putting the batch. -/
def State.cut (caller : UploadCaller) (start : Nat) (bytes : Bytes) : Move :=
  match cutBatch cfg start bytes with
  | .error _ => s.uploadFailed caller
  | .ok batch => s.goto (.upload caller (.put batch))

/-- `upload`, where it does not read a replica. -/
def State.advanceUpload (caller : UploadCaller) : UploadPc → Option Move
  | .head _ _ => none
  | .tail _ _ _ _ => none
  | .fallback start stop =>
    match archived cfg s.batches with
    | .error _ => some (s.uploadFailed caller)
    | .ok (through, _) =>
      if start < through then some (s.uploaded (min through stop) caller)
      else some (s.uploadFailed caller)
  | .put batch =>
    if batch ∈ s.batches then some (s.uploaded batch.stop caller) else none

/-- `upload`, reading a range from `replica` after the replicas before it
failed. -/
def State.readRange (caller : UploadCaller) (replica : Replica) :
    UploadPc → Option Move
  | .head start stop =>
    match replica.readRange start (requestedLength cfg start stop) with
    | none => none
    | some bytes =>
      match frameLength bytes with
      | .error _ => some (s.goto (.upload caller (.fallback start stop)))
      | .ok length =>
        if length ≤ requestedLength cfg start stop then
          some (s.cut cfg caller start bytes)
        else if length ≤ stop - start then
          some (s.goto (.upload caller (.tail start stop bytes length)))
        else some (s.goto (.upload caller (.fallback start stop)))
  | .tail start stop bytes length =>
    let requested := requestedLength cfg start stop
    match replica.readRange (start + requested) (length - requested) with
    | none => none
    | some tail => some (s.cut cfg caller start (bytes ++ tail))
  | .fallback _ _ => none
  | .put _ => none

/-- `upload`, when every replica failed to deliver a range, or when the archive
failed to list the batches or to confirm a put.  The request of the put stays
behind, and the archiver cuts its next batch at the same offset. -/
def State.missRange (caller : UploadCaller) : UploadPc → Option Move
  | .head start stop => some (s.goto (.upload caller (.fallback start stop)))
  | .tail start stop _ _ => some (s.goto (.upload caller (.fallback start stop)))
  | .fallback _ _ => some (s.uploadFailed caller)
  | .put _ => some (s.uploadFailed caller)

/-- One turn of the archiver's loop after its closed marker was dealt with:
mark the segment, or upload the next batch.  The archiver may do this at any
time; in the source it also waits for a full batch or a deadline. -/
def State.archiveTurn (through : Nat) (published : Bool) (stop : Nat)
    (closed : Bool) (version : Nat) : Option Move :=
  if through = stop ∧ closed = true then some (s.goto (.mark ⟨version, stop⟩))
  else if through < stop then
    match s.pending.takeCache through with
    | (none, _) =>
      some (s.goto (.upload (.archiver through published) (.head through stop)))
    | (some bytes, pending) =>
      some { s.cut cfg (.archiver through published) through bytes with
        pending := pending }
  else none

/-- The archiver's loop. -/
def State.advanceArchive (through : Nat) (published : Bool) : Option Move :=
  let p := s.pending
  if p.closed = true ∧ published = false then
    some (s.goto (.archiveClose through ⟨p.version, p.stop⟩))
  else s.archiveTurn cfg through published p.stop p.closed p.version

/-- The next step of a task, where it needs no choice of a replica. -/
def State.advance : Task → Option Move
  | .reading caller since pc => s.advanceRead cfg caller since pc
  | .recovered records =>
    match s.replicated with
    | some _ => some s.stop
    | none => some (s.goto (.recoverListing records))
  | .recoverListing records =>
    match archived cfg s.batches with
    | .error _ => some s.stop
    | .ok (through, _) => some (s.goto (.recoverClosed records through))
  | .recoverClosed records through =>
    let batches := recoverBatches cfg 0 through [] records
    match s.closed with
    | none => some (s.goto (.recoverUpload (recoveredMarker cfg records) batches))
    | some closed =>
      if closed.validate cfg (totalSize records) records then
        some (s.goto (.recoverUpload closed batches))
      else some s.stop
  | .recoverUpload closed [] => some (s.goto (.recoverClosing closed))
  | .recoverUpload closed (batch :: batches) =>
    if batch ∈ s.batches then some (s.goto (.recoverUpload closed batches))
    else none
  | .recoverClosing closed =>
    match s.closed with
    | none => some (s.goto (.recoverClose closed))
    | some _ => some (s.goto (.recoverMark closed))
  | .recoverClose closed =>
    if s.closed = some closed then some (s.goto (.recoverMark closed)) else none
  | .recoverMark closed => if s.replicated = some closed then some s.stop else none
  | .archive through published => s.advanceArchive cfg through published
  | .archiveClose through closed =>
    if s.closed = some closed then
      s.archiveTurn cfg through true closed.endOffset true closed.lastVersion
    else none
  | .upload caller pc => s.advanceUpload cfg caller pc
  | .sweep => if s.cleaned = true then some s.stop else some (s.goto .sweepClosed)
  | .sweepClosed =>
    match s.closed with
    | none => some s.stop
    | some closed => some (s.goto (.sweepReplicated closed))
  | .sweepReplicated closed =>
    match s.replicated with
    | some _ => some (s.goto .cleanup)
    | none => some (s.goto (.completeListing closed))
  | .completeListing closed =>
    match archived cfg s.batches with
    | .error _ => some s.stop
    | .ok (through, _) =>
      if through ≤ closed.endOffset then
        some (s.goto (.completing closed through))
      else some s.stop
  | .completing closed through =>
    if through < closed.endOffset then
      some (s.goto (.upload (.sweeper closed) (.head through closed.endOffset)))
    else some (s.goto (.completeValidate closed))
  | .completeValidate closed =>
    match archived cfg s.batches with
    | .error _ => some s.stop
    | .ok (stop, records) =>
      if closed.validate cfg stop records then some (s.goto (.mark closed))
      else some s.stop
  | .mark closed => if s.replicated = some closed then some (s.goto .cleanup) else none
  | .cleanup =>
    match s.replicated with
    | none => some s.stop
    | some _ => some (s.goto (.deleting 0))
  | .deleting replica =>
    if cfg.replicas ≤ replica then some (s.goto .cleaning)
    else if (s.replicas replica).deleted = true then
      some (s.goto (.deleting (replica + 1)))
    else none
  | .cleaning => if s.cleaned = true then some s.stop else none

/-- The request a task is waiting for. -/
def Task.request : Task → Option Request
  | .recoverUpload _ (batch :: _) => some (.batch batch)
  | .recoverClose closed => some (.closed closed)
  | .recoverMark closed => some (.replicated closed)
  | .archiveClose _ closed => some (.closed closed)
  | .upload _ (.put batch) => some (.batch batch)
  | .mark closed => some (.replicated closed)
  | .deleting replica => some (.delete replica)
  | .cleaning => some .cleaned
  | _ => none

/-! ## Steps -/

/-- Task `w` takes a move. -/
def State.apply (w : Nat) (move : Move) : State :=
  { s with
    tasks := Function.update s.tasks w move.task
    pending := move.pending
    reads := move.reads }

/-- A request reaches the store it is for.  Archive objects are never
overwritten. -/
def State.land : Request → State
  | .batch batch =>
    if s.batches.any (fun b => b.start = batch.start ∧ b.stop = batch.stop) then s
    else { s with batches := s.batches ++ [batch] }
  | .closed closed => { s with closed := s.closed <|> some closed }
  | .replicated closed => { s with replicated := s.replicated <|> some closed }
  | .cleaned => { s with cleaned := true }
  | .delete replica =>
    { s with
      replicas := Function.update s.replicas replica
        { s.replicas replica with deleted := true } }

/-- Seal a replica that still exists. -/
def State.seal (i : Nat) : Nat → Replica :=
  if (s.replicas i).deleted = true then s.replicas
  else Function.update s.replicas i { s.replicas i with isSealed := true }

/-- What can happen next. -/
inductive Action
  /-- `Session::put` starts to append a snapshot -/
  | append (state : Bytes)
  /-- `n` more bytes of the frame reach replica `i` -/
  | flush (i n : Nat)
  /-- every replica confirmed the whole frame -/
  | acknowledge
  /-- rotation or `finish`: the session leaves the segment -/
  | retire
  /-- a request takes effect -/
  | land (request : Request)
  | read (w : Nat) (fence : Bool)
  | recover (w : Nat)
  | sweep (w : Nat)
  /-- the call is cancelled, or an operation of it fails -/
  | drop (w : Nat)
  /-- the task sends the request it is waiting for, possibly again -/
  | send (w : Nat)
  | advance (w : Nat)
  /-- replica `i` answers a read -/
  | readReplica (w i : Nat)
  /-- the read of replica `i` fails; with a fence it may have sealed it -/
  | missReplica (w i : Nat) (fenced : Bool)
  | readRange (w i : Nat)
  /-- an operation of `upload` fails -/
  | missRange (w : Nat)
deriving DecidableEq, Repr

/-- A new call. -/
def State.spawn (w : Nat) (task : Task) : Option State :=
  if s.tasks w = none then some { s with tasks := Function.update s.tasks w (some task) }
  else none

/-- The answer of replica `i` to the task's read. -/
def State.answer (w i : Nat) (fenced : Bool) (answer : Option Bytes) :
    Option State :=
  match s.tasks w with
  | some (.reading caller since (.replicas archived answers)) =>
    if i < cfg.replicas ∧ OrderedMap.lookup i answers = none then
      some { s with
        replicas := if caller.fence && fenced then s.seal i else s.replicas
        tasks := Function.update s.tasks w (some (.reading caller since
          (.replicas archived (OrderedMap.insert i answer answers)))) }
    else none
  | _ => none

/-- One step. -/
def State.step : Action → Option State
  | .append state =>
    let record : Record := ⟨s.pending.version + 1, state⟩
    if s.inflight = none ∧ s.retired = false ∧
        cfg.stateVersion state = some record.version ∧ record.Encodable ∧
        record.size ≤ maxFileBytes then
      some { s with inflight := some record }
    else none
  | .flush i n =>
    match s.inflight with
    | none => none
    | some record =>
      let replica := s.replicas i
      if replica.isSealed = false ∧ replica.deleted = false then
        let rest := (record.frame cfg.digest).drop
          (replica.bytes.length - s.pending.stop)
        some { s with
          replicas := Function.update s.replicas i
            { replica with bytes := replica.bytes ++ rest.take n } }
      else none
  | .acknowledge =>
    match s.inflight with
    | none => none
    | some record =>
      if ∀ i < cfg.replicas, (s.replicas i).bytes.length =
          s.pending.stop + record.size then
        some { s with
          acked := s.acked ++ [record]
          inflight := none
          pending := s.pending.append cfg (record.frame cfg.digest) record.version }
      else none
  | .retire =>
    if s.inflight = none then
      some { s with retired := true, pending := { s.pending with closed := true } }
    else none
  | .land request => if request ∈ s.requests then some (s.land request) else none
  | .read w fence => s.spawn w (.reading (.plain fence) s.acked .marker)
  | .recover w => s.spawn w (.reading .recover s.acked .marker)
  | .sweep w => s.spawn w .sweep
  | .drop w => some { s with tasks := Function.update s.tasks w none }
  | .send w =>
    match (s.tasks w).bind Task.request with
    | none => none
    | some request => some { s with requests := request :: s.requests }
  | .advance w => ((s.tasks w).bind (s.advance cfg)).map (s.apply w)
  | .readReplica w i =>
    if (s.replicas i).deleted = true then none
    else s.answer cfg w i true (some (s.replicas i).bytes)
  | .missReplica w i fenced => s.answer cfg w i fenced none
  | .readRange w i =>
    match s.tasks w with
    | some (.upload caller pc) =>
      if i < cfg.replicas then
        (s.readRange cfg caller (s.replicas i) pc).map (s.apply w)
      else none
    | _ => none
  | .missRange w =>
    match s.tasks w with
    | some (.upload caller pc) => (s.missRange caller pc).map (s.apply w)
    | _ => none

end DurableActors.Ports.Log
