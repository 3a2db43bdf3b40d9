import DurableActors.Ports.LogFrame
import DurableActors.Ports.SqlitePublication
import DurableActors.Verified.Interrupt

/-!
# The session that writes the log

`Session` of `bucket/rapid/writer.rs` with `Segment::append`.  A session writes
every snapshot of an activation to the segment it currently holds, or, when no
zone is available, to the Standard store.  It moves to a prepared segment when
the current one is old enough, and `finish` archives what is left.

Every call borrows the session mutably, so calls do not interleave; but each of
them can fail or be dropped at each `await`.  The flag `healthy` is lowered
before the first write of a call and raised after the call has recorded it, so
that a call which stops in between leaves the session refusing every later one.
-/

namespace DurableActors.Ports.Rapid

open Verified
open Sqlite (Bytes Codec StateStream StateSnapshot parsed)
open Log (Record Digest)

/-! ## Segments -/

/-- `Segment`.  The frames are those of every replica: `records` have been
flushed by all writers, `doubtful` is a frame whose flush was started and not
confirmed. -/
structure Segment where
  firstVersion : Nat
  offset : Nat
  healthy : Bool
  records : List Record
  doubtful : Option Record
deriving DecidableEq, Repr

/-- A segment as `Segment::open` returns it. -/
def Segment.opened (firstVersion : Nat) : Segment :=
  ⟨firstVersion, 0, true, [], none⟩

/-- The loop over the writers' results. -/
def checkFlushed (expected : Nat) : List (Except String Nat) → Checked Unit
  | [] => .ok ()
  | result :: results => do
      let offset ← parsed result
      Checked.ensure (offset = expected) "unexpected persisted log offset"
      checkFlushed expected results

/-- `Segment::append`.  `flushed` is what the writers answer within the time
limit. -/
def Segment.append (digest : Digest) (flushed : Answer (List (Except String Nat)))
    (version : Nat) (state : Bytes) : Call Segment Bytes := do
  let segment ← get
  Call.ensure segment.healthy "uncertain log append requires activation recovery"
  let record : Record := ⟨version, state⟩
  let frame ← Call.lift (parsed (record.encode digest))
  let expected ← Call.lift
    (Checked.ofOption "log offset overflow" (Checked.checkedAdd segment.offset frame.length))
  modify fun s => { s with healthy := false, doubtful := some record }
  let results ← Call.await flushed
  Call.lift (checkFlushed expected results)
  modify fun s => { s with
    offset := expected
    healthy := true
    records := s.records ++ [record]
    doubtful := none }
  return frame

/-! ## The session -/

/-- The part of `Archiver` the session sees: what it was given to archive. -/
structure Archiver where
  frames : List (Bytes × Nat)
deriving DecidableEq, Repr

/-- `Session`.  A segment in preparation is known by the first version it was
opened for. -/
structure Session where
  stream : StateStream
  segment : Option Segment
  preparing : Option Nat
  next : Option Nat
  archive : Option Archiver
  retired : Option Archiver
  retirementError : Bool
  latest : Option (String × Bytes)
  version : Nat
  installedAt : Nat
  standard : Bool
  healthy : Bool
deriving DecidableEq, Repr

/-- The session and what it has written.  `released` are the segments it has let
go of, `stored` the records `put` has stored in the Standard store, `storing` one
whose store was started and not confirmed, and `copies` what `finish` has copied
to the Standard store.  `attempts` counts the calls of `put` that began to write. -/
structure World where
  session : Session
  released : List Segment
  stored : List Record
  storing : Option Record
  copies : List (String × Bytes)
  attempts : Nat
deriving DecidableEq, Repr

/-- Every segment of the session, the one it holds last. -/
def World.segments (w : World) : List Segment :=
  w.released ++ w.session.segment.toList

/-- The records that were confirmed. -/
def World.written (w : World) : List Record :=
  w.segments.flatMap Segment.records ++ w.stored

/-- `Session::open`. -/
def Session.open (stream : StateStream) : Checked Session := do
  let first ← Checked.ofOption "state version overflow" (Checked.checkedAdd stream.base 1)
  return {
    stream
    preparing := some first
    segment := none
    next := none
    archive := none
    retired := none
    retirementError := false
    latest := none
    version := stream.base
    installedAt := stream.base
    standard := false
    healthy := true }

/-- `Session::cached`. -/
def Session.cached (s : Session) (object : String) : Option Bytes :=
  (s.latest.filter (fun latest => latest.1 = object)).map Prod.snd

/-! ## Rotation -/

/-- `Session::install`. -/
def World.install (segment : Option Segment) (w : World) : World :=
  { w with
    released := w.segments
    session := { w.session with
      standard := segment.isNone
      installedAt := w.session.version
      archive := segment.map fun _ => ⟨[]⟩
      segment := segment } }

/-- What a rotation finds: whether the retired archiver has finished and how it
ended, whether the interval has elapsed, and the prepared segment, if polling it
once yields a result. -/
structure RotateAnswers where
  finished : Bool
  retirement : Answer Unit
  elapsed : Bool
  prepared : Option (Except Fault Bool)
deriving DecidableEq, Repr

/-- The first statement of `rotate`: an archiver that is done is taken and its
error kept. -/
def collectRetired (a : RotateAnswers) : Call World Unit := do
  let w ← get
  if w.session.retired.isSome ∧ a.finished = true then
    modify fun w => { w with session := { w.session with retired := none } }
    match a.retirement with
    | .failed _ =>
      modify fun w => { w with session := { w.session with retirementError := true } }
    | answer => Call.await answer

/-- What `rotate` does with the result of the preparation: `some true` is a
segment, `some false` none because no zone answered. -/
def World.rotated (prepared : Option (Except Fault Bool)) (first : Nat) (w : World) :
    World :=
  let next := w.session.next.getD first
  match prepared with
  | none => { w with session := { w.session with next := some next } }
  | some (.ok true) =>
    let retired := match w.session.archive with
      | some archive => some archive
      | none => w.session.retired
    World.install (some (Segment.opened next))
      { w with session := { w.session with next := none, archive := none, retired } }
  | some _ => { w with session := { w.session with next := none } }

/-- `Session::rotate`. -/
def rotate (a : RotateAnswers) : Call World Unit := do
  collectRetired a
  let w ← get
  if w.session.healthy = false ∨ w.session.standard = true ∨ w.session.retired.isSome ∨
      a.elapsed = false ∨ w.session.version = w.session.installedAt then
    return ()
  match Checked.checkedAdd w.session.version 1 with
  | none => return ()
  | some first => modify (World.rotated a.prepared first)

/-! ## Writing -/

/-- The installation of the first segment, which `put` and `finish` wait for.  The
answer says whether a zone was available. -/
def installPrepared (prepared : Answer Bool) : Call World Unit := do
  let w ← get
  match w.session.preparing with
  | none => return ()
  | some first =>
    modify fun w => { w with session := { w.session with preparing := none } }
    let available ← Call.await prepared
    modify (World.install (if available = true then some (Segment.opened first) else none))

/-- What `put` meets at each `await`. -/
structure PutAnswers where
  rotation : RotateAnswers
  prepared : Answer Bool
  flushed : Answer (List (Except String Nat))
  stored : Answer Unit
  scheduled : Bool
deriving DecidableEq, Repr

/-- `put` in Standard mode. -/
def storeRecord (stored : Answer Unit) (record : Record) : Call World Unit := do
  modify fun w => { w with storing := some record }
  Call.await stored
  modify fun w => { w with stored := w.stored ++ [record], storing := none }

/-- `put` on a segment: append the frame, then hand it to the archiver. -/
def appendRecord (digest : Digest) (flushed : Answer (List (Except String Nat)))
    (record : Record) : Call World Unit := do
  let frame ← Call.within (fun w : World => w.session.segment)
    (fun segment w => { w with session := { w.session with segment := some segment } })
    "Rapid stream missing" (Segment.append digest flushed record.version record.state)
  let w ← get
  let archive ← Call.lift (Checked.ofOption "archive worker missing" w.session.archive)
  modify fun w => { w with session := { w.session with
    archive := some ⟨archive.frames ++ [(frame, record.version)]⟩ } }

/-- The write of `put`, in the mode the session is in. -/
def writeRecord (digest : Digest) (flushed : Answer (List (Except String Nat)))
    (stored : Answer Unit) (record : Record) : Call World Unit := do
  let w ← get
  if w.session.standard = true then storeRecord stored record
  else appendRecord digest flushed record

/-- `Session::put`.  The checkpoint progress, which is scheduled at the end, decides
nothing here. -/
def put (codec : Codec) (digest : Digest) (a : PutAnswers) (object : String)
    (bytes : Bytes) : Call World Unit := do
  let w ← get
  Call.ensure w.session.healthy "uncertain write requires activation recovery"
  let reference ← Call.lift (w.session.stream.snapshot codec bytes)
  Call.ensure (reference.object = object) "snapshot belongs to another stream"
  if w.session.cached object = some bytes then
    return ()
  Call.ensure (Checked.checkedAdd w.session.version 1 = some reference.version)
    "nonconsecutive state version"
  rotate a.rotation
  modify fun w => { w with
    session := { w.session with healthy := false }
    attempts := w.attempts + 1 }
  installPrepared a.prepared
  writeRecord digest a.flushed a.stored ⟨reference.version, bytes⟩
  modify fun w => { w with session := { w.session with
    version := reference.version
    latest := some (object, bytes)
    healthy := true } }
  Call.pause a.scheduled

/-- `Session::restored`: the snapshot the actor was restored from becomes the
latest one of a session that has none. -/
def restored (codec : Codec) (scheduled : Bool) (object : String) (bytes : Bytes) :
    Call World Unit := do
  let w ← get
  let snapshot ← Call.lift (StateSnapshot.decode codec bytes)
  if w.session.latest.isSome ∨ snapshot.version ≠ w.session.stream.base then
    return ()
  let actor ← Call.lift (parsed (codec.actorFromSnapshot object))
  let own ← Call.lift
    (parsed (codec.actorFromSnapshot (w.session.stream.object w.session.version)))
  if actor ≠ own then
    return ()
  modify fun w => { w with session := { w.session with latest := some (object, bytes) } }
  Call.pause scheduled

/-! ## Finishing -/

/-- What `finish` meets at each `await`; the time limit of the drain is a failure
of the operation it interrupts. -/
structure FinishAnswers where
  prepared : Answer Bool
  next : Answer Bool
  nextFinished : Answer Unit
  archived : Answer Unit
  retired : Answer Unit
  copied : Answer Unit
  checkpointed : Bool
deriving DecidableEq, Repr

/-- `finish_archive`, the segment prepared for the next rotation: it has a manifest
already and is archived empty. -/
def finishNext (a : FinishAnswers) : Call World Unit := do
  let w ← get
  match w.session.next with
  | none => return ()
  | some first =>
    modify fun w => { w with session := { w.session with next := none } }
    let available ← Call.await a.next
    if available = true then
      modify fun w => { w with released := w.released ++ [Segment.opened first] }
      Call.await a.nextFinished

/-- `finish_archive`, the archiver of the current segment. -/
def finishCurrent (archived : Answer Unit) : Call World Unit := do
  let w ← get
  if w.session.archive.isSome then
    modify fun w => { w with session := { w.session with archive := none } }
    Call.await archived

/-- `finish_archive`, the retired archiver. -/
def finishRetired (retired : Answer Unit) : Call World Unit := do
  let w ← get
  if w.session.retired.isSome then
    modify fun w => { w with session := { w.session with retired := none } }
    Call.await retired

/-- `finish_archive`, the copy of the latest snapshot to the Standard store. -/
def copyLatest (copied : Answer Unit) : Call World Unit := do
  let w ← get
  match w.session.latest with
  | none => return ()
  | some latest =>
    Call.await copied
    modify fun w => { w with copies := w.copies ++ [latest] }

/-- `Session::finish_archive`. -/
def finishArchive (a : FinishAnswers) : Call World Unit := do
  installPrepared a.prepared
  finishNext a
  finishCurrent a.archived
  finishRetired a.retired
  let w ← get
  Call.ensure (!w.session.retirementError) "previous archive retirement failed"
  copyLatest a.copied

/-- The last checkpoint of `finish`, which is awaited if there is a snapshot. -/
def finishCheckpoint (checkpointed : Bool) : Call World Unit := do
  let w ← get
  if w.session.latest.isSome then
    Call.pause checkpointed

/-- The last assignments of `finish`. -/
def World.letGo (w : World) : World :=
  { w with
    released := w.segments
    session := { w.session with segment := none, healthy := true } }

/-- `Session::finish`. -/
def finish (a : FinishAnswers) : Call World Unit := do
  let w ← get
  Call.ensure w.session.healthy "uncertain write cannot be sealed"
  modify fun w => { w with session := { w.session with healthy := false } }
  finishArchive a
  finishCheckpoint a.checkpointed
  modify World.letGo

/-! ## Runs -/

/-- A call on the session, with what it meets. -/
inductive Invocation
  | put (a : PutAnswers) (object : String) (bytes : Bytes)
  | rotate (a : RotateAnswers)
  | restored (scheduled : Bool) (object : String) (bytes : Bytes)
  | finish (a : FinishAnswers)
deriving DecidableEq, Repr

section

variable (codec : Codec) (digest : Digest)

/-- How a call ends, and the state it leaves. -/
def invoke (w : World) (call : Invocation) : Except Interrupt Unit × World :=
  let result := match call with
    | .put a object bytes => put codec digest a object bytes w
    | .rotate a => rotate a w
    | .restored scheduled object bytes => restored codec scheduled object bytes w
    | .finish a => finish a w
  match result with
  | .ok _ w' => (.ok (), w')
  | .error e w' => (.error e, w')

/-- The state after a sequence of calls. -/
def run (w : World) (calls : List Invocation) : World :=
  calls.foldl (fun w call => (invoke codec digest w call).2) w

/-- A call that stopped after it had begun to write and before it had recorded the
write; a call of `finish` works on the whole session from its start on. -/
def interrupts (w : World) (call : Invocation) : Bool :=
  let result := invoke codec digest w call
  match call with
  | .put _ _ _ => !result.1.isOk && decide (w.attempts < result.2.attempts ∧
      result.2.session.version = w.session.version)
  | .finish _ => !result.1.isOk
  | _ => false

/-- Some call of the sequence was interrupted. -/
def interrupted : World → List Invocation → Bool
  | _, [] => false
  | w, call :: calls =>
    interrupts codec digest w call || interrupted (invoke codec digest w call).2 calls

end

/-- The state a session starts in. -/
def World.start (session : Session) : World := ⟨session, [], [], none, [], 0⟩

/-- Calls whose success the caller relies on. -/
def Invocation.writes : Invocation → Bool
  | .put _ _ _ | .finish _ => true
  | _ => false

end DurableActors.Ports.Rapid
