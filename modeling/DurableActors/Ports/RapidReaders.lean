import DurableActors.Ports.LogSegment
import DurableActors.Ports.SqlitePublication
import DurableActors.Verified.Text

/-!
# The read paths of the log

How `RapidSnapshots::get` finds a snapshot: the latest one the session keeps, the
live records of `bucket/rapid/index.rs`, the Standard store, the index objects of
the archive, and a scan of all segments (`bucket/rapid/reader.rs`).  Each of the
ranged reads computes its own byte range and decodes what it gets.

The state is the storage at one time.  Archive keys are taken apart into what they
are made of; a directory is what `object_name` maps a logical prefix to.
-/

namespace DurableActors.Ports.Rapid

open Verified
open Verified.Checked
open Sqlite (Bytes Codec StateStream StateSnapshot SnapshotRef parsed)
open Log (Record Digest Batch ClosedSegment Replica SegmentConfig headerLength
  archived joinReplicas mergeRecords)

abbrev Records := List (String × Bytes)

/-! ## Objects -/

/-- `Manifest`; `validate` refuses one that does not start after the base. -/
structure Manifest where
  id : String
  stream : StateStream
  firstVersion : Nat
  base_lt : stream.base < firstVersion
deriving DecidableEq, Repr

/-- A segment in the storage: its batches in the archive, the replicas (a deleted one
stands for every replica that does not answer) and the `replicated` marker. -/
structure StoredSegment where
  manifest : Manifest
  batches : List Batch
  replicas : List Replica
  replicated : Option ClosedSegment
deriving DecidableEq, Repr

/-- `Entry`. -/
structure Entry where
  version : Nat
  start : Nat
  length : Nat
deriving DecidableEq, Repr

/-- The key of a batch, `log~{segment}~{start}~{stop}.batch`. -/
structure BatchKey where
  directory : String
  segment : String
  start : Nat
  stop : Nat
deriving DecidableEq, Repr

/-- `Index`. -/
structure Index where
  batch : BatchKey
  records : List Entry
deriving DecidableEq, Repr

/-- The key of an index, `index~{first}~{last}~{segment}.idx`. -/
structure IndexKey where
  directory : String
  first : Nat
  last : Nat
  segment : String
deriving DecidableEq, Repr

/-- `LiveRecord`. -/
structure LiveRecord where
  manifest : Manifest
  start : Nat
  length : Nat
deriving DecidableEq, Repr

/-- The archive under one prefix. -/
structure Directory where
  segments : List StoredSegment
  indexes : List (IndexKey × Index)

/-- `LogStorage` with the latest snapshot of the session.  `live` is ordered by version. -/
structure Storage where
  codec : Codec
  digest : Digest
  batchBytes : Nat
  batchBytes_pos : 0 < batchBytes
  archive : String → Directory
  snapshots : Records
  live : List (Nat × LiveRecord)
  latest : Option (String × Bytes)

/-! ## Names -/

/-- `format!("{:032x}", n)`. -/
def hex32 (n : Nat) : String := Text.padded 16 32 n

/-- `snapshots::version`. -/
def snapshotVersion (object : String) : Option Nat :=
  (Text.stripSuffix ".json" (Text.lastPart '/' object)).bind Text.parseU64

/-- `format!("{prefix}/{version}.json")`. -/
def recordObject (directory : String) (version : Nat) : String :=
  directory ++ ("/" ++ (toString version ++ ".json"))

section

variable (storage : Storage)

/-! ## Decoding a range -/

/-- `validate` in `index.rs`. -/
def Storage.validate (object : String) (record : Record) : Checked Unit := do
  let snapshot ← StateSnapshot.decode storage.codec record.state
  snapshot.validateObject storage.codec object
  ensure (snapshotVersion object = some record.version ∧ snapshot.version = record.version)
    "indexed record identity mismatch"
  ensure (Text.secondLastPart '/' object = some (hex32 snapshot.epoch))
    "indexed record epoch mismatch"

/-- The loop of `decode_records`. -/
def Storage.collect (directory : String) : List Record → Nat → Records → Checked (Nat × Records)
  | [], length, records => .ok (length, records)
  | record :: rest, length, records => do
      let object := recordObject directory record.version
      storage.validate object record
      ensure (records.lookup object).isNone "duplicate indexed record"
      Storage.collect directory rest (length + (headerLength + record.state.length))
        (records ++ [(object, record.state)])

/-- `decode_records`. -/
def Storage.decodeRecords (directory : String) (bytes : Bytes) : Checked Records := do
  let frames ← parsed (Log.decode storage.digest bytes)
  let (length, records) ← storage.collect directory frames 0 []
  ensure (length = bytes.length) "incomplete indexed range"
  return records

/-! ## Live records -/

/-- `remember`: the record that was appended last, whose frame ends at the segment's
offset.  At most 128 records are kept. -/
def Storage.remember (manifest : Manifest) (offset version length : Nat) : Storage :=
  let records := OrderedMap.insert version ⟨manifest, offset - length, length⟩ storage.live
  { storage with live := records.drop (records.length - 128) }

/-- The loop of `live_range` over the records before `record`, newest first. -/
def extendRange (limit : Nat) : LiveRecord → List LiveRecord → LiveRecord
  | record, [] => record
  | record, prior :: rest =>
    if prior.manifest.id ≠ record.manifest.id ∨ prior.start + prior.length ≠ record.start ∨
        limit < record.length + prior.length then record
    else extendRange limit { record with
      start := prior.start, length := record.length + prior.length } rest

/-- `live_range`.  The map panics on a range that ends before it starts. -/
def Storage.liveRange (object : String) (first : Nat) : Checked (Option LiveRecord) :=
  match snapshotVersion object with
  | none => .ok none
  | some version =>
    match (OrderedMap.lookup version storage.live).filter
        (fun record => record.manifest.stream.object version = object) with
    | none => .ok none
    | some record =>
      if version < first then .error .panic
      else
        let before := (storage.live.filter fun p => first ≤ p.1 ∧ p.1 < version).reverse
        .ok (some (extendRange storage.batchBytes record (before.map Prod.snd)))

/-- `LogStorage::read_range`: the first replica that answers. -/
def Storage.readRange (manifest : Manifest) (start length : Nat) : Option Bytes :=
  match (storage.archive manifest.stream.path).segments.find? (·.manifest = manifest) with
  | none => none
  | some segment => segment.replicas.findSome? fun replica => replica.readRange start length

/-- `live_records`. -/
def Storage.liveRecords (object : String) (first : Nat) : Checked (Option Records) := do
  match ← storage.liveRange object first with
  | none => return none
  | some record =>
    match storage.readRange record.manifest record.start record.length with
    | none => return none
    | some bytes => do
        let (directory, _) ← ofOption "invalid snapshot object" (Text.rsplitOnce '/' object)
        let records ← storage.decodeRecords directory bytes
        ensure (records.lookup object).isSome "live record missing"
        return some records

/-! ## Indexed records -/

/-- The loop of `index_batch`: the entries and the offset after them. -/
def indexEntries : Nat → List Record → List Entry × Nat
  | start, [] => ([], start)
  | start, record :: records =>
    let length := headerLength + record.state.length
    let (entries, stop) := indexEntries (start + length) records
    (⟨record.version, start, length⟩ :: entries, stop)

/-- `index_batch`: the object it writes and its key. -/
def Storage.indexBatch (manifest : Manifest) (batch : BatchKey) (bytes : Bytes) :
    Checked (IndexKey × Index) := do
  let records ← parsed (Log.decode storage.digest bytes)
  let (entries, stop) := indexEntries 0 records
  ensure (stop = bytes.length) "incomplete indexed batch"
  let first ← ofOption "empty indexed batch" entries.head?
  let last ← ofOption "empty indexed batch" entries.getLast?
  return (⟨manifest.stream.path, first.version, last.version, manifest.id⟩, ⟨batch, entries⟩)

/-- `index_segment`: the segment of a key that covers the version. -/
def indexSegment (key : IndexKey) (directory : String) (version : Nat) :
    Checked (Option String) :=
  if key.directory ≠ directory then .ok none
  else if key.last < key.first then .error (.error ["invalid archive index range"])
  else if key.first ≤ version ∧ version ≤ key.last then .ok (some key.segment)
  else .ok none

/-- The loop of `Index::validate`: the entries follow one another. -/
def validateEntries : Nat → Option Nat → List Entry → Checked Nat
  | offset, _, [] => .ok offset
  | offset, previous, entry :: entries => do
      ensure (entry.start = offset ∧ headerLength ≤ entry.length ∧
        entry.length ≤ headerLength + (2 ^ 32 - 1) ∧
        previous.all (fun p => checkedAdd p 1 = some entry.version)) "invalid archive index entry"
      let offset ← ofOption "indexed offset overflow" (checkedAdd offset entry.length)
      validateEntries offset (some entry.version) entries

/-- `Index::validate`. -/
def Index.validate (index : Index) (directory segment : String) : Checked Unit := do
  ensure (index.batch.directory = directory ∧ index.batch.segment = segment)
    "archive index escaped its segment"
  ensure (index.batch.start ≤ index.batch.stop) "invalid indexed batch boundary"
  let offset ← validateEntries 0 none index.records
  ensure (index.records ≠ [] ∧ offset = index.batch.stop - index.batch.start)
    "incomplete archive index"

/-- The loop of `Index::range` over the entries before the last one, newest first. -/
def extendStart (first stop limit : Nat) : Nat → List Entry → Nat
  | start, [] => start
  | start, entry :: entries =>
    if entry.version < first ∨ limit < stop - entry.start then start
    else extendStart first stop limit entry.start entries

/-- `Index::range`.  The versions of a validated index count up, so the binary search
finds the only entry with the version. -/
def Index.range (index : Index) (first version limit : Nat) : Checked (Nat × Nat) :=
  match index.records.findIdx? (·.version = version) with
  | none => .error (.error ["archive index record missing"])
  | some last => do
      let entry ← Checked.index index.records last
      let stop := entry.start + entry.length
      let start := extendStart first stop limit entry.start (index.records.take last).reverse
      return (start, stop - start)

/-- `Bucket::range` on a batch. -/
def Storage.batchRange (key : BatchKey) (start length : Nat) : Option Bytes :=
  match (storage.archive key.directory).segments.find? (·.manifest.id = key.segment) with
  | none => none
  | some segment =>
    match segment.batches.find? (fun batch => batch.start = key.start ∧ batch.stop = key.stop) with
    | none => none
    | some batch =>
      if start + length ≤ batch.bytes.length then some ((batch.bytes.drop start).take length)
      else none

/-- What `read_indexed` does with the first key that covers the version. -/
def Storage.readIndex (object directory segment : String) (first version : Nat)
    (key : IndexKey) : Checked Records := do
  let index ← ofOption "archive index missing"
    ((storage.archive key.directory).indexes.lookup key)
  index.validate (directory ++ "/") segment
  let (start, length) ← index.range first version storage.batchBytes
  let bytes ← ofOption "indexed archive batch missing"
    (storage.batchRange index.batch start length)
  let records ← storage.decodeRecords directory bytes
  ensure (records.lookup object).isSome "indexed record missing"
  return records

/-- The loop of `read_indexed`. -/
def Storage.readKeys (object directory : String) (first version : Nat) :
    List IndexKey → Checked (Option Records)
  | [] => .ok none
  | key :: keys => do
      match ← indexSegment key (directory ++ "/") version with
      | none => Storage.readKeys object directory first version keys
      | some segment => do
          let records ← storage.readIndex object directory segment first version key
          return some records

/-- `read_indexed`. -/
def Storage.readIndexed (object : String) (first : Nat) (keys : List IndexKey) :
    Checked (Option Records) := do
  let version ← ofOption "invalid snapshot version" (snapshotVersion object)
  let (directory, _) ← ofOption "invalid snapshot object" (Text.rsplitOnce '/' object)
  storage.readKeys object directory first version keys

/-- `indexed_records`: an error falls back to the scan. -/
def Storage.indexedRecords (object : String) (first : Nat) (keys : List IndexKey) :
    Option Records :=
  match storage.readIndexed object first keys with
  | .ok records => records
  | .error _ => none

/-! ## The scan -/

/-- What the readers of a segment know of it. -/
def Storage.segmentConfig (segment : StoredSegment) : SegmentConfig where
  digest := storage.digest
  stateVersion bytes := (segment.manifest.stream.snapshot storage.codec bytes).toOption.map
    SnapshotRef.version
  firstVersion := segment.manifest.firstVersion
  installedAt := segment.manifest.firstVersion
  replicas := segment.replicas.length + 1
  batchBytes := storage.batchBytes
  firstVersion_pos := Nat.zero_lt_of_lt segment.manifest.base_lt
  firstVersion_le := Nat.le_succ _
  replicas_pos := Nat.succ_pos _
  batchBytes_pos := storage.batchBytes_pos

/-- What the replicas of a segment answer to a read. -/
def StoredSegment.answers (segment : StoredSegment) : List (Nat × Option Bytes) :=
  segment.replicas.zipIdx.map fun p => (p.2, if p.1.deleted = true then none else some p.1.bytes)

/-- `read_segment`, at one time: the marker is the same when it is read again. -/
def Storage.readSegment (segment : StoredSegment) : Checked (List Record) := do
  let cfg := storage.segmentConfig segment
  let (stop, records) ← parsed (archived cfg segment.batches)
  match segment.replicated with
  | some closed => do
      ensure (closed.validate cfg stop records) "incomplete replicated segment"
      return records
  | none => do
      let rapid ← parsed (joinReplicas cfg segment.answers)
      let merged ← parsed (mergeRecords (records ++ rapid) [])
      return merged.map Prod.snd

/-- `insert` in `reader.rs`. -/
def insertRecord (records : Records) (object : String) (bytes : Bytes) : Checked Records := do
  ensure ((records.lookup object).all (· = bytes)) "conflicting state records"
  return (object, bytes) :: records

/-- The inner loop of `records`. -/
def Storage.insertAll (manifest : Manifest) : List Record → Records → Checked Records
  | [], records => .ok records
  | record :: rest, records => do
      let object := manifest.stream.object record.version
      let reference ← manifest.stream.snapshot storage.codec record.state
      ensure (reference.object = object ∧ manifest.firstVersion ≤ record.version)
        "log record identity mismatch"
      let records ← insertRecord records object record.state
      Storage.insertAll manifest rest records

/-- The outer loop of `records`. -/
def Storage.scan : List StoredSegment → Records → Checked Records
  | [], records => .ok records
  | segment :: segments, records => do
      let found ← storage.readSegment segment
      let records ← storage.insertAll segment.manifest found records
      Storage.scan segments records

/-- `LogStorage::records`. -/
def Storage.records (directory : String) : Checked Records :=
  storage.scan (storage.archive directory).segments []

/-! ## Reading a snapshot -/

/-- `Session::cached` of the session, if there is one. -/
def Storage.cached (object : String) : Option Bytes :=
  (storage.latest.filter (fun latest => latest.1 = object)).map Prod.snd

/-- The live records `get` asks for. -/
def Storage.getLive (object : String) : Checked (Option Records) :=
  match snapshotVersion object with
  | none => .ok none
  | some version => storage.liveRecords object version

/-- The end of `get`: the index objects, then the scan. -/
def Storage.getArchived (object : String) : Checked (Option Bytes) := do
  let (directory, _) ← ofOption "invalid snapshot name" (Text.rsplitOnce '/' object)
  let keys := (storage.archive (directory ++ "/")).indexes.map Prod.fst
  let version ← ofOption "invalid snapshot version" (snapshotVersion object)
  match storage.indexedRecords object version keys with
  | some records => return records.lookup object
  | none => do
      let records ← storage.records (directory ++ "/")
      return records.lookup object

/-- `RapidSnapshots::get`. -/
def Storage.get (object : String) : Checked (Option Bytes) :=
  match storage.cached object with
  | some bytes => .ok (some bytes)
  | none => do
      match ← storage.getLive object with
      | some records => return records.lookup object
      | none =>
        match storage.snapshots.lookup object with
        | some bytes => return some bytes
        | none => storage.getArchived object

/-! ## The latest snapshot -/

/-- `max_by_key` of the version. -/
def newest : List String → Option String
  | [] => none
  | key :: keys =>
    match newest keys with
    | none => some key
    | some best =>
      if (snapshotVersion best).getD 0 < (snapshotVersion key).getD 0 then some key else some best

/-- `BucketSnapshots::latest`. -/
def Storage.latestCopy (path : String) : Option (String × Bytes) := do
  let keys := (storage.snapshots.map Prod.fst).filter fun key =>
    path.toList.isPrefixOf key.toList && (snapshotVersion key).isSome
  let key ← newest keys
  let bytes ← storage.snapshots.lookup key
  return (key, bytes)

/-- The scanned records with the copy, if there is one. -/
def insertCopy (records : Records) : Option (String × Bytes) → Checked Records
  | some (key, bytes) => insertRecord records key bytes
  | none => .ok records

/-- `LogStorage::latest`. -/
def Storage.latestUnder (path : String) : Checked (Option (String × Bytes)) := do
  let records ← storage.records path
  let records ← insertCopy records (storage.latestCopy path)
  return (newest (records.map Prod.fst)).bind fun key =>
    (records.lookup key).map fun bytes => (key, bytes)

/-- `BucketSnapshots::put`: a stored snapshot is never replaced. -/
def Storage.putSnapshot (object : String) (bytes : Bytes) : Storage :=
  match storage.snapshots.lookup object with
  | some _ => storage
  | none => { storage with snapshots := (object, bytes) :: storage.snapshots }

end

end DurableActors.Ports.Rapid
