import DurableActors.Verified.Checked
import DurableActors.Verified.LittleEndian
import DurableActors.Verified.Tiling

/-!
# Stored snapshots of an actor's SQLite database

The types and checks of `state_log.rs`, `litestream/storage.rs` and
`storage/stream.rs`: LTX files with the transactions they cover, the SQLite part
of a snapshot, which either starts at transaction one or names the snapshot it
continues, and the decoders of stored objects.

The JSON codec, the digest and the parser of object names are parameters.
-/

namespace DurableActors.Ports.Sqlite

open Verified
open Verified.Checked
open Verified.LittleEndian

abbrev Bytes := List UInt8

/-! ## LTX files -/

/-- A file of the log: the transactions of a level, and their bytes. -/
structure LtxFile where
  level : Nat
  first : Nat
  last : Nat
  data : Bytes
deriving DecidableEq, Repr

/-- `b"LTX1"`. -/
def ltxMagic : Bytes := [0x4c, 0x54, 0x58, 0x31]

/-- `LtxFile::validate`. -/
def LtxFile.validate (file : LtxFile) : Checked Unit := do
  ensure (file.level = 0 ∨ file.level = 9) "invalid LTX level"
  ensure (0 < file.first ∧ file.first ≤ file.last) "invalid LTX transaction range"
  ensure (file.level ≠ 9 ∨ file.first = 1) "invalid LTX snapshot"
  ensure (ltxMagic.isPrefixOf file.data) "malformed LTX file"

/-- What `validate` accepts. -/
structure LtxFile.Valid (file : LtxFile) : Prop where
  level : file.level = 0 ∨ file.level = 9
  range : 0 < file.first ∧ file.first ≤ file.last
  full : file.level ≠ 9 ∨ file.first = 1
  magic : ltxMagic.isPrefixOf file.data = true

/-! ## References and snapshots -/

/-- A snapshot by its object, with what it must carry. -/
structure SnapshotRef where
  object : String
  version : Nat
  request : String
  digest : String
deriving DecidableEq, Repr

/-- The database of a snapshot, from the one of its parent on. -/
structure SqliteSnapshot where
  txid : Nat
  parent : Option SnapshotRef
  files : List LtxFile
deriving DecidableEq, Repr

/-- One file in the loop of `validate`: the next transaction. -/
def validateFile (next : Nat) (file : LtxFile) : Checked Nat := do
  file.validate
  ensure (file.first = next) "SQLite transaction gap"
  ofOption "SQLite transaction overflow" (checkedAdd file.last 1)

/-- The loop of `validate`. -/
def validateFiles : Nat → List LtxFile → Checked Nat
  | next, [] => .ok next
  | next, file :: files => do
      let next ← validateFile next file
      validateFiles next files

/-- `SqliteSnapshot::validate`. -/
def SqliteSnapshot.validate (s : SqliteSnapshot) (version : Nat) : Checked Unit := do
  ensure (0 < s.txid) "SQLite transaction must be positive"
  let first ← ofOption "SQLite commit has no replication files" s.files.head?
  ensure (decide (first.first = 1) = s.parent.isNone) "SQLite dependency mismatch"
  ensure (s.parent.all fun parent => parent.version < version)
    "SQLite dependency must precede its commit"
  let next ← validateFiles first.first s.files
  ensure (next ≠ 0 ∧ next - 1 = s.txid) "SQLite transaction mismatch"

/-- `StateAttribution`. -/
structure StateAttribution where
  operation : String
  connectionId : Option String
  committedAtMs : Nat
  interleaved : Bool
deriving DecidableEq, Repr

/-- `StateSnapshot`. -/
structure StateSnapshot where
  attribution : Option StateAttribution
  version : Nat
  epoch : Nat
  request : String
  sqlite : SqliteSnapshot
  completion : Option String
deriving DecidableEq, Repr

/-- `StateSnapshot::validate`. -/
def StateSnapshot.validate (s : StateSnapshot) : Checked Unit := do
  ensure (0 < s.version) "actor state version must be positive"
  ensure (0 < s.epoch) "owner epoch must be positive"
  ensure (s.request ≠ "" ∧ s.request.utf8ByteSize ≤ 255) "actor state request ID is invalid"
  s.sqlite.validate s.version

/-! ## Decoding -/

/-- `FileHeader`. -/
structure FileHeader where
  level : Nat
  first : Nat
  last : Nat
  bytes : Nat
deriving DecidableEq, Repr

/-- A `Checkpoint`: a full copy that stands for the history of `source`. -/
structure Checkpoint where
  source : SnapshotRef
  sqlite : SqliteSnapshot
deriving DecidableEq, Repr

/-- What is not modelled: JSON, SHA-256 in base64, and the actor that an object
name belongs to.  The JSON parsers return serde's message as an error; the
legacy format is tried by `parseSnapshot`. -/
structure Codec where
  checksum : Bytes → String
  parseSnapshot : Bytes → Except String StateSnapshot
  parseCheckpoint : Bytes → Except String Checkpoint
  snapshotEnvelope : Bytes → Except String (StateSnapshot × List FileHeader)
  checkpointEnvelope : Bytes → Except String (Checkpoint × List FileHeader)
  actorFromSnapshot : String → Except String String

/-- An error of a parser. -/
def parsed {α : Type} : Except String α → Checked α
  | .ok a => .ok a
  | .error message => .error (.error [message])

/-- `b"DAS2"`. -/
def binaryMagic : Bytes := [0x44, 0x41, 0x53, 0x32]

def isBinary (bytes : Bytes) : Bool := binaryMagic.isPrefixOf bytes

/-- The loop over the file headers in `binary::decode`. -/
def sliceFiles (payload : Bytes) : Nat → List FileHeader → Checked (Nat × List LtxFile)
  | offset, [] => .ok (offset, [])
  | offset, header :: headers => do
      let stop ← ofOption "truncated LTX data"
        ((checkedAdd offset header.bytes).filter (· ≤ payload.length))
      let data ← slice payload offset stop
      let (stop, files) ← sliceFiles payload stop headers
      return (stop, ⟨header.level, header.first, header.last, data⟩ :: files)

/-- `binary::decode`. -/
def binaryDecode {α : Type} (envelope : Bytes → Except String (α × List FileHeader))
    (bytes : Bytes) : Checked (α × List LtxFile) := do
  ensure (isBinary bytes ∧ 8 ≤ bytes.length) "not a binary state object"
  let length ← slice bytes 4 8
  let start ← ofOption "truncated state header"
    ((checkedAdd 8 (fromLe length)).filter (· ≤ bytes.length))
  let header ← slice bytes 8 start
  let (value, headers) ← parsed (envelope header)
  let payload ← slice bytes start bytes.length
  let (offset, files) ← sliceFiles payload 0 headers
  ensure (offset = payload.length) "unexpected bytes after LTX data"
  return (value, files)

section

variable (codec : Codec)

/-- `SnapshotRef::new`. -/
def SnapshotRef.new (object : String) (s : StateSnapshot) (bytes : Bytes) : SnapshotRef :=
  ⟨object, s.version, s.request, codec.checksum bytes⟩

/-- `SnapshotRef::verify`. -/
def SnapshotRef.verify (r : SnapshotRef) (bytes : Bytes) : Checked Unit :=
  ensure (codec.checksum bytes = r.digest) "snapshot checksum mismatch"

/-- The first part of `StateSnapshot::decode`, before the checks. -/
def StateSnapshot.read (bytes : Bytes) : Checked StateSnapshot :=
  if isBinary bytes = true then do
    let (snapshot, files) ← binaryDecode codec.snapshotEnvelope bytes
    ensure snapshot.sqlite.files.isEmpty "duplicate LTX files"
    return { snapshot with sqlite := { snapshot.sqlite with files := files } }
  else parsed (codec.parseSnapshot bytes)

/-- `StateSnapshot::decode`. -/
def StateSnapshot.decode (bytes : Bytes) : Checked StateSnapshot := do
  let snapshot ← StateSnapshot.read codec bytes
  context "decode actor SQLite commit" snapshot.validate
  return snapshot

/-- `StateSnapshot::validate_object`. -/
def StateSnapshot.validateObject (s : StateSnapshot) (object : String) : Checked Unit :=
  match s.sqlite.parent with
  | none => .ok ()
  | some parent => do
      let actor ← parsed (codec.actorFromSnapshot object)
      let other ← parsed (codec.actorFromSnapshot parent.object)
      ensure (actor = other) "SQLite dependency belongs to another actor"

/-- The first part of `Checkpoint::decode`, before the checks. -/
def Checkpoint.read (bytes : Bytes) : Checked Checkpoint :=
  if isBinary bytes = true then do
    let (checkpoint, files) ← binaryDecode codec.checkpointEnvelope bytes
    ensure checkpoint.sqlite.files.isEmpty "duplicate LTX files"
    return { checkpoint with sqlite := { checkpoint.sqlite with files := files } }
  else parsed (codec.parseCheckpoint bytes)

/-- `Checkpoint::decode`. -/
def Checkpoint.decode (bytes : Bytes) (source : SnapshotRef) (txid : Nat) :
    Checked SqliteSnapshot := do
  let checkpoint ← Checkpoint.read codec bytes
  ensure (checkpoint.source = source) "checkpoint source mismatch"
  checkpoint.sqlite.validate source.version
  ensure (checkpoint.sqlite.parent.isNone ∧ checkpoint.sqlite.txid = txid)
    "checkpoint transaction mismatch"
  return checkpoint.sqlite

end

/-! ## What the checks accept -/

/-- The files cover the transactions `a, …, b - 1`. -/
abbrev Contiguous (a : Nat) (files : List LtxFile) (b : Nat) : Prop :=
  Tiles LtxFile.first LtxFile.last a files b

/-- A file that passes its checks and does not end at the last transaction
number there is. -/
def LtxFile.Usable (file : LtxFile) : Prop := file.Valid ∧ file.last + 1 < 2 ^ 64

theorem LtxFile.validate_iff {file : LtxFile} {u : Unit} : file.validate = .ok u ↔ file.Valid := by
  unfold LtxFile.validate
  simp only [bind_eq_ok, ensure_eq_ok, decide_eq_true_eq]
  constructor
  · rintro ⟨-, hlevel, -, hrange, -, hfull, hmagic⟩
    exact ⟨hlevel, hrange, hfull, hmagic⟩
  · intro h
    exact ⟨(), h.level, (), h.range, (), h.full, h.magic⟩

theorem validateFile_iff {next stop : Nat} {file : LtxFile} :
    validateFile next file = .ok stop ↔ file.Usable ∧ file.first = next ∧ file.last + 1 = stop := by
  unfold validateFile LtxFile.Usable
  simp only [bind_eq_ok, LtxFile.validate_iff, ensure_eq_ok, decide_eq_true_eq, ofOption_eq_ok,
    checkedAdd_eq_some]
  constructor
  · rintro ⟨-, hvalid, -, hfirst, hlast, hbound⟩
    exact ⟨⟨hvalid, by omega⟩, hfirst, hlast⟩
  · rintro ⟨⟨hvalid, hbound⟩, hfirst, hlast⟩
    exact ⟨(), hvalid, (), hfirst, hlast, by omega⟩

theorem validateFiles_iff {next stop : Nat} {files : List LtxFile} :
    validateFiles next files = .ok stop ↔
      Contiguous next files stop ∧ ∀ file ∈ files, file.Usable := by
  induction files generalizing next with
  | nil => simp [validateFiles, Contiguous, Tiles]
  | cons file files ih =>
    simp only [validateFiles, bind_eq_ok, validateFile_iff, ih, List.forall_mem_cons]
    constructor
    · rintro ⟨middle, ⟨husable, hfirst, hlast⟩, htiles, hrest⟩
      refine ⟨⟨hfirst, husable.1.range.2, ?_⟩, husable, hrest⟩
      rw [hlast]
      exact htiles
    · rintro ⟨⟨hfirst, -, htiles⟩, husable, hrest⟩
      exact ⟨file.last + 1, ⟨husable, hfirst, rfl⟩, htiles, hrest⟩

/-- What `SqliteSnapshot::validate` accepts: files up to the transaction, which
start at one exactly if there is no parent. -/
structure SqliteSnapshot.Valid (s : SqliteSnapshot) (version : Nat) : Prop where
  positive : 0 < s.txid
  tiles : ∃ first, Contiguous first s.files (s.txid + 1) ∧
    s.files.head?.map LtxFile.first = some first ∧ (first = 1 ↔ s.parent = none)
  usable : ∀ file ∈ s.files, file.Usable
  precedes : ∀ parent, s.parent = some parent → parent.version < version

/-- **The checks of the SQLite part.** -/
theorem SqliteSnapshot.validate_iff {s : SqliteSnapshot} {version : Nat} {u : Unit} :
    s.validate version = .ok u ↔ s.Valid version := by
  unfold SqliteSnapshot.validate
  simp only [bind_eq_ok, ensure_eq_ok, decide_eq_true_eq, ofOption_eq_ok, validateFiles_iff]
  constructor
  · rintro ⟨-, hpos, file, hhead, -, hdep, -, hprec, next, ⟨htiles, husable⟩, hnext, htxid⟩
    have hstop : next = s.txid + 1 := by omega
    constructor
    case positive => exact hpos
    case tiles =>
      refine ⟨file.first, hstop ▸ htiles, by rw [hhead]; rfl, ?_⟩
      rw [← Option.isNone_iff_eq_none, ← hdep]
      exact decide_eq_true_iff.symm
    case usable => exact husable
    case precedes =>
      intro parent hparent
      rw [hparent] at hprec
      exact of_decide_eq_true hprec
  · intro h
    obtain ⟨first, htiles, hfirst, hparent⟩ := h.tiles
    obtain ⟨file, hhead, rfl⟩ := Option.map_eq_some_iff.mp hfirst
    refine ⟨(), h.positive, file, hhead, (), ?_, (), ?_, s.txid + 1, ⟨htiles, h.usable⟩,
      by omega, by omega⟩
    · rw [Bool.eq_iff_iff, decide_eq_true_iff, Option.isNone_iff_eq_none]
      exact hparent
    · cases hp : s.parent with
      | none => rfl
      | some parent => exact decide_eq_true (h.precedes parent hp)

theorem StateSnapshot.validate_sqlite {s : StateSnapshot} {u : Unit}
    (h : s.validate = .ok u) : 0 < s.version ∧ s.sqlite.Valid s.version := by
  unfold StateSnapshot.validate at h
  simp only [bind_eq_ok, ensure_eq_ok, decide_eq_true_eq] at h
  obtain ⟨-, hversion, -, -, -, -, hsqlite⟩ := h
  exact ⟨hversion, SqliteSnapshot.validate_iff.mp hsqlite⟩

/-- A decoded snapshot is valid. -/
theorem StateSnapshot.decode_valid {codec : Codec} {bytes : Bytes} {s : StateSnapshot}
    (h : StateSnapshot.decode codec bytes = .ok s) : 0 < s.version ∧ s.sqlite.Valid s.version := by
  unfold StateSnapshot.decode at h
  obtain ⟨snapshot, -, h⟩ := bind_eq_ok.mp h
  obtain ⟨_, hvalid, h⟩ := bind_eq_ok.mp h
  obtain rfl := Except.ok.inj h
  exact StateSnapshot.validate_sqlite (context_eq_ok.mp hvalid)

/-- A decoded checkpoint is a valid full copy of the transaction asked for. -/
theorem Checkpoint.decode_valid {codec : Codec} {bytes : Bytes} {source : SnapshotRef}
    {txid : Nat} {s : SqliteSnapshot} (h : Checkpoint.decode codec bytes source txid = .ok s) :
    s.Valid source.version ∧ s.parent = none ∧ s.txid = txid := by
  unfold Checkpoint.decode at h
  obtain ⟨checkpoint, -, h⟩ := bind_eq_ok.mp h
  obtain ⟨_, -, h⟩ := bind_eq_ok.mp h
  obtain ⟨_, hvalid, h⟩ := bind_eq_ok.mp h
  obtain ⟨_, hfull, h⟩ := bind_eq_ok.mp h
  obtain rfl := Except.ok.inj h
  obtain ⟨hparent, htxid⟩ := of_decide_eq_true (ensure_eq_ok.mp hfull)
  exact ⟨SqliteSnapshot.validate_iff.mp hvalid, Option.isNone_iff_eq_none.mp hparent, htxid⟩

/-! ## Decoding does not panic -/

theorem safe_parsed {α : Type} (x : Except String α) : Safe (parsed x) := by
  cases x with
  | ok a => exact safe_ok a
  | error message => exact safe_error _

theorem safe_sliceFiles (payload : Bytes) (offset : Nat) (headers : List FileHeader) :
    Safe (sliceFiles payload offset headers) := by
  induction headers generalizing offset with
  | nil => exact safe_ok _
  | cons header headers ih =>
    unfold sliceFiles
    refine safe_bind (safe_ofOption _ _) fun stop hstop => ?_
    -- the slice is within what the header was checked against
    obtain ⟨hadd, hle⟩ := Option.filter_eq_some_iff.mp (ofOption_eq_ok.mp hstop)
    have hoffset := (checkedAdd_eq_some.mp hadd).1
    refine safe_bind (safe_slice (by omega) (of_decide_eq_true hle)) fun data _ => ?_
    exact safe_bind (ih stop) fun _ _ => safe_ok _

theorem safe_binaryDecode {α : Type} (envelope : Bytes → Except String (α × List FileHeader))
    (bytes : Bytes) : Safe (binaryDecode envelope bytes) := by
  unfold binaryDecode
  refine safe_bind (safe_ensure _ _) fun _ hbinary => ?_
  have hlength := (of_decide_eq_true (ensure_eq_ok.mp hbinary)).2
  refine safe_bind (safe_slice (by omega) hlength) fun length _ => ?_
  refine safe_bind (safe_ofOption _ _) fun start hstart => ?_
  obtain ⟨hadd, hle⟩ := Option.filter_eq_some_iff.mp (ofOption_eq_ok.mp hstart)
  have hle : start ≤ bytes.length := of_decide_eq_true hle
  have hstart := (checkedAdd_eq_some.mp hadd).1
  refine safe_bind (safe_slice (by omega) hle) fun header _ => ?_
  refine safe_bind (safe_parsed _) fun envelope _ => ?_
  refine safe_bind (safe_slice hle (Nat.le_refl _)) fun payload _ => ?_
  refine safe_bind (safe_sliceFiles _ _ _) fun _ _ => ?_
  exact safe_bind (safe_ensure _ _) fun _ _ => safe_ok _

theorem LtxFile.safe_validate (file : LtxFile) : Safe file.validate := by
  unfold LtxFile.validate
  refine safe_bind (safe_ensure _ _) fun _ _ => ?_
  refine safe_bind (safe_ensure _ _) fun _ _ => ?_
  refine safe_bind (safe_ensure _ _) fun _ _ => ?_
  exact safe_ensure _ _

theorem safe_validateFiles (next : Nat) (files : List LtxFile) :
    Safe (validateFiles next files) := by
  induction files generalizing next with
  | nil => exact safe_ok _
  | cons file files ih =>
    refine safe_bind ?_ fun next _ => ih next
    refine safe_bind file.safe_validate fun _ _ => ?_
    exact safe_bind (safe_ensure _ _) fun _ _ => safe_ofOption _ _

theorem SqliteSnapshot.safe_validate (s : SqliteSnapshot) (version : Nat) :
    Safe (s.validate version) := by
  unfold SqliteSnapshot.validate
  refine safe_bind (safe_ensure _ _) fun _ _ => ?_
  refine safe_bind (safe_ofOption _ _) fun _ _ => ?_
  refine safe_bind (safe_ensure _ _) fun _ _ => ?_
  refine safe_bind (safe_ensure _ _) fun _ _ => ?_
  exact safe_bind (safe_validateFiles _ _) fun _ _ => safe_ensure _ _

theorem StateSnapshot.safe_decode (codec : Codec) (bytes : Bytes) :
    Safe (StateSnapshot.decode codec bytes) := by
  unfold StateSnapshot.decode
  refine safe_bind ?_ fun snapshot _ => safe_bind (safe_context ?_) fun _ _ => safe_ok _
  · unfold StateSnapshot.read
    split
    · refine safe_bind (safe_binaryDecode _ _) fun _ _ => ?_
      exact safe_bind (safe_ensure _ _) fun _ _ => safe_ok _
    · exact safe_parsed _
  · unfold StateSnapshot.validate
    refine safe_bind (safe_ensure _ _) fun _ _ => ?_
    refine safe_bind (safe_ensure _ _) fun _ _ => ?_
    exact safe_bind (safe_ensure _ _) fun _ _ => snapshot.sqlite.safe_validate _

theorem StateSnapshot.safe_validateObject (codec : Codec) (s : StateSnapshot) (object : String) :
    Safe (s.validateObject codec object) := by
  unfold StateSnapshot.validateObject
  split
  · exact safe_ok _
  · refine safe_bind (safe_parsed _) fun _ _ => ?_
    exact safe_bind (safe_parsed _) fun _ _ => safe_ensure _ _

theorem Checkpoint.safe_decode (codec : Codec) (bytes : Bytes) (source : SnapshotRef)
    (txid : Nat) : Safe (Checkpoint.decode codec bytes source txid) := by
  unfold Checkpoint.decode
  refine safe_bind ?_ fun checkpoint _ => ?_
  · unfold Checkpoint.read
    split
    · refine safe_bind (safe_binaryDecode _ _) fun _ _ => ?_
      exact safe_bind (safe_ensure _ _) fun _ _ => safe_ok _
    · exact safe_parsed _
  · refine safe_bind (safe_ensure _ _) fun _ _ => ?_
    refine safe_bind (checkpoint.sqlite.safe_validate _) fun _ _ => ?_
    exact safe_bind (safe_ensure _ _) fun _ _ => safe_ok _

end DurableActors.Ports.Sqlite
