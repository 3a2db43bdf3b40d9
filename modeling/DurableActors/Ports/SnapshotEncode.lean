import DurableActors.Ports.LogFrame
import DurableActors.Ports.SqliteSnapshot
import DurableActors.Verified.Base64
import DurableActors.Verified.Sha256
import DurableActors.Verified.Text

/-!
# Encoding snapshots

`StateSnapshot::encode` and `binary::encode`: the checks of `validate`, a JSON
header without the LTX data, and the data of the files one after the other.

The JSON writer is a parameter with one law, that the reader gives back what was
written.  `decode_encode` lifts the law to whole objects.
-/

namespace DurableActors.Ports.Sqlite

open Verified
open Verified.Checked
open Verified.LittleEndian
open Log (maxFileBytes)

/-- A codec with writers for the JSON headers.  Writing may fail; what is written
can be read. -/
structure Serde extends Codec where
  writeSnapshot : StateSnapshot → List FileHeader → Except String Bytes
  writeCheckpoint : Checkpoint → List FileHeader → Except String Bytes
  read_snapshot : ∀ {value headers bytes},
    writeSnapshot value headers = .ok bytes → snapshotEnvelope bytes = .ok (value, headers)
  read_checkpoint : ∀ {value headers bytes},
    writeCheckpoint value headers = .ok bytes → checkpointEnvelope bytes = .ok (value, headers)

/-- `FileHeader::new`. -/
def FileHeader.new (file : LtxFile) : FileHeader :=
  ⟨file.level, file.first, file.last, file.data.length⟩

/-- `binary::encode`. -/
def binaryEncode (written : Except String Bytes) (files : List LtxFile) : Checked Bytes := do
  let header ← parsed written
  ensure (header.length < 2 ^ 32) "state header too large"
  let bytes := binaryMagic ++ leBytes 4 header.length ++ header ++ files.flatMap LtxFile.data
  ensure (bytes.length ≤ maxFileBytes) "temporary storage object exceeds 2 GiB"
  return bytes

/-- The snapshot without its files. -/
def StateSnapshot.bare (s : StateSnapshot) : StateSnapshot :=
  { s with sqlite := { s.sqlite with files := [] } }

/-- `StateSnapshot::encode`. -/
def StateSnapshot.encode (serde : Serde) (s : StateSnapshot) : Checked Bytes := do
  s.validate
  binaryEncode (serde.writeSnapshot s.bare (s.sqlite.files.map FileHeader.new)) s.sqlite.files

/-! ## Reading what was written -/

theorem parsed_eq_ok {α : Type} {x : Except String α} {a : α} : parsed x = .ok a ↔ x = .ok a := by
  cases x <;> simp [parsed]

theorem slice_append {α : Type} (before middle after : List α) :
    slice (before ++ (middle ++ after)) before.length (before.length + middle.length) =
      .ok middle := by
  unfold slice
  rw [if_pos ⟨by omega, by simp [List.length_append]⟩]
  simp [List.take_append]

/-- The loop over the headers cuts the data at the right places. -/
theorem sliceFiles_flatMap (files : List LtxFile) (before : Bytes)
    (hlength : (before ++ files.flatMap LtxFile.data).length < 2 ^ 64) :
    sliceFiles (before ++ files.flatMap LtxFile.data) before.length (files.map FileHeader.new) =
      .ok ((before ++ files.flatMap LtxFile.data).length, files) := by
  induction files generalizing before with
  | nil => simp [sliceFiles]
  | cons file files ih =>
    have hstop : (checkedAdd before.length file.data.length).filter
        (· ≤ (before ++ (file :: files).flatMap LtxFile.data).length) =
        some (before.length + file.data.length) := by
      simp only [List.flatMap_cons, List.length_append] at hlength
      have hadd : checkedAdd before.length file.data.length =
          some (before.length + file.data.length) :=
        checkedAdd_eq_some.mpr ⟨rfl, by omega⟩
      rw [hadd]
      simp [Option.filter]
    rw [List.map_cons, sliceFiles]
    refine bind_ok (ofOption_eq_ok.mpr hstop) ?_
    refine bind_ok (a := file.data) ?_ ?_
    · rw [List.flatMap_cons]
      exact slice_append before file.data _
    · have hrest := ih (before ++ file.data) (by simpa [List.append_assoc] using hlength)
      rw [List.length_append, List.append_assoc] at hrest
      rw [List.flatMap_cons]
      exact bind_ok hrest rfl

/-- What `binary::encode` writes, `binary::decode` reads. -/
theorem binaryDecode_encode {α : Type} {envelope : Bytes → Except String (α × List FileHeader)}
    {written : Except String Bytes} {files : List LtxFile} {bytes : Bytes} {value : α}
    (hread : ∀ header, written = .ok header →
      envelope header = .ok (value, files.map FileHeader.new))
    (hencode : binaryEncode written files = .ok bytes) :
    isBinary bytes = true ∧ binaryDecode envelope bytes = .ok (value, files) := by
  unfold binaryEncode at hencode
  obtain ⟨header, hheader, hencode⟩ := bind_eq_ok.mp hencode
  obtain ⟨_, hshort, hencode⟩ := bind_eq_ok.mp hencode
  obtain ⟨_, htotal, hencode⟩ := bind_eq_ok.mp hencode
  obtain rfl := Except.ok.inj hencode
  have hshort : header.length < 2 ^ 32 := of_decide_eq_true (ensure_eq_ok.mp hshort)
  have htotal := of_decide_eq_true (ensure_eq_ok.mp htotal)
  unfold maxFileBytes at htotal
  generalize hdata : files.flatMap LtxFile.data = data at *
  -- the four parts of the object
  have hparts : binaryMagic ++ leBytes 4 header.length ++ header ++ data =
      (binaryMagic ++ leBytes 4 header.length) ++ (header ++ data) := by simp
  have hprefix : (binaryMagic ++ leBytes 4 header.length).length = 8 := by simp [binaryMagic]
  have hlength : (binaryMagic ++ leBytes 4 header.length ++ header ++ data).length =
      8 + header.length + data.length := by
    rw [hparts, List.length_append, hprefix, List.length_append]
    omega
  have hbinary : isBinary (binaryMagic ++ leBytes 4 header.length ++ header ++ data) = true := by
    simp [isBinary, binaryMagic]
  refine ⟨hbinary, ?_⟩
  unfold binaryDecode
  refine ensure_ok (decide_eq_true ⟨hbinary, by omega⟩) ?_
  refine bind_ok (a := leBytes 4 header.length) ?_ ?_
  · have := slice_append binaryMagic (leBytes 4 header.length) (header ++ data)
    simpa [binaryMagic] using this
  rw [fromLe_leBytes 4 header.length (by omega)]
  refine bind_ok (a := 8 + header.length) (ofOption_eq_ok.mpr ?_) ?_
  · have hadd : checkedAdd 8 header.length = some (8 + header.length) :=
      checkedAdd_eq_some.mpr ⟨rfl, by omega⟩
    rw [hadd, hlength]
    simp [Option.filter]
  refine bind_ok (a := header) ?_ ?_
  · rw [hparts, ← hprefix]
    exact slice_append _ header data
  refine bind_ok (parsed_eq_ok.mpr (hread header (parsed_eq_ok.mp hheader))) ?_
  refine bind_ok (a := data) ?_ ?_
  · have hlast := slice_append (binaryMagic ++ leBytes 4 header.length ++ header) data []
    have hstart : (binaryMagic ++ leBytes 4 header.length ++ header).length =
        8 + header.length := by
      rw [List.length_append, hprefix]
    rw [List.append_nil, hstart] at hlast
    rw [hlength]
    exact hlast
  have hslices := sliceFiles_flatMap files [] (by
    rw [List.nil_append, hdata]
    omega)
  rw [List.nil_append, hdata] at hslices
  refine bind_ok hslices ?_
  exact ensure_ok (decide_eq_true rfl) rfl

/-- **Round trip**: an encoded snapshot is decoded to itself. -/
theorem StateSnapshot.decode_encode {serde : Serde} {s : StateSnapshot} {bytes : Bytes}
    (hencode : s.encode serde = .ok bytes) : StateSnapshot.decode serde.toCodec bytes = .ok s := by
  unfold StateSnapshot.encode at hencode
  obtain ⟨u, hvalid, hencode⟩ := bind_eq_ok.mp hencode
  have hread : isBinary bytes = true ∧ binaryDecode serde.snapshotEnvelope bytes =
      .ok (s.bare, s.sqlite.files) :=
    binaryDecode_encode (fun _ h => serde.read_snapshot h) hencode
  obtain ⟨hbinary, hdecode⟩ := hread
  unfold StateSnapshot.decode
  refine bind_ok (a := s) ?_ ?_
  · unfold StateSnapshot.read
    rw [if_pos hbinary]
    refine bind_ok hdecode ?_
    exact ensure_ok rfl rfl
  · exact bind_ok (a := u) (context_eq_ok.mpr hvalid) rfl

/-- An encoded snapshot is valid. -/
theorem StateSnapshot.encode_valid {serde : Serde} {s : StateSnapshot} {bytes : Bytes}
    (hencode : s.encode serde = .ok bytes) : 0 < s.version ∧ s.sqlite.Valid s.version :=
  StateSnapshot.decode_valid (StateSnapshot.decode_encode hencode)

/-! ## The history of a cart

Two snapshots of the actor `alice` of the class `Cart` and a checkpoint of the second,
in the texts that serde writes. -/

/-- `checksum` of `storage/stream.rs`. -/
def checksum (bytes : Bytes) : String := .ofList (Base64.encode (Sha256.hash bytes))

/-- Writes what `read` reads from one of the texts. -/
def writeKnown {α : Type} [DecidableEq α] (read : Bytes → Except String α) (texts : List Bytes)
    (value : α) : Except String Bytes :=
  match texts.find? fun text => (read text).toOption = some value with
  | some text => .ok text
  | none => .error "unknown value"

theorem read_of_writeKnown {α : Type} [DecidableEq α] {read : Bytes → Except String α}
    {texts : List Bytes} {value : α} {bytes : Bytes}
    (h : writeKnown read texts value = .ok bytes) : read bytes = .ok value := by
  unfold writeKnown at h
  split at h
  · rename_i text hfind
    obtain rfl := Except.ok.inj h
    have hread : (read text).toOption = some value :=
      of_decide_eq_true (List.find?_some (p := fun text => (read text).toOption = some value) hfind)
    cases hresult : read text with
    | ok found =>
      rw [hresult] at hread
      rw [Option.some.inj hread]
    | error e =>
      rw [hresult] at hread
      cases hread
  · cases h

/-- The snapshots of epoch one. -/
def cartPath : String :=
  "durable-actors/v3/snapshots/0a/c2hvcA/Q2FydA/YWxpY2U/00000000000000000000000000000001/"

def firstObject : String := cartPath ++ "1.json"

def secondObject : String := cartPath ++ "2.json"

def added (committedAtMs : Nat) : StateAttribution := ⟨"add", none, committedAtMs, false⟩

def firstDigest : String := "BexKxmFx7ToXf3T-ZuRRXAuGqgCMmnfuPGncCLJQOSs"

def secondDigest : String := "rtQZNuGKHVQwuTMMfQk9vzbePEnKhEX9uf0u4EK5fjE"

def firstSnapshot : StateSnapshot :=
  ⟨some (added 1000), 1, 1, "first", ⟨2, none, [⟨0, 1, 2, ltxMagic⟩]⟩, none⟩

def secondSnapshot : StateSnapshot :=
  ⟨some (added 2000), 2, 1, "second",
    ⟨3, some ⟨firstObject, 1, "first", firstDigest⟩, [⟨0, 3, 3, ltxMagic⟩]⟩, some "done"⟩

def secondCheckpoint : Checkpoint :=
  ⟨⟨secondObject, 2, "second", secondDigest⟩, ⟨3, none, []⟩⟩

def firstHeader : Bytes := Text.bytes
  ("\x7b\"value\":\x7b\"attribution\":\x7b\"operation\":\"add\",\"connectionId\":null," ++
    "\"committedAtMs\":1000,\"interleaved\":false\x7d,\"stateVersion\":1,\"ownerEpoch\":1," ++
    "\"requestId\":\"first\",\"sqlite\":\x7b\"txid\":2,\"files\":[]\x7d\x7d," ++
    "\"files\":[\x7b\"level\":0,\"first\":1,\"last\":2,\"bytes\":4\x7d]\x7d")

def secondHeader : Bytes := Text.bytes
  ("\x7b\"value\":\x7b\"attribution\":\x7b\"operation\":\"add\",\"connectionId\":null," ++
    "\"committedAtMs\":2000,\"interleaved\":false\x7d,\"stateVersion\":2,\"ownerEpoch\":1," ++
    "\"requestId\":\"second\",\"sqlite\":\x7b\"txid\":3,\"parent\":\x7b\"object\":\"" ++
    firstObject ++ "\",\"state_version\":1,\"request_id\":\"first\",\"digest\":\"" ++
    firstDigest ++ "\"\x7d,\"files\":[]\x7d," ++
    "\"completion\":\x7b\"result\":\"done\"\x7d\x7d,\"files\":[\x7b\"level\":0,\"first\":3," ++
    "\"last\":3,\"bytes\":4\x7d]\x7d")

def checkpointHeader : Bytes := Text.bytes
  ("\x7b\"value\":\x7b\"source\":\x7b\"object\":\"" ++ secondObject ++
    "\",\"state_version\":2,\"request_id\":\"second\",\"digest\":\"" ++ secondDigest ++ "\"\x7d," ++
    "\"sqlite\":\x7b\"txid\":3,\"files\":[]\x7d\x7d,\"files\":[\x7b\"level\":9,\"first\":1," ++
    "\"last\":3,\"bytes\":4\x7d]\x7d")

/-- The object of a header and one file. -/
def das2 (header : Bytes) : Bytes :=
  binaryMagic ++ leBytes 4 header.length ++ header ++ ltxMagic

def readSnapshot (header : Bytes) : Except String (StateSnapshot × List FileHeader) :=
  if header = firstHeader then
    .ok (firstSnapshot.bare, firstSnapshot.sqlite.files.map FileHeader.new)
  else if header = secondHeader then
    .ok (secondSnapshot.bare, secondSnapshot.sqlite.files.map FileHeader.new)
  else .error "expected value"

def readCheckpoint (header : Bytes) : Except String (Checkpoint × List FileHeader) :=
  if header = checkpointHeader then .ok (secondCheckpoint, [⟨9, 1, 3, 4⟩])
  else .error "expected value"

/-- What serde, SHA-256 and `actor_from_snapshot` answer on this history. -/
def cartSerde : Serde where
  checksum := checksum
  parseSnapshot _ := .error "expected value"
  parseCheckpoint _ := .error "expected value"
  snapshotEnvelope := readSnapshot
  checkpointEnvelope := readCheckpoint
  actorFromSnapshot object :=
    if object = firstObject ∨ object = secondObject then .ok "object.v4.shop:Cart:alice"
    else .error "invalid snapshot root"
  writeSnapshot value headers :=
    writeKnown readSnapshot [firstHeader, secondHeader] (value, headers)
  writeCheckpoint value headers := writeKnown readCheckpoint [checkpointHeader] (value, headers)
  read_snapshot := read_of_writeKnown
  read_checkpoint := read_of_writeKnown

theorem decode_first :
    StateSnapshot.decode cartSerde.toCodec (das2 firstHeader) = .ok firstSnapshot := by
  decide +kernel

theorem decode_second :
    StateSnapshot.decode cartSerde.toCodec (das2 secondHeader) = .ok secondSnapshot := by
  decide +kernel

end DurableActors.Ports.Sqlite
