import DurableActors.Verified.Base64
import DurableActors.Verified.Checked
import DurableActors.Verified.Text

/-!
# Names of an actor's objects

Everything that is stored for an actor is an object whose name is made from the
actor's key.  The owner record and the snapshots have readable paths under
`durable-actors/v3/`; in Rapid storage the path of the actor is replaced by its
SHA-256 digest and the slashes below it by `~`, and the same digest names the
logs of the actor in the buckets of its zones.

The digest is a parameter of the names.
-/

namespace DurableActors.Ports.StoragePaths

open Verified Verified.Checked

/-! ## Actor keys -/

structure ActorKey where
  projectId : String
  actorName : String
  actorId : String
deriving DecidableEq, Repr

def maxActorNameBytes : Nat := 48
def maxActorIdBytes : Nat := 128

def validateComponent (name value : String) (maxBytes : Nat) : Checked Unit := do
  ensure (!value.isEmpty) (name ++ " must not be empty")
  ensure (value.utf8ByteSize ≤ maxBytes)
    (name ++ " must be at most " ++ toString maxBytes ++ " bytes")
  ensure (value.toList.all fun c => c.isAlphanum || c == '-' || c == '_' || c == '.')
    (name ++ " may contain only ASCII letters, digits, '.', '-', and '_'")

/-- `ActorKey::storage_key`. -/
def ActorKey.storageKey (actor : ActorKey) : String :=
  "object.v4." ++ (actor.projectId ++ (":" ++ (actor.actorName ++ (":" ++ actor.actorId))))

/-- `char::is_control`. -/
def isControl (c : Char) : Bool := c.val < 0x20 || (0x7f ≤ c.val && c.val ≤ 0x9f)

/-- `ActorStorageKey::validate`. -/
def validateStorageKey (key : String) : Checked Unit := do
  ensure (!key.isEmpty) "actor storage key must not be empty"
  ensure (key.utf8ByteSize ≤ 255) "actor storage key must be at most 255 bytes"
  ensure (key != "." && key != "..") "actor storage key must not be a relative path component"
  ensure (!key.toList.any fun c => c == '/' || c == '\\' || isControl c)
    "actor storage key must not contain path separators or control characters"

def ActorKey.validate (actor : ActorKey) : Checked Unit := do
  validateComponent "project ID" actor.projectId 64
  validateComponent "actor name" actor.actorName maxActorNameBytes
  validateComponent "actor ID" actor.actorId maxActorIdBytes
  validateStorageKey actor.storageKey

/-- `actor_from_key`. -/
def actorFromKey (key : String) : Checked ActorKey := do
  let relative ← ofOption "invalid actor key" (Text.stripPrefix "object.v4." key)
  match Text.split ':' relative with
  | [project, name, id] =>
    let actor : ActorKey := ⟨project, name, id⟩
    actor.validate
    pure actor
  | _ => .error (.error ["invalid actor identity"])

/-! ## Paths -/

abbrev Digest := Vector UInt8 32

/-- The root of all object names. -/
def root : String := "durable-actors/v3/"

/-- A part of a key in unpadded base 64. -/
def component (value : String) : String := .ofList (Base64.encode (Text.bytes value))

/-- The two errors are those of the base64 and the UTF-8 decoder. -/
def decode (value : String) : Checked String := do
  let bytes ← ofOption "invalid base64" (Base64.decode value.toList)
  ofOption "invalid utf-8" (Text.fromUtf8 bytes)

section Paths

variable (sha256 : List UInt8 → Digest)

/-- The path of an actor below a directory of the root. -/
def actorPath (actor : ActorKey) : String :=
  Text.padded 16 2 (sha256 (Text.bytes actor.storageKey))[0].toNat ++
    ("/" ++ (component actor.projectId ++
      ("/" ++ (component actor.actorName ++ ("/" ++ component actor.actorId)))))

/-- The directory of the snapshots of an actor. -/
def snapshots (actor : ActorKey) : Checked String := do
  actor.validate
  pure (root ++ ("snapshots/" ++ (actorPath sha256 actor ++ "/")))

/-- The name of the owner record of a snapshot. -/
def owner (object : String) : Checked String := do
  let actor ← actorFromKey object
  pure (root ++ ("owners/" ++ (actorPath sha256 actor ++ ".json")))

/-- `actor_from_snapshot`: the key is read back from the path, and the path has
to be the one of that key. -/
def actorFromSnapshot (object : String) : Checked ActorKey := do
  let relative ← ofOption "invalid snapshot root" (Text.stripPrefix root object)
  match Text.split '/' relative with
  | ["snapshots", _, project, name, id, _, _] =>
    let projectId ← decode project
    let actorName ← decode name
    let actorId ← decode id
    let actor : ActorKey := ⟨projectId, actorName, actorId⟩
    actor.validate
    let start ← snapshots sha256 actor
    ensure (start.toList.isPrefixOf object.toList) "snapshot shard mismatch"
    pure actor
  | _ => .error (.error ["invalid snapshot path"])

def isHexDigit (c : Char) : Bool :=
  c.isDigit || ('a' ≤ c && c ≤ 'f') || ('A' ≤ c && c ≤ 'F')

/-- `snapshot_object_name`. -/
def snapshotObjectName (actor : ActorKey) (stateVersion : Nat) (nonce : String) :
    Checked String := do
  actor.validate
  ensure (0 < stateVersion) "actor state version must be positive"
  ensure (nonce.utf8ByteSize = 32 && nonce.toList.all isHexDigit)
    "actor state object nonce is invalid"
  let start ← snapshots sha256 actor
  pure (start ++ (nonce ++ ("/" ++ (toString stateVersion ++ ".json"))))

/-! ## Rapid storage -/

/-- `object_name`: the name in Rapid storage of an object with a snapshot path. -/
def objectName (logical : String) : Checked String := do
  let relative ← ofOption "invalid snapshot root" (Text.stripPrefix (root ++ "snapshots/") logical)
  match Text.splitn 5 '/' relative with
  | [shard, project, name, id, rest] =>
    ensure (!shard.isEmpty && !project.isEmpty && !name.isEmpty && !id.isEmpty)
      "invalid snapshot actor prefix"
    let actor := shard ++ ("/" ++ (project ++ ("/" ++ (name ++ ("/" ++ id)))))
    let hash := sha256 (Text.bytes actor)
    pure ("durable-actors-v3-snapshots-" ++
      (.ofList (Base64.encode hash.toList) ++ ("~" ++ Text.replaceChar '/' '~' rest)))
  | _ => .error (.error ["invalid snapshot actor prefix"])

/-- What the names of the actor's segments start with. -/
def logs (actor : ActorKey) : Checked String := do
  let start ← snapshots sha256 actor
  let name ← objectName sha256 start
  pure (Text.replaceFirst "snapshots-" "logs-" name)

/-- The stream of a session: where its snapshots go. -/
structure StateStream where
  session : String
  namePrefix : String
  ownerEpoch : Nat
  baseVersion : Nat
deriving DecidableEq, Repr

/-- `StateStream::object`. -/
def StateStream.object (stream : StateStream) (version : Nat) : String :=
  stream.namePrefix ++ (toString version ++ ".json")

/-- `Ownership::stream`. -/
def ownershipStream (actor : ActorKey) (epoch : Nat) (session : String) (baseVersion : Nat) :
    Checked StateStream := do
  let name ← snapshotObjectName sha256 actor 1 (Text.padded 16 32 epoch)
  match Text.stripSuffix "1.json" name with
  | some namePrefix => pure ⟨session, namePrefix, epoch, baseVersion⟩
  | none => .error .panic

/-- A segment of the log of a stream. -/
structure Manifest where
  id : String
  stream : StateStream
  firstVersion : Nat
deriving DecidableEq, Repr

/-- The directory of a segment. -/
def Manifest.key (m : Manifest) : Checked String := do
  let name ← objectName sha256 m.stream.namePrefix
  pure (name ++ ("log~" ++ (m.id ++ ".manifest")))

/-- The name of a marker of a segment. -/
def Manifest.marker (m : Manifest) (kind : String) : Checked String := do
  let key ← m.key sha256
  pure (Text.replace ".manifest" ("." ++ kind) key)

/-- The name of the manifest of a segment. -/
def Manifest.object (m : Manifest) : Checked String := do
  let actor ← actorFromSnapshot sha256 (m.stream.object m.firstVersion)
  let start ← logs sha256 actor
  pure (start ++ (m.id ++ ".segment"))

/-- The key in `put_batch`. -/
def Manifest.batchKey (m : Manifest) (start stop : Nat) : Checked String := do
  let key ← m.key sha256
  pure (Text.trimEndMatches ".manifest" key ++
    ("~" ++ (Text.padded 10 20 start ++ ("~" ++ (Text.padded 10 20 stop ++ ".batch")))))

/-- The key in `index_batch`. -/
def Manifest.indexKey (m : Manifest) (first last : Nat) : Checked String := do
  let name ← objectName sha256 m.stream.namePrefix
  pure (name ++ ("index~" ++ (Text.padded 10 20 first ++
    ("~" ++ (Text.padded 10 20 last ++ ("~" ++ (m.id ++ ".idx")))))))

end Paths

/-! ## Valid keys -/

theorem validateComponent_eq_ok {name value : String} {maxBytes : Nat}
    (h : validateComponent name value maxBytes = .ok ()) :
    value.toList ≠ [] ∧
      ∀ c ∈ value.toList, (c.isAlphanum || c == '-' || c == '_' || c == '.') = true := by
  obtain ⟨_, hempty, h⟩ := bind_eq_ok.mp h
  obtain ⟨_, -, hchars⟩ := bind_eq_ok.mp h
  constructor
  · intro hnil
    have hvalue : value = "" := String.toList_eq_nil_iff.mp hnil
    rw [ensure_eq_ok, hvalue] at hempty
    exact absurd hempty (by decide)
  · exact List.all_eq_true.mp (ensure_eq_ok.mp hchars)

/-- What a valid key consists of. -/
structure ActorKey.Valid (actor : ActorKey) : Prop where
  projectId : actor.projectId.toList ≠ [] ∧ ':' ∉ actor.projectId.toList
  actorName : actor.actorName.toList ≠ [] ∧ ':' ∉ actor.actorName.toList
  actorId : actor.actorId.toList ≠ [] ∧ ':' ∉ actor.actorId.toList

theorem ActorKey.valid_of_validate {actor : ActorKey} (h : actor.validate = .ok ()) :
    actor.Valid := by
  have hpart : ∀ {name value : String} {maxBytes : Nat},
      validateComponent name value maxBytes = .ok () →
        value.toList ≠ [] ∧ ':' ∉ value.toList := by
    intro name value maxBytes hvalidate
    obtain ⟨hne, hchars⟩ := validateComponent_eq_ok hvalidate
    exact ⟨hne, fun hmem => absurd (hchars ':' hmem) (by decide)⟩
  obtain ⟨_, hproject, h⟩ := bind_eq_ok.mp h
  obtain ⟨_, hname, h⟩ := bind_eq_ok.mp h
  obtain ⟨_, hid, -⟩ := bind_eq_ok.mp h
  exact ⟨hpart hproject, hpart hname, hpart hid⟩

/-- The storage key of a valid actor names the actor. -/
theorem actorFromKey_storageKey {actor : ActorKey} (h : actor.validate = .ok ()) :
    actorFromKey actor.storageKey = .ok actor := by
  have hvalid := ActorKey.valid_of_validate h
  rw [actorFromKey, ActorKey.storageKey]
  refine bind_ok (ofOption_eq_ok.mpr (Text.stripPrefix_append _ _)) ?_
  rw [Text.split_append rfl hvalid.projectId.2, Text.split_append rfl hvalid.actorName.2,
    Text.split_of_not_mem hvalid.actorId.2]
  exact bind_ok h rfl

/-! ## Parts of a path -/

/-- The separators of names are no digits of base64. -/
theorem separators_not_mem_alphabet :
    '/' ∉ Base64.alphabet ∧ '.' ∉ Base64.alphabet ∧ '~' ∉ Base64.alphabet := by decide +kernel

theorem not_mem_component {c : Char} (hc : c ∉ Base64.alphabet) (value : String) :
    c ∉ (component value).toList := by
  rw [component, String.toList_ofList]
  exact Base64.not_mem_encode hc _

theorem component_inj {value value' : String} (h : component value = component value') :
    value = value' :=
  Text.bytes_inj (Base64.encode_inj (String.ofList_injective h))

theorem component_ne_empty {value : String} (h : value.toList ≠ []) : component value ≠ "" := by
  intro hempty
  have hvalue : value = "" := by
    apply component_inj
    rw [hempty]
    rfl
  exact h (by rw [hvalue]; rfl)

theorem decode_component (value : String) : decode (component value) = .ok value := by
  rw [decode, component, String.toList_ofList, Base64.decode_encode]
  show ofOption "invalid utf-8" (Text.fromUtf8 (Text.bytes value)) = _
  rw [Text.fromUtf8_bytes]
  rfl

theorem not_mem_hex {c : Char} (hc : ∀ d < 16, c ≠ Nat.digitChar d) (width n : Nat) :
    c ∉ (Text.padded 16 width n).toList := by
  intro hmem
  obtain ⟨d, hd, heq⟩ := Text.mem_padded (by decide) hmem
  exact hc d hd heq

/-! ## Where the objects of an actor are -/

/-- The four places an actor's objects are in. -/
inductive Area
  | owner
  | snapshots
  | archive
  | logs
deriving DecidableEq, Repr

section Layout

variable (sha256 : List UInt8 → Digest)

/-- The digest an actor is known by in Rapid storage. -/
def fingerprint (actor : ActorKey) : String :=
  .ofList (Base64.encode (sha256 (Text.bytes (actorPath sha256 actor))).toList)

/-- What the names in an area start with. -/
def Area.head (actor : ActorKey) : Area → String
  | .owner => root ++ ("owners/" ++ (actorPath sha256 actor ++ ".json"))
  | .snapshots => root ++ ("snapshots/" ++ (actorPath sha256 actor ++ "/"))
  | .archive => "durable-actors-v3-snapshots-" ++ (fingerprint sha256 actor ++ "~")
  | .logs => "durable-actors-v3-logs-" ++ (fingerprint sha256 actor ++ "~")

variable {sha256} {actor : ActorKey}

theorem snapshots_eq (h : actor.validate = .ok ()) :
    snapshots sha256 actor = .ok (Area.snapshots.head sha256 actor) := by
  rw [snapshots, h]
  rfl

theorem owner_eq (h : actor.validate = .ok ()) :
    owner sha256 actor.storageKey = .ok (Area.owner.head sha256 actor) := by
  rw [owner, actorFromKey_storageKey h]
  rfl

theorem snapshots_head_append (rest : String) :
    Area.snapshots.head sha256 actor ++ rest = (root ++ "snapshots/") ++
        (Text.padded 16 2 (sha256 (Text.bytes actor.storageKey))[0].toNat ++
          ("/" ++ (component actor.projectId ++ ("/" ++ (component actor.actorName ++
              ("/" ++ (component actor.actorId ++ ("/" ++ rest)))))))) := by
  show (root ++ ("snapshots/" ++ (actorPath sha256 actor ++ "/"))) ++ rest = _
  unfold actorPath
  simp only [String.append_assoc]

theorem slash_not_mem_component (value : String) : '/' ∉ (component value).toList :=
  not_mem_component separators_not_mem_alphabet.1 value

theorem slash_not_mem_hex (width n : Nat) : '/' ∉ (Text.padded 16 width n).toList :=
  not_mem_hex (by decide) width n

/-- The object at a snapshot path is in the archive, under the digest. -/
theorem objectName_below (h : actor.validate = .ok ()) (rest : String) :
    objectName sha256 (Area.snapshots.head sha256 actor ++ rest) =
      .ok (Area.archive.head sha256 actor ++ Text.replaceChar '/' '~' rest) := by
  have hvalid := ActorKey.valid_of_validate h
  rw [objectName, snapshots_head_append]
  refine bind_ok (ofOption_eq_ok.mpr (Text.stripPrefix_append _ _)) ?_
  rw [Text.splitn_append rfl (slash_not_mem_hex _ _),
    Text.splitn_append rfl (slash_not_mem_component _),
    Text.splitn_append rfl (slash_not_mem_component _),
    Text.splitn_append rfl (slash_not_mem_component _), Text.splitn_one]
  have hshard : Text.padded 16 2 (sha256 (Text.bytes actor.storageKey))[0].toNat ≠ "" :=
    fun hempty => Text.padded_ne_nil _ _ _ (String.toList_eq_nil_iff.mpr hempty)
  have hparts : (!(Text.padded 16 2 (sha256 (Text.bytes actor.storageKey))[0].toNat).isEmpty &&
      !(component actor.projectId).isEmpty && !(component actor.actorName).isEmpty &&
      !(component actor.actorId).isEmpty) = true := by
    simp [hshard, component_ne_empty hvalid.projectId.1, component_ne_empty hvalid.actorName.1,
      component_ne_empty hvalid.actorId.1]
  have hname : Area.archive.head sha256 actor ++ Text.replaceChar '/' '~' rest =
      "durable-actors-v3-snapshots-" ++
        (fingerprint sha256 actor ++ ("~" ++ Text.replaceChar '/' '~' rest)) := by
    show "durable-actors-v3-snapshots-" ++ (fingerprint sha256 actor ++ "~") ++ _ = _
    rw [String.append_assoc, String.append_assoc]
  rw [hname]
  exact ensure_ok hparts rfl

theorem replaceFirst_snapshots (rest : String) :
    Text.replaceFirst "snapshots-" "logs-" ("durable-actors-v3-snapshots-" ++ rest) =
      "durable-actors-v3-logs-" ++ rest := by
  rw [← String.toList_inj, Text.replaceFirst, String.toList_ofList, String.toList_append,
    String.toList_append]
  simp [Text.replaceFirstChars]

theorem objectName_snapshots (h : actor.validate = .ok ()) :
    objectName sha256 (Area.snapshots.head sha256 actor) =
      .ok (Area.archive.head sha256 actor) := by
  have hempty : Text.replaceChar '/' '~' "" = "" := rfl
  have hname : objectName sha256 (Area.snapshots.head sha256 actor ++ "") = _ :=
    objectName_below h ""
  rw [hempty, String.append_empty, String.append_empty] at hname
  exact hname

theorem logs_eq (h : actor.validate = .ok ()) :
    logs sha256 actor = .ok (Area.logs.head sha256 actor) := by
  unfold logs
  refine bind_ok (snapshots_eq h) (bind_ok (objectName_snapshots h) ?_)
  exact congrArg Except.ok (replaceFirst_snapshots (fingerprint sha256 actor ++ "~"))

theorem snapshotObjectName_eq_ok {version : Nat} {nonce name : String}
    (hname : snapshotObjectName sha256 actor version nonce = .ok name) :
    (∀ c ∈ nonce.toList, isHexDigit c = true) ∧ name = Area.snapshots.head sha256 actor ++
        (nonce ++ ("/" ++ (toString version ++ ".json"))) := by
  obtain ⟨_, hvalidate, hname⟩ := bind_eq_ok.mp hname
  obtain ⟨_, -, hname⟩ := bind_eq_ok.mp hname
  obtain ⟨_, hnonce, hname⟩ := bind_eq_ok.mp hname
  obtain ⟨start, hstart, hname⟩ := bind_eq_ok.mp hname
  rw [snapshots_eq hvalidate] at hstart
  rw [ensure_eq_ok, Bool.and_eq_true] at hnonce
  constructor
  · exact List.all_eq_true.mp hnonce.2
  · rw [← Except.ok.inj hname, ← Except.ok.inj hstart]

theorem slash_not_mem_file (version : Nat) : '/' ∉ (toString version ++ ".json").toList := by
  rw [String.toList_append, List.mem_append]
  rintro (h | h)
  · exact Text.not_mem_toString (by decide) version h
  · exact absurd h (by decide)

/-- The names of a stream start with the path of its epoch. -/
theorem ownershipStream_eq_ok {epoch baseVersion : Nat} {session : String} {stream : StateStream}
    (hstream : ownershipStream sha256 actor epoch session baseVersion = .ok stream) :
    stream.namePrefix = Area.snapshots.head sha256 actor ++ (Text.padded 16 32 epoch ++ "/") := by
  obtain ⟨name, hname, hstream⟩ := bind_eq_ok.mp hstream
  obtain ⟨-, hname⟩ := snapshotObjectName_eq_ok hname
  have hfile : toString 1 ++ ".json" = "1.json" := by decide
  have hsplit : name =
      Area.snapshots.head sha256 actor ++ (Text.padded 16 32 epoch ++ "/") ++ "1.json" := by
    rw [hname, hfile]
    simp only [String.append_assoc]
  rw [hsplit, Text.stripSuffix_append] at hstream
  rw [← Except.ok.inj hstream]

/-- A snapshot path names its actor. -/
theorem actorFromSnapshot_below (h : actor.validate = .ok ()) {directory file : String}
    (hdirectory : '/' ∉ directory.toList) (hfile : '/' ∉ file.toList) :
    actorFromSnapshot sha256 (Area.snapshots.head sha256 actor ++ (directory ++ ("/" ++ file))) =
      .ok actor := by
  have hpath : Area.snapshots.head sha256 actor ++ (directory ++ ("/" ++ file)) =
      root ++ ("snapshots" ++ ("/" ++
        (Text.padded 16 2 (sha256 (Text.bytes actor.storageKey))[0].toNat ++
          ("/" ++ (component actor.projectId ++
            ("/" ++ (component actor.actorName ++
              ("/" ++ (component actor.actorId ++
                ("/" ++ (directory ++ ("/" ++ file)))))))))))) := by
    have hdirectory : ("snapshots/" : String) = "snapshots" ++ "/" := by decide
    rw [snapshots_head_append, String.append_assoc, hdirectory, String.append_assoc]
  have hstarts : (Area.snapshots.head sha256 actor).toList.isPrefixOf
      (Area.snapshots.head sha256 actor ++ (directory ++ ("/" ++ file))).toList = true := by
    rw [List.isPrefixOf_iff_prefix, String.toList_append]
    exact List.prefix_append _ _
  have hsnapshots : '/' ∉ ("snapshots" : String).toList := by decide
  unfold actorFromSnapshot
  refine bind_ok (ofOption_eq_ok.mpr (by rw [hpath, Text.stripPrefix_append])) ?_
  rw [Text.split_append rfl hsnapshots, Text.split_append rfl (slash_not_mem_hex _ _),
    Text.split_append rfl (slash_not_mem_component _),
    Text.split_append rfl (slash_not_mem_component _),
    Text.split_append rfl (slash_not_mem_component _), Text.split_append rfl hdirectory,
    Text.split_of_not_mem hfile]
  exact bind_ok (decode_component _) (bind_ok (decode_component _)
    (bind_ok (decode_component _) (bind_ok h
      (bind_ok (snapshots_eq h) (ensure_ok hstarts rfl)))))

end Layout

end DurableActors.Ports.StoragePaths
