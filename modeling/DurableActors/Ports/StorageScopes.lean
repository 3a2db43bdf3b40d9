import DurableActors.Ports.StoragePaths
import DurableActors.Verified.Sha256

/-!
# Storage credentials of a host

A host that runs an actor gets two tokens, each confined by rules of a bucket
and a name prefix: one for the actor's owner record and the code it runs, one
for its state.  The rules are computed from the actor's key; the names of the
objects the host writes are computed from the same key, elsewhere.

Every object is in one of four areas, and the names in an area start with the
head of that area for the actor.  `head_isPrefix` shows that the heads of all
areas of all actors are prefix-free, which keeps the objects of other actors out
of every rule; the rules are the heads themselves, which lets the actor's own
objects in.
-/

namespace DurableActors.Ports.StoragePaths

open Verified Verified.Checked

/-! ## Rules -/

inductive Permission
  | objectViewer
  | objectCreator
  | objectUser
deriving DecidableEq, Repr

/-- What a token may do below a prefix of a bucket. -/
structure Rule where
  bucket : String
  namePrefix : String
  permissions : List Permission
deriving DecidableEq, Repr

/-- The rules of the two tokens of a host. -/
structure Scopes where
  ownership : List Rule
  state : List Rule
deriving DecidableEq, Repr

structure RapidBucket where
  bucket : String
  zone : String
deriving DecidableEq, Repr

/-- `SnapshotStoreConfig`, with what the rules depend on. -/
inductive SnapshotStoreConfig
  | local
  | rapid (buckets : List RapidBucket) (archiveBucket : String)
deriving DecidableEq, Repr

structure BundleFile where
  path : String
  object : String
deriving DecidableEq, Repr

/-- The code of an actor, by the digests of its files. -/
structure ActorBundle where
  bucket : String
  files : List BundleFile
deriving DecidableEq, Repr

section Rules

variable (sha256 : List UInt8 → Digest) (parseUuid : String → Bool)

/-- The prefix of the files of a bundle. -/
def artifactPrefix (code : ActorBundle) : Checked String := do
  let artifacts := root ++ "artifacts/"
  let first ← ofOption "code artifact is empty" code.files.head?
  let relative ← ofOption "invalid artifact location" (Text.stripPrefix artifacts first.object)
  let (deployment, _) ← ofOption "artifact deployment missing" (Text.splitOnce '/' relative)
  ensure (parseUuid deployment) "invalid artifact deployment"
  let namePrefix := artifacts ++ (deployment ++ "/")
  ensure (code.files.all fun file => file.object = namePrefix ++ file.path)
    "code files must belong to one artifact deployment"
  pure namePrefix

def stateRules (bucket : String) (persistence : SnapshotStoreConfig) (actor : ActorKey) :
    Checked (List Rule) := do
  let permissions := [Permission.objectViewer, .objectCreator]
  let namePrefix ← snapshots sha256 actor
  match persistence with
  | .local => pure [⟨bucket, namePrefix, permissions⟩]
  | .rapid buckets archiveBucket =>
    let namePrefix ← objectName sha256 namePrefix
    let logs := Text.replaceFirst "snapshots-" "logs-" namePrefix
    pure (⟨archiveBucket, namePrefix, permissions⟩ ::
      buckets.map fun placement => ⟨placement.bucket, logs, [.objectUser]⟩)

/-- `scopes`. -/
def scopes (bucket : String) (persistence : SnapshotStoreConfig)
    (artifactBucket : Option String) (actor : ActorKey) (code : Option ActorBundle) :
    Checked Scopes := do
  let record ← owner sha256 actor.storageKey
  let ownership := ⟨bucket, record, [.objectUser]⟩
  match code with
  | none =>
    let state ← stateRules sha256 bucket persistence actor
    pure ⟨[ownership], state⟩
  | some code =>
    ensure (some code.bucket = artifactBucket) "code artifact belongs to another bucket"
    let artifact ← artifactPrefix parseUuid code
    let state ← stateRules sha256 bucket persistence actor
    pure ⟨[ownership, ⟨code.bucket, artifact, [.objectViewer]⟩], state⟩

end Rules

/-! ## Objects -/

/-- The objects that are stored for an actor.  A log is known by the epoch of
its stream, its first version and its identifier. -/
inductive Object
  | owner
  | snapshot (version : Nat) (nonce : String)
  | checkpoint (version : Nat) (nonce : String)
  | archivedSnapshot (version : Nat) (nonce : String)
  | archivedCheckpoint (version : Nat) (nonce : String)
  | manifest (epoch firstVersion : Nat) (id : String)
  | marker (epoch firstVersion : Nat) (id kind : String)
  | batch (epoch firstVersion : Nat) (id : String) (start stop : Nat)
  | index (epoch firstVersion : Nat) (id : String) (first last : Nat)
  | segment (epoch firstVersion : Nat) (id : String)
  | prepared (id : String)
deriving DecidableEq, Repr

/-- The area an object is in. -/
def Object.area : Object → Area
  | .owner => .owner
  | .snapshot _ _ | .checkpoint _ _ => .snapshots
  | .archivedSnapshot _ _ | .archivedCheckpoint _ _ | .manifest _ _ _ | .marker _ _ _ _
  | .batch _ _ _ _ _ | .index _ _ _ _ _ => .archive
  | .segment _ _ _ | .prepared _ => .logs

/-- The buckets the objects of an area are stored in. -/
def Area.buckets (bucket : String) : SnapshotStoreConfig → Area → List String
  | _, .owner => [bucket]
  | .local, .snapshots => [bucket]
  | .rapid _ archiveBucket, .archive => [archiveBucket]
  | .rapid buckets _, .logs => buckets.map (·.bucket)
  | _, _ => []

section Names

variable (sha256 : List UInt8 → Digest)

/-- The manifest of a log in a stream of the actor. -/
def manifestOf (actor : ActorKey) (epoch firstVersion : Nat) (id : String) :
    Checked Manifest := do
  let stream ← ownershipStream sha256 actor epoch "" 0
  pure ⟨id, stream, firstVersion⟩

/-- The name of an object: `StateStream::object` and `{object}.checkpoint` for
snapshots, mapped by `object_name` in Rapid storage, and the keys made from a
manifest. -/
def Object.name (actor : ActorKey) : Object → Checked String
  | .owner => StoragePaths.owner sha256 actor.storageKey
  | .snapshot version nonce => snapshotObjectName sha256 actor version nonce
  | .checkpoint version nonce => do
      let object ← snapshotObjectName sha256 actor version nonce
      pure (object ++ ".checkpoint")
  | .archivedSnapshot version nonce => do
      let object ← snapshotObjectName sha256 actor version nonce
      objectName sha256 object
  | .archivedCheckpoint version nonce => do
      let object ← snapshotObjectName sha256 actor version nonce
      objectName sha256 (object ++ ".checkpoint")
  | .manifest epoch firstVersion id => do
      let m ← manifestOf sha256 actor epoch firstVersion id
      m.key sha256
  | .marker epoch firstVersion id kind => do
      let m ← manifestOf sha256 actor epoch firstVersion id
      m.marker sha256 kind
  | .batch epoch firstVersion id start stop => do
      let m ← manifestOf sha256 actor epoch firstVersion id
      m.batchKey sha256 start stop
  | .index epoch firstVersion id first last => do
      let m ← manifestOf sha256 actor epoch firstVersion id
      m.indexKey sha256 first last
  | .segment epoch firstVersion id => do
      let m ← manifestOf sha256 actor epoch firstVersion id
      m.object sha256
  | .prepared id => do
      let start ← logs sha256 actor
      pure (start ++ (id ++ ".segment"))

end Names

/-! ## Names start with the head of their area -/

section Heads

variable {sha256 : List UInt8 → Digest} {actor : ActorKey}

theorem dot_not_mem_archive : '.' ∉ (Area.archive.head sha256 actor).toList := by
  have hdigest : '.' ∉ (fingerprint sha256 actor).toList := by
    rw [fingerprint, String.toList_ofList]
    exact Base64.not_mem_encode separators_not_mem_alphabet.2.1 _
  show '.' ∉ ("durable-actors-v3-snapshots-" ++ (fingerprint sha256 actor ++ "~")).toList
  rw [String.toList_append, String.toList_append, List.mem_append, List.mem_append]
  rintro (h | h | h)
  · exact absurd h (by decide)
  · exact hdigest h
  · exact absurd h (by decide)

theorem manifestOf_eq_ok {epoch firstVersion : Nat} {id : String} {m : Manifest}
    (hm : manifestOf sha256 actor epoch firstVersion id = .ok m) :
    m.firstVersion = firstVersion ∧ m.stream.namePrefix =
      Area.snapshots.head sha256 actor ++ (Text.padded 16 32 epoch ++ "/") := by
  obtain ⟨stream, hstream, hm⟩ := bind_eq_ok.mp hm
  rw [← Except.ok.inj hm]
  exact ⟨rfl, ownershipStream_eq_ok hstream⟩

theorem Manifest.key_head (h : actor.validate = .ok ()) {epoch firstVersion : Nat} {id : String}
    {m : Manifest} (hm : manifestOf sha256 actor epoch firstVersion id = .ok m) {key : String}
    (hkey : m.key sha256 = .ok key) : ∃ rest, key = Area.archive.head sha256 actor ++ rest := by
  obtain ⟨name, hname, hkey⟩ := bind_eq_ok.mp hkey
  rw [(manifestOf_eq_ok hm).2, objectName_below h] at hname
  rw [← Except.ok.inj hkey, ← Except.ok.inj hname, String.append_assoc]
  exact ⟨_, rfl⟩

/-- The log of an actor's manifest is the actor's. -/
theorem Manifest.object_head (h : actor.validate = .ok ()) {epoch firstVersion : Nat}
    {id : String} {m : Manifest} (hm : manifestOf sha256 actor epoch firstVersion id = .ok m)
    {name : String} (hname : m.object sha256 = .ok name) :
    ∃ rest, name = Area.logs.head sha256 actor ++ rest := by
  obtain ⟨owner, howner, hname⟩ := bind_eq_ok.mp hname
  obtain ⟨start, hstart, hname⟩ := bind_eq_ok.mp hname
  have hobject : m.stream.object m.firstVersion = Area.snapshots.head sha256 actor ++
      (Text.padded 16 32 epoch ++ ("/" ++ (toString m.firstVersion ++ ".json"))) := by
    rw [StateStream.object, (manifestOf_eq_ok hm).2]
    simp only [String.append_assoc]
  rw [hobject, actorFromSnapshot_below h (slash_not_mem_hex _ _) (slash_not_mem_file _)] at howner
  rw [← Except.ok.inj howner, logs_eq h] at hstart
  rw [← Except.ok.inj hname, ← Except.ok.inj hstart]
  exact ⟨_, rfl⟩

/-- Every name of an actor starts with the head of the object's area. -/
theorem Object.name_head (h : actor.validate = .ok ()) {object : Object} {name : String}
    (hname : object.name sha256 actor = .ok name) :
    ∃ rest, name = object.area.head sha256 actor ++ rest := by
  cases object with
  | owner =>
    refine ⟨"", ?_⟩
    rw [String.append_empty]
    exact Except.ok.inj (hname.symm.trans (owner_eq h))
  | snapshot version nonce => exact ⟨_, (snapshotObjectName_eq_ok hname).2⟩
  | checkpoint version nonce =>
    obtain ⟨object, hobject, hname⟩ := bind_eq_ok.mp hname
    rw [← Except.ok.inj hname, (snapshotObjectName_eq_ok hobject).2, String.append_assoc]
    exact ⟨_, rfl⟩
  | archivedSnapshot version nonce =>
    obtain ⟨object, hobject, hname⟩ := bind_eq_ok.mp hname
    rw [(snapshotObjectName_eq_ok hobject).2, objectName_below h] at hname
    exact ⟨_, (Except.ok.inj hname).symm⟩
  | archivedCheckpoint version nonce =>
    obtain ⟨object, hobject, hname⟩ := bind_eq_ok.mp hname
    rw [(snapshotObjectName_eq_ok hobject).2, String.append_assoc, objectName_below h] at hname
    exact ⟨_, (Except.ok.inj hname).symm⟩
  | manifest epoch firstVersion id =>
    obtain ⟨m, hm, hname⟩ := bind_eq_ok.mp hname
    exact m.key_head h hm hname
  | marker epoch firstVersion id kind =>
    obtain ⟨m, hm, hname⟩ := bind_eq_ok.mp hname
    obtain ⟨key, hkey, hname⟩ := bind_eq_ok.mp hname
    obtain ⟨rest, hrest⟩ := m.key_head h hm hkey
    rw [← Except.ok.inj hname, hrest, Text.replace_append rfl _ dot_not_mem_archive]
    exact ⟨_, rfl⟩
  | batch epoch firstVersion id start stop =>
    obtain ⟨m, hm, hname⟩ := bind_eq_ok.mp hname
    obtain ⟨key, hkey, hname⟩ := bind_eq_ok.mp hname
    obtain ⟨rest, hrest⟩ := m.key_head h hm hkey
    have hpattern : (".manifest" : String).toList = '.' :: "manifest".toList := rfl
    obtain ⟨trimmed, htrimmed⟩ := Text.trimEndMatches_append hpattern dot_not_mem_archive rest
    rw [← Except.ok.inj hname, hrest, htrimmed, String.append_assoc]
    exact ⟨_, rfl⟩
  | index epoch firstVersion id first last =>
    obtain ⟨m, hm, hname⟩ := bind_eq_ok.mp hname
    obtain ⟨start, hstart, hname⟩ := bind_eq_ok.mp hname
    rw [(manifestOf_eq_ok hm).2, objectName_below h] at hstart
    rw [← Except.ok.inj hname, ← Except.ok.inj hstart, String.append_assoc]
    exact ⟨_, rfl⟩
  | segment epoch firstVersion id =>
    obtain ⟨m, hm, hname⟩ := bind_eq_ok.mp hname
    exact m.object_head h hm hname
  | prepared id =>
    obtain ⟨start, hstart, hname⟩ := bind_eq_ok.mp hname
    rw [logs_eq h] at hstart
    rw [← Except.ok.inj hname, ← Except.ok.inj hstart]
    exact ⟨_, rfl⟩

end Heads

/-! ## The heads are prefix-free -/

section PrefixFree

variable {sha256 : List UInt8 → Digest} {a b : ActorKey}

/-- A path followed by a character that is not in the alphabet determines the actor. -/
theorem eq_of_actorPath_isPrefix {c : Char} (hc : c ∉ Base64.alphabet) {s t : List Char}
    (h : (actorPath sha256 a).toList ++ c :: s <+: (actorPath sha256 b).toList ++ c :: t) :
    a = b := by
  simp only [actorPath, Text.toList_separated (show ("/" : String).toList = ['/'] from rfl),
    List.append_assoc, List.cons_append] at h
  obtain ⟨-, h⟩ := Text.eq_of_separated_isPrefix (slash_not_mem_hex _ _) (slash_not_mem_hex _ _) h
  obtain ⟨hproject, h⟩ := Text.eq_of_separated_isPrefix (slash_not_mem_component _)
    (slash_not_mem_component _) h
  obtain ⟨hname, h⟩ := Text.eq_of_separated_isPrefix (slash_not_mem_component _)
    (slash_not_mem_component _) h
  obtain ⟨hid, -⟩ := Text.eq_of_separated_isPrefix (not_mem_component hc _)
    (not_mem_component hc _) h
  cases a
  cases b
  rw [ActorKey.mk.injEq]
  exact ⟨component_inj (String.toList_inj.mp hproject),
    component_inj (String.toList_inj.mp hname), component_inj (String.toList_inj.mp hid)⟩

theorem actorPath_inj (h : actorPath sha256 a = actorPath sha256 b) : a = b := by
  have hpath : (actorPath sha256 a).toList ++ ['/'] <+: (actorPath sha256 b).toList ++ ['/'] :=
    h ▸ List.prefix_rfl
  exact eq_of_actorPath_isPrefix separators_not_mem_alphabet.1 hpath

/-- Two actor paths have different digests if they are different. -/
def NoCollision (sha256 : List UInt8 → Digest) (a b : ActorKey) : Prop :=
  sha256 (Text.bytes (actorPath sha256 a)) = sha256 (Text.bytes (actorPath sha256 b)) →
    actorPath sha256 a = actorPath sha256 b

theorem eq_of_fingerprint_isPrefix (hsha : NoCollision sha256 a b) {s t : List Char}
    (h : (fingerprint sha256 a).toList ++ '~' :: s <+: (fingerprint sha256 b).toList ++ '~' :: t) :
    a = b := by
  have htilde : ∀ actor, '~' ∉ (fingerprint sha256 actor).toList := by
    intro actor
    rw [fingerprint, String.toList_ofList]
    exact Base64.not_mem_encode separators_not_mem_alphabet.2.2 _
  obtain ⟨hdigest, -⟩ := Text.eq_of_separated_isPrefix (htilde a) (htilde b) h
  rw [fingerprint, fingerprint, String.toList_ofList, String.toList_ofList] at hdigest
  exact actorPath_inj (hsha (Vector.toList_inj.mp (Base64.encode_inj hdigest)))

/-- The part of a head that is the same for every actor. -/
def Area.directory : Area → List Char
  | .owner => "durable-actors/v3/owners/".toList
  | .snapshots => "durable-actors/v3/snapshots/".toList
  | .archive => "durable-actors-v3-snapshots-".toList
  | .logs => "durable-actors-v3-logs-".toList

theorem directory_isPrefix {x y : Area} (h : x.directory <+: y.directory) : x = y := by
  cases x <;> cases y <;> first | rfl | exact absurd h (by decide)

theorem directory_not_artifacts (x : Area) :
    ¬ x.directory <+: "durable-actors/v3/artifacts/".toList ∧
      ¬ "durable-actors/v3/artifacts/".toList <+: x.directory := by
  cases x <;> decide

/-- The part of a head that is the actor's own. -/
def Area.own (sha256 : List UInt8 → Digest) (actor : ActorKey) : Area → List Char
  | .owner => (actorPath sha256 actor).toList ++ '.' :: "json".toList
  | .snapshots => (actorPath sha256 actor).toList ++ ['/']
  | .archive | .logs => (fingerprint sha256 actor).toList ++ ['~']

theorem toList_head (x : Area) : (x.head sha256 a).toList = x.directory ++ x.own sha256 a := by
  cases x with
  | owner =>
    have hdirectory : (root ++ "owners/").toList = Area.owner.directory := by decide
    show (root ++ ("owners/" ++ (actorPath sha256 a ++ ".json"))).toList = _
    rw [← String.append_assoc, String.toList_append, hdirectory, String.toList_append]
    rfl
  | snapshots =>
    have hdirectory : (root ++ "snapshots/").toList = Area.snapshots.directory := by decide
    show (root ++ ("snapshots/" ++ (actorPath sha256 a ++ "/"))).toList = _
    rw [← String.append_assoc, String.toList_append, hdirectory, String.toList_append]
    rfl
  | archive =>
    show ("durable-actors-v3-snapshots-" ++ (fingerprint sha256 a ++ "~")).toList = _
    simp only [String.toList_append]
    rfl
  | logs =>
    show ("durable-actors-v3-logs-" ++ (fingerprint sha256 a ++ "~")).toList = _
    simp only [String.toList_append]
    rfl

theorem own_isPrefix (hsha : NoCollision sha256 a b) {x : Area}
    (h : x.own sha256 a <+: x.own sha256 b) : a = b := by
  cases x with
  | owner => exact eq_of_actorPath_isPrefix separators_not_mem_alphabet.2.1 h
  | snapshots => exact eq_of_actorPath_isPrefix separators_not_mem_alphabet.1 h
  | archive => exact eq_of_fingerprint_isPrefix hsha h
  | logs => exact eq_of_fingerprint_isPrefix hsha h

/-- A name that starts with the heads of two areas is in one area of one actor. -/
theorem head_unique (hsha : NoCollision sha256 a b) {x y : Area} {name : List Char}
    (hx : (x.head sha256 a).toList <+: name) (hy : (y.head sha256 b).toList <+: name) : a = b := by
  rw [toList_head] at hx hy
  have hxy : x = y := by
    have hxd := (List.prefix_append _ _).trans hx
    have hyd := (List.prefix_append _ _).trans hy
    rcases List.prefix_or_prefix_of_prefix hxd hyd with h | h
    · exact directory_isPrefix h
    · exact (directory_isPrefix h).symm
  subst hxy
  rcases List.prefix_or_prefix_of_prefix hx hy with h | h
  · exact own_isPrefix hsha ((List.prefix_append_right_inj _).mp h)
  · exact (own_isPrefix (fun heq => (hsha heq.symm).symm)
      ((List.prefix_append_right_inj _).mp h)).symm

theorem artifacts_not_isPrefix {x : Area} {deployment : String} {name : List Char}
    (hname : (x.head sha256 b).toList <+: name) :
    ¬ (root ++ "artifacts/" ++ deployment).toList <+: name := by
  intro hartifacts
  have hxd : x.directory <+: name := by
    rw [toList_head] at hname
    exact (List.prefix_append _ _).trans hname
  have hart : "durable-actors/v3/artifacts/".toList <+: name := by
    rw [String.toList_append] at hartifacts
    exact (List.prefix_append _ _).trans hartifacts
  rcases List.prefix_or_prefix_of_prefix hxd hart with h | h
  · exact (directory_not_artifacts x).1 h
  · exact (directory_not_artifacts x).2 h

end PrefixFree

/-! ## Confinement -/

section Confinement

variable {sha256 : List UInt8 → Digest} {parseUuid : String → Bool} {a b : ActorKey}
  {bucket : String} {persistence : SnapshotStoreConfig} {artifactBucket : Option String}
  {code : Option ActorBundle} {granted : Scopes}

theorem artifactPrefix_eq_ok {code : ActorBundle} {namePrefix : String}
    (h : artifactPrefix parseUuid code = .ok namePrefix) :
    ∃ deployment, namePrefix = root ++ "artifacts/" ++ deployment := by
  obtain ⟨first, -, h⟩ := bind_eq_ok.mp h
  obtain ⟨relative, -, h⟩ := bind_eq_ok.mp h
  obtain ⟨⟨deployment, _⟩, -, h⟩ := bind_eq_ok.mp h
  obtain ⟨_, -, h⟩ := bind_eq_ok.mp h
  obtain ⟨_, -, h⟩ := bind_eq_ok.mp h
  exact ⟨deployment ++ "/", (Except.ok.inj h).symm⟩

theorem stateRules_local (ha : a.validate = .ok ()) :
    stateRules sha256 bucket .local a =
      .ok [⟨bucket, Area.snapshots.head sha256 a, [.objectViewer, .objectCreator]⟩] := by
  unfold stateRules
  exact bind_ok (snapshots_eq ha) rfl

theorem stateRules_rapid (ha : a.validate = .ok ()) (buckets : List RapidBucket)
    (archiveBucket : String) :
    stateRules sha256 bucket (.rapid buckets archiveBucket) a =
      .ok (⟨archiveBucket, Area.archive.head sha256 a, [.objectViewer, .objectCreator]⟩ ::
        buckets.map fun placement =>
          ⟨placement.bucket, Area.logs.head sha256 a, [.objectUser]⟩) := by
  have hlogs : Text.replaceFirst "snapshots-" "logs-" (Area.archive.head sha256 a) =
      Area.logs.head sha256 a := replaceFirst_snapshots (fingerprint sha256 a ++ "~")
  unfold stateRules
  refine bind_ok (snapshots_eq ha) (bind_ok (objectName_snapshots ha) ?_)
  rw [hlogs]
  rfl

/-- Each rule for the state is the head of an area. -/
theorem head_of_mem_stateRules (ha : a.validate = .ok ()) {rules : List Rule}
    (hrules : stateRules sha256 bucket persistence a = .ok rules) {rule : Rule}
    (hrule : rule ∈ rules) : ∃ area : Area, rule.namePrefix = area.head sha256 a := by
  cases persistence with
  | «local» =>
    rw [stateRules_local ha] at hrules
    rw [← Except.ok.inj hrules, List.mem_singleton] at hrule
    exact ⟨.snapshots, by rw [hrule]⟩
  | rapid buckets archiveBucket =>
    rw [stateRules_rapid ha] at hrules
    rw [← Except.ok.inj hrules, List.mem_cons, List.mem_map] at hrule
    rcases hrule with hrule | ⟨placement, -, hrule⟩
    · exact ⟨.archive, by rw [hrule]⟩
    · exact ⟨.logs, by rw [← hrule]⟩

/-- Each area with state has a rule in every bucket it is stored in. -/
theorem exists_mem_stateRules (ha : a.validate = .ok ()) {rules : List Rule}
    (hrules : stateRules sha256 bucket persistence a = .ok rules) {area : Area}
    (harea : area ≠ .owner) {stored : String} (hstored : stored ∈ area.buckets bucket persistence) :
    ∃ rule ∈ rules, rule.bucket = stored ∧ rule.namePrefix = area.head sha256 a := by
  cases persistence with
  | «local» =>
    rw [stateRules_local ha] at hrules
    rw [← Except.ok.inj hrules]
    cases area with
    | owner => exact absurd rfl harea
    | snapshots => exact ⟨_, List.mem_singleton_self _, (List.mem_singleton.mp hstored).symm, rfl⟩
    | archive => cases hstored
    | logs => cases hstored
  | rapid buckets archiveBucket =>
    rw [stateRules_rapid ha] at hrules
    rw [← Except.ok.inj hrules]
    cases area with
    | owner => exact absurd rfl harea
    | snapshots => cases hstored
    | archive => exact ⟨_, List.mem_cons_self, (List.mem_singleton.mp hstored).symm, rfl⟩
    | logs =>
      obtain ⟨placement, hplacement, rfl⟩ := List.mem_map.mp hstored
      exact ⟨_, List.mem_cons_of_mem _ (List.mem_map_of_mem hplacement), rfl, rfl⟩

/-- What the two tokens give access to. -/
theorem scopes_eq_ok (ha : a.validate = .ok ())
    (hscopes : scopes sha256 parseUuid bucket persistence artifactBucket a code = .ok granted) :
    stateRules sha256 bucket persistence a = .ok granted.state ∧
      ⟨bucket, Area.owner.head sha256 a, [.objectUser]⟩ ∈ granted.ownership ∧
      ∀ rule ∈ granted.ownership, rule.namePrefix = Area.owner.head sha256 a ∨
        ∃ deployment, rule.namePrefix = root ++ "artifacts/" ++ deployment := by
  obtain ⟨record, hrecord, hscopes⟩ := bind_eq_ok.mp hscopes
  rw [owner_eq ha] at hrecord
  rw [← Except.ok.inj hrecord] at hscopes
  cases code with
  | none =>
    obtain ⟨state, hstate, hscopes⟩ := bind_eq_ok.mp hscopes
    rw [← Except.ok.inj hscopes]
    refine ⟨hstate, List.mem_singleton_self _, fun rule hrule => .inl ?_⟩
    rw [List.mem_singleton.mp hrule]
  | some code =>
    obtain ⟨_, -, hscopes⟩ := bind_eq_ok.mp hscopes
    obtain ⟨artifact, hartifact, hscopes⟩ := bind_eq_ok.mp hscopes
    obtain ⟨state, hstate, hscopes⟩ := bind_eq_ok.mp hscopes
    rw [← Except.ok.inj hscopes]
    refine ⟨hstate, List.mem_cons_self, fun rule hrule => ?_⟩
    rcases List.mem_cons.mp hrule with hrule | hrule
    · exact .inl (by rw [hrule])
    · exact .inr (by rw [List.mem_singleton.mp hrule]; exact artifactPrefix_eq_ok hartifact)

/-- **Credentials are confined to one actor**: no name of another actor starts
with the prefix of a rule, whatever the buckets are, and every name of the actor
itself starts with the prefix of a rule for each bucket it is stored in. -/
theorem scopes_confine_to_actor (ha : a.validate = .ok ()) (hb : b.validate = .ok ())
    (hne : a ≠ b) (hsha : NoCollision sha256 a b)
    (hscopes : scopes sha256 parseUuid bucket persistence artifactBucket a code = .ok granted) :
    (∀ (object : Object) (name : String), object.name sha256 b = .ok name →
      ∀ rule ∈ granted.ownership ++ granted.state, ¬ rule.namePrefix.toList <+: name.toList) ∧
    (∀ (object : Object) (name : String), object.name sha256 a = .ok name →
      ∀ stored ∈ object.area.buckets bucket persistence,
        ∃ rule ∈ granted.ownership ++ granted.state,
          rule.bucket = stored ∧ rule.namePrefix.toList <+: name.toList) := by
  obtain ⟨hstate, howner, hownership⟩ := scopes_eq_ok ha hscopes
  constructor
  · intro object name hname rule hrule hstarts
    obtain ⟨rest, rfl⟩ := object.name_head hb hname
    have hhead : (object.area.head sha256 b).toList <+:
        (object.area.head sha256 b ++ rest).toList := by
      rw [String.toList_append]
      exact List.prefix_append _ _
    have hother : ∀ area : Area, rule.namePrefix ≠ area.head sha256 a := by
      intro area harea
      rw [harea] at hstarts
      exact hne (head_unique hsha hstarts hhead)
    rcases List.mem_append.mp hrule with hrule | hrule
    · rcases hownership rule hrule with howned | ⟨deployment, hartifact⟩
      · exact hother .owner howned
      · rw [hartifact] at hstarts
        exact artifacts_not_isPrefix hhead hstarts
    · obtain ⟨area, harea⟩ := head_of_mem_stateRules ha hstate hrule
      exact hother area harea
  · intro object name hname stored hstored
    obtain ⟨rest, rfl⟩ := object.name_head ha hname
    have hhead : (object.area.head sha256 a).toList <+:
        (object.area.head sha256 a ++ rest).toList := by
      rw [String.toList_append]
      exact List.prefix_append _ _
    by_cases harea : object.area = .owner
    · rw [harea] at hstored hhead
      have hbucket : stored = bucket := by
        cases persistence <;> exact List.mem_singleton.mp hstored
      exact ⟨_, List.mem_append_left _ howner, hbucket.symm, by rw [harea]; exact hhead⟩
    · obtain ⟨rule, hrule, hbucket, hstarts⟩ := exists_mem_stateRules ha hstate harea hstored
      exact ⟨rule, List.mem_append_right _ hrule, hbucket, by rw [hstarts]; exact hhead⟩

end Confinement

/-! SHA-256 separates two actors of one class. -/

def hashed (bytes : List UInt8) : Digest := ⟨⟨Sha256.hash bytes⟩, Sha256.length_hash bytes⟩

def alice : ActorKey := ⟨"shop", "Cart", "alice"⟩
def bob : ActorKey := ⟨"shop", "Cart", "bob"⟩

theorem alice_valid : alice.validate = .ok () := by decide +kernel
theorem bob_valid : bob.validate = .ok () := by decide +kernel

theorem hashed_noCollision : NoCollision hashed alice bob := by
  have hne : hashed (Text.bytes (actorPath hashed alice)) ≠
      hashed (Text.bytes (actorPath hashed bob)) := by decide +kernel
  exact fun heq => absurd heq hne

/-- The archive and the logs share the bucket of the owner records. -/
def oneBucket : SnapshotStoreConfig := .rapid [⟨"state", "europe-west1-b"⟩] "state"

theorem scopes_confine_to_actor_one_bucket :
    ∃ granted, scopes hashed (fun _ => true) "state" oneBucket none alice none = .ok granted ∧
      (∀ (object : Object) (name : String), object.name hashed bob = .ok name →
        ∀ rule ∈ granted.ownership ++ granted.state, ¬ rule.namePrefix.toList <+: name.toList) ∧
      ∃ name, (Object.batch 1 1 "log" 0 8).name hashed alice = .ok name ∧
        ∃ rule ∈ granted.ownership ++ granted.state,
          rule.bucket = "state" ∧ rule.namePrefix.toList <+: name.toList := by
  have hscopes : scopes hashed (fun _ => true) "state" oneBucket none alice none = .ok _ :=
    bind_ok (owner_eq alice_valid)
      (bind_ok (stateRules_rapid alice_valid _ _) rfl)
  have hconfined := scopes_confine_to_actor alice_valid bob_valid (by decide)
    hashed_noCollision hscopes
  have hbatch : ∃ name, (Object.batch 1 1 "log" 0 8).name hashed alice = .ok name := by
    cases h : (Object.batch 1 1 "log" 0 8).name hashed alice with
    | ok name => exact ⟨name, rfl⟩
    | error fault =>
      have hok : ((Object.batch 1 1 "log" 0 8).name hashed alice).isOk = true := by
        decide +kernel
      rw [h] at hok
      cases hok
  obtain ⟨name, hname⟩ := hbatch
  exact ⟨_, hscopes, hconfined.1, name, hname,
    hconfined.2 _ name hname "state" (List.mem_singleton_self _)⟩

end DurableActors.Ports.StoragePaths
