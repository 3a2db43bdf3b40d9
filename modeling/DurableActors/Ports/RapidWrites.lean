import DurableActors.Ports.RapidReadAgreement

/-!
# What writes to the storage

`Step` is one write to the storage: the session's `put` in both of its modes with
`remember`, `restored`, the copies of `finish` and `recover`, the index objects, and
what the archiver, a recoverer or a zone does to a segment.  A ghost state says what
has been written to each segment.  Every step keeps that the storage holds the log,
so in every reached state all read paths agree.
-/

namespace DurableActors.Ports.Rapid

open Verified
open Verified.Checked
open Sqlite (Codec StateStream StateSnapshot SnapshotRef parsed)
open Log

variable {storage : Storage} {bytes : Bytes} {object path : String} {record : Record}
  {s s' : StoredSegment}

/-! ## Steps -/

/-- The storage, what was written to each segment, by its id, and the last version that
was put under each path. -/
structure Written where
  storage : Storage
  contents : String → Contents
  versions : String → Nat

/-- What was written to the segment. -/
def Written.contentsOf (w : Written) (s : StoredSegment) : Contents := w.contents s.manifest.id

/-- A segment as `Segment::open` leaves it. -/
def StoredSegment.opened (manifest : Manifest) (others : Nat) : StoredSegment :=
  ⟨manifest, [], List.replicate (others + 1) ⟨[], false, false⟩, none⟩

def StoredSegment.setReplica (s : StoredSegment) (i : Nat) (replica : Replica) : StoredSegment :=
  { s with replicas := s.replicas.set i replica }

/-- The batch of the frames `a` to `b` of the log. -/
def batchOf (digest : Digest) (log : List Record) (a b : Nat) : Batch :=
  ⟨offsetOf log a, offsetOf log b, encodeAll digest ((log.drop a).take (b - a))⟩

/-- The archive with this segment in place of the one with its id, if there is one. -/
def Storage.setSegment (storage : Storage) (s : StoredSegment) : String → Directory :=
  Function.update storage.archive s.manifest.stream.path
    { storage.archive s.manifest.stream.path with
      segments := s :: (storage.archive s.manifest.stream.path).segments.filter
        fun s' => s'.manifest.id ≠ s.manifest.id }

/-- The archive with one more index object. -/
def Storage.addIndex (storage : Storage) (path : String) (entry : IndexKey × Index) :
    String → Directory :=
  Function.update storage.archive path
    { storage.archive path with indexes := entry :: (storage.archive path).indexes }

section Writes

variable (w : Written) (s : StoredSegment)

/-- `Segment::open`. -/
def Written.openSegment (manifest : Manifest) (others : Nat) : Written :=
  { w with
    storage := { w.storage with archive := w.storage.setSegment (.opened manifest others) }
    contents := Function.update w.contents manifest.id ⟨[], 0, 0⟩ }

/-- `put` on a segment, up to the answer of the writers. -/
def Written.append (path : String) (record : Record) : Written :=
  { w with
    contents := Function.update w.contents s.manifest.id
      { w.contentsOf s with log := (w.contentsOf s).log ++ [record] }
    versions := Function.update w.versions path record.version }

/-- The rest of `put`. -/
def Written.acknowledge (record : Record) : Written :=
  { w with
    storage := { w.storage with
      live := (w.storage.remember s.manifest (totalSize (w.contentsOf s).log)
        record.version record.size).live
      latest := some (s.manifest.stream.object record.version, record.state) }
    contents := Function.update w.contents s.manifest.id
      { w.contentsOf s with acked := (w.contentsOf s).log.length } }

/-- A segment of the archive is changed. -/
def Written.setSegment : Written :=
  { w with storage := { w.storage with archive := w.storage.setSegment s } }

/-- `put_batch` of the frames `a` to `b`. -/
def Written.upload (a b : Nat) : Written :=
  { w with
    storage := { w.storage with archive := w.storage.setSegment { s with
      batches := batchOf w.storage.digest (w.contentsOf s).log a b :: s.batches } }
    contents := Function.update w.contents s.manifest.id
      { w.contentsOf s with archived := max (w.contentsOf s).archived b } }

/-- What `index_batch` writes. -/
def Written.index (path : String) (entry : IndexKey × Index) : Written :=
  { w with storage := { w.storage with archive := w.storage.addIndex path entry } }

/-- `put` in Standard mode. -/
def Written.store (stream : StateStream) (version : Nat) (bytes : Bytes) : Written :=
  { w with
    storage := { w.storage.putSnapshot (stream.object version) bytes with
      latest := some (stream.object version, bytes) }
    versions := Function.update w.versions stream.path version }

/-- A snapshot is copied to the Standard store. -/
def Written.copy (object : String) (bytes : Bytes) : Written :=
  { w with storage := w.storage.putSnapshot object bytes }

/-- `restored`, or the end of a session. -/
def Written.setLatest (latest : Option (String × Bytes)) : Written :=
  { w with storage := { w.storage with latest := latest } }

/-- Another process. -/
def Written.restart : Written :=
  { w with storage := { w.storage with live := [], latest := none } }

end Writes

/-- One write. -/
inductive Step (w : Written) : Written → Prop
  /-- a segment gets a new id -/
  | opened {manifest : Manifest} (others : Nat) {directory : String}
      (hname : Named manifest.stream directory)
      (hid : ∀ path, ∀ s ∈ (w.storage.archive path).segments, s.manifest.id ≠ manifest.id) :
      Step w (w.openSegment manifest others)
  /-- the session is healthy, so that all before the record has been acknowledged, and it
  has put no such version yet -/
  | appended {path : String} {s : StoredSegment} (record : Record)
      (hs : s ∈ (w.storage.archive path).segments) (hopen : s.replicated = none)
      (hhealthy : (w.contentsOf s).acked = (w.contentsOf s).log.length)
      (hnext : w.versions path < record.version)
      (hfollows : ∀ last ∈ (w.contentsOf s).log.getLast?, record.version = last.version + 1)
      (hidentity : (w.storage.segmentConfig s).identity record = true)
      (hencodable : record.Encodable) : Step w (w.append s path record)
  /-- every writer has flushed the frame -/
  | acknowledged {path : String} {s : StoredSegment} (record : Record)
      (hs : s ∈ (w.storage.archive path).segments) (hopen : s.replicated = none)
      (hlast : (w.contentsOf s).log.getLast? = some record)
      (hflushed : ∀ replica ∈ s.replicas,
        totalSize (w.contentsOf s).log ≤ replica.bytes.length) :
      Step w (w.acknowledge s record)
  /-- a zone has more of the log, or stops or starts to answer; as long as the segment is
  not marked some zone answers -/
  | zone {path : String} {s : StoredSegment} (i : Nat) (replica : Replica)
      (hs : s ∈ (w.storage.archive path).segments)
      (hcopy : replica.bytes <+: encodeAll w.storage.digest (w.contentsOf s).log)
      (hacked : offsetOf (w.contentsOf s).log (w.contentsOf s).acked ≤ replica.bytes.length)
      (hanswers : s.replicated = none →
        ∃ other ∈ s.replicas.set i replica, other.deleted = false) :
      Step w (w.setSegment (s.setReplica i replica))
  /-- the archiver or a recoverer goes on from where the batches end or before -/
  | uploaded {path : String} {s : StoredSegment} {a b : Nat}
      (hs : s ∈ (w.storage.archive path).segments) (hopen : s.replicated = none)
      (hstart : a ≤ (w.contentsOf s).archived) (hab : a < b)
      (hbound : b ≤ (w.contentsOf s).log.length) : Step w (w.upload s a b)
  /-- `mark_replicated`, once the batches have every acknowledged record -/
  | marked {path : String} {s : StoredSegment} {closed : ClosedSegment}
      (hs : s ∈ (w.storage.archive path).segments)
      (hcovered : (w.contentsOf s).acked ≤ (w.contentsOf s).archived)
      (hvalid : closed.validate (w.storage.segmentConfig s)
        (offsetOf (w.contentsOf s).log (w.contentsOf s).archived)
        ((w.contentsOf s).log.take (w.contentsOf s).archived) = true) :
      Step w (w.setSegment { s with replicated := some closed })
  /-- `index_batch` of a batch in the archive -/
  | indexed {path : String} {s : StoredSegment} {batch : Batch} {entry : IndexKey × Index}
      (hs : s ∈ (w.storage.archive path).segments) (hbatch : batch ∈ s.batches)
      (hentry : w.storage.indexBatch s.manifest
        ⟨path, s.manifest.id, batch.start, batch.stop⟩ batch.bytes = .ok entry) :
      Step w (w.index path entry)
  /-- no such version was put before -/
  | stored {stream : StateStream} {directory : String} {reference : SnapshotRef} {bytes : Bytes}
      (hname : Named stream directory)
      (hreference : stream.snapshot w.storage.codec bytes = .ok reference)
      (hnext : w.versions stream.path < reference.version) :
      Step w (w.store stream reference.version bytes)
  /-- `finish_archive` copies the latest snapshot -/
  | copied {object : String} {bytes : Bytes} (hlatest : w.storage.latest = some (object, bytes)) :
      Step w (w.copy object bytes)
  /-- `recover` copies the latest snapshot it finds -/
  | recovered {path object : String} {bytes : Bytes}
      (hlatest : w.storage.latestUnder path = .ok (some (object, bytes))) :
      Step w (w.copy object bytes)
  /-- a snapshot is restored that was read from the storage -/
  | restored {object : String} {bytes : Bytes}
      (hread : w.storage.get object = .ok (some bytes) ∨
        ∃ path, w.storage.latestUnder path = .ok (some (object, bytes))) :
      Step w (w.setLatest (some (object, bytes)))
  | finished : Step w (w.setLatest none)
  | restarted : Step w w.restart

/-- A storage nothing has been written to. -/
def Written.empty (codec : Codec) (digest : Digest) (batchBytes : Nat) (hpos : 0 < batchBytes) :
    Written where
  storage := ⟨codec, digest, batchBytes, hpos, fun _ => ⟨[], []⟩, [], [], none⟩
  contents _ := ⟨[], 0, 0⟩
  versions _ := 0

/-- The states that any number of writes lead to. -/
inductive Reached (codec : Codec) (digest : Digest) (batchBytes : Nat)
    (hpos : 0 < batchBytes) : Written → Prop
  | empty : Reached codec digest batchBytes hpos (.empty codec digest batchBytes hpos)
  | step {w w' : Written} (hreached : Reached codec digest batchBytes hpos w) (hstep : Step w w') :
      Reached codec digest batchBytes hpos w'

/-! ## What is read was stored -/

section Reads

variable {contents : StoredSegment → Contents} (h : storage.Holds contents)
include h

theorem Storage.Holds.logged_of_live {first : Nat} {records : Records}
    (hlive : storage.liveRecords object first = .ok (some records)) :
    ∃ bytes, storage.Logged contents object bytes := by
  obtain ⟨found, hrange, hrest⟩ := bind_eq_ok.mp hlive
  unfold Storage.liveRange at hrange
  split at hrange
  · cases hrange
    cases hrest
  · rename_i version hversion
    split at hrange
    · cases hrange
      cases hrest
    · rename_i live hlookup
      obtain ⟨hlookup, hobject⟩ := Option.filter_eq_some_iff.mp hlookup
      obtain ⟨s, hs, hmanifest, k, r, hr, rfl, -⟩ :=
        h.live _ (OrderedMap.lookup_eq_some_mem hlookup)
      have hobject := of_decide_eq_true hobject
      exact ⟨r.state, _, s, hs, r, List.mem_of_getElem? hr, by rw [hmanifest, hobject], rfl⟩

/-- The index objects return logged records. -/
theorem Storage.Holds.logged_of_indexed {first : Nat} {keys : List IndexKey} {records : Records}
    (hindexed : storage.indexedRecords object first keys = some records)
    (hfound : records.lookup object = some bytes) : storage.Logged contents object bytes := by
  obtain ⟨-, directory, -, -, s, hs, rs, hrs, rfl, -⟩ := h.indexedRecords hindexed
  obtain ⟨before, after, hrecords, -⟩ := List.lookup_eq_some_iff.mp hfound
  have hmem : (object, bytes) ∈ recordsOf directory rs := by
    rw [hrecords]
    exact List.mem_append_right _ List.mem_cons_self
  obtain ⟨r, hr, heq⟩ := List.mem_map.mp hmem
  obtain ⟨rfl, rfl⟩ := Prod.mk.inj heq
  exact ⟨_, s, hs, r, hrs.subset hr, ((h.named_of_mem hs).object _).symm, rfl⟩

/-- `get` returns what is stored. -/
theorem Storage.Holds.stored_of_get (hget : storage.get object = .ok (some bytes)) :
    storage.Stored contents object bytes := by
  unfold Storage.get at hget
  split at hget
  · rename_i found hcached
    cases hget
    exact h.latest _ _ (Storage.cached_eq_some hcached)
  · obtain ⟨result, hlive, hrest⟩ := bind_eq_ok.mp hget
    cases result with
    | some records =>
      have hfound := Except.ok.inj hrest
      unfold Storage.getLive at hlive
      split at hlive
      · cases hlive
      · obtain ⟨bytes', hlogged⟩ := h.logged_of_live hlive
        rw [(h.reads_live hlogged hlive).found] at hfound
        exact .inr (Option.some.inj hfound ▸ hlogged)
    | none =>
      dsimp only at hrest
      split at hrest
      · rename_i found hcopied
        cases hrest
        exact .inl hcopied
      · obtain ⟨⟨directory, file⟩, -, hrest⟩ := bind_eq_ok.mp hrest
        obtain ⟨version, -, hrest⟩ := bind_eq_ok.mp hrest
        split at hrest
        · rename_i records hindexed
          exact .inr (h.logged_of_indexed hindexed (Except.ok.inj hrest))
        · obtain ⟨records, hscan, hrest⟩ := bind_eq_ok.mp hrest
          obtain ⟨records', hscan', hall, -⟩ := h.records (directory ++ "/")
          rw [hscan] at hscan'
          cases hscan'
          exact .inr (logged_of_lookup hall (Except.ok.inj hrest))

/-- So does `LogStorage::latest`. -/
theorem Storage.Holds.stored_of_latestUnder
    (hlatest : storage.latestUnder path = .ok (some (object, bytes))) :
    storage.Stored contents object bytes := by
  obtain ⟨records, hscan, hrest⟩ := bind_eq_ok.mp hlatest
  obtain ⟨all, hall, hreturn⟩ := bind_eq_ok.mp hrest
  obtain ⟨key, -, hfound⟩ := Option.bind_eq_some_iff.mp (Except.ok.inj hreturn)
  obtain ⟨_, hlookup, heq⟩ := Option.map_eq_some_iff.mp hfound
  cases heq
  obtain ⟨records', hscan', hlogged, -⟩ := h.records path
  rw [hscan] at hscan'
  cases hscan'
  cases hcopy : storage.latestCopy path with
  | none =>
    rw [hcopy] at hall
    cases hall
    exact .inr (logged_of_lookup hlogged hlookup)
  | some copy =>
    rw [hcopy] at hall
    obtain ⟨_, -, hinsert⟩ := bind_eq_ok.mp hall
    cases hinsert
    rw [List.lookup_cons] at hlookup
    split at hlookup
    · rename_i hkey
      cases hlookup
      obtain ⟨_, -, hcopy⟩ := Option.bind_eq_some_iff.mp hcopy
      obtain ⟨_, hcopied, hcopy⟩ := Option.bind_eq_some_iff.mp hcopy
      cases hcopy
      exact .inl (eq_of_beq hkey ▸ hcopied)
    · exact .inr (logged_of_lookup hlogged hlookup)

end Reads

/-! ## A segment changes -/

/-- How a segment is read does not depend on the rest of the storage. -/
theorem StoredSegment.Holds.elsewhere {c : Contents} (h : s.Holds storage c)
    (archive : String → Directory) (snapshots : Records) (live : List (Nat × LiveRecord))
    (latest : Option (String × Bytes)) : s.Holds { storage with
      archive := archive, snapshots := snapshots, live := live, latest := latest } c :=
  ⟨h.wellFormed, h.acked_le, h.aligned, h.covered, h.copies, h.marked, h.unmarked⟩

/-- The archive has `s'` in place of any segment with its id. -/
structure Replaces (storage : Storage) (archive : String → Directory) (s' : StoredSegment) :
    Prop where
  mem : s' ∈ (archive s'.manifest.stream.path).segments
  of_mem : ∀ {path s}, s ∈ (archive path).segments → path = s'.manifest.stream.path ∧ s = s' ∨
    s.manifest.id ≠ s'.manifest.id ∧ s ∈ (storage.archive path).segments
  other : ∀ {path s}, s ∈ (storage.archive path).segments → s.manifest.id ≠ s'.manifest.id →
    s ∈ (archive path).segments
  indexes : ∀ path, (archive path).indexes = (storage.archive path).indexes

theorem replaces_setSegment (hid : ∀ path, ∀ s ∈ (storage.archive path).segments,
    s.manifest.id = s'.manifest.id → path = s'.manifest.stream.path) :
    Replaces storage (storage.setSegment s') s' := by
  have hself : storage.setSegment s' s'.manifest.stream.path = _ := Function.update_self ..
  have hother : ∀ path, path ≠ s'.manifest.stream.path →
      storage.setSegment s' path = storage.archive path := fun path hne =>
    Function.update_of_ne hne _ _
  constructor
  case mem =>
    rw [hself]
    exact List.mem_cons_self
  case of_mem =>
    intro path s hs
    by_cases hpath : path = s'.manifest.stream.path
    · rw [hpath, hself] at hs
      rcases List.mem_cons.mp hs with rfl | hs
      · exact .inl ⟨hpath, rfl⟩
      · obtain ⟨hs, hne⟩ := List.mem_filter.mp hs
        exact .inr ⟨of_decide_eq_true hne, hpath ▸ hs⟩
    · rw [hother path hpath] at hs
      exact .inr ⟨fun heq => hpath (hid path s hs heq), hs⟩
  case other =>
    intro path s hs hne
    by_cases hpath : path = s'.manifest.stream.path
    · rw [hpath, hself]
      exact List.mem_cons_of_mem _ (List.mem_filter.mpr ⟨hpath ▸ hs, decide_eq_true hne⟩)
    · rw [hother path hpath]
      exact hs
  case indexes =>
    intro path
    by_cases hpath : path = s'.manifest.stream.path
    · rw [hpath, hself]
    · rw [hother path hpath]

/-- What `s'` keeps of a segment it replaces. -/
structure Keeps (s s' : StoredSegment) (c c' : Contents) : Prop where
  manifest : s'.manifest = s.manifest
  batches : ∀ batch ∈ s.batches, batch ∈ s'.batches
  log : c.log <+: c'.log

/-- The segment `s'` with the contents `c` takes the place of the one with its id.  Its
records were there, or have later versions than all that was put under its path. -/
structure Change (w : Written) (archive : String → Directory) (s' : StoredSegment)
    (c : Contents) : Prop where
  replaces : Replaces w.storage archive s'
  keeps : ∀ path, ∀ s ∈ (w.storage.archive path).segments, s.manifest.id = s'.manifest.id →
    Keeps s s' (w.contentsOf s) c
  holds : s'.Holds w.storage c
  named : ∃ name, Named s'.manifest.stream name
  new : ∀ r ∈ c.log, (∃ path, ∃ s ∈ (w.storage.archive path).segments,
      s.manifest = s'.manifest ∧ r ∈ (w.contentsOf s).log) ∨
    w.versions s'.manifest.stream.path < r.version

/-- The segment has new contents. -/
def Written.change (w : Written) (archive : String → Directory) (s' : StoredSegment)
    (c : Contents) : Written :=
  { w with
    storage := { w.storage with archive := archive }
    contents := Function.update w.contents s'.manifest.id c }

/-- What holds after any number of writes: the storage holds the log, and neither the log
nor the Standard store has a version that was not put. -/
structure Written.Inv (w : Written) : Prop where
  holds : w.storage.Holds w.contentsOf
  logged_le : ∀ path, ∀ s ∈ (w.storage.archive path).segments, ∀ r ∈ (w.contentsOf s).log,
    r.version ≤ w.versions path
  copied_le : ∀ directory version,
    w.storage.snapshots.lookup (recordObject directory version) ≠ none →
      version ≤ w.versions (directory ++ "/")

section Change

variable {w : Written} {archive : String → Directory} {c : Contents}

theorem contentsOf_self (w : Written) (archive : String → Directory) (s' : StoredSegment)
    (c : Contents) : (w.change archive s' c).contentsOf s' = c := Function.update_self ..

/-- A segment is replaced whose contents stay. -/
theorem change_contentsOf (hid : s'.manifest.id = s.manifest.id) :
    w.change (w.storage.setSegment s') s' (w.contentsOf s) = w.setSegment s' := by
  rw [Written.change, Written.contentsOf, hid, Function.update_eq_self]
  rfl

theorem contentsOf_ne (hne : s.manifest.id ≠ s'.manifest.id) :
    (w.change archive s' c).contentsOf s = w.contentsOf s := Function.update_of_ne hne _ _

variable (h : w.Inv) (hchange : Change w archive s' c)
include h hchange

/-- A segment of the storage has a successor. -/
theorem Change.forward (hs : s ∈ (w.storage.archive path).segments) :
    ∃ t ∈ (archive path).segments,
      Keeps s t (w.contentsOf s) ((w.change archive s' c).contentsOf t) := by
  by_cases hid : s.manifest.id = s'.manifest.id
  · have hkeeps := hchange.keeps path s hs hid
    refine ⟨s', ?_, by rw [contentsOf_self]; exact hkeeps⟩
    rw [← h.holds.path path s hs, ← hkeeps.manifest]
    exact hchange.replaces.mem
  · refine ⟨s, hchange.replaces.other hs hid, rfl, fun _ hbatch => hbatch, ?_⟩
    rw [contentsOf_ne hid]

theorem Change.logged (hlogged : w.storage.Logged w.contentsOf object bytes) :
    (w.change archive s' c).storage.Logged (w.change archive s' c).contentsOf object bytes := by
  obtain ⟨path, s, hs, r, hr, rfl, rfl⟩ := hlogged
  obtain ⟨t, ht, hkeeps⟩ := hchange.forward h hs
  exact ⟨path, t, ht, r, hkeeps.log.subset hr, by rw [hkeeps.manifest], rfl⟩

/-- Where the records of a segment come from. -/
theorem Change.origin (hs : s ∈ (archive path).segments)
    (hrecord : record ∈ ((w.change archive s' c).contentsOf s).log) :
    (∃ t ∈ (w.storage.archive path).segments, t.manifest = s.manifest ∧
      record ∈ (w.contentsOf t).log) ∨
    s = s' ∧ path = s'.manifest.stream.path ∧ w.versions path < record.version := by
  obtain ⟨rfl, rfl⟩ | ⟨hid, hs⟩ := hchange.replaces.of_mem hs
  · rw [contentsOf_self] at hrecord
    obtain ⟨path, t, ht, hmanifest, hr⟩ | hlt := hchange.new record hrecord
    · refine .inl ⟨t, ?_, hmanifest, hr⟩
      rw [← hmanifest, h.holds.path path t ht]
      exact ht
    · exact .inr ⟨rfl, rfl, hlt⟩
  · rw [contentsOf_ne hid] at hrecord
    exact .inl ⟨s, hs, rfl, hrecord⟩

/-- Two records of one version in a directory are one. -/
theorem Change.partition {t : StoredSegment} {r : Record} (hs : s ∈ (archive path).segments)
    (ht : t ∈ (archive path).segments)
    (hrecord : record ∈ ((w.change archive s' c).contentsOf s).log)
    (hr : r ∈ ((w.change archive s' c).contentsOf t).log) (hversion : record.version = r.version) :
    record = r := by
  obtain ⟨s₀, hs₀, -, hrecord₀⟩ | ⟨rfl, -, hlt⟩ := hchange.origin h hs hrecord
  · obtain ⟨t₀, ht₀, -, hr₀⟩ | ⟨-, -, hlt⟩ := hchange.origin h ht hr
    · exact h.holds.partition _ s₀ hs₀ t₀ ht₀ record hrecord₀ r hr₀ hversion
    · have := h.logged_le path s₀ hs₀ record hrecord₀
      omega
  · obtain ⟨t₀, ht₀, -, hr₀⟩ | ⟨rfl, -, -⟩ := hchange.origin h ht hr
    · have := h.logged_le path t₀ ht₀ r hr₀
      omega
    · rw [contentsOf_self] at hrecord hr
      obtain ⟨first, hlog⟩ := hchange.holds.wellFormed
      exact hlog.version_inj _ hrecord hr hversion

theorem Change.named_of_mem (hs : s ∈ (archive path).segments) :
    s.manifest.stream.path = path ∧ ∃ name, Named s.manifest.stream name := by
  obtain ⟨rfl, rfl⟩ | ⟨-, hs⟩ := hchange.replaces.of_mem hs
  · exact ⟨rfl, hchange.named⟩
  · exact ⟨h.holds.path _ s hs, h.holds.named _ s hs⟩

/-- The storage still holds the log. -/
theorem Change.storage_holds :
    (w.change archive s' c).storage.Holds (w.change archive s' c).contentsOf := by
  constructor
  case segment =>
    intro path s hs
    obtain ⟨-, rfl⟩ | ⟨hid, hs⟩ := hchange.replaces.of_mem hs
    · rw [contentsOf_self]
      exact hchange.holds.elsewhere ..
    · rw [contentsOf_ne hid]
      exact (h.holds.segment path s hs).elsewhere ..
  case path => exact fun path s hs => (hchange.named_of_mem h hs).1
  case named => exact fun path s hs => (hchange.named_of_mem h hs).2
  case ids =>
    intro path path' s hs t ht hid
    obtain ⟨-, rfl⟩ | ⟨hs', hs⟩ := hchange.replaces.of_mem hs
    · obtain ⟨-, rfl⟩ | ⟨ht', -⟩ := hchange.replaces.of_mem ht
      · rfl
      · exact absurd hid.symm ht'
    · obtain ⟨-, rfl⟩ | ⟨-, ht⟩ := hchange.replaces.of_mem ht
      · exact absurd hid hs'
      · exact h.holds.ids _ _ s hs t ht hid
  case partition =>
    exact fun path s hs t ht r hr r' hr' hversion => hchange.partition h hs ht hr hr' hversion
  case indexes =>
    intro path entry hentry
    have hentry : entry ∈ (archive path).indexes := hentry
    rw [hchange.replaces.indexes] at hentry
    obtain ⟨s, hs, batch, hbatch, hindex⟩ := h.holds.indexes path entry hentry
    obtain ⟨t, ht, hkeeps⟩ := hchange.forward h hs
    refine ⟨t, ht, batch, hkeeps.batches batch hbatch, ?_⟩
    rw [hkeeps.manifest]
    exact hindex
  case live =>
    intro entry hentry
    obtain ⟨s, hs, hmanifest, k, r, hr, hversion, hstart, hlength⟩ := h.holds.live entry hentry
    obtain ⟨t, ht, hkeeps⟩ := hchange.forward h hs
    have hk := (List.getElem?_eq_some_iff.mp hr).1
    obtain ⟨more, hmore⟩ := hkeeps.log
    refine ⟨t, ht, hkeeps.manifest.trans hmanifest, k, r, ?_, hversion, ?_, hlength⟩
    · rw [← hmore, List.getElem?_append_left hk]
      exact hr
    · rw [offsetOf_isPrefix hkeeps.log hk.le]
      exact hstart
  case snapshots =>
    intro object bytes bytes' hcopied hlogged
    obtain ⟨path, s, hs, r, hr, rfl, rfl⟩ := hlogged
    obtain ⟨t, ht, hmanifest, hr⟩ | ⟨rfl, rfl, hlt⟩ := hchange.origin h hs hr
    · exact h.holds.snapshots _ _ _ hcopied ⟨path, t, ht, r, hr, by rw [hmanifest], rfl⟩
    · obtain ⟨name, hname⟩ := hchange.named
      have hcopied : w.storage.snapshots.lookup (recordObject name r.version) = some bytes := by
        rw [← hname.object]
        exact hcopied
      have hle := h.copied_le name r.version (by rw [hcopied]; exact Option.some_ne_none _)
      rw [← hname.path] at hle
      omega
  case latest =>
    exact fun object bytes hlatest =>
      (h.holds.latest object bytes hlatest).imp id (hchange.logged h)

end Change

/-! ## The rest of the storage changes -/

section Rest

variable {contents : StoredSegment → Contents} (h : storage.Holds contents)
include h

/-- `remember`, `restored` and the end of a session. -/
theorem Storage.Holds.setLatest {live : List (Nat × LiveRecord)}
    {latest : Option (String × Bytes)} (hlive : ∀ entry ∈ live, entry ∈ storage.live ∨
      ∃ path, ∃ s ∈ (storage.archive path).segments, ∃ k record,
        (contents s).log[k]? = some record ∧ entry = (record.version,
          ⟨s.manifest, offsetOf (contents s).log (k + 1) - record.size, record.size⟩))
    (hlatest : ∀ object bytes, latest = some (object, bytes) →
      storage.Stored contents object bytes) :
    Storage.Holds { storage with live := live, latest := latest } contents where
  segment path s hs := (h.segment path s hs).elsewhere ..
  path := h.path
  named := h.named
  ids := h.ids
  partition := h.partition
  indexes := h.indexes
  live entry hentry := by
    obtain hentry | ⟨path, s, hs, k, record, hrecord, rfl⟩ := hlive entry hentry
    · exact h.live entry hentry
    · refine ⟨s, ?_, rfl, k, record, hrecord, rfl, ?_, rfl⟩
      · rw [h.path path s hs]
        exact hs
      · rw [offsetOf_succ hrecord, Nat.add_sub_cancel]
  snapshots := h.snapshots
  latest := hlatest

omit h in
theorem mem_remember (storage : Storage) (manifest : Manifest) (offset version length : Nat) :
    ∀ entry ∈ (storage.remember manifest offset version length).live,
      entry = (version, ⟨manifest, offset - length, length⟩) ∨ entry ∈ storage.live := by
  intro entry hentry
  simp only [Storage.remember] at hentry
  exact OrderedMap.mem_of_mem_insert (List.mem_of_mem_drop hentry)

/-- A snapshot is copied that the log does not have otherwise. -/
theorem Storage.Holds.putSnapshot
    (hsame : ∀ bytes', storage.Logged contents object bytes' → bytes = bytes') :
    (storage.putSnapshot object bytes).Holds contents := by
  unfold Storage.putSnapshot
  split
  · exact h
  · rename_i hnone
    constructor
    case segment => exact fun path s hs => (h.segment path s hs).elsewhere ..
    case path => exact h.path
    case named => exact h.named
    case ids => exact h.ids
    case partition => exact h.partition
    case indexes => exact h.indexes
    case live => exact h.live
    case snapshots =>
      intro other found bytes' hfound hlogged
      have hfound : ((object, bytes) :: storage.snapshots).lookup other = some found := hfound
      rw [List.lookup_cons] at hfound
      split at hfound
      · rename_i heq
        cases hfound
        exact hsame bytes' (eq_of_beq heq ▸ hlogged)
      · exact h.snapshots other found bytes' hfound hlogged
    case latest =>
      intro other found hlatest
      refine (h.latest other found hlatest).imp (fun hcopied => ?_) id
      show ((object, bytes) :: storage.snapshots).lookup other = some found
      have hne : other ≠ object := by
        rintro rfl
        cases hnone.symm.trans hcopied
      rw [List.lookup_cons, beq_false_of_ne hne]
      exact hcopied

omit h in
theorem segments_addIndex (storage : Storage) (path : String) (entry : IndexKey × Index)
    (p : String) :
    (storage.addIndex path entry p).segments = (storage.archive p).segments := by
  unfold Storage.addIndex
  by_cases hp : p = path
  · rw [hp, Function.update_self]
  · rw [Function.update_of_ne hp]

/-- One more index object. -/
theorem Storage.Holds.addIndex {batch : Batch} {entry : IndexKey × Index}
    (hs : s ∈ (storage.archive path).segments) (hbatch : batch ∈ s.batches)
    (hentry : storage.indexBatch s.manifest ⟨path, s.manifest.id, batch.start, batch.stop⟩
      batch.bytes = .ok entry) :
    Storage.Holds { storage with archive := storage.addIndex path entry } contents := by
  have hsegments := segments_addIndex storage path entry
  have hlogged : ∀ {object bytes}, Storage.Logged
      { storage with archive := storage.addIndex path entry } contents object bytes ↔
        storage.Logged contents object bytes := by
    intro object bytes
    simp only [Storage.Logged, hsegments]
  constructor
  case segment =>
    intro p s hs
    rw [hsegments] at hs
    exact (h.segment p s hs).elsewhere ..
  case path => simpa only [hsegments] using h.path
  case named => simpa only [hsegments] using h.named
  case ids => simpa only [hsegments] using h.ids
  case partition => simpa only [hsegments] using h.partition
  case indexes =>
    intro p found hfound
    have hfound : found ∈ (storage.addIndex path entry p).indexes := hfound
    rw [hsegments]
    by_cases hp : p = path
    · subst hp
      rw [Storage.addIndex, Function.update_self] at hfound
      rcases List.mem_cons.mp hfound with rfl | hfound
      · exact ⟨s, hs, batch, hbatch, hentry⟩
      · exact h.indexes p found hfound
    · rw [Storage.addIndex, Function.update_of_ne hp] at hfound
      exact h.indexes p found hfound
  case live => simpa only [hsegments] using h.live
  case snapshots =>
    exact fun object bytes bytes' hcopied hl => h.snapshots object bytes bytes' hcopied
      (hlogged.mp hl)
  case latest =>
    exact fun object bytes hlatest => (h.latest object bytes hlatest).imp id hlogged.mpr

end Rest

/-! ## Segments -/

theorem StoredSegment.holds_opened (manifest : Manifest) (others : Nat) :
    (StoredSegment.opened manifest others).Holds storage ⟨[], 0, 0⟩ where
  wellFormed := ⟨0, nofun, nofun, nofun⟩
  acked_le := Nat.le_refl _
  aligned := nofun
  covered _ := ⟨fun h => absurd h.lt_length (Nat.not_lt_zero _), nofun⟩
  copies replica hreplica _ := by
    rw [List.eq_of_mem_replicate hreplica]
    exact ⟨List.nil_prefix, Nat.le_refl _⟩
  marked := nofun
  unmarked _ := ⟨_, List.mem_replicate.mpr ⟨Nat.succ_ne_zero _, rfl⟩, rfl⟩

section Segments

variable {c : Contents} (h : s.Holds storage c) (hopen : s.replicated = none)
include h hopen

/-- A record is appended that the replicas may not have. -/
theorem StoredSegment.Holds.append
    (hfollows : ∀ last ∈ c.log.getLast?, record.version = last.version + 1)
    (hidentity : (storage.segmentConfig s).identity record = true)
    (hencodable : record.Encodable) :
    s.Holds storage { c with log := c.log ++ [record] } := by
  obtain ⟨first, hlog⟩ := h.wellFormed
  have hprefix : c.log <+: c.log ++ [record] := List.prefix_append _ _
  constructor
  case wellFormed =>
    cases hlast : c.log.getLast? with
    | none =>
      have hempty : WellFormed (storage.segmentConfig s) record.version [] :=
        ⟨by simp, by simp, by simp⟩
      rw [List.getLast?_eq_none_iff.mp hlast]
      exact ⟨record.version, hempty.concat _ hencodable hidentity rfl⟩
    | some last =>
      refine ⟨first, hlog.concat _ hencodable hidentity ?_⟩
      have hpos := List.length_pos_of_ne_nil (List.ne_nil_of_mem (List.mem_of_getLast? hlast))
      rw [List.getLast?_eq_getElem?] at hlast
      rw [hfollows last (by rw [List.getLast?_eq_getElem?, hlast]; rfl),
        hlog.version _ last hlast]
      omega
  case acked_le => exact h.acked_le.trans hprefix.length_le
  case aligned =>
    intro batch hbatch
    obtain ⟨a, b, haligned⟩ := h.aligned batch hbatch
    exact ⟨a, b, haligned.mono _ hprefix⟩
  case covered =>
    refine fun k => ⟨fun hcovered => ?_, fun hk => ((h.covered k).mpr hk).mono _ hprefix
      fun _ hbatch => hbatch⟩
    -- a batch is cut at the same frames of the longer log
    obtain ⟨batch, hbatch, a, b, haligned, hak, hkb⟩ := hcovered
    obtain ⟨a', b', haligned'⟩ := h.aligned batch hbatch
    obtain ⟨rfl, rfl⟩ := haligned.unique _ (haligned'.mono _ hprefix)
    exact (h.covered k).mp ⟨batch, hbatch, a, b, haligned', hak, hkb⟩
  case copies =>
    intro replica hreplica halive
    obtain ⟨hcopy, hacked⟩ := h.copies replica hreplica halive
    refine ⟨hcopy.trans (encodeAll_isPrefix _ hprefix), ?_⟩
    rw [offsetOf_isPrefix hprefix h.acked_le]
    exact hacked
  case marked => exact fun closed hclosed => nomatch hopen.symm.trans hclosed
  case unmarked => exact h.unmarked

/-- All records are acknowledged once every replica has them. -/
theorem StoredSegment.Holds.acknowledge
    (hflushed : ∀ replica ∈ s.replicas, totalSize c.log ≤ replica.bytes.length) :
    s.Holds storage { c with acked := c.log.length } where
  wellFormed := h.wellFormed
  acked_le := Nat.le_refl _
  aligned := h.aligned
  covered := h.covered
  copies replica hreplica halive := by
    refine ⟨(h.copies replica hreplica halive).1, ?_⟩
    show totalSize (c.log.take c.log.length) ≤ _
    rw [List.take_length]
    exact hflushed replica hreplica
  marked closed hclosed := nomatch hopen.symm.trans hclosed
  unmarked := h.unmarked

omit hopen in
/-- The zones' replicas are prefixes of the log. -/
theorem StoredSegment.Holds.setReplica {i : Nat} {replica : Replica}
    (hcopy : replica.bytes <+: encodeAll storage.digest c.log)
    (hacked : offsetOf c.log c.acked ≤ replica.bytes.length)
    (hanswers : s.replicated = none → ∃ other ∈ s.replicas.set i replica, other.deleted = false) :
    (s.setReplica i replica).Holds storage c := by
  have hcfg : storage.segmentConfig (s.setReplica i replica) = storage.segmentConfig s := by
    simp [Storage.segmentConfig, StoredSegment.setReplica]
  constructor
  case wellFormed =>
    rw [hcfg]
    exact h.wellFormed
  case acked_le => exact h.acked_le
  case aligned =>
    rw [hcfg]
    exact h.aligned
  case covered =>
    rw [hcfg]
    exact h.covered
  case copies =>
    intro other hother halive
    rcases List.mem_or_eq_of_mem_set hother with hother | rfl
    · exact h.copies other hother halive
    · exact ⟨hcopy, hacked⟩
  case marked =>
    rw [hcfg]
    exact h.marked
  case unmarked => exact hanswers

/-- One more batch, which starts where the others end or before. -/
theorem StoredSegment.Holds.addBatch {a b : Nat} (hstart : a ≤ c.archived) (hab : a < b)
    (hbound : b ≤ c.log.length) :
    StoredSegment.Holds storage
      { s with batches := batchOf storage.digest c.log a b :: s.batches }
      { c with archived := max c.archived b } := by
  have hbatch : Aligned (storage.segmentConfig s) c.log (batchOf storage.digest c.log a b) a b :=
    ⟨hab, hbound, rfl, rfl, rfl⟩
  constructor
  case wellFormed => exact h.wellFormed
  case acked_le => exact h.acked_le
  case aligned =>
    intro batch hmem
    rcases List.mem_cons.mp hmem with rfl | hmem
    · exact ⟨a, b, hbatch⟩
    · exact h.aligned batch hmem
  case covered =>
    intro k
    constructor
    · rintro ⟨batch, hmem, a', b', haligned, hak, hkb⟩
      rcases List.mem_cons.mp hmem with rfl | hmem
      · obtain ⟨rfl, rfl⟩ := haligned.unique _ hbatch
        exact lt_max_of_lt_right hkb
      · exact lt_max_of_lt_left ((h.covered k).mp ⟨batch, hmem, a', b', haligned, hak, hkb⟩)
    · intro hk
      by_cases hold : k < c.archived
      · exact ((h.covered k).mpr hold).mono _ (List.prefix_refl _)
          fun _ hmem => List.mem_cons_of_mem _ hmem
      · have hkb : k < b := (lt_max_iff.mp hk).resolve_left hold
        exact ⟨_, List.mem_cons_self, a, b, hbatch, by omega, hkb⟩
  case copies => exact h.copies
  case marked => exact fun closed hclosed => nomatch hopen.symm.trans hclosed
  case unmarked => exact h.unmarked

omit hopen in
theorem StoredSegment.Holds.mark {closed : ClosedSegment} (hcovered : c.acked ≤ c.archived)
    (hvalid : closed.validate (storage.segmentConfig s) (offsetOf c.log c.archived)
      (c.log.take c.archived) = true) :
    StoredSegment.Holds storage { s with replicated := some closed } c where
  wellFormed := h.wellFormed
  acked_le := h.acked_le
  aligned := h.aligned
  covered := h.covered
  copies := h.copies
  marked found hfound := by
    obtain rfl : closed = found := Option.some.inj hfound
    exact ⟨hcovered, hvalid⟩
  unmarked := nofun

end Segments

/-! ## Every step keeps the invariant -/

theorem putSnapshot_archive (storage : Storage) (object : String) (bytes : Bytes) :
    (storage.putSnapshot object bytes).archive = storage.archive := by
  unfold Storage.putSnapshot
  split <;> rfl

theorem lookup_putSnapshot_self (hnone : storage.snapshots.lookup object = none) :
    (storage.putSnapshot object bytes).snapshots.lookup object = some bytes := by
  simp only [Storage.putSnapshot, hnone]
  exact List.lookup_cons_self

theorem lookup_putSnapshot_ne_none {other : String}
    (h : (storage.putSnapshot object bytes).snapshots.lookup other ≠ none) :
    other = object ∨ storage.snapshots.lookup other ≠ none := by
  unfold Storage.putSnapshot at h
  split at h
  · exact .inr h
  · by_cases hother : other = object
    · exact .inl hother
    · dsimp only at h
      rw [List.lookup_cons, beq_false_of_ne hother] at h
      exact .inr h

section Steps

variable {w w' : Written} (h : w.Inv)
include h

/-- What is stored has been put. -/
theorem Written.Inv.stored_le {directory : String} {version : Nat}
    (hstored : w.storage.Stored w.contentsOf (recordObject directory version) bytes) :
    version ≤ w.versions (directory ++ "/") := by
  rcases hstored with hcopied | hlogged
  · exact h.copied_le directory version (by rw [hcopied]; exact Option.some_ne_none _)
  · obtain ⟨name, s, r, hlocated, hobject, -⟩ := h.holds.located hlogged
    obtain ⟨rfl, rfl⟩ := recordObject_inj hobject
    exact h.logged_le _ s hlocated.segment_mem r hlocated.record_mem

theorem Written.Inv.change {archive : String → Directory} {c : Contents}
    (hchange : Change w archive s' c) {versions : String → Nat}
    (hle : ∀ path, w.versions path ≤ versions path)
    (hnew : ∀ r ∈ c.log, r.version ≤ versions s'.manifest.stream.path) :
    Written.Inv { w.change archive s' c with versions := versions } where
  holds := hchange.storage_holds h
  logged_le path s hs r hr := by
    obtain ⟨t, ht, -, hr⟩ | ⟨rfl, rfl, -⟩ := hchange.origin h hs hr
    · exact (h.logged_le path t ht r hr).trans (hle path)
    · have hself : (w.change archive s c).contentsOf s = c := contentsOf_self w archive s c
      exact hnew r (congrArg Contents.log hself ▸ hr)
  copied_le directory version hcopied := (h.copied_le directory version hcopied).trans (hle _)

/-- The contents of one segment change. -/
theorem Written.Inv.change_contents {c : Contents} (hs : s ∈ (w.storage.archive path).segments)
    (hholds : s.Holds w.storage c) (hlog : (w.contentsOf s).log <+: c.log)
    (hnew : ∀ r ∈ c.log, r ∈ (w.contentsOf s).log ∨ w.versions path < r.version) :
    Change w w.storage.archive s c where
  replaces :=
    { mem := by
        rw [h.holds.path path s hs]
        exact hs
      of_mem := by
        intro path' s' hs'
        by_cases hid : s'.manifest.id = s.manifest.id
        · obtain rfl := h.holds.ids _ _ s' hs' s hs hid
          exact .inl ⟨(h.holds.path path' s' hs').symm, rfl⟩
        · exact .inr ⟨hid, hs'⟩
      other := fun hs' _ => hs'
      indexes := fun _ => rfl }
  keeps path' s' hs' hid := by
    obtain rfl := h.holds.ids _ _ s' hs' s hs hid
    exact ⟨rfl, fun _ hbatch => hbatch, hlog⟩
  holds := hholds
  named := h.holds.named path s hs
  new r hr := by
    rw [h.holds.path path s hs]
    exact (hnew r hr).imp (fun hr => ⟨path, s, hs, rfl, hr⟩) id

/-- `finish` or `recover` copies what is stored. -/
theorem Written.Inv.copy (hstored : w.storage.Stored w.contentsOf object bytes) :
    (w.copy object bytes).Inv where
  holds := h.holds.putSnapshot fun bytes' hlogged => hstored.elim
    (fun hcopied => h.holds.snapshots _ _ _ hcopied hlogged)
    fun hfound => h.holds.unique hfound hlogged
  logged_le := by
    intro path s hs
    rw [Written.copy, putSnapshot_archive] at hs
    exact h.logged_le path s hs
  copied_le directory version hcopied := by
    rcases lookup_putSnapshot_ne_none hcopied with rfl | hcopied
    · exact h.stored_le hstored
    · exact h.copied_le directory version hcopied

/-- One segment of the archive is replaced; its log stays. -/
theorem Written.Inv.set_segment {c : Contents} (hs : s ∈ (w.storage.archive path).segments)
    (hholds : s'.Holds w.storage c) (hmanifest : s'.manifest = s.manifest)
    (hbatches : ∀ batch ∈ s.batches, batch ∈ s'.batches)
    (hlog : c.log = (w.contentsOf s).log) :
    Written.Inv (w.change (w.storage.setSegment s') s' c) := by
  have hpath : s'.manifest.stream.path = path := by rw [hmanifest, h.holds.path path s hs]
  have hsame : ∀ path', ∀ t ∈ (w.storage.archive path').segments,
      t.manifest.id = s'.manifest.id → path' = path ∧ t = s := by
    intro path' t ht hid
    obtain rfl := h.holds.ids _ _ t ht s hs (hid.trans (by rw [hmanifest]))
    exact ⟨(h.holds.path path' t ht).symm.trans (h.holds.path path t hs), rfl⟩
  have hchange : Change w (w.storage.setSegment s') s' c :=
    { replaces := replaces_setSegment fun path' t ht hid => by
        rw [hpath]
        exact (hsame path' t ht hid).1
      keeps := fun path' t ht hid => by
        obtain ⟨-, rfl⟩ := hsame path' t ht hid
        exact ⟨hmanifest, hbatches, hlog ▸ List.prefix_refl _⟩
      holds := hholds
      named := hmanifest ▸ h.holds.named path s hs
      new := fun r hr => .inl ⟨path, s, hs, hmanifest.symm, hlog ▸ hr⟩ }
  refine h.change hchange (fun _ => Nat.le_refl _) fun r hr => ?_
  rw [hpath]
  exact h.logged_le path s hs r (hlog ▸ hr)

/-- What `put` has appended has a version that was not put before. -/
theorem Written.Inv.append (hs : s ∈ (w.storage.archive path).segments)
    (hnext : w.versions path < record.version)
    (hholds : s.Holds w.storage { w.contentsOf s with log := (w.contentsOf s).log ++ [record] }) :
    (w.append s path record).Inv := by
  have hle : w.versions ≤ Function.update w.versions path record.version :=
    le_update_self_iff.mpr hnext.le
  have hrecord : ∀ r ∈ (w.contentsOf s).log ++ [record],
      r ∈ (w.contentsOf s).log ∨ r = record := fun r hr =>
    (List.mem_append.mp hr).imp id List.mem_singleton.mp
  have hchange := h.change_contents hs hholds (List.prefix_append _ _) fun r hr =>
    (hrecord r hr).imp id (by rintro rfl; exact hnext)
  refine h.change hchange hle fun r hr => ?_
  rw [h.holds.path path s hs]
  rcases hrecord r hr with hr | rfl
  · exact (h.logged_le path s hs r hr).trans (hle path)
  · rw [Function.update_self]

/-- What the writers have flushed is acknowledged and becomes live and the latest. -/
theorem Written.Inv.acknowledge (hs : s ∈ (w.storage.archive path).segments)
    (hlast : (w.contentsOf s).log.getLast? = some record)
    (hholds : s.Holds w.storage { w.contentsOf s with acked := (w.contentsOf s).log.length }) :
    (w.acknowledge s record).Inv := by
  have hchange := h.change_contents hs hholds (List.prefix_refl _) fun _ hr => .inl hr
  have hacked : Written.Inv (w.change w.storage.archive s _) :=
    h.change hchange (fun _ => Nat.le_refl _) fun r hr => by
      rw [h.holds.path path s hs]
      exact h.logged_le path s hs r hr
  have hself : (w.change w.storage.archive s
      { w.contentsOf s with acked := (w.contentsOf s).log.length }).contentsOf s = _ :=
    contentsOf_self w w.storage.archive s _
  have hmem := mem_remember w.storage s.manifest (totalSize (w.contentsOf s).log) record.version
    record.size
  unfold Written.acknowledge
  generalize (w.storage.remember _ _ _ _).live = live at hmem ⊢
  refine ⟨hacked.holds.setLatest ?_ ?_, hacked.logged_le, hacked.copied_le⟩
  · intro entry hentry
    rcases hmem entry hentry with rfl | hold
    · -- the frame of the last record ends where the log ends
      refine .inr ⟨path, s, hs, (w.contentsOf s).log.length - 1, record, ?_, ?_⟩
      · rw [hself, ← List.getLast?_eq_getElem?]
        exact hlast
      · have hpos := List.length_pos_of_ne_nil (List.ne_nil_of_mem (List.mem_of_getLast? hlast))
        rw [hself, Nat.sub_add_cancel hpos, offsetOf, List.take_length]
    · exact .inl hold
  · intro object bytes hlatest
    obtain ⟨rfl, rfl⟩ := Prod.mk.inj (Option.some.inj hlatest)
    refine .inr ⟨path, s, hs, record, ?_, rfl, rfl⟩
    rw [hself]
    exact List.mem_of_getLast? hlast

/-- `put` in Standard mode stores a version that is nowhere yet. -/
theorem Written.Inv.store {stream : StateStream} {directory : String} {version : Nat}
    (hname : Named stream directory) (hnext : w.versions stream.path < version) :
    (w.store stream version bytes).Inv := by
  rw [hname.path] at hnext
  unfold Written.store
  rw [hname.object, hname.path]
  have hnew : ∀ bytes, ¬ w.storage.Stored w.contentsOf (recordObject directory version) bytes :=
    fun bytes hstored => absurd (h.stored_le hstored) (Nat.not_le.mpr hnext)
  have hnone : w.storage.snapshots.lookup (recordObject directory version) = none :=
    Option.eq_none_iff_forall_ne_some.mpr fun bytes hcopied => hnew bytes (.inl hcopied)
  have hholds : (w.storage.putSnapshot (recordObject directory version) bytes).Holds
      w.contentsOf :=
    h.holds.putSnapshot fun bytes' hlogged => absurd (.inr hlogged) (hnew bytes')
  have hle : w.versions ≤ Function.update w.versions (directory ++ "/") version :=
    le_update_self_iff.mpr hnext.le
  refine ⟨hholds.setLatest (fun _ hentry => .inl hentry) ?_, ?_, ?_⟩
  · intro object found hlatest
    obtain ⟨rfl, rfl⟩ := Prod.mk.inj (Option.some.inj hlatest)
    exact .inl (lookup_putSnapshot_self hnone)
  · intro path s hs r hr
    rw [putSnapshot_archive] at hs
    exact (h.logged_le path s hs r hr).trans (hle path)
  · intro directory' version' hcopied
    rcases lookup_putSnapshot_ne_none hcopied with heq | hcopied
    · obtain ⟨rfl, rfl⟩ := recordObject_inj heq
      exact (Function.update_self (directory' ++ "/") version' w.versions).ge
    · exact (h.copied_le directory' version' hcopied).trans (hle _)

/-- **Every write keeps the invariant.** -/
theorem Written.Inv.step (hstep : Step w w') : w'.Inv := by
  cases hstep with
  | @opened manifest others directory hname hid =>
    have hchange : Change w (w.storage.setSegment (.opened manifest others))
        (.opened manifest others) ⟨[], 0, 0⟩ :=
      { replaces := replaces_setSegment fun path s hs heq => absurd heq (hid path s hs)
        keeps := fun path s hs heq => absurd heq (hid path s hs)
        holds := StoredSegment.holds_opened manifest others
        named := ⟨directory, hname⟩
        new := nofun }
    exact h.change hchange (fun _ => Nat.le_refl _) nofun
  | appended record hs hopen hhealthy hnext hfollows hidentity hencodable =>
    exact h.append hs hnext
      ((h.holds.segment _ _ hs).append hopen hfollows hidentity hencodable)
  | acknowledged record hs hopen hlast hflushed =>
    exact h.acknowledge hs hlast ((h.holds.segment _ _ hs).acknowledge hopen hflushed)
  | zone i replica hs hcopy hacked hanswers =>
    have hset := h.set_segment hs ((h.holds.segment _ _ hs).setReplica hcopy hacked hanswers) rfl
      (fun _ hbatch => hbatch) rfl
    rw [change_contentsOf] at hset
    exacts [hset, rfl]
  | uploaded hs hopen hstart hab hbound =>
    exact h.set_segment hs ((h.holds.segment _ _ hs).addBatch hopen hstart hab hbound) rfl
      (fun _ hbatch => List.mem_cons_of_mem _ hbatch) rfl
  | marked hs hcovered hvalid =>
    have hset := h.set_segment hs ((h.holds.segment _ _ hs).mark hcovered hvalid) rfl
      (fun _ hbatch => hbatch) rfl
    rw [change_contentsOf] at hset
    exacts [hset, rfl]
  | indexed hs hbatch hentry =>
    refine ⟨h.holds.addIndex hs hbatch hentry, fun path s hs => ?_, h.copied_le⟩
    exact h.logged_le path s (by rwa [Written.index, segments_addIndex] at hs)
  | stored hname hreference hnext =>
    obtain ⟨_, -, hreference⟩ := bind_eq_ok.mp hreference
    obtain ⟨_, -, hreference⟩ := bind_eq_ok.mp hreference
    obtain ⟨_, -, hreference⟩ := bind_eq_ok.mp hreference
    obtain rfl := Except.ok.inj hreference
    exact h.store hname hnext
  | copied hlatest => exact h.copy (h.holds.latest _ _ hlatest)
  | recovered hlatest => exact h.copy (h.holds.stored_of_latestUnder hlatest)
  | restored hread =>
    refine ⟨h.holds.setLatest (fun _ hentry => .inl hentry) fun object bytes heq => ?_,
      h.logged_le, h.copied_le⟩
    obtain ⟨rfl, rfl⟩ := Prod.mk.inj (Option.some.inj heq)
    exact hread.elim h.holds.stored_of_get fun ⟨_, hlatest⟩ =>
      h.holds.stored_of_latestUnder hlatest
  | finished =>
    exact ⟨h.holds.setLatest (fun _ hentry => .inl hentry) nofun, h.logged_le, h.copied_le⟩
  | restarted => exact ⟨h.holds.setLatest nofun nofun, h.logged_le, h.copied_le⟩

end Steps

/-! ## All reached states -/

section Run

variable {codec : Codec} {digest : Digest} {batchBytes : Nat} {hpos : 0 < batchBytes} {w : Written}

theorem Written.inv_empty : (Written.empty codec digest batchBytes hpos).Inv where
  holds := by
    constructor
    case snapshots => exact fun _ _ _ hcopied => nomatch hcopied
    all_goals exact nofun
  logged_le := nofun
  copied_le _ _ hcopied := absurd rfl hcopied

theorem Reached.inv (h : Reached codec digest batchBytes hpos w) : w.Inv := by
  induction h with
  | empty => exact Written.inv_empty
  | step _ hstep ih => exact ih.step hstep

/-- **All read paths agree** in every state that writes lead to, on an object that the log
has acknowledged: what is cached, live, copied, indexed or scanned under its name is the log's
record, every other record they return is one of the log, `get` returns the record, and the
reads serve the restore of any history. -/
theorem read_paths_agree (h : Reached codec digest batchBytes hpos w) {object : String}
    {bytes : Bytes} (hacked : w.storage.Acknowledged w.contentsOf object bytes) :
    (∀ found, w.storage.cached object = some found → found = bytes) ∧
    (∀ first records, w.storage.liveRecords object first = .ok (some records) →
      Reads w.storage w.contentsOf object bytes records) ∧
    (∀ found, w.storage.snapshots.lookup object = some found → found = bytes) ∧
    (∀ first keys records, w.storage.indexedRecords object first keys = some records →
      Reads w.storage w.contentsOf object bytes records) ∧
    (∃ directory version records, object = recordObject directory version ∧
      w.storage.records (directory ++ "/") = .ok records ∧
      Reads w.storage w.contentsOf object bytes records) ∧
    w.storage.get object = .ok (some bytes) ∧
    ∀ names log, (∀ object bytes, log object = some bytes ↔
        w.storage.Acknowledged w.contentsOf object bytes) →
      (w.storage.reader names).Serves log := by
  have hholds := h.inv.holds
  have hlogged := hacked.logged
  refine ⟨?_, ?_, ?_, ?_, hholds.reads_scan hacked, hholds.get hacked,
    fun names log hlog => hholds.serves names hlog⟩
  · intro found hcached
    exact hholds.reads_cached hlogged hcached
  · intro first records hlive
    exact hholds.reads_live hlogged hlive
  · intro found hcopied
    exact hholds.snapshots _ _ _ hcopied hlogged
  · intro first keys records hindexed
    exact hholds.reads_indexed hlogged hindexed

end Run

/-! ## The two records of a cart

Both are put on one segment with two zones.  The first is archived, indexed and copied before
the second is put, so that it is live, copied and indexed, and the second is cached and live. -/

def cartManifest : Manifest := ⟨"log", cartStream, 1, Nat.one_pos⟩

def cartDirectory : String :=
  "durable-actors/v3/snapshots/0a/c2hvcA/Q2FydA/YWxpY2U" ++ ("/" ++ hex32 1)

def firstRecord : Record := ⟨1, Sqlite.das2 Sqlite.firstHeader⟩

def secondRecord : Record := ⟨2, Sqlite.das2 Sqlite.secondHeader⟩

def firstIndex : IndexKey × Index :=
  (⟨Sqlite.cartPath, 1, 1, "log"⟩, ⟨⟨Sqlite.cartPath, "log", 0, 300⟩, [⟨1, 0, 300⟩]⟩)

def zone (log : List Record) : Replica := ⟨encodeAll sha256 log, false, false⟩

def cartSegment (batches : List Batch) (here there : List Record) : StoredSegment :=
  ⟨cartManifest, batches, [zone here, zone there], none⟩

/-- The segment when the first record is archived. -/
def batched (here there : List Record) : StoredSegment :=
  cartSegment [batchOf sha256 [firstRecord] 0 1] here there

def afterOpen : Written :=
  (Written.empty Sqlite.cartSerde.toCodec sha256 262144 (by decide)).openSegment cartManifest 1

def afterFirst : Written :=
  (((afterOpen.append (cartSegment [] [] []) Sqlite.cartPath firstRecord).setSegment
    (cartSegment [] [firstRecord] [])).setSegment
    (cartSegment [] [firstRecord] [firstRecord])).acknowledge
    (cartSegment [] [firstRecord] [firstRecord]) firstRecord

def afterArchive : Written :=
  ((afterFirst.upload (cartSegment [] [firstRecord] [firstRecord]) 0 1).index Sqlite.cartPath
    firstIndex).copy Sqlite.firstObject firstRecord.state

def flushedHere : Written :=
  (afterArchive.append (batched [firstRecord] [firstRecord]) Sqlite.cartPath
    secondRecord).setSegment (batched [firstRecord, secondRecord] [firstRecord])

def afterSecond : Written :=
  (flushedHere.setSegment
    (batched [firstRecord, secondRecord] [firstRecord, secondRecord])).acknowledge
    (batched [firstRecord, secondRecord] [firstRecord, secondRecord]) secondRecord

theorem mem_setSegment (w : Written) (s : StoredSegment) :
    s ∈ ((w.setSegment s).storage.archive s.manifest.stream.path).segments := by
  show s ∈ (Function.update w.storage.archive s.manifest.stream.path _
    s.manifest.stream.path).segments
  rw [Function.update_self]
  exact List.mem_cons_self

theorem flushed_both (batches : List Batch) (log : List Record) :
    ∀ replica ∈ (cartSegment batches log log).replicas, totalSize log ≤ replica.bytes.length := by
  intro replica hreplica
  simp only [cartSegment, List.mem_cons, List.not_mem_nil, or_false, or_self] at hreplica
  rw [hreplica, zone, length_encodeAll]

abbrev CartReached (w : Written) : Prop :=
  Reached Sqlite.cartSerde.toCodec sha256 262144 (by decide) w

theorem afterFirst_reached : CartReached afterFirst := by
  have hname : Named cartStream cartDirectory := ⟨by decide +kernel, _, rfl⟩
  have hopened : CartReached afterOpen := .step .empty (.opened 1 hname nofun)
  have hmem : cartSegment [] [] [] ∈ (afterOpen.storage.archive Sqlite.cartPath).segments :=
    mem_setSegment _ (.opened cartManifest 1)
  have happended := hopened.step (.appended firstRecord hmem rfl rfl Nat.one_pos nofun
    (by decide +kernel) (by decide +kernel))
  have hhere := happended.step (.zone 0 (zone [firstRecord]) hmem (List.prefix_refl _)
    (Nat.zero_le _) fun _ => ⟨_, List.mem_cons_self, rfl⟩)
  have hthere := hhere.step (.zone 1 (zone [firstRecord])
    (mem_setSegment _ (cartSegment [] [firstRecord] [])) (List.prefix_refl _)
    (Nat.zero_le _) fun _ => ⟨_, List.mem_cons_self, rfl⟩)
  exact hthere.step (.acknowledged firstRecord
    (mem_setSegment _ (cartSegment [] [firstRecord] [firstRecord])) rfl rfl
    (flushed_both [] [firstRecord]))

theorem batched_mem : batched [firstRecord] [firstRecord] ∈
    (afterArchive.storage.archive Sqlite.cartPath).segments := by
  rw [afterArchive, Written.copy, putSnapshot_archive, Written.index, segments_addIndex]
  exact mem_setSegment afterFirst (batched [firstRecord] [firstRecord])

theorem afterArchive_reached : CartReached afterArchive := by
  have huploaded := afterFirst_reached.step (.uploaded (a := 0) (b := 1)
    (mem_setSegment _ (cartSegment [] [firstRecord] [firstRecord])) rfl (Nat.zero_le _)
    Nat.one_pos (Nat.le_refl _))
  have hindexed := huploaded.step (@Step.indexed _ Sqlite.cartPath
    (batched [firstRecord] [firstRecord]) (batchOf sha256 [firstRecord] 0 1) firstIndex
    (mem_setSegment afterFirst (batched [firstRecord] [firstRecord])) List.mem_cons_self
    (by decide +kernel))
  exact hindexed.step (.copied rfl)

theorem afterSecond_reached : CartReached afterSecond := by
  have happended := afterArchive_reached.step (.appended secondRecord batched_mem rfl rfl
    (by decide +kernel) (by decide +kernel) (by decide +kernel) (by decide +kernel))
  have hhere := happended.step (.zone 0 (zone [firstRecord, secondRecord]) batched_mem
    (List.prefix_refl _) (by decide +kernel) fun _ => ⟨_, List.mem_cons_self, rfl⟩)
  have hthere := hhere.step (.zone 1 (zone [firstRecord, secondRecord])
    (mem_setSegment _ (batched [firstRecord, secondRecord] [firstRecord])) (List.prefix_refl _)
    (by decide +kernel) fun _ => ⟨_, List.mem_cons_self, rfl⟩)
  exact hthere.step (.acknowledged secondRecord
    (mem_setSegment _ (batched [firstRecord, secondRecord] [firstRecord, secondRecord])) rfl rfl
    (flushed_both _ [firstRecord, secondRecord]))

/-- The first record is live, copied and indexed, the second is cached and live; `get` returns
both. -/
theorem read_paths_agree_pair :
    afterSecond.storage.cached Sqlite.secondObject = some secondRecord.state ∧
    afterSecond.storage.liveRecords Sqlite.secondObject 1 =
      .ok (some [(Sqlite.firstObject, firstRecord.state),
        (Sqlite.secondObject, secondRecord.state)]) ∧
    afterSecond.storage.snapshots.lookup Sqlite.firstObject = some firstRecord.state ∧
    afterSecond.storage.indexedRecords Sqlite.firstObject 1 [firstIndex.1] =
      some [(Sqlite.firstObject, firstRecord.state)] ∧
    afterSecond.storage.get Sqlite.firstObject = .ok (some firstRecord.state) ∧
    afterSecond.storage.get Sqlite.secondObject = .ok (some secondRecord.state) := by
  have hmem : batched [firstRecord, secondRecord] [firstRecord, secondRecord] ∈
      (afterSecond.storage.archive Sqlite.cartPath).segments := mem_setSegment flushedHere _
  refine ⟨by decide +kernel, by decide +kernel, by decide +kernel, by decide +kernel, ?_, ?_⟩
  · exact (read_paths_agree afterSecond_reached ⟨_, _, hmem, firstRecord, List.mem_cons_self,
      by decide +kernel, rfl⟩).2.2.2.2.2.1
  · exact (read_paths_agree afterSecond_reached ⟨_, _, hmem, secondRecord,
      List.mem_cons_of_mem _ List.mem_cons_self, by decide +kernel, rfl⟩).2.2.2.2.2.1

end DurableActors.Ports.Rapid
