import DurableActors.Ports.LogSlices
import DurableActors.Ports.RapidGapless
import DurableActors.Ports.RapidReaders
import DurableActors.Ports.StoragePaths

/-!
# All read paths return the record of the log

A storage holds a log when its segments hold stretches of it, its batches, index
objects and live records describe whole frames of these stretches, and what is
cached or was copied to the Standard store is what the log has.  Then every path
that returns a record for an object returns the log's, and `get` finds it.
-/

namespace DurableActors.Ports.Rapid

open Verified
open Verified.Checked
open Sqlite (Codec StateStream StateSnapshot SnapshotRef parsed)
open StoragePaths (slash_not_mem_file slash_not_mem_hex)
open Log

variable {bytes : Bytes} {a b first i k length start : Nat} {r record : Record}
  {s segment : StoredSegment} {directory : String} {rs : List Record}

/-! ## Names -/

theorem rsplitOnce_recordObject (directory : String) (version : Nat) :
    Text.rsplitOnce '/' (recordObject directory version) =
      some (directory, toString version ++ ".json") :=
  Text.rsplitOnce_append (slash_not_mem_file version)

theorem snapshotVersion_recordObject (directory : String) {version : Nat}
    (h : version < 2 ^ 64) : snapshotVersion (recordObject directory version) = some version := by
  have hlast : Text.lastPart '/' (recordObject directory version) =
      toString version ++ ".json" := Text.lastPart_append (slash_not_mem_file version)
  rw [snapshotVersion, hlast, Text.stripSuffix_append]
  exact Text.parseU64_toString h

theorem recordObject_inj {directory' : String} {version version' : Nat}
    (h : recordObject directory version = recordObject directory' version') :
    directory = directory' ∧ version = version' := by
  have hsplit := congrArg (Text.rsplitOnce '/') h
  rw [rsplitOnce_recordObject, rsplitOnce_recordObject] at hsplit
  obtain ⟨hdirectory, hfile⟩ := Prod.mk.inj (Option.some.inj hsplit)
  exact ⟨hdirectory, Text.toString_inj ((String.append_left_inj _).mp hfile)⟩

/-- The epoch directory a stream writes to. -/
structure Named (stream : StateStream) (directory : String) : Prop where
  path : stream.path = directory ++ "/"
  epoch : ∃ parent, directory = parent ++ ("/" ++ hex32 stream.epoch)

theorem Named.object {stream : StateStream} (h : Named stream directory) (version : Nat) :
    stream.object version = recordObject directory version := by
  rw [StateStream.object, h.path, recordObject]
  simp only [String.append_assoc]

theorem Named.secondLast {stream : StateStream} (h : Named stream directory) (version : Nat) :
    Text.secondLastPart '/' (recordObject directory version) = some (hex32 stream.epoch) := by
  obtain ⟨parent, rfl⟩ := h.epoch
  rw [Text.secondLastPart, rsplitOnce_recordObject, Option.map_some]
  exact congrArg some (Text.lastPart_append (slash_not_mem_hex 32 _))

/-! ## A storage that holds a log -/

/-- What was written to a segment: its records, how many of them were acknowledged,
and how many the batches hold.  The records after the acknowledged ones are those of an
append that was not confirmed. -/
structure Contents where
  log : List Record
  acked : Nat
  archived : Nat
deriving DecidableEq, Repr

/-- A segment holds a stretch of the log.  Its batches are cut between frames; a replica
that answers has every acknowledged frame; before a segment is marked `replicated` some
replica answers, and after that the batches have every acknowledged record. -/
structure StoredSegment.Holds (storage : Storage) (segment : StoredSegment) (c : Contents) :
    Prop where
  wellFormed : ∃ first, WellFormed (storage.segmentConfig segment) first c.log
  acked_le : c.acked ≤ c.log.length
  aligned : ∀ batch ∈ segment.batches, ∃ a b,
    Aligned (storage.segmentConfig segment) c.log batch a b
  covered : ∀ k, CoveredBy (storage.segmentConfig segment) c.log segment.batches k ↔ k < c.archived
  copies : ∀ replica ∈ segment.replicas, replica.deleted = false →
    replica.bytes <+: encodeAll storage.digest c.log ∧
      offsetOf c.log c.acked ≤ replica.bytes.length
  marked : ∀ closed ∈ segment.replicated, c.acked ≤ c.archived ∧
    closed.validate (storage.segmentConfig segment) (offsetOf c.log c.archived)
      (c.log.take c.archived) = true
  unmarked : segment.replicated = none → ∃ replica ∈ segment.replicas, replica.deleted = false

variable (storage : Storage) (contents : StoredSegment → Contents)

/-- The log has these bytes under the object's name. -/
def Storage.Logged (object : String) (bytes : Bytes) : Prop :=
  ∃ directory, ∃ segment ∈ (storage.archive directory).segments,
    ∃ record ∈ (contents segment).log,
      object = segment.manifest.stream.object record.version ∧ bytes = record.state

/-- The log has acknowledged these bytes under the object's name. -/
def Storage.Acknowledged (object : String) (bytes : Bytes) : Prop :=
  ∃ directory, ∃ segment ∈ (storage.archive directory).segments,
    ∃ record ∈ (contents segment).log.take (contents segment).acked,
      object = segment.manifest.stream.object record.version ∧ bytes = record.state

/-- The object is in the log or in the Standard store. -/
def Storage.Stored (object : String) (bytes : Bytes) : Prop :=
  storage.snapshots.lookup object = some bytes ∨ storage.Logged contents object bytes

/-- The storage holds the log that is partitioned into the contents of its segments. -/
structure Storage.Holds : Prop where
  segment : ∀ directory, ∀ s ∈ (storage.archive directory).segments,
    s.Holds storage (contents s)
  path : ∀ directory, ∀ s ∈ (storage.archive directory).segments,
    s.manifest.stream.path = directory
  named : ∀ directory, ∀ s ∈ (storage.archive directory).segments,
    ∃ name, Named s.manifest.stream name
  ids : ∀ directory directory', ∀ s ∈ (storage.archive directory).segments,
    ∀ s' ∈ (storage.archive directory').segments, s.manifest.id = s'.manifest.id → s = s'
  partition : ∀ directory, ∀ s ∈ (storage.archive directory).segments,
    ∀ s' ∈ (storage.archive directory).segments, ∀ r ∈ (contents s).log,
    ∀ r' ∈ (contents s').log, r.version = r'.version → r = r'
  indexes : ∀ directory, ∀ entry ∈ (storage.archive directory).indexes,
    ∃ s ∈ (storage.archive directory).segments, ∃ batch ∈ s.batches,
      storage.indexBatch s.manifest ⟨directory, s.manifest.id, batch.start, batch.stop⟩
        batch.bytes = .ok entry
  live : ∀ entry ∈ storage.live,
    ∃ s ∈ (storage.archive entry.2.manifest.stream.path).segments,
      s.manifest = entry.2.manifest ∧ ∃ k r, (contents s).log[k]? = some r ∧
        r.version = entry.1 ∧ entry.2.start = offsetOf (contents s).log k ∧
        entry.2.length = r.size
  snapshots : ∀ object bytes bytes', storage.snapshots.lookup object = some bytes →
    storage.Logged contents object bytes' → bytes = bytes'
  latest : ∀ object bytes, storage.latest = some (object, bytes) →
    storage.Stored contents object bytes

variable {storage contents}

theorem Storage.Acknowledged.logged {object : String}
    (h : storage.Acknowledged contents object bytes) : storage.Logged contents object bytes := by
  obtain ⟨directory, segment, hsegment, record, hrecord, hobject⟩ := h
  exact ⟨directory, segment, hsegment, record, List.mem_of_mem_take hrecord, hobject⟩

/-- The log has one value for an object. -/
theorem Storage.Holds.unique (h : storage.Holds contents) {object : String}
    {bytes' : Bytes} (hl : storage.Logged contents object bytes)
    (hl' : storage.Logged contents object bytes') : bytes = bytes' := by
  obtain ⟨directory, s, hs, r, hr, hobject, rfl⟩ := hl
  obtain ⟨directory', s', hs', r', hr', hobject', rfl⟩ := hl'
  obtain ⟨name, hname⟩ := h.named _ s hs
  obtain ⟨name', hname'⟩ := h.named _ s' hs'
  rw [hname.object] at hobject
  rw [hobject, hname'.object] at hobject'
  obtain ⟨hsame, hversion⟩ := recordObject_inj hobject'
  have hdirectory : directory = directory' := by
    rw [← h.path _ s hs, ← h.path _ s' hs', hname.path, hname'.path, hsame]
  subst hdirectory
  rw [h.partition _ s hs s' hs' r hr r' hr' hversion]

/-! ## Decoding a stretch of a segment -/

/-- The records of a run as the ranged reads return them. -/
def recordsOf (directory : String) (rs : List Record) : Records :=
  rs.map fun r => (recordObject directory r.version, r.state)

/-- What the identity check of a segment says of a record. -/
theorem snapshot_of_identity (hidentity : (storage.segmentConfig segment).identity record = true) :
    segment.manifest.firstVersion ≤ record.version ∧ ∃ reference,
      segment.manifest.stream.snapshot storage.codec record.state = .ok reference ∧
        reference.version = record.version := by
  obtain ⟨hversion, hfirst⟩ := of_decide_eq_true hidentity
  obtain ⟨reference, hreference, hsame⟩ := Option.map_eq_some_iff.mp hversion
  refine ⟨hfirst, reference, ?_, hsame⟩
  cases hsnapshot : segment.manifest.stream.snapshot storage.codec record.state with
  | ok found => simpa [hsnapshot, Except.toOption] using hreference
  | error e => simp [hsnapshot, Except.toOption] at hreference

theorem validate_record (hname : Named segment.manifest.stream directory)
    (hidentity : (storage.segmentConfig segment).identity record = true)
    (hencodable : record.Encodable) :
    storage.validate (recordObject directory record.version) record = .ok () := by
  obtain ⟨-, reference, hreference, hsame⟩ := snapshot_of_identity hidentity
  obtain ⟨s, hdecode, hobject, hepoch, -, rfl⟩ := StateStream.snapshot_eq_ok hreference
  have hsame : s.version = record.version := hsame
  rw [hsame, hname.object] at hobject
  refine bind_ok hdecode (bind_ok hobject (ensure_ok ?_ (ensure_eq_ok.mpr ?_)))
  · simp [snapshotVersion_recordObject directory hencodable.2.1, hsame]
  · simp [hname.secondLast, hepoch]

theorem lookup_recordsOf {version : Nat} :
    (recordsOf directory rs).lookup (recordObject directory version) =
      (rs.find? (·.version = version)).map Record.state := by
  induction rs with
  | nil => rfl
  | cons r rs ih =>
    by_cases hversion : r.version = version
    · simp [recordsOf, hversion]
    · have hne : recordObject directory version ≠ recordObject directory r.version :=
        fun h => hversion (recordObject_inj h).2.symm
      rw [recordsOf, List.map_cons, List.lookup_cons, beq_eq_false_iff_ne.mpr hne,
        List.find?_cons_of_neg (by simpa using hversion)]
      exact ih

/-- A run of records is collected under their names. -/
theorem collect_run (hname : Named segment.manifest.stream directory)
    (hrs : ∀ r ∈ rs, (storage.segmentConfig segment).identity r = true ∧ r.Encodable)
    (hnodup : (rs.map Record.version).Nodup) (length : Nat) (before : List Record)
    (hfresh : ∀ r ∈ rs, ∀ b ∈ before, b.version ≠ r.version) :
    storage.collect directory rs length (recordsOf directory before) =
      .ok (length + totalSize rs, recordsOf directory (before ++ rs)) := by
  induction rs generalizing length before with
  | nil => simp [Storage.collect]
  | cons r rs ih =>
    rw [List.map_cons, List.nodup_cons] at hnodup
    obtain ⟨hnew, hnodup⟩ := hnodup
    have hr := hrs r List.mem_cons_self
    have hlookup : (recordsOf directory before).lookup (recordObject directory r.version) =
        none := by
      rw [lookup_recordsOf, List.find?_eq_none.mpr]
      · rfl
      · intro b hb
        simpa using hfresh r List.mem_cons_self b hb
    have hrest := ih (fun x hx => hrs x (List.mem_cons_of_mem _ hx)) hnodup
      (length + (headerLength + r.state.length)) (before ++ [r]) (by
        intro x hx b hb
        rcases List.mem_append.mp hb with hb | hb
        · exact hfresh x (List.mem_cons_of_mem _ hx) b hb
        · rw [List.mem_singleton.mp hb]
          exact fun h => hnew (h ▸ List.mem_map_of_mem hx))
    have hnamed : recordsOf directory before ++ [(recordObject directory r.version, r.state)] =
        recordsOf directory (before ++ [r]) := by simp [recordsOf]
    have hsize : length + (headerLength + r.state.length) + totalSize rs =
        length + totalSize (r :: rs) := by
      rw [totalSize_cons, Record.size, Nat.add_assoc]
    rw [List.append_assoc, List.singleton_append, hsize] at hrest
    rw [Storage.collect]
    refine bind_ok (validate_record hname hr.1 hr.2) (ensure_ok (by rw [hlookup]; rfl) ?_)
    rw [hnamed]
    exact hrest

/-- The bytes between two frame boundaries decode to the records in between. -/
theorem StoredSegment.Holds.decodeRecords {c : Contents} (h : segment.Holds storage c)
    (hname : Named segment.manifest.stream directory) (a n : Nat) :
    storage.decodeRecords directory (encodeAll storage.digest ((c.log.drop a).take n)) =
      .ok (recordsOf directory ((c.log.drop a).take n)) := by
  obtain ⟨first, hlog⟩ := h.wellFormed
  have hmem : ∀ r ∈ (c.log.drop a).take n, r ∈ c.log := fun r hr =>
    List.mem_of_mem_drop (List.mem_of_mem_take hr)
  have hdecode : decode storage.digest (encodeAll storage.digest ((c.log.drop a).take n)) =
      .ok ((c.log.drop a).take n) :=
    decode_encodeAll storage.digest (fun r hr => hlog.encodable r (hmem r hr))
      (hlog.consecutive_drop _ a n)
  have hnodup : (((c.log.drop a).take n).map Record.version).Nodup :=
    (hlog.nodup _).sublist (((List.take_sublist _ _).trans (List.drop_sublist _ _)).map _)
  have hcollect := collect_run hname
    (fun r hr => ⟨hlog.identity r (hmem r hr), hlog.encodable r (hmem r hr)⟩) hnodup 0 []
    (by simp)
  refine bind_ok (by rw [hdecode]; rfl) (bind_ok hcollect ?_)
  refine ensure_ok ?_ (by rw [List.nil_append]; rfl)
  rw [length_encodeAll]
  simp

/-- The records of a stretch are the log's, and a record in it is found by its object. -/
structure Reads (storage : Storage) (contents : StoredSegment → Contents) (object : String)
    (bytes : Bytes) (records : Records) : Prop where
  found : records.lookup object = some bytes
  logged : ∀ entry ∈ records, storage.Logged contents entry.1 entry.2

variable (h : storage.Holds contents)
include h

section

variable (hsegment : segment ∈ (storage.archive directory).segments)
include hsegment

theorem Storage.Holds.reads {name : String} (hname : Named segment.manifest.stream name)
    (hrs : rs.Sublist (contents segment).log) (hrecord : record ∈ rs) :
    Reads storage contents (recordObject name record.version) record.state (recordsOf name rs) := by
  obtain ⟨first, hlog⟩ := (h.segment directory segment hsegment).wellFormed
  refine ⟨?_, ?_⟩
  · obtain ⟨found, hfound⟩ : ∃ found, rs.find? (·.version = record.version) = some found := by
      apply Option.isSome_iff_exists.mp
      rw [List.find?_isSome]
      exact ⟨record, hrecord, by simp⟩
    have hsame : found.version = record.version := by simpa using List.find?_some hfound
    rw [lookup_recordsOf, hfound, Option.map_some,
      hlog.version_inj _ (hrs.subset (List.mem_of_find?_eq_some hfound)) (hrs.subset hrecord) hsame]
  · intro entry hentry
    obtain ⟨r, hr, rfl⟩ := List.mem_map.mp hentry
    exact ⟨directory, segment, hsegment, r, hrs.subset hr, (hname.object _).symm, rfl⟩

/-! ## Live records -/

omit h hsegment in
/-- A live record that describes the frames `i` to `k` of a segment. -/
structure Spans (log : List Record) (record : LiveRecord) (i k : Nat) : Prop where
  le : i ≤ k
  bound : k ≤ log.length
  start : record.start = offsetOf log i
  stop : record.start + record.length = offsetOf log k

theorem Storage.Holds.extendRange_spans (limit : Nat) {before : List LiveRecord}
    {record : LiveRecord} (hspans : Spans (contents segment).log record i k)
    (hmanifest : record.manifest = segment.manifest)
    (hbefore : ∀ prior ∈ before, ∃ version, (version, prior) ∈ storage.live) :
    (extendRange limit record before).manifest = segment.manifest ∧
      ∃ j ≤ i, Spans (contents segment).log (extendRange limit record before) j k := by
  induction before generalizing record i with
  | nil => exact ⟨hmanifest, i, le_rfl, hspans⟩
  | cons prior before ih =>
    rw [extendRange]
    split
    · exact ⟨hmanifest, i, le_rfl, hspans⟩
    · rename_i hcond
      simp only [not_or, Decidable.not_not, Nat.not_lt] at hcond
      obtain ⟨hid, hadjacent, -⟩ := hcond
      obtain ⟨version, hlive⟩ := hbefore prior List.mem_cons_self
      obtain ⟨s, hs, hsame, j, r, hr, -, hstart, hlength⟩ := h.live _ hlive
      -- the prior record lies in the same segment, right before this one
      obtain rfl : s = segment := by
        apply h.ids _ _ s hs segment hsegment
        rw [hsame, hid, hmanifest]
      have hj := (List.getElem?_eq_some_iff.mp hr).1
      have hnext : offsetOf (contents s).log (j + 1) = offsetOf (contents s).log i := by
        rw [offsetOf_succ hr, ← hstart, ← hlength, hadjacent, hspans.start]
      have hij : j + 1 = i := offsetOf_inj hj (hspans.le.trans hspans.bound) hnext
      have hstop := hspans.stop
      have hle := hspans.le
      have hextended : Spans (contents s).log { record with
          start := prior.start, length := record.length + prior.length } j k :=
        ⟨by omega, hspans.bound, hstart, by dsimp only; omega⟩
      obtain ⟨hmanifest', j', hj', hspans'⟩ := ih hextended hmanifest
        (fun p hp => hbefore p (List.mem_cons_of_mem _ hp))
      exact ⟨hmanifest', j', by omega, hspans'⟩

/-- A range of a segment, read from a replica. -/
theorem Storage.Holds.readRange {record : LiveRecord}
    (hmanifest : record.manifest = segment.manifest)
    (hspans : Spans (contents segment).log record i k)
    (hread : storage.readRange record.manifest record.start record.length = some bytes) :
    bytes = encodeAll storage.digest (((contents segment).log.drop i).take (k - i)) := by
  unfold Storage.readRange at hread
  split at hread
  · cases hread
  · rename_i found hfound
    have hmem := List.mem_of_find?_eq_some hfound
    have hfind : found.manifest = record.manifest := by simpa using List.find?_some hfound
    have hsame : found = segment := by
      apply h.ids _ _ found hmem segment hsegment
      rw [hfind, hmanifest]
    subst hsame
    obtain ⟨replica, hreplica, hbytes⟩ := List.exists_of_findSome?_eq_some hread
    unfold Replica.readRange at hbytes
    split at hbytes
    · rename_i hanswers
      obtain ⟨halive, hbound⟩ := hanswers
      obtain ⟨⟨rest, hcopy⟩, -⟩ :=
        (h.segment directory found hsegment).copies replica hreplica halive
      have hslice := encodeAll_slice storage.digest (contents found).log hspans.le
      rw [← hcopy, List.drop_append_of_le_length (by rw [← hspans.start]; omega),
        List.take_append_of_le_length (by
          rw [List.length_drop, ← hspans.start, ← hspans.stop]
          omega), ← hspans.start, ← hspans.stop, Nat.add_sub_cancel_left] at hslice
      rw [← Option.some.inj hbytes, hslice]
    · cases hbytes

end

omit h in
/-- Where an object of the log is found. -/
structure Located (storage : Storage) (contents : StoredSegment → Contents) (directory : String)
    (segment : StoredSegment) (record : Record) : Prop where
  segment_mem : segment ∈ (storage.archive (directory ++ "/")).segments
  name : Named segment.manifest.stream directory
  record_mem : record ∈ (contents segment).log

theorem Storage.Holds.located {object : String} (hlogged : storage.Logged contents object bytes) :
    ∃ directory segment record, Located storage contents directory segment record ∧
      object = recordObject directory record.version ∧ bytes = record.state := by
  obtain ⟨path, segment, hsegment, record, hrecord, rfl, rfl⟩ := hlogged
  obtain ⟨directory, hname⟩ := h.named path segment hsegment
  have hpath : path = directory ++ "/" := by rw [← h.path path segment hsegment, hname.path]
  subst hpath
  exact ⟨directory, segment, record, ⟨hsegment, hname, hrecord⟩, hname.object _, rfl⟩

section

variable (hlocated : Located storage contents directory segment record)
include hlocated

theorem Storage.Holds.version :
    snapshotVersion (recordObject directory record.version) = some record.version := by
  obtain ⟨first, hlog⟩ := (h.segment _ segment hlocated.segment_mem).wellFormed
  exact snapshotVersion_recordObject directory
    (hlog.encodable record hlocated.record_mem).2.1

/-- A record found under the object's name in some segment of its directory is the
log's record. -/
theorem Storage.Holds.same_record (hs : s ∈ (storage.archive (directory ++ "/")).segments)
    (hr : r ∈ (contents s).log) (hversion : r.version = record.version) : r = record :=
  h.partition _ s hs segment hlocated.segment_mem r hr record hlocated.record_mem hversion

omit hlocated in
/-- A segment whose objects bear the directory's name lies in the directory. -/
theorem Storage.Holds.named_of_object {path : String} (hs : s ∈ (storage.archive path).segments)
    {version : Nat} (hobject : s.manifest.stream.object version = recordObject directory version) :
    Named s.manifest.stream directory ∧ path = directory ++ "/" := by
  obtain ⟨name, hname⟩ := h.named path s hs
  rw [hname.object] at hobject
  obtain ⟨rfl, -⟩ := recordObject_inj hobject
  exact ⟨hname, by rw [← h.path path s hs, hname.path]⟩

omit h hlocated in
theorem mem_stretch {log : List Record} (hr : log[k]? = some r) (hik : i ≤ k) {n : Nat}
    (hn : k < i + n) : r ∈ (log.drop i).take n := by
  apply List.mem_of_getElem? (i := k - i)
  rw [List.getElem?_take_of_lt (by omega), List.getElem?_drop, Nat.add_sub_cancel' hik]
  exact hr

omit h hlocated in
theorem stretch_sublist (log : List Record) (i n : Nat) : ((log.drop i).take n).Sublist log :=
  (List.take_sublist _ _).trans (List.drop_sublist _ _)

/-- **Live records**: a range that ends with the record. -/
theorem Storage.Holds.liveRecords (hfirst : first ≤ record.version) :
    ∃ result, storage.liveRecords (recordObject directory record.version) first = .ok result ∧
      ∀ records ∈ result, Reads storage contents (recordObject directory record.version)
        record.state records := by
  have hversion := h.version hlocated
  cases hlive : (OrderedMap.lookup record.version storage.live).filter (fun live =>
      live.manifest.stream.object record.version = recordObject directory record.version) with
  | none =>
    refine ⟨none, ?_, by simp⟩
    have hrange : storage.liveRange (recordObject directory record.version) first = .ok none := by
      simp only [Storage.liveRange, hversion, hlive]
    rw [Storage.liveRecords, hrange]
    rfl
  | some live =>
    obtain ⟨hlookup, hobject⟩ := Option.filter_eq_some_iff.mp hlive
    have hobject := of_decide_eq_true hobject
    obtain ⟨s, hs, hmanifest, k, r, hr, hsame, hstart, hlength⟩ :=
      h.live _ (OrderedMap.lookup_eq_some_mem hlookup)
    rw [← hmanifest] at hobject
    obtain ⟨hname, hpath⟩ := h.named_of_object hs hobject
    rw [hpath] at hs
    obtain rfl := h.same_record hlocated hs (List.mem_of_getElem? hr) hsame
    have hk := (List.getElem?_eq_some_iff.mp hr).1
    have hspans : Spans (contents s).log live k (k + 1) :=
      ⟨Nat.le_succ k, hk, hstart, by rw [offsetOf_succ hr, ← hstart, ← hlength]⟩
    obtain ⟨before, hbefore, hrange⟩ : ∃ before : List LiveRecord,
        (∀ prior ∈ before, ∃ version, (version, prior) ∈ storage.live) ∧
        storage.liveRange (recordObject directory r.version) first =
          .ok (some (extendRange storage.batchBytes live before)) := by
      refine ⟨_, ?_, by
        simp only [Storage.liveRange, hversion, hlive]
        rw [if_neg (by omega)]⟩
      intro prior hprior
      obtain ⟨⟨version, _⟩, hmem, rfl⟩ := List.mem_map.mp hprior
      exact ⟨version, List.mem_of_mem_filter (List.mem_reverse.mp hmem)⟩
    obtain ⟨hmanifest', i, hik, hspans'⟩ := h.extendRange_spans hs storage.batchBytes hspans
      hmanifest.symm hbefore
    generalize extendRange storage.batchBytes live before = extended at *
    cases hread : storage.readRange extended.manifest extended.start extended.length with
    | none =>
      refine ⟨none, bind_ok hrange ?_, by simp⟩
      simp only [hread]
      rfl
    | some bytes =>
      obtain rfl := h.readRange hs hmanifest' hspans' hread
      have hreads := h.reads hs hname (stretch_sublist (contents s).log i (k + 1 - i))
        (mem_stretch hr hik (by omega))
      refine ⟨some _, bind_ok hrange ?_, by simpa using hreads⟩
      simp only [hread]
      refine bind_ok (by rw [rsplitOnce_recordObject]; rfl) ?_
      refine bind_ok ((h.segment _ s hs).decodeRecords hname i (k + 1 - i)) ?_
      exact ensure_ok (by rw [hreads.found]; rfl) rfl

/-! ## Indexed records -/

omit h hlocated in
theorem indexEntries_get (rs : List Record) (start k : Nat) :
    (indexEntries start rs).1[k]? =
      rs[k]?.map fun r => ⟨r.version, start + offsetOf rs k, r.size⟩ := by
  induction rs generalizing start k with
  | nil => simp [indexEntries]
  | cons r rs ih =>
    cases k with
    | zero => rfl
    | succ k =>
      have hnext : offsetOf (r :: rs) (k + 1) = r.size + offsetOf rs k := by
        rw [offsetOf, List.take_succ_cons, totalSize_cons]
        rfl
      rw [indexEntries]
      show (indexEntries (start + (headerLength + r.state.length)) rs).1[k]? = rs[k]?.map _
      have hstart : start + (headerLength + r.state.length) + offsetOf rs k =
          start + (r.size + offsetOf rs k) := by rw [Record.size, Nat.add_assoc]
      rw [ih, hnext, hstart]

omit h hlocated in
/-- What `index_batch` writes for a stretch of a log. -/
theorem indexBatch_eq_ok {manifest : Manifest} {batch : BatchKey}
    (hdecode : decode storage.digest bytes = .ok rs) {key : IndexKey} {index : Index}
    (h : storage.indexBatch manifest batch bytes = .ok (key, index)) :
    index.batch = batch ∧ index.records = (indexEntries 0 rs).1 := by
  obtain ⟨rs', hrs', hrest⟩ := bind_eq_ok.mp h
  rw [hdecode] at hrs'
  obtain rfl : rs = rs' := Except.ok.inj hrs'
  obtain ⟨_, -, hrest⟩ := bind_eq_ok.mp hrest
  obtain ⟨first, -, hrest⟩ := bind_eq_ok.mp hrest
  obtain ⟨last, -, hrest⟩ := bind_eq_ok.mp hrest
  cases hrest
  exact ⟨rfl, rfl⟩

omit h hlocated in
theorem extendStart_eq (first stop limit start : Nat) (entries : List Entry) :
    extendStart first stop limit start entries = start ∨
      ∃ entry ∈ entries, extendStart first stop limit start entries = entry.start := by
  induction entries generalizing start with
  | nil => exact .inl rfl
  | cons entry entries ih =>
    rw [extendStart]
    split
    · exact .inl rfl
    · rcases ih entry.start with h | ⟨e, he, h⟩
      · exact .inr ⟨entry, List.mem_cons_self, h⟩
      · exact .inr ⟨e, List.mem_cons_of_mem _ he, h⟩

omit h hlocated in
/-- The range of an index ends with the version and starts at a frame. -/
theorem index_range_eq_ok {index : Index} (hrecords : index.records = (indexEntries 0 rs).1)
    {version limit : Nat} (h : index.range first version limit = .ok (start, length)) :
    ∃ i k r, i ≤ k ∧ rs[k]? = some r ∧ r.version = version ∧ start = offsetOf rs i ∧
      length = offsetOf rs (k + 1) - offsetOf rs i := by
  have hentry : ∀ k (entry : Entry), index.records[k]? = some entry → ∃ r, rs[k]? = some r ∧
      entry = ⟨r.version, offsetOf rs k, r.size⟩ := by
    intro k entry hk
    rw [hrecords, indexEntries_get] at hk
    obtain ⟨r, hr, rfl⟩ := Option.map_eq_some_iff.mp hk
    exact ⟨r, hr, by rw [Nat.zero_add]⟩
  unfold Index.range at h
  split at h
  · cases h
  · rename_i k hk
    obtain ⟨entry, hindex, hreturn⟩ := bind_eq_ok.mp h
    obtain ⟨r, hr, rfl⟩ := hentry k entry (index_eq_ok.mp hindex)
    have hversion : r.version = version := by
      obtain ⟨hlt, hfound, -⟩ := List.findIdx?_eq_some_iff_getElem.mp hk
      have hget := List.getElem?_eq_some_iff.mp (index_eq_ok.mp hindex)
      rw [hget.2] at hfound
      exact of_decide_eq_true hfound
    have hstart : ∃ i ≤ k, extendStart first (offsetOf rs k + r.size) limit (offsetOf rs k)
        (index.records.take k).reverse = offsetOf rs i := by
      rcases extendStart_eq first (offsetOf rs k + r.size) limit (offsetOf rs k)
        (index.records.take k).reverse with hsame | ⟨e, he, hsame⟩
      · exact ⟨k, le_rfl, hsame⟩
      · obtain ⟨i, hi⟩ := List.mem_iff_getElem?.mp (List.mem_reverse.mp he)
        rw [List.getElem?_take] at hi
        split at hi
        · rename_i hik
          obtain ⟨x, -, rfl⟩ := hentry i e hi
          exact ⟨i, hik.le, hsame⟩
        · cases hi
    obtain ⟨i, hik, hstart⟩ := hstart
    cases hreturn
    refine ⟨i, k, r, hik, hr, hversion, hstart, ?_⟩
    rw [hstart, offsetOf_succ hr]

omit hlocated in
/-- The bytes a batch key and a range of its index name. -/
theorem Storage.Holds.batchRange (hs : s ∈ (storage.archive directory).segments) {batch : Batch}
    (haligned : Aligned (storage.segmentConfig s) (contents s).log batch a b)
    (hread : storage.batchRange ⟨directory, s.manifest.id, batch.start, batch.stop⟩ start length =
      some bytes) :
    bytes = ((encodeAll storage.digest (((contents s).log.drop a).take (b - a))).drop start).take
      length := by
  unfold Storage.batchRange at hread
  split at hread
  · cases hread
  · rename_i found hfound
    have hid : found.manifest.id = s.manifest.id := by simpa using List.find?_some hfound
    obtain rfl := h.ids _ _ found (List.mem_of_find?_eq_some hfound) s hs hid
    split at hread
    · cases hread
    · rename_i batch' hbatch'
      have hkey : batch'.start = batch.start ∧ batch'.stop = batch.stop := by
        simpa using List.find?_some hbatch'
      obtain ⟨a', b', haligned'⟩ := (h.segment _ found hs).aligned batch'
        (List.mem_of_find?_eq_some hbatch')
      -- a batch under the same key is cut at the same frames
      obtain rfl : a' = a := offsetOf_inj (haligned'.nonempty.le.trans haligned'.bound)
        (haligned.nonempty.le.trans haligned.bound)
        (by rw [← haligned'.start, ← haligned.start, hkey.1])
      obtain rfl : b' = b := offsetOf_inj haligned'.bound haligned.bound
        (by rw [← haligned'.stop, ← haligned.stop, hkey.2])
      split at hread
      · rw [← Option.some.inj hread, haligned'.bytes]
        rfl
      · cases hread

omit h hlocated in
theorem drop_take_stretch (log : List Record) (a n i m : Nat) :
    (((log.drop a).take n).drop i).take m = (log.drop (a + i)).take (min m (n - i)) := by
  rw [List.drop_take, List.drop_drop, List.take_take]

omit hlocated in
/-- Every segment of a directory bears its name. -/
theorem Storage.Holds.named_of_mem (hs : s ∈ (storage.archive (directory ++ "/")).segments) :
    Named s.manifest.stream directory := by
  obtain ⟨name, hname⟩ := h.named _ s hs
  have hpath : name ++ "/" = directory ++ "/" := by rw [← hname.path, h.path _ s hs]
  rwa [(String.append_left_inj _).mp hpath] at hname

omit h hlocated in
theorem StoredSegment.Holds.decode_batch {c : Contents} (h : segment.Holds storage c)
    {batch : Batch} (haligned : Aligned (storage.segmentConfig segment) c.log batch a b) :
    decode storage.digest batch.bytes = .ok ((c.log.drop a).take (b - a)) := by
  obtain ⟨first, hlog⟩ := h.wellFormed
  rw [haligned.bytes]
  apply decode_encodeAll storage.digest _ (hlog.consecutive_drop _ a (b - a))
  intro r hr
  exact hlog.encodable r ((stretch_sublist c.log a (b - a)).subset hr)

omit hlocated in
/-- An index object read for a version returns a stretch of its segment that has the
version. -/
theorem Storage.Holds.readIndex {object id : String} {version : Nat} {key : IndexKey}
    {records : Records} (hkey : key.directory = directory ++ "/")
    (hread : storage.readIndex object directory id first version key = .ok records) :
    (records.lookup object).isSome = true ∧
      ∃ s ∈ (storage.archive (directory ++ "/")).segments, ∃ rs, rs.Sublist (contents s).log ∧
        records = recordsOf directory rs ∧ ∃ r ∈ rs, r.version = version := by
  obtain ⟨index, hindex, hrest⟩ := bind_eq_ok.mp hread
  obtain ⟨_, -, hrest⟩ := bind_eq_ok.mp hrest
  obtain ⟨⟨start, length⟩, hrange, hrest⟩ := bind_eq_ok.mp hrest
  obtain ⟨bytes, hbytes, hrest⟩ := bind_eq_ok.mp hrest
  obtain ⟨found, hdecode, hrest⟩ := bind_eq_ok.mp hrest
  obtain ⟨_, hfound, hreturn⟩ := bind_eq_ok.mp hrest
  cases hreturn
  refine ⟨ensure_eq_ok.mp hfound, ?_⟩
  rw [hkey] at hindex
  obtain ⟨before, after, hindexes, -⟩ := List.lookup_eq_some_iff.mp (ofOption_eq_ok.mp hindex)
  obtain ⟨s, hs, batch, hbatch, hwritten⟩ := h.indexes _ (key, index) (by
    rw [hindexes]
    exact List.mem_append_right _ List.mem_cons_self)
  have hholds := h.segment _ s hs
  obtain ⟨a, b, haligned⟩ := hholds.aligned batch hbatch
  obtain ⟨hbatchKey, hrecords⟩ := indexBatch_eq_ok (hholds.decode_batch haligned) hwritten
  obtain ⟨i, k, r, hik, hr, hversion, rfl, rfl⟩ := index_range_eq_ok hrecords hrange
  rw [hbatchKey] at hbytes
  have hslice := h.batchRange hs haligned (ofOption_eq_ok.mp hbytes)
  rw [encodeAll_slice _ _ (by omega), drop_take_stretch] at hslice
  subst hslice
  rw [hholds.decodeRecords (h.named_of_mem hs)] at hdecode
  obtain rfl := Except.ok.inj hdecode
  refine ⟨s, hs, _, stretch_sublist _ _ _, rfl, r, ?_, hversion⟩
  rw [← drop_take_stretch]
  exact mem_stretch hr hik (by omega)

omit h hlocated in
theorem indexSegment_eq_ok {key : IndexKey} {segment : String} {version : Nat}
    (h : indexSegment key directory version = .ok (some segment)) : key.directory = directory := by
  by_contra hne
  simp [indexSegment, hne] at h

omit h hlocated in
/-- What a loop over the keys returns, one of them has returned. -/
theorem readKeys_eq_ok {object : String} {version : Nat} {keys : List IndexKey} {records : Records}
    (hread : storage.readKeys object directory first version keys = .ok (some records)) :
    ∃ key id, key.directory = directory ++ "/" ∧
      storage.readIndex object directory id first version key = .ok records := by
  induction keys with
  | nil => cases hread
  | cons key keys ih =>
    obtain ⟨found, hsegment, hrest⟩ := bind_eq_ok.mp hread
    cases found with
    | none => exact ih hrest
    | some id =>
      obtain ⟨found, hindex, hreturn⟩ := bind_eq_ok.mp hrest
      cases hreturn
      exact ⟨key, id, indexSegment_eq_ok hsegment, hindex⟩

omit hlocated in
/-- **Indexed records**: whatever keys are given, a stretch that has the object. -/
theorem Storage.Holds.indexedRecords {object : String} {keys : List IndexKey} {records : Records}
    (hread : storage.indexedRecords object first keys = some records) :
    (records.lookup object).isSome = true ∧ ∃ directory file,
      Text.rsplitOnce '/' object = some (directory, file) ∧
      ∃ s ∈ (storage.archive (directory ++ "/")).segments, ∃ rs, rs.Sublist (contents s).log ∧
        records = recordsOf directory rs ∧
          ∃ r ∈ rs, snapshotVersion object = some r.version := by
  unfold Storage.indexedRecords at hread
  split at hread
  · rename_i result hresult
    subst hread
    obtain ⟨version, hversion, hrest⟩ := bind_eq_ok.mp hresult
    obtain ⟨⟨directory, file⟩, hsplit, hkeys⟩ := bind_eq_ok.mp hrest
    obtain ⟨key, id, hkey, hindex⟩ := readKeys_eq_ok hkeys
    obtain ⟨hfound, s, hs, rs, hrs, hrecords, r, hr, hsame⟩ := h.readIndex hkey hindex
    exact ⟨hfound, directory, file, ofOption_eq_ok.mp hsplit, s, hs, rs, hrs, hrecords, r, hr,
      hsame ▸ ofOption_eq_ok.mp hversion⟩
  · cases hread

end

/-! ## The scan -/

omit h in
/-- A segment reads as its log up to some record, past the acknowledged ones. -/
theorem StoredSegment.Holds.readSegment {c : Contents} (h : segment.Holds storage c) :
    ∃ n, c.acked ≤ n ∧ storage.readSegment segment = .ok (c.log.take n) := by
  obtain ⟨first, hlog⟩ := h.wellFormed
  have harchived : archived (storage.segmentConfig segment) segment.batches =
      .ok (offsetOf c.log c.archived, c.log.take c.archived) :=
    archived_complete _ hlog h.aligned h.covered
  cases hmarker : segment.replicated with
  | some closed =>
    obtain ⟨hle, hvalid⟩ := h.marked closed hmarker
    refine ⟨c.archived, hle, bind_ok (by rw [harchived]; rfl) ?_⟩
    simp only [hmarker]
    exact ensure_ok hvalid rfl
  | none =>
    obtain ⟨replica, hreplica, halive⟩ := h.unmarked hmarker
    have hanswers : ∀ i bytes, (i, some bytes) ∈ segment.answers →
        bytes <+: encodeAll storage.digest c.log ∧
          offsetOf c.log c.acked ≤ bytes.length := by
      intro i bytes hmem
      obtain ⟨⟨r, k⟩, hr, hentry⟩ := List.mem_map.mp hmem
      have hr := List.mem_of_getElem? (List.mem_zipIdx_iff_getElem?.mp hr)
      obtain ⟨-, hbytes⟩ := Prod.mk.inj hentry
      split at hbytes
      · cases hbytes
      · cases hbytes
        exact h.copies r hr (Bool.eq_false_of_not_eq_true ‹_›)
    obtain ⟨k, hk⟩ := List.mem_iff_getElem?.mp hreplica
    have hanswer : (k, some replica.bytes) ∈ segment.answers := by
      refine List.mem_map.mpr ⟨(replica, k), List.mem_zipIdx_iff_getElem?.mpr hk, ?_⟩
      rw [if_neg (by simp [halive])]
    obtain ⟨rapid, hrapid⟩ := joinReplicas_prefixes _ hlog
      (fun i bytes hmem => (hanswers i bytes hmem).1) hanswer
    obtain ⟨j, bytes, hmem, rfl, hlongest⟩ := joinReplicas_sound _ hlog
      (fun i bytes hmem => (hanswers i bytes hmem).1) hrapid
    obtain ⟨merged, hmerged⟩ := mergeRecords_log _ hlog (m := [])
      (fun r hr => (List.mem_append.mp hr).elim List.mem_of_mem_take List.mem_of_mem_take)
      (by simp)
    have hframes := (le_frames_iff _ hlog (hanswers j bytes hmem).1 h.acked_le).mpr
      (hanswers j bytes hmem).2
    refine ⟨max c.archived (frames (storage.segmentConfig segment) bytes),
      hframes.trans (le_max_right _ _), bind_ok (by rw [harchived]; rfl) ?_⟩
    simp only [hmarker]
    refine bind_ok (by rw [hrapid]; rfl) (bind_ok (by rw [hmerged]; rfl) ?_)
    rw [mergeRecords_sound _ hlog hmerged]
    rfl

omit h in
/-- Records that were scanned: all are the log's, and none is lost. -/
structure Grows (storage : Storage) (contents : StoredSegment → Contents)
    (records records' : Records) : Prop where
  kept : ∀ object bytes, records.lookup object = some bytes →
    records'.lookup object = some bytes
  logged : ∀ entry ∈ records', storage.Logged contents entry.1 entry.2

omit h in
theorem logged_of_lookup {records : Records}
    (h : ∀ entry ∈ records, storage.Logged contents entry.1 entry.2) {object : String}
    (hlookup : records.lookup object = some bytes) : storage.Logged contents object bytes := by
  obtain ⟨before, after, hrecords, -⟩ := List.lookup_eq_some_iff.mp hlookup
  exact h (object, bytes) (by rw [hrecords]; exact List.mem_append_right _ List.mem_cons_self)

/-- A record of the log is inserted without conflict. -/
theorem Storage.Holds.insertRecord {records : Records}
    (hrecords : ∀ entry ∈ records, storage.Logged contents entry.1 entry.2) {object : String}
    (hlogged : storage.Logged contents object bytes) :
    insertRecord records object bytes = .ok ((object, bytes) :: records) ∧
      Grows storage contents records ((object, bytes) :: records) := by
  have hsame : ∀ bytes', records.lookup object = some bytes' → bytes' = bytes := fun bytes' hb =>
    h.unique (logged_of_lookup hrecords hb) hlogged
  refine ⟨?_, ?_, ?_⟩
  · refine ensure_ok ?_ rfl
    cases hlookup : records.lookup object with
    | none => rfl
    | some bytes' => simpa using hsame bytes' hlookup
  · intro other bytes' hlookup
    by_cases hother : other = object
    · subst hother
      rw [List.lookup_cons_self, hsame bytes' hlookup]
    · rw [List.lookup_cons, beq_eq_false_iff_ne.mpr hother]
      exact hlookup
  · intro entry hentry
    rcases List.mem_cons.mp hentry with rfl | hentry
    · exact hlogged
    · exact hrecords entry hentry

/-- Records of a segment are inserted without a conflict. -/
theorem Storage.Holds.insertAll (hsegment : segment ∈ (storage.archive directory).segments)
    (hrs : ∀ r ∈ rs, r ∈ (contents segment).log) {records : Records}
    (hrecords : ∀ entry ∈ records, storage.Logged contents entry.1 entry.2) :
    ∃ records', storage.insertAll segment.manifest rs records = .ok records' ∧
      Grows storage contents records records' ∧
      ∀ r ∈ rs, records'.lookup (segment.manifest.stream.object r.version) = some r.state := by
  obtain ⟨first, hlog⟩ := (h.segment directory segment hsegment).wellFormed
  induction rs generalizing records with
  | nil => exact ⟨records, rfl, ⟨fun _ _ hlookup => hlookup, hrecords⟩, by simp⟩
  | cons r rs ih =>
    have hr := hrs r List.mem_cons_self
    have hlogged : storage.Logged contents (segment.manifest.stream.object r.version) r.state :=
      ⟨directory, segment, hsegment, r, hr, rfl, rfl⟩
    obtain ⟨hinsert, hgrows⟩ := h.insertRecord hrecords hlogged
    obtain ⟨records', hall, hgrows', hfound⟩ :=
      ih (fun x hx => hrs x (List.mem_cons_of_mem _ hx)) hgrows.logged
    obtain ⟨hfirst, reference, hreference, hversion⟩ :=
      snapshot_of_identity (hlog.identity r hr)
    have hobject := (reference_of_snapshot hreference).1
    refine ⟨records', ?_, ⟨fun object bytes hlookup =>
      hgrows'.kept object bytes (hgrows.kept object bytes hlookup), hgrows'.logged⟩, ?_⟩
    · refine bind_ok hreference (ensure_ok ?_ (bind_ok hinsert hall))
      simp [hobject, hversion, hfirst]
    · intro x hx
      rcases List.mem_cons.mp hx with rfl | hx
      · exact hgrows'.kept _ _ (by rw [List.lookup_cons_self])
      · exact hfound x hx

/-- A scan of segments has all that was acknowledged to them. -/
theorem Storage.Holds.scan {segments : List StoredSegment}
    (hsegments : ∀ s ∈ segments, s ∈ (storage.archive directory).segments) (records : Records)
    (hrecords : ∀ entry ∈ records, storage.Logged contents entry.1 entry.2) :
    ∃ records', storage.scan segments records = .ok records' ∧
      Grows storage contents records records' ∧
      ∀ s ∈ segments, ∀ r ∈ (contents s).log.take (contents s).acked,
        records'.lookup (s.manifest.stream.object r.version) = some r.state := by
  induction segments generalizing records with
  | nil => exact ⟨records, rfl, ⟨fun _ _ hlookup => hlookup, hrecords⟩, by simp⟩
  | cons s segments ih =>
    have hs := hsegments s List.mem_cons_self
    obtain ⟨n, hacked, hread⟩ := (h.segment directory s hs).readSegment
    obtain ⟨records₁, hinsert, hgrows₁, hfound₁⟩ :=
      h.insertAll hs (fun r hr => List.mem_of_mem_take hr) hrecords
    obtain ⟨records₂, hscan, hgrows₂, hfound₂⟩ :=
      ih (fun x hx => hsegments x (List.mem_cons_of_mem _ hx)) records₁ hgrows₁.logged
    refine ⟨records₂, bind_ok hread (bind_ok hinsert hscan),
      ⟨fun object bytes hlookup =>
        hgrows₂.kept object bytes (hgrows₁.kept object bytes hlookup), hgrows₂.logged⟩, ?_⟩
    intro x hx r hr
    rcases List.mem_cons.mp hx with rfl | hx
    · exact hgrows₂.kept _ _ (hfound₁ r ((List.take_subset_take_left _ hacked) hr))
    · exact hfound₂ x hx r hr

/-- **The scan** finds every acknowledged record of the directory. -/
theorem Storage.Holds.records (directory : String) :
    ∃ records, storage.records directory = .ok records ∧
      (∀ entry ∈ records, storage.Logged contents entry.1 entry.2) ∧
      ∀ s ∈ (storage.archive directory).segments, ∀ r ∈ (contents s).log.take (contents s).acked,
          records.lookup (s.manifest.stream.object r.version) = some r.state := by
  obtain ⟨records, hscan, hgrows, hfound⟩ :=
    h.scan (fun _ hs => hs) [] (by simp)
  exact ⟨records, hscan, hgrows.logged, hfound⟩

end DurableActors.Ports.Rapid
