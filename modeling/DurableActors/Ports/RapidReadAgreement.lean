import DurableActors.Ports.LogHistory
import DurableActors.Ports.RapidLog
import DurableActors.Ports.RapidReadPaths

/-!
# `get` returns the record of the log

The read paths put together: `RapidSnapshots::get` tries them one after the other,
and the history reader of a restore tries the same ones in its own order.  Both
return the log's records, so it does not matter which path answers.
-/

namespace DurableActors.Ports.Rapid

open Verified
open Verified.Checked
open Sqlite (Codec StateStream StateSnapshot SnapshotRef parsed)
open Log

variable {storage : Storage} {contents : StoredSegment → Contents}
variable {bytes : Bytes} {records : Records} {directory object : String}

/-! ## All paths -/

theorem Storage.cached_eq_some (h : storage.cached object = some bytes) :
    storage.latest = some (object, bytes) := by
  obtain ⟨⟨key, value⟩, hfilter, hvalue⟩ := Option.map_eq_some_iff.mp h
  obtain ⟨hlatest, hkey⟩ := Option.filter_eq_some_iff.mp hfilter
  have hkey : key = object := of_decide_eq_true hkey
  have hvalue : value = bytes := hvalue
  rw [hlatest, hkey, hvalue]

/-- A live range that starts after its record does not return. -/
theorem liveRecords_of_lt {first version : Nat} (hversion : snapshotVersion object = some version)
    (hlt : version < first) : storage.liveRecords object first ≠ .ok (some records) := by
  intro hlive
  obtain ⟨found, hrange, hrest⟩ := bind_eq_ok.mp hlive
  simp only [Storage.liveRange, hversion, if_pos hlt] at hrange
  split at hrange
  · cases hrange
    cases hrest
  · cases hrange

/-- The end of `get`, from what the index objects and the scan return. -/
theorem getArchived_eq_ok {version : Nat}
    (hversion : snapshotVersion (recordObject directory version) = some version)
    (hindexed : ∀ keys records,
      storage.indexedRecords (recordObject directory version) version keys = some records →
      records.lookup (recordObject directory version) = some bytes)
    (hscan : storage.records (directory ++ "/") = .ok records)
    (hfound : records.lookup (recordObject directory version) = some bytes) :
    storage.getArchived (recordObject directory version) = .ok (some bytes) := by
  refine bind_ok (by rw [rsplitOnce_recordObject]; rfl) ?_
  refine bind_ok (by rw [hversion]; rfl) ?_
  split
  · rename_i records' hrecords'
    rw [hindexed _ records' hrecords']
    rfl
  · exact bind_ok hscan (by rw [hfound]; rfl)

section

variable (h : storage.Holds contents)
include h

theorem Storage.Holds.reads_live (hlogged : storage.Logged contents object bytes) {first : Nat}
    (hlive : storage.liveRecords object first = .ok (some records)) :
    Reads storage contents object bytes records := by
  obtain ⟨directory, segment, record, hlocated, rfl, rfl⟩ := h.located hlogged
  by_cases hfirst : first ≤ record.version
  · obtain ⟨result, hresult, hreads⟩ := h.liveRecords hlocated hfirst
    rw [hresult] at hlive
    exact hreads records (Except.ok.inj hlive)
  · exact absurd hlive (liveRecords_of_lt (h.version hlocated) (Nat.lt_of_not_le hfirst))

theorem Storage.Holds.reads_indexed (hlogged : storage.Logged contents object bytes) {first : Nat}
    {keys : List IndexKey} (hindexed : storage.indexedRecords object first keys = some records) :
    Reads storage contents object bytes records := by
  obtain ⟨directory, segment, record, hlocated, rfl, rfl⟩ := h.located hlogged
  obtain ⟨-, name, file, hsplit, s, hs, rs, hrs, rfl, r, hr, hversion⟩ := h.indexedRecords hindexed
  rw [rsplitOnce_recordObject] at hsplit
  cases hsplit
  rw [h.version hlocated] at hversion
  obtain rfl := h.same_record hlocated hs (hrs.subset hr) (Option.some.inj hversion).symm
  exact h.reads hs (h.named_of_mem hs) hrs hr

/-- The scan of the directory of an acknowledged object. -/
theorem Storage.Holds.reads_scan (hacked : storage.Acknowledged contents object bytes) :
    ∃ directory version records, object = recordObject directory version ∧
      storage.records (directory ++ "/") = .ok records ∧
      Reads storage contents object bytes records := by
  obtain ⟨path, segment, hsegment, record, hrecord, rfl, rfl⟩ := hacked
  obtain ⟨directory, hname⟩ := h.named path segment hsegment
  obtain rfl : path = directory ++ "/" := by rw [← h.path path segment hsegment, hname.path]
  obtain ⟨records, hscan, hall, hfound⟩ := h.records (directory ++ "/")
  exact ⟨directory, record.version, records, hname.object _, hscan,
    hfound segment hsegment record hrecord, hall⟩

theorem Storage.Holds.reads_cached {found : Bytes} (hlogged : storage.Logged contents object bytes)
    (hcached : storage.cached object = some found) : found = bytes := by
  rcases h.latest _ _ (Storage.cached_eq_some hcached) with hcopied | hfound
  · exact h.snapshots _ _ _ hcopied hlogged
  · exact h.unique hfound hlogged

/-- `get` tries the paths in order, and the last one has the record. -/
theorem Storage.Holds.get (hacked : storage.Acknowledged contents object bytes) :
    storage.get object = .ok (some bytes) := by
  have hlogged := hacked.logged
  obtain ⟨directory, version, records, rfl, hscan, hreads⟩ := h.reads_scan hacked
  obtain ⟨name, segment, record, hlocated, hobject, -⟩ := h.located hlogged
  obtain ⟨rfl, rfl⟩ := recordObject_inj hobject
  have hversion := h.version hlocated
  obtain ⟨result, hresult, -⟩ := h.liveRecords hlocated le_rfl
  have hlive : storage.getLive (recordObject directory record.version) = .ok result := by
    simp only [Storage.getLive, hversion, hresult]
  unfold Storage.get
  cases hcached : storage.cached (recordObject directory record.version) with
  | some found => rw [h.reads_cached hlogged hcached]
  | none =>
    refine bind_ok hlive ?_
    cases result with
    | some found => exact congrArg Except.ok (h.reads_live hlogged hresult).found
    | none =>
      cases hcopied : storage.snapshots.lookup (recordObject directory record.version) with
      | some found =>
        rw [h.snapshots _ _ _ hcopied hlogged]
        rfl
      | none =>
        exact getArchived_eq_ok hversion (fun keys found hindexed =>
          (h.reads_indexed hlogged hindexed).found) hscan hreads.found

end

/-! ## The history reader -/

/-- The text of index keys. -/
structure KeyNames where
  render : IndexKey → String
  parse : String → Option IndexKey

/-- The read paths as the history reader sees them. -/
def Storage.reader (storage : Storage) (names : KeyNames) : Sqlite.LogStorage where
  directory object := (Text.rsplitOnce '/' object).map Prod.fst
  version := snapshotVersion
  source := Text.stripSuffix ".checkpoint"
  get _ object := storage.snapshots.lookup object
  list _ path := (storage.snapshots.map Prod.fst).filter (path.toList.isPrefixOf ·.toList)
  indexKeys _ path := (storage.archive path).indexes.map (names.render ·.1)
  liveRecords _ object first := (storage.liveRecords object first).toOption.join
  indexedRecords _ object first keys :=
    storage.indexedRecords object first (keys.filterMap names.parse)
  records _ directory := (storage.records directory).toOption.getD []

theorem reader_directory (names : KeyNames) (directory : String) (version : Nat) :
    (storage.reader names).directory (recordObject directory version) = some directory := by
  simp only [Storage.reader, rsplitOnce_recordObject, Option.map_some]

theorem reader_version (names : KeyNames) (object : String) :
    (storage.reader names).version object = snapshotVersion object := by
  simp only [Storage.reader]

/-- The read paths of a storage that holds a log serve a restore. -/
theorem Storage.Holds.serves (h : storage.Holds contents) (names : KeyNames)
    {log : String → Option Bytes}
    (hlog : ∀ object bytes, log object = some bytes ↔ storage.Acknowledged contents object bytes) :
    (storage.reader names).Serves log := by
  have agrees : ∀ {records : Records},
      (∀ entry ∈ records, storage.Logged contents entry.1 entry.2) →
      Sqlite.Agrees log records := by
    intro records hlogged object bytes bytes' hbytes hlookup
    exact h.unique (logged_of_lookup hlogged hlookup) ((hlog object bytes).mp hbytes).logged
  have logged : ∀ {object bytes}, log object = some bytes →
      storage.Logged contents object bytes := fun hbytes => ((hlog _ _).mp hbytes).logged
  constructor
  case named =>
    intro object bytes hbytes
    obtain ⟨directory, segment, record, hlocated, rfl, -⟩ := h.located (logged hbytes)
    exact ⟨⟨directory, reader_directory names _ _⟩, record.version, by
      rw [reader_version, h.version hlocated]⟩
  case live =>
    intro t object first records bytes hbytes hlive
    have hlive : storage.liveRecords object first = .ok (some records) := by
      cases hresult : storage.liveRecords object first with
      | ok result => simpa [Storage.reader, hresult, Except.toOption] using hlive
      | error e => simp [Storage.reader, hresult, Except.toOption] at hlive
    have hreads := h.reads_live (logged hbytes) hlive
    exact ⟨hreads.found, agrees hreads.logged⟩
  case archived =>
    intro t object bytes bytes' hbytes hget
    exact h.snapshots object bytes' bytes hget (logged hbytes)
  case indexed =>
    intro t object first keys records bytes hbytes hindexed
    simp only [Storage.reader] at hindexed
    have hreads := h.reads_indexed (logged hbytes) hindexed
    exact ⟨hreads.found, agrees hreads.logged⟩
  case scanned =>
    intro t directory
    obtain ⟨records, hscan, hall, -⟩ := h.records directory
    show Sqlite.Agrees log ((storage.records directory).toOption.getD [])
    rw [hscan]
    exact agrees hall
  case complete =>
    intro object directory bytes hbytes hdirectory
    refine .inl fun t => ?_
    obtain ⟨name, version, records, rfl, hscan, hreads⟩ := h.reads_scan ((hlog _ _).mp hbytes)
    rw [reader_directory] at hdirectory
    obtain rfl := Option.some.inj hdirectory
    show ((storage.records (name ++ "/")).toOption.getD []).lookup _ = some bytes
    rw [hscan]
    exact hreads.found

end DurableActors.Ports.Rapid
