import DurableActors.Ports.Recovery

/-!
# Reading a history from the log

`LogHistory` of `bucket/rapid/checkpoint.rs`, the reader that `resolve` uses over
Rapid storage.  For each epoch it keeps the checkpoints that were listed, the
records of the last ranged read, and those of a full scan.  It asks for the live
records first, then for the archived object, the indexed records, and last for
all records of the epoch.

What these read paths return is given by functions that may answer differently at
each call.  `LogStorage.Serves` says what is needed of them: a record that is
returned is the record of the log, and the full scan has every record that is not
a Standard snapshot.
-/

namespace DurableActors.Ports.Sqlite

open Verified
open Verified.Checked

/-! ## The reader -/

abbrev Records := List (String × Bytes)

/-- The read paths of `LogStorage`, by the number of calls made before.
`directory` is `rsplit_once('/')`, `version` reads the version in a name, and
`source` is `strip_suffix(".checkpoint")`. -/
structure LogStorage where
  directory : String → Option String
  version : String → Option Nat
  source : String → Option String
  get : Nat → String → Option Bytes
  list : Nat → String → List String
  indexKeys : Nat → String → List String
  liveRecords : Nat → String → Nat → Option Records
  indexedRecords : Nat → String → Nat → List String → Option Records
  records : Nat → String → Records

/-- `EpochHistory`. -/
structure EpochHistory where
  records : Option Records
  indexes : List String
  indexed : Records
  checkpoints : List String

/-- `LogHistory`, with the number of calls. -/
structure LogHistory where
  epochs : List (String × EpochHistory)
  calls : Nat

def LogHistory.initial : LogHistory := ⟨[], 0⟩

section

variable (S : LogStorage) (st : LogHistory)

/-- Put the epoch back, after some calls. -/
def LogHistory.keep (directory : String) (epoch : EpochHistory) (calls : Nat) : LogHistory :=
  ⟨(directory, epoch) :: st.epochs, st.calls + calls⟩

/-- The epoch of a directory, which is listed when it is met first. -/
def LogHistory.epoch (directory : String) : EpochHistory :=
  match st.epochs.lookup directory with
  | some epoch => epoch
  | none =>
    { records := none
      indexes := S.indexKeys st.calls (directory ++ "/")
      indexed := []
      checkpoints := (S.list st.calls (directory ++ "/")).filter (·.endsWith ".checkpoint") }

/-- `indexed.remove(object)`. -/
def EpochHistory.remove (epoch : EpochHistory) (object : String) : EpochHistory :=
  { epoch with indexed := epoch.indexed.filter fun p => p.1 ≠ object }

/-- The newest checkpoint that is not newer than `version`. -/
def EpochHistory.first (epoch : EpochHistory) (version : Nat) : Nat :=
  (((epoch.checkpoints.filterMap S.source).filterMap S.version).filter (· ≤ version)).foldl max 0

/-- The end of `read`: the ranged reads and the full scan. -/
def EpochHistory.fetch (epoch : EpochHistory) (directory object : String) (version t : Nat) :
    Checked (Bytes × EpochHistory) :=
  match S.liveRecords t object (epoch.first S version) with
  | some records => do
      let bytes ← ofOption "live SQLite dependency missing" (records.lookup object)
      return (bytes, { epoch with indexed := records }.remove object)
  | none =>
    match S.get t object with
    | some bytes => .ok (bytes, epoch)
    | none =>
      match S.indexedRecords t object (epoch.first S version) epoch.indexes with
      | some records => do
          let bytes ← ofOption "indexed SQLite dependency missing" (records.lookup object)
          return (bytes, { epoch with indexed := records }.remove object)
      | none => do
          let records := epoch.records.getD (S.records t (directory ++ "/"))
          let bytes ← ofOption "SQLite dependency missing" (records.lookup object)
          return (bytes, { epoch with records := some records })

/-- `LogHistory::read`. -/
def LogHistory.read (object : String) : Checked (Bytes × LogHistory) := do
  let directory ← ofOption "invalid snapshot name" (S.directory object)
  let epoch := st.epoch S directory
  match (epoch.records.bind (·.lookup object)).or (epoch.indexed.lookup object) with
  | some bytes =>
    let kept := if (epoch.records.bind (·.lookup object)).isSome then epoch
      else epoch.remove object
    return (bytes, st.keep directory kept 1)
  | none => do
      let version ← ofOption "invalid snapshot version" (S.version object)
      let (bytes, epoch) ← epoch.fetch S directory object version (st.calls + 1)
      return (bytes, st.keep directory epoch 2)

/-- `LogHistory::checkpoint`.  Only checkpoints that were listed are asked for. -/
def LogHistory.checkpoint (object : String) : Checked (Option Bytes × LogHistory) := do
  let key := object ++ ".checkpoint"
  let directory ← ofOption "invalid snapshot name" (S.directory object)
  if (st.epochs.lookup directory).any (fun epoch => !epoch.checkpoints.contains key) = true then
    return (none, st)
  else return (S.get st.calls key, { st with calls := st.calls + 1 })

/-- The reader of a storage. -/
def LogStorage.history : History LogHistory where
  read object st := st.read S object
  checkpoint object st := st.checkpoint S object

end

/-! ## What the read paths return -/

/-- Where both have a record, it is the same. -/
def Agrees (log : String → Option Bytes) (records : Records) : Prop :=
  ∀ object bytes bytes', log object = some bytes → records.lookup object = some bytes' →
    bytes' = bytes

/-- The read paths return records of the log, the ranged reads have the record they were
asked for, and a record that the scan of its directory may miss, as one that was put in
Standard mode, is an object of the Standard store. -/
structure LogStorage.Serves (S : LogStorage) (log : String → Option Bytes) : Prop where
  named : ∀ object bytes, log object = some bytes →
    (∃ directory, S.directory object = some directory) ∧ ∃ version, S.version object = some version
  live : ∀ t object first records bytes, log object = some bytes →
    S.liveRecords t object first = some records →
    records.lookup object = some bytes ∧ Agrees log records
  archived : ∀ t object bytes bytes', log object = some bytes → S.get t object = some bytes' →
    bytes' = bytes
  indexed : ∀ t object first keys records bytes, log object = some bytes →
    S.indexedRecords t object first keys = some records →
    records.lookup object = some bytes ∧ Agrees log records
  scanned : ∀ t directory, Agrees log (S.records t directory)
  complete : ∀ object directory bytes, log object = some bytes →
    S.directory object = some directory →
    (∀ t, (S.records t (directory ++ "/")).lookup object = some bytes) ∨
      ∀ t, S.get t object = some bytes

/-- The records an epoch keeps are those of the log. -/
structure EpochHistory.Sound (S : LogStorage) (log : String → Option Bytes) (directory : String)
    (epoch : EpochHistory) : Prop where
  indexed : Agrees log epoch.indexed
  records : ∀ records ∈ epoch.records, Agrees log records
  complete : ∀ records ∈ epoch.records, ∀ object bytes, log object = some bytes →
    S.directory object = some directory →
    records.lookup object = some bytes ∨ ∀ t, S.get t object = some bytes

/-- What is prefetched is of the log. -/
def LogHistory.Sound (S : LogStorage) (log : String → Option Bytes) (st : LogHistory) : Prop :=
  ∀ directory epoch, st.epochs.lookup directory = some epoch → epoch.Sound S log directory

section

variable {S : LogStorage} {log : String → Option Bytes} {st : LogHistory}
  {directory object : String} {epoch : EpochHistory} {bytes : Bytes}

theorem lookup_filter_ne (records : Records) (object other : String) :
    (records.filter fun p => p.1 ≠ object).lookup other =
      if other = object then none else records.lookup other := by
  induction records with
  | nil => simp
  | cons p records ih =>
    obtain ⟨key, value⟩ := p
    by_cases hkey : key = object
    · subst hkey
      rw [List.filter_cons_of_neg (by simp), ih]
      by_cases hother : other = key
      · simp [hother]
      · simp [hother, List.lookup_cons, beq_eq_false_iff_ne.mpr hother]
    · rw [List.filter_cons_of_pos (by simpa using hkey), List.lookup_cons, ih, List.lookup_cons]
      by_cases hother : other = key
      · subst hother
        simp [hkey]
      · simp [beq_eq_false_iff_ne.mpr hother]

theorem Agrees.remove {records : Records} (h : Agrees log records) :
    Agrees log (records.filter fun p => p.1 ≠ object) := by
  intro other bytes bytes' hlog hlookup
  rw [lookup_filter_ne] at hlookup
  split at hlookup
  · cases hlookup
  · exact h other bytes bytes' hlog hlookup

theorem EpochHistory.Sound.remove (h : epoch.Sound S log directory) :
    (epoch.remove object).Sound S log directory :=
  { h with indexed := h.indexed.remove }

theorem LogHistory.Sound.sound_epoch (h : st.Sound S log) (directory : String) :
    (st.epoch S directory).Sound S log directory := by
  unfold LogHistory.epoch
  split
  · rename_i epoch hepoch
    exact h directory epoch hepoch
  · constructor
    case indexed => intro _ _ _ _ hlookup; cases hlookup
    case records => nofun
    case complete => nofun

theorem LogHistory.Sound.keep (h : st.Sound S log) (hepoch : epoch.Sound S log directory)
    (calls : Nat) : (st.keep directory epoch calls).Sound S log := by
  intro other epoch' hlookup
  by_cases hsame : other = directory
  · subst hsame
    have hepoch' : some epoch = some epoch' := by
      simpa [LogHistory.keep, List.lookup_cons] using hlookup
    exact Option.some.inj hepoch' ▸ hepoch
  · refine h other epoch' ?_
    simpa [LogHistory.keep, List.lookup_cons, beq_eq_false_iff_ne.mpr hsame] using hlookup

/-- The ranged reads and the scan find the record. -/
theorem EpochHistory.Sound.fetch (hserves : S.Serves log) (h : epoch.Sound S log directory)
    (hlog : log object = some bytes) (hdirectory : S.directory object = some directory)
    (version t : Nat) :
    ∃ epoch', epoch.fetch S directory object version t = .ok (bytes, epoch') ∧
      epoch'.Sound S log directory := by
  unfold EpochHistory.fetch
  split
  · rename_i records hlive
    obtain ⟨hlookup, hagrees⟩ := hserves.live _ _ _ _ _ hlog hlive
    refine ⟨{ epoch with indexed := records }.remove object, ?_, ?_⟩
    · exact bind_ok (ofOption_eq_ok.mpr hlookup) rfl
    · exact .remove { h with indexed := hagrees }
  · split
    · rename_i found hget
      obtain rfl := hserves.archived _ _ _ _ hlog hget
      exact ⟨epoch, rfl, h⟩
    · rename_i hget
      split
      · rename_i records hindexed
        obtain ⟨hlookup, hagrees⟩ := hserves.indexed _ _ _ _ _ _ hlog hindexed
        refine ⟨{ epoch with indexed := records }.remove object, ?_, ?_⟩
        · exact bind_ok (ofOption_eq_ok.mpr hlookup) rfl
        · exact .remove { h with indexed := hagrees }
      · -- the full scan, unless there has been one
        have hscan : Agrees log (epoch.records.getD (S.records t (directory ++ "/"))) ∧
            ∀ object bytes, log object = some bytes → S.directory object = some directory →
              (epoch.records.getD (S.records t (directory ++ "/"))).lookup object = some bytes ∨
                ∀ t, S.get t object = some bytes := by
          cases hrecords : epoch.records with
          | none =>
            exact ⟨hserves.scanned _ _, fun object bytes hlog hdirectory =>
              (hserves.complete _ _ _ hlog hdirectory).imp_left fun hscanned => hscanned t⟩
          | some records => exact ⟨h.records records hrecords, h.complete records hrecords⟩
        -- a Standard snapshot was returned above
        have hfound := (hscan.2 object bytes hlog hdirectory).resolve_right fun hstandard =>
          nomatch hget.symm.trans (hstandard t)
        refine ⟨_, bind_ok (ofOption_eq_ok.mpr hfound) rfl, ?_⟩
        constructor
        case indexed => exact h.indexed
        case records =>
          intro records hrecords
          exact Option.some.inj hrecords ▸ hscan.1
        case complete =>
          intro records hrecords
          exact Option.some.inj hrecords ▸ hscan.2

/-- **The reader returns the records of the log.** -/
theorem LogHistory.Sound.read (hserves : S.Serves log) (h : st.Sound S log)
    (hlog : log object = some bytes) :
    ∃ st', st.read S object = .ok (bytes, st') ∧ st'.Sound S log := by
  obtain ⟨⟨directory, hdirectory⟩, ⟨version, hversion⟩⟩ := hserves.named object bytes hlog
  have hepoch := h.sound_epoch directory
  unfold LogHistory.read
  generalize hst : st.epoch S directory = epoch at *
  cases hfound : (epoch.records.bind (·.lookup object)).or (epoch.indexed.lookup object) with
  | some found =>
    have hsame : found = bytes := by
      rcases Option.or_eq_some_iff.mp hfound with hrecords | ⟨-, hindexed⟩
      · obtain ⟨records, hrecords, hlookup⟩ := Option.bind_eq_some_iff.mp hrecords
        exact hepoch.records records hrecords object bytes found hlog hlookup
      · exact hepoch.indexed object bytes found hlog hindexed
    subst hsame
    refine ⟨st.keep directory (if (epoch.records.bind (·.lookup object)).isSome then epoch
      else epoch.remove object) 1,
      bind_ok (ofOption_eq_ok.mpr hdirectory) ?_, ?_⟩
    · simp only [hst, hfound]
      rfl
    · refine h.keep ?_ 1
      split
      · exact hepoch
      · exact hepoch.remove
  | none =>
    obtain ⟨epoch', hfetch, hepoch'⟩ :=
      hepoch.fetch hserves hlog hdirectory version (st.calls + 1)
    refine ⟨st.keep directory epoch' 2,
      bind_ok (ofOption_eq_ok.mpr hdirectory) ?_, h.keep hepoch' 2⟩
    simp only [hst, hfound]
    refine bind_ok (ofOption_eq_ok.mpr hversion) ?_
    exact bind_ok hfetch rfl

/-- A checkpoint that is found is a stored one. -/
theorem LogHistory.Sound.checkpoint (hserves : S.Serves log) (h : st.Sound S log)
    (hlog : log object = some bytes) :
    ∃ found st', st.checkpoint S object = .ok (found, st') ∧ st'.Sound S log ∧
      ∀ checkpoint ∈ found, ∃ t, S.get t (object ++ ".checkpoint") = some checkpoint := by
  obtain ⟨⟨directory, hdirectory⟩, -⟩ := hserves.named object bytes hlog
  unfold LogHistory.checkpoint
  by_cases hlisted : (st.epochs.lookup directory).any
      (fun epoch => !epoch.checkpoints.contains (object ++ ".checkpoint")) = true
  · refine ⟨none, st, bind_ok (ofOption_eq_ok.mpr hdirectory) ?_, h, nofun⟩
    rw [if_pos hlisted]
    rfl
  · refine ⟨S.get st.calls (object ++ ".checkpoint"), { st with calls := st.calls + 1 },
      bind_ok (ofOption_eq_ok.mpr hdirectory) ?_, h, ?_⟩
    · rw [if_neg hlisted]
      rfl
    · intro checkpoint hcheckpoint
      exact ⟨st.calls, hcheckpoint⟩

end

end DurableActors.Ports.Sqlite
