import DurableActors.Ports.LogHistory
import DurableActors.Ports.SnapshotEncode

/-!
# Checkpoints and the content of a history

`LogStorage::restore` and `LogStorage::checkpoint` of `bucket/rapid/checkpoint.rs`,
and `compact` of `litestream/compaction.rs`.  A checkpoint is written from what a
restore returns, which may itself go through earlier checkpoints.

The content of a list of LTX files is what they make of an empty database, one
after the other.  `Writable` are the checkpoints that can have been written: by
induction on how they were written, each has the content of the whole history it
stands for.
-/

namespace DurableActors.Ports.Sqlite

open Verified
open Verified.Checked

variable {object : String} {files : List LtxFile}

/-! ## Content -/

/-- How LTX files change a database. -/
structure Semantics (D : Type) where
  empty : D
  apply : D → LtxFile → D

/-- The database that files make. -/
def Semantics.content {D : Type} (m : Semantics D) (files : List LtxFile) : D :=
  files.foldl m.apply m.empty

theorem Semantics.content_append {D : Type} (m : Semantics D) {xs ys : List LtxFile}
    (h : m.content xs = m.content ys) (files : List LtxFile) :
    m.content (xs ++ files) = m.content (ys ++ files) := by
  unfold Semantics.content at *
  rw [List.foldl_append, List.foldl_append, h]

/-- The files of the whole history of a snapshot, without checkpoints. -/
inductive Uncompacted (codec : Codec) (log : String → Option Bytes) :
    StateSnapshot → List LtxFile → Prop
  | full {s : StateSnapshot} (hparent : s.sqlite.parent = none) :
      Uncompacted codec log s s.sqlite.files
  | link {s current : StateSnapshot} {parent : SnapshotRef} {file : LtxFile} {bytes : Bytes}
      {files : List LtxFile} (hparent : s.sqlite.parent = some parent)
      (hstored : log parent.object = some bytes) (hfile : s.sqlite.files[0]? = some file)
      (hfollows : Follows codec parent file.first bytes current)
      (hfiles : Uncompacted codec log current files) :
      Uncompacted codec log s (files ++ s.sqlite.files)

/-! ## Compaction -/

/-- `terse_ltx::compact`: the transactions in the header, and the data. -/
structure Compactor where
  compact : List LtxFile → Except String (Nat × Nat × Bytes)

/-- `compact` of `litestream/compaction.rs`. -/
def Compactor.run (c : Compactor) (files : List LtxFile) : Checked LtxFile := do
  let last ← ofOption "empty checkpoint" files.getLast?
  let (first, stop, data) ← context "compact LTX checkpoint" (parsed (c.compact files))
  ensure (first = 1 ∧ stop = last.last) "compacted checkpoint transaction mismatch"
  return ⟨9, first, stop, data⟩

/-- The compactor writes an LTX file with the content of its input. -/
def Compactor.Preserves {D : Type} (c : Compactor) (m : Semantics D) : Prop :=
  ∀ files first stop data, c.compact files = .ok (first, stop, data) →
    ltxMagic.isPrefixOf data = true ∧ m.content [⟨9, first, stop, data⟩] = m.content files

/-! ## Writing a checkpoint -/

/-- `Checkpoint::encode`. -/
def Checkpoint.encode (serde : Serde) (c : Checkpoint) : Checked Bytes :=
  binaryEncode (serde.writeCheckpoint { c with sqlite := { c.sqlite with files := [] } }
    (c.sqlite.files.map FileHeader.new)) c.sqlite.files

/-- A valid full copy is read back as the checkpoint of its source. -/
theorem Checkpoint.decode_encode {serde : Serde} {c : Checkpoint} {bytes : Bytes}
    (hencode : c.encode serde = .ok bytes) (hvalid : c.sqlite.validate c.source.version = .ok ())
    (hparent : c.sqlite.parent = none) :
    Checkpoint.decode serde.toCodec bytes c.source c.sqlite.txid = .ok c.sqlite := by
  obtain ⟨hbinary, hdecode⟩ := binaryDecode_encode (fun _ h => serde.read_checkpoint h) hencode
  have hread : Checkpoint.read serde.toCodec bytes = .ok c := by
    unfold Checkpoint.read
    rw [if_pos hbinary]
    refine bind_ok hdecode ?_
    exact ensure_ok rfl rfl
  unfold Checkpoint.decode
  refine bind_ok hread ?_
  refine ensure_ok (decide_eq_true rfl) ?_
  refine bind_ok hvalid ?_
  rw [hparent]
  exact ensure_ok (decide_eq_true ⟨rfl, rfl⟩) rfl

/-- `LogStorage::restore`. -/
def LogStorage.restore (codec : Codec) (S : LogStorage) (fuel : Nat) (object : String)
    (bytes : Bytes) (prefetched : Option PrefetchedCheckpoint) :
    Option (Checked (ResolvedSqlite × LogHistory)) :=
  resolve codec S.history .initial fuel object bytes prefetched

section

variable (serde : Serde) (c : Compactor) (S : LogStorage)

/-- The file of a checkpoint: a single full copy is taken as it is. -/
def checkpointFile : List LtxFile → Checked LtxFile
  | [file] =>
    if file.level = 9 then .ok file else context "compact SQLite checkpoint" (c.run [file])
  | files => context "compact SQLite checkpoint" (c.run files)

/-- The checkpoint that is made from what a restore returned. -/
def makeCheckpoint (source : SnapshotRef) (resolved : ResolvedSqlite) : Checked Bytes := do
  let file ← checkpointFile c resolved.sqlite.files
  Checkpoint.encode serde ⟨source, ⟨resolved.sqlite.txid, none, [file]⟩⟩

/-- `LogStorage::checkpoint`: the object that is written, if there is one.  Nothing
is written for a snapshot without parent or one that has a checkpoint. -/
def LogStorage.checkpoint (fuel : Nat) (object : String) (bytes : Bytes) :
    Option (Checked (Option Bytes)) :=
  match StateSnapshot.decode serde.toCodec bytes with
  | .error e => some (.error e)
  | .ok snapshot =>
    let source := SnapshotRef.new serde.toCodec object snapshot bytes
    match snapshot.sqlite.parent, S.get 0 (object ++ ".checkpoint") with
    | none, _ => some (.ok none)
    | some _, some stored =>
      some ((Checkpoint.decode serde.toCodec stored source snapshot.sqlite.txid).map
        fun _ => none)
    | some _, none =>
      (S.restore serde.toCodec fuel object bytes none).map fun restored => do
        let (resolved, _) ← context "resolve checkpoint inputs" restored
        let written ← makeCheckpoint serde c source resolved
        return some written

end

/-- The checkpoints that can have been written for the snapshots of a log: by a
checkpointer over a storage that serves the log and holds any checkpoints that can
have been written before. -/
inductive Writable (serde : Serde) (c : Compactor) (log : String → Option Bytes) :
    String → Bytes → Prop
  | write {S : LogStorage} {fuel : Nat} {object : String} {bytes written : Bytes}
      (hserves : S.Serves log)
      (hearlier : ∀ t object bytes checkpoint, log object = some bytes →
        S.get t (object ++ ".checkpoint") = some checkpoint →
        Writable serde c log object checkpoint)
      (hlog : log object = some bytes)
      (hwrite : S.checkpoint serde c fuel object bytes = some (.ok (some written))) :
      Writable serde c log object written

/-! ## The content of what is restored -/

/-- The checkpoint of `object` can be read and has the content of the whole
history. -/
def GoodCheckpoint {D : Type} (codec : Codec) (m : Semantics D) (log : String → Option Bytes)
    (object : String) (checkpoint : Bytes) : Prop :=
  ∀ bytes s, log object = some bytes → StateSnapshot.decode codec bytes = .ok s →
    ∃ c, Checkpoint.decode codec checkpoint (SnapshotRef.new codec object s bytes) s.sqlite.txid =
        .ok c ∧
      ∀ files, Uncompacted codec log s files → m.content c.files = m.content files

section

variable {D : Type} {m : Semantics D} {codec : Codec} {log : String → Option Bytes}
  {S : LogStorage}

/-- What the first lines of a turn find: no checkpoint, or a good one. -/
theorem Walk.probe_good {w : Walk} {st : LogHistory} {parent : SnapshotRef}
    {bytes : Bytes} (hserves : S.Serves log)
    (hgood : ∀ t object bytes checkpoint, log object = some bytes →
      S.get t (object ++ ".checkpoint") = some checkpoint →
      GoodCheckpoint codec m log object checkpoint)
    (hparent : w.current.sqlite.parent = some parent)
    (hobject : w.reference.object = object) (hlog : log object = some bytes)
    (hsound : st.Sound S log) (hprefetched : ∀ p ∈ w.prefetched, ∀ checkpoint ∈ p.bytes,
      GoodCheckpoint codec m log object checkpoint) :
    ∃ found st', w.probe S.history st = .ok (found, st') ∧ st'.Sound S log ∧
      ∀ checkpoint ∈ found, GoodCheckpoint codec m log object checkpoint := by
  cases hp : w.prefetched with
  | some p =>
    refine ⟨p.bytes, st, by simp only [Walk.probe, hparent, hp], hsound, hprefetched p hp⟩
  | none =>
    obtain ⟨found, st', hcheckpoint, hsound', hfound⟩ := hsound.checkpoint hserves hlog
    refine ⟨found, st', ?_, hsound', fun checkpoint hmem => ?_⟩
    · simp only [Walk.probe, hparent, hp, hobject]
      exact hcheckpoint
    · obtain ⟨t, ht⟩ := hfound checkpoint hmem
      exact hgood t object bytes checkpoint hlog ht

/-- **The walk keeps the content**: with good checkpoints it ends, and what it has
collected has the content of the whole history. -/
theorem Walk.run_content (hserves : S.Serves log)
    (hgood : ∀ t object bytes checkpoint, log object = some bytes →
      S.get t (object ++ ".checkpoint") = some checkpoint →
      GoodCheckpoint codec m log object checkpoint) {s : StateSnapshot}
    (huncompacted : Uncompacted codec log s files) {w : Walk} {st : LogHistory}
    {txid fuel : Nat} {bytes : Bytes} {result : Checked (Bool × Walk × LogHistory)}
    (hcurrent : w.current = s) (hreference : w.reference = SnapshotRef.new codec object s bytes)
    (hlog : log object = some bytes)
    (hdecode : StateSnapshot.decode codec bytes = .ok s) (hinv : w.Inv txid)
    (hsound : st.Sound S log) (hprefetched : ∀ p ∈ w.prefetched, ∀ checkpoint ∈ p.bytes,
      GoodCheckpoint codec m log object checkpoint)
    (hrun : Walk.run codec S.history fuel w st = some result) :
    ∃ checkpoint after st', result = .ok (checkpoint, after, st') ∧
      m.content after.segments.reverse.flatten =
        m.content (files ++ w.segments.reverse.flatten) := by
  induction huncompacted generalizing w st fuel object bytes with
  | full hparent =>
    subst hcurrent
    cases fuel with
    | zero => cases hrun
    | succ fuel =>
      rw [Walk.run, Walk.turn_root hinv hparent] at hrun
      obtain rfl := Option.some.inj hrun
      exact ⟨_, _, _, rfl, by simp⟩
  | link hparent hstored hfile hfollows hfiles ih =>
    rename_i s current parent file parentBytes files
    subst hcurrent
    have hobject : w.reference.object = object := by rw [hreference]; rfl
    cases fuel with
    | zero => cases hrun
    | succ fuel =>
      obtain ⟨found, st', hprobe, hsound', hfound⟩ :=
        Walk.probe_good hserves hgood hparent hobject hlog hsound hprefetched
      cases found with
      | some checkpoint =>
        -- a checkpoint stands for the rest of the history
        obtain ⟨c, hc, hcontent⟩ := hfound checkpoint rfl bytes _ hlog hdecode
        rw [← hreference] at hc
        rw [Walk.run, Walk.turn_checkpoint hprobe hc] at hrun
        obtain rfl := Option.some.inj hrun
        refine ⟨_, _, _, rfl, ?_⟩
        rw [List.reverse_append, List.flatten_append]
        simp only [List.reverse_singleton, List.flatten_singleton]
        exact m.content_append (hcontent _ (.link hparent hstored hfile hfollows hfiles)) _
      | none =>
        obtain ⟨st'', hread, hsound''⟩ := hsound'.read hserves hstored
        have hturn := Walk.turn_parent hinv hprobe hparent hfile hread hfollows
        have hinv' := ((Walk.turned hturn).next hinv).1
        rw [Walk.run, hturn] at hrun
        obtain ⟨checkpoint, after, last, hresult, hcontent⟩ :=
          ih rfl hfollows.reference_eq hstored hfollows.decoded hinv' hsound'' (by simp) hrun
        refine ⟨checkpoint, after, last, hresult, hcontent.trans ?_⟩
        congr 1
        simp

/-- **A restore keeps the content**, if the checkpoints it may meet are good. -/
theorem restore_content (hserves : S.Serves log)
    (hgood : ∀ t object bytes checkpoint, log object = some bytes →
      S.get t (object ++ ".checkpoint") = some checkpoint →
      GoodCheckpoint codec m log object checkpoint) {bytes : Bytes}
    {head : StateSnapshot} {prefetched : Option PrefetchedCheckpoint} {fuel : Nat}
    {result : Checked (ResolvedSqlite × LogHistory)} (hlog : log object = some bytes)
    (hdecode : StateSnapshot.decode codec bytes = .ok head)
    (hobject : head.validateObject codec object = .ok ())
    (huncompacted : Uncompacted codec log head files)
    (hprefetched : ∀ p ∈ prefetched, p.source = SnapshotRef.new codec object head bytes →
      ∀ checkpoint ∈ p.bytes, GoodCheckpoint codec m log object checkpoint)
    (hresult : S.restore codec fuel object bytes prefetched = some result) :
    ∃ resolved st, result = .ok (resolved, st) ∧ resolved.sqlite.txid = head.sqlite.txid ∧
      m.content resolved.sqlite.files = m.content files := by
  have hstart := startWalk_of_decode prefetched hdecode hobject
  have hinv := (startWalk_eq_ok hstart).2
  rw [LogStorage.restore, resolve, hstart] at hresult
  obtain ⟨looped, hlooped, rfl⟩ := Option.map_eq_some_iff.mp hresult
  have hinitial : LogHistory.initial.Sound S log := by rintro _ _ ⟨⟩
  obtain ⟨checkpoint, after, st, rfl, hcontent⟩ :=
    Walk.run_content hserves hgood huncompacted rfl rfl hlog hdecode hinv hinitial
      (fun p hp => by
        obtain ⟨hp, hsource⟩ := Option.filter_eq_some_iff.mp hp
        exact hprefetched p hp (of_decide_eq_true hsource)) hlooped
  obtain ⟨resolved, hconclude, hsqlite⟩ := Walk.conclude_ok checkpoint after st
  refine ⟨resolved, st, hconclude, by rw [hsqlite], ?_⟩
  rw [hsqlite]
  simpa using hcontent

end

/-! ## The content of a checkpoint -/

section

variable {D : Type} {m : Semantics D} {serde : Serde} {c : Compactor}

/-- The files of a whole history become one full copy with the same content. -/
structure Compacts (m : Semantics D) (txid : Nat) (files : List LtxFile) (file : LtxFile) :
    Prop where
  usable : file.Usable
  first : file.first = 1
  last : file.last = txid
  content : m.content [file] = m.content files

theorem Compactor.run_compacts (hcompact : c.Preserves m) {txid : Nat} {file : LtxFile}
    (htiles : Contiguous 1 files (txid + 1)) (husable : ∀ file ∈ files, file.Usable)
    (hrun : c.run files = .ok file) : Compacts m txid files file := by
  unfold Compactor.run at hrun
  obtain ⟨last, hlast, hrun⟩ := bind_eq_ok.mp hrun
  obtain ⟨⟨first, stop, data⟩, houtput, hrun⟩ := bind_eq_ok.mp hrun
  obtain ⟨_, hrange, hrun⟩ := bind_eq_ok.mp hrun
  obtain rfl := Except.ok.inj hrun
  have hlast := ofOption_eq_ok.mp hlast
  obtain ⟨rfl, rfl⟩ := of_decide_eq_true (ensure_eq_ok.mp hrange)
  obtain ⟨hmagic, hcontent⟩ := hcompact _ _ _ _ (parsed_eq_ok.mp (context_eq_ok.mp houtput))
  have hlastUsable := husable last (List.mem_of_getLast? hlast)
  have hstop := htiles.last_eq hlast
  have hrange := hlastUsable.1.range
  constructor
  case usable =>
    exact ⟨⟨.inr rfl, ⟨Nat.one_pos, by dsimp only; omega⟩, .inr rfl, hmagic⟩, hlastUsable.2⟩
  case first => rfl
  case last => dsimp only; omega
  case content => exact hcontent

theorem checkpointFile_compacts (hcompact : c.Preserves m) {txid : Nat} {file : LtxFile}
    (htiles : Contiguous 1 files (txid + 1)) (husable : ∀ file ∈ files, file.Usable)
    (hfile : checkpointFile c files = .ok file) : Compacts m txid files file := by
  unfold checkpointFile at hfile
  split at hfile
  · rename_i only
    split at hfile
    · obtain rfl := Except.ok.inj hfile
      have hstop : only.last + 1 = txid + 1 := htiles.last_eq rfl
      exact ⟨husable only (List.mem_singleton_self _), htiles.head_first, by omega, rfl⟩
    · exact Compactor.run_compacts hcompact htiles husable (context_eq_ok.mp hfile)
  · exact Compactor.run_compacts hcompact htiles husable (context_eq_ok.mp hfile)

/-- A full copy of one file is valid. -/
theorem Compacts.valid {txid : Nat} {file : LtxFile} (h : Compacts m txid files file)
    (version : Nat) : SqliteSnapshot.Valid ⟨txid, none, [file]⟩ version := by
  have hrange := h.usable.1.range
  have hfirst := h.first
  have hlast := h.last
  constructor
  case positive => dsimp only; omega
  case tiles =>
    refine ⟨1, ⟨hfirst, hrange.2, ?_⟩, congrArg some hfirst, by simp⟩
    show file.last + 1 = txid + 1
    rw [hlast]
  case usable => simpa using h.usable
  case precedes => simp

/-- What is written as a checkpoint is read as one, with the same content. -/
theorem makeCheckpoint_decode (hcompact : c.Preserves m) {source : SnapshotRef}
    {resolved : ResolvedSqlite} {written : Bytes}
    (htiles : Contiguous 1 resolved.sqlite.files (resolved.sqlite.txid + 1))
    (husable : ∀ file ∈ resolved.sqlite.files, file.Usable)
    (hmake : makeCheckpoint serde c source resolved = .ok written) :
    ∃ s, Checkpoint.decode serde.toCodec written source resolved.sqlite.txid = .ok s ∧
      m.content s.files = m.content resolved.sqlite.files := by
  unfold makeCheckpoint at hmake
  obtain ⟨file, hfile, hencode⟩ := bind_eq_ok.mp hmake
  have hcompacts := checkpointFile_compacts hcompact htiles husable hfile
  exact ⟨⟨resolved.sqlite.txid, none, [file]⟩, Checkpoint.decode_encode hencode
    (SqliteSnapshot.validate_iff.mpr (hcompacts.valid _)) rfl, hcompacts.content⟩

/-- A checkpoint that is written was made from a restore. -/
theorem LogStorage.checkpoint_eq_written {S : LogStorage} {fuel : Nat} {bytes written : Bytes}
    (hwrite : S.checkpoint serde c fuel object bytes = some (.ok (some written))) :
    ∃ head resolved st, StateSnapshot.decode serde.toCodec bytes = .ok head ∧
      S.restore serde.toCodec fuel object bytes none = some (.ok (resolved, st)) ∧
      makeCheckpoint serde c (SnapshotRef.new serde.toCodec object head bytes) resolved =
        .ok written := by
  unfold LogStorage.checkpoint at hwrite
  split at hwrite
  · cases hwrite
  · rename_i head hdecode
    dsimp only at hwrite
    split at hwrite
    · cases hwrite
    · rename_i stored _ _
      cases hstored : Checkpoint.decode serde.toCodec stored
          (SnapshotRef.new serde.toCodec object head bytes) head.sqlite.txid with
      | error e => rw [hstored] at hwrite; cases hwrite
      | ok s => rw [hstored] at hwrite; cases hwrite
    · obtain ⟨restored, hrestore, hwrite⟩ := Option.map_eq_some_iff.mp hwrite
      obtain ⟨⟨resolved, st⟩, hrestored, hwrite⟩ := bind_eq_ok.mp hwrite
      obtain ⟨made, hmake, hreturn⟩ := bind_eq_ok.mp hwrite
      obtain rfl := Option.some.inj (Except.ok.inj hreturn)
      rw [context_eq_ok.mp hrestored] at hrestore
      exact ⟨head, resolved, st, hdecode, hrestore, hmake⟩

/-- **Every checkpoint that can have been written is good.**  The induction is on
how it was written: the checkpoints its own restore has met were written before. -/
theorem Writable.good (hcompact : c.Preserves m) {log : String → Option Bytes}
    {checkpoint : Bytes} (hwritable : Writable serde c log object checkpoint) :
    GoodCheckpoint serde.toCodec m log object checkpoint := by
  induction hwritable with
  | write hserves hearlier hlog hwrite ih =>
    intro bytes' s hlog' hdecode'
    obtain rfl := Option.some.inj (hlog'.symm.trans hlog)
    obtain ⟨head, resolved, st, hdecode, hrestore, hmake⟩ :=
      LogStorage.checkpoint_eq_written hwrite
    obtain rfl := Except.ok.inj (hdecode'.symm.trans hdecode)
    have hrestores := resolve_restores hrestore
    obtain ⟨head', hhead', htxid, htiles⟩ := hrestores.covers
    obtain rfl := Except.ok.inj (hdecode.symm.trans hhead')
    rw [← htxid] at htiles ⊢
    have hvalid := SqliteSnapshot.validate_iff.mp (hrestores.validates 0)
    obtain ⟨made, hmade, hcontent⟩ :=
      makeCheckpoint_decode hcompact htiles hvalid.usable hmake
    refine ⟨made, hmade, fun files huncompacted => hcontent.trans ?_⟩
    obtain ⟨resolved', st', hresolved, -, hfiles⟩ :=
      restore_content hserves ih hlog hdecode (validateObject_of_resolve hdecode hrestore)
        huncompacted (by simp) hrestore
    obtain ⟨rfl, rfl⟩ := Prod.mk.inj (Except.ok.inj hresolved)
    exact hfiles

end

/-- **Checkpoints never change what is restored.**  Let the storage serve a log and
hold any of the checkpoints that can have been written for its snapshots, and let a
checkpoint be prefetched or not.  Then the restore of a snapshot with a whole
history returns, and what it returns has the transaction and the content of the
files of that history, without any checkpoint. -/
theorem checkpoints_preserve_content {D : Type} (m : Semantics D) (serde : Serde)
    (c : Compactor) (hcompact : c.Preserves m) (log : String → Option Bytes) (S : LogStorage)
    (hserves : S.Serves log) (hcheckpoints : ∀ t object bytes checkpoint, log object = some bytes →
      S.get t (object ++ ".checkpoint") = some checkpoint → Writable serde c log object checkpoint)
    (object : String) (bytes : Bytes) (head : StateSnapshot) (files : List LtxFile)
    (prefetched : Option PrefetchedCheckpoint) (hlog : log object = some bytes)
    (hdecode : StateSnapshot.decode serde.toCodec bytes = .ok head)
    (hobject : head.validateObject serde.toCodec object = .ok ())
    (huncompacted : Uncompacted serde.toCodec log head files) (hprefetched : ∀ p ∈ prefetched,
      p.source = SnapshotRef.new serde.toCodec object head bytes →
      ∀ checkpoint ∈ p.bytes, Writable serde c log object checkpoint) :
    ∃ bound resolved st, (∀ fuel, bound ≤ fuel →
        S.restore serde.toCodec fuel object bytes prefetched = some (.ok (resolved, st))) ∧
      resolved.sqlite.txid = head.sqlite.txid ∧
      m.content resolved.sqlite.files = m.content files := by
  have htotal : ∃ bound result, ∀ fuel, bound ≤ fuel →
      S.restore serde.toCodec fuel object bytes prefetched = some result :=
    resolve_total serde.toCodec S.history LogHistory.initial object bytes prefetched
  obtain ⟨bound, result, hrestore⟩ := htotal
  obtain ⟨resolved, st, rfl, htxid, hcontent⟩ :=
    restore_content hserves
      (fun t object bytes checkpoint hlog hget =>
        (hcheckpoints t object bytes checkpoint hlog hget).good hcompact)
      hlog hdecode hobject huncompacted
      (fun p hp hsource checkpoint hmem =>
        (hprefetched p hp hsource checkpoint hmem).good hcompact)
      (hrestore bound (Nat.le_refl _))
  exact ⟨bound, resolved, st, hrestore, htxid, hcontent⟩

/-! The history of two snapshots, with a checkpoint for the second. -/

/-- The database that holds the number of its last transaction. -/
def lastTransaction : Semantics Nat := ⟨0, fun _ file => file.last⟩

/-- A compactor for it. -/
def lastCompactor : Compactor where
  compact files := (ofOption "empty" files.getLast?).mapError (fun _ => "empty") |>.map
    fun file => (1, file.last, ltxMagic)

theorem lastCompactor_preserves : lastCompactor.Preserves lastTransaction := by
  intro files first stop data hcompact
  rcases List.eq_nil_or_concat files with rfl | ⟨before, file, rfl⟩
  · cases hcompact
  · obtain ⟨rfl, rfl, rfl⟩ : 1 = first ∧ file.last = stop ∧ ltxMagic = data := by
      simpa [lastCompactor, ofOption, Except.mapError, Except.map] using hcompact
    refine ⟨rfl, ?_⟩
    simp [Semantics.content, lastTransaction]

def pairLog (object : String) : Option Bytes :=
  if object = firstObject then some (das2 firstHeader)
  else if object = secondObject then some (das2 secondHeader) else none

/-- A storage that has the first snapshot as a Standard object, finds the second one by
a scan, and has some checkpoints. -/
def pairStorage (checkpoints : String → Option Bytes) : LogStorage where
  directory _ := some "log"
  version _ := some 1
  source _ := none
  get _ object :=
    if object = firstObject then some (das2 firstHeader)
    else if object = secondObject then none else checkpoints object
  list _ _ := [secondObject ++ ".checkpoint"]
  indexKeys _ _ := []
  liveRecords _ _ _ := none
  indexedRecords _ _ _ _ := none
  records _ _ := [(secondObject, das2 secondHeader)]

theorem pairLog_cases {object : String} {bytes : Bytes} (h : pairLog object = some bytes) :
    object = firstObject ∧ bytes = das2 firstHeader ∨
      object = secondObject ∧ bytes = das2 secondHeader := by
  revert h
  fun_cases pairLog object with
  | case1 hfull => exact fun h => .inl ⟨hfull, (Option.some.inj h).symm⟩
  | case2 _ hdelta => exact fun h => .inr ⟨hdelta, (Option.some.inj h).symm⟩
  | case3 => nofun

theorem pairStorage_serves (checkpoints : String → Option Bytes) :
    (pairStorage checkpoints).Serves pairLog := by
  constructor
  case named => exact fun _ _ _ => ⟨⟨_, rfl⟩, _, rfl⟩
  case live => exact fun _ _ _ _ _ _ h => by cases h
  case archived =>
    intro t object bytes bytes' hlog hget
    obtain ⟨rfl, rfl⟩ | ⟨rfl, rfl⟩ := pairLog_cases hlog
    · exact (Option.some.inj hget).symm
    · cases hget
  case indexed => exact fun _ _ _ _ _ _ _ h => by cases h
  case scanned =>
    intro t directory object bytes bytes' hlog hlookup
    obtain ⟨rfl, rfl⟩ | ⟨rfl, rfl⟩ := pairLog_cases hlog
    · cases hlookup
    · exact (Option.some.inj hlookup).symm
  case complete =>
    intro object directory bytes hlog _
    obtain ⟨rfl, rfl⟩ | ⟨rfl, rfl⟩ := pairLog_cases hlog
    · exact .inr fun _ => rfl
    · exact .inl fun _ => rfl

/-- The checkpoint the checkpointer writes for the second snapshot. -/
def pairWritten : Bytes := das2 checkpointHeader

theorem pairWritten_writable :
    Writable cartSerde lastCompactor pairLog secondObject pairWritten := by
  have hwrite : (pairStorage fun _ => none).checkpoint cartSerde lastCompactor 2 secondObject
      (das2 secondHeader) = some (.ok (some pairWritten)) := by decide +kernel
  refine .write (pairStorage_serves fun _ => none) (fun t object bytes checkpoint hlog hget => ?_)
    rfl hwrite
  obtain ⟨rfl, -⟩ | ⟨rfl, -⟩ := pairLog_cases hlog
  · have hnone : (pairStorage fun _ => none).get 0 (firstObject ++ ".checkpoint") = none := by
      decide +kernel
    cases hget.symm.trans hnone
  · have hnone : (pairStorage fun _ => none).get 0 (secondObject ++ ".checkpoint") = none := by
      decide +kernel
    cases hget.symm.trans hnone

def pairCheckpoints (key : String) : Option Bytes :=
  if key = secondObject ++ ".checkpoint" then some pairWritten else none

/-- The second snapshot is restored through its checkpoint. -/
theorem checkpoints_preserve_content_pair :
    ∃ bound resolved st, (∀ fuel, bound ≤ fuel →
        (pairStorage pairCheckpoints).restore cartSerde.toCodec fuel secondObject
          (das2 secondHeader) none = some (.ok (resolved, st))) ∧
      resolved.sqlite.txid = 3 ∧ lastTransaction.content resolved.sqlite.files = 3 := by
  have huncompacted : Uncompacted cartSerde.toCodec pairLog secondSnapshot
      ([⟨0, 1, 2, ltxMagic⟩] ++ [⟨0, 3, 3, ltxMagic⟩]) :=
    .link rfl (by decide +kernel) rfl second_follows (.full rfl)
  refine checkpoints_preserve_content lastTransaction cartSerde lastCompactor
    lastCompactor_preserves pairLog _ (pairStorage_serves pairCheckpoints) ?_ secondObject
    (das2 secondHeader) secondSnapshot _ none (by decide +kernel) decode_second
    (by decide +kernel) huncompacted (by simp)
  intro t object bytes checkpoint hlog hget
  obtain ⟨rfl, -⟩ | ⟨rfl, -⟩ := pairLog_cases hlog
  · have hnone : (pairStorage pairCheckpoints).get 0 (firstObject ++ ".checkpoint") = none := by
      decide +kernel
    cases hget.symm.trans hnone
  · have hsome : (pairStorage pairCheckpoints).get 0 (secondObject ++ ".checkpoint") =
        some pairWritten := by decide +kernel
    obtain rfl := Option.some.inj (hget.symm.trans hsome)
    exact pairWritten_writable

end DurableActors.Ports.Sqlite
