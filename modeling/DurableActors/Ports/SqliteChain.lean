import DurableActors.Ports.SqlitePublication
import DurableActors.Verified.Journal
import DurableActors.Verified.Text

/-!
# Published histories can be restored

The capture moves on before a write is known to be durable, the durable head only
after it.  While no write has failed, both are at the same transaction whenever a
publication starts: a publication that fails before its write ends the resident
database or the service.  So each snapshot continues the one before it, and
`resolve` finds a complete history behind it.
-/

namespace DurableActors.Ports.Sqlite

open Verified
open Verified.Checked
open Verified.Journal

/-! ## Stored snapshots -/

theorem StateStream.object_inj {stream : StateStream} {v v' : Nat}
    (h : stream.object v = stream.object v') : v = v' :=
  Text.toString_inj ((String.append_right_inj _).mp ((String.append_left_inj _).mp h))

/-- What `StateStream::snapshot` accepts. -/
theorem StateStream.snapshot_eq_ok {codec : Codec} {stream : StateStream} {bytes : Bytes}
    {reference : SnapshotRef} (h : stream.snapshot codec bytes = .ok reference) :
    ∃ s, StateSnapshot.decode codec bytes = .ok s ∧
      s.validateObject codec (stream.object s.version) = .ok () ∧
      s.epoch = stream.epoch ∧ stream.base < s.version ∧
      reference = SnapshotRef.new codec (stream.object s.version) s bytes := by
  obtain ⟨s, hdecode, hchecked⟩ := bind_eq_ok.mp h
  obtain ⟨_, hobject, hensured⟩ := bind_eq_ok.mp hchecked
  obtain ⟨_, hensure, hreturn⟩ := bind_eq_ok.mp hensured
  obtain ⟨hepoch, hbase⟩ := of_decide_eq_true (ensure_eq_ok.mp hensure)
  exact ⟨s, hdecode, hobject, hepoch, hbase, (Except.ok.inj hreturn).symm⟩

section

variable (site : Site)

/-- A stored snapshot under its own name. -/
structure Stored.Good (d : Stored) : Prop where
  decoded : StateSnapshot.decode site.serde.toCodec d.bytes = .ok d.snapshot
  object : d.snapshot.validateObject site.serde.toCodec d.object = .ok ()
  named : d.object = site.objectName d.snapshot

/-- The version of the newest snapshot, zero if there is none. -/
def versionOf (newest : Option Stored) : Nat := newest.elim 0 fun d => d.snapshot.version

/-- `d` is the next version, and starts at transaction one or right after the
newest snapshot, which is its parent. -/
structure Stored.Continues (newest : Option Stored) (d : Stored) : Prop where
  version : d.snapshot.version = versionOf newest + 1
  parent : d.snapshot.sqlite.parent = none ∨
    ∃ e ∈ newest, d.snapshot.sqlite.parent = some (e.reference site.serde.toCodec) ∧
      ∀ file ∈ d.snapshot.sqlite.files.head?, file.first = e.snapshot.sqlite.txid + 1

/-- The snapshots of an activation continue each other. -/
abbrev Lineage (found : Option Stored) (written : List Stored) : Prop :=
  Lawful (fun d before => d.Continues site (before.head?.or found)) written

/-- The capture and the durable head are at the same transaction. -/
structure ResidentDatabase.Aligned (newest : Option Stored) (r : ResidentDatabase) : Prop where
  epoch : r.epoch = site.epoch
  version : r.version = versionOf newest
  cursor : (r.head = none ∧ r.sqlite.published = 0) ∨
    ∃ d ∈ newest, r.head = some (d.reference site.serde.toCodec) ∧
      r.sqlite.published = d.snapshot.sqlite.txid
  plan : ∀ plan ∈ r.nextWrite, plan = site.plan plan.version

/-- The resident database is that of the durable snapshot `d`. -/
structure ResidentDatabase.Settled (d : Stored) (r : ResidentDatabase) : Prop where
  aligned : r.Aligned site (some d)
  pending : r.pending = none
  published : r.published = some d.snapshot.sqlite.txid
  request : r.lastRequest = d.snapshot.completion.map fun _ => d.snapshot.request
  result : r.lastResult = d.snapshot.completion

/-- `d` is pending: it has been prepared on the newest snapshot, and it is not
known whether it is durable. -/
structure ResidentDatabase.Awaits (newest : Option Stored) (d : Stored)
    (r : ResidentDatabase) : Prop where
  epoch : r.epoch = site.epoch
  version : r.version = versionOf newest
  pending : r.pending =
    some ⟨d.snapshot, d.snapshot.sqlite.txid, site.plan d.snapshot.version, false⟩
  cursor : r.sqlite.published = d.snapshot.sqlite.txid
  encoded : d.snapshot.encode site.serde = .ok d.bytes
  named : d.object = site.stream.object d.snapshot.version
  owned : d.snapshot.epoch = site.epoch
  continues : d.Continues site newest

end

/-! ## One publication -/

section

variable {site : Site} {r : ResidentDatabase} {a : Answers} {storage : Storage}

/-- What `capture_sqlite` returns. -/
theorem ResidentDatabase.captureSqlite_ok {directory : List LtxFile} {txid : Nat}
    {s : SqliteSnapshot} {after : ResidentDatabase}
    (h : r.captureSqlite directory txid = (.ok s, after)) :
    s.txid = txid ∧ after = { r with sqlite := ⟨txid, txid⟩ } ∧
      ∃ file, s.files.head? = some file ∧
        (file.first = r.sqlite.published + 1 ∨ file.level = 9) ∧
        ((file.first = 1 ∧ s.parent = none) ∨
          (file.first ≠ 1 ∧ ∃ parent, r.head = some parent ∧ s.parent = some parent)) := by
  revert h
  fun_cases r.captureSqlite directory txid with
  | case3 files sqlite hcapture moved file hhead hone =>
    intro h
    obtain ⟨-, rfl, hfirst⟩ := SqliteCapture.capture_eq_ok hcapture
    obtain ⟨⟨⟩, rfl⟩ := Prod.mk.inj h
    exact ⟨rfl, rfl, file, hhead, hfirst file hhead, .inl ⟨hone, rfl⟩⟩
  | case5 files sqlite hcapture moved file hhead hone parent hparent =>
    intro h
    obtain ⟨-, rfl, hfirst⟩ := SqliteCapture.capture_eq_ok hcapture
    obtain ⟨⟨⟩, rfl⟩ := Prod.mk.inj h
    exact ⟨rfl, rfl, file, hhead, hfirst file hhead, .inr ⟨hone, parent, hparent, rfl⟩⟩
  | _ => rintro ⟨⟩

theorem ResidentDatabase.captureSqlite_snd (directory : List LtxFile) (txid : Nat) :
    ∃ sqlite, (r.captureSqlite directory txid).2 = { r with sqlite := sqlite } := by
  fun_cases r.captureSqlite directory txid with
  | case1 => exact ⟨r.sqlite, rfl⟩
  | _ => exact ⟨_, rfl⟩

/-- The snapshot that is about to be written. -/
structure Prepared (site : Site) (r : ResidentDatabase) (request : String)
    (completion : Option String) (txid : Nat) (s : StateSnapshot) (bytes : Bytes) : Prop where
  encoded : s.encode site.serde = .ok bytes
  version : s.version = r.version + 1
  epoch : s.epoch = r.epoch
  request : s.request = request
  completion : s.completion = completion
  txid : s.sqlite.txid = txid
  parent : s.sqlite.parent = none ∨
    ∃ parent, r.head = some parent ∧ s.sqlite.parent = some parent ∧
      ∀ file ∈ s.sqlite.files.head?, file.first = r.sqlite.published + 1

/-- A snapshot is prepared, or the capture may have moved on for nothing. -/
theorem ResidentDatabase.prepareSnapshot_cases (site : Site) (r : ResidentDatabase)
    (a : Answers) (request : String) (completion : Option String) (txid : Nat) :
    (∃ sqlite, r.prepareSnapshot site a request completion txid =
      (none, { r with sqlite := sqlite })) ∨
    ∃ s bytes, Prepared site r request completion txid s bytes ∧
      r.prepareSnapshot site a request completion txid =
        (some (s, bytes), { r with sqlite := ⟨txid, txid⟩ }) := by
  unfold ResidentDatabase.prepareSnapshot
  cases a.directory with
  | none => exact .inl ⟨r.sqlite, rfl⟩
  | some directory =>
    obtain ⟨moved, hmoved⟩ := r.captureSqlite_snd directory txid
    dsimp only
    cases hcapture : r.captureSqlite directory txid with
    | mk captured after =>
    rw [hcapture] at hmoved
    obtain rfl : after = { r with sqlite := moved } := hmoved
    dsimp only
    generalize hencoded : (captured >>= fun sqlite => _) = encoded
    cases encoded with
    | error e => exact .inl ⟨moved, rfl⟩
    | ok found =>
      obtain ⟨s, bytes⟩ := found
      obtain ⟨sqlite, rfl, hclock⟩ := bind_eq_ok.mp hencoded
      obtain ⟨_, -, hencode⟩ := bind_eq_ok.mp hclock
      obtain ⟨bytes', hbytes, hreturn⟩ := bind_eq_ok.mp hencode
      obtain ⟨rfl, rfl⟩ := Prod.mk.inj (Except.ok.inj hreturn)
      obtain ⟨htxid, hafter, file, hhead, hfirst, hparent⟩ := captureSqlite_ok hcapture
      refine .inr ⟨_, _, ?_, by rw [hafter]; rfl⟩
      refine ⟨hbytes, rfl, rfl, rfl, rfl, htxid, ?_⟩
      rcases hparent with ⟨-, hnone⟩ | ⟨hone, parent, hpar, hsome⟩
      · exact .inl hnone
      · refine .inr ⟨parent, hpar, hsome, fun file' hfile' => ?_⟩
        obtain rfl := Option.some.inj (hhead.symm.trans hfile')
        rcases hfirst with hfirst | hlevel
        · exact hfirst
        · -- a full copy starts at transaction one
          have hvalid := (StateSnapshot.encode_valid hbytes).2
          have hfull := (hvalid.usable file (List.mem_of_head? hhead)).1.full
          exact absurd (hfull.resolve_left (fun hne => hne hlevel)) hone

/-! ### The write -/

/-- Objects are never lost or changed. -/
def Storage.Grows (storage storage' : Storage) : Prop :=
  ∀ object bytes, storage.get object = some bytes → storage'.get object = some bytes

theorem Storage.Grows.refl (storage : Storage) : storage.Grows storage := fun _ _ h => h

theorem Storage.persist_eq_some {d : Stored} {storage' : Storage}
    (h : storage.persist d = some storage') :
    storage.Grows storage' ∧ storage'.get d.object = some d.bytes ∧
      storage'.written = if storage.written.any (fun e => e.object = d.object) = true
        then storage.written else d :: storage.written := by
  revert h
  fun_cases storage.persist d with
  | case1 written hnone =>
    rintro ⟨⟩
    refine ⟨fun object bytes hget => ?_, by simp [Storage.get], rfl⟩
    by_cases hsame : object = d.object
    · rw [hsame, hnone] at hget
      cases hget
    · have hne : (object == d.object) = false := beq_eq_false_iff_ne.mpr hsame
      simpa [Storage.get, List.lookup_cons, hne] using hget
  | case2 written hsome =>
    rintro ⟨⟩
    exact ⟨fun _ _ hget => hget, hsome, rfl⟩
  | case3 => rintro ⟨⟩

/-- `write_snapshot` of an encoded snapshot stores nothing, or the snapshot under
its name. -/
theorem writeSnapshot_cases (storage : Storage) (plan : WritePlan) (write : Write)
    {s : StateSnapshot} {bytes : Bytes} (hencode : s.encode site.serde = .ok bytes) :
    writeSnapshot site storage plan s bytes write = (false, storage) ∨
    ∃ storage', write ≠ .refused ∧ plan.object = plan.stream.object s.version ∧
      s.validateObject site.serde.toCodec plan.object = .ok () ∧
      storage.persist ⟨plan.object, bytes, s⟩ = some storage' ∧
      writeSnapshot site storage plan s bytes write = (decide (write = .stored), storage') := by
  fun_cases writeSnapshot site storage plan s bytes write with
  | case3 reference hreference hplan storage' hpersist =>
    obtain ⟨s', hdecode, hobject, -, -, rfl⟩ := StateStream.snapshot_eq_ok hreference
    obtain rfl : s = s' := Except.ok.inj ((StateSnapshot.decode_encode hencode).symm.trans hdecode)
    have hname : plan.object = plan.stream.object s.version := hplan.1.symm
    exact .inr ⟨storage', hplan.2.2, hname, hname ▸ hobject, hpersist, rfl⟩
  | _ => exact .inl rfl

theorem writeSnapshot_grows (storage : Storage) (plan : WritePlan) (s : StateSnapshot)
    (bytes : Bytes) (write : Write) :
    storage.Grows (writeSnapshot site storage plan s bytes write).2 := by
  fun_cases writeSnapshot site storage plan s bytes write with
  | case3 reference _ _ storage' hpersist => exact (Storage.persist_eq_some hpersist).1
  | _ => exact .refl storage

theorem ResidentDatabase.writePending_grows (p : PendingStateCommit) (bytes : Bytes) :
    storage.Grows (r.writePending site a storage p bytes).storage := by
  have hgrows : storage.Grows (writeSnapshot site storage p.ticket p.snapshot bytes a.write).2 :=
    writeSnapshot_grows storage p.ticket p.snapshot bytes a.write
  fun_cases r.writePending site a storage p bytes with
  | case1 storage' hwrite =>
    rw [hwrite] at hgrows
    exact hgrows
  | case2 storage' hwrite =>
    rw [hwrite] at hgrows
    exact hgrows

theorem ResidentDatabase.publishStateOnce_grows (request : String)
    (completion : Option String) (txid : Nat) :
    storage.Grows (r.publishStateOnce site a storage request completion txid).storage := by
  fun_cases ResidentDatabase.publishStateOnce site r a storage request completion txid with
  | case3 => exact ResidentDatabase.writePending_grows _ _
  | _ => exact .refl storage

theorem ResidentDatabase.finishPendingCommit_grows :
    storage.Grows (r.finishPendingCommit site a storage).storage := by
  fun_cases r.finishPendingCommit site a storage with
  | case5 => exact ResidentDatabase.writePending_grows _ _
  | _ => exact .refl storage

/-! ### The outcome -/

/-- How a publication or a retry on the newest snapshot can end. -/
inductive Outcome (site : Site) (write : Write) (storage : Storage) (newest : Option Stored)
    (d : Stored) : Published → Prop
  /-- nothing is stored -/
  | refused {resident : ResidentDatabase} (hawaits : resident.Awaits site newest d) :
      Outcome site write storage newest d ⟨false, true, resident, storage⟩
  | lost {resident : ResidentDatabase} {storage' : Storage}
      (hawaits : resident.Awaits site newest d) (hwrite : write = .lost)
      (hgood : d.Good site) (hpersist : storage.persist d = some storage') :
      Outcome site write storage newest d ⟨false, true, resident, storage'⟩
  | stored {resident : ResidentDatabase} {storage' : Storage}
      (hsettled : resident.Settled site d) (howned : d.snapshot.epoch = site.epoch)
      (hcontinues : d.Continues site newest) (hwrite : write = .stored)
      (hgood : d.Good site) (hpersist : storage.persist d = some storage') :
      Outcome site write storage newest d ⟨true, true, resident, storage'⟩

/-- The object of the activation's own snapshots. -/
theorem Site.objectName_own {s : StateSnapshot} (h : s.epoch = site.epoch) :
    site.objectName s = site.stream.object s.version := by
  simp only [Site.objectName, StateStream.object, Site.stream, h]

/-- A pending commit is written. -/
theorem ResidentDatabase.writePending_outcome {newest : Option Stored} {d : Stored}
    (hawaits : { r with pending := some ⟨d.snapshot, d.snapshot.sqlite.txid,
      site.plan d.snapshot.version, false⟩ }.Awaits site newest d) :
    Outcome site a.write storage newest d (r.writePending site a storage
      ⟨d.snapshot, d.snapshot.sqlite.txid, site.plan d.snapshot.version, false⟩ d.bytes) := by
  have hobject : (site.plan d.snapshot.version).object = d.object := hawaits.named.symm
  unfold ResidentDatabase.writePending
  rcases writeSnapshot_cases storage (site.plan d.snapshot.version) a.write hawaits.encoded with
    hnothing | ⟨storage', hwrite, -, hvalid, hpersist, hresult⟩
  · rw [hnothing]
    exact .refused hawaits
  · rw [hresult]
    rw [hobject] at hvalid hpersist
    have hgood : d.Good site := by
      refine ⟨StateSnapshot.decode_encode hawaits.encoded, hvalid, ?_⟩
      rw [Site.objectName_own hawaits.owned]
      exact hawaits.named
    cases hkind : a.write with
    | refused => exact absurd hkind hwrite
    | lost => exact .lost hawaits rfl hgood hpersist
    | stored =>
      refine .stored ?_ hawaits.owned hawaits.continues rfl hgood hpersist
      constructor
      case pending => rfl
      case published => rfl
      case request => rfl
      case result => rfl
      case aligned =>
        constructor
        case epoch => exact hawaits.epoch
        case version => rfl
        case cursor =>
          refine .inr ⟨d, rfl, ?_, hawaits.cursor⟩
          simp only [ResidentDatabase.settle, ResidentDatabase.setCompletion, Stored.reference,
            hobject]
        case plan =>
          rintro plan ⟨⟩
          rfl

/-- The plan that is used is that of the next version. -/
theorem ResidentDatabase.Aligned.ticket_eq {newest : Option Stored} {ticket : WritePlan}
    (haligned : r.Aligned site newest) (h : r.ticket site a = some ticket) :
    ticket = site.plan (r.version + 1) := by
  unfold ResidentDatabase.ticket at h
  rcases Option.or_eq_some_iff.mp h with hnext | ⟨-, hplanned⟩
  · obtain ⟨hnext, hfits⟩ := Option.filter_eq_some_iff.mp hnext
    have hversion : ticket.version = r.version + 1 := (of_decide_eq_true hfits).1
    rw [haligned.plan ticket hnext, hversion]
  · unfold ResidentDatabase.prepareStateWrite at hplanned
    split at hplanned
    · exact (Option.some.inj hplanned).symm
    · cases hplanned

/-- **A publication on the newest snapshot**: it fails before its write, or its
snapshot continues the newest one. -/
theorem ResidentDatabase.Aligned.publishStateOnce_outcome {newest : Option Stored}
    (haligned : r.Aligned site newest) (request : String) (completion : Option String)
    (txid : Nat) :
    (∃ resident, resident.pending = r.pending ∧
      r.publishStateOnce site a storage request completion txid =
        ⟨false, false, resident, storage⟩) ∨
    ∃ d, d.snapshot.request = request ∧ d.snapshot.completion = completion ∧
      d.snapshot.sqlite.txid = txid ∧ Outcome site a.write storage newest d
        (r.publishStateOnce site a storage request completion txid) := by
  unfold ResidentDatabase.publishStateOnce
  dsimp only
  split
  · exact .inl ⟨{ r with nextWrite := none }, rfl, rfl⟩
  · rename_i ticket hticket
    obtain rfl := haligned.ticket_eq hticket
    split
    · rcases ResidentDatabase.prepareSnapshot_cases site { r with nextWrite := none } a
          request completion txid with
        ⟨sqlite, hnone⟩ | ⟨s, bytes, hprepared, hsome⟩
      · rw [hnone]
        exact .inl ⟨{ r with nextWrite := none, sqlite := sqlite }, rfl, rfl⟩
      · rw [hsome]
        right
        have hversion : s.version = versionOf newest + 1 := by
          rw [hprepared.version]
          exact congrArg (· + 1) haligned.version
        let d : Stored := ⟨site.stream.object s.version, bytes, s⟩
        have hcontinues : d.Continues site newest := by
          refine ⟨hversion, ?_⟩
          rcases hprepared.parent with hnone | ⟨parent, hhead, hparent, hfirst⟩
          · exact .inl hnone
          · rcases haligned.cursor with ⟨hnohead, -⟩ | ⟨e, he, hreference, hcursor⟩
            · rw [hnohead] at hhead
              cases hhead
            · obtain rfl := Option.some.inj (hreference.symm.trans hhead)
              refine .inr ⟨e, he, hparent, fun file hfile => ?_⟩
              rw [hfirst file hfile]
              exact congrArg (· + 1) hcursor
        refine ⟨d, hprepared.request, hprepared.completion, hprepared.txid, ?_⟩
        have hplan : site.plan (r.version + 1) = site.plan d.snapshot.version := by
          rw [hprepared.version]
        have htxid : txid = d.snapshot.sqlite.txid := hprepared.txid.symm
        rw [hplan, htxid]
        refine ResidentDatabase.writePending_outcome ?_
        constructor
        case epoch => exact haligned.epoch
        case version => exact haligned.version
        case pending => rfl
        case cursor => rfl
        case encoded => exact hprepared.encoded
        case named => rfl
        case owned => exact hprepared.epoch.trans haligned.epoch
        case continues => exact hcontinues
    · exact .inl ⟨{ r with nextWrite := none }, rfl, rfl⟩

end

end DurableActors.Ports.Sqlite
