import DurableActors.Ports.SnapshotEncode

/-!
# Resolving the history of a snapshot

`recovery::resolve` of `bucket/recovery.rs`: from a stored snapshot it walks to
the parents until one starts at transaction one, or a checkpoint stands for the
rest of the history, and concatenates the LTX files.  The objects it reads may be
anything.

A snapshot that decodes has a parent of a smaller version only, and the parent
that was read has this version, so the walk ends, also on cyclic references.
-/

namespace DurableActors.Ports.Sqlite

open Verified
open Verified.Checked

variable {bytes : Bytes} {first fuel txid version : Nat} {parent : SnapshotRef}
  {current head : StateSnapshot} {object : String}
  {prefetched : Option PrefetchedCheckpoint}

/-! ## The walk -/

/-- `SnapshotHistory`: a reader with a state of its own. -/
structure History (σ : Type) where
  read : String → σ → Checked (Bytes × σ)
  checkpoint : String → σ → Checked (Option Bytes × σ)

/-- `PrefetchedCheckpoint`. -/
structure PrefetchedCheckpoint where
  source : SnapshotRef
  bytes : Option Bytes
deriving DecidableEq, Repr

/-- `ResolvedSqlite`. -/
structure ResolvedSqlite where
  sqlite : SqliteSnapshot
  checkpointVersion : Nat
  checkpoint : Bool
  parents : Nat
  baseBytes : Nat
  logBytes : Nat
deriving DecidableEq, Repr

/-- The variables of the loop in `resolve`. -/
structure Walk where
  current : StateSnapshot
  reference : SnapshotRef
  prefetched : Option PrefetchedCheckpoint
  segments : List (List LtxFile)
  parents : Nat
deriving DecidableEq, Repr

/-- How a turn of the loop ends: with `break`, by a checkpoint or at a snapshot
without parent, or with the parent as the new snapshot. -/
inductive Turn
  | done (checkpoint : Bool) (w : Walk)
  | next (w : Walk)

section

variable (codec : Codec) {σ : Type} (h : History σ) (w : Walk) (st : σ)

/-- The lines of `resolve` before the loop. -/
def startWalk (object : String) (bytes : Bytes) (prefetched : Option PrefetchedCheckpoint) :
    Checked Walk := do
  let current ← StateSnapshot.decode codec bytes
  current.validateObject codec object
  let reference := SnapshotRef.new codec object current bytes
  return ⟨current, reference, prefetched.filter fun p => p.source = reference, [], 0⟩

/-- `checkpoint_bytes`. -/
def Walk.probe : Checked (Option Bytes × σ) :=
  match w.current.sqlite.parent, w.prefetched with
  | none, _ => .ok (none, st)
  | some _, some p => .ok (p.bytes, st)
  | some _, none => h.checkpoint w.reference.object st

/-- The end of a turn: read the parent and check it against the reference. -/
def Walk.follow (parent : SnapshotRef) (first : Nat) : Checked (Walk × σ) := do
  let (bytes, st) ← context ("read SQLite dependency " ++ parent.object) (h.read parent.object st)
  context ("verify SQLite dependency " ++ parent.object) (parent.verify codec bytes)
  let current ← StateSnapshot.decode codec bytes
  current.validateObject codec parent.object
  ensure (current.version = parent.version ∧ current.request = parent.request)
    "SQLite dependency identity mismatch"
  ensure (checkedAdd current.sqlite.txid 1 = some first) "SQLite dependency transaction gap"
  return ({ w with current := current, reference := parent, prefetched := none,
                   parents := w.parents + 1 }, st)

/-- One turn of the loop. -/
def Walk.turn : Checked (Turn × σ) := do
  let (found, st) ← w.probe h st
  match found with
  | some bytes => do
      let sqlite ← context ("validate checkpoint for " ++ w.reference.object)
        (Checkpoint.decode codec bytes w.reference w.current.sqlite.txid)
      return (.done true { w with segments := w.segments ++ [sqlite.files] }, st)
  | none => do
      let first ← index w.current.sqlite.files 0
      let pushed := { w with segments := w.segments ++ [w.current.sqlite.files] }
      match w.current.sqlite.parent with
      | none => return (.done false pushed, st)
      | some parent => do
          let (w, st) ← pushed.follow codec h st parent first.first
          return (.next w, st)

/-- The loop; nothing is returned when the fuel runs out. -/
def Walk.run : Nat → Walk → σ → Option (Checked (Bool × Walk × σ))
  | 0, _, _ => none
  | fuel + 1, w, st =>
    match w.turn codec h st with
    | .error e => some (.error e)
    | .ok (.done checkpoint w, st) => some (.ok (checkpoint, w, st))
    | .ok (.next w, st) => Walk.run fuel w st

/-- The LTX bytes of one segment. -/
def segmentSize (files : List LtxFile) : Nat := (files.map fun file => file.data.length).sum

/-- `a - b` on `u64`. -/
def subtract (a b : Nat) : Checked Nat := if b ≤ a then .ok (a - b) else .error .panic

/-- The lines of `resolve` after the loop. -/
def Walk.finish (txid : Nat) (checkpoint : Bool) : Checked ResolvedSqlite := do
  let baseBytes := (w.segments.getLast?.map segmentSize).getD 0
  let logBytes ← subtract (w.segments.map segmentSize).sum baseBytes
  return {
    checkpointVersion := w.reference.version
    checkpoint := checkpoint
    parents := w.parents
    baseBytes := baseBytes
    logBytes := logBytes
    sqlite := ⟨txid, none, w.segments.reverse.flatten⟩ }

/-- The end of `resolve`, for what the loop returned. -/
def Walk.conclude (result : Checked (Bool × Walk × σ)) : Checked (ResolvedSqlite × σ) := do
  let (checkpoint, after, st) ← result
  let resolved ← after.finish w.current.sqlite.txid checkpoint
  return (resolved, st)

/-- `resolve`. -/
def resolve (fuel : Nat) (object : String) (bytes : Bytes)
    (prefetched : Option PrefetchedCheckpoint) : Option (Checked (ResolvedSqlite × σ)) :=
  match startWalk codec object bytes prefetched with
  | .error e => some (.error e)
  | .ok w => (Walk.run codec h fuel w st).map w.conclude

/-- `StoredHistory` over a map of objects. -/
def storedHistory (store : String → Option Bytes) : History Unit where
  read object _ := do
    let bytes ← ofOption "SQLite dependency missing" (store object)
    return (bytes, ())
  checkpoint object _ := .ok (store (object ++ ".checkpoint"), ())

end

/-! ## What a turn does -/

/-- The parent that was read is the one the snapshot refers to, and it ends
right before the snapshot's files. -/
structure Follows (codec : Codec) (parent : SnapshotRef) (first : Nat) (bytes : Bytes)
    (current : StateSnapshot) : Prop where
  digest : codec.checksum bytes = parent.digest
  decoded : StateSnapshot.decode codec bytes = .ok current
  object : current.validateObject codec parent.object = .ok ()
  version : current.version = parent.version
  request : current.request = parent.request
  adjacent : current.sqlite.txid + 1 = first

/-- The reference is that of the snapshot. -/
theorem Follows.reference_eq {codec : Codec} (h : Follows codec parent first bytes current) :
    parent = SnapshotRef.new codec parent.object current bytes := by
  obtain ⟨object, version, request, digest⟩ := parent
  simp only [SnapshotRef.new, SnapshotRef.mk.injEq]
  exact ⟨trivial, h.version.symm, h.request.symm, h.digest.symm⟩

/-- The turns that succeed. -/
inductive Turned (codec : Codec) {σ : Type} (h : History σ) (w : Walk) (st : σ) :
    Turn → σ → Prop
  | checkpoint {bytes : Bytes} {sqlite : SqliteSnapshot} {st' : σ}
      (hprobe : w.probe h st = .ok (some bytes, st'))
      (hdecode : Checkpoint.decode codec bytes w.reference w.current.sqlite.txid = .ok sqlite) :
      Turned codec h w st (.done true { w with segments := w.segments ++ [sqlite.files] }) st'
  | root {st' : σ} (hprobe : w.probe h st = .ok (none, st'))
      (hparent : w.current.sqlite.parent = none) :
      Turned codec h w st
        (.done false { w with segments := w.segments ++ [w.current.sqlite.files] }) st'
  | parent {st' st'' : σ} {parent : SnapshotRef} {file : LtxFile} {bytes : Bytes}
      {current : StateSnapshot} (hprobe : w.probe h st = .ok (none, st'))
      (hparent : w.current.sqlite.parent = some parent)
      (hfile : w.current.sqlite.files[0]? = some file)
      (hread : h.read parent.object st' = .ok (bytes, st''))
      (hfollows : Follows codec parent file.first bytes current) :
      Turned codec h w st
        (.next { current := current, reference := parent, prefetched := none,
                 segments := w.segments ++ [w.current.sqlite.files],
                 parents := w.parents + 1 }) st''

section

variable {codec : Codec} {σ : Type} {h : History σ} {w w' : Walk} {st st' : σ}

theorem Walk.follow_eq_ok (hok : w.follow codec h st parent first = .ok (w', st')) :
    ∃ bytes current, h.read parent.object st = .ok (bytes, st') ∧
      Follows codec parent first bytes current ∧
      w' = { w with current := current, reference := parent, prefetched := none,
                    parents := w.parents + 1 } := by
  unfold Walk.follow at hok
  obtain ⟨⟨bytes, after⟩, hread, hok⟩ := bind_eq_ok.mp hok
  obtain ⟨_, hverify, hok⟩ := bind_eq_ok.mp hok
  obtain ⟨current, hdecode, hok⟩ := bind_eq_ok.mp hok
  obtain ⟨_, hobject, hok⟩ := bind_eq_ok.mp hok
  obtain ⟨_, hsame, hok⟩ := bind_eq_ok.mp hok
  obtain ⟨_, hadjacent, hok⟩ := bind_eq_ok.mp hok
  obtain ⟨rfl, rfl⟩ := Prod.mk.inj (Except.ok.inj hok)
  obtain ⟨hversion, hrequest⟩ := of_decide_eq_true (ensure_eq_ok.mp hsame)
  refine ⟨bytes, current, context_eq_ok.mp hread, ?_, rfl⟩
  constructor
  case digest => exact of_decide_eq_true (ensure_eq_ok.mp (context_eq_ok.mp hverify))
  case decoded => exact hdecode
  case object => exact hobject
  case version => exact hversion
  case request => exact hrequest
  case adjacent =>
    exact (checkedAdd_eq_some.mp (of_decide_eq_true (ensure_eq_ok.mp hadjacent))).1

/-- **Every successful turn** is one of the three. -/
theorem Walk.turned {turn : Turn} (hok : w.turn codec h st = .ok (turn, st')) :
    Turned codec h w st turn st' := by
  unfold Walk.turn at hok
  obtain ⟨⟨found, after⟩, hprobe, hok⟩ := bind_eq_ok.mp hok
  cases found with
  | some bytes =>
    obtain ⟨sqlite, hdecode, hok⟩ := bind_eq_ok.mp hok
    obtain ⟨rfl, rfl⟩ := Prod.mk.inj (Except.ok.inj hok)
    exact .checkpoint hprobe (context_eq_ok.mp hdecode)
  | none =>
    obtain ⟨file, hfile, hok⟩ := bind_eq_ok.mp hok
    dsimp only at hok
    split at hok
    · rename_i hparent
      obtain ⟨rfl, rfl⟩ := Prod.mk.inj (Except.ok.inj hok)
      exact .root hprobe hparent
    · rename_i parent hparent
      obtain ⟨⟨w', st''⟩, hfollow, hok⟩ := bind_eq_ok.mp hok
      obtain ⟨rfl, rfl⟩ := Prod.mk.inj (Except.ok.inj hok)
      obtain ⟨bytes, current, hread, hfollows, rfl⟩ := Walk.follow_eq_ok hfollow
      exact .parent hprobe hparent (index_eq_ok.mp hfile) hread hfollows

/-! ## The invariant -/

/-- The files collected so far continue the current snapshot up to `txid`. -/
structure Walk.Inv (txid : Nat) (w : Walk) : Prop where
  valid : w.current.sqlite.Valid w.current.version
  tiles : Contiguous (w.current.sqlite.txid + 1) w.segments.reverse.flatten (txid + 1)
  usable : ∀ file ∈ w.segments.flatten, file.Usable

/-- The files are those of the whole history. -/
structure Walk.Done (txid : Nat) (w : Walk) : Prop where
  tiles : Contiguous 1 w.segments.reverse.flatten (txid + 1)
  usable : ∀ file ∈ w.segments.flatten, file.Usable

theorem flatten_reverse_push (segments : List (List LtxFile)) (files : List LtxFile) :
    (segments ++ [files]).reverse.flatten = files ++ segments.reverse.flatten := by
  rw [List.reverse_append, List.reverse_singleton, List.singleton_append, List.flatten_cons]

/-- Files that end where the current snapshot does can be put in front. -/
theorem Walk.Inv.push {files : List LtxFile} (hinv : w.Inv txid)
    (htiles : Contiguous first files (w.current.sqlite.txid + 1))
    (husable : ∀ file ∈ files, file.Usable) :
    Contiguous first (w.segments ++ [files]).reverse.flatten (txid + 1) ∧
      ∀ file ∈ (w.segments ++ [files]).flatten, file.Usable := by
  constructor
  · rw [flatten_reverse_push]
    exact htiles.append hinv.tiles
  · intro file hfile
    rw [List.flatten_append, List.flatten_singleton] at hfile
    rcases List.mem_append.mp hfile with hold | hnew
    · exact hinv.usable file hold
    · exact husable file hnew

/-- A valid part without parent starts at transaction one. -/
theorem SqliteSnapshot.Valid.tiles_of_full {s : SqliteSnapshot} (hvalid : s.Valid version)
    (hparent : s.parent = none) : Contiguous 1 s.files (s.txid + 1) := by
  obtain ⟨first, htiles, -, hfirst⟩ := hvalid.tiles
  rw [hfirst.mpr hparent] at htiles
  exact htiles

/-- The files of a valid part start with its first file. -/
theorem SqliteSnapshot.Valid.tiles_from {s : SqliteSnapshot} {file : LtxFile}
    (hvalid : s.Valid version) (hfile : s.files[0]? = some file) :
    Contiguous file.first s.files (s.txid + 1) := by
  obtain ⟨first, htiles, hhead, -⟩ := hvalid.tiles
  rw [List.head?_eq_getElem?, hfile] at hhead
  obtain rfl := Option.some.inj hhead
  exact htiles

theorem Turned.done {checkpoint : Bool} (hinv : w.Inv txid)
    (hturn : Turned codec h w st (.done checkpoint w') st') : w'.Done txid := by
  cases hturn with
  | checkpoint hprobe hdecode =>
    obtain ⟨hvalid, hparent, htxid⟩ := Checkpoint.decode_valid hdecode
    have htiles := hvalid.tiles_of_full hparent
    rw [htxid] at htiles
    obtain ⟨htiles, husable⟩ := hinv.push htiles hvalid.usable
    exact ⟨htiles, husable⟩
  | root hprobe hparent =>
    obtain ⟨htiles, husable⟩ :=
      hinv.push (hinv.valid.tiles_of_full hparent) hinv.valid.usable
    exact ⟨htiles, husable⟩

/-- The parent keeps the invariant, and its version is smaller. -/
theorem Turned.next (hinv : w.Inv txid) (hturn : Turned codec h w st (.next w') st') :
    w'.Inv txid ∧ w'.current.version < w.current.version := by
  cases hturn with
  | parent hprobe hparent hfile hread hfollows =>
    have hvalid := (StateSnapshot.decode_valid hfollows.decoded).2
    obtain ⟨htiles, husable⟩ := hinv.push (hinv.valid.tiles_from hfile) hinv.valid.usable
    refine ⟨⟨hvalid, ?_, husable⟩, ?_⟩
    · show Contiguous (_ + 1) _ _
      rw [hfollows.adjacent]
      exact htiles
    · show _ < w.current.version
      rw [hfollows.version]
      exact hinv.valid.precedes _ hparent

/-! ## The loop ends -/

/-- **Termination**: as many turns as the version are enough. -/
theorem Walk.run_total {bound : Nat} (hinv : w.Inv txid) (hbound : w.current.version < bound) :
    ∃ result, ∀ fuel, bound ≤ fuel → Walk.run codec h fuel w st = some result := by
  induction bound generalizing w st with
  | zero => omega
  | succ bound ih =>
    cases hturn : w.turn codec h st with
    | error e =>
      refine ⟨.error e, fun fuel hfuel => ?_⟩
      obtain ⟨fuel, rfl⟩ := Nat.exists_eq_add_of_le' hfuel
      simp only [Walk.run, hturn]
    | ok after =>
      obtain ⟨turn, st'⟩ := after
      cases turn with
      | done checkpoint w' =>
        refine ⟨.ok (checkpoint, w', st'), fun fuel hfuel => ?_⟩
        obtain ⟨fuel, rfl⟩ := Nat.exists_eq_add_of_le' hfuel
        simp only [Walk.run, hturn]
      | next w' =>
        obtain ⟨hinv', hlt⟩ := (Walk.turned hturn).next hinv
        obtain ⟨result, hresult⟩ : ∃ result, ∀ fuel, bound ≤ fuel →
            Walk.run codec h fuel w' st' = some result := ih hinv' (by omega)
        refine ⟨result, fun fuel hfuel => ?_⟩
        obtain ⟨fuel, rfl⟩ := Nat.exists_eq_add_of_le' hfuel
        simp only [Walk.run, Nat.add_eq, hturn]
        exact hresult _ (by omega)

/-- What the loop returns is the whole history. -/
theorem Walk.run_done {checkpoint : Bool} (hinv : w.Inv txid)
    (hrun : Walk.run codec h fuel w st = some (.ok (checkpoint, w', st'))) : w'.Done txid := by
  induction fuel generalizing w st with
  | zero => cases hrun
  | succ fuel ih =>
    rw [Walk.run] at hrun
    split at hrun
    · cases hrun
    · rename_i hturn
      obtain ⟨rfl, rfl, rfl⟩ : _ ∧ _ ∧ _ := by simpa using hrun
      exact (Walk.turned hturn).done hinv
    · rename_i hturn
      exact ih ((Walk.turned hturn).next hinv).1 hrun

/-! ## No panics -/

/-- A reader that does not panic. -/
structure History.IsSafe (h : History σ) : Prop where
  read : ∀ object st, Safe (h.read object st)
  checkpoint : ∀ object st, Safe (h.checkpoint object st)

theorem Walk.safe_follow (hsafe : h.IsSafe) (parent : SnapshotRef) (first : Nat) :
    Safe (w.follow codec h st parent first) := by
  unfold Walk.follow
  refine safe_bind (safe_context (hsafe.read _ _)) fun _ _ => ?_
  refine safe_bind (safe_context (safe_ensure _ _)) fun _ _ => ?_
  refine safe_bind (StateSnapshot.safe_decode _ _) fun current _ => ?_
  refine safe_bind (current.safe_validateObject _ _) fun _ _ => ?_
  refine safe_bind (safe_ensure _ _) fun _ _ => ?_
  exact safe_bind (safe_ensure _ _) fun _ _ => safe_ok _

/-- The first file is there, because the snapshot is valid. -/
theorem Walk.safe_turn (hsafe : h.IsSafe) (hinv : w.Inv txid) : Safe (w.turn codec h st) := by
  unfold Walk.turn
  refine safe_bind ?_ fun after _ => ?_
  · unfold Walk.probe
    split
    · exact safe_ok _
    · exact safe_ok _
    · exact hsafe.checkpoint _ _
  · obtain ⟨found, st'⟩ := after
    cases found with
    | some bytes =>
      exact safe_bind (safe_context (Checkpoint.safe_decode _ _ _ _)) fun _ _ => safe_ok _
    | none =>
      have hfiles : 0 < w.current.sqlite.files.length := by
        obtain ⟨first, -, hhead, -⟩ := hinv.valid.tiles
        cases hfiles : w.current.sqlite.files with
        | nil =>
          rw [hfiles] at hhead
          cases hhead
        | cons file files => exact Nat.succ_pos _
      refine safe_bind (safe_index hfiles) fun file _ => ?_
      dsimp only
      split
      · exact safe_ok _
      · exact safe_bind (Walk.safe_follow hsafe _ _) fun _ _ => safe_ok _

theorem Walk.safe_run (hsafe : h.IsSafe) (hinv : w.Inv txid) {result : Checked (Bool × Walk × σ)}
    (hrun : Walk.run codec h fuel w st = some result) : Safe result := by
  induction fuel generalizing w st with
  | zero => cases hrun
  | succ fuel ih =>
    rw [Walk.run] at hrun
    split at hrun
    · rename_i e hturn
      obtain rfl := Option.some.inj hrun
      have hsafe : Safe (w.turn codec h st) := Walk.safe_turn hsafe hinv
      intro hpanic
      exact hsafe (hturn.trans (by rw [Except.error.inj hpanic]))
    · obtain rfl := Option.some.inj hrun
      exact safe_ok _
    · rename_i hturn
      exact ih ((Walk.turned hturn).next hinv).1 hrun

/-! ## The result -/

/-- The last segment is one of the segments, so the difference is not negative. -/
theorem segmentSize_last_le (segments : List (List LtxFile)) :
    (segments.getLast?.map segmentSize).getD 0 ≤ (segments.map segmentSize).sum := by
  induction segments with
  | nil => exact Nat.le_refl 0
  | cons files segments ih =>
    cases segments with
    | nil => simp
    | cons files' segments =>
      rw [List.getLast?_cons_cons, List.map_cons, List.sum_cons]
      exact Nat.le_add_left_of_le ih

theorem Walk.finish_eq (txid : Nat) (checkpoint : Bool) :
    ∃ resolved, w.finish txid checkpoint = .ok resolved ∧
      resolved.sqlite = ⟨txid, none, w.segments.reverse.flatten⟩ := by
  have hlog : subtract (w.segments.map segmentSize).sum
      ((w.segments.getLast?.map segmentSize).getD 0) = .ok _ :=
    if_pos (segmentSize_last_le w.segments)
  unfold Walk.finish
  dsimp only
  rw [hlog]
  exact ⟨_, rfl, rfl⟩

/-- A successful `resolve` has the files that the loop has collected. -/
theorem Walk.conclude_eq_ok {result : Checked (Bool × Walk × σ)} {resolved : ResolvedSqlite}
    (hok : w.conclude result = .ok (resolved, st')) :
    ∃ checkpoint after, result = .ok (checkpoint, after, st') ∧
      resolved.sqlite = ⟨w.current.sqlite.txid, none, after.segments.reverse.flatten⟩ := by
  obtain ⟨⟨checkpoint, after, st''⟩, hresult, hafter⟩ := bind_eq_ok.mp hok
  obtain ⟨found, hfinish, hsqlite⟩ :=
    Walk.finish_eq (w := after) w.current.sqlite.txid checkpoint
  obtain ⟨found', hfinish', hreturn⟩ := bind_eq_ok.mp hafter
  rw [hfinish] at hfinish'
  obtain rfl := Except.ok.inj hfinish'
  obtain ⟨rfl, rfl⟩ := Prod.mk.inj (Except.ok.inj hreturn)
  exact ⟨checkpoint, after, hresult, hsqlite⟩

/-- Once the loop has ended, `resolve` succeeds. -/
theorem Walk.conclude_ok (checkpoint : Bool) (after : Walk) (st : σ) :
    ∃ resolved, w.conclude (.ok (checkpoint, after, st)) = .ok (resolved, st) ∧
      resolved.sqlite = ⟨w.current.sqlite.txid, none, after.segments.reverse.flatten⟩ := by
  obtain ⟨resolved, hfinish, hsqlite⟩ :=
    Walk.finish_eq (w := after) w.current.sqlite.txid checkpoint
  refine ⟨resolved, ?_, hsqlite⟩
  unfold Walk.conclude
  refine bind_ok rfl ?_
  exact bind_ok hfinish rfl

theorem Walk.safe_conclude {result : Checked (Bool × Walk × σ)} (hsafe : Safe result) :
    Safe (w.conclude result) := by
  refine safe_bind hsafe fun after _ => ?_
  obtain ⟨resolved, hfinish, -⟩ := Walk.finish_eq (w := after.2.1) w.current.sqlite.txid after.1
  refine safe_bind ?_ fun _ _ => safe_ok _
  rw [hfinish]
  exact safe_ok _

/-- A history from transaction one is a valid full copy. -/
theorem Walk.Done.valid (hdone : w.Done txid) (htxid : 0 < txid) (version : Nat) :
    SqliteSnapshot.Valid ⟨txid, none, w.segments.reverse.flatten⟩ version := by
  constructor
  case positive => exact htxid
  case tiles =>
    refine ⟨1, hdone.tiles, ?_, by simp⟩
    have htiles := hdone.tiles
    cases hfiles : w.segments.reverse.flatten with
    | nil =>
      rw [hfiles] at htiles
      have : 1 = txid + 1 := htiles
      omega
    | cons file files =>
      rw [hfiles] at htiles
      exact congrArg some htiles.head_first
  case usable =>
    intro file hfile
    obtain ⟨files, hmem, hin⟩ := List.mem_flatten.mp hfile
    exact hdone.usable file (List.mem_flatten.mpr ⟨files, List.mem_reverse.mp hmem, hin⟩)
  case precedes => simp

theorem startWalk_eq_ok (hok : startWalk codec object bytes prefetched = .ok w) :
    StateSnapshot.decode codec bytes = .ok w.current ∧ w.Inv w.current.sqlite.txid := by
  unfold startWalk at hok
  obtain ⟨current, hdecode, hok⟩ := bind_eq_ok.mp hok
  obtain ⟨_, -, hok⟩ := bind_eq_ok.mp hok
  obtain rfl := Except.ok.inj hok
  exact ⟨hdecode, (StateSnapshot.decode_valid hdecode).2, rfl, by simp⟩

/-- What is restored is a snapshot of the actor its name says. -/
theorem validateObject_of_resolve {resolved : ResolvedSqlite}
    (hdecode : StateSnapshot.decode codec bytes = .ok head)
    (hok : resolve codec h st fuel object bytes prefetched = some (.ok (resolved, st'))) :
    head.validateObject codec object = .ok () := by
  cases hobject : head.validateObject codec object with
  | ok u => rfl
  | error e =>
    have hstart : startWalk codec object bytes prefetched = .error e := by
      unfold startWalk
      rw [hdecode]
      show (head.validateObject codec object >>= fun _ => _) = _
      rw [hobject]
      rfl
    rw [resolve, hstart] at hok
    cases hok

/-- The walk starts at a snapshot that can be decoded under its name. -/
theorem startWalk_of_decode (prefetched : Option PrefetchedCheckpoint)
    (hdecode : StateSnapshot.decode codec bytes = .ok head)
    (hobject : head.validateObject codec object = .ok ()) :
    startWalk codec object bytes prefetched = .ok ⟨head, SnapshotRef.new codec object head bytes,
        prefetched.filter fun p => p.source = SnapshotRef.new codec object head bytes, [], 0⟩ := by
  unfold startWalk
  refine bind_ok hdecode ?_
  exact bind_ok hobject rfl

theorem safe_startWalk (object : String) (bytes : Bytes)
    (prefetched : Option PrefetchedCheckpoint) :
    Safe (startWalk codec object bytes prefetched) := by
  unfold startWalk
  refine safe_bind (StateSnapshot.safe_decode _ _) fun current _ => ?_
  exact safe_bind (current.safe_validateObject _ _) fun _ _ => safe_ok _

/-- What `resolve` has to return for a snapshot: a valid full copy whose files
cover the transactions from one up to that of the snapshot. -/
structure Restores (codec : Codec) (bytes : Bytes) (s : SqliteSnapshot) : Prop where
  parent : s.parent = none
  covers : ∃ head, StateSnapshot.decode codec bytes = .ok head ∧ s.txid = head.sqlite.txid ∧
    Contiguous 1 s.files (head.sqlite.txid + 1)
  validates : ∀ version, s.validate version = .ok ()

/-- What `resolve` returns, it may return. -/
theorem resolve_restores {resolved : ResolvedSqlite}
    (hok : resolve codec h st fuel object bytes prefetched = some (.ok (resolved, st'))) :
    Restores codec bytes resolved.sqlite := by
  unfold resolve at hok
  split at hok
  · cases Option.some.inj hok
  · rename_i w hstart
    obtain ⟨hdecode, hinv⟩ := startWalk_eq_ok hstart
    obtain ⟨result, hrun, hconclude⟩ := Option.map_eq_some_iff.mp hok
    obtain ⟨checkpoint, after, rfl, hsqlite⟩ := Walk.conclude_eq_ok hconclude
    have hdone := Walk.run_done hinv hrun
    rw [hsqlite]
    constructor
    case parent => rfl
    case covers => exact ⟨w.current, hdecode, rfl, hdone.tiles⟩
    case validates =>
      intro version
      exact SqliteSnapshot.validate_iff.mpr (hdone.valid hinv.valid.positive version)

/-- `resolve` ends, with any reader. -/
theorem resolve_total (codec : Codec) (h : History σ) (st : σ) (object : String) (bytes : Bytes)
    (prefetched : Option PrefetchedCheckpoint) :
    ∃ bound result, ∀ fuel, bound ≤ fuel →
      resolve codec h st fuel object bytes prefetched = some result := by
  cases hstart : startWalk codec object bytes prefetched with
  | error e =>
    refine ⟨0, .error e, fun fuel _ => ?_⟩
    simp only [resolve, hstart]
  | ok w =>
    have htotal : ∃ result, ∀ fuel, w.current.version + 1 ≤ fuel →
        Walk.run codec h fuel w st = some result :=
      Walk.run_total (startWalk_eq_ok hstart).2 (Nat.lt_succ_self _)
    obtain ⟨result, hresult⟩ := htotal
    refine ⟨w.current.version + 1, w.conclude result, fun fuel hfuel => ?_⟩
    simp only [resolve, hstart, hresult fuel hfuel, Option.map_some]

theorem safe_resolve (hsafe : h.IsSafe) {result : Checked (ResolvedSqlite × σ)}
    (hresult : resolve codec h st fuel object bytes prefetched = some result) : Safe result := by
  unfold resolve at hresult
  split at hresult
  · rename_i e hstart
    have hsafe : Safe (startWalk codec object bytes prefetched) := safe_startWalk _ _ _
    obtain rfl := Option.some.inj hresult
    rw [hstart] at hsafe
    intro hpanic
    exact hsafe (by rw [Except.error.inj hpanic])
  · rename_i w hstart
    obtain ⟨looped, hrun, rfl⟩ := Option.map_eq_some_iff.mp hresult
    exact Walk.safe_conclude (Walk.safe_run hsafe (startWalk_eq_ok hstart).2 hrun)

/-- **`resolve` is total and sound**, with any reader that does not panic. -/
theorem resolve_sound (codec : Codec) (st : σ) (hsafe : h.IsSafe) (object : String)
    (bytes : Bytes) (prefetched : Option PrefetchedCheckpoint) :
    ∃ bound result, (∀ fuel, bound ≤ fuel →
        resolve codec h st fuel object bytes prefetched = some result) ∧
      Safe result ∧ ∀ resolved st', result = .ok (resolved, st') →
        Restores codec bytes resolved.sqlite := by
  obtain ⟨bound, result, hresult⟩ := resolve_total codec h st object bytes prefetched
  have hsome := hresult bound (Nat.le_refl _)
  refine ⟨bound, result, hresult, safe_resolve hsafe hsome, fun resolved st' hok => ?_⟩
  rw [hok] at hsome
  exact resolve_restores hsome

end

/-! ## Complete histories -/

/-- The snapshot behind a reference has a complete history in the store: it
starts at transaction one, or its parent is stored, is the snapshot it refers
to, ends right before it, and has a complete history.  Checkpoints that are
stored for a snapshot with a parent can be decoded. -/
inductive Chain (codec : Codec) (store : String → Option Bytes) :
    SnapshotRef → StateSnapshot → Prop
  | full {reference : SnapshotRef} {s : StateSnapshot} (hparent : s.sqlite.parent = none) :
      Chain codec store reference s
  | link {reference parent : SnapshotRef} {s current : StateSnapshot} {file : LtxFile}
      {bytes : Bytes} (hparent : s.sqlite.parent = some parent)
      (hcheckpoint : ∀ bytes, store (reference.object ++ ".checkpoint") = some bytes →
        ∃ c, Checkpoint.decode codec bytes reference s.sqlite.txid = .ok c)
      (hstored : store parent.object = some bytes)
      (hfile : s.sqlite.files[0]? = some file)
      (hfollows : Follows codec parent file.first bytes current)
      (hchain : Chain codec store parent current) : Chain codec store reference s

/-! ### The turns of a walk that goes on -/

section

variable {codec : Codec} {σ : Type} {h : History σ} {w : Walk} {st st' : σ}

theorem Walk.Inv.first_bound {file : LtxFile} (hinv : w.Inv txid)
    (hfile : w.current.sqlite.files[0]? = some file) : file.first < 2 ^ 64 := by
  have husable := hinv.valid.usable file (List.mem_of_getElem? hfile)
  have := husable.1.range.2
  have := husable.2
  omega

/-- The parent is read and is the snapshot referred to. -/
theorem Walk.follow_read (hread : h.read parent.object st = .ok (bytes, st'))
    (hbound : first < 2 ^ 64) (hfollows : Follows codec parent first bytes current) :
    w.follow codec h st parent first =
      .ok ({ w with current := current, reference := parent, prefetched := none,
                    parents := w.parents + 1 }, st') := by
  unfold Walk.follow
  have hdigest := decide_eq_true hfollows.digest
  refine bind_ok (context_eq_ok.mpr hread) ?_
  refine bind_ok (a := ()) (context_eq_ok.mpr (ensure_eq_ok.mpr hdigest)) ?_
  refine bind_ok hfollows.decoded ?_
  refine bind_ok hfollows.object ?_
  refine ensure_ok (decide_eq_true ⟨hfollows.version, hfollows.request⟩) ?_
  exact ensure_ok (decide_eq_true (checkedAdd_eq_some.mpr ⟨hfollows.adjacent, hbound⟩)) rfl

/-- A checkpoint ends the walk. -/
theorem Walk.turn_checkpoint {c : SqliteSnapshot} (hprobe : w.probe h st = .ok (some bytes, st'))
    (hdecode : Checkpoint.decode codec bytes w.reference w.current.sqlite.txid = .ok c) :
    w.turn codec h st = .ok (.done true { w with segments := w.segments ++ [c.files] }, st') := by
  unfold Walk.turn
  refine bind_ok hprobe ?_
  exact bind_ok (context_eq_ok.mpr hdecode) rfl

/-- So does a snapshot without parent. -/
theorem Walk.turn_root (hinv : w.Inv txid) (hparent : w.current.sqlite.parent = none) :
    w.turn codec h st =
      .ok (.done false { w with segments := w.segments ++ [w.current.sqlite.files] }, st) := by
  obtain ⟨file, hfile⟩ : ∃ file, w.current.sqlite.files[0]? = some file := by
    obtain ⟨first, -, hhead, -⟩ := hinv.valid.tiles
    obtain ⟨file, hfile, -⟩ := Option.map_eq_some_iff.mp hhead
    exact ⟨file, List.head?_eq_getElem?.symm.trans hfile⟩
  unfold Walk.turn
  refine bind_ok (a := (none, st)) (by simp only [Walk.probe, hparent]) ?_
  refine bind_ok (index_eq_ok.mpr hfile) ?_
  simp only [hparent]
  rfl

/-- Otherwise it goes on with the parent. -/
theorem Walk.turn_parent {file : LtxFile} {st'' : σ} (hinv : w.Inv txid)
    (hprobe : w.probe h st = .ok (none, st')) (hparent : w.current.sqlite.parent = some parent)
    (hfile : w.current.sqlite.files[0]? = some file)
    (hread : h.read parent.object st' = .ok (bytes, st''))
    (hfollows : Follows codec parent file.first bytes current) :
    w.turn codec h st =
      .ok (.next { current := current, reference := parent, prefetched := none,
                   segments := w.segments ++ [w.current.sqlite.files],
                   parents := w.parents + 1 }, st'') := by
  unfold Walk.turn
  refine bind_ok hprobe ?_
  refine bind_ok (index_eq_ok.mpr hfile) ?_
  simp only [hparent]
  exact bind_ok (Walk.follow_read hread (hinv.first_bound hfile) hfollows) rfl

end

section

variable {codec : Codec} {store : String → Option Bytes} {w : Walk}

/-- What is probed first: the prefetched checkpoint, or the stored one. -/
theorem Walk.probe_stored (store : String → Option Bytes)
    (hparent : w.current.sqlite.parent = some parent) :
    w.probe (storedHistory store) () =
      .ok (w.prefetched.elim (store (w.reference.object ++ ".checkpoint"))
        PrefetchedCheckpoint.bytes, ()) := by
  cases hp : w.prefetched with
  | none => simp only [Walk.probe, hparent, hp, storedHistory, Option.elim_none]
  | some p => simp only [Walk.probe, hparent, hp, Option.elim_some]

/-- **Completeness of the walk**: a complete history is walked to its end. -/
theorem Walk.run_chain {result : Checked (Bool × Walk × Unit)} {reference : SnapshotRef}
    {s : StateSnapshot} (hchain : Chain codec store reference s)
    (href : w.reference = reference) (hcurrent : w.current = s) (hinv : w.Inv txid)
    (hprefetched : ∀ p ∈ w.prefetched, ∀ bytes ∈ p.bytes,
      ∃ c, Checkpoint.decode codec bytes reference s.sqlite.txid = .ok c)
    (hrun : Walk.run codec (storedHistory store) fuel w () = some result) :
    ∃ after, result = .ok after := by
  induction hchain generalizing w fuel with
  | full hparent =>
    subst hcurrent
    cases fuel with
    | zero => cases hrun
    | succ fuel =>
      rw [Walk.run, Walk.turn_root hinv hparent] at hrun
      exact ⟨_, (Option.some.inj hrun).symm⟩
  | link hparent hcheckpoint hstored hfile hfollows hchain ih =>
    rename_i reference parent s current file bytes
    subst hcurrent
    subst href
    cases fuel with
    | zero => cases hrun
    | succ fuel =>
      have hprobe := Walk.probe_stored store hparent
      -- the checkpoint of this snapshot, if there is one, ends the walk
      cases hfound : w.prefetched.elim (store (w.reference.object ++ ".checkpoint"))
          PrefetchedCheckpoint.bytes with
      | some bytes =>
        rw [hfound] at hprobe
        obtain ⟨c, hdecode⟩ : ∃ c,
            Checkpoint.decode codec bytes w.reference w.current.sqlite.txid = .ok c := by
          cases hp : w.prefetched with
          | none =>
            rw [hp] at hfound
            exact hcheckpoint bytes hfound
          | some p =>
            rw [hp] at hfound
            exact hprefetched p hp bytes hfound
        rw [Walk.run, Walk.turn_checkpoint hprobe hdecode] at hrun
        exact ⟨_, (Option.some.inj hrun).symm⟩
      | none =>
        rw [hfound] at hprobe
        have hread : (storedHistory store).read parent.object () = .ok (bytes, ()) := by
          simp only [storedHistory, hstored]
          rfl
        have hturn := Walk.turn_parent hinv hprobe hparent hfile hread hfollows
        have hinv' := ((Walk.turned hturn).next hinv).1
        rw [Walk.run, hturn] at hrun
        exact ih rfl rfl hinv' (by simp) hrun

end

theorem storedHistory_safe (store : String → Option Bytes) : (storedHistory store).IsSafe := by
  constructor
  · intro object st
    exact safe_bind (safe_ofOption _ _) fun _ _ => safe_ok _
  · intro object st
    exact safe_ok _

/-- **A complete history is restored.** -/
theorem resolve_chain {codec : Codec} {store : String → Option Bytes}
    {result : Checked (ResolvedSqlite × Unit)}
    (hdecode : StateSnapshot.decode codec bytes = .ok head)
    (hobject : head.validateObject codec object = .ok ())
    (hchain : Chain codec store (SnapshotRef.new codec object head bytes) head)
    (hprefetched : ∀ p ∈ prefetched, p.source = SnapshotRef.new codec object head bytes →
      ∀ bytes' ∈ p.bytes, ∃ c, Checkpoint.decode codec bytes' p.source head.sqlite.txid = .ok c)
    (hresult : resolve codec (storedHistory store) () fuel object bytes prefetched = some result) :
    ∃ resolved, result = .ok (resolved, ()) := by
  have hstart := startWalk_of_decode prefetched hdecode hobject
  have hinv := (startWalk_eq_ok hstart).2
  rw [resolve, hstart] at hresult
  obtain ⟨looped, hlooped, rfl⟩ := Option.map_eq_some_iff.mp hresult
  obtain ⟨⟨checkpoint, after, st⟩, rfl⟩ := Walk.run_chain hchain rfl rfl hinv
    (fun p hp bytes' hbytes' => by
      obtain ⟨hp, hsource⟩ := Option.filter_eq_some_iff.mp hp
      have hsource := of_decide_eq_true hsource
      have hdecoded := hprefetched p hp hsource bytes' hbytes'
      rw [hsource] at hdecoded
      exact hdecoded) hlooped
  obtain ⟨resolved, hconclude, -⟩ := Walk.conclude_ok checkpoint after st
  exact ⟨resolved, hconclude⟩

/-- **Recovery is total and sound.**  Whatever is stored, `resolve` ends without
a panic, and if it returns a database, it is a valid full copy that covers the
transactions from one to that of the requested snapshot.  For a snapshot with a
complete history it returns one, unless the prefetched checkpoint for the
snapshot itself is malformed. -/
theorem resolve_total_and_sound (codec : Codec) (store : String → Option Bytes)
    (object : String) (bytes : Bytes) (prefetched : Option PrefetchedCheckpoint) :
    ∃ bound result, (∀ fuel, bound ≤ fuel →
        resolve codec (storedHistory store) () fuel object bytes prefetched = some result) ∧
      Safe result ∧
      (∀ resolved, result = .ok (resolved, ()) → Restores codec bytes resolved.sqlite) ∧
      ∀ head, StateSnapshot.decode codec bytes = .ok head →
        head.validateObject codec object = .ok () →
        Chain codec store (SnapshotRef.new codec object head bytes) head →
        (∀ p ∈ prefetched, p.source = SnapshotRef.new codec object head bytes →
          ∀ bytes' ∈ p.bytes,
            ∃ c, Checkpoint.decode codec bytes' p.source head.sqlite.txid = .ok c) →
        ∃ resolved, result = .ok (resolved, ()) := by
  obtain ⟨bound, result, hresult, hsafe, hsound⟩ :=
    resolve_sound codec () (storedHistory_safe store) object bytes prefetched
  refine ⟨bound, result, hresult, hsafe, fun resolved hok => hsound resolved () hok, ?_⟩
  intro head hdecode hobject hchain hprefetched
  exact resolve_chain hdecode hobject hchain hprefetched (hresult bound (Nat.le_refl _))

def cartStore (object : String) : Option Bytes :=
  if object = firstObject then some (das2 firstHeader) else none

theorem second_follows : Follows cartSerde.toCodec ⟨firstObject, 1, "first", firstDigest⟩ 3
    (das2 firstHeader) firstSnapshot :=
  ⟨by decide +kernel, decode_first, rfl, rfl, rfl, rfl⟩

/-- The second snapshot of the cart is restored with the files of both. -/
theorem resolve_total_and_sound_pair :
    ∃ bound resolved, (∀ fuel, bound ≤ fuel →
        resolve cartSerde.toCodec (storedHistory cartStore) () fuel secondObject
          (das2 secondHeader) none = some (.ok (resolved, ()))) ∧
      Restores cartSerde.toCodec (das2 secondHeader) resolved.sqlite := by
  have hchain : Chain cartSerde.toCodec cartStore
      (SnapshotRef.new cartSerde.toCodec secondObject secondSnapshot (das2 secondHeader))
      secondSnapshot :=
    .link rfl (fun bytes hbytes => by cases hbytes) rfl rfl second_follows (.full rfl)
  obtain ⟨bound, result, hresult, -, hsound, hcomplete⟩ :=
    resolve_total_and_sound cartSerde.toCodec cartStore secondObject (das2 secondHeader) none
  obtain ⟨resolved, rfl⟩ := hcomplete secondSnapshot decode_second (by decide +kernel) hchain
    (by simp)
  exact ⟨bound, resolved, hresult, hsound resolved rfl⟩

end DurableActors.Ports.Sqlite
