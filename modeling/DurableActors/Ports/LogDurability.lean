import DurableActors.Ports.LogSegmentRun

/-!
# Durability of acknowledged records, and the archive's markers

Two results about every run of a segment.

An acknowledged record is returned by every later read, whatever the replicas,
the archive, the recoverers and the sweepers do, and a replica is only deleted
when the archive holds all acknowledged records.

The replicated marker describes the archive exactly, in every run in which a
recoverer only proceeds after it has sealed every replica and read every whole
frame.
-/

namespace DurableActors.Ports.Log

open Verified

variable {cfg : SegmentConfig} {F : State → Nat → Prop} {s : State}
  {actions : List Action}

/-! ## Runs -/

/-- A segment starts with the invariant. -/
theorem inv_installed (cfg : SegmentConfig) (F : State → Nat → Prop) :
    Inv cfg F (State.installed cfg) where
  base :=
    { log := ⟨by simp [State.log, State.installed], by simp [State.log, State.installed],
        by simp [State.log, State.installed]⟩
      queue := ⟨rfl, rfl, rfl, 0, 0, le_rfl, rfl, rfl⟩
      retired := fun _ => rfl
      lower := fun _ _ => List.prefix_refl _
      upper := fun _ _ => List.prefix_refl _ }
  store :=
    { batches := by simp [State.installed]
      closed := by simp [State.installed]
      replicated := by simp [State.installed]
      deleted := by simp [State.installed]
      requests := by simp [State.installed] }
  tasks := by
    intro w task htask
    simp only [State.installed] at htask
    split at htask
    · obtain rfl := Option.some.inj htask
      exact ⟨0, le_rfl, rfl, fun k hk => absurd hk (Nat.not_lt_zero k)⟩
    · cases htask
  reads := by simp [State.installed]

/-! ## Durability -/

/-- No record after position `n` is ever acknowledged: some replica is sealed
with at most `n` whole frames, or the writer has left. -/
def Settled (cfg : SegmentConfig) (s : State) (n : Nat) : Prop :=
  (∃ i < cfg.replicas, (s.replicas i).isSealed = true ∧
    frames cfg (s.replicas i).bytes ≤ n) ∨
  s.retired = true ∧ s.acked.length ≤ n

theorem settlement_settled (cfg : SegmentConfig) : Settlement cfg (Settled cfg) where
  bound := by
    rintro s n hbase (⟨i, hi, -, hle⟩ | ⟨-, hle⟩)
    · exact (acked_le_frames hbase hi).trans hle
    · exact hle
  lasts := by
    rintro s s' n - - hext (⟨i, hi, hsealed, hle⟩ | ⟨hret, hle⟩)
    · obtain ⟨hsealed', hbytes⟩ := hext.sealed_bytes i hsealed
      exact .inl ⟨i, hi, hsealed', by rwa [hbytes]⟩
    · obtain ⟨hret', hacked⟩ := hext.retired hret
      exact .inr ⟨hret', by rwa [hacked]⟩
  retired := fun s _ hret => .inr ⟨hret, le_rfl⟩

/-- A recoverer settles its position: the replica it read is sealed. -/
theorem settles_of_inv (hinv : Inv cfg (Settled cfg) s) (action : Action) :
    action.Settles cfg (Settled cfg) s := by
  cases action with
  | advance w =>
    intro task htask
    cases task with
    | reading caller since pc =>
      cases pc with
      | replicas archived answers =>
        intro rapid merged hcaller hall hjoin hmerge
        obtain ⟨-, hread⟩ := hinv.tasks w _ htask
        obtain ⟨-, -, -, -, i, bytes, hcopy, hle⟩ :=
          merged_take hinv hread hjoin hmerge
        obtain ⟨hsealed, rfl⟩ := hcopy.fenced (by rw [hcaller]; rfl)
        exact .inl (.inl ⟨i, hcopy.replica, hsealed, hle⟩)
      | _ => trivial
    | _ => trivial
  | _ => trivial

/-- A record of a prefix is the only one with its version. -/
theorem filter_version {first : Nat} {log : List Record} (hlog : WellFormed cfg first log)
    {n k : Nat} {r : Record} (hr : log[k]? = some r) (hk : k < n) :
    (log.take n).filter (fun x => x.version = r.version) = [r] := by
  have hget : (log.take n)[k]? = some r := by
    rw [List.getElem?_take_of_lt hk, hr]
  have hmem : r ∈ log.take n := List.mem_of_getElem? hget
  have hnodup : (log.take n).Nodup := by
    have hsorted := hlog.sorted_byVersion cfg n
    apply List.Nodup.of_map (fun x => (x.version, x))
    exact hsorted.imp fun {x y} hxy heq => absurd hxy (by rw [heq]; exact lt_irrefl _)
  have hpred : ∀ x ∈ log.take n, decide (x.version = r.version) = decide (x = r) := by
    intro x hx
    rw [decide_eq_decide]
    refine ⟨fun h => ?_, fun h => by rw [h]⟩
    exact hlog.version_inj cfg (List.mem_of_mem_take hx) (List.mem_of_mem_take hmem) h
  rw [List.filter_congr hpred, List.filter_eq, List.count_eq_one_of_mem hnodup hmem]
  rfl

/-- **Acknowledged records are durable.**  A read that returns holds, for each
record that was acknowledged before the read started, that record and no other
one with its version.  Once a replica is deleted, every acknowledged record is
in an archived batch. -/
theorem acknowledged_durable
    (hrun : Transition.run (State.step cfg) (State.installed cfg) actions = some s) :
    (∀ result ∈ s.reads, ∀ r ∈ result.since,
      result.records.filter (fun x => x.version = r.version) = [r]) ∧
    ∀ i, (s.replicas i).deleted = true → ∀ r ∈ s.acked, ∃ batch ∈ s.batches, ∃ records,
        decode cfg.digest batch.bytes = .ok records ∧ r ∈ records := by
  have hF := settlement_settled cfg
  have hinv : Inv cfg (Settled cfg) s := Transition.run_invariant
    (fun _ a _ hinv hstep => (hinv.step hF (settles_of_inv hinv a)).of_eq hstep)
    (inv_installed cfg _) hrun
  have hlog := hinv.base.log
  constructor
  · intro result hresult r hr
    obtain ⟨hsince, n, -, hle, hrec⟩ := hinv.reads result hresult
    obtain ⟨k, hk⟩ := List.mem_iff_getElem?.mp hr
    have hlt := (List.getElem?_eq_some_iff.mp hk).1
    have hget : s.log[k]? = some r := by
      obtain ⟨rest, hrest⟩ := hsince.trans (acked_isPrefix s)
      rw [← hrest, List.getElem?_append_left hlt, hk]
    rw [hrec]
    exact filter_version hlog hget (by omega)
  · intro i hi r hr
    obtain ⟨c, hc⟩ := Option.isSome_iff_exists.mp (hinv.store.deleted i hi)
    obtain ⟨n, hmark, hcov⟩ := hinv.store.replicated c hc
    have hbound := hF.bound s n hinv.base hmark.settled
    obtain ⟨k, hk⟩ := List.mem_iff_getElem?.mp hr
    have hlt := (List.getElem?_eq_some_iff.mp hk).1
    have hget : s.log[k]? = some r := by
      rw [State.log, List.getElem?_append_left hlt, hk]
    obtain ⟨batch, hbatch, a, e, hal, hak, hke⟩ := hcov k (by omega)
    refine ⟨batch, hbatch, (s.log.drop a).take (e - a), ?_, ?_⟩
    · rw [hal.bytes]
      apply decode_encodeAll cfg.digest _ (hlog.consecutive_drop cfg a (e - a))
      intro x hx
      exact hlog.encodable x (List.mem_of_mem_drop (List.mem_of_mem_take hx))
    · apply List.mem_of_getElem? (i := k - a)
      rw [List.getElem?_take_of_lt (by omega), List.getElem?_drop,
        Nat.add_sub_cancel' hak, hget]

/-! ### A segment from its first record to its cleanup -/

/-- Two replicas, and payloads that start with their version. -/
def demoConfig : SegmentConfig where
  digest := sha256
  stateVersion := fun bytes => bytes.head?.map UInt8.toNat
  firstVersion := 1
  installedAt := 0
  replicas := 2
  batchBytes := 64
  firstVersion_pos := by decide
  firstVersion_le := by decide
  replicas_pos := by decide
  batchBytes_pos := by decide

/-- The record of the demonstration, its frame as a batch, and its marker. -/
def demoRecord : Record := ⟨1, [1]⟩

def demoBatch : Batch := ⟨0, 49, demoRecord.frame demoConfig.digest⟩

def demoMarker : ClosedSegment := ⟨1, 49⟩

/-- One record is appended and acknowledged, a reader starts, the writer
leaves, the archiver uploads, closes and marks the segment and deletes the
first replica, and the reader returns from the archive. -/
def archivedSegment : List Action :=
  [.append [1], .flush 0 49, .flush 1 49, .acknowledge, .retire,
    .advance 0, .send 0, .land (.closed demoMarker),
    .advance 0, .send 0, .land (.batch demoBatch), .advance 0,
    .advance 0, .send 0, .land (.replicated demoMarker), .advance 0,
    .advance 0, .send 0, .land (.delete 0),
    .read 1 false, .advance 1, .advance 1]

def demoEnd (actions : List Action) : State :=
  Transition.final (State.step demoConfig) (State.installed demoConfig) actions

theorem run_demoEnd {actions : List Action} (h : (Transition.run (State.step demoConfig)
      (State.installed demoConfig) actions).isSome = true) :
    Transition.run (State.step demoConfig) (State.installed demoConfig) actions =
      some (demoEnd actions) :=
  Transition.run_eq_final h

def archivedSegmentEnd : State := demoEnd archivedSegment

theorem run_archivedSegment : Transition.run (State.step demoConfig) (State.installed demoConfig)
    archivedSegment = some archivedSegmentEnd :=
  run_demoEnd (by decide +kernel)

theorem acknowledged_durable_archived :
    archivedSegmentEnd.reads = [⟨[demoRecord], [demoRecord]⟩] ∧
    (archivedSegmentEnd.replicas 0).deleted = true ∧ archivedSegmentEnd.acked = [demoRecord] ∧
    (∀ result ∈ archivedSegmentEnd.reads, ∀ r ∈ result.since,
      result.records.filter (fun x => x.version = r.version) = [r]) ∧
    ∀ i, (archivedSegmentEnd.replicas i).deleted = true →
      ∀ r ∈ archivedSegmentEnd.acked, ∃ batch ∈ archivedSegmentEnd.batches,
        ∃ records, decode demoConfig.digest batch.bytes = .ok records ∧ r ∈ records := by
  exact ⟨by decide +kernel, by decide +kernel, by decide +kernel,
    acknowledged_durable run_archivedSegment⟩

/-! ## The replicated marker and the archive -/

/-- The log ends at position `n` for good: no replica has a whole frame after
it, and either all replicas are sealed or the writer has left. -/
def Frozen (cfg : SegmentConfig) (s : State) (n : Nat) : Prop :=
  (∀ i < cfg.replicas, frames cfg (s.replicas i).bytes ≤ n) ∧
  ((∀ i < cfg.replicas, (s.replicas i).isSealed = true) ∨ s.retired = true)

/-- Without an append in flight the replicas hold what was acknowledged. -/
theorem frames_le_acked (hbase : Base cfg s) (hret : s.retired = true) {i : Nat}
    (hi : i < cfg.replicas) : frames cfg (s.replicas i).bytes ≤ s.acked.length := by
  have hle := (decode_frames cfg hbase.log (hbase.upper i hi)).2.1
  rwa [State.log, hbase.retired hret, Option.toList_none, List.append_nil] at hle

/-- A log that has ended stays ended where it has. -/
theorem settlement_frozen (cfg : SegmentConfig) : Settlement cfg (Frozen cfg) where
  bound := fun s n hbase h =>
    (acked_le_frames hbase cfg.replicas_pos).trans (h.1 0 cfg.replicas_pos)
  lasts := by
    rintro s s' n hbase hbase' hext ⟨hle, hend⟩
    refine ⟨fun i hi => ?_, ?_⟩
    · rcases hend with hsealed | hret
      · rw [(hext.sealed_bytes i (hsealed i hi)).2]
        exact hle i hi
      · obtain ⟨hret', hacked⟩ := hext.retired hret
        have h1 := frames_le_acked hbase' hret' hi
        have h2 := acked_le_frames hbase hi
        rw [hacked] at h1
        exact (h1.trans h2).trans (hle i hi)
    · exact hend.imp (fun h i hi => (hext.sealed_bytes i (h i hi)).1)
        fun h => (hext.retired h).1
  retired := fun s hbase hret =>
    ⟨fun i hi => frames_le_acked hbase hret hi, .inr hret⟩

/-- The condition on a step: a recoverer that goes on with the records it has
merged finds the segment already replicated, or every replica is sealed and
none has a whole frame that is not among these records. -/
def ReadsEveryFrame (cfg : SegmentConfig) (s : State) : Action → Prop
  | .advance w =>
    match s.tasks w with
    | some (.reading .recover _ (.replicas archived answers)) =>
      match joinReplicas cfg answers with
      | .error _ => True
      | .ok rapid =>
        match mergeRecords (archived ++ rapid) [] with
        | .error _ => True
        | .ok merged =>
          s.replicated.isSome = true ∨
            ∀ i < cfg.replicas, (s.replicas i).isSealed = true ∧
              frames cfg (s.replicas i).bytes ≤ merged.length
    | _ => True
  | _ => True

instance (cfg : SegmentConfig) (s : State) (action : Action) :
    Decidable (ReadsEveryFrame cfg s action) := by
  unfold ReadsEveryFrame
  repeat' split
  all_goals infer_instance

theorem ReadsEveryFrame.settles {action : Action}
    (h : ReadsEveryFrame cfg s action) : action.Settles cfg (Frozen cfg) s := by
  cases action with
  | advance w =>
    intro task htask
    cases task with
    | reading caller since pc =>
      cases pc with
      | replicas archived answers =>
        rintro rapid merged rfl hall hjoin hmerge
        simp only [ReadsEveryFrame, htask, hjoin, hmerge] at h
        rcases h with h | h
        · exact .inr h
        · exact .inl ⟨fun i hi => (h i hi).2, .inl fun i hi => (h i hi).1⟩
      | _ => trivial
    | _ => trivial
  | _ => trivial

/-- **The replicated marker describes the archive** in every run whose
recoverers read every frame: the archive ends at the marker's offset and
validates against it. -/
theorem replicated_matches_archive
    (hC : Transition.Guarded (State.step cfg) (ReadsEveryFrame cfg) (State.installed cfg) actions)
    (hrun : Transition.run (State.step cfg) (State.installed cfg) actions = some s)
    (closed : ClosedSegment) (hclosed : s.replicated = some closed) :
    ∃ records, archived cfg s.batches = .ok (closed.endOffset, records) ∧
      closed.validate cfg closed.endOffset records = true := by
  have hinv : Inv cfg (Frozen cfg) s := Transition.run_guarded_invariant
    (fun _ _ _ hinv hC hstep => (hinv.step (settlement_frozen cfg) hC.settles).of_eq hstep)
    (inv_installed cfg _) hC hrun
  obtain ⟨n, hmark, hcov⟩ := hinv.store.replicated closed hclosed
  have hend := (of_decide_eq_true hmark.valid).1
  -- a batch after the marker would need a replica with a frame after it
  have hiff : ∀ k, CoveredBy cfg s.log s.batches k ↔ k < n := by
    intro k
    refine ⟨fun ⟨batch, hmem, a, e, hal, _, hke⟩ => ?_, hcov k⟩
    obtain ⟨a', e', hal', i, hi, hle⟩ := hinv.store.batches batch hmem
    have he : e = e' := (hal.unique cfg hal').2
    have := hmark.settled.1 i hi
    omega
  have hbatches : ∀ b ∈ s.batches, ∃ a e, Aligned cfg s.log b a e := by
    intro b hb
    obtain ⟨a, e, hal, -⟩ := hinv.store.batches b hb
    exact ⟨a, e, hal⟩
  refine ⟨s.log.take n, ?_, ?_⟩
  · rw [archived_complete cfg hinv.base.log hbatches hiff, hend]
  · rw [hend]
    exact hmark.valid

/-- An append that reached the first replica only, and a recoverer that reads
both replicas, uploads the frame and marks the segment. -/
def fullRecovery : List Action :=
  [.append [1], .flush 0 49, .recover 1, .advance 1, .advance 1,
    .readReplica 1 0, .readReplica 1 1, .advance 1, .advance 1, .advance 1, .advance 1,
    .send 1, .land (.batch demoBatch), .advance 1, .advance 1, .advance 1,
    .send 1, .land (.closed demoMarker), .advance 1,
    .send 1, .land (.replicated demoMarker), .advance 1]

def fullRecoveryEnd : State := demoEnd fullRecovery

theorem replicated_matches_archive_recovered :
    fullRecoveryEnd.replicated = some demoMarker ∧
    ∃ records, archived demoConfig fullRecoveryEnd.batches = .ok (demoMarker.endOffset, records) ∧
      demoMarker.validate demoConfig demoMarker.endOffset records = true := by
  have hmark : fullRecoveryEnd.replicated = some demoMarker := by decide +kernel
  exact ⟨hmark, replicated_matches_archive (by decide +kernel) (run_demoEnd (by decide +kernel))
    demoMarker hmark⟩

/-! ### Two recoverers that see one replica each -/

/-- The append reached the first replica only.  The first recoverer reads that
replica and uploads the frame; the second reads the other one, finds nothing,
and closes and marks an empty segment. -/
def splitRecovery : List Action :=
  [.append [1], .flush 0 49,
    .recover 2, .advance 2, .advance 2, .missReplica 2 0 false, .readReplica 2 1,
    .advance 2, .advance 2, .advance 2, .advance 2, .advance 2,
    .recover 1, .advance 1, .advance 1, .readReplica 1 0, .missReplica 1 1 false,
    .advance 1, .advance 1, .advance 1, .advance 1,
    .send 1, .land (.batch demoBatch),
    .advance 2, .send 2, .land (.closed ⟨0, 0⟩), .advance 2,
    .send 2, .land (.replicated ⟨0, 0⟩), .advance 2]

/-- The archive is longer than its replicated marker says. -/
theorem replicated_differs_from_archive :
    ∃ s, Transition.run (State.step demoConfig) (State.installed demoConfig)
        splitRecovery = some s ∧ ∃ closed, s.replicated = some closed ∧
        archived demoConfig s.batches = .ok (49, [demoRecord]) ∧ closed.endOffset ≠ 49 ∧
        closed.validate demoConfig 49 [demoRecord] = false := by
  refine ⟨demoEnd splitRecovery, run_demoEnd ?_, ⟨0, 0⟩, ?_, ?_, ?_, ?_⟩
  all_goals decide +kernel

/-! ## One log for everyone -/

/-- **Reads and markers agree on one log**, in whatever order the calls on a segment run: of
any two reads one returned a prefix of the other, and a marker of the archive never lies
before an acknowledged record. -/
theorem reads_share_one_log
    (hrun : Transition.run (State.step cfg) (State.installed cfg) actions = some s) :
    (∀ x ∈ s.reads, ∀ y ∈ s.reads, x.records <+: y.records ∨ y.records <+: x.records) ∧
    ∀ c, s.closed = some c ∨ s.replicated = some c → ∀ r ∈ s.acked, r.version ≤ c.lastVersion := by
  have hF := settlement_settled cfg
  have hinv : Inv cfg (Settled cfg) s := Transition.run_invariant
    (fun _ a _ hinv hstep => (hinv.step hF (settles_of_inv hinv a)).of_eq hstep)
    (inv_installed cfg _) hrun
  constructor
  · intro x hx y hy
    obtain ⟨-, n, -, -, hn⟩ := hinv.reads x hx
    obtain ⟨-, m, -, -, hm⟩ := hinv.reads y hy
    rw [hn, hm]
    exact (Nat.le_total n m).imp List.take_prefix_take_left List.take_prefix_take_left
  · intro c hc r hr
    obtain ⟨n, hmark⟩ : ∃ n, MarkAt cfg (Settled cfg) s c n := by
      rcases hc with hc | hc
      · exact hinv.store.closed c hc
      · obtain ⟨n, hmark, -⟩ := hinv.store.replicated c hc
        exact ⟨n, hmark⟩
    have hbound := hF.bound s n hinv.base hmark.settled
    have hn := hmark.held.le_length hinv.base
    obtain ⟨k, hk⟩ := List.mem_iff_getElem?.mp hr
    have hlt := (List.getElem?_eq_some_iff.mp hk).1
    -- the last record the marker describes is not before `r`
    obtain ⟨last, hlast⟩ : ∃ last, s.log[n - 1]? = some last :=
      ⟨_, List.getElem?_eq_getElem (by omega)⟩
    have hvalid := (of_decide_eq_true hmark.valid).2.2
    rw [List.getLast?_take, if_neg (by omega), hlast] at hvalid
    have hversion : last.version = c.lastVersion := by simpa using hvalid
    rw [← hversion, hinv.base.log.version _ _ hlast,
      hinv.base.log.version k r (by rw [State.log, List.getElem?_append_left hlt, hk])]
    omega

theorem reads_share_one_log_archived :
    archivedSegmentEnd.replicated = some demoMarker ∧
      ∀ r ∈ archivedSegmentEnd.acked, r.version ≤ 1 := by
  have hmark : archivedSegmentEnd.replicated = some demoMarker := by decide +kernel
  exact ⟨hmark, (reads_share_one_log run_archivedSegment).2 demoMarker (.inr hmark)⟩

end DurableActors.Ports.Log
