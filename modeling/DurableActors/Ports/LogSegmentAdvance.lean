import DurableActors.Ports.LogSegmentTasks

/-!
# The archiver, the recoverer and the sweeper

The remaining steps of running calls: the markers the archiver and the
recoverers write describe prefixes of the log, and a replicated marker is only
asked for once the batches of its prefix are all in the archive.
-/

namespace DurableActors.Ports.Log

open Verified
open Verified.Transition (Ensures)

variable {cfg : SegmentConfig} {F : State → Nat → Prop} {s : State}

/-! ## Markers -/

/-- The last version of a prefix of the log. -/
theorem getLast_version {first : Nat} {log : List Record}
    (hlog : WellFormed cfg first log) {n : Nat} (hn : n ≤ log.length) {r : Record}
    (hr : (log.take n).getLast? = some r) : r ∈ log ∧ r.version + 1 = first + n := by
  rw [List.getLast?_eq_getElem?, List.length_take, Nat.min_eq_left hn] at hr
  have hlt := (List.getElem?_eq_some_iff.mp hr).1
  rw [List.length_take] at hlt
  rw [List.getElem?_take_of_lt (by omega)] at hr
  have := hlog.version _ r hr
  exact ⟨List.mem_of_getElem? hr, by omega⟩

/-- The marker of the writer describes all that was acknowledged. -/
theorem FinalMarker.markAt (hF : Settlement cfg F) (hbase : Base cfg s) {closed : ClosedSegment}
    (h : FinalMarker cfg s closed) : MarkAt cfg F s closed s.acked.length := by
  obtain ⟨hret, rfl⟩ := h
  refine ⟨held_acked hbase le_rfl, hF.retired s hbase hret, decide_eq_true ⟨rfl, ?_, ?_⟩⟩
  · show cfg.firstVersion ≤ cfg.installedAt + s.acked.length + 1
    have := cfg.firstVersion_le
    omega
  · cases hlast : (s.log.take s.acked.length).getLast? with
    | none => rfl
    | some r =>
      have := (getLast_version hbase.log (acked_le_log hbase) hlast).2
      apply decide_eq_true
      show r.version = cfg.installedAt + s.acked.length
      omega

/-- The marker a recoverer makes up describes the records it read. -/
theorem recoveredMarker_valid (hbase : Base cfg s) {n : Nat} (hn : n ≤ s.log.length) :
    (recoveredMarker cfg (s.log.take n)).validate cfg (offsetOf s.log n) (s.log.take n) = true := by
  apply decide_eq_true
  cases hlast : (s.log.take n).getLast? with
  | none =>
    refine ⟨rfl, ?_, rfl⟩
    simp only [recoveredMarker, hlast]
    omega
  | some r =>
    obtain ⟨hmem, -⟩ := getLast_version hbase.log hn hlast
    have hid := hbase.log.identity r hmem
    have hfirst : cfg.firstVersion ≤ r.version := (of_decide_eq_true hid).2
    refine ⟨rfl, ?_, ?_⟩
    · simp only [recoveredMarker, hlast]
      omega
    · simp [recoveredMarker, hlast]

section

variable (hF : Settlement cfg F) (hinv : Inv cfg F s)
include hF hinv

/-! ## The archiver -/

omit hF hinv in
theorem MoveInv.with_pending {move : Move} (h : MoveInv cfg F s move) {pending : Pending}
    (hq : QueueInv cfg s pending) : MoveInv cfg F s { move with pending := pending } :=
  ⟨h.task, hq, h.reads⟩

omit hF in
/-- The cache the archiver takes is the stretch of the log it is about to
upload. -/
theorem takeCache_inv {t : Nat} (ht : t ≤ s.acked.length) :
    QueueInv cfg s (s.pending.takeCache (offsetOf s.log t)).2 ∧
      ∀ bytes, (s.pending.takeCache (offsetOf s.log t)).1 = some bytes →
        bytes <+: encodeAll cfg.digest (s.log.drop t) ∧ bytes.length ≤
          offsetOf s.log s.acked.length - offsetOf s.log t := by
  have hq := hinv.base.queue
  unfold Pending.takeCache
  split
  · exact ⟨hq, fun bytes h => by cases h⟩
  · rename_i hne
    obtain ⟨a, c, hac, hstart, hcache⟩ := hq.cache
    have hlog := acked_le_log hinv.base
    obtain rfl : a = t := by
      apply offsetOf_inj (by omega) (by omega) (hstart.symm.trans _)
      by_contra hnot
      exact hne (.inl hnot)
    have hlen : offsetOf s.log a + s.pending.cache.length =
        offsetOf s.log (a + c) := by
      rw [hcache, length_encodeAll, ← offsetOf_add]
    constructor
    · refine ⟨hq.stop, hq.version, hq.closed, a + c, 0, hac, ?_, ?_⟩
      · show s.pending.cacheStart + s.pending.cache.length = _
        rw [hstart, hlen]
      · simp
    · intro bytes h
      obtain rfl := Option.some.inj h
      constructor
      · rw [hcache]
        refine ⟨encodeAll cfg.digest ((s.log.drop a).drop c), ?_⟩
        rw [← encodeAll_append, List.take_append_drop]
      · have := offsetOf_le hac hlog
        omega

/-- One turn of the archiver. -/
theorem archiveTurn_inv {through : Nat} (h : ArchiverAt cfg s through) {published closed : Bool}
    (marker : ClosedSegment) (hstop : marker.endOffset = offsetOf s.log s.acked.length)
    (hclosed : closed = true → FinalMarker cfg s marker) :
    Ensures (MoveInv cfg F s)
      (s.archiveTurn cfg through published marker.endOffset closed marker.lastVersion) := by
  obtain ⟨t, ht, rfl, hcov⟩ := h
  have hlog := acked_le_log hinv.base
  obtain ⟨hq, hcached⟩ := takeCache_inv hinv ht
  have hrange : offsetOf s.log t < marker.endOffset →
      RangeInv cfg F s (.archiver (offsetOf s.log t) published) (offsetOf s.log t)
        marker.endOffset t s.acked.length := by
    intro hlt
    refine ⟨rfl, hstop, ?_, hcov, ⟨t, ht, rfl, hcov⟩, le_rfl⟩
    by_contra hnot
    have := offsetOf_le (Nat.le_of_not_lt hnot) (ht.trans hlog)
    omega
  fun_cases State.archiveTurn cfg s (offsetOf s.log t) published marker.endOffset closed
    marker.lastVersion with
  | case1 hdone =>
    obtain rfl : t = s.acked.length :=
      offsetOf_inj (by omega) hlog (hdone.1.trans hstop)
    exact moveInv_goto hinv
      ⟨s.acked.length, (hclosed hdone.2).markAt hF hinv.base, hcov⟩
  | case2 _ hlt => exact moveInv_goto hinv ⟨t, s.acked.length, hrange hlt⟩
  | case3 _ hlt bytes pending htake =>
    rw [htake] at hq hcached
    obtain ⟨hpre, hlen⟩ := hcached bytes rfl
    exact (cut_inv hinv (hrange hlt) hpre (hstop ▸ hlen)).with_pending hq
  | case4 => trivial

theorem advanceArchive_inv {through : Nat} (h : ArchiverAt cfg s through) {published : Bool} :
    Ensures (MoveInv cfg F s) (s.advanceArchive cfg through published) := by
  have hq := hinv.base.queue
  have hfinal : s.pending.closed = true →
      FinalMarker cfg s ⟨s.pending.version, s.pending.stop⟩ := fun hclosed =>
    ⟨hq.closed ▸ hclosed, by rw [hq.version, hq.stop]⟩
  fun_cases State.advanceArchive cfg s through published with
  | case1 _ hclosed => exact moveInv_goto hinv ⟨h, hfinal hclosed.1⟩
  | case2 => exact archiveTurn_inv hF hinv h ⟨s.pending.version, s.pending.stop⟩ hq.stop hfinal

/-! ## All tasks -/

omit hF in
/-- The recoverer is about to upload what the archive lacks. -/
theorem recoverUpload_inv {n m : Nat} (hheld : Held cfg s n) (hm : Held cfg s m)
    (hcov : Covered cfg s m) {closed : ClosedSegment} (hmark : MarkAt cfg F s closed n) :
    TaskInv cfg F s (.recoverUpload closed
      (recoverBatches cfg 0 (offsetOf s.log m) [] (s.log.take n))) := by
  have hn := hheld.le_length hinv.base
  obtain ⟨hall, hcovers⟩ := recoverBatches_spec cfg hn (k := 0) (t := m)
    (Nat.zero_le _) (hm.le_length hinv.base) List.drop_zero.symm
    (show ([] : Bytes) = encodeAll cfg.digest ((s.log.drop m).take (0 - m)) by simp)
  rw [offsetOf_zero] at hall hcovers
  refine ⟨n, hmark, fun b hb => ?_, fun k hk => ?_⟩
  · obtain ⟨a, e, hal, he⟩ := hall b hb
    exact ⟨a, e, hal, hheld.le he⟩
  · rcases Nat.lt_or_ge k m with hkm | hkm
    · exact (hcov k hkm).mono cfg (List.prefix_refl _)
        fun b hb => List.mem_append_left _ hb
    · exact (hcovers k hkm hk).mono cfg (List.prefix_refl _)
        fun b hb => List.mem_append_right _ hb

/-- What is assumed about the merge, for a task. -/
def Task.Settles (cfg : SegmentConfig) (F : State → Nat → Prop) (s : State) :
    Task → Prop
  | .reading caller _ pc => MergeSettles cfg F s caller pc
  | _ => True

/-- **A step of a running call** leads from what the call knows to what it
knows next. -/
theorem advance_inv {task : Task} (h : TaskInv cfg F s task)
    (hsettle : task.Settles cfg F s) : Ensures (MoveInv cfg F s) (s.advance cfg task) := by
  fun_cases State.advance cfg s task with
  | case1 caller since pc => exact advanceRead_inv hinv hF h hsettle
  -- `recover_segment`
  | case3 records hnone =>
    obtain ⟨n, hheld, hrec, hset⟩ := h
    refine moveInv_goto hinv ⟨n, hheld, hrec, hset.resolve_right ?_⟩
    simp [hnone]
  | case5 records through rs hlist =>
    obtain ⟨n, hheld, hrec, hset⟩ := h
    obtain ⟨m, hm, -, rfl, hcov, -⟩ := archived_take hinv hlist
    exact moveInv_goto hinv ⟨n, hheld, hrec, hset, m, hm, rfl, hcov⟩
  | case6 records through batches hnone =>
    obtain ⟨n, hheld, rfl, hset, m, hm, rfl, hcov⟩ := h
    exact moveInv_goto hinv (recoverUpload_inv hinv hheld hm hcov
      ⟨hheld, hset, recoveredMarker_valid hinv.base (hheld.le_length hinv.base)⟩)
  | case7 records through batches closed hclosed hvalid =>
    obtain ⟨n, hheld, rfl, hset, m, hm, rfl, hcov⟩ := h
    exact moveInv_goto hinv (recoverUpload_inv hinv hheld hm hcov ⟨hheld, hset, hvalid⟩)
  | case9 closed =>
    obtain ⟨n, hmark, hbatches, hcov⟩ := h
    refine moveInv_goto hinv ⟨n, hmark, fun k hk => ?_⟩
    simpa using hcov k hk
  | case10 closed batch batches hmem =>
    obtain ⟨n, hmark, hbatches, hcov⟩ := h
    refine moveInv_goto hinv ⟨n, hmark, fun b hb => hbatches b (by simp [hb]),
      fun k hk => (hcov k hk).mono cfg (List.prefix_refl _) ?_⟩
    intro b hb
    rcases List.mem_append.mp hb with hb | hb
    · exact List.mem_append_left _ hb
    · rcases List.mem_cons.mp hb with rfl | hb
      · exact List.mem_append_left _ hmem
      · exact List.mem_append_right _ hb
  | case12 | case13 | case14 => exact moveInv_goto hinv h
  -- the archiver
  | case18 through published => exact advanceArchive_inv hF hinv h
  | case19 through closed =>
    exact archiveTurn_inv hF hinv h.1 closed (by rw [h.2.2]) (fun _ => h.2)
  | case21 caller pc => exact advanceUpload_inv hinv h
  -- `sweep_segment` and `complete_segment`
  | case23 | case26 | case36 | case40 => exact moveInv_goto hinv trivial
  | case25 closed hclosed => exact moveInv_goto hinv (hinv.store.closed closed hclosed)
  | case27 => exact moveInv_goto hinv h
  | case29 closed through rs hlist hle =>
    obtain ⟨n, hmark⟩ := h
    obtain ⟨t, -, -, rfl, hcov, ht⟩ := archived_take hinv hlist
    refine moveInv_goto hinv ⟨n, hmark, t, ?_, rfl, hcov⟩
    by_contra hnot
    have h1 := offsetOf_lt (Nat.lt_of_not_le hnot) ht
    have h2 := (of_decide_eq_true hmark.valid).1
    omega
  | case31 closed through hlt =>
    obtain ⟨n, hmark, t, ht, rfl, hcov⟩ := h
    have hend := (of_decide_eq_true hmark.valid).1
    have htn : t < n := by
      rcases Nat.lt_or_eq_of_le ht with h | rfl
      · exact h
      · omega
    exact moveInv_goto hinv ⟨t, n, rfl, hend, htn, hcov, n, hmark, le_rfl⟩
  | case32 closed through =>
    obtain ⟨n, hmark, -⟩ := h
    exact moveInv_goto hinv ⟨n, hmark⟩
  | case34 closed stop rs hlist hvalid =>
    obtain ⟨n, hmark⟩ := h
    exact moveInv_goto hinv ⟨n, hmark, (archived_validated hinv hmark hlist hvalid).2⟩
  -- `cleanup_segment`
  | case39 closed hclosed =>
    refine moveInv_goto hinv ?_
    show s.replicated.isSome = true
    rw [hclosed]
    rfl
  | case41 => exact moveInv_goto hinv h
  | case11 | case15 | case17 | case20 | case37 | case42 | case44 => trivial
  | _ => exact moveInv_stop hinv

end

end DurableActors.Ports.Log
