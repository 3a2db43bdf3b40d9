import DurableActors.Ports.LogSegmentStable

/-!
# One step of a running call

Each call goes from what it knows to what it knows next.  The only place where
a position of the log is settled by a reader is the merge at the end of a
recoverer's read; what is needed there is an assumption of this module.
-/

namespace DurableActors.Ports.Log

open Verified
open Verified.Transition (Ensures)

variable {cfg : SegmentConfig} {F : State → Nat → Prop}
variable {a e i stop : Nat} {caller : UploadCaller} {rs since : List Record}

/-- What a move leaves behind. -/
structure MoveInv (cfg : SegmentConfig) (F : State → Nat → Prop) (s : State)
    (move : Move) : Prop where
  task : ∀ task, move.task = some task → TaskInv cfg F s task
  queue : QueueInv cfg s move.pending
  reads : ∀ result ∈ move.reads, ResultInv cfg s result

/-- The step settles the position of the recoverer that merges in it. -/
def MergeSettles (cfg : SegmentConfig) (F : State → Nat → Prop) (s : State)
    (caller : ReadCaller) : ReadPc → Prop
  | .replicas archived answers =>
    ∀ rapid merged, caller = .recover → cfg.replicas ≤ answers.length →
      joinReplicas cfg answers = .ok rapid →
      mergeRecords (archived ++ rapid) [] = .ok merged →
      F s merged.length ∨ s.replicated.isSome = true
  | _ => True

section

variable {s : State} (hinv : Inv cfg F s)
include hinv

theorem moveInv_goto {task : Task} (h : TaskInv cfg F s task) : MoveInv cfg F s (s.goto task) := by
  refine ⟨fun t ht => ?_, hinv.base.queue, hinv.reads⟩
  obtain rfl := Option.some.inj ht
  exact h

theorem moveInv_stop : MoveInv cfg F s s.stop :=
  ⟨fun _ ht => absurd ht (by simp [State.stop]), hinv.base.queue, hinv.reads⟩

/-- A listing gives the covered prefix of the log. -/
theorem archived_take (h : archived cfg s.batches = .ok (stop, rs)) :
    ∃ n, Held cfg s n ∧ rs = s.log.take n ∧ stop = offsetOf s.log n ∧
      Covered cfg s n ∧ n ≤ s.log.length := by
  have hbatches : ∀ b ∈ s.batches, ∃ a e, Aligned cfg s.log b a e := by
    intro b hb
    obtain ⟨a, e, hal, -⟩ := hinv.store.batches b hb
    exact ⟨a, e, hal⟩
  obtain ⟨n, hn, rfl, rfl, hiff⟩ := archived_sound cfg hinv.base.log hbatches h
  refine ⟨n, ?_, rfl, rfl, fun k hk => (hiff k).mpr hk, hn⟩
  cases n with
  | zero => exact held_acked hinv.base (Nat.zero_le _)
  | succ n =>
    -- the batch with the last frame came from a replica that has it
    obtain ⟨b, hb, a, e, hal, -, hlt⟩ := (hiff n).mpr (Nat.lt_succ_self n)
    obtain ⟨a', e', hal', hheld⟩ := hinv.store.batches b hb
    have he : e = e' := offsetOf_inj hal.bound hal'.bound
      (hal.stop.symm.trans hal'.stop)
    exact hheld.le (he ▸ hlt)

/-- A validated listing is the prefix the marker describes. -/
theorem archived_validated {closed : ClosedSegment} {m : Nat} (hmark : MarkAt cfg F s closed m)
    (h : archived cfg s.batches = .ok (stop, rs)) (hvalid : closed.validate cfg stop rs = true) :
    rs = s.log.take m ∧ Covered cfg s m := by
  obtain ⟨n, -, rfl, rfl, hcov, hn⟩ := archived_take hinv h
  have h1 := (of_decide_eq_true hvalid).1
  have h2 := (of_decide_eq_true hmark.valid).1
  obtain rfl : n = m :=
    offsetOf_inj hn (hmark.held.le_length hinv.base) (h1.symm.trans h2)
  exact ⟨rfl, hcov⟩

/-! ## `read_segment` -/

theorem moveInv_returned {caller : ReadCaller} {records : List Record}
    (hresult : ResultInv cfg s ⟨since, records⟩)
    (hrecover : caller = .recover → TaskInv cfg F s (.recovered records)) :
    MoveInv cfg F s (s.returned caller since records) := by
  refine ⟨fun task ht => ?_, hinv.base.queue, fun result hr => ?_⟩
  · cases caller with
    | plain fence => cases ht
    | recover =>
      obtain rfl := Option.some.inj ht
      exact hrecover rfl
  · rcases List.mem_cons.mp hr with rfl | hr
    · exact hresult
    · exact hinv.reads result hr

/-- A read that ends with a validated marker. -/
theorem moveInv_validated (hF : Settlement cfg F) {caller : ReadCaller}
    (hsince : since <+: s.acked) {closed : ClosedSegment} (hclosed : s.replicated = some closed)
    (h : archived cfg s.batches = .ok (stop, rs)) (hvalid : closed.validate cfg stop rs = true) :
    MoveInv cfg F s (s.returned caller since rs) := by
  obtain ⟨m, hmark, -⟩ := hinv.store.replicated closed hclosed
  obtain ⟨rfl, -⟩ := archived_validated hinv hmark h hvalid
  apply moveInv_returned hinv
  · exact ⟨hsince, m, hmark.held,
      hsince.length_le.trans (hF.bound s m hinv.base hmark.settled), rfl⟩
  · intro _
    exact ⟨m, hmark.held, rfl, .inl hmark.settled⟩

/-- What the merge gives. -/
theorem merged_take {caller : ReadCaller} {archived rapid : List Record}
    {answers : List (Nat × Option Bytes)}
    (hread : ReadInv cfg s caller since (.replicas archived answers))
    (hjoin : joinReplicas cfg answers = .ok rapid) {merged : List (Nat × Record)}
    (hmerge : mergeRecords (archived ++ rapid) [] = .ok merged) :
    merged.length ≤ s.log.length ∧ Held cfg s merged.length ∧
      merged.map Prod.snd = s.log.take merged.length ∧ since.length ≤ merged.length ∧
      ∃ i bytes, CopyOf cfg s caller.fence since i bytes ∧ frames cfg bytes ≤ merged.length := by
  obtain ⟨⟨m, hheld, rfl⟩, hcopies⟩ := hread
  have hup : ∀ i bytes, (i, some bytes) ∈ answers →
      bytes <+: encodeAll cfg.digest s.log := fun i bytes hmem =>
    (hcopies i bytes hmem).stored.trans
      (hinv.base.upper i (hcopies i bytes hmem).replica)
  obtain ⟨i, bytes, hmem, rfl, -⟩ := joinReplicas_sound cfg hinv.base.log hup hjoin
  have hcopy := hcopies i bytes hmem
  have hmap := mergeRecords_sound cfg hinv.base.log hmerge
  have hrapid : Held cfg s (frames cfg bytes) :=
    ⟨i, hcopy.replica, frames_mono cfg hinv.base.log (hinv.base.upper i hcopy.replica) hcopy.stored⟩
  have hmax : Held cfg s (max m (frames cfg bytes)) := by
    rcases Nat.le_total m (frames cfg bytes) with hle | hle
    · rwa [Nat.max_eq_right hle]
    · rwa [Nat.max_eq_left hle]
  have hlen : merged.length = max m (frames cfg bytes) := by
    have := congrArg List.length hmap
    rwa [List.length_map, List.length_take, Nat.min_eq_left (hmax.le_length hinv.base)] at this
  rw [hlen]
  exact ⟨hmax.le_length hinv.base, hmax, hmap,
    hcopy.recent.trans (Nat.le_max_right _ _), i, bytes, hcopy, Nat.le_max_right _ _⟩

/-- Every await of a read. -/
theorem advanceRead_inv (hF : Settlement cfg F) {caller : ReadCaller} {pc : ReadPc}
    (h : TaskInv cfg F s (.reading caller since pc)) (hsettle : MergeSettles cfg F s caller pc) :
    Ensures (MoveInv cfg F s) (s.advanceRead cfg caller since pc) := by
  obtain ⟨hsince, hread⟩ := h
  fun_cases State.advanceRead cfg s caller since pc with
  | case1 => exact moveInv_goto hinv ⟨hsince, fun c hc => hc⟩
  | case3 stop rs closed hlist hvalid =>
    exact moveInv_validated hinv hF hsince (hread closed rfl) hlist hvalid
  | case5 stop rs hlist =>
    obtain ⟨n, hheld, rfl, -, -⟩ := archived_take hinv hlist
    exact moveInv_goto hinv ⟨hsince, ⟨n, hheld, rfl⟩, by simp⟩
  | case6 => trivial
  | case7 => exact moveInv_goto hinv ⟨hsince, trivial⟩
  | case9 archived answers hall rapid hjoin merged hmerge =>
    obtain ⟨-, hheld, hmap, hlen, -⟩ := merged_take hinv hread hjoin hmerge
    rw [hmap]
    apply moveInv_returned hinv
    · exact ⟨hsince, _, hheld, hlen, rfl⟩
    · intro hcaller
      exact ⟨_, hheld, rfl, hsettle rapid merged hcaller (by omega) hjoin hmerge⟩
  | case11 closed hclosed => exact moveInv_goto hinv ⟨hsince, hclosed⟩
  | case13 closed stop rs hlist hvalid =>
    exact moveInv_validated hinv hF hsince hread hlist hvalid
  | _ => exact moveInv_stop hinv

/-! ## `upload` -/

omit hinv in
theorem CallerInv.le {e' : Nat} (h : CallerInv cfg F s e caller) (hle : e' ≤ e) :
    CallerInv cfg F s e' caller := by
  cases caller with
  | archiver through published => exact ⟨h.1, hle.trans h.2⟩
  | sweeper closed =>
    obtain ⟨n, hmark, he⟩ := h
    exact ⟨n, hmark, hle.trans he⟩

theorem uploadFailed_inv (h : CallerInv cfg F s e caller) :
    MoveInv cfg F s (s.uploadFailed caller) := by
  cases caller with
  | archiver through published => exact moveInv_goto hinv h.1
  | sweeper closed => exact moveInv_stop hinv

/-- The caller goes on behind what is archived. -/
theorem uploaded_inv (h : CallerInv cfg F s e caller) (hcov : Covered cfg s e) :
    MoveInv cfg F s (s.uploaded (offsetOf s.log e) caller) := by
  cases caller with
  | archiver through published =>
    have hgoto : MoveInv cfg F s (s.goto (.archive (offsetOf s.log e) published)) :=
      moveInv_goto hinv ⟨e, h.2, rfl, hcov⟩
    refine ⟨hgoto.task, ?_, hgoto.reads⟩
    have hq := hinv.base.queue
    show QueueInv cfg s (s.pending.uploaded (offsetOf s.log e))
    unfold Pending.uploaded
    split
    · rename_i hempty
      exact ⟨hq.stop, hq.version, hq.closed, e, 0, h.2, rfl, by simp [hempty]⟩
    · exact hq
  | sweeper closed =>
    obtain ⟨n, hmark, he⟩ := h
    exact moveInv_goto hinv ⟨n, hmark, e, he, rfl, hcov⟩

/-- A batch is cut from whole frames of the log. -/
theorem cut_inv {start : Nat} (hrange : RangeInv cfg F s caller start stop a e) {bytes : Bytes}
    (hbytes : bytes <+: encodeAll cfg.digest (s.log.drop a)) (hlen : bytes.length ≤ stop - start) :
    MoveInv cfg F s (s.cut cfg caller start bytes) := by
  obtain ⟨rfl, rfl, hae, hcov, hcaller⟩ := hrange
  have he : e ≤ s.log.length := (hcaller.held hinv.base).le_length hinv.base
  unfold State.cut
  split
  · exact uploadFailed_inv hinv hcaller
  · rename_i batch hcut
    obtain ⟨e', hal, hstop⟩ :=
      cutBatch_aligned cfg hinv.base.log (by omega) hbytes hcut
    have hoff := offsetOf_le hae.le he
    have hle : e' ≤ e := by
      by_contra hnot
      have := offsetOf_lt (Nat.lt_of_not_le hnot) hal.bound
      rw [hal.stop] at hstop
      omega
    exact moveInv_goto hinv ⟨a, e', hal, hcov, hcaller.le hle⟩

/-- A range read at offset `offsetOf a + n` gives a piece of the log's bytes
after frame `a`. -/
theorem readRange_piece (hi : i < cfg.replicas) {n length : Nat} {bytes : Bytes}
    (h : (s.replicas i).readRange (offsetOf s.log a + n) length = some bytes) :
    bytes.length = length ∧ bytes <+: (encodeAll cfg.digest (s.log.drop a)).drop n := by
  unfold Replica.readRange at h
  split at h
  · rename_i hle
    obtain rfl := Option.some.inj h
    constructor
    · rw [List.length_take, List.length_drop]
      omega
    · apply (List.take_prefix _ _).trans
      rw [← encodeAll_drop, List.drop_drop]
      obtain ⟨rest, hrest⟩ := hinv.base.upper i hi
      rw [← hrest, List.drop_append_of_le_length (by omega)]
      exact List.prefix_append _ _
  · cases h

/-- A range that a replica gives is of the log. -/
theorem readRange_inv {pc : UploadPc} (h : UploadInv cfg F s caller pc) (hi : i < cfg.replicas) :
    Ensures (MoveInv cfg F s) (s.readRange cfg caller (s.replicas i) pc) := by
  fun_cases State.readRange cfg s caller (s.replicas i) pc with
  | case2 start stop => exact moveInv_goto hinv h
  | case3 start stop bytes hbytes length hlength hle =>
    obtain ⟨a, e, rfl, hrange⟩ := h
    obtain ⟨hlen, hpre⟩ := readRange_piece hinv hi (n := 0) hbytes
    exact cut_inv hinv ⟨rfl, hrange⟩ hpre (hlen ▸ Nat.min_le_left _ _)
  | case4 start stop bytes hbytes length hlength hlong hle =>
    obtain ⟨a, e, rfl, hrange⟩ := h
    obtain ⟨hlen, hpre⟩ := readRange_piece hinv hi (n := 0) hbytes
    exact moveInv_goto hinv ⟨a, e, ⟨rfl, hrange⟩, hlen, hpre, by omega, hle⟩
  | case5 => exact moveInv_goto hinv h
  | case7 start stop bytes length requested rest hrest =>
    obtain ⟨a, e, ⟨rfl, hrange⟩, hlen, hpre, hle, hstop⟩ := h
    obtain ⟨hlen', hpre'⟩ := readRange_piece hinv hi (n := requestedLength cfg _ stop) hrest
    apply cut_inv hinv ⟨rfl, hrange⟩
    · -- the two pieces are adjacent
      obtain ⟨more, hmore⟩ := hpre
      rw [← hmore, ← hlen, List.drop_left] at hpre'
      rw [← hmore]
      exact (List.prefix_append_right_inj _).mpr hpre'
    · rw [List.length_append]
      omega
  | _ => trivial

theorem missRange_inv {pc : UploadPc} (h : UploadInv cfg F s caller pc) :
    Ensures (MoveInv cfg F s) (s.missRange caller pc) := by
  fun_cases State.missRange s caller pc with
  | case1 => exact moveInv_goto hinv h
  | case2 =>
    obtain ⟨a, e, hrange, -⟩ := h
    exact moveInv_goto hinv ⟨a, e, hrange⟩
  | case3 =>
    obtain ⟨a, e, -, -, -, -, hcaller⟩ := h
    exact uploadFailed_inv hinv hcaller
  | case4 =>
    obtain ⟨a, e, -, -, hcaller⟩ := h
    exact uploadFailed_inv hinv hcaller

/-- Every await of `upload`. -/
theorem advanceUpload_inv {pc : UploadPc} (h : UploadInv cfg F s caller pc) :
    Ensures (MoveInv cfg F s) (s.advanceUpload cfg caller pc) := by
  fun_cases State.advanceUpload cfg s caller pc with
  | case3 =>
    obtain ⟨a, e, -, -, -, -, hcaller⟩ := h
    exact uploadFailed_inv hinv hcaller
  | case4 start stop through rs hlist hlt =>
    obtain ⟨a, e, rfl, rfl, hae, hcov, hcaller⟩ := h
    have he : e ≤ s.log.length := (hcaller.held hinv.base).le_length hinv.base
    obtain ⟨n, -, -, rfl, hcovn, hn⟩ := archived_take hinv hlist
    have hmin : min (offsetOf s.log n) (offsetOf s.log e) = offsetOf s.log (min n e) := by
      rcases Nat.le_total n e with hle | hle
      · rw [Nat.min_eq_left hle, Nat.min_eq_left (offsetOf_le hle he)]
      · rw [Nat.min_eq_right hle, Nat.min_eq_right (offsetOf_le hle hn)]
    rw [hmin]
    exact uploaded_inv hinv (hcaller.le (Nat.min_le_right _ _))
      fun k hk => hcovn k (lt_of_lt_of_le hk (Nat.min_le_left _ _))
  | case5 =>
    obtain ⟨a, e, -, -, -, -, hcaller⟩ := h
    exact uploadFailed_inv hinv hcaller
  | case6 batch hmem =>
    obtain ⟨a, e, hal, hcov, hcaller⟩ := h
    rw [hal.stop]
    apply uploaded_inv hinv hcaller
    intro k hk
    rcases Nat.lt_or_ge k a with hka | hka
    · exact hcov k hka
    · exact ⟨batch, hmem, a, e, hal, hka, hk⟩
  | _ => trivial

end

end DurableActors.Ports.Log
