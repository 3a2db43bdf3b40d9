import DurableActors.Ports.LogSegmentInvariant

/-!
# The facts about a segment last

Every fact in the invariant survives a step that extends the state.  With
these lemmas a step only has to account for what it changes itself.
-/

namespace DurableActors.Ports.Log

open Verified

variable {cfg : SegmentConfig} {F : State → Nat → Prop} (hF : Settlement cfg F)
  {s s' : State} (hbase : Base cfg s) (hbase' : Base cfg s') (hext : Extends s s')
variable {closed : ClosedSegment} {caller : UploadCaller}

include hbase hbase' hext

omit hbase in
theorem BatchInv.mono {batch : Batch} (h : BatchInv cfg s batch) : BatchInv cfg s' batch := by
  obtain ⟨a, e, hal, hheld⟩ := h
  exact ⟨a, e, hal.mono cfg hext.log, hheld.mono hext hbase'⟩

omit hbase' in
theorem ArchiverAt.mono {through : Nat} (h : ArchiverAt cfg s through) :
    ArchiverAt cfg s' through := by
  obtain ⟨t, ht, rfl, hcov⟩ := h
  refine ⟨t, ht.trans hext.acked.length_le, ?_, hcov.mono hext⟩
  rw [hext.offsetOf (ht.trans (acked_le_log hbase))]

omit hbase' in
theorem FinalMarker.mono (h : FinalMarker cfg s closed) : FinalMarker cfg s' closed := by
  obtain ⟨hret, rfl⟩ := h
  obtain ⟨hret', hacked⟩ := hext.retired hret
  refine ⟨hret', ?_⟩
  rw [hacked, hext.offsetOf (acked_le_log hbase)]

omit hbase hbase' in
theorem CopyOf.mono {fence : Bool} {since : List Record} {i : Nat} {bytes : Bytes}
    (h : CopyOf cfg s fence since i bytes) : CopyOf cfg s' fence since i bytes := by
  refine ⟨h.replica, h.stored.trans (hext.bytes i), h.recent, fun hfence => ?_⟩
  obtain ⟨hseal, hbytes⟩ := h.fenced hfence
  obtain ⟨hseal', hbytes'⟩ := hext.sealed_bytes i hseal
  exact ⟨hseal', hbytes.trans hbytes'.symm⟩

theorem ReadInv.mono {caller : ReadCaller} {since : List Record} {pc : ReadPc}
    (h : ReadInv cfg s caller since pc) : ReadInv cfg s' caller since pc := by
  cases pc with
  | marker => trivial
  | listing marker => exact fun c hc => hext.replicated c (h c hc)
  | replicas archived answers =>
    obtain ⟨⟨m, hheld, rfl⟩, hcopies⟩ := h
    refine ⟨⟨m, hheld.mono hext hbase', ?_⟩, fun i bytes hmem => ?_⟩
    · rw [hext.take (hheld.le_length hbase)]
    · exact (hcopies i bytes hmem).mono hext
  | lastMarker => trivial
  | lastListing closed => exact hext.replicated closed h

theorem ResultInv.mono {result : ReadResult} (h : ResultInv cfg s result) :
    ResultInv cfg s' result := by
  obtain ⟨hsince, n, hheld, hle, hrec⟩ := h
  refine ⟨hsince.trans hext.acked, n, hheld.mono hext hbase', hle, ?_⟩
  rw [hrec, hext.take (hheld.le_length hbase)]

include hF

theorem MarkAt.mono {n : Nat} (h : MarkAt cfg F s closed n) : MarkAt cfg F s' closed n := by
  have hn := h.held.le_length hbase
  refine ⟨h.held.mono hext hbase', hF.lasts s s' n hbase hbase' hext h.settled, ?_⟩
  rw [hext.offsetOf hn, hext.take hn]
  exact h.valid

theorem markAt_exists_mono (h : ∃ n, MarkAt cfg F s closed n) : ∃ n, MarkAt cfg F s' closed n := by
  obtain ⟨n, hn⟩ := h
  exact ⟨n, hn.mono hF hbase hbase' hext⟩

theorem Archived.mono (h : Archived cfg F s closed) : Archived cfg F s' closed := by
  obtain ⟨n, hmark, hcov⟩ := h
  exact ⟨n, hmark.mono hF hbase hbase' hext, hcov.mono hext⟩

theorem RequestInv.mono {request : Request} (h : RequestInv cfg F s request) :
    RequestInv cfg F s' request := by
  cases request with
  | batch batch => exact BatchInv.mono hbase' hext h
  | closed closed => exact markAt_exists_mono hF hbase hbase' hext h
  | replicated closed => exact Archived.mono hF hbase hbase' hext h
  | cleaned => trivial
  | delete i => exact hext.replicated_isSome h

theorem CallerInv.mono {e : Nat} (h : CallerInv cfg F s e caller) :
    CallerInv cfg F s' e caller := by
  cases caller with
  | archiver through published =>
    exact ⟨h.1.mono hbase hext, h.2.trans hext.acked.length_le⟩
  | sweeper closed =>
    obtain ⟨n, hmark, he⟩ := h
    exact ⟨n, hmark.mono hF hbase hbase' hext, he⟩

omit hF hbase' hext in
/-- The end of an upload's range lies in the log. -/
theorem CallerInv.held {e : Nat} (h : CallerInv cfg F s e caller) : Held cfg s e := by
  cases caller with
  | archiver through published => exact held_acked hbase h.2
  | sweeper closed =>
    obtain ⟨n, hmark, he⟩ := h
    exact hmark.held.le he

theorem RangeInv.mono {start stop a e : Nat} (h : RangeInv cfg F s caller start stop a e) :
    RangeInv cfg F s' caller start stop a e := by
  obtain ⟨hstart, hstop, hae, hcov, hcaller⟩ := h
  have he : e ≤ s.log.length := (hcaller.held hbase).le_length hbase
  refine ⟨?_, ?_, hae, hcov.mono hext, hcaller.mono hF hbase hbase' hext⟩
  · rw [hstart, hext.offsetOf (by omega)]
  · rw [hstop, hext.offsetOf he]

theorem UploadInv.mono {pc : UploadPc} (h : UploadInv cfg F s caller pc) :
    UploadInv cfg F s' caller pc := by
  cases pc with
  | head start stop =>
    obtain ⟨a, e, hr⟩ := h
    exact ⟨a, e, hr.mono hF hbase hbase' hext⟩
  | tail start stop bytes length =>
    obtain ⟨a, e, hr, hlen, hpre, hle⟩ := h
    refine ⟨a, e, hr.mono hF hbase hbase' hext, hlen, ?_, hle⟩
    obtain ⟨-, -, hae, -, hcaller⟩ := hr
    have he : e ≤ s.log.length := (hcaller.held hbase).le_length hbase
    obtain ⟨more, hmore⟩ := hext.log
    rw [← hmore, List.drop_append_of_le_length (by omega), encodeAll_append]
    exact hpre.trans (List.prefix_append _ _)
  | fallback start stop =>
    obtain ⟨a, e, hr⟩ := h
    exact ⟨a, e, hr.mono hF hbase hbase' hext⟩
  | put batch =>
    obtain ⟨a, e, hal, hcov, hcaller⟩ := h
    exact ⟨a, e, hal.mono cfg hext.log, hcov.mono hext, hcaller.mono hF hbase hbase' hext⟩

/-- **Tasks keep what they know** across the steps of others. -/
theorem TaskInv.mono {task : Task} (h : TaskInv cfg F s task) : TaskInv cfg F s' task := by
  cases task with
  | reading caller since pc =>
    exact ⟨h.1.trans hext.acked, h.2.mono hbase hbase' hext⟩
  | recovered records =>
    obtain ⟨n, hheld, rfl, hset⟩ := h
    refine ⟨n, hheld.mono hext hbase', ?_, ?_⟩
    · rw [hext.take (hheld.le_length hbase)]
    · exact hset.imp (hF.lasts s s' n hbase hbase' hext) hext.replicated_isSome
  | recoverListing records =>
    obtain ⟨n, hheld, rfl, hset⟩ := h
    refine ⟨n, hheld.mono hext hbase', ?_, hF.lasts s s' n hbase hbase' hext hset⟩
    rw [hext.take (hheld.le_length hbase)]
  | recoverClosed records through =>
    obtain ⟨n, hheld, rfl, hset, m, hm, rfl, hcov⟩ := h
    refine ⟨n, hheld.mono hext hbase', ?_,
      hF.lasts s s' n hbase hbase' hext hset, m, hm.mono hext hbase', ?_, hcov.mono hext⟩
    · rw [hext.take (hheld.le_length hbase)]
    · rw [hext.offsetOf (hm.le_length hbase)]
  | recoverUpload closed batches =>
    obtain ⟨n, hmark, hbatches, hcov⟩ := h
    refine ⟨n, hmark.mono hF hbase hbase' hext,
      fun b hb => (hbatches b hb).mono hbase' hext, fun k hk => ?_⟩
    apply (hcov k hk).mono cfg hext.log
    intro b hb
    rcases List.mem_append.mp hb with hb | hb
    · exact List.mem_append_left _ (hext.batches b hb)
    · exact List.mem_append_right _ hb
  | recoverClosing closed => exact Archived.mono hF hbase hbase' hext h
  | recoverClose closed => exact Archived.mono hF hbase hbase' hext h
  | recoverMark closed => exact Archived.mono hF hbase hbase' hext h
  | archive through published =>
    exact ArchiverAt.mono hbase hext h
  | archiveClose through closed =>
    exact ⟨h.1.mono hbase hext, h.2.mono hbase hext⟩
  | upload caller pc => exact UploadInv.mono hF hbase hbase' hext h
  | sweep => trivial
  | sweepClosed => trivial
  | sweepReplicated closed => exact markAt_exists_mono hF hbase hbase' hext h
  | completeListing closed => exact markAt_exists_mono hF hbase hbase' hext h
  | completing closed through =>
    obtain ⟨n, hmark, t, ht, rfl, hcov⟩ := h
    refine ⟨n, hmark.mono hF hbase hbase' hext, t, ht, ?_, hcov.mono hext⟩
    rw [hext.offsetOf (ht.trans (hmark.held.le_length hbase))]
  | completeValidate closed => exact markAt_exists_mono hF hbase hbase' hext h
  | mark closed => exact Archived.mono hF hbase hbase' hext h
  | cleanup => trivial
  | deleting i => exact hext.replicated_isSome h
  | cleaning => trivial

end DurableActors.Ports.Log
