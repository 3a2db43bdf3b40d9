import DurableActors.Ports.LogSlices

/-!
# What holds in every state of a segment

Everything in the segment is a piece of one log, the acknowledged records and
the one append in flight.  The log only grows, and so does everything else:
`Extends` says what a step keeps, and all facts about stored objects, requests
and tasks are stated so that they survive it.

Marker objects and their writers carry a position `n` of the log.  What is
known of that position is a parameter `F` here, because two results need two
different things: that no record after `n` is ever acknowledged, and (for
recoverers that saw every frame) that no record after `n` is ever archived.
-/

namespace DurableActors.Ports.Log

open Verified

variable (cfg : SegmentConfig)

/-! ## The log and its copies -/

/-- The archiver's queue describes the acknowledged part of the log, and its
cache is a piece of that part. -/
structure QueueInv (s : State) (pending : Pending) : Prop where
  stop : pending.stop = offsetOf s.log s.acked.length
  version : pending.version = cfg.installedAt + s.acked.length
  closed : pending.closed = s.retired
  cache : ∃ a c, a + c ≤ s.acked.length ∧
    pending.cacheStart = offsetOf s.log a ∧
    pending.cache = encodeAll cfg.digest ((s.log.drop a).take c)

/-- The writer's side of the segment: the log is well formed, and every
replica holds the acknowledged frames and possibly a piece of the next one. -/
structure Base (s : State) : Prop where
  log : WellFormed cfg (cfg.installedAt + 1) s.log
  queue : QueueInv cfg s s.pending
  retired : s.retired = true → s.inflight = none
  lower : ∀ i < cfg.replicas,
    encodeAll cfg.digest s.acked <+: (s.replicas i).bytes
  upper : ∀ i < cfg.replicas,
    (s.replicas i).bytes <+: encodeAll cfg.digest s.log

/-- What every step keeps. -/
structure Extends (s s' : State) : Prop where
  acked : s.acked <+: s'.acked
  log : s.log <+: s'.log
  bytes : ∀ i, (s.replicas i).bytes <+: (s'.replicas i).bytes
  sealed_bytes : ∀ i, (s.replicas i).isSealed = true →
    (s'.replicas i).isSealed = true ∧ (s'.replicas i).bytes = (s.replicas i).bytes
  batches : ∀ b ∈ s.batches, b ∈ s'.batches
  replicated : ∀ c, s.replicated = some c → s'.replicated = some c
  retired : s.retired = true → s'.retired = true ∧ s'.acked = s.acked

theorem acked_isPrefix (s : State) : s.acked <+: s.log := List.prefix_append _ _

theorem offsetOf_acked (s : State) : offsetOf s.log s.acked.length = totalSize s.acked := by
  rw [offsetOf, ← List.prefix_iff_eq_take.mp (acked_isPrefix s)]

/-- Some replica holds the first `n` frames. -/
def Held (s : State) (n : Nat) : Prop :=
  ∃ i < cfg.replicas, n ≤ frames cfg (s.replicas i).bytes

/-- The archive holds the first `n` frames. -/
def Covered (s : State) (n : Nat) : Prop :=
  ∀ k < n, CoveredBy cfg s.log s.batches k

section Stability

variable {cfg} {s s' : State} (hext : Extends s s') {n : Nat}
include hext

theorem Held.mono (hbase : Base cfg s') (h : Held cfg s n) : Held cfg s' n := by
  obtain ⟨i, hi, hn⟩ := h
  exact ⟨i, hi, hn.trans (frames_mono cfg hbase.log (hbase.upper i hi) (hext.bytes i))⟩

theorem Covered.mono (h : Covered cfg s n) : Covered cfg s' n :=
  fun k hk => (h k hk).mono cfg hext.log hext.batches

theorem Extends.offsetOf (hn : n ≤ s.log.length) : offsetOf s'.log n = offsetOf s.log n :=
  offsetOf_isPrefix hext.log hn

theorem Extends.take (hn : n ≤ s.log.length) : s'.log.take n = s.log.take n := by
  obtain ⟨more, hmore⟩ := hext.log
  rw [← hmore, List.take_append_of_le_length hn]

theorem Extends.replicated_isSome (h : s.replicated.isSome = true) :
    s'.replicated.isSome = true := by
  obtain ⟨c, hc⟩ := Option.isSome_iff_exists.mp h
  rw [hext.replicated c hc]
  rfl

end Stability

section Positions

variable {cfg} {s : State} (hbase : Base cfg s) {n : Nat}
include hbase

theorem Held.le_length (h : Held cfg s n) : n ≤ s.log.length := by
  obtain ⟨i, hi, hn⟩ := h
  exact hn.trans (decode_frames cfg hbase.log (hbase.upper i hi)).2.1

theorem acked_le_frames {i : Nat} (hi : i < cfg.replicas) :
    s.acked.length ≤ frames cfg (s.replicas i).bytes :=
  length_le_frames cfg hbase.log (acked_isPrefix s) (hbase.upper i hi)
    (hbase.lower i hi)

theorem held_acked (hn : n ≤ s.acked.length) : Held cfg s n :=
  ⟨0, cfg.replicas_pos, hn.trans (acked_le_frames hbase cfg.replicas_pos)⟩

theorem acked_le_log : s.acked.length ≤ s.log.length :=
  (held_acked hbase le_rfl).le_length hbase

end Positions

theorem Held.le {cfg : SegmentConfig} {s : State} {m n : Nat}
    (h : Held cfg s n) (hmn : m ≤ n) : Held cfg s m := by
  obtain ⟨i, hi, hn⟩ := h
  exact ⟨i, hi, hmn.trans hn⟩

/-! ## Objects and requests -/

variable (F : State → Nat → Prop)

/-- The batch is a piece of the log some replica holds. -/
def BatchInv (s : State) (batch : Batch) : Prop :=
  ∃ a e, Aligned cfg s.log batch a e ∧ Held cfg s e

/-- The marker describes the first `n` records. -/
structure MarkAt (s : State) (closed : ClosedSegment) (n : Nat) : Prop where
  held : Held cfg s n
  settled : F s n
  valid : closed.validate cfg (offsetOf s.log n) (s.log.take n) = true

/-- The marker describes an archived prefix of the log. -/
def Archived (s : State) (closed : ClosedSegment) : Prop :=
  ∃ n, MarkAt cfg F s closed n ∧ Covered cfg s n

/-- What is known of a request. -/
def RequestInv (s : State) : Request → Prop
  | .batch batch => BatchInv cfg s batch
  | .closed closed => ∃ n, MarkAt cfg F s closed n
  | .replicated closed => Archived cfg F s closed
  | .cleaned => True
  | .delete _ => s.replicated.isSome = true

/-- What is known of the stores. -/
structure StoreInv (s : State) : Prop where
  batches : ∀ b ∈ s.batches, BatchInv cfg s b
  closed : ∀ c, s.closed = some c → ∃ n, MarkAt cfg F s c n
  replicated : ∀ c, s.replicated = some c → Archived cfg F s c
  deleted : ∀ i, (s.replicas i).deleted = true → s.replicated.isSome = true
  requests : ∀ r ∈ s.requests, RequestInv cfg F s r

/-! ## Tasks -/

/-- A copy a reader got from a replica. -/
structure CopyOf (s : State) (fence : Bool) (since : List Record) (i : Nat)
    (bytes : Bytes) : Prop where
  replica : i < cfg.replicas
  stored : bytes <+: (s.replicas i).bytes
  recent : since.length ≤ frames cfg bytes
  fenced : fence = true →
    (s.replicas i).isSealed = true ∧ bytes = (s.replicas i).bytes

/-- `read_segment`. -/
def ReadInv (s : State) (caller : ReadCaller) (since : List Record) :
    ReadPc → Prop
  | .marker => True
  | .listing marker => ∀ c, marker = some c → s.replicated = some c
  | .replicas archived answers =>
    (∃ m, Held cfg s m ∧ archived = s.log.take m) ∧
    ∀ i bytes, (i, some bytes) ∈ answers →
      CopyOf cfg s caller.fence since i bytes
  | .lastMarker => True
  | .lastListing closed => s.replicated = some closed

/-- The archiver has archived everything before `through`. -/
def ArchiverAt (s : State) (through : Nat) : Prop :=
  ∃ t ≤ s.acked.length, through = offsetOf s.log t ∧ Covered cfg s t

/-- The marker of a writer that has left the segment. -/
def FinalMarker (s : State) (closed : ClosedSegment) : Prop :=
  s.retired = true ∧
    closed = ⟨cfg.installedAt + s.acked.length, offsetOf s.log s.acked.length⟩

/-- How far the caller of `upload` lets it go. -/
def CallerInv (s : State) (e : Nat) : UploadCaller → Prop
  | .archiver through _ => ArchiverAt cfg s through ∧ e ≤ s.acked.length
  | .sweeper closed => ∃ n, MarkAt cfg F s closed n ∧ e ≤ n

/-- The range an `upload` works on. -/
def RangeInv (s : State) (caller : UploadCaller) (start stop a e : Nat) : Prop :=
  start = offsetOf s.log a ∧ stop = offsetOf s.log e ∧ a < e ∧ Covered cfg s a ∧
    CallerInv cfg F s e caller

/-- `upload`. -/
def UploadInv (s : State) (caller : UploadCaller) : UploadPc → Prop
  | .head start stop => ∃ a e, RangeInv cfg F s caller start stop a e
  | .tail start stop bytes length =>
    ∃ a e, RangeInv cfg F s caller start stop a e ∧
      bytes.length = requestedLength cfg start stop ∧
      bytes <+: encodeAll cfg.digest (s.log.drop a) ∧
      requestedLength cfg start stop ≤ length ∧ length ≤ stop - start
  | .fallback start stop => ∃ a e, RangeInv cfg F s caller start stop a e
  | .put batch =>
    ∃ a e, Aligned cfg s.log batch a e ∧ Covered cfg s a ∧
      CallerInv cfg F s e caller

/-- What is known of a running call. -/
def TaskInv (s : State) : Task → Prop
  | .reading caller since pc => since <+: s.acked ∧ ReadInv cfg s caller since pc
  | .recovered records =>
    ∃ n, Held cfg s n ∧ records = s.log.take n ∧
      (F s n ∨ s.replicated.isSome = true)
  | .recoverListing records =>
    ∃ n, Held cfg s n ∧ records = s.log.take n ∧ F s n
  | .recoverClosed records through =>
    ∃ n, Held cfg s n ∧ records = s.log.take n ∧ F s n ∧
      ∃ m, Held cfg s m ∧ through = offsetOf s.log m ∧ Covered cfg s m
  | .recoverUpload closed batches =>
    ∃ n, MarkAt cfg F s closed n ∧ (∀ b ∈ batches, BatchInv cfg s b) ∧
      ∀ k < n, CoveredBy cfg s.log (s.batches ++ batches) k
  | .recoverClosing closed => Archived cfg F s closed
  | .recoverClose closed => Archived cfg F s closed
  | .recoverMark closed => Archived cfg F s closed
  | .archive through _ => ArchiverAt cfg s through
  | .archiveClose through closed => ArchiverAt cfg s through ∧ FinalMarker cfg s closed
  | .upload caller pc => UploadInv cfg F s caller pc
  | .sweep => True
  | .sweepClosed => True
  | .sweepReplicated closed => ∃ n, MarkAt cfg F s closed n
  | .completeListing closed => ∃ n, MarkAt cfg F s closed n
  | .completing closed through =>
    ∃ n, MarkAt cfg F s closed n ∧
      ∃ t ≤ n, through = offsetOf s.log t ∧ Covered cfg s t
  | .completeValidate closed => ∃ n, MarkAt cfg F s closed n
  | .mark closed => Archived cfg F s closed
  | .cleanup => True
  | .deleting _ => s.replicated.isSome = true
  | .cleaning => True

/-- A read that returned gave a prefix of the log that holds everything
acknowledged before it started. -/
def ResultInv (s : State) (result : ReadResult) : Prop :=
  result.since <+: s.acked ∧
    ∃ n, Held cfg s n ∧ result.since.length ≤ n ∧ result.records = s.log.take n

/-- The invariant. -/
structure Inv (s : State) : Prop where
  base : Base cfg s
  store : StoreInv cfg F s
  tasks : ∀ w task, s.tasks w = some task → TaskInv cfg F s task
  reads : ∀ result ∈ s.reads, ResultInv cfg s result

/-- What the known fact about positions has to satisfy: acknowledged records
lie before such a position, it lasts, and it holds of the end of the log once
the writer has left. -/
structure Settlement : Prop where
  bound : ∀ s n, Base cfg s → F s n → s.acked.length ≤ n
  lasts : ∀ s s' n, Base cfg s → Base cfg s' → Extends s s' → F s n → F s' n
  retired : ∀ s, Base cfg s → s.retired = true → F s s.acked.length

end DurableActors.Ports.Log
