import DurableActors.Verified.OrderedMap
import DurableActors.Ports.LogFrame

/-!
# The archived part of a log segment

`LogStorage::archived` and the reading half of `bucket/rapid/reader.rs`: the
batches of a segment are decoded into one map from offset to record, which
has to be contiguous from offset zero.

A batch is aligned with a log when it holds a run of the log's frames under the
offsets these frames have in it.
-/

namespace DurableActors.Ports.Log

open Verified

variable {a b first j k n offset stop : Nat} {batches : List Batch}
  {log log' rs : List Record} {x y : Nat × Record} {m : List (Nat × Record)}

/-- What is fixed for one segment: the digest, the check
`StateStream::snapshot` makes on a payload (the state version it belongs to),
the manifest's first version and replica count, the version the session had
when it installed the segment, and the configured batch size. -/
structure SegmentConfig where
  digest : Digest
  stateVersion : Bytes → Option Nat
  firstVersion : Nat
  installedAt : Nat
  replicas : Nat
  batchBytes : Nat
  firstVersion_pos : 0 < firstVersion
  firstVersion_le : firstVersion ≤ installedAt + 1
  replicas_pos : 0 < replicas
  batchBytes_pos : 0 < batchBytes

/-- `ClosedSegment`. -/
structure ClosedSegment where
  lastVersion : Nat
  endOffset : Nat
deriving DecidableEq, Repr

/-- An archived batch under its key. -/
structure Batch where
  start : Nat
  stop : Nat
  bytes : Bytes
deriving DecidableEq, Repr

variable (cfg : SegmentConfig)

/-- The identity check on a record. -/
def SegmentConfig.identity (record : Record) : Bool :=
  decide (cfg.stateVersion record.state = some record.version ∧
    cfg.firstVersion ≤ record.version)

/-- `ClosedSegment::validate`. -/
def ClosedSegment.validate (closed : ClosedSegment) (stop : Nat)
    (records : List Record) : Bool :=
  decide (closed.endOffset = stop ∧ cfg.firstVersion ≤ closed.lastVersion + 1 ∧
    records.getLast?.all fun r => r.version = closed.lastVersion)

/-! ## `archived` -/

/-- The inner loop: enter the records of one batch under their offsets. -/
def addRecords : Nat → List Record → List (Nat × Record) →
    Except String (Nat × List (Nat × Record))
  | offset, [], offsets => .ok (offset, offsets)
  | offset, record :: records, offsets =>
    if cfg.identity record = false then
      .error "archive record identity mismatch"
    else if (OrderedMap.lookup offset offsets).any (fun r => r ≠ record) then
      .error "conflicting archive overlap"
    else
      addRecords (offset + record.size) records
        (OrderedMap.insert offset record offsets)

/-- One batch. -/
def addBatch (offsets : List (Nat × Record)) (batch : Batch) :
    Except String (List (Nat × Record)) :=
  if batch.stop ≤ batch.start then .error "invalid archive batch boundary"
  else if batch.bytes.length ≠ batch.stop - batch.start then
    .error "archive batch length mismatch"
  else
    match decode cfg.digest batch.bytes with
    | .error error => .error error
    | .ok records =>
      match addRecords cfg batch.start records offsets with
      | .error error => .error error
      | .ok (offset, offsets) =>
        if offset = batch.stop then .ok offsets
        else .error "incomplete archive batch"

/-- All batches, in the order they are listed. -/
def addBatches : List Batch → List (Nat × Record) →
    Except String (List (Nat × Record))
  | [], offsets => .ok offsets
  | batch :: batches, offsets =>
    match addBatch cfg offsets batch with
    | .error error => .error error
    | .ok offsets => addBatches batches offsets

/-- The last loop: the offsets have to follow one another from `through`, and
so do the versions. -/
def contiguous : Nat → Option Nat → List (Nat × Record) →
    Except String (Nat × List Record)
  | through, _, [] => .ok (through, [])
  | through, previous, (offset, record) :: offsets =>
    if offset ≠ through then .error "gap in archived segment"
    else if previous.any (fun p => p + 1 ≠ record.version) then
      .error "nonconsecutive archived versions"
    else
      match contiguous (through + record.size) (some record.version)
          offsets with
      | .error error => .error error
      | .ok (stop, records) => .ok (stop, record :: records)

/-- `LogStorage::archived`. -/
def archived (batches : List Batch) : Except String (Nat × List Record) :=
  match addBatches cfg batches [] with
  | .error error => .error error
  | .ok offsets => contiguous 0 none offsets

/-! ## Logs and offsets -/

/-- The offset of the `k`-th frame. -/
def offsetOf (log : List Record) (k : Nat) : Nat := totalSize (log.take k)

/-- A log as a session writes it: the versions count up from `first`. -/
structure WellFormed (first : Nat) (log : List Record) : Prop where
  encodable : ∀ r ∈ log, r.Encodable
  identity : ∀ r ∈ log, cfg.identity r = true
  version : ∀ k r, log[k]? = some r → r.version = first + k

/-- The batch holds the frames `a` to `b` of the log. -/
structure Aligned (log : List Record) (batch : Batch) (a b : Nat) : Prop where
  nonempty : a < b
  bound : b ≤ log.length
  start : batch.start = offsetOf log a
  stop : batch.stop = offsetOf log b
  bytes : batch.bytes = encodeAll cfg.digest ((log.drop a).take (b - a))

/-- Some batch holds frame `k`. -/
def CoveredBy (log : List Record) (batches : List Batch) (k : Nat) : Prop :=
  ∃ batch ∈ batches, ∃ a b, Aligned cfg log batch a b ∧ a ≤ k ∧ k < b

@[simp] theorem offsetOf_zero (log : List Record) : offsetOf log 0 = 0 := rfl

theorem offsetOf_add (log : List Record) (a n : Nat) :
    offsetOf log (a + n) = offsetOf log a + totalSize ((log.drop a).take n) := by
  rw [offsetOf, List.take_add, totalSize_append]
  rfl

theorem offsetOf_succ {r : Record} (hr : log[k]? = some r) :
    offsetOf log (k + 1) = offsetOf log k + r.size := by
  rw [offsetOf, List.take_add_one, hr, totalSize_append]
  rfl

theorem offsetOf_lt (hjk : j < k) (hk : k ≤ log.length) : offsetOf log j < offsetOf log k := by
  induction k with
  | zero => omega
  | succ k ih =>
    have hr : log[k]? = some log[k] := List.getElem?_eq_getElem hk
    have hpos := log[k].size_pos
    rw [offsetOf_succ hr]
    rcases Nat.lt_or_eq_of_le (Nat.lt_succ_iff.mp hjk) with h | rfl
    · have := ih h (by omega)
      omega
    · omega

theorem offsetOf_le (hjk : j ≤ k) (hk : k ≤ log.length) : offsetOf log j ≤ offsetOf log k := by
  rcases Nat.lt_or_eq_of_le hjk with h | rfl
  · exact (offsetOf_lt h hk).le
  · exact le_rfl

theorem offsetOf_inj (hj : j ≤ log.length) (hk : k ≤ log.length)
    (h : offsetOf log j = offsetOf log k) : j = k := by
  rcases lt_trichotomy j k with hlt | heq | hlt
  · have := offsetOf_lt hlt hk
    omega
  · exact heq
  · have := offsetOf_lt hlt hj
    omega

/-- Offsets do not move when the log grows. -/
theorem offsetOf_isPrefix (h : log <+: log') (hk : k ≤ log.length) :
    offsetOf log' k = offsetOf log k := by
  obtain ⟨more, rfl⟩ := h
  rw [offsetOf, List.take_append_of_le_length hk, offsetOf]

theorem offsetOf_take (log : List Record) (h : k ≤ n) :
    offsetOf (log.take n) k = offsetOf log k := by
  rw [offsetOf, List.take_take, Nat.min_eq_left h, offsetOf]

theorem Aligned.mono {batch : Batch} (h : Aligned cfg log batch a b) (hlog : log <+: log') :
    Aligned cfg log' batch a b := by
  have hab := h.nonempty
  have hb := h.bound
  refine ⟨hab, hb.trans hlog.length_le, ?_, ?_, ?_⟩
  · rw [h.start, offsetOf_isPrefix hlog (by omega)]
  · rw [h.stop, offsetOf_isPrefix hlog hb]
  · obtain ⟨more, rfl⟩ := hlog
    rw [h.bytes, List.drop_append_of_le_length (by omega),
      List.take_append_of_le_length (by rw [List.length_drop]; omega)]

/-- A batch is cut at one pair of frames. -/
theorem Aligned.unique {batch : Batch} {a' b' : Nat} (h : Aligned cfg log batch a b)
    (h' : Aligned cfg log batch a' b') : a = a' ∧ b = b' :=
  ⟨offsetOf_inj (h.nonempty.le.trans h.bound) (h'.nonempty.le.trans h'.bound)
    (h.start.symm.trans h'.start), offsetOf_inj h.bound h'.bound (h.stop.symm.trans h'.stop)⟩

theorem CoveredBy.mono {batches' : List Batch} (h : CoveredBy cfg log batches k)
    (hlog : log <+: log') (hsub : ∀ b ∈ batches, b ∈ batches') : CoveredBy cfg log' batches' k := by
  obtain ⟨batch, hmem, a, b, hal, hak, hkb⟩ := h
  exact ⟨batch, hsub batch hmem, a, b, hal.mono cfg hlog, hak, hkb⟩

theorem CoveredBy.lt_length (h : CoveredBy cfg log batches k) : k < log.length := by
  obtain ⟨_, _, _, _, hal, _, hkb⟩ := h
  exact lt_of_lt_of_le hkb hal.bound

/-- Versions that count up are consecutive, in every stretch of a log. -/
theorem consecutive_of_version (first : Nat) (h : ∀ k r, rs[k]? = some r → r.version = first + k) :
    ∀ previous : Option Nat, (∀ p, previous = some p → p + 1 = first) →
      Consecutive previous rs := by
  induction rs generalizing first with
  | nil =>
    intro _ _
    trivial
  | cons r rs ih =>
    intro previous hprev
    have hr : r.version = first := h 0 r rfl
    refine ⟨fun p hp => by rw [hr, hprev p hp], ?_⟩
    apply ih (first + 1)
    · intro k x hx
      rw [h (k + 1) x hx]
      omega
    · intro p hp
      cases hp
      omega

theorem WellFormed.consecutive_drop (h : WellFormed cfg first log) (a n : Nat) :
    Consecutive none ((log.drop a).take n) := by
  apply consecutive_of_version (first + a) _ none (by simp)
  intro k r hr
  rw [List.getElem?_take] at hr
  split at hr
  · rw [List.getElem?_drop] at hr
    rw [h.version _ r hr]
    omega
  · cases hr

/-- One more record, with the next version. -/
theorem WellFormed.concat (h : WellFormed cfg first log) {record : Record}
    (hencodable : record.Encodable) (hidentity : cfg.identity record = true)
    (hversion : record.version = first + log.length) :
    WellFormed cfg first (log ++ [record]) := by
  refine ⟨fun r hr => ?_, fun r hr => ?_, fun k r hr => ?_⟩
  · rcases List.mem_append.mp hr with hr | hr
    · exact h.encodable r hr
    · exact List.mem_singleton.mp hr ▸ hencodable
  · rcases List.mem_append.mp hr with hr | hr
    · exact h.identity r hr
    · exact List.mem_singleton.mp hr ▸ hidentity
  · rcases Nat.lt_or_ge k log.length with hk | hk
    · rw [List.getElem?_append_left hk] at hr
      exact h.version k r hr
    · rw [List.getElem?_append_right hk, List.getElem?_singleton,
        Option.ite_none_right_eq_some] at hr
      obtain ⟨hzero, hr⟩ := hr
      rw [← Option.some.inj hr, hversion]
      omega

/-! ## The map of a batch -/

/-- The map `archived` builds from a run of records. -/
def entries : Nat → List Record → List (Nat × Record)
  | _, [] => []
  | offset, r :: rs => (offset, r) :: entries (offset + r.size) rs

theorem mem_entries :
    x ∈ entries offset rs ↔ ∃ k r, rs[k]? = some r ∧ x = (offset + offsetOf rs k, r) := by
  induction rs generalizing offset with
  | nil => simp [entries]
  | cons r rs ih =>
    rw [entries, List.mem_cons, ih]
    constructor
    · rintro (rfl | ⟨k, y, hy, rfl⟩)
      · exact ⟨0, r, rfl, rfl⟩
      · refine ⟨k + 1, y, hy, ?_⟩
        simp only [offsetOf, List.take_succ_cons, totalSize_cons]
        rw [Nat.add_assoc]
    · rintro ⟨k, y, hy, rfl⟩
      cases k with
      | zero =>
        obtain rfl : r = y := Option.some.inj hy
        exact .inl rfl
      | succ k =>
        refine .inr ⟨k, y, hy, ?_⟩
        simp only [offsetOf, List.take_succ_cons, totalSize_cons]
        rw [Nat.add_assoc]

theorem le_of_mem_entries (h : x ∈ entries offset rs) : offset ≤ x.1 := by
  obtain ⟨k, r, -, rfl⟩ := mem_entries.mp h
  exact Nat.le_add_right _ _

theorem sorted_entries (offset : Nat) (rs : List Record) :
    OrderedMap.Sorted (entries offset rs) := by
  induction rs generalizing offset with
  | nil => exact List.Pairwise.nil
  | cons r rs ih =>
    refine List.pairwise_cons.mpr ⟨fun x hx => ?_, ih _⟩
    have := le_of_mem_entries hx
    have := r.size_pos
    show offset < x.1
    omega

/-- The map holds frames of the log only, each under its own offset. -/
structure Within (log : List Record) (m : List (Nat × Record)) : Prop where
  sorted : OrderedMap.Sorted m
  mem : ∀ x ∈ m, x ∈ entries 0 log

theorem mem_entries_log :
    x ∈ entries 0 log ↔ ∃ k r, log[k]? = some r ∧ x = (offsetOf log k, r) := by
  simp only [mem_entries, Nat.zero_add]

/-- Two frames of a log under one offset are one frame. -/
theorem entries_unique (hx : x ∈ entries 0 log) (hy : y ∈ entries 0 log) (h : x.1 = y.1) :
    x = y := by
  obtain ⟨j, r, hr, rfl⟩ := mem_entries_log.mp hx
  obtain ⟨k, u, hu, rfl⟩ := mem_entries_log.mp hy
  have hj := (List.getElem?_eq_some_iff.mp hr).1
  have hk := (List.getElem?_eq_some_iff.mp hu).1
  obtain rfl := offsetOf_inj hj.le hk.le h
  rw [hr] at hu
  rw [Option.some.inj hu]

theorem Within.mem_insert (hm : Within log m) (hy : y ∈ entries 0 log) :
    x ∈ OrderedMap.insert y.1 y.2 m ↔ x = y ∨ x ∈ m := by
  rw [OrderedMap.mem_insert hm.sorted]
  constructor
  · rintro (rfl | ⟨hx, -⟩)
    · exact .inl rfl
    · exact .inr hx
  · rintro (rfl | hx)
    · exact .inl rfl
    · by_cases hkey : x.1 = y.1
      · exact .inl (entries_unique (hm.mem x hx) hy hkey)
      · exact .inr ⟨hx, hkey⟩

theorem Within.insert (hm : Within log m) (hy : y ∈ entries 0 log) :
    Within log (OrderedMap.insert y.1 y.2 m) := by
  refine ⟨OrderedMap.sorted_insert hm.sorted, fun x hx => ?_⟩
  rcases (hm.mem_insert hy).mp hx with rfl | hx
  · exact hy
  · exact hm.mem x hx

variable (hlog : WellFormed cfg first log)
include hlog

/-- Entering a stretch of the log meets no conflict. -/
theorem addRecords_stretch (hrs : rs <+: log.drop a) (hm : Within log m) :
    ∃ m', addRecords cfg (offsetOf log a) rs m = .ok (offsetOf log a + totalSize rs, m') ∧
      Within log m' ∧ ∀ x, x ∈ m' ↔ x ∈ m ∨ x ∈ entries (offsetOf log a) rs := by
  induction rs generalizing a m with
  | nil => exact ⟨m, rfl, hm, by simp [entries]⟩
  | cons r rs ih =>
    have hget : log[a]? = some r := by
      obtain ⟨rest, hrest⟩ := hrs
      have h0 : (log.drop a)[0]? = some r := by rw [← hrest]; rfl
      simpa [List.getElem?_drop] using h0
    have hmem : r ∈ log := List.mem_of_getElem? hget
    have hrs' : rs <+: log.drop (a + 1) := by
      obtain ⟨rest, hrest⟩ := hrs
      refine ⟨rest, ?_⟩
      rw [← List.drop_drop, ← hrest]
      rfl
    have hentry : (offsetOf log a, r) ∈ entries 0 log :=
      mem_entries_log.mpr ⟨a, r, hget, rfl⟩
    have hid : ¬cfg.identity r = false := by
      rw [hlog.identity r hmem]
      decide
    have hoverlap : (OrderedMap.lookup (offsetOf log a) m).any
        (fun x => x ≠ r) = false := by
      cases hl : OrderedMap.lookup (offsetOf log a) m with
      | none => rfl
      | some x =>
        have hx := hm.mem _ (OrderedMap.lookup_eq_some_mem hl)
        have := entries_unique hx hentry rfl
        simp [(Prod.mk.inj this).2]
    obtain ⟨m', hadd, hwithin, hiff⟩ := ih hrs' (hm.insert hentry)
    refine ⟨m', ?_, hwithin, fun x => ?_⟩
    · rw [addRecords, if_neg hid, hoverlap, if_neg (by decide),
        ← offsetOf_succ hget, hadd, offsetOf_succ hget, totalSize_cons, Nat.add_assoc]
    · rw [hiff, hm.mem_insert hentry, entries, List.mem_cons, offsetOf_succ hget]
      tauto

/-- An aligned batch is entered without conflict. -/
theorem addBatch_aligned {batch : Batch} (hbatch : Aligned cfg log batch a b) (hm : Within log m) :
    ∃ m', addBatch cfg m batch = .ok m' ∧ Within log m' ∧ ∀ x, x ∈ m' ↔ x ∈ m ∨
        ∃ k r, a ≤ k ∧ k < b ∧ log[k]? = some r ∧ x = (offsetOf log k, r) := by
  have hab := hbatch.nonempty
  have hstop : batch.stop =
      offsetOf log a + totalSize ((log.drop a).take (b - a)) := by
    rw [hbatch.stop, ← offsetOf_add, Nat.add_sub_cancel' hab.le]
  have hlen : batch.bytes.length = batch.stop - batch.start := by
    rw [hbatch.bytes, length_encodeAll, hstop, hbatch.start]
    omega
  have hlt : ¬batch.stop ≤ batch.start := by
    rw [hbatch.stop, hbatch.start]
    exact not_le.mpr (offsetOf_lt hab hbatch.bound)
  have hdecode : decode cfg.digest batch.bytes =
      .ok ((log.drop a).take (b - a)) := by
    rw [hbatch.bytes]
    apply decode_encodeAll cfg.digest _ (hlog.consecutive_drop cfg a (b - a))
    intro r hr
    exact hlog.encodable r (List.mem_of_mem_drop (List.mem_of_mem_take hr))
  obtain ⟨m', hadd, hwithin, hiff⟩ :=
    addRecords_stretch cfg hlog (List.take_prefix (b - a) (log.drop a)) hm
  refine ⟨m', ?_, hwithin, fun x => ?_⟩
  · rw [addBatch, if_neg hlt, if_neg (not_not.mpr hlen), hdecode, hbatch.start]
    simp only [hadd, if_pos hstop.symm]
  · rw [hiff, mem_entries]
    apply or_congr_right
    constructor
    · rintro ⟨k, r, hr, rfl⟩
      have hk : k < b - a := by
        have := (List.getElem?_eq_some_iff.mp hr).1
        rw [List.length_take] at this
        omega
      rw [List.getElem?_take_of_lt hk, List.getElem?_drop] at hr
      refine ⟨a + k, r, by omega, by omega, hr, ?_⟩
      rw [offsetOf_add, offsetOf_take _ hk.le]
      rfl
    · rintro ⟨k, r, hak, hkb, hr, rfl⟩
      have hk : k - a < b - a := by omega
      refine ⟨k - a, r, ?_, ?_⟩
      · rw [List.getElem?_take_of_lt hk, List.getElem?_drop, Nat.add_sub_cancel' hak, hr]
      · rw [offsetOf_take _ hk.le, offsetOf.eq_def (log.drop a), ← offsetOf_add,
          Nat.add_sub_cancel' hak]

variable (hbatches : ∀ batch ∈ batches, ∃ a b, Aligned cfg log batch a b)
include hbatches

/-- All batches: the map holds exactly the covered frames. -/
theorem addBatches_aligned (hm : Within log m) :
    ∃ m', addBatches cfg batches m = .ok m' ∧ Within log m' ∧
      ∀ x, x ∈ m' ↔ x ∈ m ∨ ∃ k r, CoveredBy cfg log batches k ∧
        log[k]? = some r ∧ x = (offsetOf log k, r) := by
  induction batches generalizing m with
  | nil => exact ⟨m, rfl, hm, by simp [CoveredBy]⟩
  | cons batch batches ih =>
    obtain ⟨a, b, hal⟩ := hbatches batch (by simp)
    obtain ⟨m₁, hadd, hwithin₁, hiff₁⟩ := addBatch_aligned cfg hlog hal hm
    obtain ⟨m₂, hadds, hwithin₂, hiff₂⟩ :=
      ih (fun x hx => hbatches x (by simp [hx])) hwithin₁
    refine ⟨m₂, ?_, hwithin₂, fun x => ?_⟩
    · rw [addBatches, hadd]
      exact hadds
    · rw [hiff₂, hiff₁, or_assoc]
      apply or_congr_right
      constructor
      · rintro (⟨k, r, hak, hkb, hr, rfl⟩ | ⟨k, r, hcov, hr, rfl⟩)
        · exact ⟨k, r, ⟨batch, by simp, a, b, hal, hak, hkb⟩, hr, rfl⟩
        · exact ⟨k, r, hcov.mono cfg (List.prefix_refl _) (by simp_all), hr, rfl⟩
      · rintro ⟨k, r, ⟨x, hx, a', b', hal', hak, hkb⟩, hr, rfl⟩
        rcases List.mem_cons.mp hx with rfl | hx
        · -- both descriptions of the first batch name the same stretch
          obtain ⟨rfl, rfl⟩ := hal'.unique cfg hal
          exact .inl ⟨k, r, hak, hkb, hr, rfl⟩
        · exact .inr ⟨k, r, ⟨x, hx, a', b', hal', hak, hkb⟩, hr, rfl⟩

/-! ## What `archived` returns -/

omit hbatches in
omit hlog in
/-- What is contiguous is the entries of its records. -/
theorem contiguous_sound {through : Nat} {previous : Option Nat}
    (h : contiguous through previous m = .ok (stop, rs)) :
    m = entries through rs ∧ stop = through + totalSize rs := by
  induction m generalizing through previous rs with
  | nil =>
    rw [contiguous, Except.ok.injEq, Prod.mk.injEq] at h
    obtain ⟨rfl, rfl⟩ := h
    exact ⟨rfl, rfl⟩
  | cons x m ih =>
    obtain ⟨offset, r⟩ := x
    unfold contiguous at h
    split at h
    · cases h
    · split at h
      · cases h
      · split at h
        · cases h
        · rename_i hoff _ _ stop' rs' hrest
          rw [Except.ok.injEq, Prod.mk.injEq] at h
          obtain ⟨rfl, rfl⟩ := h
          obtain ⟨rfl, rfl⟩ := ih hrest
          refine ⟨?_, ?_⟩
          · rw [entries, not_not.mp hoff]
          · rw [totalSize_cons, Nat.add_assoc]

omit hbatches in
omit hlog in
theorem contiguous_entries (through : Nat) {previous : Option Nat} (h : Consecutive previous rs) :
    contiguous through previous (entries through rs) = .ok (through + totalSize rs, rs) := by
  induction rs generalizing through previous with
  | nil => rfl
  | cons r rs ih =>
    have hprev : previous.any (fun p => p + 1 ≠ r.version) = false := by
      cases previous with
      | none => rfl
      | some p => simp [h.1 p rfl]
    rw [entries, contiguous, if_neg (not_not.mpr rfl), hprev,
      if_neg (by decide), ih _ h.2, totalSize_cons, Nat.add_assoc]

omit hbatches in
omit hlog in
/-- A run whose frames all lie in the log, at their offsets, is a prefix of
the log. -/
theorem prefix_of_entries_subset (h : ∀ x ∈ entries 0 rs, x ∈ entries 0 log) : rs <+: log := by
  suffices hk : ∀ k ≤ rs.length, rs.take k <+: log by
    simpa using hk rs.length le_rfl
  intro k
  induction k with
  | zero => simp
  | succ k ih =>
    intro hk
    have hpre := ih (by omega)
    have hlen : k ≤ log.length := by
      have := hpre.length_le
      rw [List.length_take] at this
      omega
    have htake : rs.take k = log.take k := by
      have := List.prefix_iff_eq_take.mp hpre
      rwa [List.length_take, Nat.min_eq_left (by omega)] at this
    have hget : rs[k]? = some rs[k] := List.getElem?_eq_getElem (by omega)
    obtain ⟨j, r, hr, heq⟩ :=
      mem_entries_log.mp (h _ (mem_entries_log.mpr ⟨k, rs[k], hget, rfl⟩))
    obtain ⟨hoff, rfl⟩ := Prod.mk.inj heq
    have hj := (List.getElem?_eq_some_iff.mp hr).1
    have hoff' : offsetOf log k = offsetOf log j := by
      rw [← hoff, offsetOf, offsetOf, htake]
    obtain rfl := offsetOf_inj hlen hj.le hoff'
    rw [List.take_add_one, hget, htake, ← hr, ← List.take_add_one]
    exact List.take_prefix _ _

/-- **What `archived` returns on aligned batches** is a prefix of the log: the
covered frames, all of them. -/
theorem archived_sound (h : archived cfg batches = .ok (stop, rs)) :
    ∃ n, n ≤ log.length ∧ rs = log.take n ∧ stop = offsetOf log n ∧
      ∀ k, CoveredBy cfg log batches k ↔ k < n := by
  obtain ⟨m, hadd, hwithin, hiff⟩ := addBatches_aligned cfg hlog hbatches
    (m := []) ⟨List.Pairwise.nil, by simp⟩
  unfold archived at h
  rw [hadd] at h
  obtain ⟨rfl, rfl⟩ := contiguous_sound h
  have hpre : rs <+: log := prefix_of_entries_subset hwithin.mem
  have htake : rs = log.take rs.length := List.prefix_iff_eq_take.mp hpre
  refine ⟨rs.length, hpre.length_le, htake, ?_, fun k => ⟨fun hk => ?_, fun hk => ?_⟩⟩
  · rw [Nat.zero_add, offsetOf, ← htake]
  · have hlt := hk.lt_length
    have hget : log[k]? = some log[k] := List.getElem?_eq_getElem hlt
    obtain ⟨j, r, hr, heq⟩ :=
      mem_entries_log.mp ((hiff _).mpr (.inr ⟨k, log[k], hk, hget, rfl⟩))
    have hj := (List.getElem?_eq_some_iff.mp hr).1
    have hoff : offsetOf log k = offsetOf log j := by
      rw [(Prod.mk.inj heq).1, offsetOf_isPrefix hpre hj.le]
    rw [offsetOf_inj hlt.le (hj.le.trans hpre.length_le) hoff]
    exact hj
  · have hget : rs[k]? = some rs[k] := List.getElem?_eq_getElem hk
    rcases (hiff _).mp (mem_entries_log.mpr ⟨k, rs[k], hget, rfl⟩) with hnil | h
    · cases hnil
    · obtain ⟨j, r, hcov, hr, heq⟩ := h
      have hoff : offsetOf log k = offsetOf log j := by
        rw [← (Prod.mk.inj heq).1, offsetOf_isPrefix hpre hk.le]
      rwa [offsetOf_inj (hk.le.trans hpre.length_le) hcov.lt_length.le hoff]

/-- Batches that cover the first `n` frames and no others are read as these
frames. -/
theorem archived_complete (hn : ∀ k, CoveredBy cfg log batches k ↔ k < n) :
    archived cfg batches = .ok (offsetOf log n, log.take n) := by
  obtain ⟨m, hadd, hwithin, hiff⟩ := addBatches_aligned cfg hlog hbatches
    (m := []) ⟨List.Pairwise.nil, by simp⟩
  have hm : m = entries 0 (log.take n) := by
    apply OrderedMap.Sorted.ext hwithin.sorted (sorted_entries _ _)
    intro x
    rw [hiff, mem_entries_log]
    constructor
    · rintro (hnil | ⟨k, r, hcov, hr, rfl⟩)
      · cases hnil
      · have hk := (hn k).mp hcov
        refine ⟨k, r, by rw [List.getElem?_take_of_lt hk, hr], ?_⟩
        rw [offsetOf_take _ hk.le]
    · rintro ⟨k, r, hr, rfl⟩
      have hk : k < n := by
        have := (List.getElem?_eq_some_iff.mp hr).1
        rw [List.length_take] at this
        omega
      rw [List.getElem?_take_of_lt hk] at hr
      refine .inr ⟨k, r, (hn k).mpr hk, hr, ?_⟩
      rw [offsetOf_take _ hk.le]
  have hcons : Consecutive none (log.take n) := by
    simpa using hlog.consecutive_drop cfg 0 n
  unfold archived
  rw [hadd, hm]
  show contiguous 0 none (entries 0 (log.take n)) = _
  rw [contiguous_entries 0 hcons, Nat.zero_add]
  rfl

end DurableActors.Ports.Log
