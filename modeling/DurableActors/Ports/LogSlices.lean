import DurableActors.Ports.LogSegment

/-!
# Reading and cutting pieces of a log

The pure parts of the segment's operations on bytes that come from one log: a
prefix of the log's bytes decodes to the whole frames in it, the replica
copies are joined to the longest of them, the merge with the archive keeps the
longer of two prefixes, and both upload loops cut the log into aligned
batches.
-/

namespace DurableActors.Ports.Log

open Verified

variable (cfg : SegmentConfig)
variable {batch bytes : Bytes} {a first j k n : Nat} {log rs : List Record}

/-! ## Prefixes of the bytes of a log -/

/-- The number of whole frames in a copy. -/
def frames (bytes : Bytes) : Nat :=
  match decode cfg.digest bytes with
  | .error _ => 0
  | .ok records => records.length

variable (hlog : WellFormed cfg first log)
include hlog

/-- A prefix of the bytes of a log decodes to its whole frames. -/
theorem decode_piece (h : bytes <+: encodeAll cfg.digest (log.drop a)) :
    ∃ k, k ≤ log.length - a ∧ decode cfg.digest bytes = .ok ((log.drop a).take k) ∧
      totalSize ((log.drop a).take k) ≤ bytes.length ∧ ∀ r, log[a + k]? = some r →
        bytes.length < totalSize ((log.drop a).take k) + r.size := by
  have hcons := hlog.consecutive_drop cfg a (log.drop a).length
  rw [List.take_length] at hcons
  obtain ⟨k, hk, hdec, hle, hlt⟩ := decode_prefix cfg.digest
    (fun x hx => hlog.encodable x (List.mem_of_mem_drop hx)) hcons h
  rw [List.length_drop] at hk
  refine ⟨k, hk, hdec, hle, fun r hr => hlt r ?_⟩
  rwa [List.getElem?_drop]

/-- A prefix of a log decodes to its whole frames. -/
theorem decode_frames (h : bytes <+: encodeAll cfg.digest log) :
    decode cfg.digest bytes = .ok (log.take (frames cfg bytes)) ∧ frames cfg bytes ≤ log.length ∧
      offsetOf log (frames cfg bytes) ≤ bytes.length ∧ (frames cfg bytes < log.length →
        bytes.length < offsetOf log (frames cfg bytes + 1)) := by
  obtain ⟨k, hk, hdec, hle, hlt⟩ := decode_piece cfg hlog (a := 0) h
  rw [List.drop_zero] at hdec hle hlt
  rw [Nat.zero_add] at hlt
  have hk' : k ≤ log.length := hk
  have hframes : frames cfg bytes = k := by
    rw [frames, hdec]
    show (log.take k).length = k
    rw [List.length_take, Nat.min_eq_left hk']
  rw [hframes]
  refine ⟨hdec, hk', hle, fun hlen => ?_⟩
  have hget : log[k]? = some log[k] := List.getElem?_eq_getElem hlen
  rw [offsetOf_succ hget]
  exact hlt _ hget

/-- The whole frames in a copy are those that end within it. -/
theorem le_frames_iff (h : bytes <+: encodeAll cfg.digest log) (hn : n ≤ log.length) :
    n ≤ frames cfg bytes ↔ offsetOf log n ≤ bytes.length := by
  obtain ⟨-, hk, hle, hlt⟩ := decode_frames cfg hlog h
  constructor
  · intro hnk
    exact (offsetOf_le hnk hk).trans hle
  · intro hoff
    by_contra hnot
    have h1 := hlt (by omega)
    have h2 : offsetOf log (frames cfg bytes + 1) ≤ offsetOf log n :=
      offsetOf_le (by omega) hn
    omega

/-- A longer copy holds at least as many frames. -/
theorem frames_mono {bytes' : Bytes} (h : bytes' <+: encodeAll cfg.digest log)
    (hb : bytes <+: bytes') : frames cfg bytes ≤ frames cfg bytes' := by
  obtain ⟨-, hk, hle, -⟩ := decode_frames cfg hlog (hb.trans h)
  exact (le_frames_iff cfg hlog h hk).mpr (hle.trans hb.length_le)

/-- A copy that holds the bytes of a run holds its frames. -/
theorem length_le_frames (hrs : rs <+: log) (h : bytes <+: encodeAll cfg.digest log)
    (hlow : encodeAll cfg.digest rs <+: bytes) : rs.length ≤ frames cfg bytes := by
  apply (le_frames_iff cfg hlog h hrs.length_le).mpr
  have hlen := hlow.length_le
  rw [length_encodeAll] at hlen
  rwa [offsetOf, ← List.prefix_iff_eq_take.mp hrs]

omit hlog in
theorem encodeAll_drop (digest : Digest) (log : List Record) (a : Nat) :
    (encodeAll digest log).drop (offsetOf log a) = encodeAll digest (log.drop a) := by
  have hsplit : encodeAll digest log =
      encodeAll digest (log.take a) ++ encodeAll digest (log.drop a) := by
    rw [← encodeAll_append, List.take_append_drop]
  rw [hsplit, offsetOf, ← length_encodeAll digest, List.drop_left]

omit hlog in
/-- The bytes between two frame boundaries. -/
theorem encodeAll_slice (digest : Digest) (log : List Record) {b : Nat} (hab : a ≤ b) :
    ((encodeAll digest log).drop (offsetOf log a)).take (offsetOf log b - offsetOf log a) =
      encodeAll digest ((log.drop a).take (b - a)) := by
  have hlength : offsetOf log b - offsetOf log a =
      (encodeAll digest ((log.drop a).take (b - a))).length := by
    have hadd := offsetOf_add log a (b - a)
    rw [Nat.add_sub_cancel' hab] at hadd
    rw [length_encodeAll, hadd]
    omega
  have hsplit : encodeAll digest (log.drop a) =
      encodeAll digest ((log.drop a).take (b - a)) ++
        encodeAll digest ((log.drop a).drop (b - a)) := by
    rw [← encodeAll_append, List.take_append_drop]
  rw [encodeAll_drop, hlength, hsplit, List.take_left]

/-! ## Joining the copies -/

omit hlog in
/-- Among copies of one log the longest is selected. -/
theorem selectCopies_sound {ks : List Nat} (hj : j ≤ log.length) (hks : ∀ k ∈ ks, k ≤ log.length)
    (h : selectCopies (log.take j) (ks.map log.take) = .ok rs) :
    ∃ n, rs = log.take n ∧ (n = j ∨ n ∈ ks) ∧ j ≤ n ∧ ∀ k ∈ ks, k ≤ n := by
  induction ks generalizing j with
  | nil =>
    rw [List.map_nil, selectCopies, Except.ok.injEq] at h
    exact ⟨j, h.symm, .inl rfl, le_rfl, by simp⟩
  | cons k ks ih =>
    have hk : k ≤ log.length := hks k (by simp)
    have hks' : ∀ x ∈ ks, x ≤ log.length := fun x hx => hks x (by simp [hx])
    rw [List.map_cons, selectCopies] at h
    split at h
    · cases h
    · have hlen : (log.take j).length < (log.take k).length ↔ j < k := by
        rw [List.length_take, List.length_take, Nat.min_eq_left hj, Nat.min_eq_left hk]
      by_cases hjk : j < k
      · rw [if_pos (hlen.mpr hjk)] at h
        obtain ⟨n, rfl, hn, hle, hall⟩ := ih hk hks' h
        refine ⟨n, rfl, .inr ?_, by omega, ?_⟩
        · rcases hn with rfl | hn
          · simp
          · simp [hn]
        · intro x hx
          rcases List.mem_cons.mp hx with rfl | hx
          · exact hle
          · exact hall x hx
      · rw [if_neg (mt hlen.mp hjk)] at h
        obtain ⟨n, rfl, hn, hle, hall⟩ := ih hj hks' h
        refine ⟨n, rfl, ?_, hle, ?_⟩
        · rcases hn with rfl | hn
          · exact .inl rfl
          · exact .inr (List.mem_cons_of_mem _ hn)
        · intro x hx
          rcases List.mem_cons.mp hx with rfl | hx
          · omega
          · exact hall x hx

omit hlog in
/-- Copies of one log do not diverge. -/
theorem selectCopies_prefixes (log : List Record) (ks : List Nat) (j : Nat) :
    ∃ rs, selectCopies (log.take j) (ks.map log.take) = .ok rs := by
  induction ks generalizing j with
  | nil => exact ⟨_, rfl⟩
  | cons k ks ih =>
    have hsame : ((log.take j).zip (log.take k)).any (fun p => p.1 ≠ p.2) = false := by
      rw [List.any_eq_false]
      intro p hp
      obtain ⟨i, hi⟩ := List.mem_iff_getElem?.mp hp
      rw [List.getElem?_zip_eq_some] at hi
      obtain ⟨hleft, hright⟩ := hi
      have h₁ := List.getElem?_eq_some_iff.mp hleft
      have h₂ := List.getElem?_eq_some_iff.mp hright
      obtain ⟨_, hleft⟩ := h₁
      obtain ⟨_, hright⟩ := h₂
      rw [List.getElem_take] at hleft hright
      simp [← hleft, ← hright]
    obtain ⟨n, hn⟩ : ∃ n, (if (log.take j).length < (log.take k).length then log.take k
        else log.take j) = log.take n := by
      split
      · exact ⟨k, rfl⟩
      · exact ⟨j, rfl⟩
    obtain ⟨rs, hrs⟩ := ih n
    refine ⟨rs, ?_⟩
    rw [List.map_cons, selectCopies, hsame, if_neg (by decide), hn]
    exact hrs

theorem decodeCopies_eq {copies : List Bytes}
    (h : ∀ bytes ∈ copies, bytes <+: encodeAll cfg.digest log) :
    decodeCopies cfg copies = .ok ((copies.map (frames cfg)).map log.take) := by
  induction copies with
  | nil => rfl
  | cons bytes copies ih =>
    have hdec := (decode_frames cfg hlog (h bytes (by simp))).1
    rw [decodeCopies, hdec, ih fun x hx => h x (by simp [hx])]
    rfl

/-- **Joining copies of one log** gives the longest of them. -/
theorem joinReplicas_sound {answers : List (Nat × Option Bytes)}
    (h : ∀ i bytes, (i, some bytes) ∈ answers → bytes <+: encodeAll cfg.digest log)
    (hrs : joinReplicas cfg answers = .ok rs) :
    ∃ i bytes, (i, some bytes) ∈ answers ∧ rs = log.take (frames cfg bytes) ∧
      ∀ j other, (j, some other) ∈ answers → frames cfg other ≤ frames cfg bytes := by
  have hcopies : ∀ bytes ∈ answers.filterMap Prod.snd,
      bytes <+: encodeAll cfg.digest log := by
    intro bytes hb
    obtain ⟨⟨i, x⟩, hx, rfl⟩ := List.mem_filterMap.mp hb
    exact h i bytes hx
  rw [joinReplicas, decodeCopies_eq cfg hlog hcopies] at hrs
  generalize hc : answers.filterMap Prod.snd = copies at hrs hcopies
  have hmem : ∀ bytes, bytes ∈ copies ↔ ∃ i, (i, some bytes) ∈ answers := by
    intro bytes
    rw [← hc, List.mem_filterMap]
    simp
  dsimp only at hrs
  split at hrs
  · cases hrs
  · rename_i hne
    have hbound : ∀ k ∈ copies.map (frames cfg), k ≤ log.length := by
      intro k hk
      obtain ⟨bytes, hb, rfl⟩ := List.mem_map.mp hk
      exact (decode_frames cfg hlog (hcopies bytes hb)).2.1
    obtain ⟨n, rfl, hn, -, hall⟩ := selectCopies_sound (j := 0) (Nat.zero_le _)
      hbound (by simpa using hrs)
    have hn' : n ∈ copies.map (frames cfg) := by
      rcases hn with rfl | hn
      · -- nothing longer than the empty prefix: any copy will do
        obtain ⟨bytes, copies', rfl⟩ : ∃ b c, copies = b :: c := by
          cases copies with
          | nil => exact absurd rfl hne
          | cons b c => exact ⟨b, c, rfl⟩
        have := hall (frames cfg bytes) (by simp)
        simp [Nat.le_zero.mp this]
      · exact hn
    obtain ⟨bytes, hb, rfl⟩ := List.mem_map.mp hn'
    obtain ⟨i, hi⟩ := (hmem bytes).mp hb
    refine ⟨i, bytes, hi, rfl, fun j other hother => ?_⟩
    exact hall _ (List.mem_map_of_mem ((hmem other).mpr ⟨j, hother⟩))

/-- Copies of one log are joined, if there is one. -/
theorem joinReplicas_prefixes {answers : List (Nat × Option Bytes)}
    (h : ∀ i bytes, (i, some bytes) ∈ answers → bytes <+: encodeAll cfg.digest log) {i : Nat}
    (hanswer : (i, some bytes) ∈ answers) : ∃ rs, joinReplicas cfg answers = .ok rs := by
  have hcopies : ∀ bytes ∈ answers.filterMap Prod.snd, bytes <+: encodeAll cfg.digest log := by
    intro bytes hb
    obtain ⟨⟨i, x⟩, hx, rfl⟩ := List.mem_filterMap.mp hb
    exact h i bytes hx
  have hmem : bytes ∈ answers.filterMap Prod.snd := List.mem_filterMap.mpr ⟨_, hanswer, rfl⟩
  obtain ⟨rs, hrs⟩ := selectCopies_prefixes log ((answers.filterMap Prod.snd).map (frames cfg)) 0
  refine ⟨rs, ?_⟩
  rw [joinReplicas, decodeCopies_eq cfg hlog hcopies]
  dsimp only
  rw [if_neg]
  · exact hrs
  · simpa using List.ne_nil_of_mem hmem

/-! ## Merging with the archive -/

omit hlog in
/-- Records under their versions. -/
def byVersion (rs : List Record) : List (Nat × Record) :=
  rs.map fun r => (r.version, r)

omit hlog in
theorem mem_byVersion {x : Nat × Record} : x ∈ byVersion rs ↔ x.2 ∈ rs ∧ x.1 = x.2.version := by
  rw [byVersion, List.mem_map]
  constructor
  · rintro ⟨r, hr, rfl⟩
    exact ⟨hr, rfl⟩
  · rintro ⟨hr, hx⟩
    exact ⟨x.2, hr, by rw [← hx]⟩

theorem WellFormed.version_inj {r u : Record} (hr : r ∈ log) (hu : u ∈ log)
    (h : r.version = u.version) : r = u := by
  obtain ⟨j, hj⟩ := List.mem_iff_getElem?.mp hr
  obtain ⟨k, hk⟩ := List.mem_iff_getElem?.mp hu
  have h1 := hlog.version j r hj
  have h2 := hlog.version k u hk
  obtain rfl : j = k := by omega
  rw [hj] at hk
  exact Option.some.inj hk

theorem WellFormed.nodup : (log.map Record.version).Nodup := by
  have hrange : log.map Record.version = List.range' first log.length := by
    apply List.ext_getElem?
    intro k
    rw [List.getElem?_map]
    cases hr : log[k]? with
    | none =>
      have hk := List.getElem?_eq_none_iff.mp hr
      rw [Option.map_none, eq_comm, List.getElem?_eq_none_iff, List.length_range']
      exact hk
    | some r =>
      have hk := (List.getElem?_eq_some_iff.mp hr).1
      rw [Option.map_some, hlog.version k r hr, List.getElem?_range' hk, Nat.one_mul]
  rw [hrange]
  exact List.nodup_range'

theorem WellFormed.sorted_byVersion (n : Nat) : OrderedMap.Sorted (byVersion (log.take n)) := by
  have hall : OrderedMap.Sorted (byVersion log) := by
    apply List.pairwise_map.mpr
    apply List.pairwise_iff_getElem.mpr
    intro i j hi hj hij
    have h1 := hlog.version i _ (List.getElem?_eq_getElem hi)
    have h2 := hlog.version j _ (List.getElem?_eq_getElem hj)
    show log[i].version < log[j].version
    omega
  rw [byVersion, List.map_take]
  exact hall.sublist (List.take_sublist _ _)

/-- Records of one log merge to those of both parts. -/
theorem mergeRecords_mem (hrs : ∀ r ∈ rs, r ∈ log) {m m' : List (Nat × Record)}
    (hm : OrderedMap.Sorted m) (hsub : ∀ x ∈ m, x ∈ byVersion log)
    (h : mergeRecords rs m = .ok m') :
    OrderedMap.Sorted m' ∧ ∀ x, x ∈ m' ↔ x ∈ m ∨ x ∈ byVersion rs := by
  induction rs generalizing m with
  | nil =>
    rw [mergeRecords, Except.ok.injEq] at h
    subst h
    exact ⟨hm, by simp [byVersion]⟩
  | cons r rs ih =>
    have hr : r ∈ log := hrs r (by simp)
    rw [mergeRecords] at h
    split at h
    · cases h
    · have hins : ∀ x, x ∈ OrderedMap.insert r.version r m ↔
          x = (r.version, r) ∨ x ∈ m := by
        intro x
        rw [OrderedMap.mem_insert hm]
        constructor
        · rintro (rfl | ⟨hx, -⟩)
          · exact .inl rfl
          · exact .inr hx
        · rintro (rfl | hx)
          · exact .inl rfl
          · by_cases hkey : x.1 = r.version
            · obtain ⟨hx2, hx1⟩ := mem_byVersion.mp (hsub x hx)
              have := hlog.version_inj cfg hx2 hr (hx1.symm.trans hkey)
              exact .inl (Prod.ext hkey this)
            · exact .inr ⟨hx, hkey⟩
      have hsub' : ∀ x ∈ OrderedMap.insert r.version r m, x ∈ byVersion log := by
        intro x hx
        rcases (hins x).mp hx with rfl | hx
        · exact mem_byVersion.mpr ⟨hr, rfl⟩
        · exact hsub x hx
      obtain ⟨hsorted, hiff⟩ := ih (fun x hx => hrs x (by simp [hx]))
        (OrderedMap.sorted_insert hm) hsub' h
      refine ⟨hsorted, fun x => ?_⟩
      rw [hiff, hins, byVersion, byVersion, List.map_cons, List.mem_cons]
      tauto

/-- Records of one log are merged without conflict. -/
theorem mergeRecords_log (hrs : ∀ r ∈ rs, r ∈ log) {m : List (Nat × Record)}
    (hsub : ∀ x ∈ m, x ∈ byVersion log) : ∃ m', mergeRecords rs m = .ok m' := by
  induction rs generalizing m with
  | nil => exact ⟨m, rfl⟩
  | cons r rs ih =>
    have hr : r ∈ log := hrs r (by simp)
    have hsame : (OrderedMap.lookup r.version m).any (fun x => x ≠ r) = false := by
      cases hl : OrderedMap.lookup r.version m with
      | none => rfl
      | some x =>
        obtain ⟨hx, hversion⟩ := mem_byVersion.mp (hsub _ (OrderedMap.lookup_eq_some_mem hl))
        have hxr : x = r := hlog.version_inj cfg hx hr hversion.symm
        simp [hxr]
    rw [mergeRecords, hsame, if_neg (by decide)]
    apply ih fun x hx => hrs x (by simp [hx])
    intro x hx
    rcases OrderedMap.mem_of_mem_insert hx with rfl | hx
    · exact mem_byVersion.mpr ⟨hr, rfl⟩
    · exact hsub x hx

/-- **Merging two prefixes of a log** gives the longer one. -/
theorem mergeRecords_sound {merged : List (Nat × Record)}
    (h : mergeRecords (log.take j ++ log.take k) [] = .ok merged) :
    merged.map Prod.snd = log.take (max j k) := by
  have hmem : ∀ r ∈ log.take j ++ log.take k, r ∈ log := by
    intro r hr
    rcases List.mem_append.mp hr with hr | hr <;> exact List.mem_of_mem_take hr
  have htake : ∀ r, r ∈ log.take j ++ log.take k ↔ r ∈ log.take (max j k) := by
    intro r
    rw [List.mem_append]
    rcases Nat.le_total j k with hjk | hkj
    · rw [Nat.max_eq_right hjk]
      exact or_iff_right_of_imp fun hr => (List.take_subset_take_left _ hjk) hr
    · rw [Nat.max_eq_left hkj]
      exact or_iff_left_of_imp fun hr => (List.take_subset_take_left _ hkj) hr
  obtain ⟨hsorted, hiff⟩ := mergeRecords_mem cfg hlog hmem List.Pairwise.nil
    (by simp) h
  have heq : merged = byVersion (log.take (max j k)) := by
    apply OrderedMap.Sorted.ext hsorted (hlog.sorted_byVersion cfg _)
    intro x
    rw [hiff, mem_byVersion, mem_byVersion, htake]
    simp
  rw [heq, byVersion, List.map_map]
  exact List.map_id' _

/-! ## Cutting batches -/

omit hlog in
/-- The frames `a` to `e` as a batch. -/
theorem aligned_of_bytes {e : Nat} (hae : a < e) (he : e ≤ log.length)
    (hbatch : batch = encodeAll cfg.digest ((log.drop a).take (e - a))) :
    offsetOf log a + batch.length = offsetOf log e ∧
      Aligned cfg log ⟨offsetOf log a, offsetOf log a + batch.length, batch⟩ a e := by
  have hlen : offsetOf log a + batch.length = offsetOf log e := by
    rw [hbatch, length_encodeAll, ← offsetOf_add, Nat.add_sub_cancel' hae.le]
  exact ⟨hlen, hae, he, rfl, hlen, hbatch⟩

omit hlog in
/-- **The recoverer's batches** are aligned and cover what lies between the
archived part and the end of the records.  The induction is on the remaining
records; `k` frames lie behind, and the open batch holds the frames from `t`
on. -/
theorem recoverBatches_spec (hn : n ≤ log.length) {t : Nat} (hk : k ≤ n)
    (ht : t ≤ log.length) (hrs : rs = (log.take n).drop k)
    (hbatch : batch = encodeAll cfg.digest ((log.drop t).take (k - t))) :
    (∀ b ∈ recoverBatches cfg (offsetOf log k) (offsetOf log t) batch rs,
        ∃ a e, Aligned cfg log b a e ∧ e ≤ n) ∧ ∀ j, t ≤ j → j < n → CoveredBy cfg log
          (recoverBatches cfg (offsetOf log k) (offsetOf log t) batch rs) j := by
  induction rs generalizing k t batch with
  | nil =>
    have hkn : k = n := by
      have := congrArg List.length hrs
      rw [List.length_nil, List.length_drop, List.length_take] at this
      omega
    subst hkn
    rw [recoverBatches]
    by_cases htk : t < k
    · obtain ⟨hlen, hal⟩ := aligned_of_bytes cfg htk hn hbatch
      have hlt := offsetOf_lt htk hn
      rw [if_pos (by omega)]
      constructor
      · intro b hb
        obtain rfl := List.mem_singleton.mp hb
        exact ⟨t, k, hal, le_rfl⟩
      · intro j htj hjk
        exact ⟨_, List.mem_singleton_self _, t, k, hal, htj, hjk⟩
    · have : batch = [] := by
        rw [hbatch, show k - t = 0 by omega, List.take_zero, encodeAll_nil]
      rw [this, if_neg (by simp)]
      exact ⟨by simp, fun j htj hjk => by omega⟩
  | cons r rs ih =>
    have hget : (log.take n)[k]? = some r := by
      have h0 : ((log.take n).drop k)[0]? = some r := by rw [← hrs]; rfl
      simpa [List.getElem?_drop] using h0
    have hkn : k < n := by
      have := (List.getElem?_eq_some_iff.mp hget).1
      rw [List.length_take] at this
      omega
    have hlogk : log[k]? = some r := by
      rwa [List.getElem?_take_of_lt hkn] at hget
    have hrs' : rs = (log.take n).drop (k + 1) := by
      rw [← List.drop_drop, ← hrs]
      rfl
    rw [recoverBatches, length_frame, ← offsetOf_succ hlogk]
    dsimp only
    split
    · rename_i hle
      have hkt : k + 1 ≤ t := by
        by_contra hnot
        have := offsetOf_lt (Nat.lt_of_not_le hnot) (by omega : k + 1 ≤ log.length)
        omega
      apply ih hkn ht hrs'
      rw [hbatch, show k - t = 0 by omega, show k + 1 - t = 0 by omega]
    · rename_i hgt
      have htk : t ≤ k := by
        by_contra hnot
        exact hgt (offsetOf_le (by omega) ht)
      have hbatch' : batch ++ r.frame cfg.digest =
          encodeAll cfg.digest ((log.drop t).take (k + 1 - t)) := by
        have hr : (log.drop t)[k - t]? = some r := by
          rw [List.getElem?_drop, Nat.add_sub_cancel' htk, hlogk]
        rw [show k + 1 - t = (k - t) + 1 by omega, List.take_add_one, hr,
          encodeAll_append, ← hbatch]
        simp
      split
      · obtain ⟨hlen, hal⟩ := aligned_of_bytes cfg (Nat.lt_succ_of_le htk)
          (by omega) hbatch'
        rw [hlen] at hal ⊢
        obtain ⟨hall, hcov⟩ := ih hkn (t := k + 1) (by omega) hrs'
          (show ([] : Bytes) = encodeAll cfg.digest
            ((log.drop (k + 1)).take (k + 1 - (k + 1))) by simp)
        constructor
        · intro b hb
          rcases List.mem_cons.mp hb with rfl | hb
          · exact ⟨t, k + 1, hal, hkn⟩
          · exact hall b hb
        · intro j htj hjn
          rcases Nat.lt_or_ge j (k + 1) with hjk | hjk
          · exact ⟨_, List.mem_cons_self, t, k + 1, hal, htj, hjk⟩
          · exact (hcov j hjk hjn).mono cfg (List.prefix_refl _)
              fun b hb => List.mem_cons_of_mem _ hb
      · exact ih hkn ht hrs' hbatch'

omit hlog in
theorem cutLength_eq {length : Nat} (h : cutLength cfg length rs = .ok n) :
    ∃ j ≤ rs.length, n = length + totalSize (rs.take j) := by
  induction rs generalizing length with
  | nil =>
    rw [cutLength, Except.ok.injEq] at h
    exact ⟨0, le_rfl, by simp [h]⟩
  | cons r rs ih =>
    rw [cutLength] at h
    split at h
    · cases h
    · split at h
      · rw [Except.ok.injEq] at h
        exact ⟨1, by simp, by simp [← h]⟩
      · obtain ⟨j, hj, rfl⟩ := ih h
        refine ⟨j + 1, by simpa using hj, ?_⟩
        rw [List.take_succ_cons, totalSize_cons, Nat.add_assoc]

/-- **The archiver's batch**: cut off a range that starts at a frame, it is
aligned and lies within the range. -/
theorem cutBatch_aligned (ha : a ≤ log.length)
    (hbytes : bytes <+: encodeAll cfg.digest (log.drop a)) {batch : Batch}
    (h : cutBatch cfg (offsetOf log a) bytes = .ok batch) :
    ∃ e, Aligned cfg log batch a e ∧ batch.stop ≤ offsetOf log a + bytes.length := by
  obtain ⟨k, hk, hdec, hle, -⟩ := decode_piece cfg hlog hbytes
  rw [cutBatch, hdec] at h
  dsimp only at h
  split at h
  · cases h
  · rename_i length hcut
    split at h
    · cases h
    · rename_i hpos
      obtain ⟨j, hj, hlength⟩ := cutLength_eq cfg hcut
      rw [List.length_take, List.length_drop] at hj
      rw [Nat.zero_add, List.take_take, Nat.min_eq_left (by omega)] at hlength
      have hjle : totalSize ((log.drop a).take j) ≤ bytes.length := by
        have h1 := offsetOf_add log a j
        have h2 := offsetOf_add log a k
        have h3 : offsetOf log (a + j) ≤ offsetOf log (a + k) :=
          offsetOf_le (by omega) (by omega)
        omega
      have hj0 : 0 < j := by
        rcases Nat.eq_zero_or_pos j with rfl | hj0
        · exact absurd (by simpa using hlength) hpos
        · exact hj0
      have htake : bytes.take length =
          encodeAll cfg.digest ((log.drop a).take j) := by
        have hpre : encodeAll cfg.digest ((log.drop a).take j) <+: bytes := by
          apply List.prefix_of_prefix_length_le _ hbytes
          · rw [length_encodeAll]
            exact hjle
          · refine ⟨encodeAll cfg.digest ((log.drop a).drop j), ?_⟩
            rw [← encodeAll_append, List.take_append_drop]
        rw [hlength, ← length_encodeAll cfg.digest]
        exact (List.prefix_iff_eq_take.mp hpre).symm
      rw [Except.ok.injEq] at h
      subst h
      refine ⟨a + j, ⟨by omega, by omega, rfl, ?_, ?_⟩, ?_⟩
      · show offsetOf log a + length = offsetOf log (a + j)
        rw [offsetOf_add, hlength]
      · rw [htake, Nat.add_sub_cancel_left]
      · show offsetOf log a + length ≤ _
        omega

end DurableActors.Ports.Log
