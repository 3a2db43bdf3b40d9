import DurableActors.Ports.ActivationPreserved

/-!
# Snapshot writes keep the ownership invariant

The second owner check is where a write becomes safe.  If it passes and the
session is not fenced, the session's own record is still the current one and
unexpired, so no successor has listed the log yet (`Inv.recheck_covered`).
From there on the write is accounted for by every record that can be
installed, and the acknowledgement only moves it from one list to another.
-/

namespace DurableActors.Ports.Activation

open Verified
open Verified.Transition (Ensures update_cases)

variable {cfg : Config} {s : World} {h : Host} {i : Nat}
variable {fence : Host → LeaseFence} {owned : Host → Option Ownership}

/-! ## The fence is only ever raised -/

theorem LeaseFence.check_spec (f : LeaseFence) (now : Nat) :
    (f.fenced = true → (f.check now).1.fenced = true) ∧
      ((f.check now).2 = true → (f.check now).1.fenced = false) := by
  fun_cases LeaseFence.check f now with
  | case1 => exact ⟨id, nofun⟩
  | case2 deadline =>
    refine ⟨fun hf => ?_, by simp⟩
    show (if deadline ≤ now then { f with fenced := true } else f : LeaseFence).fenced = true
    split <;> simp [hf]

/-- A check that passes leaves the fence down. -/
theorem ensureAuthority_spec (s : World) (h : Host) :
    ((s.fence h).fenced = true → (s.ensureAuthority h).1.fenced = true) ∧
      ((s.ensureAuthority h).2 = true → (s.ensureAuthority h).1.fenced = false) := by
  fun_cases World.ensureAuthority s h with
  | case1 => exact ⟨id, nofun⟩
  | case2 => exact (s.fence h).check_spec s.now

/-! ## Writes that are accounted for -/

/-- Every record that is, or may be, installed accounts for the write. -/
structure Covered (s : World) (b : Snapshot) : Prop where
  installed : ∀ r ∈ s.history, r.Answers b.object → Covers r.base b.object
  live : ∀ c ∈ s.requests, c.Live s.history → c.record.Answers b.object →
    Covers c.record.base b.object
  found : ∀ k started g p record recovered,
    s.registration k = .loading started g p record recovered →
    some g = VersionedCell.generation s.history → b.ownerEpoch = p.epoch →
    ∃ x, recovered = some x ∧ b.stateVersion ≤ x.stateVersion

variable (inv : Inv cfg s)
include inv

/-- A passed write of an unfenced session is accounted for. -/
theorem Inv.passed_covered (hp : (s.writes i).Passed)
    (hf : (s.fence (s.writes i).host).fenced = false) : Covered s (s.writes i).bytes := by
  have hnot : ¬(s.fence (s.writes i).host).fenced = true := by simp [hf]
  refine ⟨?_, ?_, ?_⟩
  · intro r hr
    exact ((inv.accounts r hr).passed i hp).resolve_left hnot
  · intro c hc hlive
    exact ((inv.live c hc hlive).1.passed i hp).resolve_left hnot
  · intro k started g p record recovered hr hg
    obtain ⟨-, -, -, hall⟩ : RegistrationInv cfg s k (.loading ..) := hr ▸ inv.registration k
    exact ((hall hg).passed i hp).resolve_left hnot

/-- An unfenced session with an unexpired local record holds the current
one. -/
theorem Inv.current_of_unexpired {o : Ownership} (ho : s.owned h = some o)
    (hnow : s.now < o.lease.expiresAtMs) (hf : (s.fence h).fenced = false) :
    ∃ c, s.history.getLast? = some c ∧ c.epoch = o.epoch ∧
      s.now < c.lease.expiresAtMs ∧ c.lease.session = h := by
  rcases (inv.owned h o ho).lease with ⟨c, hc, hce, hle⟩ | hexp | hfenced
  · obtain ⟨r, hr, hre, hrs, -⟩ := (inv.owned h o ho).source
    refine ⟨c, hc, hce, hnow.trans_le hle, ?_⟩
    rw [← hrs]
    exact inv.session_unique (List.mem_of_getLast? hc) hr (by omega)
  · omega
  · simp [hf] at hfenced

/-- The second owner check: the crucial step of the failover argument. -/
theorem Inv.recheck_covered {o : Ownership} {b : Snapshot} (ho : s.owned h = some o)
    (hnow : s.now < o.lease.expiresAtMs) (hepoch : o.epoch = b.ownerEpoch)
    (hf : (s.fence h).fenced = false) : Covered s b := by
  obtain ⟨c, hc, hce, hlt, hsession⟩ := inv.current_of_unexpired ho hnow hf
  have hcmem : c ∈ s.history := List.mem_of_getLast? hc
  have hopen : c.isSealed = false := by
    by_contra hsealed
    have := (inv.records c hcmem).released (by simpa using hsealed)
    omega
  refine ⟨?_, ?_, ?_⟩
  · -- No installed record stands beyond the current epoch.
    intro r hr hans
    exfalso
    have hle := inv.epoch_le_last hr hc
    rcases hans with hlt' | ⟨hsealed, heq⟩
    · change b.ownerEpoch < r.epoch at hlt'
      omega
    · change b.ownerEpoch = r.epoch at heq
      rcases inv.precedes_last hr hc with rfl | hprec
      · simp [hopen] at hsealed
      · rcases hprec.epoch with hlt' | ⟨-, -, hr', -⟩
        · omega
        · simp [hsealed] at hr'
  · -- A takeover had to wait for the lease, and a release for the fence.
    intro d hd hlive hans
    exfalso
    rcases inv.live_follows hd hlive with hnil | ⟨p, hp, hkind⟩
    · simp [hnil] at hcmem
    obtain rfl : p = c := by simpa [hp] using hc
    rcases hkind with ht | hn | hr
    · have := ht.expired
      omega
    · rcases hans with hlt' | ⟨hsealed, -⟩
      · change b.ownerEpoch < d.record.epoch at hlt'
        have := hn.epoch
        omega
      · simp [hn.unsealed.2] at hsealed
    · have hhost : d.host = h := hr.session.symm.trans hsession
      rcases (inv.live d hd hlive).2 hr.expired with hfenced | ⟨hnone, -⟩
      · simp [hhost, hf] at hfenced
      · simp [hhost, ho] at hnone
  · -- The log is listed only after the lease has run out.
    intro k started g p record recovered hr hg _
    exfalso
    have hreg := inv.registration k
    rw [hr] at hreg
    have hlast := VersionedCell.getLast?_of_generation hg hreg.2.1.read
    obtain rfl : p = c := by simpa [hlast] using hc
    have := hreg.2.1.expired
    omega

/-! ## Frame lemmas for writes -/

omit inv in
theorem ShutdownInv.congrWrites {writes writes' : Nat → Write} {acked : List Object}
    {closed : Host → Bool} {d : Shutdown} (hold : ∀ j, (writes' j).host = h → writes' j = writes j)
    (hd : ShutdownInv fence owned writes acked closed h d) :
    ShutdownInv fence owned writes' acked closed h d := by
  have hck : ∀ ck, HasCheckpoint fence owned writes acked h ck →
      HasCheckpoint fence owned writes' acked h ck := by
    rintro ck ⟨o, ho, hck⟩
    refine ⟨o, ho, { hck with recorded := fun j hj => ?_ }⟩
    have heq := hold j hj
    rw [heq] at hj ⊢
    exact hck.recorded j hj
  refine .imp id (fun ck hk hq => ⟨hck ck hk, fun j hj => ?_⟩)
    (fun ck _ hk => hck ck hk) hd
  have heq := hold j hj
  rw [heq] at hj ⊢
  exact hq j hj

/-- Moving one write: what it newly claims has to be checked. -/
theorem Inv.setWrite {w : Write} (hinv : WriteInv s.snapshots s.owned w)
    (hpass : w.Passed → (s.fence w.host).fenced = true ∨ Covered s w.bytes)
    (hflight : w.InFlight → i ∈ s.pending w.host)
    (hrec : w.pc = .recorded → Covers (s.uploaded w.host).latest w.bytes.object)
    (hshut : ShutdownInv s.fence s.owned (Function.update s.writes i w) s.acknowledged
      s.streamClosed w.host (s.shutdown w.host)) : Inv cfg (s.setWrite i w) := by
  have hacc : ∀ r, Accounts s.fence s.writes s.acknowledged r →
      (Covered s w.bytes → r.Answers w.bytes.object → Covers r.base w.bytes.object) →
      Accounts s.fence (Function.update s.writes i w) s.acknowledged r :=
    fun r hr hcov => ⟨hr.acked, fun j => update_cases j
      (fun hp => (hpass hp).imp_right hcov) fun _ => hr.passed j⟩
  refine { inv with
    registration := ?_, accounts := ?_, live := ?_, writes := ?_, uploads := ?_
    shutdown := ?_ }
  · intro k
    refine inv.keep { Keeps.refl s k (s.registration k) with found := ?_ }
      (inv.registration k)
    intro started g p record recovered hr _ hg hall
    show FoundAll s.fence (Function.update s.writes i w) s.acknowledged p.epoch recovered
    exact ⟨(hall hg).acked, fun j => update_cases j (fun hp => (hpass hp).imp_right fun hcov =>
        hcov.found k started g p record recovered hr hg) fun _ => (hall hg).passed j⟩
  · exact fun r hr => hacc r (inv.accounts r hr) fun hcov =>
      hcov.installed r hr
  · exact fun c hc hl => ⟨hacc c.record (inv.live c hc hl).1 fun hcov =>
      hcov.live c hc hl, (inv.live c hc hl).2⟩
  · intro j
    show WriteInv s.snapshots s.owned (Function.update s.writes i w j)
    exact update_cases j hinv fun _ => inv.writes j
  · intro k
    show UploadInv s.owned (Function.update s.writes i w) s.acknowledged s.uploaded s.pending k
    exact { inv.uploads k with
      inFlight := fun j => update_cases j (fun hk hin => hk ▸ hflight hin)
        fun _ => (inv.uploads k).inFlight j
      recorded := fun j => update_cases j (fun hk hpc => hk ▸ hrec hpc)
        fun _ => (inv.uploads k).recorded j }
  · intro k
    by_cases hk : k = w.host
    · subst hk
      exact hshut
    · -- Another session's writes are the same as before.
      have hold : ∀ j, (Function.update s.writes i w j).host = k →
          Function.update s.writes i w j = s.writes j := fun j =>
        update_cases j (fun hw => absurd hw.symm hk) fun _ _ => rfl
      exact .congrWrites hold (inv.shutdown k)

omit inv in
/-- Moving a write to a counted state needs the session not to be quiet;
moving it to the recorded state needs the fence or an earlier count. -/
theorem ShutdownInv.updateWrite {writes : Nat → Write} {acked : List Object}
    {closed : Host → Bool} {d : Shutdown} {w : Write}
    (hquiet : w.InFlight → Quiet writes closed h → w.pc = .putting ∧ closed h = true)
    (hrec : w.pc = .recorded → ¬Quiet writes closed h)
    (hd : ShutdownInv fence owned writes acked closed h d) :
    ShutdownInv fence owned (Function.update writes i w) acked closed h d := by
  refine .imp id ?_ ?_ hd
  · rintro ck ⟨o, ho, hck⟩ hq
    exact ⟨⟨o, ho, { hck with
      recorded := fun j => update_cases j
        (fun _ hpc => absurd hq (hrec hpc)) fun _ => hck.recorded j }⟩,
      fun j => update_cases j (fun _ hin => hquiet hin hq) fun _ => hq j⟩
  · rintro ck hf ⟨o, ho, hck⟩
    exact ⟨o, ho, { hck with recorded := fun _ _ _ => .inl hf }⟩

/-- A write that is not counted, passed or recorded. -/
theorem Inv.moveWrite {w : Write} (hinv : WriteInv s.snapshots s.owned w) (hin : ¬w.InFlight)
    (hrec : w.pc ≠ .recorded) : Inv cfg (s.setWrite i w) := by
  have hpass : ¬w.Passed := by
    rintro (hp | hp)
    · exact hin (.inr (.inr hp))
    · exact hrec hp
  exact inv.setWrite hinv (fun hp => absurd hp hpass)
    (fun hp => absurd hp hin) (fun hp => absurd hp hrec)
    (.updateWrite (fun hp => absurd hp hin)
      (fun hp => absurd hp hrec) (inv.shutdown w.host))

theorem Inv.endWrite : Inv cfg (s.setWrite i Write.none) :=
  inv.moveWrite ⟨by simp [Write.none], by simp [Write.none, Write.Passed]⟩
    (by simp [Write.none, Write.InFlight]) (by simp [Write.none])

theorem Inv.writeBegin {plan : WritePlan} {b : Snapshot} :
    Ensures (Inv cfg) (writeBegin s i h plan b) := by
  have hfence := inv.setFenceOf (ensureAuthority_spec s h).1
  fun_cases Activation.writeBegin s i h plan b with
  | case1 _ fence hauth =>
    rw [hauth] at hfence
    exact hfence
  | case2 _ fence hauth =>
    rw [hauth] at hfence
    exact hfence.moveWrite ⟨by simp, by simp [Write.Passed]⟩
      (by simp [Write.InFlight]) (by simp)
  | case3 => trivial

omit inv in
theorem ensureWriteOwner_eq_true {plan : WritePlan} (hown : s.ensureWriteOwner h plan = true) :
    ∃ o, s.owned h = some o ∧ o.stream = plan.stream ∧ s.now < o.lease.expiresAtMs := by
  revert hown
  fun_cases World.ensureWriteOwner s h plan with
  | case1 => nofun
  | case2 o ho => exact fun hown => ⟨o, ho, of_decide_eq_true hown⟩

theorem Inv.checkOwner : Ensures (Inv cfg) (checkOwner cfg s i) := by
  fun_cases Activation.checkOwner cfg s i with
  | case2 w hguard snapshot hsnap =>
    obtain ⟨o, ho, hstream, -⟩ := ensureWriteOwner_eq_true hguard.2
    refine inv.moveWrite ⟨fun _ _ => ⟨o, ho, ?_⟩, by simp [Write.Passed]⟩
      (by simp [Write.InFlight]) (by simp)
    obtain ⟨hin, -⟩ := Option.ite_none_right_eq_some.mp hsnap
    rw [← hstream] at hin
    exact ⟨hin.1.symm, hin.2⟩
  | _ => trivial

theorem Inv.verifyParent : Ensures (Inv cfg) (verifyParent cfg s i) := by
  fun_cases Activation.verifyParent cfg s i with
  | case1 w hguard =>
    exact inv.moveWrite ⟨fun _ _ => (inv.writes i).owner (by simp [w, hguard.1])
      (by simp [w, hguard.1]), by simp [Write.Passed]⟩ (by simp [Write.InFlight]) (by simp)
  | case2 => trivial

theorem Inv.putReplied : Ensures (Inv cfg) (putReplied s i) := by
  fun_cases Activation.putReplied s i with
  | case1 w hguard =>
    obtain ⟨hpc, hget, hclosed⟩ := hguard
    have hw := inv.writes i
    have hin : (s.writes i).InFlight := .inl hpc
    refine inv.setWrite ⟨fun _ _ => hw.owner (hpc ▸ nofun) (hpc ▸ nofun),
      fun _ => List.mem_of_find?_eq_some hget⟩ ?_ ?_ (by simp) ?_
    · simp [Write.Passed]
    · exact fun _ => (inv.uploads _).inFlight i rfl hin
    · refine .updateWrite (fun _ hq => ?_) (by simp)
        (inv.shutdown (s.writes i).host)
      cases hclosed.symm.trans (hq i rfl hin).2
  | case2 => trivial

/-- The owner is checked again after the upload. -/
theorem Inv.recheckOwner : Ensures (Inv cfg) (recheckOwner s i) := by
  fun_cases Activation.recheckOwner s i with
  | case1 w hguard =>
    obtain ⟨hpc, hown⟩ := hguard
    have hw := inv.writes i
    have hin : (s.writes i).InFlight := .inr (.inl hpc)
    obtain ⟨o, ho, -, hnow⟩ := ensureWriteOwner_eq_true hown
    obtain ⟨p, hp, hepoch, hbase⟩ := hw.owner (hpc ▸ nofun) (hpc ▸ nofun)
    obtain rfl : p = o := Option.some.inj (hp.symm.trans ho)
    refine inv.setWrite ⟨fun _ _ => ⟨p, hp, hepoch, hbase⟩,
      fun _ => hw.stored (.inl hpc)⟩ (fun _ => ?_) ?_ (by simp) ?_
    · cases hf : (s.fence (s.writes i).host).fenced with
      | true => exact .inl rfl
      | false => exact .inr (inv.recheck_covered ho hnow hepoch hf)
    · exact fun _ => (inv.uploads _).inFlight i rfl hin
    · refine .updateWrite (fun _ hq => ?_) (by simp)
        (inv.shutdown (s.writes i).host)
      cases hpc.symm.trans (hq i rfl hin).1
  | case2 => trivial

/-! ## The upload counters and the witness -/

omit inv in
/-- `advance` keeps one of its arguments, and what either covered. -/
theorem advance_spec (a b : Option SnapshotRef) :
    Ensures (fun c => (c = a ∨ c = b) ∧ (∀ x, Covers a x → Covers c x) ∧
      ∀ x, Covers b x → Covers c x) (advance a b) := by
  have hnone : ∀ x c, Covers none x → Covers c x := by
    rintro x c ⟨y, hy, -⟩
    cases hy
  have hsome : ∀ {p q : SnapshotRef}, p.object ≤ q.object → ∀ x, Covers (some p) x →
      Covers (some q) x := by
    rintro p q hle x ⟨y, hy, hxy⟩
    obtain rfl := Option.some.inj hy
    exact ⟨q, rfl, Object.le_trans hxy hle⟩
  fun_cases advance a b with
  | case1 => exact ⟨.inl rfl, fun _ hx => hx, fun x => hnone x _⟩
  | case2 => exact ⟨.inr rfl, fun x => hnone x _, fun _ hx => hx⟩
  | case3 => exact ⟨.inl rfl, fun _ hx => hx, fun _ hx => hx⟩
  | case4 => trivial
  | case5 next held hne hle => exact ⟨.inr rfl, hsome hle, fun _ hx => hx⟩
  | case6 next held hne hnle =>
    refine ⟨.inl rfl, fun _ hx => hx, hsome ?_⟩
    rw [Object.le_def] at hnle ⊢
    omega

/-- The counters and the witness of one session change. -/
theorem Inv.setUploads {u : UploadedSnapshots} {pending : Finset Nat}
    (hcounts : u.completed + pending.card ≤ u.started)
    (hpending : ∀ j, (s.writes j).host = h → (s.writes j).InFlight → j ∈ pending)
    (hkeep : ∀ x, Covers (s.uploaded h).latest x → Covers u.latest x)
    (hlatest : ∀ o, s.owned h = some o → ∀ l, u.latest = some l → o.base = some l ∨
      l.object.epoch = o.epoch ∧ baseVersion o.base < l.object.version)
    (hnone : s.owned h = none → u.latest = none) :
    Inv cfg { s with
      uploaded := Function.update s.uploaded h u
      pending := Function.update s.pending h pending } := by
  refine { inv with owned := ?_, unowned := ?_, uploads := ?_ }
  · intro k o ho
    refine { inv.owned k o ho with latest := ?_ }
    by_cases hk : k = h
    · subst hk
      simpa using hlatest o ho
    · simpa [hk] using (inv.owned k o ho).latest
  · intro k hk
    refine ⟨(inv.unowned k hk).1, ?_⟩
    dsimp only at hk ⊢
    exact update_cases k hnone (fun _ hk => (inv.unowned k hk).2) hk
  · intro k
    have hup := inv.uploads k
    by_cases hk : k = h
    · subst hk
      refine ⟨?_, ?_, ?_, ?_⟩ <;> simp only [Function.update_self]
      · exact hcounts
      · exact hpending
      · exact fun j hj hpc => hkeep _ (hup.recorded j hj hpc)
      · exact fun o ho x hx he => hkeep x (hup.acked o ho x hx he)
    · refine ⟨?_, ?_, ?_, ?_⟩ <;> simp only [Function.update_of_ne hk]
      · exact hup.counts
      · exact hup.inFlight
      · exact hup.recorded
      · exact hup.acked

/-- A put is sent. -/
theorem Inv.sendPut {b : Snapshot} (hb : Based s.history b) :
    Inv cfg { s with puts := b :: s.puts } := by
  refine { inv with stored := ?_ }
  rintro x (hx | hx)
  · exact inv.stored x (.inl hx)
  · rcases List.mem_cons.mp hx with rfl | hx
    · exact hb
    · exact inv.stored x (.inr hx)

/-- Counting an upload. -/
theorem Inv.count :
    Inv cfg { s with
      uploaded := Function.update s.uploaded h
        { s.uploaded h with started := (s.uploaded h).started + 1 }
      pending := Function.update s.pending h (insert i (s.pending h)) } := by
  have hup := inv.uploads h
  refine inv.setUploads ?_ (fun j hj hin => Finset.mem_insert_of_mem (hup.inFlight j hj hin))
    (fun _ hx => hx) (fun o ho => (inv.owned h o ho).latest) fun hnone => (inv.unowned h hnone).2
  have := Finset.card_insert_le i (s.pending h)
  have := hup.counts
  show (s.uploaded h).completed + _ ≤ (s.uploaded h).started + 1
  omega

omit inv in
/-- A put may be sent when the stream is closed already, or when no checkpoint
has been read. -/
theorem ShutdownInv.startWrite {writes : Nat → Write} {acked : List Object}
    {closed : Host → Bool} {d : Shutdown} {w : Write} (hw : w.pc = .putting)
    (hopen : closed h = true ∨ d.sealing = false)
    (hd : ShutdownInv fence owned writes acked closed h d) :
    ShutdownInv fence owned (Function.update writes i w) acked closed h d := by
  rcases hopen with hclosed | hd'
  · exact .updateWrite (fun _ _ => ⟨hw, hclosed⟩) (by simp [hw]) hd
  · have hreleased : ∀ ck, (fence h).fenced = true →
        HasCheckpoint fence owned writes acked h ck →
        HasCheckpoint fence owned (Function.update writes i w) acked h ck := by
      rintro ck hf ⟨o, ho, hck⟩
      exact ⟨o, ho, { hck with recorded := fun _ _ _ => .inl hf }⟩
    cases d with
    | running => trivial
    | closing ck => simp [Shutdown.sealing] at hd'
    | fencing checkpoint =>
      cases checkpoint with
      | none => trivial
      | some ck => simp [Shutdown.sealing] at hd'
    | releasing checkpoint attempt =>
      exact ⟨hd.1, fun ck hck => hreleased ck hd.1 (hd.2 ck hck)⟩
    | swapping checkpoint attempt c =>
      exact ⟨hd.1, fun ck hck => hreleased ck hd.1 (hd.2 ck hck)⟩
    | finished => trivial

/-- The upload is counted as started. -/
theorem Inv.startUpload
    (hopen : s.streamClosed (s.writes i).host = true ∨
      (s.shutdown (s.writes i).host).sealing = false) :
    Ensures (Inv cfg) (startUpload s i) := by
  fun_cases Activation.startUpload s i with
  | case1 w hpc =>
    obtain ⟨o, ho, hepoch, hbase⟩ := (inv.writes i).owner (hpc ▸ nofun) (hpc ▸ nofun)
    obtain ⟨r, hr, hre, -, hro, hrb⟩ := (inv.owned _ o ho).source
    have hbased : Based s.history (s.writes i).bytes :=
      ⟨r, hr, hre.trans hepoch, hro, by rw [hrb]; exact hbase⟩
    have hcount := (inv.sendPut hbased).count (i := i) (h := (s.writes i).host)
    refine hcount.setWrite (w := { s.writes i with pc := .putting })
      ⟨fun _ _ => ⟨o, ho, hepoch, hbase⟩, by simp [Write.Passed]⟩
      (by simp [Write.Passed]) (by simp) (by simp) ?_
    exact .startWrite rfl hopen (inv.shutdown (s.writes i).host)
  | case2 => trivial

/-- Moving the session's witness forward to a snapshot of its own epoch. -/
theorem Inv.advanceLatest {o : Ownership} {b : Snapshot} {latest : Option SnapshotRef}
    (ho : s.owned h = some o) (hepoch : o.epoch = b.ownerEpoch)
    (hbase : baseVersion o.base < b.stateVersion)
    (hadv : advance (s.uploaded h).latest (some (cfg.reference b)) = some latest) :
    Inv cfg { s with
      uploaded := Function.update s.uploaded h
        { s.uploaded h with latest := latest } } := by
  obtain ⟨hone, hkeep, -⟩ := (advance_spec _ _).of_eq hadv
  have hup := inv.uploads h
  have hset := inv.setUploads (u := { s.uploaded h with latest := latest }) hup.counts
    hup.inFlight hkeep (fun p hp l hl => ?_) fun hnone => nomatch hnone.symm.trans ho
  · simpa using hset
  · obtain rfl : o = p := Option.some.inj (ho.symm.trans hp)
    rcases hone with heq | heq
    · exact (inv.owned h o hp).latest l (heq ▸ hl)
    · obtain rfl : cfg.reference b = l := Option.some.inj (heq.symm.trans hl)
      exact .inr ⟨hepoch.symm, hbase⟩

/-- Counting an upload as completed once it is no longer in flight. -/
theorem Inv.complete (hi : i ∈ s.pending h) (hin : ¬(s.writes i).InFlight) :
    Inv cfg { s with
      uploaded := Function.update s.uploaded h
        { s.uploaded h with completed := (s.uploaded h).completed + 1 }
      pending := Function.update s.pending h ((s.pending h).erase i) } := by
  have hup := inv.uploads h
  refine inv.setUploads ?_ (fun j hj hj' => ?_) (fun _ hx => hx)
    (fun o ho => (inv.owned h o ho).latest) fun hnone => (inv.unowned h hnone).2
  · have hpos : 0 < (s.pending h).card := Finset.card_pos.mpr ⟨i, hi⟩
    have herase := Finset.card_erase_of_mem hi
    have := hup.counts
    show (s.uploaded h).completed + 1 + _ ≤ (s.uploaded h).started
    omega
  · refine Finset.mem_erase.mpr ⟨?_, hup.inFlight j hj hj'⟩
    rintro rfl
    exact hin hj'

/-- The upload is counted as completed. -/
theorem Inv.recordUpload : Ensures (Inv cfg) (recordUpload cfg s i) := by
  fun_cases Activation.recordUpload cfg s i with
  | case2 w hpc uploaded latest hadv =>
    have hw := inv.writes i
    have hin : (s.writes i).InFlight := .inr (.inr hpc)
    obtain ⟨o, ho, hepoch, hbase⟩ := hw.owner (hpc ▸ nofun) (hpc ▸ nofun)
    have hcover : Covers latest (s.writes i).bytes.object :=
      ((advance_spec _ _).of_eq hadv).2.2 _ ⟨_, rfl, .inr ⟨rfl, le_rfl⟩⟩
    -- First the witness moves, then the write, then the counter.
    have hadvanced := inv.advanceLatest ho hepoch hbase hadv
    have hmoved := hadvanced.setWrite (i := i)
      (w := { s.writes i with pc := .recorded })
      ⟨fun _ _ => ⟨o, ho, hepoch, hbase⟩, fun _ => hw.stored (.inr (.inl hpc))⟩
      (fun _ => ?_) (by simp [Write.InFlight]) (by simpa using hcover)
      (.updateWrite (by simp [Write.InFlight]) (fun _ hq => ?_)
        (inv.shutdown (s.writes i).host))
    · have hdone := hmoved.complete (h := (s.writes i).host) (i := i)
        ((inv.uploads _).inFlight i rfl hin)
        (by simp [World.setWrite, Write.InFlight])
      simp only [World.setWrite, Function.update_self, Function.update_idem] at hdone
      exact hdone
    · cases hf : (s.fence (s.writes i).host).fenced with
      | true => exact .inl rfl
      | false =>
        have hcov := inv.passed_covered (i := i) (.inl hpc) hf
        exact .inr ⟨hcov.installed, hcov.live, hcov.found⟩
    · cases hpc.symm.trans (hq i rfl hin).1
  | _ => trivial

/-! ## The acknowledgement -/

/-- Answering the caller of a recorded write of an unfenced session. -/
theorem Inv.answer (hpc : (s.writes i).pc = .recorded)
    (hf : (s.fence (s.writes i).host).fenced = false) :
    Inv cfg { s with
      acknowledged := (s.writes i).bytes.object :: s.acknowledged } := by
  have hw := inv.writes i
  have hcov := inv.passed_covered (i := i) (.inr hpc) hf
  obtain ⟨o, ho, hepoch, -⟩ := hw.owner (by simp [hpc]) (by simp [hpc])
  have hhost : ∀ k p, s.owned k = some p →
      (s.writes i).bytes.object.epoch = p.epoch → (s.writes i).host = k :=
    fun k p hp he => inv.owner_unique ho hp (hepoch.trans he)
  have hck : ∀ k ck,
      HasCheckpoint s.fence s.owned s.writes s.acknowledged k ck →
      HasCheckpoint s.fence s.owned s.writes
        ((s.writes i).bytes.object :: s.acknowledged) k ck := by
    rintro k ck ⟨p, hp, hck⟩
    refine ⟨p, hp, { hck with acked := ?_ }⟩
    intro x hx he
    rcases List.mem_cons.mp hx with rfl | hx
    · obtain rfl := hhost k p hp he
      exact (hck.recorded i rfl hpc).resolve_left (by simp [hf])
    · exact hck.acked x hx he
  refine { inv with
    registration := ?_, accounts := ?_, live := ?_, acked := ?_, uploads := ?_
    shutdown := ?_ }
  · intro k
    refine inv.keep { Keeps.refl s k (s.registration k) with found := ?_ }
      (inv.registration k)
    intro started g p record recovered hr _ hg hall
    refine { hall hg with acked := ?_ }
    intro x hx he
    rcases List.mem_cons.mp hx with rfl | hx
    · exact hcov.found k started g p record recovered hr hg he
    · exact (hall hg).acked x hx he
  · intro r hr
    refine { inv.accounts r hr with acked := ?_ }
    intro x hx
    rcases List.mem_cons.mp hx with rfl | hx
    · exact hcov.installed r hr
    · exact (inv.accounts r hr).acked x hx
  · intro c hc hl
    refine ⟨{ (inv.live c hc hl).1 with acked := ?_ }, (inv.live c hc hl).2⟩
    intro x hx
    rcases List.mem_cons.mp hx with rfl | hx
    · exact hcov.live c hc hl
    · exact (inv.live c hc hl).1.acked x hx
  · intro x hx
    rcases List.mem_cons.mp hx with rfl | hx
    · exact ⟨⟨_, hw.stored (.inr (.inr hpc)), rfl⟩, ⟨_, o, ho, hepoch⟩⟩
    · exact inv.acked x hx
  · intro k
    refine { inv.uploads k with acked := ?_ }
    intro p hp x hx he
    rcases List.mem_cons.mp hx with rfl | hx
    · obtain rfl := hhost k p hp he
      exact (inv.uploads _).recorded i rfl hpc
    · exact (inv.uploads k).acked p hp x hx he
  · exact fun k => .imp id
      (fun ck hk hq => ⟨hck k ck hk, hq⟩) (fun ck _ hk => hck k ck hk)
      (inv.shutdown k)

theorem Inv.acknowledge : Ensures (Inv cfg) (acknowledge s i) := by
  have hspec := ensureAuthority_spec s (s.writes i).host
  have hfence := inv.setFenceOf hspec.1
  fun_cases Activation.acknowledge s i with
  | case1 w hpc fence hauth =>
    rw [hauth] at hfence
    exact (hfence.endWrite (i := i)).setStop _
  | case2 w hpc fence hauth =>
    rw [hauth] at hfence hspec
    exact (hfence.answer (i := i) hpc
      (by simpa [World.setFenceOf] using hspec.2 rfl)).endWrite (i := i)
  | case3 => trivial

theorem Inv.failWrite : Ensures (Inv cfg) (failWrite s i) := by
  fun_cases Activation.failWrite s i with
  | case1 => trivial
  | case2 => exact (inv.endWrite (i := i)).setStop _

end DurableActors.Ports.Activation
