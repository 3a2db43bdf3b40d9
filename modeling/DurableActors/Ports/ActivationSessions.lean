import DurableActors.Ports.ActivationWrites

/-!
# Registrations and shutdowns keep the ownership invariant

The steps that send a claim are the ones with content: each has to show that
the record it sends accounts for every acknowledged write, provided the
generation it names is still current when it is sent.
-/

namespace DurableActors.Ports.Activation

open Verified
open Verified.Transition (Ensures update_cases)

variable {cfg : Config} {s : World} {h : Host}
variable {p r record : Ownership} {checkpoint : Option (Option SnapshotRef)}

/-! ## Small facts about the stores -/

theorem newLease_eq_some {now : Nat} {lease : HostLease} (hl : newLease cfg h now = some lease) :
    lease.session = h ∧ lease.expiresAtMs = now + cfg.durationMs lease.session ∧
      lease.expiresAtMs ≠ 0 := by
  obtain ⟨hd, hl⟩ := Option.ite_none_right_eq_some.mp hl
  obtain rfl := Option.some.inj hl
  exact ⟨rfl, rfl, by simp only; omega⟩

theorem activationRecord_spec (cfg : Config) (h : Host) (now : Nat) (current : Option Ownership) :
    Ensures (fun record => record.isSealed = false ∧ newLease cfg h now = some record.lease ∧
      record.base = current.bind Ownership.base ∧
      record.epoch = current.elim 1 fun p => p.epoch + 1) (activationRecord cfg h now current) := by
  fun_cases activationRecord cfg h now current with
  | case2 lease hlease | case3 lease hlease => exact ⟨rfl, hlease, rfl, rfl⟩
  | _ => trivial

theorem latest_mem {epoch : Nat} {b : Snapshot} (hb : s.latest epoch = some b) :
    b ∈ s.snapshots ∧ b.ownerEpoch = epoch := by
  have hmem := List.argmax_mem (Option.mem_def.mpr hb)
  simpa using List.mem_filter.mp hmem

theorem latest_ge {b : Snapshot} (hb : b ∈ s.snapshots) :
    ∃ x, s.latest b.ownerEpoch = some x ∧ b.stateVersion ≤ x.stateVersion := by
  have hmem : b ∈ s.snapshots.filter
      fun x => decide (x.ownerEpoch = b.ownerEpoch) := by simp [hb]
  cases hl : s.latest b.ownerEpoch with
  | none =>
    have hnil := List.argmax_eq_none.mp hl
    rw [hnil] at hmem
    simp at hmem
  | some x => exact ⟨x, rfl, List.le_of_mem_argmax hmem (Option.mem_def.mpr hl)⟩

theorem loadLatest_advance (s : World) (base : Option SnapshotRef) (recovered : Option Snapshot) :
    Ensures (fun result => advance base (recovered.map cfg.reference) = some result)
      (s.loadLatest cfg base recovered) := by
  fun_cases World.loadLatest cfg s base recovered with
  | case2 hadv => exact hadv
  | case3 candidate hadv | case4 candidate hadv => exact hadv
  | _ => trivial

/-! ## Sending a claim -/

variable (inv : Inv cfg s)
include inv

/-- A record under a fresh mutation has not been installed. -/
theorem Inv.fresh (hr : r.mutation = s.mutations) : r ∉ s.history := by
  intro hmem
  have := (inv.records r hmem).minted
  omega

/-- The registration waits for the takeover it just sent. -/
theorem Inv.sendTakeover {c : Claim} {started : Nat} {hinted joined : Bool}
    (hnone : s.owned c.host = none) (hmut : c.record.mutation = s.mutations)
    (hopen : c.record.isSealed = false) (hpos : c.record.lease.expiresAtMs ≠ 0)
    (hsound : c.Sound cfg s.now s.history (s.mutations + 1))
    (hacc : c.Live s.history → Accounts s.fence s.writes s.acknowledged c.record)
    (hsender : RegistrationInv cfg (s.send c) c.host (s.registration c.host)) :
    Inv cfg ((s.send c).setRegistration c.host (.claiming started hinted joined c)) := by
  have hsend := inv.send hsound hacc (fun hz => absurd hz hpos) (by simp [hnone]) hsender
  have hout : c.record ∉ s.history := inv.fresh hmut
  refine hsend.setRegistration
    ⟨hnone, List.mem_cons_self, rfl, hopen, fun hm => absurd hm hout⟩ fun o ho hm => ?_
  exact absurd hm (Option.some.inj ho ▸ hout)

omit inv in
theorem WriteInv.owner_of_passed {snapshots : List Snapshot} {owned : Host → Option Ownership}
    {w : Write} (hw : WriteInv snapshots owned w) (hp : w.Passed) :
    ∃ o, owned w.host = some o ∧ o.epoch = w.bytes.ownerEpoch ∧
      baseVersion o.base < w.bytes.stateVersion := by
  rcases hp with hp | hp <;> exact hw.owner (by simp [hp]) (by simp [hp])

/-- Nothing can have been acknowledged while no record was installed. -/
theorem Inv.accounts_of_nil (hnil : s.history = [])
    (r : Ownership) : Accounts s.fence s.writes s.acknowledged r := by
  have hnone : ∀ k o, s.owned k ≠ some o := by
    intro k o ho
    obtain ⟨p, hp, -⟩ := (inv.owned k o ho).source
    simp [hnil] at hp
  refine ⟨fun x hx => ?_, fun i hi => ?_⟩
  · obtain ⟨k, o, ho, -⟩ := (inv.acked x hx).owner
    exact absurd ho (hnone k o)
  · obtain ⟨o, ho, -⟩ := (inv.writes i).owner_of_passed hi
    exact absurd ho (hnone _ o)

omit inv in
/-- A takeover answers for what its predecessor answered for and for the
predecessor's own epoch. -/
theorem Accounts.takeover {fence : Host → LeaseFence} {writes : Nat → Write}
    {acked : List Object} (hp : Accounts fence writes acked p)
    (hepoch : r.epoch = p.epoch + 1) (hopen : r.isSealed = false)
    (hkeep : ∀ x, Covers p.base x → Covers r.base x) (hacked : ∀ x ∈ acked, x.epoch = p.epoch →
      p.isSealed = true ∨ Covers r.base x) (hpassed : ∀ i, (writes i).Passed →
      (fence (writes i).host).fenced = true ∨ ((writes i).bytes.ownerEpoch = p.epoch →
          p.isSealed = true ∨ Covers r.base (writes i).bytes.object)) :
    Accounts fence writes acked r := by
  have hsplit : ∀ x, r.Answers x → x.epoch < p.epoch ∨ x.epoch = p.epoch := by
    rintro x (hx | ⟨hx, -⟩)
    · omega
    · simp [hopen] at hx
  refine ⟨fun x hx hans => ?_, fun i hi => ?_⟩
  · rcases hsplit x hans with hlt | heq
    · exact hkeep x (hp.acked x hx (.inl hlt))
    · rcases hacked x hx heq with hs | hc
      · exact hkeep x (hp.acked x hx (.inr ⟨hs, heq⟩))
      · exact hc
  · rcases hp.passed i hi with hf | hcov
    · exact .inl hf
    · refine (hpassed i hi).imp_right fun hown hans => ?_
      rcases hsplit _ hans with hlt | heq
      · exact hkeep _ (hcov (.inl hlt))
      · rcases hown heq with hs | hc
        · exact hkeep _ (hcov (.inr ⟨hs, heq⟩))
        · exact hc

/-! ## Registration steps -/

omit inv in
/-- `begin` fails exactly when it leaves the session fenced. -/
theorem LeaseFence.begin_spec (f : LeaseFence) (now : Nat) :
    (f.fenced = true → (f.begin now).1.fenced = true) ∧
      (f.begin now).2 = !(f.begin now).1.fenced := by
  fun_cases LeaseFence.begin f now with
  | case1 => exact ⟨id, rfl⟩
  | case2 deadline hd =>
    refine ⟨(f.check_spec now).1, ?_⟩
    rw [LeaseFence.check, hd]

/-- What the invariant says of a registration. -/
theorem Inv.registrationAt {r : Registration} (hr : s.registration h = r) :
    RegistrationInv cfg s h r := hr ▸ inv.registration h

/-- `register` up to its first await. -/
theorem Inv.register {newActor : Bool} {hint : Option (Nat × Ownership)} :
    Ensures (Inv cfg) (register cfg s h newActor hint) := by
  have hspec := (s.fence h).begin_spec s.now
  have hfence := inv.setFenceOf hspec.1
  fun_cases Activation.register cfg s h newActor hint with
  | case1 => trivial
  | case2 hguard fence hbegin =>
    rw [hbegin] at hfence
    exact hfence
  | case3 hguard fence hbegin s' hlease =>
    rw [hbegin] at hfence hspec
    rw [not_or, not_not, not_not] at hguard
    refine hfence.moveRegistration ⟨?_, fun g r hr => ?_⟩ rfl
    · -- Once a record is adopted, the lease is kept or the session fenced.
      by_contra hown
      rcases hfence.registrationAt hguard.1 hown with hl | hf
      · exact hl hlease
      · have hdown : fence.fenced = false := by simpa using hspec.2
        simp [World.setFenceOf, hdown] at hf
    · have hall := hguard.2
      rw [(Option.filter_eq_some_iff.mp hr).1] at hall
      exact of_decide_eq_true hall
  | case4 hguard fence hbegin s' lease hlease =>
    rw [hbegin] at hfence
    exact hfence.moveRegistration (fun hnone => Option.some_ne_none _ (hlease.symm.trans hnone)) rfl

theorem Inv.readOwner : Ensures (Inv cfg) (readOwner s h) := by
  fun_cases Activation.readOwner s h with
  | case1 _ _ _ hr =>
    have hreg := inv.registrationAt hr
    exact inv.moveRegistration ⟨hreg.1, hreg.2⟩ rfl
  | case2 _ hr => exact inv.moveRegistration ⟨(inv.registrationAt hr).1, nofun⟩ rfl
  | case3 _ hr =>
    exact inv.moveRegistration ⟨(inv.registrationAt hr).1,
      fun _ _ hl => VersionedCell.valueAt_of_load hl⟩ rfl
  | case4 => trivial

theorem Inv.validate : Ensures (Inv cfg) (validate cfg s h) := by
  fun_cases Activation.validate cfg s h with
  | case1 started hinted current hr hvalid =>
    have hreg := inv.registrationAt hr
    refine inv.moveRegistration ⟨hreg.1, fun g r hc => ⟨hreg.2 g r hc, ?_⟩⟩ rfl
    subst hc
    have := of_decide_eq_true hvalid
    exact this.2.2
  | _ => trivial

/-- The claim of a new actor, or of the successor of a sealed record, needs
no log. -/
theorem Inv.stampSend {current : Option (Nat × Ownership)}
    {record : Ownership} {c : Claim} {started : Nat} {hinted joined : Bool}
    (hnone : s.owned h = none) (hcurrent : ∀ g r, current = some (g, r) →
      VersionedCell.valueAt s.history g = some r ∧ r.lease.expiresAtMs ≤ s.now ∧ r.isSealed = true)
    (hrecord : activationRecord cfg h s.now (current.map Prod.snd) = some record)
    (hc : c = ⟨h, current.map Prod.fst, { record with mutation := s.mutations }⟩)
    (hsender : RegistrationInv cfg (s.send c) c.host (s.registration c.host)) :
    Inv cfg ((s.send c).setRegistration c.host (.claiming started hinted joined c)) := by
  obtain ⟨hopen, hlease, hbase, hepoch⟩ := (activationRecord_spec ..).of_eq hrecord
  obtain ⟨hsession, hexp, hpos⟩ := newLease_eq_some hlease
  subst hc
  cases current with
  | none =>
    refine inv.sendTakeover hnone rfl hopen hpos ⟨hsession, ⟨hexp.le, by simp [hopen],
      by simp [hbase], Nat.lt_succ_self _⟩, .inl rfl⟩ (fun hlive => ?_) hsender
    exact inv.accounts_of_nil (VersionedCell.generation_eq_none.mp hlive.symm) _
  | some read =>
    obtain ⟨g, p⟩ := read
    obtain ⟨hread, hexpired, hsealed⟩ := hcurrent g p rfl
    have hmem := VersionedCell.valueAt_mem hread
    replace hbase : record.base = p.base := hbase
    replace hepoch : record.epoch = p.epoch + 1 := hepoch
    refine inv.sendTakeover hnone rfl hopen hpos ⟨hsession, ⟨hexp.le, by simp [hopen], ?_,
      Nat.lt_succ_self _⟩, .inr ⟨g, p, rfl, hread, .inl
        ⟨hepoch, hexpired, hopen, by rw [hbase]⟩⟩⟩ (fun _ => ?_) hsender
    · intro b hb
      refine .inl ?_
      rcases (inv.records p hmem).based b (hbase ▸ hb) with h | ⟨-, h⟩ <;>
        simp only <;> omega
    · exact (inv.accounts p hmem).takeover hepoch hopen
        (fun x hx => by rw [hbase]; exact hx) (fun _ _ _ => .inl hsealed)
        (fun _ _ => .inr fun _ => .inl hsealed)

theorem Inv.stamp : Ensures (Inv cfg) (stamp cfg s h) := by
  fun_cases Activation.stamp cfg s h with
  | case2 started hinted record g p hsealed hr hrecord =>
    have hreg := inv.registrationAt hr
    refine inv.stampSend hreg.1 (fun g' p' he => ?_) hrecord rfl (by rw [hr]; exact hreg)
    obtain ⟨rfl, rfl⟩ := Prod.mk.inj (Option.some.inj he)
    exact ⟨(hreg.2 g p rfl).1, (hreg.2 g p rfl).2, hsealed⟩
  | case3 started hinted record g p hsealed hr hrecord =>
    obtain ⟨hnone, hcurrent⟩ := inv.registrationAt hr
    obtain ⟨hread, hexpired⟩ := hcurrent g p rfl
    obtain ⟨hopen, hlease, hbase, hepoch⟩ := (activationRecord_spec ..).of_eq hrecord
    obtain ⟨hsession, hexp, hpos⟩ := newLease_eq_some hlease
    exact inv.moveRegistration ⟨hnone, hread, hexpired,
      ⟨by simpa using hsealed, hopen⟩, hepoch, hsession, hexp.le, hpos⟩ rfl
  | case4 started hinted record hr hrecord =>
    have hreg := inv.registrationAt hr
    exact inv.stampSend hreg.1 (by simp) hrecord rfl (by rw [hr]; exact hreg)
  | _ => trivial

/-- Listing the log of an expired owner finds every write it could have
acknowledged. -/
theorem Inv.listLog : Ensures (Inv cfg) (listLog s h) := by
  fun_cases Activation.listLog s h with
  | case1 started g p record hr =>
    obtain ⟨hnone, hcand⟩ := inv.registrationAt hr
    refine inv.moveRegistration
      ⟨hnone, hcand, fun b hb => latest_mem hb, fun _ => ⟨fun x hx hxe => ?_, fun i hi =>
        .inr fun hie => ?_⟩⟩ rfl
    · obtain ⟨b, hb, rfl⟩ := (inv.acked x hx).stored
      obtain ⟨y, hy, hle⟩ := latest_ge hb
      exact ⟨y, hxe ▸ hy, hle⟩
    · obtain ⟨y, hy, hle⟩ := latest_ge ((inv.writes i).stored (.inr hi))
      exact ⟨y, hie ▸ hy, hle⟩
  | case2 => trivial

/-- The base recovered from the log of the unsealed record `p`. -/
theorem Inv.recovered_base {g : Nat} {recovered : Option Snapshot}
    {base : Option SnapshotRef} (hcand : Candidate s.now s.history cfg h g p record)
    (hrec : ∀ b, recovered = some b → b ∈ s.snapshots ∧ b.ownerEpoch = p.epoch)
    (hbase : advance p.base (recovered.map cfg.reference) = some base) :
    baseVersion p.base ≤ baseVersion base ∧ ∀ b, base = some b → b.object.epoch ≤ p.epoch := by
  have hmem := VersionedCell.valueAt_mem hcand.read
  obtain ⟨rfl | heq, -, -⟩ := (advance_spec _ _).of_eq hbase
  · refine ⟨le_rfl, fun b hb => ?_⟩
    rcases (inv.records p hmem).based b hb with h | ⟨-, h⟩ <;> omega
  · cases recovered with
    | none =>
      obtain rfl : p.base = base := by simpa [advance] using hbase
      simp [heq]
    | some b =>
      obtain ⟨hb, hbe⟩ := hrec b rfl
      obtain ⟨r, hr, hre, hro, hlt⟩ := inv.stored b (.inl hb)
      have hbase' := inv.base_unique hr hmem (hre.trans hbe) hro
        hcand.unsealed.1
      subst heq
      refine ⟨?_, ?_⟩
      · rw [← hbase']
        exact hlt.le
      · rintro x hx
        obtain rfl := Option.some.inj hx
        exact hbe.le

/-- The claim is sent with the base that was loaded. -/
theorem Inv.loadBase : Ensures (Inv cfg) (loadBase cfg s h) := by
  fun_cases Activation.loadBase cfg s h with
  | case2 started g p record recovered hr base hload =>
    obtain ⟨hnone, hcand, hrec, hfoundAll⟩ := inv.registrationAt hr
    have hadv := (loadLatest_advance ..).of_eq hload
    obtain ⟨-, hkeep, hfound⟩ := (advance_spec _ _).of_eq hadv
    obtain ⟨hversion, hepoch⟩ := inv.recovered_base hcand hrec hadv
    have hmem := VersionedCell.valueAt_mem hcand.read
    refine inv.sendTakeover hnone rfl hcand.unsealed.2 hcand.positive ⟨hcand.session,
      ⟨hcand.bounded, (fun hs => nomatch hcand.unsealed.2.symm.trans hs), ?_,
        Nat.lt_succ_self _⟩, .inr ⟨g, p, rfl, hcand.read, .inl
        ⟨hcand.epoch, hcand.expired, hcand.unsealed.2, hversion⟩⟩⟩ (fun hlive => ?_)
      (by rw [hr]; exact ⟨hnone, hcand, hrec, hfoundAll⟩)
    · intro b hb
      have := hepoch b hb
      have := hcand.epoch
      show b.object.epoch < record.epoch ∨ _
      omega
    · have hall := hfoundAll hlive
      have hcover : ∀ x : Object, x.epoch = p.epoch →
          (∃ b, recovered = some b ∧ x.version ≤ b.stateVersion) →
          Covers base x := by
        rintro x hx ⟨b, rfl, hle⟩
        refine hfound x ⟨cfg.reference b, rfl, .inr ⟨?_, hle⟩⟩
        exact hx.trans (hrec b rfl).2.symm
      refine (inv.accounts p hmem).takeover hcand.epoch hcand.unsealed.2 hkeep
        (fun x hx hxe => .inr (hcover x hxe (hall.acked x hx hxe)))
        (fun i hi => (hall.passed i hi).imp_right fun hown hie =>
          .inr (hcover _ hie (hown hie)))
  | _ => trivial

/-- The claim of the activation is answered. -/
theorem Inv.claimReplied {replaced recovered : Bool} :
    Ensures (Inv cfg) (claimReplied cfg s h replaced recovered) := by
  fun_cases Activation.claimReplied cfg s h replaced recovered with
  | case1 started hinted joined c hr hanswer =>
    obtain ⟨hnone, hc, hhost, hopen, hall⟩ := inv.registrationAt hr
    cases replaced with
    | false =>
      cases hinted with
      | false => exact inv.endRegistration (by simp [hr])
      | true => exact inv.moveRegistration ⟨hnone, nofun⟩ rfl
    | true =>
      have hmem : c.record ∈ s.history := hanswer.1
      obtain ⟨hlease, hnewest⟩ := hall hmem
      have hwon : Won s.history s.requests h c.record :=
        ⟨hmem, (inv.requests c hc).session.trans hhost, hopen, hnewest⟩
      by_cases hfail : joined = true ∧ ¬recovered = true
      · simp only [if_true, if_pos hfail]
        exact inv.moveRegistration ⟨hnone, hwon⟩ rfl
      · simp only [if_true, if_neg hfail]
        exact inv.setRegistration ⟨hnone, hlease, hwon⟩ fun o ho _ => hr ▸ ho
  | _ => trivial

/-! ### Another local record -/

/-- Every session keeps its record, or has one with the same epoch and base. -/
def Retains (owned owned' : Host → Option Ownership) : Prop :=
  ∀ k p, owned k = some p → ∃ q, owned' k = some q ∧ q.epoch = p.epoch ∧ q.base = p.base

omit inv in
theorem update_eq_some {owned : Host → Option Ownership} {k : Host} {o : Ownership}
    (ho : Function.update owned h (some record) k = some o) :
    k = h ∧ o = record ∨ k ≠ h ∧ owned k = some o := by
  by_cases hk : k = h
  · subst hk
    exact .inl ⟨rfl, by simpa [eq_comm] using ho⟩
  · exact .inr ⟨hk, by simpa [hk] using ho⟩

section

variable {owned' : Host → Option Ownership} (hkeep : Retains s.owned owned')
include hkeep

theorem Inv.writes_of_retains (i : Nat) : WriteInv s.snapshots owned' (s.writes i) := by
  refine { inv.writes i with owner := fun hi he => ?_ }
  obtain ⟨p, hp, hpe, hpb⟩ := (inv.writes i).owner hi he
  obtain ⟨q, hq, hqe, hqb⟩ := hkeep _ p hp
  exact ⟨q, hq, hqe.trans hpe, hqb ▸ hpb⟩

theorem Inv.acked_of_retains {x : Object} (hx : x ∈ s.acknowledged) :
    AckInv s.snapshots owned' x := by
  obtain ⟨k, p, hp, hpe⟩ := (inv.acked x hx).owner
  obtain ⟨q, hq, hqe, -⟩ := hkeep k p hp
  exact { inv.acked x hx with owner := ⟨k, q, hq, hqe.trans hpe⟩ }

theorem Inv.shutdown_of_retains (k : Host) :
    ShutdownInv s.fence owned' s.writes s.acknowledged s.streamClosed k (s.shutdown k) := by
  have hcheck : ∀ ck, HasCheckpoint s.fence s.owned s.writes s.acknowledged k ck →
      HasCheckpoint s.fence owned' s.writes s.acknowledged k ck := by
    rintro ck ⟨p, hp, hck⟩
    obtain ⟨q, hq, hqe, hqb⟩ := hkeep k p hp
    exact ⟨q, hq, by rw [hqb]; exact hck.base, by rw [hqb]; exact hck.covers,
      by rw [hqe]; exact hck.epoch, by rw [hqe]; exact hck.acked, hck.recorded⟩
  exact .imp id (fun ck hck hq => ⟨hcheck ck hck, hq⟩) (fun ck _ hck => hcheck ck hck)
    (inv.shutdown k)

end

/-- A session that adopts its first record has no write recorded and none acknowledged. -/
theorem Inv.uploads_adopt (hnone : s.owned h = none) (hmem : record ∈ s.history)
    (hsession : record.lease.session = h) :
    UploadInv (Function.update s.owned h (some record)) s.writes s.acknowledged
      (Function.update s.uploaded h { s.uploaded h with latest := record.base }) s.pending h := by
  have hup := inv.uploads h
  refine ⟨by simpa using hup.counts, hup.inFlight, ?_, ?_⟩
  · intro i hi hpc
    obtain ⟨o, ho, -⟩ := (inv.writes i).owner (by simp [hpc]) (by simp [hpc])
    rw [hi, hnone] at ho
    cases ho
  · intro o ho x hx he
    obtain ⟨-, rfl⟩ | ⟨hk, -⟩ := update_eq_some ho
    · obtain ⟨j, p, hp, hpe⟩ := (inv.acked x hx).owner
      obtain ⟨r, hr', hre, hrs, -⟩ := (inv.owned j p hp).source
      have hj : j = h := by
        rw [← hrs, ← hsession]
        exact inv.session_unique hr' hmem (by omega)
      rw [hj, hnone] at hp
      cases hp
    · exact absurd rfl hk

/-- The claimed record becomes the local one. -/
theorem Inv.adopt : Ensures (Inv cfg) (adopt s h) := by
  fun_cases Activation.adopt s h with
  | case2 => trivial
  | case1 started record hr =>
    obtain ⟨hnone, hlease, hmem, hsession, hopen, hnewest⟩ := inv.registrationAt hr
    obtain ⟨-, hlatest⟩ := inv.unowned h hnone
    rw [hlatest, show (record.base <|> none) = record.base by cases record.base <;> rfl]
    -- The session owned nothing before, so nothing else speaks about it yet.
    have hkeep : Retains s.owned (Function.update s.owned h (some record)) := by
      intro k o ho
      have hk : k ≠ h := by
        rintro rfl
        simp [hnone] at ho
      exact ⟨o, by simpa [hk] using ho, rfl, rfl⟩
    refine { inv with
      owned := ?_, unowned := ?_, registration := ?_, live := ?_
      writes := inv.writes_of_retains hkeep
      acked := fun x hx => inv.acked_of_retains hkeep hx
      uploads := ?_
      shutdown := inv.shutdown_of_retains hkeep }
    · intro k o ho
      rcases update_eq_some ho with ⟨rfl, rfl⟩ | ⟨hk, ho⟩
      · exact ⟨hsession, ⟨o, hmem, rfl, hsession, hopen, rfl⟩,
          fun l hl => .inl (by simpa using hl), hlease, hnewest⟩
      · exact { inv.owned k o ho with
          latest := by simpa [hk] using (inv.owned k o ho).latest }
    · intro k hk
      have hkh : k ≠ h := by
        rintro rfl
        simp at hk
      simpa [hkh] using inv.unowned k (by simpa [hkh] using hk)
    · intro k
      dsimp only
      refine update_cases k (by simp [RegistrationInv]) fun hk => ?_
      exact inv.keep { Keeps.refl s k (s.registration k) with owned := by simp [hk] }
        (inv.registration k)
    · intro c hc hl
      refine ⟨(inv.live c hc hl).1, fun hz => ?_⟩
      rcases (inv.live c hc hl).2 hz with hf | ⟨hout, hpend⟩
      · exact .inl hf
      · by_cases hk : c.host = h
        · refine absurd hmem (hpend record ?_)
          rw [hk, hr]
          rfl
        · exact .inr (by simpa [hk] using ⟨hout, hpend⟩)
    · intro k
      by_cases hk : k = h
      · rw [hk]
        exact inv.uploads_adopt hnone hmem hsession
      · have hup := inv.uploads k
        exact ⟨by simpa [hk] using hup.counts, hup.inFlight, by simpa [hk] using hup.recorded,
          by simpa [hk] using hup.acked⟩

omit inv in
/-- So does a confirmation. -/
theorem LeaseFence.confirm_spec (f : LeaseFence) (started d now : Nat) :
    (f.fenced = true → (f.confirm started d now).1.fenced = true) ∧
      (f.confirm started d now).2 = !(f.confirm started d now).1.fenced := by
  have hspec := f.begin_spec now
  fun_cases LeaseFence.confirm f started d now with
  | case1 g hg =>
    rw [hg] at hspec
    exact hspec
  | case2 g hg =>
    rw [hg] at hspec
    unfold LeaseFence.arm
    split
    · exact ⟨fun _ => rfl, rfl⟩
    · exact hspec

/-- The lease of the installed record is confirmed. -/
theorem Inv.confirm : Ensures (Inv cfg) (confirm cfg s h) := by
  fun_cases Activation.confirm cfg s h with
  | case1 started lease hr fence hconf =>
    have hspec := (s.fence h).confirm_spec started (cfg.durationMs h) s.now
    have hfence := inv.setFenceOf hspec.1
    rw [hconf] at hfence hspec
    refine hfence.moveRegistration (fun _ => .inr ?_) rfl
    simpa [World.setFenceOf] using hspec.2
  | case2 started lease hr fence hconf =>
    have hspec := (s.fence h).confirm_spec started (cfg.durationMs h) s.now
    have hfence := inv.setFenceOf hspec.1
    rw [hconf] at hfence
    -- Keep the lease first, then end the call.
    have hkept : Inv cfg { s.setFenceOf h fence with
        lease := Function.update s.lease h (some lease) } := by
      refine { hfence with unowned := ?_, registration := ?_ }
      · intro k hk
        have hkh : k ≠ h := by
          rintro rfl
          exact inv.registrationAt hr hk
        simpa [hkh, World.setFenceOf] using hfence.unowned k hk
      · intro k
        refine hfence.keep { Keeps.refl _ k (s.registration k) with lease := ?_ }
          (hfence.registration k)
        show s.lease k ≠ none → Function.update s.lease h (some lease) k ≠ none
        exact update_cases k (by simp) fun _ hl => hl
    exact hkept.moveRegistration (fun _ => .inl (by simp)) rfl
  | case3 => trivial

theorem Inv.failRegistration : Ensures (Inv cfg) (failRegistration s h) := by
  fun_cases Activation.failRegistration s h with
  | case3 _ hnot => exact inv.endRegistration hnot
  | _ => trivial

/-! ## Releases -/

omit inv in
/-- The claim of a release, read off the current record. -/
theorem releaseClaim_spec (s : World) (h : Host) (checkpoint : Option (Option SnapshotRef)) :
    Ensures (fun c => ∃ p, s.history.getLast? = some p ∧ p.lease.session = h ∧
      p.lease.expiresAtMs ≠ 0 ∧ c = ⟨h, some s.history.length, { p with
        lease := { p.lease with expiresAtMs := 0 }
        mutation := s.mutations
        base := checkpoint.getD p.base
        isSealed := checkpoint.isSome || p.isSealed }⟩) (s.releaseClaim h checkpoint) := by
  fun_cases World.releaseClaim s h checkpoint with
  | case3 g p hload hguard | case4 g p hload hguard =>
    obtain ⟨rfl, hlast⟩ := VersionedCell.load_eq_some.mp hload
    rw [not_or, not_not] at hguard
    exact ⟨p, hlast, hguard.1, hguard.2, rfl⟩
  | _ => trivial

/-- The part of a release that does not depend on who asks for it. -/
theorem Inv.release_sound {c : Claim}
    (hlast : s.history.getLast? = some p) (hsession : p.lease.session = h)
    (hexp : p.lease.expiresAtMs ≠ 0) (hc : c = ⟨h, some s.history.length, { p with
      lease := { p.lease with expiresAtMs := 0 }
      mutation := s.mutations
      base := checkpoint.getD p.base
      isSealed := checkpoint.isSome || p.isSealed }⟩)
    (hck : ∀ ck, checkpoint = some ck → baseVersion p.base ≤ baseVersion ck ∧
        ∀ b, ck = some b → b.object.epoch ≤ p.epoch) :
    c.Sound cfg s.now s.history (s.mutations + 1) := by
  have hmem : p ∈ s.history := List.mem_of_getLast? hlast
  have hopen : p.isSealed = false := by
    by_contra hs
    exact hexp ((inv.records p hmem).released (by simpa using hs))
  have hread : VersionedCell.valueAt s.history s.history.length = some p := by
    rw [← VersionedCell.getLast?_eq_valueAt, hlast]
  subst hc
  refine ⟨hsession, ⟨Nat.zero_le _, fun _ => rfl, ?_, Nat.lt_succ_self _⟩,
    .inr ⟨_, p, rfl, hread, .inr (.inr ⟨rfl, hsession, hopen, rfl, ?_, ?_⟩)⟩⟩
  · intro b hb
    cases checkpoint with
    | none =>
      rcases (inv.records p hmem).based b hb with h | ⟨hs, -⟩
      · exact .inl h
      · simp [hopen] at hs
    | some ck =>
      have := (hck ck rfl).2 b hb
      rcases Nat.lt_or_eq_of_le this with h | h
      · exact .inl h
      · exact .inr ⟨by simp, h⟩
  · cases checkpoint with
    | none => exact le_rfl
    | some ck => exact (hck ck rfl).1
  · cases checkpoint with
    | none => exact .inr rfl
    | some ck => exact .inl (by simp)

/-- A release answers for what the record it ends answered for; with a
checkpoint it also answers for the record's own epoch. -/
theorem Inv.release_accounts (hmem : p ∈ s.history) (hepoch : r.epoch = p.epoch)
    (hsealed : r.isSealed = true → checkpoint.isSome = true)
    (hbase : r.base = checkpoint.getD p.base)
    (hkeep : ∀ ck, checkpoint = some ck → ∀ x, Covers p.base x → Covers ck x)
    (hacked : ∀ ck, checkpoint = some ck → ∀ x ∈ s.acknowledged, x.epoch = p.epoch → Covers ck x)
    (hpassed : checkpoint.isSome = true → ∀ i, (s.writes i).Passed →
      (s.writes i).bytes.ownerEpoch = p.epoch → (s.fence (s.writes i).host).fenced = true) :
    Accounts s.fence s.writes s.acknowledged r := by
  have hcovers : ∀ x, Covers p.base x → Covers r.base x := by
    intro x hx
    rw [hbase]
    cases checkpoint with
    | none => exact hx
    | some ck => exact hkeep ck rfl x hx
  have hp := inv.accounts p hmem
  refine ⟨fun x hx hans => ?_, fun i hi => ?_⟩
  · rcases hans with hlt | ⟨hs, heq⟩
    · exact hcovers x (hp.acked x hx (.inl (by omega)))
    · obtain ⟨ck, hck⟩ := Option.isSome_iff_exists.mp (hsealed hs)
      rw [hbase, hck]
      exact hacked ck hck x hx (by omega)
  · rcases hp.passed i hi with hf | hcov
    · exact .inl hf
    · by_cases hown : (s.writes i).bytes.ownerEpoch = p.epoch ∧
          r.isSealed = true
      · exact .inl (hpassed (hsealed hown.2) i hi hown.1)
      · refine .inr fun hans => hcovers _ (hcov ?_)
        rcases hans with hlt | ⟨hs, heq⟩
        · exact .inl (by omega)
        · exact absurd ⟨heq.trans hepoch, hs⟩ hown

/-- Whoever has written under the epoch of an installed record is the session
that installed it. -/
theorem Inv.owner_of_epoch {o : Ownership} {k : Host} (hmem : p ∈ s.history)
    (ho : s.owned k = some o) (he : o.epoch = p.epoch) : k = p.lease.session := by
  obtain ⟨r, hr, hre, hrs, -⟩ := (inv.owned k o ho).source
  rw [← hrs]
  exact inv.session_unique hr hmem (by omega)

/-- One turn of the release that follows a failed recovery. -/
theorem Inv.abortRead : Ensures (Inv cfg) (abortRead s h) := by
  fun_cases Activation.abortRead s h with
  | case1 record attempt hr | case3 record attempt hr =>
    exact inv.endRegistration (by simp [hr])
  | case2 record attempt hr _ c hclaim =>
    obtain ⟨hnone, hwon⟩ := inv.registrationAt hr
    obtain ⟨p, hlast, hps, hexp, hc⟩ := (releaseClaim_spec ..).of_eq hclaim
    have hpmem : p ∈ s.history := List.mem_of_getLast? hlast
    have hpopen : p.isSealed = false := by
      by_contra hs
      exact hexp ((inv.records p hpmem).released (by simpa using hs))
    have hepoch : p.epoch = record.epoch := le_antisymm
      (hwon.newest.installed p hpmem hps) (inv.epoch_le_last hwon.installed hlast)
    have hbase : record.base = p.base :=
      inv.base_unique hwon.installed hpmem hepoch.symm hwon.unsealed hpopen
    have hunowned : ∀ k o, s.owned k = some o → o.epoch ≠ p.epoch := by
      intro k o ho he
      rw [inv.owner_of_epoch hpmem ho he, hps, hnone] at ho
      simp at ho
    have hrecord : c.host = h ∧ c.record.epoch = p.epoch ∧
        c.record.base = (some record.base).getD p.base := by
      rw [hc]
      exact ⟨rfl, rfl, rfl⟩
    have hkept : Won s.history (c :: s.requests) h record :=
      { hwon with newest := hwon.newest.send fun _ => (hrecord.2.1.trans hepoch).le }
    have hsend : Inv cfg (s.send c) := by
      refine inv.send (inv.release_sound hlast hps hexp hc ?_) (fun _ => ?_)
        (fun _ => .inr ?_) ?_ ?_
      · intro ck hck
        obtain rfl := Option.some.inj hck
        refine ⟨by rw [hbase], fun b hb => ?_⟩
        rcases (inv.records p hpmem).based b (hbase ▸ hb) with h | ⟨-, h⟩ <;> omega
      · refine inv.release_accounts hpmem
          hrecord.2.1 (fun _ => rfl) hrecord.2.2 ?_ ?_ ?_
        · intro ck hck x hx
          obtain rfl := Option.some.inj hck
          rwa [hbase]
        · intro ck _ x hx hxe
          obtain ⟨k, o, ho, he⟩ := (inv.acked x hx).owner
          exact absurd (he.trans hxe) (hunowned k o ho)
        · intro _ i hi he
          obtain ⟨o, ho, hoe, -⟩ := (inv.writes i).owner_of_passed hi
          exact absurd (hoe.trans he) (hunowned _ o ho)
      · rw [hrecord.1, hr]
        exact ⟨hnone, by simp [Registration.pending]⟩
      · rw [hrecord.1, hnone]
        simp
      · rw [hrecord.1, hr]
        exact ⟨hnone, hkept⟩
    exact hsend.moveRegistration ⟨hnone, hkept⟩ rfl
  | case4 => trivial

theorem Inv.abortReplied {replaced : Bool} :
    Ensures (Inv cfg) (abortReplied s h replaced) := by
  fun_cases Activation.abortReplied s h replaced with
  | case1 record attempt c hr =>
    cases replaced with
    | true => exact inv.endRegistration (by simp [hr])
    | false =>
      have hreg := inv.registrationAt hr
      exact inv.moveRegistration ⟨hreg.1, hreg.2⟩ rfl
  | _ => trivial

end DurableActors.Ports.Activation
