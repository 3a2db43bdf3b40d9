import DurableActors.Ports.ActivationInvariant

/-!
# Every step keeps the ownership invariant

Most steps move one call forward and leave the rest alone; they are composed
from a few frame lemmas, one per part of the state.  The steps with content
are the installation of a claim, the second owner check of a write, the
acknowledgement, and the creation of a claim.
-/

namespace DurableActors.Ports.Activation

open Verified

variable {cfg : Config} {s t : World} {h : Host}
variable {c : Claim} {o p : Ownership}

/-! ## The order of the history -/

section

variable (inv : Inv cfg s)
include inv

theorem Inv.precedes_last {r c : Ownership} (hr : r ∈ s.history)
    (hc : s.history.getLast? = some c) : r = c ∨ Precedes r c := by
  have hord := inv.ordered
  rcases List.eq_nil_or_concat s.history with hnil | ⟨init, b, hs⟩
  · rw [hnil] at hr
    simp at hr
  · rw [hs, List.concat_eq_append] at hr hc hord
    have hbc : b = c := by simpa using hc
    subst hbc
    rcases List.mem_append.mp hr with hr | hr
    · rw [List.pairwise_append] at hord
      exact .inr (hord.2.2 r hr b (by simp))
    · exact .inl (List.mem_singleton.mp hr)

theorem Inv.precedes_or {r : Ownership} (hp : p ∈ s.history) (hr : r ∈ s.history) :
    p = r ∨ Precedes p r ∨ Precedes r p := by
  obtain ⟨i, hi, rfl⟩ := List.getElem_of_mem hp
  obtain ⟨j, hj, rfl⟩ := List.getElem_of_mem hr
  have hord := List.pairwise_iff_getElem.mp inv.ordered
  rcases lt_trichotomy i j with hij | rfl | hij
  · exact .inr (.inl (hord i j hi hj hij))
  · exact .inl rfl
  · exact .inr (.inr (hord j i hj hi hij))

/-- An epoch belongs to one session. -/
theorem Inv.session_unique {r : Ownership} (hp : p ∈ s.history) (hr : r ∈ s.history)
    (he : p.epoch = r.epoch) : p.lease.session = r.lease.session := by
  rcases inv.precedes_or hp hr with rfl | h | h
  · rfl
  · rcases h.epoch with h | h
    · omega
    · exact h.2.1
  · rcases h.epoch with h | h
    · omega
    · exact h.2.1.symm

/-- The unsealed records of an epoch share their base. -/
theorem Inv.base_unique {r : Ownership} (hp : p ∈ s.history) (hr : r ∈ s.history)
    (he : p.epoch = r.epoch) (hpo : p.isSealed = false) (hro : r.isSealed = false) :
    p.base = r.base := by
  rcases inv.precedes_or hp hr with rfl | h | h
  · rfl
  · rcases h.epoch with h | ⟨-, -, -, h | h⟩
    · omega
    · simp [hro] at h
    · exact h.symm
  · rcases h.epoch with h | ⟨-, -, -, h | h⟩
    · omega
    · simp [hpo] at h
    · exact h

theorem Inv.epoch_le_last {r c : Ownership} (hr : r ∈ s.history)
    (hc : s.history.getLast? = some c) : r.epoch ≤ c.epoch := by
  rcases inv.precedes_last hr hc with rfl | h
  · exact le_rfl
  · rcases h.epoch with h | h <;> omega

/-- Two sessions never own the same epoch. -/
theorem Inv.owner_unique {k : Host} (ho : s.owned h = some o) (hp : s.owned k = some p)
    (he : o.epoch = p.epoch) : h = k := by
  obtain ⟨r, hr, hre, hrs, -, -⟩ := (inv.owned h o ho).source
  obtain ⟨q, hq, hqe, hqs, -, -⟩ := (inv.owned k p hp).source
  rw [← hrs, ← hqs]
  exact inv.session_unique hr hq (by omega)

/-- A request never names a generation beyond the current one, so no earlier
request survives an installation. -/
theorem Inv.not_live_append (r : Ownership) (hc : c ∈ s.requests) : ¬c.Live (s.history ++ [r]) := by
  intro hlive
  have hgen : VersionedCell.generation (s.history ++ [r]) =
      some (s.history.length + 1) := by
    rw [VersionedCell.generation_eq_some]
    simp
  rw [Claim.Live, hgen] at hlive
  rcases (inv.requests c hc).follows with hn | ⟨g, p, hg, hp, -⟩
  · rw [hn] at hlive
    simp at hlive
  · have hle := VersionedCell.valueAt_le hp
    rw [hg, Option.some.injEq] at hlive
    omega

/-! ## Frame lemmas -/

/-- Replacing a registration: only what it carries has to be checked. -/
theorem Inv.setRegistration {r : Registration} (hr : RegistrationInv cfg s h r)
    (hpending : ∀ o, r.pending = some o → o ∈ s.history → (s.registration h).pending = some o) :
    Inv cfg (s.setRegistration h r) := by
  refine { inv with registration := ?_, live := ?_ }
  · exact (Function.forall_update_iff _ (RegistrationInv cfg s)).mpr
      ⟨hr, fun k _ => inv.registration k⟩
  · intro c hc hlive
    refine ⟨(inv.live c hc hlive).1, fun hzero => ?_⟩
    refine ((inv.live c hc hlive).2 hzero).imp_right fun ⟨hnone, hout⟩ =>
      ⟨hnone, fun o ho hmem => hout o ?_ hmem⟩
    by_cases hk : c.host = h
    · rw [hk] at ho ⊢
      exact hpending o (by simpa [World.setRegistration] using ho) hmem
    · simpa [World.setRegistration, hk] using ho

/-- A registration that has claimed nothing yet. -/
theorem Inv.moveRegistration {r : Registration} (hr : RegistrationInv cfg s h r)
    (hpending : r.pending = none) : Inv cfg (s.setRegistration h r) := by
  refine inv.setRegistration hr fun o ho => ?_
  simp [hpending] at ho

/-- Ending a registration. -/
theorem Inv.endRegistration
    (hfrom : ∀ started lease, s.registration h ≠ .confirming started lease) :
    Inv cfg (s.setRegistration h .idle) := by
  refine inv.moveRegistration (fun hown => ?_) rfl
  have hr := inv.registration h
  generalize s.registration h = r at hfrom hr
  cases r with
  | idle => exact hr hown
  | confirming started lease => exact absurd rfl (hfrom started lease)
  | renewReading started => exact .inl hr
  | renewChecking started g p => exact .inl hr.1
  | renewStamping started g p => exact .inl hr.1
  | renewClaiming started c => exact .inl hr.1
  | renewAdopting started record => exact .inl hr.1
  | _ => exact absurd hr.1 hown

end

/-- `s'` keeps what the registration `r` of the session relies on in `s`. -/
structure Keeps (s s' : World) (h : Host) (r : Registration) : Prop where
  now : s.now ≤ s'.now
  read : ∀ g p, VersionedCell.valueAt s.history g = some p →
    VersionedCell.valueAt s'.history g = some p
  requests : ∀ c ∈ s.requests, c ∈ s'.requests
  snapshots : ∀ b ∈ s.snapshots, b ∈ s'.snapshots
  owned : s'.owned h = none ↔ s.owned h = none
  lease : s.lease h ≠ none → s'.lease h ≠ none
  fence : (s.fence h).fenced = true → (s'.fence h).fenced = true
  found : ∀ started g p record recovered, r = .loading started g p record recovered →
    VersionedCell.valueAt s.history g = some p →
    some g = VersionedCell.generation s'.history →
    (some g = VersionedCell.generation s.history →
      FoundAll s.fence s.writes s.acknowledged p.epoch recovered) →
    FoundAll s'.fence s'.writes s'.acknowledged p.epoch recovered
  leaseOk : ∀ o ∈ s.history, o.lease.session = h →
    s.lease h ≠ none ∨ r.pending = some o →
    LeaseOk s.now s.history s.fence h o → LeaseOk s'.now s'.history s'.fence h o
  newest : ∀ o, Won s.history s.requests h o →
    Newest s'.history s'.requests h o.epoch
  installed : ∀ c ∈ s.requests, c.host = h → c.record ∈ s'.history →
    c.record ∈ s.history ∨ LeaseOk s'.now s'.history s'.fence h c.record ∧
      Newest s'.history s'.requests h c.record.epoch

theorem Keeps.refl (s : World) (h : Host) (r : Registration) : Keeps s s h r where
  now := le_rfl
  read _ _ hp := hp
  requests _ hc := hc
  snapshots _ hb := hb
  owned := Iff.rfl
  lease hl := hl
  fence hf := hf
  found _ _ _ _ _ _ _ hg hall := hall hg
  leaseOk _ _ _ _ ho := ho
  newest _ ho := ho.newest
  installed _ _ _ hm := .inl hm

theorem Keeps.mem {s' : World} {r : Registration} (hs : Keeps s s' h r) {p : Ownership}
    (hp : p ∈ s.history) : p ∈ s'.history := by
  obtain ⟨g, hg⟩ := VersionedCell.exists_valueAt hp
  exact VersionedCell.valueAt_mem (hs.read g p hg)

theorem Keeps.won {s' : World} {r : Registration} (hs : Keeps s s' h r) {o : Ownership}
    (ho : Won s.history s.requests h o) : Won s'.history s'.requests h o :=
  ⟨hs.mem ho.installed, ho.session, ho.unsealed, hs.newest o ho⟩

/-- A session keeps its invariant when the others move. -/
theorem Inv.keep (inv : Inv cfg s) {s' : World} {r : Registration} (hs : Keeps s s' h r)
    (hr : RegistrationInv cfg s h r) : RegistrationInv cfg s' h r := by
  have hcand : ∀ g p record, Candidate s.now s.history cfg h g p record →
      Candidate s'.now s'.history cfg h g p record := fun g p record hc =>
    ⟨hs.read g p hc.read, hc.expired.trans hs.now, hc.unsealed, hc.epoch,
      hc.session, hc.bounded.trans (Nat.add_le_add_right hs.now _), hc.positive⟩
  have hsession : ∀ c ∈ s.requests, c.host = h → c.record.lease.session = h :=
    fun c hc hhost => (inv.requests c hc).session.trans hhost
  cases r with
  | idle =>
    exact fun hown => (hr fun hnone => hown (hs.owned.mpr hnone)).imp hs.lease hs.fence
  | reading started hint newActor =>
    exact ⟨hs.owned.mpr hr.1, fun g p hp => hs.read g p (hr.2 g p hp)⟩
  | validating started hinted current =>
    exact ⟨hs.owned.mpr hr.1, fun g p hp => hs.read g p (hr.2 g p hp)⟩
  | stamping started hinted current =>
    exact ⟨hs.owned.mpr hr.1, fun g p hp =>
      ⟨hs.read g p (hr.2 g p hp).1, (hr.2 g p hp).2.trans hs.now⟩⟩
  | listing started g p record =>
    exact ⟨hs.owned.mpr hr.1, hcand g p record hr.2⟩
  | loading started g p record recovered =>
    obtain ⟨hnone, hc, hrec, hall⟩ := hr
    exact ⟨hs.owned.mpr hnone, hcand g p record hc, fun b hb =>
      ⟨hs.snapshots b (hrec b hb).1, (hrec b hb).2⟩,
      fun hg => hs.found _ g p _ recovered rfl hc.read hg hall⟩
  | claiming started hinted joined c =>
    obtain ⟨hnone, hc, hhost, hopen, hall⟩ := hr
    refine ⟨hs.owned.mpr hnone, hs.requests c hc, hhost, hopen, fun hm => ?_⟩
    rcases hs.installed c hc hhost hm with hm | hnew
    · have hsess := hsession c hc hhost
      exact ⟨hs.leaseOk _ hm hsess (.inr rfl) (hall hm).1,
        hs.newest _ ⟨hm, hsess, hopen, (hall hm).2⟩⟩
    · exact hnew
  | adopting started record =>
    obtain ⟨hnone, hlease, hwon⟩ := hr
    exact ⟨hs.owned.mpr hnone,
      hs.leaseOk _ hwon.installed hwon.session (.inr rfl) hlease, hs.won hwon⟩
  | confirming started lease => exact fun hnone => hr (hs.owned.mp hnone)
  | releasing record attempt => exact ⟨hs.owned.mpr hr.1, hs.won hr.2⟩
  | swapping record attempt c => exact ⟨hs.owned.mpr hr.1, hs.won hr.2⟩
  | renewReading started => exact hs.lease hr
  | renewChecking started g p => exact ⟨hs.lease hr.1, hs.read g p hr.2.1, hr.2.2⟩
  | renewStamping started g p => exact ⟨hs.lease hr.1, hs.read g p hr.2.1, hr.2.2⟩
  | renewClaiming started c =>
    obtain ⟨hlease, hc, hhost, hall⟩ := hr
    refine ⟨hs.lease hlease, hs.requests c hc, hhost, fun hm => ?_⟩
    rcases hs.installed c hc hhost hm with hm | hnew
    · exact hs.leaseOk _ hm (hsession c hc hhost) (.inl hlease) (hall hm)
    · exact hnew.1
  | renewAdopting started record =>
    obtain ⟨hlease, hm, hsess, hok⟩ := hr
    exact ⟨hs.lease hlease, hs.mem hm, hsess, hs.leaseOk _ hm hsess (.inl hlease) hok⟩

theorem RecordInv.mono {now now' mutations mutations' : Nat} {r : Ownership}
    (hnow : now ≤ now') (hmut : mutations ≤ mutations')
    (hr : RecordInv cfg now mutations r) : RecordInv cfg now' mutations' r :=
  { hr with
    bounded := hr.bounded.trans (Nat.add_le_add_right hnow _)
    minted := hr.minted.trans_le hmut }

theorem Claim.Sound.mono {now now' : Nat} {history history' : List Ownership}
    {mutations mutations' : Nat} {c : Claim} (hnow : now ≤ now')
    (hread : ∀ g p, VersionedCell.valueAt history g = some p →
      VersionedCell.valueAt history' g = some p) (hmut : mutations ≤ mutations')
    (hc : c.Sound cfg now history mutations) :
    c.Sound cfg now' history' mutations' where
  session := hc.session
  record := hc.record.mono hnow hmut
  follows := by
    refine hc.follows.imp_right ?_
    rintro ⟨g, p, hg, hp, hkind⟩
    refine ⟨g, p, hg, hread g p hp, hkind.imp_left fun ht => ?_⟩
    exact ⟨ht.epoch, ht.expired.trans hnow, ht.unsealed, ht.base⟩

/-- The newest epoch of a session stays so when a claim does not exceed it. -/
theorem Newest.send {history : List Ownership} {requests : List Claim} {c : Claim} {e : Nat}
    (hc : c.host = h → c.record.epoch ≤ e) (hn : Newest history requests h e) :
    Newest history (c :: requests) h e := by
  refine ⟨hn.installed, fun d hd hk hlive => ?_⟩
  rcases List.mem_cons.mp hd with rfl | hd
  · exact hc hk
  · exact hn.live d hd hk hlive

/-- Sending a claim: only the new one has to be checked, and what its sender
knows of it. -/
theorem Inv.send (inv : Inv cfg s) {c : Claim}
    (hsound : c.Sound cfg s.now s.history (s.mutations + 1))
    (hacc : c.Live s.history → Accounts s.fence s.writes s.acknowledged c.record)
    (hsafe : ReleaseSafe s.history s.fence s.owned s.registration c)
    (howned : ∀ o, s.owned c.host = some o → c.record.epoch ≤ o.epoch)
    (hsender : RegistrationInv cfg (s.send c) c.host (s.registration c.host)) :
    Inv cfg (s.send c) := by
  refine { inv with
    records := ?_, requests := ?_, owned := ?_, registration := ?_, live := ?_ }
  · exact fun r hr => (inv.records r hr).mono le_rfl (Nat.le_succ _)
  · intro d hd
    rcases List.mem_cons.mp hd with rfl | hd
    · exact hsound
    · exact (inv.requests d hd).mono le_rfl (fun _ _ hp => hp)
        (Nat.le_succ _)
  · intro k o ho
    exact { inv.owned k o ho with
      newest := (inv.owned k o ho).newest.send fun hk => howned o (hk ▸ ho) }
  · intro k
    by_cases hk : c.host = k
    · exact hk ▸ hsender
    · exact inv.keep { Keeps.refl s k _ with
        requests := fun d hd => List.mem_cons_of_mem c hd
        newest := fun o ho => ho.newest.send fun hk' => absurd hk' hk
        installed := fun _ _ _ hm => .inl hm }
        (inv.registration k)
  · intro d hd hlive
    rcases List.mem_cons.mp hd with rfl | hd
    · exact ⟨hacc hlive, hsafe⟩
    · exact inv.live d hd hlive

/-- The shape of every frame argument about shutdowns: before the fence is set
a checkpoint comes with a quiet session, afterwards with the fence. -/
theorem ShutdownInv.imp {fence fence' : Host → LeaseFence}
    {owned owned' : Host → Option Ownership} {writes writes' : Nat → Write}
    {acked acked' : List Object} {closed closed' : Host → Bool} {d : Shutdown}
    (hfence : (fence h).fenced = true → (fence' h).fenced = true)
    (hopen : ∀ ck, HasCheckpoint fence owned writes acked h ck → Quiet writes closed h →
      HasCheckpoint fence' owned' writes' acked' h ck ∧ Quiet writes' closed' h)
    (hreleased : ∀ ck, (fence h).fenced = true → HasCheckpoint fence owned writes acked h ck →
      HasCheckpoint fence' owned' writes' acked' h ck)
    (hd : ShutdownInv fence owned writes acked closed h d) :
    ShutdownInv fence' owned' writes' acked' closed' h d := by
  cases d with
  | running => trivial
  | closing ck => exact hopen ck hd.1 hd.2
  | fencing checkpoint =>
    cases checkpoint with
    | none => trivial
    | some ck => exact hopen ck hd.1 hd.2
  | releasing checkpoint attempt =>
    exact ⟨hfence hd.1, fun ck hck => hreleased ck hd.1 (hd.2 ck hck)⟩
  | swapping checkpoint attempt c =>
    exact ⟨hfence hd.1, fun ck hck => hreleased ck hd.1 (hd.2 ck hck)⟩
  | finished => trivial

section Fence

variable {fence fence' : Host → LeaseFence}
  (hmono : ∀ k, (fence k).fenced = true → (fence' k).fenced = true)

include hmono

theorem Accounts.mono {writes : Nat → Write} {acked : List Object} {r : Ownership}
    (hr : Accounts fence writes acked r) : Accounts fence' writes acked r :=
  ⟨hr.acked, fun i hi => (hr.passed i hi).imp_left (hmono _)⟩

theorem FoundAll.mono {writes : Nat → Write} {acked : List Object} {epoch : Nat}
    {recovered : Option Snapshot} (hr : FoundAll fence writes acked epoch recovered) :
    FoundAll fence' writes acked epoch recovered :=
  ⟨hr.acked, fun i hi => (hr.passed i hi).imp_left (hmono _)⟩

theorem LeaseOk.mono {now now' : Nat} {history : List Ownership} (hnow : now ≤ now')
    (ho : LeaseOk now history fence h o) : LeaseOk now' history fence' h o :=
  ho.imp_right fun ho => ho.imp (fun ho => ho.trans hnow) (hmono h)

theorem HasCheckpoint.mono {owned : Host → Option Ownership}
    {writes : Nat → Write} {acked : List Object} {ck : Option SnapshotRef}
    (hck : HasCheckpoint fence owned writes acked h ck) :
    HasCheckpoint fence' owned writes acked h ck := by
  obtain ⟨o, ho, hck⟩ := hck
  exact ⟨o, ho, { hck with
    recorded := fun i hi hpc => (hck.recorded i hi hpc).imp_left (hmono h) }⟩

end Fence

variable (inv : Inv cfg s)
include inv

/-- A fence may only be raised. -/
theorem Inv.setFenceOf {f : LeaseFence} (hf : (s.fence h).fenced = true → f.fenced = true) :
    Inv cfg (s.setFenceOf h f) := by
  have hmono : ∀ k, (s.fence k).fenced = true →
      ((s.setFenceOf h f).fence k).fenced = true := by
    intro k hk
    by_cases hkh : k = h
    · subst hkh
      simpa [World.setFenceOf] using hf hk
    · simpa [World.setFenceOf, hkh] using hk
  exact { inv with
    owned := fun k o ho => { inv.owned k o ho with
      lease := (inv.owned k o ho).lease.mono hmono le_rfl }
    registration := fun k => inv.keep { Keeps.refl s k (s.registration k) with
      fence := hmono k
      found := fun _ _ _ _ _ _ _ hg hall => (hall hg).mono hmono
      leaseOk := fun _ _ _ _ ho => ho.mono hmono le_rfl
      installed := fun _ _ _ hm => .inl hm } (inv.registration k)
    accounts := fun r hr => (inv.accounts r hr).mono hmono
    live := fun c hc hl => ⟨(inv.live c hc hl).1.mono hmono, fun hz =>
      ((inv.live c hc hl).2 hz).imp_left (hmono _)⟩
    shutdown := fun k => .imp (hmono k)
      (fun _ hck hq => ⟨hck.mono hmono, hq⟩) (fun _ _ hck => hck.mono hmono)
      (inv.shutdown k) }

theorem Inv.setShutdown {d : Shutdown}
    (hd : ShutdownInv s.fence s.owned s.writes s.acknowledged s.streamClosed h d) :
    Inv cfg (s.setShutdown h d) :=
  { inv with
    shutdown := (Function.forall_update_iff _ (ShutdownInv s.fence s.owned
      s.writes s.acknowledged s.streamClosed)).mpr ⟨hd, fun k _ => inv.shutdown k⟩ }

theorem Inv.setStop (stop : Host → Bool) : Inv cfg { s with stop := stop } :=
  { inv with }

theorem Inv.tick (ms : Nat) : Inv cfg { s with now := s.now + ms } := by
  have hnow : s.now ≤ s.now + ms := Nat.le_add_right _ _
  exact { inv with
    records := fun r hr => (inv.records r hr).mono hnow le_rfl
    requests := fun c hc =>
      (inv.requests c hc).mono hnow (fun _ _ hp => hp) le_rfl
    owned := fun k o ho => { inv.owned k o ho with
      lease := (inv.owned k o ho).lease.mono (fun _ hf => hf) hnow }
    registration := fun k => inv.keep { Keeps.refl s k _ with
      now := hnow
      leaseOk := fun _ _ _ _ ho => ho.mono (fun _ hf => hf) hnow
      installed := fun _ _ _ hm => .inl hm } (inv.registration k) }

/-- A snapshot reaches the store. -/
theorem Inv.store {b : Snapshot} (hb : b ∈ s.puts) :
    Inv cfg { s with snapshots := b :: s.snapshots } := by
  have hsub : ∀ x ∈ s.snapshots, x ∈ b :: s.snapshots :=
    fun x hx => List.mem_cons_of_mem b hx
  exact { inv with
    stored := by
      rintro x (hx | hx)
      · rcases List.mem_cons.mp hx with rfl | hx
        · exact inv.stored x (.inr hb)
        · exact inv.stored x (.inl hx)
      · exact inv.stored x (.inr hx)
    registration := fun k =>
      inv.keep { Keeps.refl s k _ with snapshots := hsub } (inv.registration k)
    writes := fun i => ⟨(inv.writes i).owner, fun hpc => hsub _ ((inv.writes i).stored hpc)⟩
    acked := fun x hx => by
      obtain ⟨y, hy, hyx⟩ := (inv.acked x hx).stored
      exact ⟨⟨y, hsub y hy, hyx⟩, (inv.acked x hx).owner⟩ }

/-! ## Installing a claim -/

/-- The record a live claim replaces is the current one. -/
theorem Inv.live_follows (hc : c ∈ s.requests) (hlive : c.Live s.history) :
    s.history = [] ∨ ∃ p, s.history.getLast? = some p ∧
      (c.Takeover s.now p ∨ c.Renewal p ∨ c.Release p) := by
  rcases (inv.requests c hc).follows with hn | ⟨g, p, hg, hp, hkind⟩
  · rw [Claim.Live, hn] at hlive
    exact .inl (VersionedCell.generation_eq_none.mp hlive.symm)
  · rw [Claim.Live, hg] at hlive
    exact .inr ⟨p, VersionedCell.getLast?_of_generation hlive hp, hkind⟩

theorem Inv.live_precedes (hc : c ∈ s.requests) (hlive : c.Live s.history)
    (hp : s.history.getLast? = some p) : Precedes p c.record := by
  have hsession := (inv.requests c hc).session
  rcases inv.live_follows hc hlive with hnil | ⟨q, hq, hkind⟩
  · simp [hnil] at hp
  · obtain rfl : q = p := by simpa [hq] using hp
    rcases hkind with ht | hr | hr
    · exact ⟨ht.base, .inl (by have := ht.epoch; omega)⟩
    · exact ⟨by rw [hr.base], .inr ⟨hr.epoch.symm, by rw [hr.session, hsession],
        hr.unsealed.1, .inr hr.base⟩⟩
    · exact ⟨hr.base, .inr ⟨hr.epoch.symm, by rw [hr.session, hsession],
        hr.unsealed, hr.kept⟩⟩

/-- The local lease stays bounded when the current record changes: a
successor waited for it, a renewal prolongs it, and a release was fenced. -/
theorem Inv.lease_install (hc : c ∈ s.requests) (hlive : c.Live s.history)
    (hsource : ∃ r ∈ s.history, r.epoch = o.epoch ∧ r.lease.session = h)
    (hadopt : s.owned h ≠ none ∨ (s.registration h).pending = some o ∧ o ∈ s.history)
    (ho : LeaseOk s.now s.history s.fence h o) :
    LeaseOk s.now (s.history ++ [c.record]) s.fence h o := by
  rcases ho with ⟨p, hp, hpe, hle⟩ | ho
  swap
  · exact .inr ho
  obtain ⟨r, hr, hre, hrs⟩ := hsource
  rcases inv.live_follows hc hlive with hnil | ⟨q, hq, hkind⟩
  · simp [hnil] at hr
  obtain rfl : q = p := by simpa [hq] using hp
  have hmem : q ∈ s.history := List.mem_of_getLast? hq
  rcases hkind with ht | hn | hd
  · exact .inr (.inl (hle.trans ht.expired))
  · exact .inl ⟨c.record, by simp, hn.epoch.trans hpe, hle.trans hn.lease⟩
  · have hhost : c.host = h := by
      rw [← hd.session, ← hrs]
      exact inv.session_unique hmem hr (by omega)
    rcases (inv.live c hc hlive).2 hd.expired with hf | ⟨hnone, hout⟩
    · exact .inr (.inr (hhost ▸ hf))
    · rw [hhost] at hnone hout
      rcases hadopt with hown | ⟨hpend, ho⟩
      · exact absurd hnone hown
      · exact absurd ho (hout o hpend)

/-- A claim that the store applies becomes the newest record. -/
theorem Inv.install (hc : c ∈ s.requests) (hlive : c.Live s.history) :
    Inv cfg { s with history := s.history ++ [c.record] } := by
  have hsound := inv.requests c hc
  have hread : ∀ g p, VersionedCell.valueAt s.history g = some p →
      VersionedCell.valueAt (s.history ++ [c.record]) g = some p :=
    fun g p hp => VersionedCell.valueAt_append _ hp
  have hmem : ∀ p ∈ s.history, p ∈ s.history ++ [c.record] :=
    fun p hp => List.mem_append_left _ hp
  have hnew : ∀ {p}, p ∈ s.history ++ [c.record] →
      p ∈ s.history ∨ p = c.record := by simp
  have hdead : ∀ d ∈ s.requests, ¬d.Live (s.history ++ [c.record]) :=
    fun d hd => inv.not_live_append c.record hd
  have hepoch : ∀ r ∈ s.history, r.epoch ≤ c.record.epoch := by
    intro r hr
    obtain ⟨p, hp⟩ : ∃ p, s.history.getLast? = some p := by
      cases hlast : s.history.getLast? with
      | none => simp [List.getLast?_eq_none_iff.mp hlast] at hr
      | some p => exact ⟨p, rfl⟩
    refine (inv.epoch_le_last hr hp).trans ?_
    rcases (inv.live_precedes hc hlive hp).epoch with h | h <;> omega
  have hnewest : ∀ {k e}, Newest s.history s.requests k e →
      Newest (s.history ++ [c.record]) s.requests k e := by
    intro k e hn
    refine ⟨fun r hr hs => ?_, fun d hd _ hl => absurd hl (hdead d hd)⟩
    rcases hnew hr with hr | rfl
    · exact hn.installed r hr hs
    · exact hn.live c hc (by rw [← hsound.session, hs]) hlive
  refine { inv with
    ordered := ?_, records := ?_, requests := ?_, stored := ?_
    owned := ?_, registration := ?_, accounts := ?_, live := ?_ }
  · exact VersionedCell.pairwise_append_last (fun _ _ _ => .trans)
      inv.ordered fun p hp => inv.live_precedes hc hlive hp
  · intro r hr
    rcases hnew hr with hr | rfl
    · exact inv.records r hr
    · exact hsound.record
  · exact fun d hd => (inv.requests d hd).mono le_rfl hread le_rfl
  · intro b hb
    obtain ⟨r, hr, hb⟩ := inv.stored b hb
    exact ⟨r, hmem r hr, hb⟩
  · intro k o ho
    have hown := inv.owned k o ho
    obtain ⟨r, hr, hre, hrs, hsrc⟩ := hown.source
    exact { hown with
      source := ⟨r, hmem r hr, hre, hrs, hsrc⟩
      lease := inv.lease_install hc hlive ⟨r, hr, hre, hrs⟩
        (.inl fun hnone => nomatch hnone.symm.trans ho)
        hown.lease
      newest := hnewest hown.newest }
  · intro k
    refine inv.keep { Keeps.refl s k (s.registration k) with
      read := hread, found := ?_, leaseOk := ?_, newest := ?_, installed := ?_ }
      (inv.registration k)
    · -- A list made before the installation belongs to an older generation.
      intro _ g p _ _ _ hread hg
      have hle := VersionedCell.valueAt_le hread
      have hlen := (VersionedCell.generation_eq_some.mp hg.symm).1
      simp only [List.length_append, List.length_singleton] at hlen
      omega
    · intro o hm hsess hadopt hok
      exact inv.lease_install hc hlive ⟨o, hm, rfl, hsess⟩
        (hadopt.imp (fun hl hnone => hl (inv.unowned k hnone).1) fun hp => ⟨hp, hm⟩) hok
    · exact fun o ho => hnewest ho.newest
    · intro d _ _ hm
      refine (hnew hm).imp_right fun heq => ?_
      rw [heq]
      refine ⟨.inl ⟨c.record, by simp, rfl, le_rfl⟩, fun r hr _ => ?_,
        fun d hd _ hl => absurd hl (hdead d hd)⟩
      rcases hnew hr with hr | rfl
      · exact hepoch r hr
      · exact le_rfl
  · intro r hr
    rcases hnew hr with hr | rfl
    · exact inv.accounts r hr
    · exact (inv.live c hc hlive).1
  · exact fun d hd hl => absurd hl (hdead d hd)

end DurableActors.Ports.Activation
