import DurableActors.Ports.OrganizationLimits

/-!
# The Redis scripts refine the reservations in memory

Both stores are read at a time `now` that is not before any earlier one, so an
entry that has expired never matters again.  `Agree now usage keys` says that
the slots, the sessions and the bucket of an organization are the same as far as
they can be seen at `now` or later:

* slots and sessions agree where they are alive; a store may still hold others;
* the bucket is the same, and its key lasts until the bucket has filled.

The stores differ in the very millisecond in which a session is forgotten: it is
gone from memory, while a server may still answer with its key.
-/

namespace DurableActors.Ports.Admission

open Verified TokenBucket

variable {activation : Activation}

/-! ## What can be seen of an organization -/

/-- Times in memory saturate. -/
def capped (expireAt : Nat) : Nat := min expireAt (2 ^ 64 - 1)

theorem lt_capped {now expireAt : Nat} (hnow : now < 2 ^ 64 - 1) :
    now < capped expireAt ↔ now < expireAt := by
  unfold capped
  omega

/-- The activation that a member of an organization stands for. -/
def ofMember (organization : String) (member : Member) : Activation :=
  ⟨organization, ⟨member.1, member.2.1, member.2.2.1⟩, member.2.2.2.1, member.2.2.2.2⟩

@[simp] theorem ofMember_member (activation : Activation) :
    ofMember activation.organization activation.member = activation := rfl

theorem ofMember_eq_iff {member : Member} :
    ofMember activation.organization member = activation ↔ member = activation.member := by
  constructor
  · intro h
    rw [← h]
    rfl
  · rintro rfl
    rfl

/-- A slot of the sorted set, as memory keeps it. -/
def slotOf (organization : String) (slot : Member × Nat) : Activation × Nat :=
  (ofMember organization slot.1, capped slot.2)

/-- A session hash, as memory keeps it. -/
def sessionOf (entry : Expiring SessionHash) : Session :=
  ⟨entry.value.epoch, entry.value.sequence, entry.value.stopped, capped entry.expireAt⟩

/-- The session of a member that is alive at `now`. -/
def Keys.liveSession (keys : Keys) (now : Nat) (member : Member) : Option (Expiring SessionHash) :=
  (keys.session member).filter fun entry => now < entry.expireAt

/-- The bucket in memory is the one in Redis, whose key outlasts its filling. -/
inductive BucketAgree (limits : OrganizationLimits) (now : Nat) (usage : Usage) (keys : Keys) :
    Prop
  | full (htokens : usage.tokens = none) (hrefilled : usage.refilledAt = 0)
      (hbucket : keys.bucket = none)
  | filling (entry : Expiring BucketHash) (hbucket : keys.bucket = some entry)
      (htokens : usage.tokens = some entry.value.tokens)
      (hrefilled : usage.refilledAt = entry.value.updated)
      (hnonneg : 0 ≤ entry.value.tokens) (hnow : entry.value.updated ≤ now)
      (hfull : (limits.startBurst : ℚ) ≤ ((entry.expireAt - entry.value.updated : Nat) : ℚ) *
        ((limits.startsPerSecond : ℚ) / 1000))

/-- The usage and the keys are the same in what has not expired. -/
structure Agree (limits : OrganizationLimits) (organization : String) (now : Nat) (usage : Usage)
    (keys : Keys) : Prop where
  active : usage.active.live now = (keys.active.live now).map (slotOf organization)
  session : ∀ activation, activation.organization = organization →
    (usage.sessions activation).filter (fun state => now < state.forgetAt) =
      (keys.liveSession now activation.member).map sessionOf
  bucket : BucketAgree limits now usage keys

variable {limits : OrganizationLimits} {organization : String} {now later : Nat} {usage : Usage}
  {keys : Keys}

/-! ## Slots -/

theorem live_map_slotOf (slots : Slots Member) (hnow : now < 2 ^ 64 - 1) :
    Slots.live (slots.map (slotOf organization)) now =
      (slots.live now).map (slotOf organization) := by
  unfold Slots.live
  rw [List.filter_map]
  congr 1
  apply List.filter_congr
  intro slot _
  exact decide_eq_decide.mpr (lt_capped hnow)

theorem erase_map_slotOf (slots : Slots Member) (activation : Activation) :
    Slots.erase (slots.map (slotOf activation.organization)) activation =
      (slots.erase activation.member).map (slotOf activation.organization) := by
  unfold Slots.erase
  rw [List.filter_map]
  congr 1
  apply List.filter_congr
  intro slot _
  exact decide_eq_decide.mpr (not_congr ofMember_eq_iff)

theorem insert_map_slotOf (slots : Slots Member) (activation : Activation) (expireAt : Nat) :
    Slots.insert (slots.map (slotOf activation.organization)) activation (capped expireAt) =
      (slots.insert activation.member expireAt).map (slotOf activation.organization) := by
  unfold Slots.insert
  rw [erase_map_slotOf]
  rfl

/-! ## As time passes -/

section

variable (h : Agree limits organization now usage keys)
include h

theorem Agree.prune_active (hle : now ≤ later) (hlater : later < 2 ^ 64 - 1) :
    (usage.prune later).active = (keys.active.live later).map (slotOf organization) := by
  show usage.active.live later = _
  rw [← Slots.live_live usage.active hle, h.active, live_map_slotOf _ hlater,
    Slots.live_live keys.active hle]

theorem Agree.prune_session (hle : now ≤ later) (hlater : later < 2 ^ 64 - 1)
    (activation : Activation) (horganization : activation.organization = organization) :
    (usage.prune later).sessions activation =
      (keys.liveSession later activation.member).map sessionOf := by
  show (usage.sessions activation).filter (fun state => later < state.forgetAt) = _
  rw [← filter_later (usage.sessions activation) hle, h.session activation horganization]
  unfold Keys.liveSession
  rw [← filter_later (keys.session activation.member) hle]
  cases (keys.session activation.member).filter fun entry => now < entry.expireAt with
  | none => rfl
  | some entry =>
    simp only [Option.map_some, Option.filter_some]
    by_cases hlive : later < entry.expireAt
    · have : later < (sessionOf entry).forgetAt := (lt_capped hlater).mpr hlive
      simp only [hlive, this, decide_true, if_true, Option.map_some]
    · have : ¬ later < (sessionOf entry).forgetAt := fun h => hlive ((lt_capped hlater).mp h)
      simp only [hlive, this, decide_false, Bool.false_eq_true, if_false, Option.map_none]

omit h in
theorem BucketAgree.mono (h : BucketAgree limits now usage keys) (hle : now ≤ later) :
    BucketAgree limits later usage keys := by
  cases h with
  | full htokens hrefilled hbucket => exact .full htokens hrefilled hbucket
  | filling entry hbucket htokens hrefilled hnonneg hnow hfull =>
    exact .filling entry hbucket htokens hrefilled hnonneg (Nat.le_trans hnow hle) hfull

omit h in
/-- The bucket is all that `BucketAgree` reads. -/
theorem BucketAgree.congr {usage' : Usage} {keys' : Keys} (h : BucketAgree limits now usage keys)
    (htokens' : usage'.tokens = usage.tokens) (hrefilled' : usage'.refilledAt = usage.refilledAt)
    (hbucket' : keys'.bucket = keys.bucket) : BucketAgree limits now usage' keys' := by
  cases h with
  | full htokens hrefilled hbucket =>
    exact .full (htokens'.trans htokens) (hrefilled'.trans hrefilled) (hbucket'.trans hbucket)
  | filling entry hbucket htokens hrefilled hnonneg hnow hfull =>
    exact .filling entry (hbucket'.trans hbucket) (htokens'.trans htokens)
      (hrefilled'.trans hrefilled) hnonneg hnow hfull

theorem Agree.mono (hle : now ≤ later) (hlater : later < 2 ^ 64 - 1) :
    Agree limits organization later usage keys where
  active := h.prune_active hle hlater
  session := h.prune_session hle hlater
  bucket := h.bucket.mono hle

/-- Memory may drop what has expired. -/
theorem Agree.prune : Agree limits organization now (usage.prune now) keys where
  active := (Slots.live_live usage.active (Nat.le_refl now)).trans h.active
  session := fun activation horganization =>
    (filter_later (usage.sessions activation) (Nat.le_refl now)).trans
      (h.session activation horganization)
  bucket := h.bucket.congr rfl rfl rfl

/-- The script may drop the slots that have expired. -/
theorem Agree.dropSlots :
    Agree limits organization now usage { keys with active := keys.active.live now } where
  active := by
    show _ = ((keys.active.live now).live now).map _
    rw [Slots.live_live keys.active (Nat.le_refl now)]
    exact h.active
  session := h.session
  bucket := h.bucket.congr rfl rfl rfl

end

/-! ## Writes -/

section

variable (h : Agree limits activation.organization now usage keys)
include h

theorem Agree.insertSlot (hnow : now < 2 ^ 64 - 1) (expireAt : Nat) (hlive : now < expireAt) :
    Agree limits activation.organization now
      { usage with active := usage.active.insert activation (capped expireAt) }
      { keys with active := keys.active.insert activation.member expireAt } where
  active := by
    show (usage.active.insert activation (capped expireAt)).live now =
      ((keys.active.insert activation.member expireAt).live now).map _
    rw [Slots.live_insert _ _ ((lt_capped hnow).mpr hlive), Slots.live_insert _ _ hlive, h.active,
      insert_map_slotOf]
  session := h.session
  bucket := h.bucket.congr rfl rfl rfl

theorem Agree.eraseSlot :
    Agree limits activation.organization now { usage with active := usage.active.erase activation }
      { keys with active := keys.active.erase activation.member } where
  active := by
    show (usage.active.erase activation).live now =
      ((keys.active.erase activation.member).live now).map _
    rw [Slots.live_erase, Slots.live_erase, h.active, erase_map_slotOf]
  session := h.session
  bucket := h.bucket.congr rfl rfl rfl

/-- Sessions that are the same at `now` may be set. -/
theorem Agree.setSession {state : Option Session} {entry : Option (Expiring SessionHash)}
    (hsame : state.filter (fun state => now < state.forgetAt) =
      (entry.filter fun entry => now < entry.expireAt).map sessionOf)
    :
    Agree limits activation.organization now (usage.setSession activation state)
      (keys.setSession activation.member entry) where
  active := h.active
  session := by
    intro other horganization
    by_cases hother : other = activation
    · subst hother
      simp only [Usage.setSession, Keys.liveSession, Keys.setSession, if_true]
      exact hsame
    · have hmember : other.member ≠ activation.member := by
        intro hmember
        apply hother
        rw [← ofMember_member other, ← ofMember_member activation, horganization, hmember]
      simp only [Usage.setSession, Keys.liveSession, Keys.setSession, if_neg hother, if_neg hmember]
      exact h.session other horganization
  bucket := h.bucket.congr rfl rfl rfl

/-- The default session that `observe` may leave behind is forgotten at once. -/
theorem Agree.restoreSession :
    Agree limits activation.organization now
      (usage.setSession activation (some ((usage.sessions activation).getD {}))) keys where
  active := h.active
  session := by
    intro other horganization
    rw [← h.session other horganization]
    by_cases hother : other = activation
    · subst hother
      simp only [Usage.setSession, if_true]
      cases usage.sessions other with
      | none => rfl
      | some state => rfl
    · simp only [Usage.setSession, if_neg hother]
  bucket := h.bucket.congr rfl rfl rfl

end

theorem filter_sessionOf (entry : Expiring SessionHash) (hnow : now < 2 ^ 64 - 1) :
    (some (sessionOf entry)).filter (fun state => now < state.forgetAt) =
      ((some entry).filter fun entry => now < entry.expireAt).map sessionOf := by
  have hiff : now < (sessionOf entry).forgetAt ↔ now < entry.expireAt := lt_capped hnow
  simp only [Option.filter_some, hiff]
  by_cases hlive : now < entry.expireAt
  · simp only [hlive, decide_true, if_true, Option.map_some]
  · simp only [hlive, decide_false, Bool.false_eq_true, if_false, Option.map_none]

/-! ## Reads -/

/-- The call is not made in the very millisecond in which the session is forgotten. -/
def Keys.Settled (keys : Keys) (member : Member) (now : Nat) : Prop :=
  ∀ entry, keys.session member = some entry → entry.expireAt ≠ now

instance Keys.decidableSettled (keys : Keys) (member : Member) (now : Nat) :
    Decidable (keys.Settled member now) :=
  decidable_of_iff ((keys.session member).all fun entry => decide (entry.expireAt ≠ now)) (by
    unfold Keys.Settled
    cases keys.session member with
    | none => simp
    | some entry => simp)

theorem RedisServer.get_session (server : RedisServer) {member : Member}
    (hsettled : keys.Settled member now) :
    server.get now (keys.session member) = (keys.liveSession now member).map (·.value) := by
  unfold RedisServer.get Keys.liveSession
  cases hentry : keys.session member with
  | none => rfl
  | some entry =>
    have hne := hsettled entry hentry
    simp only [Option.filter_some]
    by_cases hlive : now < entry.expireAt
    · simp only [server.live _ _ hlive, hlive, Bool.not_false, decide_true, if_true]
    · simp only [server.gone entry.expireAt now (by omega), hlive, Bool.not_true, decide_false]

theorem ratePerMs_nonneg (limits : OrganizationLimits) : 0 ≤ limits.ratePerMs :=
  div_nonneg (Nat.cast_nonneg _) (by norm_num)

theorem available_of_full (limits : OrganizationLimits) (refilledAt now : Nat) :
    limits.available ⟨limits.startBurst, refilledAt⟩ now = limits.startBurst := by
  have helapsed : 0 ≤ ((now - refilledAt : Nat) : ℚ) * limits.ratePerMs :=
    mul_nonneg (Nat.cast_nonneg _) (ratePerMs_nonneg limits)
  exact min_eq_right (by linarith)

theorem Keys.bucketAt_of_live (server : RedisServer) {entry : Expiring BucketHash}
    (hbucket : keys.bucket = some entry) (hlive : server.expired entry.expireAt now = false)
    (burst : ℚ) : keys.bucketAt server burst now = ⟨entry.value.tokens, entry.value.updated⟩ := by
  unfold Keys.bucketAt RedisServer.get
  rw [hbucket, Option.filter_some, hlive]
  rfl

theorem Keys.bucketAt_of_gone (server : RedisServer) {entry : Expiring BucketHash}
    (hbucket : keys.bucket = some entry) (hgone : server.expired entry.expireAt now = true)
    (burst : ℚ) : keys.bucketAt server burst now = ⟨burst, now⟩ := by
  unfold Keys.bucketAt RedisServer.get
  rw [hbucket, Option.filter_some, hgone]
  rfl

theorem Keys.bucketAt_of_none (server : RedisServer) (hbucket : keys.bucket = none) (burst : ℚ) :
    keys.bucketAt server burst now = ⟨burst, now⟩ := by
  unfold Keys.bucketAt
  rw [hbucket]
  rfl

/-- Both stores find the same tokens, also when the key of the bucket has expired. -/
theorem BucketAgree.available_eq (h : BucketAgree limits now usage keys) (server : RedisServer) :
    limits.available (usage.bucket limits) now =
      limits.available (keys.bucketAt server limits.startBurst now) now := by
  cases h with
  | full htokens _ hbucket =>
    rw [Keys.bucketAt_of_none server hbucket, available_of_full]
    unfold Usage.bucket
    rw [htokens]
    exact available_of_full limits _ now
  | filling entry hbucket htokens hrefilled hnonneg hnow hfull =>
    have husage : usage.bucket limits = ⟨entry.value.tokens, entry.value.updated⟩ := by
      unfold Usage.bucket
      rw [htokens, hrefilled]
      rfl
    rw [husage]
    cases hexpired : server.expired entry.expireAt now with
    | false => rw [Keys.bucketAt_of_live server hbucket hexpired]
    | true =>
      rw [Keys.bucketAt_of_gone server hbucket hexpired, available_of_full]
      have hpassed : entry.expireAt ≤ now := by
        by_contra hlive
        rw [server.live _ _ (not_le.mp hlive)] at hexpired
        cases hexpired
      refine Bucket.available_eq_burst hnonneg (le_trans hfull ?_)
      apply mul_le_mul_of_nonneg_right _ (ratePerMs_nonneg limits)
      exact Nat.cast_le.mpr (Nat.sub_le_sub_right hpassed _)

theorem BucketAgree.refilledAt_eq (h : BucketAgree limits now usage keys) (server : RedisServer) :
    (limits.spend (usage.bucket limits) now).refilledAt = now ∧
      (limits.spend (keys.bucketAt server limits.startBurst now) now).refilledAt = now := by
  cases h with
  | full _ hrefilled hbucket =>
    rw [Keys.bucketAt_of_none server hbucket]
    refine ⟨?_, Nat.max_self now⟩
    show max usage.refilledAt now = now
    omega
  | filling entry hbucket _ hrefilled _ hnow _ =>
    refine ⟨?_, ?_⟩
    · show max usage.refilledAt now = now
      omega
    · cases hexpired : server.expired entry.expireAt now with
      | false =>
        rw [Keys.bucketAt_of_live server hbucket hexpired]
        exact Nat.max_eq_right hnow
      | true =>
        rw [Keys.bucketAt_of_gone server hbucket hexpired]
        exact Nat.max_self now

theorem BucketAgree.spend_eq (h : BucketAgree limits now usage keys) (server : RedisServer) :
    limits.spend (usage.bucket limits) now =
      limits.spend (keys.bucketAt server limits.startBurst now) now := by
  obtain ⟨hmemory, hredis⟩ := h.refilledAt_eq server
  have htokens : (limits.spend (usage.bucket limits) now).tokens =
      (limits.spend (keys.bucketAt server limits.startBurst now) now).tokens :=
    congrArg (· - 1) (h.available_eq server)
  exact Bucket.ext htokens (hmemory.trans hredis.symm)

/-- The key of a bucket lasts until the bucket has filled. -/
theorem burst_le_bucketTtlMs {rate burst : ℚ} (hrate : 0 < rate) :
    burst ≤ (bucketTtlMs rate burst : ℚ) * (rate / 1000) := by
  have hceil : burst / rate * 1000 ≤ (bucketTtlMs rate burst : ℚ) := by
    calc burst / rate * 1000 ≤ (⌈burst / rate * 1000⌉ : ℚ) := Int.le_ceil _
      _ ≤ ((max 1000 ⌈burst / rate * 1000⌉ : ℤ) : ℚ) := Int.cast_le.mpr (le_max_right _ _)
      _ ≤ ((bucketTtlMs rate burst : ℤ) : ℚ) := Int.cast_le.mpr (Int.self_le_toNat _)
      _ = (bucketTtlMs rate burst : ℚ) := Int.cast_natCast _
  calc burst = burst / rate * 1000 * (rate / 1000) := by field_simp
    _ ≤ (bucketTtlMs rate burst : ℚ) * (rate / 1000) :=
      mul_le_mul_of_nonneg_right hceil (by positivity)

/-! ## Calls -/

section Calls

variable {retentionMs : Nat} {server : RedisServer} {activation : Activation}

section

variable (h : Agree limits activation.organization now usage keys)
include h

/-- An admission does the same to both stores. -/
theorem Agree.withAdmission (hnow : now < 2 ^ 64 - 1) (hrate : 0 < limits.startsPerSecond)
    (hretention : 1 ≤ retentionMs) (htoken : 1 ≤ limits.available (usage.bucket limits) now) :
    Agree limits activation.organization now
      ((usage.setBucket (limits.spend (usage.bucket limits) now)).withAdmission retentionMs
        activation now)
      (keys.withAdmission limits activation.member
        (limits.spend (keys.bucketAt server limits.startBurst now) now) (max retentionMs 1)
        now) := by
  have hfilled : (limits.spend (usage.bucket limits) now).Filled (limits.startBurst : ℚ) :=
    Bucket.Filled.spend htoken
  have hrefilled := (h.bucket.refilledAt_eq server).1
  rw [← h.bucket.spend_eq server, Nat.max_eq_left hretention]
  generalize limits.spend (usage.bucket limits) now = spent at hfilled hrefilled ⊢
  have hbucket : Agree limits activation.organization now (usage.setBucket spent)
      { keys with bucket := some ⟨⟨spent.tokens, spent.refilledAt⟩,
          now + bucketTtlMs limits.startsPerSecond limits.startBurst⟩ } := by
    refine ⟨h.active, h.session, .filling _ rfl rfl rfl hfilled.1 (Nat.le_of_eq hrefilled) ?_⟩
    rw [hrefilled, Nat.add_sub_cancel_left]
    exact burst_le_bucketTtlMs (Nat.cast_pos.mpr hrate)
  have hslot := hbucket.insertSlot hnow (now + launchLeaseMs)
    (Nat.lt_add_of_pos_right (by decide))
  exact hslot.setSession (filter_sessionOf ⟨⟨0, 0, false⟩, now + retentionMs⟩ hnow)

omit h in
/-- A reservation has one answer, and does the same to both stores. -/
theorem reserve_agree (server : RedisServer)
    (h : Agree limits activation.organization now usage keys)
    (hnow : now < 2 ^ 64 - 1) (hrate : 0 < limits.startsPerSecond) (hretention : 1 ≤ retentionMs)
    (hsettled : keys.Settled activation.member now) :
    (usage.reserve retentionMs activation limits now).1 =
        (keys.reserve server retentionMs activation limits now).1 ∧
      Agree limits activation.organization now (usage.reserve retentionMs activation limits now).2
        (keys.reserve server retentionMs activation limits now).2 := by
  have hprune := h.prune
  have hactive := h.prune_active (Nat.le_refl now) hnow
  have hsession := h.prune_session (Nat.le_refl now) hnow activation rfl
  unfold Usage.reserve Keys.reserve
  rw [reserveLua_eq, server.get_session hsettled]
  dsimp only
  generalize usage.prune now = pruned at hprune hactive hsession ⊢
  rw [hsession]
  cases keys.liveSession now activation.member with
  | some entry =>
    dsimp only [Option.map_some]
    refine ⟨?_, hprune⟩
    show (if entry.value.stopped = true then _ else _) = _
    cases entry.value.stopped
    · rfl
    · rfl
  | none =>
    dsimp only [Option.map_none]
    have hdropped := hprune.dropSlots
    rw [hactive, List.length_map, Usage.consume_eq, ← hprune.bucket.available_eq server]
    by_cases hquota : (keys.active.live now).length < limits.maxActiveActors
    · rw [if_pos hquota, if_neg (not_le.mpr hquota)]
      by_cases htoken : 1 ≤ limits.available (pruned.bucket limits) now
      · rw [if_pos htoken, if_pos htoken]
        exact ⟨rfl, hdropped.withAdmission hnow hrate hretention htoken⟩
      · rw [if_neg htoken, if_neg htoken]
        exact ⟨rfl, hdropped⟩
    · rw [if_neg hquota, if_pos (not_lt.mp hquota)]
      exact ⟨rfl, hdropped⟩

theorem release_agree :
    Agree limits activation.organization now (usage.release activation) (keys.release activation) :=
  h.eraseSlot.setSession rfl

/-- A report does the same to both stores. -/
theorem observe_agree (hnow : now < 2 ^ 64 - 1) (hretention : 1 ≤ retentionMs)
    (hsettled : keys.Settled activation.member now) (report : LifecycleReport) :
    Agree limits activation.organization now (usage.observe retentionMs activation report now)
      (keys.observe server retentionMs activation report now) := by
  have hprune := h.prune
  have hsession := h.prune_session (Nat.le_refl now) hnow activation rfl
  unfold Usage.observe Keys.observe observeLua
  rw [server.get_session hsettled, Nat.max_eq_left hretention]
  dsimp only
  generalize usage.prune now = pruned at hprune hsession ⊢
  have hignored := hprune.restoreSession
  rw [hsession] at hignored ⊢
  have hstopped : (((keys.liveSession now activation.member).map sessionOf).getD {}).stopped =
      (((keys.liveSession now activation.member).map (·.value)).map (·.stopped)).getD false := by
    cases keys.liveSession now activation.member <;> rfl
  have hepoch : (((keys.liveSession now activation.member).map sessionOf).getD {}).epoch =
      (((keys.liveSession now activation.member).map (·.value)).map (·.epoch)).getD 0 := by
    cases keys.liveSession now activation.member <;> rfl
  have hsequence : (((keys.liveSession now activation.member).map sessionOf).getD {}).sequence =
      (((keys.liveSession now activation.member).map (·.value)).map (·.sequence)).getD 0 := by
    cases keys.liveSession now activation.member <;> rfl
  rw [← hstopped, ← hepoch, ← hsequence]
  generalize ((keys.liveSession now activation.member).map sessionOf).getD {} = state at hignored ⊢
  by_cases hstop : state.stopped = true
  · rw [if_pos (.inl hstop), if_pos hstop]
    exact hignored
  rw [if_neg hstop]
  by_cases hold : (state.epoch ≠ 0 ∧ state.epoch ≠ report.ownerEpoch) ∨
      report.sequence ≤ state.sequence
  · have hold' : state.stopped = true ∨ (0 < state.epoch ∧ state.epoch ≠ report.ownerEpoch) ∨
        report.sequence ≤ state.sequence := .inr (by rwa [Nat.pos_iff_ne_zero])
    rw [if_pos hold', if_pos hold]
    exact hignored
  have hnew : ¬ (state.stopped = true ∨ (0 < state.epoch ∧ state.epoch ≠ report.ownerEpoch) ∨
      report.sequence ≤ state.sequence) := by
    rw [Nat.pos_iff_ne_zero]
    exact not_or.mpr ⟨hstop, hold⟩
  rw [if_neg hnew, if_neg hold]
  by_cases hkind : report.kind = .stopped
  · rw [if_pos hkind, if_pos (decide_eq_true hkind), decide_eq_true hkind]
    exact hprune.eraseSlot.setSession
      (filter_sessionOf ⟨⟨report.ownerEpoch, report.sequence, true⟩, now + retentionMs⟩ hnow)
  · rw [if_neg hkind, if_neg (by rw [decide_eq_false hkind]; exact Bool.false_ne_true),
      decide_eq_false hkind]
    have hslot := hprune.insertSlot hnow (now + reportLeaseMs)
      (Nat.lt_add_of_pos_right (by decide))
    exact hslot.setSession
      (filter_sessionOf ⟨⟨report.ownerEpoch, report.sequence, false⟩, now + retentionMs⟩ hnow)

end

/-- The call does not read a session in the very millisecond in which it is forgotten. -/
def Keys.SettledFor (keys : Keys) (call : Call) : Prop :=
  match call.request with
  | .reserve activation => keys.Settled activation.member call.now
  | .release _ => True
  | .observe activation _ => keys.Settled activation.member call.now

instance (keys : Keys) (call : Call) : Decidable (keys.SettledFor call) :=
  match call with
  | ⟨_, .reserve _⟩ => Keys.decidableSettled _ _ _
  | ⟨_, .release _⟩ => .isTrue trivial
  | ⟨_, .observe _ _⟩ => Keys.decidableSettled _ _ _

theorem handle_agree (server : RedisServer) {call : Call}
    (h : Agree limits call.organization call.now usage keys) (hnow : call.now < 2 ^ 64 - 1)
    (hrate : 0 < limits.startsPerSecond) (hretention : 1 ≤ retentionMs)
    (hsettled : keys.SettledFor call) :
    (usage.handle retentionMs limits call).1 = (keys.handle server retentionMs limits call).1 ∧
      Agree limits call.organization call.now (usage.handle retentionMs limits call).2
        (keys.handle server retentionMs limits call).2 := by
  obtain ⟨now, request⟩ := call
  cases request with
  | reserve activation =>
    have hreserve := reserve_agree server h hnow hrate hretention hsettled
    exact ⟨congrArg some hreserve.1, hreserve.2⟩
  | release activation => exact ⟨rfl, release_agree h⟩
  | observe activation report => exact ⟨rfl, observe_agree h hnow hretention hsettled report⟩

end Calls

/-! ## Runs -/

/-- The stores agree on every organization. -/
def AgreeStores (limits : OrganizationLimits) (now : Nat) (m : MemoryReservations)
    (r : RedisReservations) : Prop :=
  ∀ organization, Agree limits organization now (m.organizations organization)
    (r.organizations organization)

/-- No session of the call is asked for in the millisecond it expires. -/
def RedisReservations.Settled (r : RedisReservations) (call : Call) : Prop :=
  (r.organizations call.organization).SettledFor call

instance (r : RedisReservations) (call : Call) : Decidable (r.Settled call) :=
  inferInstanceAs (Decidable ((r.organizations call.organization).SettledFor call))

/-- One call of both stores. -/
theorem AgreeStores.handle {m : MemoryReservations} {r : RedisReservations} {call : Call}
    {retentionMs : Nat} (server : RedisServer) (h : AgreeStores limits now m r)
    (hle : now ≤ call.now) (hnow : call.now < 2 ^ 64 - 1) (hrate : 0 < limits.startsPerSecond)
    (hretention : 1 ≤ retentionMs) (hsettled : r.Settled call) :
    (m.handle retentionMs limits call).1 = (r.handle server retentionMs limits call).1 ∧
      AgreeStores limits call.now (m.handle retentionMs limits call).2
        (r.handle server retentionMs limits call).2 := by
  have hcall := handle_agree server ((h call.organization).mono hle hnow) hnow hrate hretention
    hsettled
  refine ⟨hcall.1, fun organization => ?_⟩
  simp only [MemoryReservations.handle, RedisReservations.handle, MemoryReservations.set,
    RedisReservations.set]
  by_cases horganization : organization = call.organization
  · rw [if_pos horganization, if_pos horganization, horganization]
    exact hcall.2
  · rw [if_neg horganization, if_neg horganization]
    exact (h organization).mono hle hnow

/-- Stores that agree give one list of answers. -/
theorem AgreeStores.results_eq {m : MemoryReservations} {r : RedisReservations}
    {calls : List Call} {retentionMs : Nat} (server : RedisServer)
    (h : AgreeStores limits now m r)
    (hclock : calls.Pairwise fun call later => call.now ≤ later.now)
    (hstart : ∀ call ∈ calls, now ≤ call.now) (hbound : ∀ call ∈ calls, call.now < 2 ^ 64 - 1)
    (hrate : 0 < limits.startsPerSecond) (hretention : 1 ≤ retentionMs)
    (hsettled : Transition.Guarded (advance (RedisReservations.handle server retentionMs limits))
      RedisReservations.Settled r calls) :
    Machine.answers (MemoryReservations.handle retentionMs limits) m calls =
      Machine.answers (RedisReservations.handle server retentionMs limits) r calls := by
  induction calls generalizing now m r with
  | nil => rfl
  | cons call calls ih =>
    obtain ⟨hlater, hclock⟩ := List.pairwise_cons.mp hclock
    obtain ⟨hstart, -⟩ := List.forall_mem_cons.mp hstart
    obtain ⟨hnow, hbound⟩ := List.forall_mem_cons.mp hbound
    have hcall := h.handle server hstart hnow hrate hretention hsettled.1
    have hrest := ih hcall.2 hclock hlater hbound (hsettled.2 _ rfl)
    show _ :: _ = _ :: _
    rw [hcall.1, hrest]

theorem agreeStores_default : AgreeStores limits now {} {} := by
  intro organization
  exact ⟨rfl, fun _ _ => rfl, .full rfl rfl rfl⟩

/-- The Redis scripts answer every call as the store in memory does, unless a
session is asked for in the very millisecond in which it is forgotten. -/
theorem redis_refines_memory (server : RedisServer) (limits : OrganizationLimits)
    (retentionMs : Nat) (calls : List Call) (hrate : 0 < limits.startsPerSecond)
    (hretention : 1 ≤ retentionMs) (hclock : calls.Pairwise fun call later => call.now ≤ later.now)
    (hbound : ∀ call ∈ calls, call.now < 2 ^ 64 - 1)
    (hsettled : Transition.Guarded (advance (RedisReservations.handle server retentionMs limits))
      RedisReservations.Settled {} calls) :
    Machine.answers (MemoryReservations.handle retentionMs limits) {} calls =
      Machine.answers (RedisReservations.handle server retentionMs limits) {} calls :=
  agreeStores_default.results_eq server hclock (fun call _ => Nat.zero_le call.now) hbound hrate
    hretention hsettled

/-- The default limits. -/
def defaultLimits : OrganizationLimits := ⟨500, 50, 100⟩

/-- Two slots, one start in a second, two at once. -/
def tightLimits : OrganizationLimits := ⟨2, 1, 2⟩

/-- The slots run out, then the tokens; a session stops and is asked for again; another
organization starts; and after a day the sessions, the slots and the bucket have expired. -/
def tightCalls : List Call :=
  [⟨0, .reserve (exampleActivation "a")⟩, ⟨0, .reserve (exampleActivation "b")⟩,
    ⟨1, .reserve (exampleActivation "c")⟩,
    ⟨2, .observe (exampleActivation "a") ⟨.stopped, 1, 1⟩⟩,
    ⟨3, .reserve (exampleActivation "a")⟩, ⟨3, .reserve (exampleActivation "c")⟩,
    ⟨3, .reserve { exampleActivation "a" with organization := "other" }⟩,
    ⟨1000, .reserve (exampleActivation "c")⟩, ⟨86460003, .reserve (exampleActivation "a")⟩,
    ⟨86460004, .reserve (exampleActivation "b")⟩, ⟨86460004, .reserve (exampleActivation "d")⟩]

def tightResults : List (Option Result) :=
  [some (.ok ()), some (.ok ()), some (.error (.quota 2)), none, some (.error .stopped),
    some (.error (.rate 1)), some (.ok ()), some (.ok ()), some (.ok ()), some (.ok ()),
    some (.error (.quota 2))]

theorem redis_refines_memory_tight :
    Machine.answers (MemoryReservations.handle 86460000 tightLimits) {} tightCalls =
        tightResults ∧
      Machine.answers (RedisReservations.handle redisServer 86460000 tightLimits) {} tightCalls =
        tightResults := by
  have hmemory : Machine.answers (MemoryReservations.handle 86460000 tightLimits) {} tightCalls =
      tightResults := by
    decide +kernel
  exact ⟨hmemory, (redis_refines_memory redisServer tightLimits 86460000 tightCalls (by decide)
    (by decide) (by decide) (by decide) (by decide +kernel)).symm.trans hmemory⟩

/-- A day after its stop, in the millisecond in which memory forgets the session,
memory admits the activation and Redis still refuses it. -/
theorem stores_differ_when_forgotten :
    Machine.answers (MemoryReservations.handle 86460000 defaultLimits) {}
        [⟨0, .observe (exampleActivation "a") ⟨.stopped, 1, 1⟩⟩,
          ⟨86460000, .reserve (exampleActivation "a")⟩] = [none, some (.ok ())] ∧
      Machine.answers (RedisReservations.handle redisServer 86460000 defaultLimits) {}
        [⟨0, .observe (exampleActivation "a") ⟨.stopped, 1, 1⟩⟩,
          ⟨86460000, .reserve (exampleActivation "a")⟩] = [none, some (.error .stopped)] := by
  decide +kernel

end DurableActors.Ports.Admission
