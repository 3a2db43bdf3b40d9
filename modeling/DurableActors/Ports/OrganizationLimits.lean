import DurableActors.Ports.StoragePaths
import DurableActors.Ports.UsageSessions
import DurableActors.Verified.Machine
import DurableActors.Verified.TokenBucket
import Mathlib.Algebra.Order.Floor.Ring
import Mathlib.Data.Rat.Floor

/-!
# Admission of activations to an organization

An organization has a number of active slots and a start rate.  `reserve` admits
an activation to a slot for the length of a launch; reports of the host renew
the slot or free it, and a stopped activation is not admitted again while its
session is remembered.

`MemoryReservations` prunes what has expired whenever it is called.
`RedisReservations` runs the scripts `reserve.lua`, `release.lua` and
`observe.lua`: its sessions and its bucket are keys that expire, its slots a
sorted set by the time of expiry.  Tokens are exact rationals.
-/

namespace DurableActors.Ports.Admission

open Verified StoragePaths
open Usage (LifecycleKind)

/-- `LAUNCH_LEASE_MS` -/
def launchLeaseMs : Nat := 180000

/-- `REPORT_LEASE_MS` -/
def reportLeaseMs : Nat := 35000

structure OrganizationLimits where
  maxActiveActors : Nat
  startsPerSecond : Nat
  startBurst : Nat
deriving DecidableEq, Repr

/-- An activation: a session of an actor on a host. -/
structure Activation where
  organization : String
  actor : ActorKey
  host : String
  session : String
deriving DecidableEq, Repr

/-- A session of one actor, for the examples. -/
def exampleActivation (session : String) : Activation :=
  ⟨"org", ⟨"project", "Actor", "a"⟩, "host", session⟩

/-- The tuple whose JSON text names the activation within its organization. -/
abbrev Member := String × String × String × String × String

def Activation.member (activation : Activation) : Member :=
  (activation.actor.projectId, activation.actor.actorName, activation.actor.actorId,
    activation.host, activation.session)

/-- A report of a host about an activation. -/
structure LifecycleReport where
  kind : LifecycleKind
  ownerEpoch : Nat
  sequence : Nat
deriving DecidableEq, Repr

/-- Why an activation is not admitted. -/
inductive AdmissionRejected
  | quota (limit : Nat)
  | rate (retryAfterSeconds : Nat)
  /-- "actor activation has already stopped" -/
  | stopped
deriving DecidableEq, Repr

/-- The seconds until there is a token again. -/
def retryAfter (tokens rate : ℚ) : Nat := (max 1 ⌈(1 - tokens) / rate⌉).toNat

/-- `u64::saturating_add` -/
def saturatingAdd (a b : Nat) : Nat := min (a + b) (2 ^ 64 - 1)

/-! ## Slots -/

/-- Members with the time at which each expires: a hash map, or a sorted set. -/
abbrev Slots (A : Type) := List (A × Nat)

namespace Slots

variable {A : Type} [DecidableEq A]

def erase (slots : Slots A) (a : A) : Slots A := slots.filter fun slot => slot.1 ≠ a

def insert (slots : Slots A) (a : A) (expiresAt : Nat) : Slots A :=
  (a, expiresAt) :: slots.erase a

def live (slots : Slots A) (now : Nat) : Slots A := slots.filter fun slot => now < slot.2

variable {now later : Nat}

omit [DecidableEq A] in
theorem live_live (slots : Slots A) (h : now ≤ later) :
    (slots.live now).live later = slots.live later := by
  unfold live
  rw [List.filter_filter]
  apply List.filter_congr
  intro slot _
  by_cases hlater : later < slot.2
  · simp only [hlater, Nat.lt_of_le_of_lt h hlater, decide_true, Bool.and_self]
  · simp only [hlater, decide_false, Bool.false_and]

theorem live_erase (slots : Slots A) (a : A) (now : Nat) :
    (slots.erase a).live now = (slots.live now).erase a := by
  unfold live erase
  rw [List.filter_filter, List.filter_filter]
  apply List.filter_congr
  intro slot _
  exact Bool.and_comm _ _

theorem live_insert (slots : Slots A) (a : A) {expiresAt : Nat} (h : now < expiresAt) :
    (slots.insert a expiresAt).live now = (slots.live now).insert a expiresAt := by
  unfold insert
  rw [← live_erase]
  exact List.filter_cons_of_pos (decide_eq_true h)

theorem mem_insert_iff {slots : Slots A} {a : A} {expiresAt : Nat} {slot : A × Nat} :
    slot ∈ slots.insert a expiresAt ↔ slot = (a, expiresAt) ∨ slot ∈ slots ∧ slot.1 ≠ a := by
  unfold insert erase
  rw [List.mem_cons, List.mem_filter, decide_eq_true_eq]

theorem mem_erase_iff {slots : Slots A} {a : A} {slot : A × Nat} :
    slot ∈ slots.erase a ↔ slot ∈ slots ∧ slot.1 ≠ a := by
  unfold erase
  rw [List.mem_filter, decide_eq_true_eq]

end Slots

/-- What is alive later is alive now. -/
theorem filter_later {α : Type} {expireAt : α → Nat} {now later : Nat} (entry : Option α)
    (hle : now ≤ later) :
    ((entry.filter fun e => now < expireAt e).filter fun e => later < expireAt e) =
      entry.filter fun e => later < expireAt e := by
  cases entry with
  | none => rfl
  | some e =>
    simp only [Option.filter_some]
    by_cases hlater : later < expireAt e
    · simp only [hlater, Nat.lt_of_le_of_lt hle hlater, decide_true, if_true, Option.filter_some]
    · by_cases hnow : now < expireAt e
      · simp only [hlater, hnow, decide_true, decide_false, if_true, Option.filter_some]
      · simp only [hlater, hnow, decide_false, Bool.false_eq_true, if_false, Option.filter_none]

/-! ## In memory -/

/-- What is remembered of an activation. -/
structure Session where
  epoch : Nat := 0
  sequence : Nat := 0
  stopped : Bool := false
  forgetAt : Nat := 0
deriving DecidableEq, Repr

@[ext]
structure Usage where
  active : Slots Activation := []
  sessions : Activation → Option Session := fun _ => none
  tokens : Option ℚ := none
  refilledAt : Nat := 0

namespace Usage

/-- What has expired is forgotten. -/
def prune (usage : Usage) (now : Nat) : Usage :=
  { usage with
    active := usage.active.live now
    sessions := fun a => (usage.sessions a).filter fun state => now < state.forgetAt }

def setSession (usage : Usage) (activation : Activation) (state : Option Session) : Usage :=
  { usage with sessions := fun a => if a = activation then state else usage.sessions a }

/-- `consume`: spend a token, or say when there is one. -/
def consume (usage : Usage) (limits : OrganizationLimits) (now : Nat) :
    Except AdmissionRejected Usage :=
  let rate : ℚ := limits.startsPerSecond
  let burst : ℚ := limits.startBurst
  let tokens := min (usage.tokens.getD burst + ((now - usage.refilledAt : Nat) : ℚ) * rate / 1000)
    burst
  if 1 ≤ tokens then
    .ok { usage with tokens := some (tokens - 1), refilledAt := max usage.refilledAt now }
  else .error (.rate (retryAfter tokens rate))

variable (retentionMs : Nat)

/-- `MemoryReservations::forget_at` -/
def forgetAt (now : Nat) : Nat := saturatingAdd now retentionMs

/-- The usage with the activation admitted. -/
def withAdmission (usage : Usage) (activation : Activation) (now : Nat) : Usage :=
  ({ usage with active := usage.active.insert activation (saturatingAdd now launchLeaseMs) } :
    Usage).setSession activation (some { forgetAt := forgetAt retentionMs now })

/-- `reserve`, on the usage of the activation's organization. -/
def reserve (usage : Usage) (activation : Activation) (limits : OrganizationLimits) (now : Nat) :
    Except AdmissionRejected Unit × Usage :=
  let usage := usage.prune now
  match usage.sessions activation with
  | some state => (if state.stopped then .error .stopped else .ok (), usage)
  | none =>
    if usage.active.length < limits.maxActiveActors then
      match usage.consume limits now with
      | .error rejected => (.error rejected, usage)
      | .ok usage => (.ok (), usage.withAdmission retentionMs activation now)
    else (.error (.quota limits.maxActiveActors), usage)

/-- `release` -/
def release (usage : Usage) (activation : Activation) : Usage :=
  ({ usage with active := usage.active.erase activation } : Usage).setSession activation none

/-- `observe` -/
def observe (usage : Usage) (activation : Activation) (report : LifecycleReport) (now : Nat) :
    Usage :=
  let usage := usage.prune now
  let state := (usage.sessions activation).getD {}
  if state.stopped ∨ (0 < state.epoch ∧ state.epoch ≠ report.ownerEpoch) ∨
      report.sequence ≤ state.sequence then
    usage.setSession activation (some state)
  else if report.kind = .stopped then
    ({ usage with active := usage.active.erase activation } : Usage).setSession activation
      (some ⟨report.ownerEpoch, report.sequence, true, forgetAt retentionMs now⟩)
  else
    ({ usage with
        active := usage.active.insert activation (saturatingAdd now reportLeaseMs) } :
      Usage).setSession activation
      (some ⟨report.ownerEpoch, report.sequence, false, forgetAt retentionMs now⟩)

end Usage

/-- An organization without an entry has the default usage. -/
structure MemoryReservations where
  organizations : String → Usage := fun _ => {}

def MemoryReservations.set (m : MemoryReservations) (organization : String) (usage : Usage) :
    MemoryReservations :=
  ⟨fun o => if o = organization then usage else m.organizations o⟩

/-! ## In Redis -/

/-- A value with the time its key expires. -/
structure Expiring (α : Type) where
  value : α
  expireAt : Nat
deriving DecidableEq, Repr

/-- When a key set to expire at one time is gone at another. -/
structure RedisServer where
  expired : Nat → Nat → Bool
  live : ∀ expireAt now, now < expireAt → expired expireAt now = false
  gone : ∀ expireAt now, expireAt < now → expired expireAt now = true

/-- What a key holds at `now`. -/
def RedisServer.get {α : Type} (server : RedisServer) (now : Nat) (key : Option (Expiring α)) :
    Option α :=
  (key.filter fun entry => ! server.expired entry.expireAt now).map (·.value)

/-- The server removes a key once its time has passed. -/
def redisServer : RedisServer where
  expired expireAt now := decide (expireAt < now)
  live := fun _ _ h => decide_eq_false (by omega)
  gone := fun _ _ h => decide_eq_true h

/-- The hash of a session. -/
structure SessionHash where
  epoch : Nat
  sequence : Nat
  stopped : Bool
deriving DecidableEq, Repr

/-- The hash of a bucket. -/
structure BucketHash where
  tokens : ℚ
  updated : Nat
deriving DecidableEq, Repr

/-- The keys of an organization. -/
structure Keys where
  active : Slots Member := []
  bucket : Option (Expiring BucketHash) := none
  session : Member → Option (Expiring SessionHash) := fun _ => none

def Keys.setSession (keys : Keys) (member : Member) (entry : Option (Expiring SessionHash)) :
    Keys :=
  { keys with session := fun m => if m = member then entry else keys.session m }

/-- The time a bucket takes to fill, and a second at least. -/
def bucketTtlMs (rate burst : ℚ) : Nat := (max 1000 ⌈burst / rate * 1000⌉).toNat

section Scripts

variable (server : RedisServer)

/-- `reserve.lua`: the reply and the keys it leaves. -/
def reserveLua (keys : Keys) (member : Member) (maxActive : Nat) (rate burst : ℚ)
    (launchMs retentionMs now : Nat) : (Nat × Nat) × Keys :=
  match server.get now (keys.session member) with
  | some hash => if hash.stopped then ((3, 0), keys) else ((0, 0), keys)
  | none =>
    let keys := { keys with active := keys.active.live now }
    if maxActive ≤ keys.active.length then ((1, 0), keys)
    else
      let previous := server.get now keys.bucket
      let updated := (previous.map (·.updated)).getD now
      let tokens := min burst
        ((previous.map (·.tokens)).getD burst + ((now - updated : Nat) : ℚ) * rate / 1000)
      if tokens < 1 then ((2, retryAfter tokens rate), keys)
      else ((0, 0), ({ keys with
        bucket := some ⟨⟨tokens - 1, max now updated⟩, now + bucketTtlMs rate burst⟩
        active := keys.active.insert member (now + launchMs) } : Keys).setSession member
          (some ⟨⟨0, 0, false⟩, now + retentionMs⟩))

/-- `release.lua` -/
def releaseLua (keys : Keys) (member : Member) : Keys :=
  ({ keys with active := keys.active.erase member } : Keys).setSession member none

/-- `observe.lua` -/
def observeLua (keys : Keys) (member : Member) (epoch sequence : Nat) (stopped : Bool)
    (retentionMs reportMs now : Nat) : Keys :=
  let previous := server.get now (keys.session member)
  if (previous.map (·.stopped)).getD false then keys
  else
    let previousEpoch := (previous.map (·.epoch)).getD 0
    let previousSequence := (previous.map (·.sequence)).getD 0
    if (previousEpoch ≠ 0 ∧ previousEpoch ≠ epoch) ∨ sequence ≤ previousSequence then keys
    else
      let keys := keys.setSession member (some ⟨⟨epoch, sequence, stopped⟩, now + retentionMs⟩)
      if stopped then { keys with active := keys.active.erase member }
      else { keys with active := keys.active.insert member (now + reportMs) }

end Scripts

/-- What `RedisReservations::reserve` makes of the reply of the script. -/
def replyResult (limits : OrganizationLimits) : Nat × Nat → Except AdmissionRejected Unit
  | (0, _) => .ok ()
  | (1, _) => .error (.quota limits.maxActiveActors)
  | (2, retry) => .error (.rate retry)
  | _ => .error .stopped

namespace Keys

variable (server : RedisServer) (retentionMs : Nat)

def reserve (keys : Keys) (activation : Activation) (limits : OrganizationLimits) (now : Nat) :
    Except AdmissionRejected Unit × Keys :=
  let (reply, keys) := reserveLua server keys activation.member limits.maxActiveActors
    limits.startsPerSecond limits.startBurst launchLeaseMs (max retentionMs 1) now
  (replyResult limits reply, keys)

def release (keys : Keys) (activation : Activation) : Keys := releaseLua keys activation.member

def observe (keys : Keys) (activation : Activation) (report : LifecycleReport) (now : Nat) :
    Keys :=
  observeLua server keys activation.member report.ownerEpoch report.sequence
    (report.kind = .stopped) (max retentionMs 1) reportLeaseMs now

end Keys

/-- The keys carry the organization in their names. -/
structure RedisReservations where
  organizations : String → Keys := fun _ => {}

def RedisReservations.set (r : RedisReservations) (organization : String) (keys : Keys) :
    RedisReservations :=
  ⟨fun o => if o = organization then keys else r.organizations o⟩

/-! ## The bucket

Both stores spend from a token bucket that gains `startsPerSecond` tokens in a
thousand milliseconds. -/

open TokenBucket

namespace OrganizationLimits

/-- The tokens gained in a millisecond. -/
def ratePerMs (limits : OrganizationLimits) : ℚ := (limits.startsPerSecond : ℚ) / 1000

/-- The tokens of the bucket at `now`. -/
def available (limits : OrganizationLimits) (bucket : Bucket ℚ) (now : Nat) : ℚ :=
  bucket.available limits.ratePerMs limits.startBurst now

def spend (limits : OrganizationLimits) (bucket : Bucket ℚ) (now : Nat) : Bucket ℚ :=
  bucket.spend limits.ratePerMs limits.startBurst now

end OrganizationLimits

/-- The bucket; it is full before the first start. -/
def Usage.bucket (usage : Usage) (limits : OrganizationLimits) : Bucket ℚ :=
  ⟨usage.tokens.getD limits.startBurst, usage.refilledAt⟩

def Usage.setBucket (usage : Usage) (bucket : Bucket ℚ) : Usage :=
  { usage with tokens := some bucket.tokens, refilledAt := bucket.refilledAt }

theorem Usage.consume_eq (usage : Usage) (limits : OrganizationLimits) (now : Nat) :
    usage.consume limits now = if 1 ≤ limits.available (usage.bucket limits) now then
        .ok (usage.setBucket (limits.spend (usage.bucket limits) now))
      else .error (.rate (retryAfter (limits.available (usage.bucket limits) now)
        limits.startsPerSecond)) := by
  have htokens : limits.available (usage.bucket limits) now =
      min (usage.tokens.getD limits.startBurst +
        ((now - usage.refilledAt : Nat) : ℚ) * limits.startsPerSecond / 1000)
        limits.startBurst := by
    rw [mul_div_assoc]
    rfl
  unfold Usage.consume
  dsimp only
  rw [← htokens]
  rfl

/-- What `reserve` answers and leaves, by what it finds in the pruned usage. -/
inductive Usage.Reserved (retentionMs : Nat) (limits : OrganizationLimits) (pruned : Usage)
    (activation : Activation) (now : Nat) : Except AdmissionRejected Unit × Usage → Prop
  | known {state : Session} (hsession : pruned.sessions activation = some state) :
      Usage.Reserved retentionMs limits pruned activation now
        (if state.stopped then .error .stopped else .ok (), pruned)
  | noSlot (hsession : pruned.sessions activation = none)
      (hslots : limits.maxActiveActors ≤ pruned.active.length) :
      Usage.Reserved retentionMs limits pruned activation now
        (.error (.quota limits.maxActiveActors), pruned)
  | noToken (hsession : pruned.sessions activation = none)
      (htoken : ¬ 1 ≤ limits.available (pruned.bucket limits) now) :
      Usage.Reserved retentionMs limits pruned activation now
        (.error (.rate (retryAfter (limits.available (pruned.bucket limits) now)
          limits.startsPerSecond)), pruned)
  | admitted (hsession : pruned.sessions activation = none)
      (htoken : 1 ≤ limits.available (pruned.bucket limits) now) :
      Usage.Reserved retentionMs limits pruned activation now
        (.ok (), (pruned.setBucket (limits.spend (pruned.bucket limits) now)).withAdmission
          retentionMs activation now)

/-- The outcomes of `reserve`. -/
theorem Usage.reserve_outcome (retentionMs : Nat) (usage : Usage) (activation : Activation)
    (limits : OrganizationLimits) (now : Nat) :
    Usage.Reserved retentionMs limits (usage.prune now) activation now
      (usage.reserve retentionMs activation limits now) := by
  unfold Usage.reserve
  dsimp only
  generalize usage.prune now = pruned
  cases hsession : pruned.sessions activation with
  | some state => exact .known hsession
  | none =>
    dsimp only
    by_cases hslots : pruned.active.length < limits.maxActiveActors
    · rw [if_pos hslots, Usage.consume_eq]
      by_cases htoken : 1 ≤ limits.available (pruned.bucket limits) now
      · rw [if_pos htoken]
        exact .admitted hsession htoken
      · rw [if_neg htoken]
        exact .noToken hsession htoken
    · rw [if_neg hslots]
      exact .noSlot hsession (not_lt.mp hslots)

/-- The bucket that the script finds; without a key it is full. -/
def Keys.bucketAt (server : RedisServer) (keys : Keys) (burst : ℚ) (now : Nat) : Bucket ℚ :=
  match server.get now keys.bucket with
  | some hash => ⟨hash.tokens, hash.updated⟩
  | none => ⟨burst, now⟩

/-- The keys after an admission. -/
def Keys.withAdmission (keys : Keys) (limits : OrganizationLimits) (member : Member)
    (bucket : Bucket ℚ) (retentionMs now : Nat) : Keys :=
  ({ keys with
      bucket := some ⟨⟨bucket.tokens, bucket.refilledAt⟩,
        now + bucketTtlMs limits.startsPerSecond limits.startBurst⟩
      active := keys.active.insert member (now + launchLeaseMs) } : Keys).setSession member
    (some ⟨⟨0, 0, false⟩, now + retentionMs⟩)

theorem Keys.available_bucketAt (server : RedisServer) (keys : Keys) (limits : OrganizationLimits)
    (now : Nat) :
    limits.available (keys.bucketAt server limits.startBurst now) now = min (limits.startBurst : ℚ)
        (((server.get now keys.bucket).map (·.tokens)).getD (limits.startBurst : ℚ) +
          ((now - ((server.get now keys.bucket).map (·.updated)).getD now : Nat) : ℚ) *
            limits.startsPerSecond / 1000) := by
  unfold Keys.bucketAt
  cases server.get now keys.bucket with
  | none =>
    rw [min_comm, mul_div_assoc]
    rfl
  | some hash =>
    rw [min_comm, mul_div_assoc]
    rfl

theorem Keys.refilledAt_spend (server : RedisServer) (keys : Keys) (limits : OrganizationLimits)
    (now : Nat) :
    (limits.spend (keys.bucketAt server limits.startBurst now) now).refilledAt =
      max now (((server.get now keys.bucket).map (·.updated)).getD now) := by
  unfold Keys.bucketAt
  cases server.get now keys.bucket with
  | none => exact Nat.max_comm _ _
  | some hash => exact Nat.max_comm _ _

/-- The script, without its encodings. -/
theorem reserveLua_eq (server : RedisServer) (keys : Keys) (limits : OrganizationLimits)
    (member : Member) (retentionMs now : Nat) :
    reserveLua server keys member limits.maxActiveActors limits.startsPerSecond limits.startBurst
        launchLeaseMs retentionMs now =
      match server.get now (keys.session member) with
      | some hash => (if hash.stopped then (3, 0) else (0, 0), keys)
      | none =>
        let pruned := { keys with active := keys.active.live now }
        let bucket := keys.bucketAt server limits.startBurst now
        if limits.maxActiveActors ≤ pruned.active.length then ((1, 0), pruned)
        else if 1 ≤ limits.available bucket now then
          ((0, 0), pruned.withAdmission limits member (limits.spend bucket now) retentionMs now)
        else ((2, retryAfter (limits.available bucket now) limits.startsPerSecond), pruned) := by
  unfold reserveLua
  cases server.get now (keys.session member) with
  | some hash => exact (apply_ite (fun reply => (reply, keys)) _ _ _).symm
  | none =>
    dsimp only
    split
    · rfl
    · rw [← Keys.available_bucketAt, ← Keys.refilledAt_spend server keys limits now]
      by_cases htoken : 1 ≤ limits.available (keys.bucketAt server limits.startBurst now) now
      · rw [if_neg (not_lt.mpr htoken), if_pos htoken]
        rfl
      · rw [if_pos (not_le.mp htoken), if_neg htoken]

/-- The checks of `reserve.lua` before it spends: the session is not known, a slot is
free, and the bucket has a token. -/
def Keys.Admissible (server : RedisServer) (limits : OrganizationLimits) (keys : Keys)
    (activation : Activation) (now : Nat) : Prop :=
  server.get now (keys.session activation.member) = none ∧
    (keys.active.live now).length < limits.maxActiveActors ∧
    1 ≤ limits.available (keys.bucketAt server limits.startBurst now) now

/-- What `reserve` answers and leaves, by what the script finds. -/
inductive Keys.Reserved (server : RedisServer) (retentionMs : Nat) (limits : OrganizationLimits)
    (keys : Keys) (activation : Activation) (now : Nat) :
    Except AdmissionRejected Unit × Keys → Prop
  | known {hash : SessionHash}
      (hsession : server.get now (keys.session activation.member) = some hash) :
      Keys.Reserved server retentionMs limits keys activation now
        (if hash.stopped then .error .stopped else .ok (), keys)
  | noSlot (hsession : server.get now (keys.session activation.member) = none) :
      Keys.Reserved server retentionMs limits keys activation now
        (.error (.quota limits.maxActiveActors), { keys with active := keys.active.live now })
  | noToken (hsession : server.get now (keys.session activation.member) = none)
      (htoken : ¬ 1 ≤ limits.available (keys.bucketAt server limits.startBurst now) now) :
      Keys.Reserved server retentionMs limits keys activation now
        (.error (.rate (retryAfter
          (limits.available (keys.bucketAt server limits.startBurst now) now)
          limits.startsPerSecond)), { keys with active := keys.active.live now })
  | admitted (hchecks : keys.Admissible server limits activation now) :
      Keys.Reserved server retentionMs limits keys activation now
        (.ok (), ({ keys with active := keys.active.live now } : Keys).withAdmission limits
          activation.member (limits.spend (keys.bucketAt server limits.startBurst now) now)
          (max retentionMs 1) now)

/-- The outcomes of the script. -/
theorem Keys.reserve_outcome (server : RedisServer) (retentionMs : Nat) (keys : Keys)
    (activation : Activation) (limits : OrganizationLimits) (now : Nat) :
    Keys.Reserved server retentionMs limits keys activation now
      (keys.reserve server retentionMs activation limits now) := by
  unfold Keys.reserve
  rw [reserveLua_eq]
  cases hsession : server.get now (keys.session activation.member) with
  | some hash =>
    have hreply : replyResult limits (if hash.stopped = true then (3, 0) else (0, 0)) =
        if hash.stopped = true then .error .stopped else .ok () := by
      cases hash.stopped <;> rfl
    dsimp only
    rw [hreply]
    exact .known hsession
  | none =>
    dsimp only
    split
    · exact .noSlot hsession
    · rename_i hslots
      split
      · rename_i htoken
        exact .admitted ⟨hsession, not_le.mp hslots, htoken⟩
      · rename_i htoken
        exact .noToken hsession htoken

/-! ## Calls -/

/-- A call of the reservations. -/
inductive Request
  | reserve (activation : Activation)
  | release (activation : Activation)
  | observe (activation : Activation) (report : LifecycleReport)
deriving DecidableEq, Repr

def Request.activation : Request → Activation
  | .reserve activation => activation
  | .release activation => activation
  | .observe activation _ => activation

/-- A request at a reading of the clock. -/
structure Call where
  now : Nat
  request : Request
deriving DecidableEq, Repr

def Call.organization (call : Call) : String := call.request.activation.organization

abbrev Result := Except AdmissionRejected Unit

/-- The call on the usage of its organization. -/
def Usage.handle (retentionMs : Nat) (limits : OrganizationLimits) (usage : Usage) (call : Call) :
    Option Result × Usage :=
  match call.request with
  | .reserve activation =>
    let (result, usage) := usage.reserve retentionMs activation limits call.now
    (some result, usage)
  | .release activation => (none, usage.release activation)
  | .observe activation report => (none, usage.observe retentionMs activation report call.now)

/-- The call on the keys of its organization. -/
def Keys.handle (server : RedisServer) (retentionMs : Nat) (limits : OrganizationLimits)
    (keys : Keys) (call : Call) : Option Result × Keys :=
  match call.request with
  | .reserve activation =>
    let (result, keys) := keys.reserve server retentionMs activation limits call.now
    (some result, keys)
  | .release activation => (none, keys.release activation)
  | .observe activation report =>
    (none, keys.observe server retentionMs activation report call.now)

def MemoryReservations.handle (retentionMs : Nat) (limits : OrganizationLimits)
    (m : MemoryReservations) (call : Call) : Option Result × MemoryReservations :=
  let (result, usage) := (m.organizations call.organization).handle retentionMs limits call
  (result, m.set call.organization usage)

def RedisReservations.handle (server : RedisServer) (retentionMs : Nat)
    (limits : OrganizationLimits) (r : RedisReservations) (call : Call) :
    Option Result × RedisReservations :=
  let (result, keys) := (r.organizations call.organization).handle server retentionMs limits call
  (result, r.set call.organization keys)

/-- A call as a step of the store. -/
def advance {σ : Type} (handle : σ → Call → Option Result × σ) (s : σ) (call : Call) : Option σ :=
  some (handle s call).2

end DurableActors.Ports.Admission
