import DurableActors.Verified.Transition
import DurableActors.Ports.ActivationStep

/-!
# What every reachable ownership state satisfies

The argument for failover rests on four facts about a record's base and the
writes answered so far.

* A local record's lease never outlives the durable one: it is bounded by the
  current record of its epoch, or it has run out, or its session is fenced.
* A takeover was validated against a lease that had already run out, so no
  unfenced session can pass its second owner check once the successor has
  listed the log.
* Hence every installed record, and every claim that may still be installed,
  accounts for every acknowledged write of the epochs before it
  (`Accounts`).
* A sealed record accounts for its own epoch as well; for a release with a
  checkpoint that needs `Quiet`: no upload is counted between the reading of
  the base and the fence.
-/

namespace DurableActors.Ports.Activation

open Verified

/-! ## Positions -/

theorem Object.le_def {a b : Object} :
    a ≤ b ↔ a.epoch < b.epoch ∨ a.epoch = b.epoch ∧ a.version ≤ b.version :=
  Iff.rfl

theorem Object.le_trans {a b c : Object} (hab : a ≤ b) (hbc : b ≤ c) : a ≤ c := by
  rw [Object.le_def] at hab hbc ⊢
  omega

/-- The base stands at or after the write `x`. -/
def Covers (base : Option SnapshotRef) (x : Object) : Prop :=
  ∃ b, base = some b ∧ x ≤ b.object

/-- The writes a record's base has to account for: those of earlier epochs
and, once it is sealed, those of its own. -/
def Ownership.Answers (record : Ownership) (x : Object) : Prop :=
  x.epoch < record.epoch ∨ record.isSealed = true ∧ x.epoch = record.epoch

/-- `r` may stand after `p` in the history. -/
structure Precedes (p r : Ownership) : Prop where
  base : baseVersion p.base ≤ baseVersion r.base
  epoch : p.epoch < r.epoch ∨
    p.epoch = r.epoch ∧ p.lease.session = r.lease.session ∧
      p.isSealed = false ∧ (r.isSealed = true ∨ r.base = p.base)

theorem Precedes.trans {p q r : Ownership} (hpq : Precedes p q)
    (hqr : Precedes q r) : Precedes p r := by
  refine ⟨hpq.base.trans hqr.base, ?_⟩
  rcases hpq.epoch with h | ⟨h, hs, hp, hb⟩
  · rcases hqr.epoch with h' | ⟨h', -⟩
    · exact .inl (h.trans h')
    · exact .inl (h' ▸ h)
  · rcases hqr.epoch with h' | ⟨h', hs', hq, hb'⟩
    · exact .inl (h ▸ h')
    · refine .inr ⟨h.trans h', hs.trans hs', hp, ?_⟩
      rcases hb' with hb' | hb'
      · exact .inl hb'
      · rcases hb with hb | hb
        · simp [hb] at hq
        · exact .inr (hb'.trans hb)

/-! ## Claims -/

/-- A request that would still be installed. -/
def Claim.Live (history : List Ownership) (c : Claim) : Prop :=
  c.expected = VersionedCell.generation history

/-- `c` succeeds the expired record `p` of another session. -/
structure Claim.Takeover (now : Nat) (c : Claim) (p : Ownership) : Prop where
  epoch : c.record.epoch = p.epoch + 1
  expired : p.lease.expiresAtMs ≤ now
  unsealed : c.record.isSealed = false
  base : baseVersion p.base ≤ baseVersion c.record.base

/-- `c` prolongs the session's own record `p`. -/
structure Claim.Renewal (c : Claim) (p : Ownership) : Prop where
  epoch : c.record.epoch = p.epoch
  session : p.lease.session = c.host
  unsealed : p.isSealed = false ∧ c.record.isSealed = false
  base : c.record.base = p.base
  lease : p.lease.expiresAtMs ≤ c.record.lease.expiresAtMs

/-- `c` ends the session's own record `p`. -/
structure Claim.Release (c : Claim) (p : Ownership) : Prop where
  epoch : c.record.epoch = p.epoch
  session : p.lease.session = c.host
  unsealed : p.isSealed = false
  expired : c.record.lease.expiresAtMs = 0
  base : baseVersion p.base ≤ baseVersion c.record.base
  kept : c.record.isSealed = true ∨ c.record.base = p.base

/-- What the sender knew of the record it replaces. -/
def Claim.Follows (now : Nat) (history : List Ownership) (c : Claim) : Prop :=
  c.expected = none ∨
    ∃ g p, c.expected = some g ∧ VersionedCell.valueAt history g = some p ∧
      (c.Takeover now p ∨ c.Renewal p ∨ c.Release p)

/-- What holds of a record from the time it is sent. -/
structure RecordInv (cfg : Config) (now mutations : Nat) (r : Ownership) : Prop where
  bounded : r.lease.expiresAtMs ≤ now + cfg.durationMs r.lease.session
  released : r.isSealed = true → r.lease.expiresAtMs = 0
  based : ∀ b, r.base = some b → r.Answers b.object
  minted : r.mutation < mutations

/-- What a claim in flight has to say of its record. -/
structure Claim.Sound (cfg : Config) (now : Nat) (history : List Ownership)
    (mutations : Nat) (c : Claim) : Prop where
  session : c.record.lease.session = c.host
  record : RecordInv cfg now mutations c.record
  follows : c.Follows now history

/-! ## Writes in progress -/

/-- Counted as started and not yet as completed. -/
def Write.InFlight (w : Write) : Prop :=
  w.pc = .putting ∨ w.pc = .stored ∨ w.pc = .rechecked

/-- Past the second owner check. -/
def Write.Passed (w : Write) : Prop := w.pc = .rechecked ∨ w.pc = .recorded

section Predicates

variable (now : Nat) (history : List Ownership) (requests : List Claim)
  (snapshots : List Snapshot) (fence : Host → LeaseFence)
  (owned : Host → Option Ownership) (writes : Nat → Write)
  (acknowledged : List Object)

/-- The record accounts for every acknowledged write it answers for, and for
every write that an unfenced session may still acknowledge. -/
structure Accounts (r : Ownership) : Prop where
  acked : ∀ x ∈ acknowledged, r.Answers x → Covers r.base x
  passed : ∀ i, (writes i).Passed →
    (fence (writes i).host).fenced = true ∨
      (r.Answers (writes i).bytes.object →
        Covers r.base (writes i).bytes.object)

/-! ## Sessions -/

/-- The record a registration has claimed and not yet adopted. -/
def Registration.pending : Registration → Option Ownership
  | .claiming _ _ _ c => some c.record
  | .adopting _ record => some record
  | _ => none

/-- The local lease does not outlive the durable one. -/
def LeaseOk (h : Host) (o : Ownership) : Prop :=
  (∃ c, history.getLast? = some c ∧ c.epoch = o.epoch ∧
      o.lease.expiresAtMs ≤ c.lease.expiresAtMs) ∨
    o.lease.expiresAtMs ≤ now ∨ (fence h).fenced = true

/-- No record of the session, installed or still installable, has an epoch
beyond `e`. -/
structure Newest (h : Host) (e : Nat) : Prop where
  installed : ∀ r ∈ history, r.lease.session = h → r.epoch ≤ e
  live : ∀ c ∈ requests, c.host = h → c.Live history → c.record.epoch ≤ e

/-- A release that may still be installed comes from a fenced session, or
from one that never adopted the record it gives up. -/
def ReleaseSafe (registration : Host → Registration) (c : Claim) : Prop :=
  c.record.lease.expiresAtMs = 0 →
    (fence c.host).fenced = true ∨
      owned c.host = none ∧
        ∀ o, (registration c.host).pending = some o → o ∉ history

/-- The local record stems from a record the session installed. -/
structure OwnedInv (uploaded : Host → UploadedSnapshots) (h : Host)
    (o : Ownership) : Prop where
  session : o.lease.session = h
  source : ∃ r ∈ history, r.epoch = o.epoch ∧ r.lease.session = h ∧
    r.isSealed = false ∧ r.base = o.base
  latest : ∀ l, (uploaded h).latest = some l → o.base = some l ∨
    l.object.epoch = o.epoch ∧ baseVersion o.base < l.object.version
  lease : LeaseOk now history fence h o
  newest : Newest history requests h o.epoch

/-- A record the session installed and has not adopted. -/
structure Won (h : Host) (record : Ownership) : Prop where
  installed : record ∈ history
  session : record.lease.session = h
  unsealed : record.isSealed = false
  newest : Newest history requests h record.epoch

/-- The snapshot belongs to an installed epoch and lies above its base. -/
def Based (b : Snapshot) : Prop :=
  ∃ r ∈ history, r.epoch = b.ownerEpoch ∧ r.isSealed = false ∧
    baseVersion r.base < b.stateVersion

/-- A record about to be claimed from the unsealed record `p`. -/
structure Candidate (cfg : Config) (h : Host) (g : Nat)
    (p record : Ownership) : Prop where
  read : VersionedCell.valueAt history g = some p
  expired : p.lease.expiresAtMs ≤ now
  unsealed : p.isSealed = false ∧ record.isSealed = false
  epoch : record.epoch = p.epoch + 1
  session : record.lease.session = h
  bounded : record.lease.expiresAtMs ≤ now + cfg.durationMs record.lease.session
  positive : record.lease.expiresAtMs ≠ 0

/-- The list found every write of the epoch that is, or may still be,
acknowledged. -/
structure FoundAll (epoch : Nat) (recovered : Option Snapshot) : Prop where
  acked : ∀ x ∈ acknowledged, x.epoch = epoch →
    ∃ b, recovered = some b ∧ x.version ≤ b.stateVersion
  passed : ∀ i, (writes i).Passed →
    (fence (writes i).host).fenced = true ∨
      ((writes i).bytes.ownerEpoch = epoch →
        ∃ b, recovered = some b ∧
          (writes i).bytes.stateVersion ≤ b.stateVersion)

/-- What a write in progress has established. -/
structure WriteInv (w : Write) : Prop where
  owner : w.pc ≠ .idle → w.pc ≠ .entered → ∃ o, owned w.host = some o ∧
    o.epoch = w.bytes.ownerEpoch ∧ baseVersion o.base < w.bytes.stateVersion
  stored : w.pc = .stored ∨ w.Passed → w.bytes ∈ snapshots

/-- An acknowledged write is stored, under an epoch some session owned. -/
structure AckInv (x : Object) : Prop where
  stored : ∃ b ∈ snapshots, b.object = x
  owner : ∃ h o, owned h = some o ∧ o.epoch = x.epoch

/-- The session's upload counters and its witness. -/
structure UploadInv (uploaded : Host → UploadedSnapshots)
    (pending : Host → Finset Nat) (h : Host) : Prop where
  counts : (uploaded h).completed + (pending h).card ≤ (uploaded h).started
  inFlight : ∀ i, (writes i).host = h → (writes i).InFlight →
    i ∈ pending h
  recorded : ∀ i, (writes i).host = h → (writes i).pc = .recorded →
    Covers (uploaded h).latest (writes i).bytes.object
  acked : ∀ o, owned h = some o → ∀ x ∈ acknowledged,
    x.epoch = o.epoch → Covers (uploaded h).latest x

/-- A checkpoint read by `drain_activation`. -/
structure Checkpoint (h : Host) (o : Ownership) (ck : Option SnapshotRef) : Prop where
  base : baseVersion o.base ≤ baseVersion ck
  covers : ∀ x, Covers o.base x → Covers ck x
  epoch : ∀ b, ck = some b → b.object.epoch ≤ o.epoch
  acked : ∀ x ∈ acknowledged, x.epoch = o.epoch → Covers ck x
  recorded : ∀ i, (writes i).host = h → (writes i).pc = .recorded →
    (fence h).fenced = true ∨ Covers ck (writes i).bytes.object

/-- No counted upload of the session can still be stored. -/
def Quiet (streamClosed : Host → Bool) (h : Host) : Prop :=
  ∀ i, (writes i).host = h → (writes i).InFlight →
    (writes i).pc = .putting ∧ streamClosed h = true

/-- The record of the session allows the checkpoint. -/
def HasCheckpoint (h : Host) (ck : Option SnapshotRef) : Prop :=
  ∃ o, owned h = some o ∧
    Checkpoint fence writes acknowledged h o ck

/-- What a shutdown carries from one await to the next. -/
def ShutdownInv (streamClosed : Host → Bool) (h : Host) : Shutdown → Prop
  | .running => True
  | .closing ck => HasCheckpoint fence owned writes acknowledged h ck ∧ Quiet writes streamClosed h
  | .fencing none => True
  | .fencing (some ck) =>
    HasCheckpoint fence owned writes acknowledged h ck ∧ Quiet writes streamClosed h
  | .releasing checkpoint _ => (fence h).fenced = true ∧
      ∀ ck, checkpoint = some ck → HasCheckpoint fence owned writes acknowledged h ck
  | .swapping checkpoint _ _ => (fence h).fenced = true ∧
      ∀ ck, checkpoint = some ck → HasCheckpoint fence owned writes acknowledged h ck
  | .finished => True

end Predicates

/-! ## The invariant -/

/-- What a registration carries from one await to the next. -/
def RegistrationInv (cfg : Config) (s : World) (h : Host) : Registration → Prop
  | .idle => s.owned h ≠ none → s.lease h ≠ none ∨ (s.fence h).fenced = true
  | .reading _ hint _ => s.owned h = none ∧
      ∀ g r, hint = some (g, r) → VersionedCell.valueAt s.history g = some r
  | .validating _ _ current => s.owned h = none ∧
      ∀ g r, current = some (g, r) → VersionedCell.valueAt s.history g = some r
  | .stamping _ _ current => s.owned h = none ∧
      ∀ g r, current = some (g, r) →
        VersionedCell.valueAt s.history g = some r ∧ r.lease.expiresAtMs ≤ s.now
  | .listing _ g p record => s.owned h = none ∧ Candidate s.now s.history cfg h g p record
  | .loading _ g p record recovered => s.owned h = none ∧
      Candidate s.now s.history cfg h g p record ∧
      (∀ b, recovered = some b → b ∈ s.snapshots ∧ b.ownerEpoch = p.epoch) ∧
      (some g = VersionedCell.generation s.history →
        FoundAll s.fence s.writes s.acknowledged p.epoch recovered)
  | .claiming _ _ _ c => s.owned h = none ∧ c ∈ s.requests ∧ c.host = h ∧
      c.record.isSealed = false ∧ (c.record ∈ s.history →
        LeaseOk s.now s.history s.fence h c.record ∧
          Newest s.history s.requests h c.record.epoch)
  | .adopting _ record => s.owned h = none ∧
      LeaseOk s.now s.history s.fence h record ∧ Won s.history s.requests h record
  | .confirming _ _ => s.owned h ≠ none
  | .releasing record _ => s.owned h = none ∧ Won s.history s.requests h record
  | .swapping record _ _ => s.owned h = none ∧ Won s.history s.requests h record
  | .renewReading _ => s.lease h ≠ none
  | .renewChecking _ g r => s.lease h ≠ none ∧
      VersionedCell.valueAt s.history g = some r ∧ r.lease.session = h
  | .renewStamping _ g r => s.lease h ≠ none ∧
      VersionedCell.valueAt s.history g = some r ∧ r.lease.session = h ∧
      r.isSealed = false
  | .renewClaiming _ c => s.lease h ≠ none ∧ c ∈ s.requests ∧ c.host = h ∧
      (c.record ∈ s.history → LeaseOk s.now s.history s.fence h c.record)
  | .renewAdopting _ record => s.lease h ≠ none ∧ record ∈ s.history ∧
      record.lease.session = h ∧ LeaseOk s.now s.history s.fence h record

/-- What a bucket has to hold of earlier activations. -/
structure HistoryInv (cfg : Config) (now : Nat) (history : List Ownership)
    (mutations : Nat) : Prop where
  ordered : history.Pairwise Precedes
  bounded : ∀ r ∈ history,
    r.lease.expiresAtMs ≤ now + cfg.durationMs r.lease.session
  released : ∀ r ∈ history, r.isSealed = true → r.lease.expiresAtMs = 0
  based : ∀ r ∈ history, ∀ b, r.base = some b → r.Answers b.object
  minted : ∀ r ∈ history, r.mutation < mutations

/-- The invariant of the ownership protocol. -/
structure Inv (cfg : Config) (s : World) : Prop where
  ordered : s.history.Pairwise Precedes
  records : ∀ r ∈ s.history, RecordInv cfg s.now s.mutations r
  requests : ∀ c ∈ s.requests, c.Sound cfg s.now s.history s.mutations
  stored : ∀ b, b ∈ s.snapshots ∨ b ∈ s.puts → Based s.history b
  owned : ∀ h o, s.owned h = some o →
    OwnedInv s.now s.history s.requests s.fence s.uploaded h o
  unowned : ∀ h, s.owned h = none →
    s.lease h = none ∧ (s.uploaded h).latest = none
  registration : ∀ h, RegistrationInv cfg s h (s.registration h)
  accounts : ∀ r ∈ s.history, Accounts s.fence s.writes s.acknowledged r
  live : ∀ c ∈ s.requests, c.Live s.history →
    Accounts s.fence s.writes s.acknowledged c.record ∧
      ReleaseSafe s.history s.fence s.owned s.registration c
  writes : ∀ i, WriteInv s.snapshots s.owned (s.writes i)
  acked : ∀ x ∈ s.acknowledged, AckInv s.snapshots s.owned x
  uploads : ∀ h, UploadInv s.owned s.writes s.acknowledged s.uploaded
    s.pending h
  shutdown : ∀ h, ShutdownInv s.fence s.owned s.writes s.acknowledged
    s.streamClosed h (s.shutdown h)

end DurableActors.Ports.Activation
