import DurableActors.Ports.ActivationShutdown
import DurableActors.Verified.Sha256
import DurableActors.Verified.Text

/-!
# Failover and graceful release

The two results the ownership protocol is for, over every interleaving of any
number of host sessions.

A successor that takes over after a crash, or after a release without a
checkpoint, starts at or after every acknowledged write.  A successor of a
sealed record trusts its base without reading the log.
-/

namespace DurableActors.Ports.Activation

open Verified

variable {cfg : Config} {s₀ s : World} {actions : List Action}

/-! ## Initial states -/

/-- A bucket as earlier activations left it, and sessions that have not
started. -/
structure Initial (cfg : Config) (s : World) : Prop where
  history : HistoryInv cfg s.now s.history s.mutations
  stored : ∀ b ∈ s.snapshots, Based s.history b
  requests : s.requests = []
  puts : s.puts = []
  acknowledged : s.acknowledged = []
  fence : s.fence = fun _ => {}
  lease : s.lease = fun _ => none
  owned : s.owned = fun _ => none
  uploaded : s.uploaded = fun _ => {}
  registration : s.registration = fun _ => .idle
  shutdown : s.shutdown = fun _ => .running
  writes : s.writes = fun _ => Write.none
  pending : s.pending = fun _ => ∅

/-- The initial states have the invariant. -/
theorem Initial.inv (h : Initial cfg s) : Inv cfg s where
  ordered := h.history.ordered
  records := fun r hr => ⟨h.history.bounded r hr, h.history.released r hr,
    h.history.based r hr, h.history.minted r hr⟩
  requests := by simp [h.requests]
  stored := by
    rintro b (hb | hb)
    · exact h.stored b hb
    · simp [h.puts] at hb
  owned := by simp [h.owned]
  unowned := by simp [h.lease, h.uploaded]
  registration := by simp [h.registration, h.owned, RegistrationInv]
  accounts := fun r _ =>
    ⟨by simp [h.acknowledged], by simp [h.writes, Write.Passed, Write.none]⟩
  live := by simp [h.requests]
  writes := fun i =>
    ⟨by simp [h.writes, Write.none], by simp [h.writes, Write.Passed, Write.none]⟩
  acked := by simp [h.acknowledged]
  uploads := fun k =>
    ⟨by simp [h.uploaded, h.pending],
      by simp [h.writes, Write.InFlight, Write.none],
      by simp [h.writes, Write.none], by simp [h.owned]⟩
  shutdown := by simp [h.shutdown, ShutdownInv]

/-- The invariant along a whole run. -/
theorem inv_run (h₀ : Initial cfg s₀) (hC : Transition.Guarded (step cfg) UploadsSettled s₀ actions)
    (hrun : Transition.run (step cfg) s₀ actions = some s) : Inv cfg s :=
  Transition.run_guarded_invariant (fun _ _ _ inv hC hstep => (inv.step hC).of_eq hstep)
    h₀.inv hC hrun

/-! ## Failover -/

/-- The steps of `HostStorage::finish`. -/
def Action.shutsDown : Action → Bool
  | .drain _ => true
  | .failDrain _ => true
  | .closeStream _ _ => true
  | .setFence _ => true
  | .finishRead _ => true
  | .finishReplied _ _ => true
  | .failFinish _ => true
  | _ => false

/-- Every other step leaves the shutdowns alone. -/
theorem shutdown_frame {t : World} {a : Action} (ha : a.shutsDown = false)
    (hstep : step cfg s a = some t) : t.shutdown = s.shutdown := by
  cases a
  all_goals
    first
    | (simp [Action.shutsDown] at ha; done)
    | simp only [step, applyClaim, applyPut, register, readOwner, validate,
        stamp, listLog, loadBase, claimReplied, adopt, confirm,
        failRegistration, abortRead, abortReplied, renewRead, renewCheck,
        renewStamp, renewReplied, renewAdopt, writeBegin, checkOwner,
        verifyParent, startUpload, putReplied, recheckOwner, recordUpload,
        acknowledge, failWrite] at hstep
      repeat' split at hstep
      all_goals
        first
        | (simp at hstep; done)
        | (obtain rfl := Option.some.inj hstep; rfl)

/-- No session has read the base of a sealed record. -/
def NoCheckpoint (s : World) : Prop := ∀ h, (s.shutdown h).sealing = false

theorem NoCheckpoint.setShutdown (hs : NoCheckpoint s) {h : Host} {d : Shutdown}
    (hd : d.sealing = false) : NoCheckpoint (s.setShutdown h d) := by
  intro k
  by_cases hk : k = h
  · subst hk
    simpa [World.setShutdown] using hd
  · simpa [World.setShutdown, hk] using hs k

/-- Without a drain every release goes without a checkpoint. -/
theorem NoCheckpoint.step {t : World} {a : Action} (hs : NoCheckpoint s) (ha : ∀ h, a ≠ .drain h)
    (hstep : step cfg s a = some t) : NoCheckpoint t := by
  by_cases hshut : a.shutsDown = false
  · intro h
    rw [shutdown_frame hshut hstep]
    exact hs h
  refine Transition.Ensures.of_eq ?_ hstep
  cases a with
  | drain h => exact absurd rfl (ha h)
  | failDrain h =>
    show Transition.Ensures _ (failDrain s h)
    fun_cases failDrain s h with
    | case1 => exact hs.setShutdown rfl
    | case2 => trivial
  | closeStream h completed =>
    show Transition.Ensures _ (closeStream cfg s h completed)
    fun_cases closeStream cfg s h completed with
    | case1 ck hd =>
      have := hs h
      simp [hd, Shutdown.sealing] at this
    | case2 => trivial
  | setFence h =>
    show Transition.Ensures _ (setFence s h)
    fun_cases setFence s h with
    | case1 => exact .setShutdown hs rfl
    | case2 => trivial
  | finishRead h =>
    show Transition.Ensures _ (finishRead s h)
    fun_cases finishRead s h with
    | case4 => trivial
    | _ => exact .setShutdown hs rfl
  | finishReplied h replaced =>
    show Transition.Ensures _ (finishReplied s h replaced)
    fun_cases finishReplied s h replaced with
    | case1 => exact hs.setShutdown (by split <;> rfl)
    | _ => trivial
  | failFinish h =>
    show Transition.Ensures _ (failFinish s h)
    fun_cases failFinish s h with
    | case3 => trivial
    | _ => exact hs.setShutdown rfl
  | _ => simp [Action.shutsDown] at hshut

theorem uploadsSettled_of_noDrain (h₀ : Initial cfg s₀) (hdrain : ∀ h, Action.drain h ∉ actions) :
    Transition.Guarded (step cfg) UploadsSettled s₀ actions := by
  refine .imp (J := NoCheckpoint)
    (C := fun _ a => ∀ h, a ≠ Action.drain h)
    (fun _ _ _ hs ha hstep => hs.step ha hstep) ?_ ?_
    (.of_forall ?_ s₀)
  · intro s a hs _
    cases a <;> first | trivial | exact .inr (hs _)
  · intro h
    simp [h₀.shutdown, Shutdown.sealing]
  · rintro a ha - h rfl
    exact hdrain h ha

/-- **Failover never loses an acknowledged write.**  In every run in which
sessions release without a checkpoint, every installed record of a later
epoch has a base at or after every acknowledged write; along the history
epochs increase strictly from one session to the next, and the base's state
version never decreases. -/
theorem failover_keeps_acknowledged (h₀ : Initial cfg s₀) (hdrain : ∀ h, Action.drain h ∉ actions)
    (hrun : Transition.run (step cfg) s₀ actions = some s) :
    (∀ x ∈ s.acknowledged, ∀ r ∈ s.history, x.epoch < r.epoch →
      ∃ b, r.base = some b ∧ x ≤ b.object) ∧ ∀ (i j : Nat) (p r : Ownership), i < j →
      s.history[i]? = some p → s.history[j]? = some r → p.epoch ≤ r.epoch ∧
      (p.lease.session ≠ r.lease.session → p.epoch < r.epoch) ∧
      baseVersion p.base ≤ baseVersion r.base := by
  have inv := inv_run h₀ (uploadsSettled_of_noDrain h₀ hdrain) hrun
  refine ⟨fun x hx r hr hlt => (inv.accounts r hr).acked x hx (.inl hlt), ?_⟩
  intro i j p r hij hp hr
  have hprec : Precedes p r := by
    obtain ⟨hi, rfl⟩ := List.getElem?_eq_some_iff.mp hp
    obtain ⟨hj, rfl⟩ := List.getElem?_eq_some_iff.mp hr
    exact List.pairwise_iff_getElem.mp inv.ordered i j hi hj hij
  refine ⟨?_, fun hne => ?_, hprec.base⟩
  · rcases hprec.epoch with h | h <;> omega
  · rcases hprec.epoch with h | h
    · exact h
    · exact absurd h.2.1 hne

/-! ### A takeover -/

/-- The document of a snapshot, whose payload is the transaction of its database. -/
def Snapshot.document (snapshot : Snapshot) : List UInt8 := Text.bytes
  ("\x7b\"stateVersion\":" ++ toString snapshot.stateVersion ++ ",\"ownerEpoch\":" ++
    toString snapshot.ownerEpoch ++ ",\"requestId\":\"" ++ toString snapshot.requestId ++
    "\",\"sqlite\":\x7b\"txid\":" ++ toString snapshot.payload ++
    (match snapshot.parent with
      | some parent => ",\"parent\":\"" ++ toString parent.digest ++ "\""
      | none => "") ++ ",\"files\":[]\x7d\x7d")

/-- Leases of a minute, one region, a store whose streams need no closing; the digest is
SHA-256, read as a number. -/
def demoConfig : Config where
  checksum := fun snapshot =>
    (Sha256.hash snapshot.document).foldl (fun n byte => n * 256 + byte.toNat) 0
  region := fun _ => 0
  durationMs := fun _ => 60000
  closesStream := false

/-- Nothing is stored and no session has started. -/
def emptyBucket : World where
  now := 0
  history := []
  requests := []
  snapshots := []
  puts := []
  mutations := 0
  fence := fun _ => {}
  stop := fun _ => false
  lease := fun _ => none
  owned := fun _ => none
  uploaded := fun _ => {}
  streamClosed := fun _ => false
  registration := fun _ => .idle
  shutdown := fun _ => .running
  writes := fun _ => Write.none
  pending := fun _ => ∅
  acknowledged := []

theorem initial_emptyBucket : Initial demoConfig emptyBucket where
  history := ⟨List.Pairwise.nil, by simp [emptyBucket], by simp [emptyBucket],
    by simp [emptyBucket], by simp [emptyBucket]⟩
  stored := by simp [emptyBucket]
  requests := rfl
  puts := rfl
  acknowledged := rfl
  fence := rfl
  lease := rfl
  owned := rfl
  uploaded := rfl
  registration := rfl
  shutdown := rfl
  writes := rfl
  pending := rfl

/-- The first record of session `0`. -/
def firstRecord : Ownership := ⟨false, 1, 0, none, ⟨0, 60000⟩, 0⟩

/-- The snapshot of the first write. -/
def firstSnapshot : Snapshot := ⟨1, 1, 7, none, 9⟩

def firstReference : SnapshotRef := demoConfig.reference firstSnapshot

/-- Session `0` activates a new actor. -/
def activation : List Action :=
  [.register 0 true none, .readOwner 0, .validate 0, .stamp 0,
    .applyClaim ⟨0, none, firstRecord⟩, .claimReplied 0 true true, .adopt 0,
    .confirm 0]

/-- Session `0` writes version one and gets its answer. -/
def firstWrite : List Action :=
  [.writeBegin 0 0 ⟨1, ⟨1, 1⟩, ⟨0, 1, 0⟩⟩ firstSnapshot, .checkOwner 0,
    .verifyParent 0, .startUpload 0, .applyPut firstSnapshot, .putReplied 0,
    .recheckOwner 0, .recordUpload 0, .acknowledge 0]

/-- Session `1` takes over once the lease has run out. -/
def takeover : List Action :=
  [.tick 60000, .register 1 false none, .readOwner 1, .validate 1, .stamp 1,
    .listLog 1, .loadBase 1,
    .applyClaim ⟨1, some 1,
      ⟨false, 2, 0, some firstReference, ⟨1, 120000⟩, 1⟩⟩,
    .claimReplied 1 true true, .adopt 1, .confirm 1]

def demoEnd (actions : List Action) : World :=
  Transition.final (step demoConfig) emptyBucket actions

theorem run_demoEnd
    (h : (Transition.run (step demoConfig) emptyBucket actions).isSome = true) :
    Transition.run (step demoConfig) emptyBucket actions = some (demoEnd actions) :=
  Transition.run_eq_final h

def takeoverEnd : World := demoEnd (activation ++ firstWrite ++ takeover)

theorem run_takeover : Transition.run (step demoConfig) emptyBucket
    (activation ++ firstWrite ++ takeover) = some takeoverEnd :=
  run_demoEnd (by decide +kernel)

theorem failover_keeps_acknowledged_takeover :
    takeoverEnd.acknowledged = [⟨1, 1⟩] ∧ takeoverEnd.history.map Ownership.epoch = [1, 2] ∧
    ∀ x ∈ takeoverEnd.acknowledged, ∀ r ∈ takeoverEnd.history,
      x.epoch < r.epoch → ∃ b, r.base = some b ∧ x ≤ b.object :=
  ⟨by decide +kernel, by decide +kernel,
    (failover_keeps_acknowledged initial_emptyBucket
      (by simp [activation, firstWrite, takeover]) run_takeover).1⟩

/-! ## Graceful release -/

/-- **A graceful release seals every acknowledged write** in every run in
which no upload is counted between the reading of the sealed base and the
fence, and the successor of a sealed record does not start behind one. -/
theorem release_seals_acknowledged (h₀ : Initial cfg s₀)
    (hC : Transition.Guarded (step cfg) UploadsSettled s₀ actions)
    (hrun : Transition.run (step cfg) s₀ actions = some s) :
    (∀ r ∈ s.history, r.isSealed = true → ∀ x ∈ s.acknowledged,
      x.epoch = r.epoch → x.version ≤ baseVersion r.base) ∧
    ∀ r ∈ s.history, ∀ x ∈ s.acknowledged, x.epoch < r.epoch →
      ∃ b, r.base = some b ∧ x ≤ b.object := by
  have inv := inv_run h₀ hC hrun
  refine ⟨fun r hr hsealed x hx he => ?_,
    fun r hr x hx hlt => (inv.accounts r hr).acked x hx (.inl hlt)⟩
  obtain ⟨b, hb, hle⟩ := (inv.accounts r hr).acked x hx (.inr ⟨hsealed, he⟩)
  -- The base of a sealed record belongs to its own epoch or an earlier one.
  have hbound : b.object.epoch ≤ r.epoch := by
    rcases (inv.records r hr).based b hb with h | ⟨-, h⟩ <;> omega
  rw [Object.le_def] at hle
  rw [hb]
  show x.version ≤ b.object.version
  omega

/-- Session `0` drains and releases with a checkpoint. -/
def gracefulRelease (base : Option SnapshotRef) : List Action :=
  [.drain 0, .closeStream 0 true, .setFence 0, .finishRead 0,
    .applyClaim ⟨0, some 1, ⟨true, 1, 0, base, ⟨0, 0⟩, 1⟩⟩,
    .finishReplied 0 true]

def releaseEnd : World :=
  demoEnd (activation ++ firstWrite ++ gracefulRelease (some firstReference))

instance (s : World) (a : Action) : Decidable (UploadsSettled s a) := by
  unfold UploadsSettled
  split <;> infer_instance

theorem release_seals_acknowledged_drained :
    releaseEnd.acknowledged = [⟨1, 1⟩] ∧ releaseEnd.history.map Ownership.isSealed = [false, true] ∧
    ∀ r ∈ releaseEnd.history, r.isSealed = true → ∀ x ∈ releaseEnd.acknowledged, x.epoch = r.epoch →
        x.version ≤ baseVersion r.base :=
  ⟨by decide +kernel, by decide +kernel,
    (release_seals_acknowledged initial_emptyBucket (by decide +kernel)
      (run_demoEnd (by decide +kernel))).1⟩

/-- The base is read, the write is made and acknowledged, and only then are
the stream closed and the fence set. -/
def slippedRelease : List Action :=
  activation ++ [.drain 0] ++ firstWrite ++ (gracefulRelease none).tail

/-- An acknowledged write above the base of the sealed record. -/
theorem release_loses_slipped_write :
    ∃ s, Transition.run (step demoConfig) emptyBucket slippedRelease = some s ∧
      ∃ r ∈ s.history, r.isSealed = true ∧ ∃ x ∈ s.acknowledged, x.epoch = r.epoch ∧
          baseVersion r.base < x.version := by
  exact ⟨demoEnd slippedRelease, run_demoEnd (by decide +kernel),
    ⟨true, 1, 0, none, ⟨0, 0⟩, 1⟩, by decide +kernel, rfl, ⟨1, 1⟩, by decide +kernel, rfl,
    by decide⟩

/-! ## One session at a time -/

/-- The session holds a record that has not run out, and is not fenced. -/
def World.Live (s : World) (h : Host) : Prop :=
  ∃ o, s.owned h = some o ∧ s.now < o.lease.expiresAtMs ∧ (s.fence h).fenced = false

/-- **No two sessions are live at once.**  A live session is the one that the authority object
names, under a durable lease that has not run out either. -/
theorem live_session_unique (h₀ : Initial cfg s₀)
    (hC : Transition.Guarded (step cfg) UploadsSettled s₀ actions)
    (hrun : Transition.run (step cfg) s₀ actions = some s) :
    (∀ h, s.Live h → ∃ c, s.history.getLast? = some c ∧ c.lease.session = h ∧
      s.now < c.lease.expiresAtMs) ∧ ∀ h k, s.Live h → s.Live k → h = k := by
  have inv := inv_run h₀ hC hrun
  constructor
  · rintro h ⟨o, ho, hnow, hfence⟩
    obtain ⟨c, hc, -, hlt, hsession⟩ := inv.current_of_unexpired ho hnow hfence
    exact ⟨c, hc, hsession, hlt⟩
  · rintro h k ⟨o, ho, hnow, hfence⟩ ⟨o', ho', hnow', hfence'⟩
    obtain ⟨c, hc, -, -, rfl⟩ := inv.current_of_unexpired ho hnow hfence
    obtain ⟨d, hd, -, -, rfl⟩ := inv.current_of_unexpired ho' hnow' hfence'
    rw [Option.some.inj (hc.symm.trans hd)]

theorem live_session_unique_takeover : takeoverEnd.Live 1 ∧ ∀ h, takeoverEnd.Live h → h = 1 := by
  have hlive : takeoverEnd.Live 1 :=
    ⟨⟨false, 2, 0, some firstReference, ⟨1, 120000⟩, 1⟩, by decide +kernel, by decide +kernel,
      by decide +kernel⟩
  have h := live_session_unique initial_emptyBucket (by decide +kernel) run_takeover
  exact ⟨hlive, fun k hk => h.2 k 1 hk hlive⟩

end DurableActors.Ports.Activation
