import DurableActors.Ports.AlarmStores

/-!
# Alarms are neither lost nor claimed twice

`step_row` says what a step does to the alarm of one actor: it is set anew,
claimed while it is due, cleared by a `finish` of its own revision, or left
alone.  The safety results for one store follow from it for every way of keeping
revisions in which an increment never returns to an earlier one.
-/

namespace DurableActors.Ports.Alarms

open Verified
open Verified.Transition (Ensures)

variable {K R S : Type} {ρ : Revisions R} {actor : K} {action : Action K} {claim : ClaimedAlarm K}

/-! ## Revisions move on -/

/-- The stored revision is none that was claimed as `n` or before. -/
def Revisions.Past (ρ : Revisions R) (n : Nat) (x : R) : Prop := ∀ m, ρ.read x = .ok m → n < m

/-- A revision that was replaced is not claimed again. -/
structure Revisions.Lawful (ρ : Revisions R) : Prop where
  past_next : ∀ {x y : R} {n : Nat}, ρ.next x = .ok y → ρ.read x = .ok n → ρ.Past n y
  past_mono : ∀ {x y : R} {n : Nat}, ρ.Past n x → ρ.next x = .ok y → ρ.Past n y
  read_write : ∀ {n : Nat} {x : R}, ρ.write n = .ok x → ρ.read x = .ok n

/-- Revisions that are read and written as they are and go up by one. -/
theorem Revisions.lawful_of_succ {ρ : Revisions Nat} (hread : ∀ x, ρ.read x = .ok x)
    (hnext : ∀ {x y}, ρ.next x = .ok y → y = x + 1) (hwrite : ∀ {n x}, ρ.write n = .ok x → x = n) :
    ρ.Lawful where
  past_next := by
    intro x y n hy hn m hm
    rw [hread, hnext hy] at hm
    rw [hread] at hn
    cases hm
    cases hn
    exact Nat.lt_succ_self _
  past_mono := by
    intro x y n hpast hy m hm
    have hx : n < x := hpast x (hread x)
    rw [hread, hnext hy] at hm
    cases hm
    omega
  read_write := fun h => hwrite h ▸ hread _

theorem memoryRevisions_lawful : memoryRevisions.Lawful := by
  refine Revisions.lawful_of_succ (fun _ => rfl) (fun {x y} hnext => ?_) fun hwrite =>
    (Except.ok.inj hwrite).symm
  simp only [memoryRevisions] at hnext
  split at hnext
  · exact (Except.ok.inj hnext).symm
  · cases hnext

theorem postgresRevisions_lawful : postgresRevisions.Lawful := by
  refine Revisions.lawful_of_succ (fun _ => rfl) (fun {x y} hnext => ?_) fun {n x} hwrite => ?_
  · simp only [postgresRevisions] at hnext
    split at hnext
    · exact (Except.ok.inj hnext).symm
    · cases hnext
  · simp only [postgresRevisions] at hwrite
    split at hwrite
    · exact (Except.ok.inj hwrite).symm
    · cases hwrite

theorem SqliteValue.read_succ {x : SqliteValue} {m : Nat} (h : x.succ.read = .ok m) :
    ∃ n, x = .integer n ∧ m = n + 1 := by
  cases x with
  | real => cases h
  | integer n =>
    rw [SqliteValue.succ] at h
    split at h
    · exact ⟨n, rfl, (Except.ok.inj h).symm⟩
    · cases h

theorem sqliteRevisions_lawful : sqliteRevisions.Lawful where
  past_next := by
    rintro x y n ⟨⟩ hread m hm
    obtain ⟨k, rfl, rfl⟩ := SqliteValue.read_succ hm
    cases hread
    exact Nat.lt_succ_self _
  past_mono := by
    rintro x y n hpast ⟨⟩ m hm
    obtain ⟨k, rfl, rfl⟩ := SqliteValue.read_succ hm
    exact Nat.lt_succ_of_lt (hpast k rfl)
  read_write := by
    intro n x h
    simp only [sqliteRevisions] at h
    split at h
    · cases h
      rfl
    · cases h

/-! ## Steps on one alarm -/

variable [DecidableEq K] [DecidableEq R] {store : AlarmStore K S} {table : S → Table K R}

/-- What a step does to the alarm of `actor`. -/
inductive RowStep (store : AlarmStore K S) (table : S → Table K R) (ρ : Revisions R)
    (w : World K S) (actor : K) : Action K → Option (Alarm R) → Prop
  | kept {action : Action K} : RowStep store table ρ w actor action (table w.alarms actor)
  | updated {timestampMs : Option Int} {revision : R} {alarms : S}
      (hupdate : store.update w.alarms actor timestampMs = .ok alarms)
      (hnext : ∀ alarm, table w.alarms actor = some alarm →
        ρ.next alarm.revision = .ok revision) :
      RowStep store table ρ w actor (.update actor timestampMs) (some ⟨revision, timestampMs, none⟩)
  | queued {now limit : Nat} {order : List K} {alarm : Alarm R} {due : Int}
      (halarm : table w.alarms actor = some alarm)
      (hdue : alarm.due now ((now : Int) - queuedTimeoutMs) = some due) :
      RowStep store table ρ w actor (.claim now limit order)
        (some { alarm with queuedAtMs := some now })
  | finished {i : Nat} {claim : ClaimedAlarm K} {alarm : Alarm R}
      (hclaim : w.inFlight[i]? = some claim) (hactor : claim.actor = actor)
      (halarm : table w.alarms actor = some alarm)
      (hwrite : ρ.write claim.revision = .ok alarm.revision) :
      RowStep store table ρ w actor (.finish i) (some ⟨alarm.revision, none, none⟩)

/-- An update that succeeds, in terms of the alarms. -/
theorem Implements.update_eq_ok (h : Implements store table ρ) {s s' : S}
    {timestampMs : Option Int} (hupdate : store.update s actor timestampMs = .ok s') :
    ∃ revision, table s' = (table s).set actor ⟨revision, timestampMs, none⟩ ∧
      ∀ alarm, table s actor = some alarm → ρ.next alarm.revision = .ok revision := by
  have heq := h.update_eq s actor timestampMs
  rw [hupdate] at heq
  exact Table.update_eq_ok heq.symm

theorem Implements.finish_eq_ok (h : Implements store table ρ) {s s' : S}
    (hfinish : store.finish s claim = .ok s') :
    table s' = table s ∨ ∃ current, table s claim.actor = some current ∧
      ρ.write claim.revision = .ok current.revision ∧
        table s' = (table s).set claim.actor ⟨current.revision, none, none⟩ := by
  have heq := h.finish_eq s claim
  rw [hfinish] at heq
  exact Table.finish_eq_ok heq.symm

theorem Implements.queue_row (h : Implements store table ρ) (w : World K S) (now limit : Nat)
    (order : List K) (actor : K) :
    RowStep store table ρ w actor (.claim now limit order) (table
      (store.claimDue w.alarms now ((now : Int) - queuedTimeoutMs) limit order).2 actor) := by
  obtain hclaims | ⟨-, message, heq⟩ := h.claimDue w.alarms now ((now : Int) - queuedTimeoutMs)
    limit order
  · rw [hclaims.table]
    by_cases hactor : actor ∈
        (table w.alarms).chosen now ((now : Int) - queuedTimeoutMs) limit order
    · obtain ⟨-, alarm, due, halarm, hdue⟩ := Table.due_of_mem_chosen hactor
      rw [Table.queue_of_mem hactor halarm]
      exact .queued halarm hdue
    · rw [Table.queue_of_not_mem hactor]
      exact .kept
  · rw [heq]
    exact .kept

/-- What a step of the store does to a row. -/
theorem Implements.step_row (h : Implements store table ρ) (w : World K S) (action : Action K)
    (actor : K) : Ensures (fun w' => RowStep store table ρ w actor action (table w'.alarms actor))
      (step store w action) := by
  fun_cases step store w action with
  | case1 target timestampMs alarms hupdate =>
    obtain ⟨revision, heq, hnext⟩ := h.update_eq_ok hupdate
    show RowStep store table ρ w actor _ (table alarms actor)
    rw [heq]
    by_cases hactor : actor = target
    · subst hactor
      rw [Table.set_self]
      exact .updated hupdate hnext
    · rw [Table.set_ne _ _ hactor]
      exact .kept
  | case5 now limit order _ _ claims alarms hclaims
  | case6 now limit order _ _ claims alarms hclaims =>
    have hrow := h.queue_row w now limit order actor
    rw [hclaims] at hrow
    exact hrow
  | case7 i claim hclaim alarms hfinish =>
    show RowStep store table ρ w actor _ (table alarms actor)
    obtain heq | ⟨alarm, halarm, hwrite, heq⟩ := h.finish_eq_ok hfinish
    · rw [heq]
      exact .kept
    · rw [heq]
      by_cases hactor : actor = claim.actor
      · subst hactor
        rw [Table.set_self]
        exact .finished hclaim rfl halarm hwrite
      · rw [Table.set_ne _ _ hactor]
        exact .kept
  | case2 | case4 | case8 | case10 => exact .kept
  | case3 | case9 | case11 => trivial

/-- What the claim of an alarm at `now` has seen and leaves behind. -/
def Taken (table : S → Table K R) (ρ : Revisions R) (w w' : World K S) (now : Nat)
    (claim : ClaimedAlarm K) : Prop :=
  ∃ alarm due, table w.alarms claim.actor = some alarm ∧
    alarm.due now ((now : Int) - queuedTimeoutMs) = some due ∧
    ρ.read alarm.revision = .ok claim.revision ∧
    table w'.alarms claim.actor = some { alarm with queuedAtMs := some now }

/-- The claims that `claimDue` returns are of chosen actors. -/
theorem Implements.claimed (h : Implements store table ρ) {s s' : S} {now expiredBefore : Int}
    {limit : Nat} {order : List K} {claims : List (ClaimedAlarm K)}
    (hdue : store.claimDue s now expiredBefore limit order = (.ok claims, s')) :
    (order.Nodup → (claims.map (·.actor)).Nodup) ∧ ∀ claim ∈ claims, ∃ alarm due,
      table s claim.actor = some alarm ∧ alarm.due now expiredBefore = some due ∧
      ρ.read alarm.revision = .ok claim.revision ∧
      table s' claim.actor = some { alarm with queuedAtMs := some now } := by
  obtain ⟨htable, chosen, hchosen, hnodup, hclaims⟩ | ⟨-, message, heq⟩ :=
    h.claimDue s now expiredBefore limit order
  · rw [hdue] at htable hclaims
    refine ⟨fun horder => ?_, fun claim hclaim => ?_⟩
    · rw [Table.actors_of_claims hclaims.symm]
      exact hnodup horder
    · obtain ⟨actor, hactor, hclaimed⟩ := Checked.exists_of_mem_mapM hclaims.symm hclaim
      obtain ⟨rfl, alarm, halarm, hread⟩ := Table.claimed_eq_ok hclaimed
      have hactor := (hchosen claim.actor).mp hactor
      obtain ⟨-, alarm', due, halarm', hdue⟩ := Table.due_of_mem_chosen hactor
      cases halarm.symm.trans halarm'
      refine ⟨alarm, due, halarm, hdue, hread, ?_⟩
      rw [htable, Table.queue_of_mem hactor halarm]
  · cases hdue.symm.trans heq

/-- A step claims nothing, or alarms it has taken. -/
theorem Implements.step_claims (h : Implements store table ρ) {w w' : World K S}
    (hstep : step store w action = some w') :
    w'.claims = w.claims ∨ ∃ (now limit : Nat) (order : List K) (claims : List (ClaimedAlarm K)),
      action = .claim now limit order ∧
      w'.claims = w.claims ++ claims.map (fun claim => (claim, now)) ∧
      (claims.map (·.actor)).Nodup ∧ ∀ claim ∈ claims, Taken table ρ w w' now claim := by
  revert hstep
  fun_cases step store w action with
  | case5 now limit order horder _ claims alarms hdue =>
    rintro ⟨⟩
    obtain ⟨hnodup, htaken⟩ := h.claimed hdue
    exact .inr ⟨now, limit, order, claims, rfl, rfl, hnodup (not_not.mp horder), htaken⟩
  | case3 | case9 | case11 => nofun
  | _ =>
    rintro ⟨⟩
    exact .inl rfl

/-! ## Claims of one revision -/

section Claims

omit [DecidableEq K] [DecidableEq R]

/-- The alarm of a claim is past it, or finished, or still marked by it or a later one. -/
def Marked (table : S → Table K R) (ρ : Revisions R) (w : World K S)
    (entry : ClaimedAlarm K × Nat) : Prop :=
  ∃ alarm, table w.alarms entry.1.actor = some alarm ∧
    (ρ.Past entry.1.revision alarm.revision ∨
      ρ.read alarm.revision = .ok entry.1.revision ∧
        (alarm.timestampMs = none ∨
          ∃ queued, alarm.queuedAtMs = some queued ∧ (entry.2 : Int) ≤ queued))

/-- Claims of one revision are the queued timeout apart. -/
def Apart (entry entry' : ClaimedAlarm K × Nat) : Prop :=
  entry.1 = entry'.1 → entry.2 + queuedTimeoutMs ≤ entry'.2

/-- Every claim has marked its alarm, and claims of one alarm are a timeout apart. -/
structure ClaimsInv (table : S → Table K R) (ρ : Revisions R) (w : World K S) : Prop where
  marked : ∀ entry ∈ w.claims, Marked table ρ w entry
  apart : w.claims.Pairwise Apart

/-- A claim comes after the timeout of the claims it finds. -/
theorem apart_of_taken {w w' : World K S} {entry : ClaimedAlarm K × Nat} {now : Nat}
    (hmarked : Marked table ρ w entry) (htaken : Taken table ρ w w' now claim) :
    Apart entry (claim, now) := by
  rintro rfl
  obtain ⟨alarm, halarm, h⟩ := hmarked
  obtain ⟨alarm', due, halarm', hdue, hread, -⟩ := htaken
  cases halarm.symm.trans halarm'
  obtain ⟨htimestamp, -, hexpired⟩ := Alarm.due_eq_some hdue
  obtain hpast | ⟨-, hnone | ⟨queued, hqueued, hle⟩⟩ := h
  · exact absurd (hpast _ hread) (Nat.lt_irrefl _)
  · cases hnone.symm.trans htimestamp
  · have := hexpired queued hqueued
    dsimp only
    omega

theorem marked_of_taken {w w' : World K S} {now : Nat} (htaken : Taken table ρ w w' now claim) :
    Marked table ρ w' (claim, now) := by
  obtain ⟨alarm, due, -, -, hread, hrow⟩ := htaken
  exact ⟨_, hrow, .inr ⟨hread, .inr ⟨now, rfl, Int.le_refl _⟩⟩⟩

theorem apart_of_nodup {claims : List (ClaimedAlarm K)} (h : (claims.map (·.actor)).Nodup)
    (now : Nat) : (claims.map fun claim => (claim, now)).Pairwise Apart := by
  rw [List.Nodup, List.pairwise_map] at h
  rw [List.pairwise_map]
  exact h.imp fun hne heq => absurd (congrArg ClaimedAlarm.actor heq) hne

end Claims

/-! ## Runs of a store -/

/-- The action replaces the alarm of `actor`, or finishes this very revision. -/
def Ends (store : AlarmStore K S) (ρ : Revisions R) (actor : K) (revision : R) (w : World K S) :
    Action K → Prop
  | .update target timestampMs => target = actor ∧ ∃ alarms,
      store.update w.alarms target timestampMs = .ok alarms
  | .finish i => ∃ claim, w.inFlight[i]? = some claim ∧ claim.actor = actor ∧
      ρ.read revision = .ok claim.revision
  | _ => False

/-- The alarm of `actor` has a revision past `n`. -/
def Superseded (table : S → Table K R) (ρ : Revisions R) (actor : K) (n : Nat)
    (w : World K S) : Prop :=
  ∃ alarm, table w.alarms actor = some alarm ∧ ρ.Past n alarm.revision

section Runs

variable (hstore : Implements store table ρ) (hρ : ρ.Lawful) {w w' : World K S}
include hstore hρ

/-- An alarm stays until it is replaced or finished. -/
theorem step_keeps {revision : R} {timestampMs : Option Int}
    (halarm : ∃ queuedAtMs, table w.alarms actor = some ⟨revision, timestampMs, queuedAtMs⟩)
    (hends : ¬ Ends store ρ actor revision w action) (hstep : step store w action = some w') :
    ∃ queuedAtMs, table w'.alarms actor = some ⟨revision, timestampMs, queuedAtMs⟩ := by
  obtain ⟨queuedAtMs, halarm⟩ := halarm
  have hrow := (hstore.step_row w action actor).of_eq hstep
  generalize table w'.alarms actor = row at hrow
  cases hrow with
  | kept => exact ⟨queuedAtMs, halarm⟩
  | updated hupdate _ => exact absurd ⟨rfl, _, hupdate⟩ hends
  | queued halarm' _ =>
    cases halarm.symm.trans halarm'
    exact ⟨_, rfl⟩
  | finished hclaim hactor halarm' hwrite =>
    cases halarm.symm.trans halarm'
    exact absurd ⟨_, hclaim, hactor, hρ.read_write hwrite⟩ hends

theorem run_keeps {actions : List (Action K)} {revision : R} {timestampMs : Option Int}
    (halarm : ∃ queuedAtMs, table w.alarms actor = some ⟨revision, timestampMs, queuedAtMs⟩)
    (hends : Transition.Guarded (step store)
      (fun w action => ¬ Ends store ρ actor revision w action) w actions)
    (hrun : Transition.run (step store) w actions = some w') :
    ∃ queuedAtMs, table w'.alarms actor = some ⟨revision, timestampMs, queuedAtMs⟩ := by
  let Inv (w : World K S) : Prop :=
    ∃ queuedAtMs, table w.alarms actor = some ⟨revision, timestampMs, queuedAtMs⟩
  have hstep : ∀ w action w', Inv w → ¬ Ends store ρ actor revision w action →
      step store w action = some w' → Inv w' :=
    fun w action w' h hends hstep => step_keeps hstore hρ h hends hstep
  exact Transition.run_guarded_invariant hstep halarm hends hrun

/-- A revision that was replaced does not come back. -/
theorem step_superseded {n : Nat} (h : Superseded table ρ actor n w)
    (hstep : step store w action = some w') : Superseded table ρ actor n w' := by
  obtain ⟨alarm, halarm, hpast⟩ := h
  have hrow := (hstore.step_row w action actor).of_eq hstep
  unfold Superseded
  generalize table w'.alarms actor = row at hrow
  cases hrow with
  | kept => exact ⟨alarm, halarm, hpast⟩
  | updated _ hnext => exact ⟨_, rfl, hρ.past_mono hpast (hnext alarm halarm)⟩
  | queued halarm' _ =>
    cases halarm.symm.trans halarm'
    exact ⟨_, rfl, hpast⟩
  | finished _ _ halarm' _ =>
    cases halarm.symm.trans halarm'
    exact ⟨_, rfl, hpast⟩

/-- A `finish` for an older revision changes nothing. -/
theorem finish_older {s s' : S} {alarm : Alarm R} (halarm : table s claim.actor = some alarm)
    (hpast : ρ.Past claim.revision alarm.revision) (hfinish : store.finish s claim = .ok s') :
    s' = s := by
  obtain heq | ⟨current, hcurrent, hwrite, -⟩ := hstore.finish_eq_ok hfinish
  · exact hstore.finish_kept hfinish heq
  · cases halarm.symm.trans hcurrent
    exact absurd (hpast _ (hρ.read_write hwrite)) (Nat.lt_irrefl _)

/-- The mark of a claim lasts. -/
theorem step_marked {entry : ClaimedAlarm K × Nat} (h : Marked table ρ w entry)
    (hstep : step store w action = some w') : Marked table ρ w' entry := by
  obtain ⟨alarm, halarm, h⟩ := h
  have hrow := (hstore.step_row w action entry.1.actor).of_eq hstep
  unfold Marked
  generalize table w'.alarms entry.1.actor = row at hrow
  cases hrow with
  | kept => exact ⟨alarm, halarm, h⟩
  | updated _ hnext =>
    have hnext := hnext alarm halarm
    refine ⟨_, rfl, .inl ?_⟩
    obtain hpast | ⟨hread, -⟩ := h
    · exact hρ.past_mono hpast hnext
    · exact hρ.past_next hnext hread
  | @queued now limit order alarm' due halarm' hdue =>
    cases halarm.symm.trans halarm'
    obtain ⟨htimestamp, -, hexpired⟩ := Alarm.due_eq_some hdue
    refine ⟨_, rfl, h.imp id fun ⟨hread, h⟩ => ⟨hread, .inr ⟨now, rfl, ?_⟩⟩⟩
    obtain hnone | ⟨queued, hqueued, hle⟩ := h
    · cases hnone.symm.trans htimestamp
    · have := hexpired queued hqueued
      omega
  | finished _ _ halarm' _ =>
    cases halarm.symm.trans halarm'
    exact ⟨_, rfl, h.imp id fun ⟨hread, _⟩ => ⟨hread, .inl rfl⟩⟩

/-- Every step keeps the claims apart. -/
theorem step_claimsInv (h : ClaimsInv table ρ w) (hstep : step store w action = some w') :
    ClaimsInv table ρ w' := by
  have hold : ∀ entry ∈ w.claims, Marked table ρ w' entry :=
    fun entry hentry => step_marked hstore hρ (h.marked entry hentry) hstep
  obtain hclaims | ⟨now, limit, order, claims, -, hclaims, hnodup, htaken⟩ :=
    hstore.step_claims hstep
  · exact ⟨hclaims ▸ hold, hclaims ▸ h.apart⟩
  · refine ⟨?_, ?_⟩
    · intro entry hentry
      rw [hclaims, List.mem_append, List.mem_map] at hentry
      obtain hentry | ⟨claim, hclaim, rfl⟩ := hentry
      · exact hold entry hentry
      · exact marked_of_taken (htaken claim hclaim)
    · rw [hclaims, List.pairwise_append]
      refine ⟨h.apart, apart_of_nodup hnodup now, fun entry hentry entry' hentry' => ?_⟩
      obtain ⟨claim, hclaim, rfl⟩ := List.mem_map.mp hentry'
      exact apart_of_taken (h.marked entry hentry) (htaken claim hclaim)

end Runs

/-! ## Safety of one store -/

/-- Over every run of the store with pollers and callers: alarms stay until they
are replaced or finished, a `finish` of an older revision changes nothing, claims
of one revision are the queued timeout apart, and what is claimed is due. -/
structure Safe (store : AlarmStore K S) (table : S → Table K R) (ρ : Revisions R) : Prop where
  retrievable : ∀ {w w' : World K S} {actor : K} {timestampMs : Int} {alarms : S}
    {alarm : Alarm R} {actions : List (Action K)},
    store.update w.alarms actor (some timestampMs) = .ok alarms →
    table alarms actor = some alarm →
    Transition.Guarded (step store) (fun w action => ¬ Ends store ρ actor alarm.revision w action)
      { w with alarms := alarms } actions →
    Transition.run (step store) { w with alarms := alarms } actions = some w' →
    store.get w'.alarms actor = some timestampMs
  superseded : ∀ {w w' : World K S} {actor : K} {timestampMs : Option Int} {alarms : S}
    {alarm : Alarm R} {revision : Nat} {actions : List (Action K)},
    table w.alarms actor = some alarm → ρ.read alarm.revision = .ok revision →
    store.update w.alarms actor timestampMs = .ok alarms →
    Transition.run (step store) { w with alarms := alarms } actions = some w' →
    ∃ alarm', table w'.alarms actor = some alarm' ∧ ρ.Past revision alarm'.revision
  older_finish : ∀ {s s' : S} {claim : ClaimedAlarm K} {alarm : Alarm R},
    table s claim.actor = some alarm → ρ.Past claim.revision alarm.revision →
    store.finish s claim = .ok s' → s' = s
  claims_apart : ∀ {w w' : World K S} {actions : List (Action K)}, w.claims = [] →
    Transition.run (step store) w actions = some w' → w'.claims.Pairwise Apart
  claims_due : ∀ {s : S} {now expiredBefore : Int} {limit : Nat} {order : List K}
    {claims : List (ClaimedAlarm K)},
    (store.claimDue s now expiredBefore limit order).1 = .ok claims →
    ∀ claim ∈ claims, ∃ timestampMs,
      store.get s claim.actor = some timestampMs ∧ timestampMs ≤ now

/-- A store that implements the table is safe. -/
theorem Implements.safe (hstore : Implements store table ρ) (hρ : ρ.Lawful) :
    Safe store table ρ where
  retrievable := by
    intro w w' actor timestampMs alarms alarm actions hupdate halarm hends hrun
    obtain ⟨revision, heq, -⟩ := hstore.update_eq_ok hupdate
    have hset : table alarms actor = some ⟨revision, some timestampMs, none⟩ := by
      rw [heq, Table.set_self]
    cases halarm.symm.trans hset
    obtain ⟨queuedAtMs, hrow⟩ := run_keeps hstore hρ ⟨none, hset⟩ hends hrun
    rw [hstore.get_eq, Table.get, hrow]
    rfl
  superseded := by
    intro w w' actor timestampMs alarms alarm revision actions halarm hread hupdate hrun
    obtain ⟨next, heq, hnext⟩ := hstore.update_eq_ok hupdate
    have hstart : Superseded table ρ actor revision { w with alarms := alarms } :=
      ⟨_, (congrFun heq actor).trans (Table.set_self _ _ _),
        hρ.past_next (hnext alarm halarm) hread⟩
    exact Transition.run_invariant (fun w action w' h hstep => step_superseded hstore hρ h hstep)
      hstart hrun
  older_finish := finish_older hstore hρ
  claims_apart := by
    intro w w' actions hclaims hrun
    have hstart : ClaimsInv table ρ w := by
      constructor
      · intro entry hentry
        rw [hclaims] at hentry
        cases hentry
      · rw [hclaims]
        exact List.Pairwise.nil
    exact (Transition.run_invariant (fun w action w' h hstep => step_claimsInv hstore hρ h hstep)
      hstart hrun).apart
  claims_due := by
    intro s now expiredBefore limit order claims hclaims claim hclaim
    obtain ⟨alarm, due, halarm, hdue, -⟩ := (hstore.claimed (Prod.ext hclaims rfl)).2 claim hclaim
    obtain ⟨htimestamp, hle, -⟩ := Alarm.due_eq_some hdue
    refine ⟨due, ?_, hle⟩
    rw [hstore.get_eq, Table.get, halarm]
    exact htimestamp

end DurableActors.Ports.Alarms
