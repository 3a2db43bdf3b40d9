import DurableActors.Ports.OrganizationLimits

/-!
# A stopped activation stays stopped

The reports of one activation session carry one epoch and the number of the
report; the stop is the last of them.  They arrive in any order and any number
of times, between calls for other activations and reservations of the same one.
-/

namespace DurableActors.Ports.Admission

open Verified

variable {limits : OrganizationLimits} {retentionMs : Nat} {activation : Activation}
  {usage : Usage}
variable {reports : SessionReports}

/-! ## The calls -/

/-- The reports of a session: one epoch, numbered from one, the stop last. -/
structure SessionReports where
  epoch : Nat
  last : Nat
  last_pos : 0 < last

/-- A report of the session. -/
def SessionReports.Has (reports : SessionReports) (report : LifecycleReport) : Prop :=
  report.ownerEpoch = reports.epoch ∧
    if report.kind = .stopped then report.sequence = reports.last
    else report.sequence < reports.last

/-- A report of the activation, of whatever kind. -/
def Call.isReportOf (activation : Activation) (call : Call) : Bool :=
  match call.request with
  | .observe other _ => other = activation
  | _ => false

/-- The call is a report of the session, a reservation of the activation, or for
another activation; the activation is not released. -/
def SessionReports.Allows (reports : SessionReports) (activation : Activation) (call : Call) :
    Prop :=
  match call.request with
  | .reserve _ => True
  | .release other => other ≠ activation
  | .observe other report => other = activation → reports.Has report

/-- The stop of the activation. -/
def Call.isStopOf (activation : Activation) (call : Call) : Bool :=
  match call.request with
  | .observe other report => other = activation && report.kind = .stopped
  | _ => false

/-- The reading is within the retention from `start` on. -/
def Within (retentionMs start : Nat) (call : Call) : Prop :=
  start ≤ call.now ∧ call.now < Usage.forgetAt retentionMs start

/-! ## One call -/

/-- No stop has been observed. -/
def Usage.Open (reports : SessionReports) (activation : Activation) (usage : Usage) : Prop :=
  ∀ state, usage.sessions activation = some state →
    (state.epoch = 0 ∨ state.epoch = reports.epoch) ∧ state.sequence < reports.last ∧
      state.stopped = false

/-- The stop has been observed and is remembered up to `bound`. -/
structure Usage.Stopped (activation : Activation) (bound : Nat) (usage : Usage) : Prop where
  session : ∃ state, usage.sessions activation = some state ∧ state.stopped = true ∧
    bound ≤ state.forgetAt
  inactive : ∀ slot ∈ usage.active, slot.1 ≠ activation

namespace Usage

theorem prune_session_eq_some {now : Nat} {state : Session} :
    (usage.prune now).sessions activation = some state ↔
      usage.sessions activation = some state ∧ now < state.forgetAt := by
  show (usage.sessions activation).filter _ = some state ↔ _
  rw [Option.filter_eq_some_iff, decide_eq_true_eq]

@[simp] theorem setSession_self (usage : Usage) (activation : Activation)
    (state : Option Session) : (usage.setSession activation state).sessions activation = state :=
  if_pos rfl

theorem setSession_ne (usage : Usage) {activation other : Activation} (state : Option Session)
    (h : activation ≠ other) :
    (usage.setSession other state).sessions activation = usage.sessions activation := if_neg h

theorem Open.prune {reports : SessionReports} (h : usage.Open reports activation) (now : Nat) :
    (usage.prune now).Open reports activation :=
  fun state hstate => h state (prune_session_eq_some.mp hstate).1

theorem Stopped.prune {bound now : Nat} (h : usage.Stopped activation bound) (hnow : now < bound) :
    (usage.prune now).Stopped activation bound := by
  obtain ⟨⟨state, hstate, hstopped, hbound⟩, hinactive⟩ := h
  refine ⟨⟨state, prune_session_eq_some.mpr ⟨hstate, by omega⟩, hstopped, hbound⟩, ?_⟩
  exact fun slot hslot => hinactive slot (List.mem_of_mem_filter hslot)

end Usage

/-- What `observe` leaves, by what it finds in the pruned usage. -/
inductive Usage.Observed (retentionMs : Nat) (pruned : Usage) (activation : Activation)
    (report : LifecycleReport) (now : Nat) : Usage → Prop
  | ignored
      (hold : ((pruned.sessions activation).getD {}).stopped = true ∨
        (0 < ((pruned.sessions activation).getD {}).epoch ∧
          ((pruned.sessions activation).getD {}).epoch ≠ report.ownerEpoch) ∨
        report.sequence ≤ ((pruned.sessions activation).getD {}).sequence) :
      Usage.Observed retentionMs pruned activation report now
        (pruned.setSession activation (some ((pruned.sessions activation).getD {})))
  | stopped (hrunning : ((pruned.sessions activation).getD {}).stopped = false)
      (hkind : report.kind = .stopped) :
      Usage.Observed retentionMs pruned activation report now
        (({ pruned with active := pruned.active.erase activation } : Usage).setSession activation
          (some ⟨report.ownerEpoch, report.sequence, true, Usage.forgetAt retentionMs now⟩))
  | renewed (hrunning : ((pruned.sessions activation).getD {}).stopped = false)
      (hkind : report.kind ≠ .stopped) :
      Usage.Observed retentionMs pruned activation report now
        (({ pruned with
            active := pruned.active.insert activation (saturatingAdd now reportLeaseMs) } :
          Usage).setSession activation
          (some ⟨report.ownerEpoch, report.sequence, false, Usage.forgetAt retentionMs now⟩))

/-- The outcomes of `observe`. -/
theorem Usage.observe_outcome (retentionMs : Nat) (usage : Usage) (activation : Activation)
    (report : LifecycleReport) (now : Nat) :
    Usage.Observed retentionMs (usage.prune now) activation report now
      (usage.observe retentionMs activation report now) := by
  unfold Usage.observe
  dsimp only
  split
  · rename_i hold
    exact .ignored hold
  · rename_i hnew
    have hrunning := Bool.eq_false_iff.mpr (not_or.mp hnew).1
    split
    · rename_i hkind
      exact .stopped hrunning hkind
    · rename_i hkind
      exact .renewed hrunning hkind

/-- A call that is not the release of the activation leaves its stop in place. -/
theorem Usage.Stopped.handle {bound : Nat} {call : Call} (h : usage.Stopped activation bound)
    (hnow : call.now < bound) (hallows : reports.Allows activation call) :
    (usage.handle retentionMs limits call).2.Stopped activation bound := by
  obtain ⟨now, request⟩ := call
  have hprune := h.prune hnow
  cases request with
  | reserve other =>
    show (usage.reserve retentionMs other limits now).2.Stopped activation bound
    have houtcome := usage.reserve_outcome retentionMs other limits now
    generalize usage.reserve retentionMs other limits now = outcome at houtcome
    cases houtcome with
    | known _ => exact hprune
    | noSlot _ _ => exact hprune
    | noToken _ _ => exact hprune
    | admitted hsession _ =>
      obtain ⟨⟨state, hstate, hstopped⟩, hinactive⟩ := hprune
      have hother : activation ≠ other := by
        rintro rfl
        rw [hsession] at hstate
        cases hstate
      refine ⟨⟨state, (Usage.setSession_ne _ _ hother).trans hstate, hstopped⟩, ?_⟩
      intro slot hslot
      obtain rfl | ⟨hslot, -⟩ := Slots.mem_insert_iff.mp hslot
      · exact hother.symm
      · exact hinactive slot hslot
  | release other =>
    obtain ⟨⟨state, hstate, hstopped⟩, hinactive⟩ := h
    refine ⟨⟨state, (Usage.setSession_ne _ _ (Ne.symm hallows)).trans hstate, hstopped⟩, ?_⟩
    exact fun slot hslot => hinactive slot (Slots.mem_erase_iff.mp hslot).1
  | observe other report =>
    show (usage.observe retentionMs other report now).Stopped activation bound
    have houtcome := usage.observe_outcome retentionMs other report now
    generalize usage.observe retentionMs other report now = left at houtcome
    obtain ⟨⟨state, hstate, hstopped⟩, hinactive⟩ := hprune
    by_cases hother : activation = other
    · subst hother
      cases houtcome with
      | ignored _ =>
        refine ⟨⟨state, ?_, hstopped⟩, hinactive⟩
        rw [Usage.setSession_self, hstate]
        rfl
      | stopped hrunning _ =>
        rw [hstate] at hrunning
        cases hstopped.1.symm.trans hrunning
      | renewed hrunning _ =>
        rw [hstate] at hrunning
        cases hstopped.1.symm.trans hrunning
    · cases houtcome with
      | ignored _ =>
        exact ⟨⟨state, (Usage.setSession_ne _ _ hother).trans hstate, hstopped⟩, hinactive⟩
      | stopped _ _ =>
        refine ⟨⟨state, (Usage.setSession_ne _ _ hother).trans hstate, hstopped⟩, ?_⟩
        exact fun slot hslot => hinactive slot (Slots.mem_erase_iff.mp hslot).1
      | renewed _ _ =>
        refine ⟨⟨state, (Usage.setSession_ne _ _ hother).trans hstate, hstopped⟩, ?_⟩
        intro slot hslot
        obtain rfl | ⟨hslot, -⟩ := Slots.mem_insert_iff.mp hslot
        · exact Ne.symm hother
        · exact hinactive slot hslot

theorem Usage.Open.getD (h : usage.Open reports activation) :
    (((usage.sessions activation).getD {}).epoch = 0 ∨
        ((usage.sessions activation).getD {}).epoch = reports.epoch) ∧
      ((usage.sessions activation).getD {}).sequence < reports.last ∧
      ((usage.sessions activation).getD {}).stopped = false := by
  cases hstate : usage.sessions activation with
  | none => exact ⟨.inl rfl, reports.last_pos, rfl⟩
  | some state => exact h state hstate

/-- The first stop is accepted. -/
theorem Usage.Open.stop {report : LifecycleReport} {now start : Nat}
    (h : usage.Open reports activation) (hreport : reports.Has report)
    (hkind : report.kind = .stopped) (hstart : start ≤ now) :
    (usage.observe retentionMs activation report now).Stopped activation
      (Usage.forgetAt retentionMs start) := by
  obtain ⟨hepoch, hsequence⟩ := hreport
  rw [if_pos hkind] at hsequence
  obtain ⟨hepoch', hsequence', hrunning⟩ := (h.prune now).getD
  have houtcome := usage.observe_outcome retentionMs activation report now
  generalize usage.observe retentionMs activation report now = left at houtcome
  cases houtcome with
  | ignored hold =>
    exfalso
    obtain hstopped | ⟨hpos, hne⟩ | hle := hold
    · rw [hrunning] at hstopped
      cases hstopped
    · obtain hzero | hsame := hepoch'
      · omega
      · exact hne (hsame.trans hepoch.symm)
    · omega
  | stopped _ _ =>
    refine ⟨⟨_, Usage.setSession_self _ _ _, rfl, ?_⟩, ?_⟩
    · show min (start + retentionMs) _ ≤ min (now + retentionMs) _
      omega
    · exact fun slot hslot => (Slots.mem_erase_iff.mp hslot).2
  | renewed _ hkind' => exact absurd hkind hkind'

/-- Without a stop the activation stays open. -/
theorem Usage.Open.handle {call : Call} (h : usage.Open reports activation)
    (hallows : reports.Allows activation call) (hstop : call.isStopOf activation = false) :
    (usage.handle retentionMs limits call).2.Open reports activation := by
  obtain ⟨now, request⟩ := call
  have hprune := h.prune now
  cases request with
  | reserve other =>
    show (usage.reserve retentionMs other limits now).2.Open reports activation
    have houtcome := usage.reserve_outcome retentionMs other limits now
    generalize usage.reserve retentionMs other limits now = outcome at houtcome
    cases houtcome with
    | known _ => exact hprune
    | noSlot _ _ => exact hprune
    | noToken _ _ => exact hprune
    | admitted _ _ =>
      intro state hstate
      by_cases hother : activation = other
      · subst hother
        unfold Usage.withAdmission at hstate
        rw [Usage.setSession_self] at hstate
        cases hstate
        exact ⟨.inl rfl, reports.last_pos, rfl⟩
      · exact hprune state ((Usage.setSession_ne _ _ hother).symm.trans hstate)
  | release other =>
    intro state hstate
    exact h state ((Usage.setSession_ne _ _ (Ne.symm hallows)).symm.trans hstate)
  | observe other report =>
    show (usage.observe retentionMs other report now).Open reports activation
    have houtcome := usage.observe_outcome retentionMs other report now
    generalize usage.observe retentionMs other report now = left at houtcome
    intro state hstate
    by_cases hother : activation = other
    · subst hother
      obtain ⟨hepoch, hsequence⟩ := hallows rfl
      have hkind : report.kind ≠ .stopped := by
        intro hkind
        simp only [Call.isStopOf, hkind, decide_true, Bool.and_self] at hstop
        cases hstop
      rw [if_neg hkind] at hsequence
      cases houtcome with
      | ignored _ =>
        rw [Usage.setSession_self] at hstate
        cases hstate
        exact hprune.getD
      | stopped _ hkind' => exact absurd hkind' hkind
      | renewed _ _ =>
        rw [Usage.setSession_self] at hstate
        cases hstate
        exact ⟨.inr hepoch, hsequence, rfl⟩
    · cases houtcome with
      | ignored _ => exact hprune state ((Usage.setSession_ne _ _ hother).symm.trans hstate)
      | stopped _ _ => exact hprune state ((Usage.setSession_ne _ _ hother).symm.trans hstate)
      | renewed _ _ => exact hprune state ((Usage.setSession_ne _ _ hother).symm.trans hstate)

/-! ## Runs -/

namespace MemoryReservations

theorem handle_organization (m : MemoryReservations) (call : Call) (organization : String) :
    (m.handle retentionMs limits call).2.organizations organization =
      if organization = call.organization then
        ((m.organizations call.organization).handle retentionMs limits call).2
      else m.organizations organization := rfl

/-- The stop of the activation has been observed and is remembered up to `bound`. -/
def Stopped (activation : Activation) (bound : Nat) (m : MemoryReservations) : Prop :=
  (m.organizations activation.organization).Stopped activation bound

/-- The store has observed no stop of the activation. -/
def Open (reports : SessionReports) (activation : Activation) (m : MemoryReservations) : Prop :=
  (m.organizations activation.organization).Open reports activation

variable {m : MemoryReservations} {reports : SessionReports} {call : Call} {calls : List Call}
  {start : Nat}

theorem Stopped.handle {bound : Nat} (h : m.Stopped activation bound) (hnow : call.now < bound)
    (hallows : reports.Allows activation call) :
    (m.handle retentionMs limits call).2.Stopped activation bound := by
  unfold Stopped
  rw [handle_organization]
  by_cases horganization : activation.organization = call.organization
  · rw [if_pos horganization]
    exact .handle (horganization ▸ h) hnow hallows
  · rw [if_neg horganization]
    exact h

theorem Open.handle (h : m.Open reports activation) (hallows : reports.Allows activation call)
    (hstop : call.isStopOf activation = false) :
    (m.handle retentionMs limits call).2.Open reports activation := by
  unfold Open
  rw [handle_organization]
  by_cases horganization : activation.organization = call.organization
  · rw [if_pos horganization]
    exact .handle (horganization ▸ h) hallows hstop
  · rw [if_neg horganization]
    exact h

/-- The stop is observed. -/
theorem Open.stop (h : m.Open reports activation) (hallows : reports.Allows activation call)
    (hstop : call.isStopOf activation = true) (hwithin : Within retentionMs start call) :
    (m.handle retentionMs limits call).2.Stopped activation (Usage.forgetAt retentionMs start) := by
  obtain ⟨now, request⟩ := call
  cases request with
  | reserve other => cases hstop
  | release other => cases hstop
  | observe other report =>
    simp only [Call.isStopOf, Bool.and_eq_true, decide_eq_true_eq] at hstop
    obtain ⟨rfl, hkind⟩ := hstop
    have horganization : other.organization =
        (⟨now, .observe other report⟩ : Call).organization := rfl
    unfold Stopped
    rw [handle_organization, if_pos horganization]
    exact Usage.Open.stop h (hallows rfl) hkind hwithin.1

theorem Stopped.after (h : m.Stopped activation (Usage.forgetAt retentionMs start))
    (hallows : ∀ call ∈ calls, reports.Allows activation call)
    (hwithin : ∀ call ∈ calls, Within retentionMs start call) :
    (Machine.after (MemoryReservations.handle retentionMs limits) m calls).Stopped activation
      (Usage.forgetAt retentionMs start) := by
  induction calls generalizing m with
  | nil => exact h
  | cons call calls ih =>
    obtain ⟨hallows, hallows'⟩ := List.forall_mem_cons.mp hallows
    obtain ⟨hwithin, hwithin'⟩ := List.forall_mem_cons.mp hwithin
    exact ih (h.handle hwithin.2 hallows) hallows' hwithin'

/-- Once the stop has been among the calls, the activation is stopped. -/
theorem Open.after_stop (h : m.Open reports activation)
    (hallows : ∀ call ∈ calls, reports.Allows activation call)
    (hwithin : ∀ call ∈ calls.dropWhile (fun call => ! call.isStopOf activation),
      Within retentionMs start call)
    (hstop : ∃ call ∈ calls, call.isStopOf activation = true) :
    (Machine.after (MemoryReservations.handle retentionMs limits) m calls).Stopped activation
      (Usage.forgetAt retentionMs start) := by
  induction calls generalizing m with
  | nil =>
    obtain ⟨call, hcall, -⟩ := hstop
    cases hcall
  | cons call calls ih =>
    obtain ⟨hallows, hallows'⟩ := List.forall_mem_cons.mp hallows
    cases hcall : call.isStopOf activation with
    | true =>
      rw [List.dropWhile_cons_of_neg (by simp [hcall])] at hwithin
      obtain ⟨hwithin, hwithin'⟩ := List.forall_mem_cons.mp hwithin
      exact (h.stop hallows hcall hwithin).after hallows' hwithin'
    | false =>
      rw [List.dropWhile_cons_of_pos (by simp [hcall])] at hwithin
      refine ih (h.handle hallows hcall) hallows' hwithin ?_
      obtain ⟨other, hother, hstop⟩ := hstop
      obtain rfl | hother := List.mem_cons.mp hother
      · rw [hcall] at hstop
        cases hstop
      · exact ⟨other, hother, hstop⟩

/-- A stopped activation is refused. -/
theorem Stopped.reserve {bound now : Nat} (h : m.Stopped activation bound) (hnow : now < bound) :
    (m.handle retentionMs limits ⟨now, .reserve activation⟩).1 = some (.error .stopped) := by
  obtain ⟨⟨state, hstate, hstopped, -⟩, -⟩ := h.prune hnow
  show some ((m.organizations activation.organization).reserve retentionMs activation limits
    now).1 = _
  unfold Usage.reserve
  dsimp only
  rw [hstate]
  dsimp only
  rw [if_pos hstopped]

end MemoryReservations

end DurableActors.Ports.Admission
