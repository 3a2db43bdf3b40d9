import DurableActors.Ports.AdmissionStopped

/-!
# The order of reports does not matter once they are all in

Two usages are the same from a time on if pruning them at that time makes them
equal.  A report of a stopped activation only prunes, so leaving it out changes
no later answer (`results_without_reports`).

What the reports of a session can change of other activations is whether a
reservation finds a slot and a token.  `Usage.others` is what is left of a usage
without the activation and without the bucket; two runs that differ in the
reports only, and answer the other activations alike, keep it the same.
-/

namespace DurableActors.Ports.Admission

open Verified

variable {limits : OrganizationLimits} {retentionMs : Nat} {activation : Activation}
  {usage usage' : Usage} {now later : Nat}

/-! ## The same from a time on -/

/-- The usages are the same at `now` and later. -/
def Usage.SameFrom (now : Nat) (usage usage' : Usage) : Prop :=
  usage.prune now = usage'.prune now

theorem Usage.prune_prune (usage : Usage) (h : now ≤ later) :
    (usage.prune now).prune later = usage.prune later :=
  Usage.ext (Slots.live_live usage.active h) (funext fun a => filter_later (usage.sessions a) h)
    rfl rfl

theorem Usage.SameFrom.mono (h : Usage.SameFrom now usage usage') (hle : now ≤ later) :
    Usage.SameFrom later usage usage' := by
  unfold Usage.SameFrom
  rw [← usage.prune_prune hle, ← usage'.prune_prune hle, h]

theorem Usage.SameFrom.prune (usage : Usage) (now : Nat) :
    Usage.SameFrom now (usage.prune now) usage := usage.prune_prune (Nat.le_refl now)

theorem Usage.prune_release (usage : Usage) (activation : Activation) (now : Nat) :
    (usage.release activation).prune now = (usage.prune now).release activation := by
  refine Usage.ext (Slots.live_erase usage.active activation now) (funext fun a => ?_) rfl rfl
  show Option.filter _ (if a = activation then none else usage.sessions a) =
    if a = activation then none else Option.filter _ (usage.sessions a)
  split
  · rfl
  · rfl

/-- The same usages answer a call alike and stay the same. -/
theorem Usage.SameFrom.handle (retentionMs : Nat) (limits : OrganizationLimits) {call : Call}
    (h : Usage.SameFrom call.now usage usage') :
    (usage.handle retentionMs limits call).1 = (usage'.handle retentionMs limits call).1 ∧
      Usage.SameFrom call.now (usage.handle retentionMs limits call).2
        (usage'.handle retentionMs limits call).2 := by
  obtain ⟨now, request⟩ := call
  cases request with
  | reserve other =>
    have hreserve : usage.reserve retentionMs other limits now =
        usage'.reserve retentionMs other limits now := by
      unfold Usage.reserve
      rw [h]
    show some (usage.reserve retentionMs other limits now).1 = some _ ∧
      Usage.SameFrom now (usage.reserve retentionMs other limits now).2 _
    rw [hreserve]
    exact ⟨rfl, rfl⟩
  | release other =>
    refine ⟨rfl, ?_⟩
    show (usage.release other).prune now = (usage'.release other).prune now
    rw [Usage.prune_release, Usage.prune_release, h]
  | observe other report =>
    have hobserve : usage.observe retentionMs other report now =
        usage'.observe retentionMs other report now := by
      unfold Usage.observe
      rw [h]
    refine ⟨rfl, ?_⟩
    show Usage.SameFrom now (usage.observe retentionMs other report now) _
    rw [hobserve]
    rfl

/-- A report of a stopped activation only prunes. -/
theorem Usage.Stopped.observe {bound : Nat} (h : usage.Stopped activation bound)
    (hnow : now < bound) (report : LifecycleReport) :
    usage.observe retentionMs activation report now = usage.prune now := by
  obtain ⟨⟨state, hstate, hstopped, -⟩, -⟩ := h.prune hnow
  have houtcome := usage.observe_outcome retentionMs activation report now
  generalize usage.observe retentionMs activation report now = left at houtcome
  cases houtcome with
  | ignored _ =>
    refine Usage.ext rfl (funext fun a => ?_) rfl rfl
    by_cases ha : a = activation
    · rw [ha, Usage.setSession_self, hstate]
      rfl
    · exact Usage.setSession_ne _ _ ha
  | stopped hrunning _ =>
    rw [hstate] at hrunning
    cases hstopped.symm.trans hrunning
  | renewed hrunning _ =>
    rw [hstate] at hrunning
    cases hstopped.symm.trans hrunning

namespace MemoryReservations

variable {m m' : MemoryReservations} {reports : SessionReports} {call : Call}
  {calls calls' : List Call} {start : Nat}

/-- The stores are the same at `now` and later. -/
def SameFrom (now : Nat) (m m' : MemoryReservations) : Prop :=
  ∀ organization, Usage.SameFrom now (m.organizations organization)
    (m'.organizations organization)

theorem SameFrom.handle (retentionMs : Nat) (limits : OrganizationLimits)
    (h : SameFrom now m m') (hle : now ≤ call.now) :
    (m.handle retentionMs limits call).1 = (m'.handle retentionMs limits call).1 ∧
      SameFrom call.now (m.handle retentionMs limits call).2
        (m'.handle retentionMs limits call).2 := by
  have hcall := ((h call.organization).mono hle).handle retentionMs limits
  refine ⟨hcall.1, fun organization => ?_⟩
  rw [handle_organization, handle_organization]
  by_cases horganization : organization = call.organization
  · rw [if_pos horganization, if_pos horganization]
    exact hcall.2
  · rw [if_neg horganization, if_neg horganization]
    exact (h organization).mono hle

theorem Stopped.report {bound : Nat} (h : m.Stopped activation bound) (hnow : call.now < bound)
    (hreport : call.isReportOf activation = true) :
    SameFrom call.now (m.handle retentionMs limits call).2 m := by
  obtain ⟨now, request⟩ := call
  cases request with
  | reserve other => cases hreport
  | release other => cases hreport
  | observe other report =>
    obtain rfl : other = activation := of_decide_eq_true hreport
    intro organization
    have hcall : (⟨now, .observe other report⟩ : Call).organization = other.organization := rfl
    rw [handle_organization, hcall]
    by_cases horganization : organization = other.organization
    · subst horganization
      have hsame : ((m.organizations other.organization).handle retentionMs limits
          ⟨now, .observe other report⟩).2 = (m.organizations other.organization).prune now :=
        Usage.Stopped.observe h hnow report
      rw [if_pos rfl, hsame]
      exact .prune _ now
    · rw [if_neg horganization]
      rfl

/-- After the stop, the other calls are answered as if no report had come. -/
theorem results_without_reports (h : SameFrom now m m')
    (hstopped : m.Stopped activation (Usage.forgetAt retentionMs start))
    (hclock : calls.Pairwise fun call later => call.now ≤ later.now)
    (hstart : ∀ call ∈ calls, now ≤ call.now)
    (hallows : ∀ call ∈ calls, reports.Allows activation call)
    (hwithin : ∀ call ∈ calls, Within retentionMs start call) :
    Machine.answersOf (MemoryReservations.handle retentionMs limits)
        (fun call => ! call.isReportOf activation) m calls =
      Machine.answers (MemoryReservations.handle retentionMs limits) m'
        (calls.filter fun call => ! call.isReportOf activation) := by
  induction calls generalizing now m m' with
  | nil => rfl
  | cons call calls ih =>
    obtain ⟨hlater, hclock⟩ := List.pairwise_cons.mp hclock
    obtain ⟨hle, -⟩ := List.forall_mem_cons.mp hstart
    obtain ⟨hallow, hallows⟩ := List.forall_mem_cons.mp hallows
    obtain ⟨hin, hwithin⟩ := List.forall_mem_cons.mp hwithin
    have hstopped' : (m.handle retentionMs limits call).2.Stopped activation
        (Usage.forgetAt retentionMs start) := hstopped.handle hin.2 hallow
    unfold Machine.answersOf
    cases hreport : call.isReportOf activation with
    | true =>
      have hsame : SameFrom call.now (m.handle retentionMs limits call).2 m :=
        hstopped.report hin.2 hreport
      have hpruned : SameFrom call.now (m.handle retentionMs limits call).2 m' :=
        fun organization => (hsame organization).trans ((h organization).mono hle)
      rw [List.filter_cons_of_neg (by rw [hreport]; exact Bool.false_ne_true)]
      exact ih hpruned hstopped' hclock hlater hallows hwithin
    | false =>
      have hcall := h.handle retentionMs limits hle
      rw [List.filter_cons_of_pos (by rw [hreport]; rfl)]
      show _ :: _ = _ :: _
      rw [hcall.1, ih hcall.2 hstopped' hclock hlater hallows hwithin]

end MemoryReservations

/-! ## The other activations -/

/-- The usage without the activation and the bucket. -/
def Usage.others (activation : Activation) (usage : Usage) : Usage :=
  { active := usage.active.erase activation
    sessions := fun a => if a = activation then none else usage.sessions a }

namespace Slots

variable {A : Type} [DecidableEq A]

theorem erase_comm (slots : Slots A) (a b : A) :
    (slots.erase a).erase b = (slots.erase b).erase a := by
  unfold erase
  rw [List.filter_filter, List.filter_filter]
  exact List.filter_congr fun slot _ => Bool.and_comm _ _

theorem erase_insert_self (slots : Slots A) (a : A) (expiresAt : Nat) :
    (slots.insert a expiresAt).erase a = slots.erase a := by
  unfold insert erase
  rw [List.filter_cons_of_neg (by simp), List.filter_filter]
  exact List.filter_congr fun slot _ => Bool.and_self _

theorem erase_insert_of_ne (slots : Slots A) {a b : A} (expiresAt : Nat) (h : b ≠ a) :
    (slots.insert b expiresAt).erase a = (slots.erase a).insert b expiresAt := by
  show List.filter (fun slot => decide (slot.1 ≠ a)) ((b, expiresAt) :: slots.erase b) =
    (b, expiresAt) :: (slots.erase a).erase b
  rw [List.filter_cons, if_pos (decide_eq_true h), ← erase_comm]
  rfl

end Slots

namespace Usage

theorem others_prune (usage : Usage) (activation : Activation) (now : Nat) :
    (usage.prune now).others activation = (usage.others activation).prune now := by
  refine Usage.ext (Slots.live_erase usage.active activation now).symm (funext fun a => ?_) rfl rfl
  show (if a = activation then none else Option.filter _ (usage.sessions a)) =
    Option.filter _ (if a = activation then none else usage.sessions a)
  split
  · rfl
  · rfl

theorem others_sessions (usage : Usage) {activation other : Activation} (h : other ≠ activation) :
    (usage.others activation).sessions other = usage.sessions other := if_neg h

theorem others_setSession_self (usage : Usage) (activation : Activation) (state : Option Session) :
    (usage.setSession activation state).others activation = usage.others activation := by
  refine Usage.ext rfl (funext fun a => ?_) rfl rfl
  by_cases ha : a = activation
  · simp only [Usage.others, if_pos ha]
  · simp only [Usage.others, Usage.setSession, if_neg ha]

theorem others_setSession (usage : Usage) {activation other : Activation}
    (state : Option Session) (h : other ≠ activation) :
    (usage.setSession other state).others activation =
      (usage.others activation).setSession other state := by
  refine Usage.ext rfl (funext fun a => ?_) rfl rfl
  by_cases ha : a = other
  · have hne : a ≠ activation := fun h' => h (ha.symm.trans h')
    simp only [Usage.others, Usage.setSession, if_pos ha, if_neg hne]
  · simp only [Usage.others, Usage.setSession, if_neg ha]

/-- A call for the activation leaves the others alone. -/
theorem others_handle_self (usage : Usage) {call : Call}
    (hcall : call.request.activation = activation) (hkeep : call.request ≠ .release activation) :
    (usage.handle retentionMs limits call).2.others activation =
      (usage.others activation).prune call.now := by
  obtain ⟨now, request⟩ := call
  rw [← others_prune]
  cases request with
  | reserve other =>
    obtain rfl : other = activation := hcall
    show (usage.reserve retentionMs other limits now).2.others other = _
    have houtcome := usage.reserve_outcome retentionMs other limits now
    generalize usage.reserve retentionMs other limits now = outcome at houtcome
    cases houtcome with
    | known _ => rfl
    | noSlot _ _ => rfl
    | noToken _ _ => rfl
    | admitted _ _ =>
      unfold Usage.withAdmission
      rw [others_setSession_self]
      exact Usage.ext (Slots.erase_insert_self _ _ _) rfl rfl rfl
  | release other =>
    obtain rfl : other = activation := hcall
    exact absurd rfl hkeep
  | observe other report =>
    obtain rfl : other = activation := hcall
    show (usage.observe retentionMs other report now).others other = _
    have houtcome := usage.observe_outcome retentionMs other report now
    generalize usage.observe retentionMs other report now = left at houtcome
    cases houtcome with
    | ignored _ => exact others_setSession_self _ _ _
    | stopped _ _ =>
      rw [others_setSession_self]
      refine Usage.ext ?_ rfl rfl rfl
      show ((usage.prune now).active.erase other).erase other = (usage.prune now).active.erase other
      unfold Slots.erase
      rw [List.filter_filter]
      exact List.filter_congr fun slot _ => Bool.and_self _
    | renewed _ _ =>
      rw [others_setSession_self]
      exact Usage.ext (Slots.erase_insert_self _ _ _) rfl rfl rfl

/-- Whether another activation is admitted is all that matters of a reservation. -/
theorem others_reserve (usage : Usage) {other : Activation} (h : other ≠ activation) (now : Nat) :
    (usage.reserve retentionMs other limits now).2.others activation =
      if ((usage.others activation).prune now).sessions other = none ∧
          (usage.reserve retentionMs other limits now).1 = .ok () then
        ((usage.others activation).prune now).withAdmission retentionMs other now
      else (usage.others activation).prune now := by
  have houtcome := usage.reserve_outcome retentionMs other limits now
  rw [← others_prune, others_sessions _ h]
  generalize usage.reserve retentionMs other limits now = outcome at houtcome
  cases houtcome with
  | known hsession =>
    refine (if_neg ?_).symm
    rintro ⟨hnone, -⟩
    rw [hsession] at hnone
    cases hnone
  | noSlot _ _ =>
    refine (if_neg ?_).symm
    rintro ⟨-, hok⟩
    cases hok
  | noToken _ _ =>
    refine (if_neg ?_).symm
    rintro ⟨-, hok⟩
    cases hok
  | admitted hsession _ =>
    rw [if_pos ⟨hsession, rfl⟩]
    unfold Usage.withAdmission
    rw [others_setSession _ _ h]
    congr 1
    exact Usage.ext (Slots.erase_insert_of_ne _ _ h) rfl rfl rfl

theorem others_observe (usage : Usage) {other : Activation} (h : other ≠ activation)
    (report : LifecycleReport) (now : Nat) :
    (usage.observe retentionMs other report now).others activation =
      (usage.others activation).observe retentionMs other report now := by
  unfold Usage.observe
  dsimp only
  rw [← others_prune, others_sessions _ h]
  generalize usage.prune now = pruned
  split
  · exact others_setSession _ _ h
  · split
    · rw [others_setSession _ _ h]
      congr 1
      exact Usage.ext (Slots.erase_comm _ _ _) rfl rfl rfl
    · rw [others_setSession _ _ h]
      congr 1
      exact Usage.ext (Slots.erase_insert_of_ne _ _ h) rfl rfl rfl

theorem others_release (usage : Usage) {other : Activation} (h : other ≠ activation) :
    (usage.release other).others activation = (usage.others activation).release other := by
  unfold Usage.release
  rw [others_setSession _ _ h]
  congr 1
  exact Usage.ext (Slots.erase_comm _ _ _) rfl rfl rfl

end Usage

/-- Calls for other activations with the same results keep the others the same. -/
theorem Usage.SameFrom.others_handle {call : Call}
    (h : Usage.SameFrom call.now (usage.others activation) (usage'.others activation))
    (hother : call.request.activation ≠ activation)
    (hresult : (usage.handle retentionMs limits call).1 =
      (usage'.handle retentionMs limits call).1) :
    Usage.SameFrom call.now ((usage.handle retentionMs limits call).2.others activation)
      ((usage'.handle retentionMs limits call).2.others activation) := by
  have hcall := (h.handle retentionMs limits).2
  obtain ⟨now, request⟩ := call
  cases request with
  | reserve other =>
    have hother : other ≠ activation := hother
    have h : (usage.others activation).prune now = (usage'.others activation).prune now := h
    have hresult : (usage.reserve retentionMs other limits now).1 =
        (usage'.reserve retentionMs other limits now).1 := Option.some.inj hresult
    show Usage.SameFrom now ((usage.reserve retentionMs other limits now).2.others activation)
      ((usage'.reserve retentionMs other limits now).2.others activation)
    rw [Usage.others_reserve _ hother, Usage.others_reserve _ hother, h, hresult]
    rfl
  | release other =>
    have hother : other ≠ activation := hother
    show Usage.SameFrom now ((usage.release other).others activation)
      ((usage'.release other).others activation)
    rw [Usage.others_release _ hother, Usage.others_release _ hother]
    exact hcall
  | observe other report =>
    have hother : other ≠ activation := hother
    show Usage.SameFrom now ((usage.observe retentionMs other report now).others activation)
      ((usage'.observe retentionMs other report now).others activation)
    rw [Usage.others_observe _ hother, Usage.others_observe _ hother]
    exact hcall

namespace MemoryReservations

variable {m m' : MemoryReservations} {reports : SessionReports} {call : Call}
  {calls calls' : List Call} {start : Nat}

/-- The stores are the same at `now` and later but for the activation and the buckets. -/
def OthersSame (activation : Activation) (now : Nat) (m m' : MemoryReservations) : Prop :=
  ∀ organization, Usage.SameFrom now ((m.organizations organization).others activation)
    ((m'.organizations organization).others activation)

theorem OthersSame.refl (activation : Activation) (now : Nat) (m : MemoryReservations) :
    OthersSame activation now m m := fun _ => rfl

theorem OthersSame.trans {m'' : MemoryReservations} (h : OthersSame activation now m m')
    (h' : OthersSame activation now m' m'') : OthersSame activation now m m'' :=
  fun organization => Eq.trans (h organization) (h' organization)

theorem OthersSame.symm (h : OthersSame activation now m m') : OthersSame activation now m' m :=
  fun organization => Eq.symm (h organization)

theorem OthersSame.mono (h : OthersSame activation now m m') (hle : now ≤ later) :
    OthersSame activation later m m' := fun organization => (h organization).mono hle

theorem OthersSame.self (m : MemoryReservations) (hcall : call.request.activation = activation)
    (hallows : reports.Allows activation call) (hle : call.now ≤ later) :
    OthersSame activation later (m.handle retentionMs limits call).2 m := by
  intro organization
  rw [handle_organization]
  by_cases horganization : organization = call.organization
  · rw [if_pos horganization, horganization]
    have hkeep : call.request ≠ .release activation := by
      intro hrelease
      unfold SessionReports.Allows at hallows
      rw [hrelease] at hallows
      exact hallows rfl
    rw [Usage.others_handle_self _ hcall hkeep]
    exact Usage.prune_prune _ hle
  · rw [if_neg horganization]
    rfl

theorem OthersSame.handle (h : OthersSame activation call.now m m')
    (hother : call.request.activation ≠ activation)
    (hresult : (m.handle retentionMs limits call).1 = (m'.handle retentionMs limits call).1) :
    OthersSame activation call.now (m.handle retentionMs limits call).2
      (m'.handle retentionMs limits call).2 := by
  intro organization
  rw [handle_organization, handle_organization]
  by_cases horganization : organization = call.organization
  · rw [if_pos horganization, if_pos horganization]
    exact (h call.organization).others_handle hother hresult
  · rw [if_neg horganization, if_neg horganization]
    exact h organization

/-- Calls for the activation alone. -/
theorem OthersSame.after_self (m : MemoryReservations)
    (hcalls : ∀ call ∈ calls, call.request.activation = activation)
    (hallows : ∀ call ∈ calls, reports.Allows activation call)
    (hle : ∀ call ∈ calls, call.now ≤ later) :
    OthersSame activation later
      (Machine.after (MemoryReservations.handle retentionMs limits) m calls) m := by
  induction calls generalizing m with
  | nil => exact .refl activation later m
  | cons call calls ih =>
    obtain ⟨hcall, hcalls⟩ := List.forall_mem_cons.mp hcalls
    obtain ⟨hallow, hallows⟩ := List.forall_mem_cons.mp hallows
    obtain ⟨hle, hle'⟩ := List.forall_mem_cons.mp hle
    exact (ih _ hcalls hallows hle').trans (.self m hcall hallow hle)

end MemoryReservations

theorem activation_of_isReportOf {call : Call} (h : call.isReportOf activation = true) :
    call.request.activation = activation := by
  obtain ⟨now, request⟩ := call
  cases request with
  | reserve other => cases h
  | release other => cases h
  | observe other report => exact of_decide_eq_true h

/-- Calls up to `later` that deliver reports of the activation between `common` calls. -/
structure Delivery (reports : SessionReports) (activation : Activation) (later : Nat)
    (common calls : List Call) : Prop where
  common : calls.filter (fun call => ! call.isReportOf activation) = common
  clock : calls.Pairwise fun call later => call.now ≤ later.now
  ends : ∀ call ∈ calls, call.now ≤ later
  allows : ∀ call ∈ calls, reports.Allows activation call

namespace Delivery

variable {reports : SessionReports} {common calls : List Call} {call : Call}

theorem of_nil (h : Delivery reports activation later [] calls) :
    ∀ call ∈ calls, call.request.activation = activation := by
  intro call hcall
  have hreport := List.filter_eq_nil_iff.mp h.common call hcall
  exact activation_of_isReportOf (by simpa using hreport)

/-- The reports before the first common call, and what follows it. -/
theorem of_cons (h : Delivery reports activation later (call :: common) calls) :
    ∃ first rest, calls = first ++ call :: rest ∧
      Delivery reports activation call.now [] first ∧ reports.Allows activation call ∧
      call.now ≤ later ∧ (∀ other ∈ rest, call.now ≤ other.now) ∧
      Delivery reports activation later common rest := by
  obtain ⟨first, rest, rfl, hfirst, -, hrest⟩ := List.filter_eq_cons_iff.mp h.common
  obtain ⟨hclock, hclock', hbefore⟩ := List.pairwise_append.mp h.clock
  obtain ⟨hafter, hclock'⟩ := List.pairwise_cons.mp hclock'
  refine ⟨first, rest, rfl, ?_, h.allows call (by simp), h.ends call (by simp), hafter, ?_⟩
  · exact ⟨List.filter_eq_nil_iff.mpr hfirst, hclock,
      fun other hother => hbefore other hother call List.mem_cons_self,
      fun other hother => h.allows other (List.mem_append_left _ hother)⟩
  · exact ⟨hrest, hclock',
      fun other hother => h.ends other (List.mem_append_right _ (List.mem_cons_of_mem _ hother)),
      fun other hother =>
        h.allows other (List.mem_append_right _ (List.mem_cons_of_mem _ hother))⟩

end Delivery

namespace MemoryReservations

variable {m m' : MemoryReservations} {reports : SessionReports}

/-- The results of the calls for other activations. -/
def othersResults (retentionMs : Nat) (limits : OrganizationLimits) (activation : Activation)
    (m : MemoryReservations) (calls : List Call) : List (Option Result) :=
  Machine.answersOf (MemoryReservations.handle retentionMs limits)
    (fun call => call.request.activation ≠ activation) m calls

theorem OthersSame.after_reports {calls : List Call}
    (h : Delivery reports activation later [] calls) (m : MemoryReservations) :
    OthersSame activation later
      (Machine.after (MemoryReservations.handle retentionMs limits) m calls) m := by
  exact .after_self m h.of_nil h.allows h.ends

theorem othersResults_append {first rest : List Call} {call : Call}
    (h : Delivery reports activation later [] first) (m : MemoryReservations) :
    othersResults retentionMs limits activation m (first ++ call :: rest) =
      othersResults retentionMs limits activation
        (Machine.after (MemoryReservations.handle retentionMs limits) m first)
        (call :: rest) := by
  unfold othersResults
  rw [Machine.answersOf_append, Machine.answersOf_eq_nil _ _ (fun other hother =>
    decide_eq_false (not_not.mpr (h.of_nil other hother))), List.nil_append]

theorem othersResults_self {rest : List Call} {call : Call}
    (h : call.request.activation = activation) :
    othersResults retentionMs limits activation m (call :: rest) =
      othersResults retentionMs limits activation (m.handle retentionMs limits call).2 rest := by
  unfold othersResults
  rw [Machine.answersOf, if_neg]
  simpa using h

theorem othersResults_other {rest : List Call} {call : Call}
    (h : call.request.activation ≠ activation) :
    othersResults retentionMs limits activation m (call :: rest) =
      (m.handle retentionMs limits call).1 ::
        othersResults retentionMs limits activation (m.handle retentionMs limits call).2 rest := by
  unfold othersResults
  rw [Machine.answersOf, if_pos (decide_eq_true h)]

/-- Runs with the same calls but for the reports of the activation, which answer
the other activations alike, leave the others the same. -/
theorem OthersSame.after_common {common calls calls' : List Call}
    (h : OthersSame activation now m m') (hnow : ∀ call ∈ calls, now ≤ call.now)
    (hlater : now ≤ later) (hcalls : Delivery reports activation later common calls)
    (hcalls' : Delivery reports activation later common calls')
    (hresults : othersResults retentionMs limits activation m calls =
      othersResults retentionMs limits activation m' calls') :
    OthersSame activation later
      (Machine.after (MemoryReservations.handle retentionMs limits) m calls)
      (Machine.after (MemoryReservations.handle retentionMs limits) m' calls') := by
  induction common generalizing now m m' calls calls' with
  | nil =>
    exact ((OthersSame.after_reports hcalls m).trans (h.mono hlater)).trans
      (OthersSame.after_reports hcalls' m').symm
  | cons call common ih =>
    obtain ⟨first, rest, rfl, hfirst, hallow, hend, hafter, hrest⟩ := hcalls.of_cons
    obtain ⟨first', rest', rfl, hfirst', -, -, -, hrest'⟩ := hcalls'.of_cons
    rw [othersResults_append hfirst, othersResults_append hfirst'] at hresults
    rw [Machine.after_append, Machine.after_append]
    have hcall := h.mono (hnow call (by simp))
    have hbefore : OthersSame activation call.now
        (Machine.after (MemoryReservations.handle retentionMs limits) m first)
        (Machine.after (MemoryReservations.handle retentionMs limits) m' first') :=
      ((OthersSame.after_reports hfirst m).trans hcall).trans
        (OthersSame.after_reports hfirst' m').symm
    generalize Machine.after (MemoryReservations.handle retentionMs limits) m first = n
      at hresults hbefore ⊢
    generalize Machine.after (MemoryReservations.handle retentionMs limits) m' first' = n'
      at hresults hbefore ⊢
    show OthersSame activation later
      (Machine.after _ (n.handle retentionMs limits call).2 rest)
      (Machine.after _ (n'.handle retentionMs limits call).2 rest')
    by_cases hother : call.request.activation = activation
    · have hself : ∀ n : MemoryReservations,
          OthersSame activation call.now (n.handle retentionMs limits call).2 n :=
        fun n => .self n hother hallow (Nat.le_refl _)
      rw [othersResults_self hother, othersResults_self hother] at hresults
      exact ih (((hself n).trans hbefore).trans (hself n').symm) hafter hend hrest hrest' hresults
    · rw [othersResults_other hother, othersResults_other hother] at hresults
      obtain ⟨hresult, hresults⟩ := List.cons.inj hresults
      exact ih (hbefore.handle hother hresult) hafter hend hrest hrest' hresults

/-- The activations that hold a slot of the organization at `now`. -/
def activeSlots (m : MemoryReservations) (organization : String) (now : Nat) : Set Activation :=
  {other | ∃ expiresAt, (other, expiresAt) ∈ (m.organizations organization).active ∧
    now < expiresAt}

theorem OthersSame.activeSlots_subset {bound : Nat} (h : OthersSame activation now m m')
    (hstopped : m.Stopped activation bound) :
    m.activeSlots activation.organization now ⊆ m'.activeSlots activation.organization now := by
  rintro other ⟨expiresAt, hslot, hlive⟩
  have hother : other ≠ activation := hstopped.inactive _ hslot
  have hmem : (other, expiresAt) ∈
      (((m.organizations activation.organization).others activation).prune now).active :=
    List.mem_filter.mpr ⟨Slots.mem_erase_iff.mpr ⟨hslot, hother⟩, decide_eq_true hlive⟩
  have hsame := h activation.organization
  unfold Usage.SameFrom at hsame
  rw [hsame] at hmem
  have hslot' := (List.mem_filter.mp hmem).1
  exact ⟨expiresAt, (Slots.mem_erase_iff.mp hslot').1, hlive⟩

end MemoryReservations

open MemoryReservations

/-- Once the stop of a session has been observed, within the retention: the
activation holds no slot and is refused; further reports of the session change
no answer; and a run with the same other calls and the same answers to other
activations, in which the reports come in another order, ends with the same
slots. -/
theorem stopped_activation_stays_stopped (retentionMs : Nat) (limits : OrganizationLimits)
    (activation : Activation) (reports : SessionReports) (m : MemoryReservations) (start : Nat)
    (hfresh : (m.organizations activation.organization).sessions activation = none)
    (calls : List Call) (hallows : ∀ call ∈ calls, reports.Allows activation call)
    (hwithin : ∀ call ∈ calls.dropWhile (fun call => ! call.isStopOf activation),
      Within retentionMs start call)
    (hstop : ∃ call ∈ calls, call.isStopOf activation = true) :
    (∀ further : List Call, (∀ call ∈ further, reports.Allows activation call) →
      (∀ call ∈ further, Within retentionMs start call) →
      (∀ now, activation ∉ (Machine.after (MemoryReservations.handle retentionMs limits) m
        (calls ++ further)).activeSlots activation.organization now) ∧
      ∀ now, now < Usage.forgetAt retentionMs start →
        ((Machine.after (MemoryReservations.handle retentionMs limits) m (calls ++ further)).handle
          retentionMs limits ⟨now, .reserve activation⟩).1 = some (.error .stopped)) ∧
    (∀ (further further' common : List Call) (later : Nat),
      Delivery reports activation later common further →
      Delivery reports activation later common further' →
      (∀ call ∈ further, Within retentionMs start call) →
      (∀ call ∈ further', Within retentionMs start call) →
      Machine.answersOf (MemoryReservations.handle retentionMs limits)
          (fun call => ! call.isReportOf activation)
          (Machine.after (MemoryReservations.handle retentionMs limits) m calls) further =
        Machine.answersOf (MemoryReservations.handle retentionMs limits)
          (fun call => ! call.isReportOf activation)
          (Machine.after (MemoryReservations.handle retentionMs limits) m calls) further') ∧
    ∀ (calls' common : List Call) (later : Nat), Delivery reports activation later common calls →
      Delivery reports activation later common calls' →
      (∀ call ∈ calls'.dropWhile (fun call => ! call.isStopOf activation),
        Within retentionMs start call) →
      (∃ call ∈ calls', call.isStopOf activation = true) →
      othersResults retentionMs limits activation m calls =
        othersResults retentionMs limits activation m calls' →
      (Machine.after (MemoryReservations.handle retentionMs limits) m calls).activeSlots
          activation.organization later =
        (Machine.after (MemoryReservations.handle retentionMs limits) m calls').activeSlots
          activation.organization later := by
  have hopen : m.Open reports activation := by
    intro state hstate
    rw [hfresh] at hstate
    cases hstate
  have hstopped : ∀ {calls : List Call}, (∀ call ∈ calls, reports.Allows activation call) →
      (∀ call ∈ calls.dropWhile (fun call => ! call.isStopOf activation),
        Within retentionMs start call) →
      (∃ call ∈ calls, call.isStopOf activation = true) →
      (Machine.after (MemoryReservations.handle retentionMs limits) m calls).Stopped activation
        (Usage.forgetAt retentionMs start) :=
    fun hallows hwithin hstop => hopen.after_stop hallows hwithin hstop
  refine ⟨?_, ?_, ?_⟩
  · intro further hallows' hwithin'
    have hend : (Machine.after (MemoryReservations.handle retentionMs limits) m
        (calls ++ further)).Stopped activation (Usage.forgetAt retentionMs start) := by
      rw [Machine.after_append]
      exact (hstopped hallows hwithin hstop).after hallows' hwithin'
    refine ⟨?_, fun now hnow => hend.reserve hnow⟩
    rintro now ⟨expiresAt, hslot, -⟩
    exact hend.inactive _ hslot rfl
  · intro further further' common later hfurther hfurther' hin hin'
    have hn := hstopped hallows hwithin hstop
    have hone : ∀ {further : List Call}, Delivery reports activation later common further →
        (∀ call ∈ further, Within retentionMs start call) →
        Machine.answersOf (MemoryReservations.handle retentionMs limits)
            (fun call => ! call.isReportOf activation)
            (Machine.after (MemoryReservations.handle retentionMs limits) m calls) further =
          Machine.answers (MemoryReservations.handle retentionMs limits)
            (Machine.after (MemoryReservations.handle retentionMs limits) m calls) common := by
      intro further hfurther hin
      rw [← hfurther.common]
      exact results_without_reports (fun _ => rfl) hn hfurther.clock
        (fun call _ => Nat.zero_le call.now) hfurther.allows hin
    rw [hone hfurther hin, hone hfurther' hin']
  · intro calls' common later hcalls hcalls' hwithin' hstop' hresults
    have hsame : OthersSame activation later
        (Machine.after (MemoryReservations.handle retentionMs limits) m calls)
        (Machine.after (MemoryReservations.handle retentionMs limits) m calls') :=
      (OthersSame.refl activation 0 m).after_common (fun call _ => Nat.zero_le call.now)
        (Nat.zero_le later) hcalls hcalls' hresults
    exact Set.Subset.antisymm
      (hsame.activeSlots_subset (hstopped hallows hwithin hstop))
      (hsame.symm.activeSlots_subset (hstopped hcalls'.allows hwithin' hstop'))

/-- A session of two reports, started and stopped. -/
def twoReports : SessionReports := ⟨1, 2, Nat.two_pos⟩

/-- One slot. -/
def oneSlot : OrganizationLimits := ⟨1, 50, 100⟩

theorem stopped_activation_stays_stopped_early :
    ((Machine.after (MemoryReservations.handle 86460000 oneSlot) {}
        ([⟨0, .observe (exampleActivation "a") ⟨.stopped, 1, 2⟩⟩] ++
          [⟨1, .observe (exampleActivation "a") ⟨.started, 1, 1⟩⟩])).handle 86460000 oneSlot
            ⟨5, .reserve (exampleActivation "a")⟩).1 = some (.error .stopped) := by
  refine ((stopped_activation_stays_stopped 86460000 oneSlot (exampleActivation "a") twoReports {} 0
    rfl [⟨0, .observe (exampleActivation "a") ⟨.stopped, 1, 2⟩⟩] ?_ (by simp [Within]; decide)
    ⟨_, List.mem_cons_self, rfl⟩).1 [⟨1, .observe (exampleActivation "a") ⟨.started, 1, 1⟩⟩] ?_
    (by simp [Within]; decide)).2 5 (by decide)
  · simp [SessionReports.Allows, SessionReports.Has, twoReports]
  · simp [SessionReports.Allows, SessionReports.Has, twoReports]

/-- The reports in their order; another activation asks for the slot in between. -/
def inOrder : List Call :=
  [⟨0, .observe (exampleActivation "a") ⟨.started, 1, 1⟩⟩, ⟨1, .reserve (exampleActivation "b")⟩,
    ⟨2, .observe (exampleActivation "a") ⟨.stopped, 1, 2⟩⟩]

/-- The stop first. -/
def stopFirst : List Call :=
  [⟨0, .observe (exampleActivation "a") ⟨.stopped, 1, 2⟩⟩,
    ⟨0, .observe (exampleActivation "a") ⟨.started, 1, 1⟩⟩, ⟨1, .reserve (exampleActivation "b")⟩]

theorem inOrder_delivery :
    Delivery twoReports (exampleActivation "a") 2 [⟨1, .reserve (exampleActivation "b")⟩]
      inOrder where
  common := by decide
  clock := by decide
  ends := by decide
  allows := by simp [inOrder, SessionReports.Allows, SessionReports.Has, twoReports]

theorem stopFirst_delivery :
    Delivery twoReports (exampleActivation "a") 2 [⟨1, .reserve (exampleActivation "b")⟩]
      stopFirst where
  common := by decide
  clock := by decide
  ends := by decide
  allows := by simp [stopFirst, SessionReports.Allows, SessionReports.Has, twoReports]

/-- All reports are delivered in both runs, but whether the other activation holds
a slot at the end depends on their order. -/
theorem slots_depend_on_report_order :
    Delivery twoReports (exampleActivation "a") 2 [⟨1, .reserve (exampleActivation "b")⟩] inOrder ∧
      Delivery twoReports (exampleActivation "a") 2 [⟨1, .reserve (exampleActivation "b")⟩]
        stopFirst ∧
      ((Machine.after (MemoryReservations.handle 86460000 oneSlot) {} inOrder).organizations
        "org").active.live 2 = [] ∧
      ((Machine.after (MemoryReservations.handle 86460000 oneSlot) {} stopFirst).organizations
        "org").active.live 2 = [(exampleActivation "b", 180001)] :=
  ⟨inOrder_delivery, stopFirst_delivery, by decide +kernel, by decide +kernel⟩

end DurableActors.Ports.Admission
