import DurableActors.Verified.Transition

/-!
# The local fence of a host lease

`LeaseFence` of `control_plane/client.rs` with the calls that
`HostStorage::register` of `host/storage.rs` makes around a registration or
renewal: `begin` when the request starts and `confirm` when its response
arrives.  Requests may overlap, and a response may be late or never arrive.
The control plane stamps the durable expiry of a request with its own clock,
no earlier than the start of the request plus the lease duration.

Instants and durations are in nanoseconds.
-/

namespace DurableActors.Ports.LeaseFence

open Verified
open Verified.Transition (Ensures)

/-! ## The fence -/

/-- The window is five seconds shorter than the lease. -/
def safetyMargin : Nat := 5 * 10 ^ 9

/-- `LeaseFence`: the end of the confirmed window, if any, and whether it was missed. -/
structure Fence where
  deadline : Option Nat
  fenced : Bool
deriving DecidableEq, Repr

def Fence.initial : Fence := ⟨none, false⟩

variable (f : Fence)

/-- Fence for good once the deadline has passed. -/
def Fence.expire (deadline now : Nat) : Fence :=
  if deadline ≤ now then { f with fenced := true } else f

/-- `check`. -/
def Fence.check (now : Nat) : Except String Unit × Fence :=
  match f.deadline with
  | none => (.error "host lease is not confirmed yet", f)
  | some deadline =>
    let f := f.expire deadline now
    if f.fenced = true then (.error "host session has no confirmed live lease", f)
    else (.ok (), f)

/-- `begin`. -/
def Fence.begin (now : Nat) : Except String Unit × Fence :=
  if f.deadline.isSome = true then
    match f.check now with
    | (.error message, f) => (.error message, f)
    | (.ok _, f) =>
      if f.fenced = true then (.error "host session is permanently fenced", f) else (.ok (), f)
  else if f.fenced = true then (.error "host session is permanently fenced", f)
  else (.ok (), f)

/-- `confirm` of a request that was started at `started`. -/
def Fence.confirm (started duration now : Nat) : Except String Unit × Fence :=
  match f.begin now with
  | (.error message, f) => (.error message, f)
  | (.ok _, f) =>
    let deadline := started + (duration - safetyMargin)
    let f := f.expire deadline now
    if f.fenced = true then
      (.error "host lease response arrived after the safe lease window", f)
    else (.ok (), { f with deadline := some deadline })

/-! ## The host -/

/-- A registration or renewal: when its request was started, for how long, and
the expiry the control plane has stamped. -/
structure Renewal where
  started : Nat
  duration : Nat
  expiry : Option Nat
deriving DecidableEq, Repr

/-- A host: its fence, all requests so far, those confirmed (the last one
first), the last reading of its clock, and whether the last call of the fence
succeeded. -/
structure Host where
  fence : Fence
  renewals : List Renewal
  confirmed : List Nat
  now : Nat
  ok : Bool
deriving DecidableEq, Repr

def Host.initial : Host := ⟨.initial, [], [], 0, true⟩

/-- A call of the fence, or the stamp of the control plane. -/
inductive Action
  /-- `register` starts a request for a lease of this many milliseconds -/
  | begin (now durationMs : Nat)
  /-- the control plane stamps the expiry of a request -/
  | stamp (k expiry : Nat)
  /-- the response to a stamped request arrives -/
  | confirm (k now : Nat)
  /-- somebody asks whether the lease is live -/
  | check (now : Nat)
deriving DecidableEq, Repr

/-- The reading of the clock in an action. -/
def Action.reading : Action → Option Nat
  | .begin now _ => some now
  | .stamp _ _ => none
  | .confirm _ now => some now
  | .check now => some now

def isOk (result : Except String Unit × Fence) : Bool :=
  match result.1 with
  | .ok _ => true
  | .error _ => false

/-- One step.  Instants do not decrease, and the control plane keeps its
promise about the expiry. -/
def step (s : Host) : Action → Option Host
  | .begin now durationMs =>
    if s.now ≤ now then
      let result := s.fence.begin now
      some { s with
        fence := result.2
        renewals :=
          if isOk result = true then s.renewals ++ [⟨now, durationMs * 10 ^ 6, none⟩]
          else s.renewals
        now := now
        ok := isOk result }
    else none
  | .stamp k expiry =>
    match s.renewals[k]? with
    | none => none
    | some r =>
      if r.expiry = none ∧ r.started + r.duration ≤ expiry then
        some { s with renewals := s.renewals.set k { r with expiry := some expiry } }
      else none
  | .confirm k now =>
    match s.renewals[k]? with
    | none => none
    | some r =>
      if s.now ≤ now ∧ r.expiry.isSome = true then
        let result := s.fence.confirm r.started r.duration now
        some { s with
          fence := result.2
          confirmed := if isOk result = true then k :: s.confirmed else s.confirmed
          now := now
          ok := isOk result }
      else none
  | .check now =>
    if s.now ≤ now then
      let result := s.fence.check now
      some { s with fence := result.2, now := now, ok := isOk result }
    else none

/-! ## What a call of the fence does -/

variable {f} {now started duration : Nat}

/-- A check before the first confirmation fails and changes nothing; after it,
the check succeeds and changes nothing, or fences the host. -/
theorem Fence.check_cases (f : Fence) (now : Nat) :
    (f.deadline = none ∧ f.check now = (.error "host lease is not confirmed yet", f)) ∨
    (∃ deadline, f.deadline = some deadline ∧ now < deadline ∧ f.fenced = false ∧
      f.check now = (.ok (), f)) ∨
    ∃ message, f.check now = (.error message, { f with fenced := true }) := by
  obtain ⟨deadline, fenced⟩ := f
  cases deadline with
  | none => exact .inl ⟨rfl, rfl⟩
  | some deadline =>
    apply Or.inr
    by_cases hpassed : deadline ≤ now
    · refine .inr ⟨"host session has no confirmed live lease", ?_⟩
      simp [Fence.check, Fence.expire, hpassed]
    · cases fenced with
      | true =>
        refine .inr ⟨"host session has no confirmed live lease", ?_⟩
        simp [Fence.check, Fence.expire, hpassed]
      | false =>
        exact .inl ⟨deadline, rfl, by omega, rfl, by simp [Fence.check, Fence.expire, hpassed]⟩

theorem Fence.begin_cases (f : Fence) (now : Nat) :
    (f.fenced = false ∧ f.begin now = (.ok (), f)) ∨
    ∃ message, f.begin now = (.error message, { f with fenced := true }) := by
  unfold Fence.begin
  by_cases hconfirmed : f.deadline.isSome = true
  · rw [if_pos hconfirmed]
    rcases f.check_cases now with ⟨hnone, -⟩ | ⟨deadline, -, -, hlive, hcheck⟩ | ⟨message, hcheck⟩
    · rw [hnone] at hconfirmed
      cases hconfirmed
    · rw [hcheck]
      exact .inl ⟨hlive, by simp [hlive]⟩
    · rw [hcheck]
      exact .inr ⟨message, rfl⟩
  · rw [if_neg hconfirmed]
    by_cases hfenced : f.fenced = true
    · rw [if_pos hfenced, ← hfenced]
      exact .inr ⟨_, rfl⟩
    · rw [if_neg hfenced]
      exact .inl ⟨by simpa using hfenced, rfl⟩

theorem Fence.confirm_cases (f : Fence) (started duration now : Nat) :
    (f.fenced = false ∧ now < started + (duration - safetyMargin) ∧ f.confirm started duration now =
        (.ok (), ⟨some (started + (duration - safetyMargin)), false⟩)) ∨
    ∃ message, f.confirm started duration now = (.error message, { f with fenced := true }) := by
  unfold Fence.confirm
  rcases f.begin_cases now with ⟨hlive, hbegin⟩ | ⟨message, hbegin⟩
  · rw [hbegin]
    by_cases hpassed : started + (duration - safetyMargin) ≤ now
    · refine .inr ⟨"host lease response arrived after the safe lease window", ?_⟩
      simp [Fence.expire, hpassed]
    · refine .inl ⟨hlive, by omega, ?_⟩
      simp [Fence.expire, hpassed, hlive]
  · rw [hbegin]
    exact .inr ⟨message, rfl⟩

/-! ## What a step does -/

/-- Every way a step can go. -/
inductive Move (s : Host) : Action → Host → Prop
  | refused {a : Action} {now : Nat} (hreading : a.reading = some now) (hle : s.now ≤ now) :
    Move s a { s with fence := { s.fence with fenced := true }, now := now, ok := false }
  | unconfirmed {now : Nat} (hle : s.now ≤ now) (hnone : s.fence.deadline = none) :
    Move s (.check now) { s with now := now, ok := false }
  | begun {now : Nat} (hle : s.now ≤ now) (hlive : s.fence.fenced = false) (durationMs : Nat) :
    Move s (.begin now durationMs)
      { s with
        renewals := s.renewals ++ [⟨now, durationMs * 10 ^ 6, none⟩], now := now, ok := true }
  | stamped {k expiry : Nat} {r : Renewal} (hr : s.renewals[k]? = some r) (hfresh : r.expiry = none)
      (hend : r.started + r.duration ≤ expiry) :
    Move s (.stamp k expiry)
      { s with renewals := s.renewals.set k { r with expiry := some expiry } }
  | confirmed {k now : Nat} {r : Renewal} (hr : s.renewals[k]? = some r) (hle : s.now ≤ now)
      (hstamped : r.expiry.isSome = true) (hlive : s.fence.fenced = false)
      (hwindow : now < r.started + (r.duration - safetyMargin)) :
    Move s (.confirm k now)
      { s with
        fence := ⟨some (r.started + (r.duration - safetyMargin)), false⟩
        confirmed := k :: s.confirmed, now := now, ok := true }
  | checked {now deadline : Nat} (hle : s.now ≤ now) (hdeadline : s.fence.deadline = some deadline)
      (hlt : now < deadline) (hlive : s.fence.fenced = false) :
    Move s (.check now) { s with now := now, ok := true }

/-- What each step does. -/
theorem step_move (s : Host) (a : Action) : Ensures (Move s a) (step s a) := by
  fun_cases step s a with
  | case1 now durationMs hle result =>
    rcases s.fence.begin_cases now with ⟨hlive, hbegin⟩ | ⟨message, hbegin⟩
    · simp only [result, hbegin]
      exact .begun hle hlive durationMs
    · simp only [result, hbegin]
      exact .refused rfl hle
  | case4 k expiry r hr hstamp => exact .stamped hr hstamp.1 hstamp.2
  | case7 k now r hr hready result =>
    rcases s.fence.confirm_cases r.started r.duration now with
      ⟨hlive, hwindow, hconfirm⟩ | ⟨message, hconfirm⟩
    · simp only [result, hconfirm]
      exact .confirmed hr hready.1 hready.2 hlive hwindow
    · simp only [result, hconfirm]
      exact .refused rfl hready.1
  | case9 now hle result =>
    rcases s.fence.check_cases now with
      ⟨hnone, hcheck⟩ | ⟨deadline, hdeadline, hlt, hlive, hcheck⟩ | ⟨message, hcheck⟩
    · simp only [result, hcheck]
      exact .unconfirmed hle hnone
    · simp only [result, hcheck]
      exact .checked hle hdeadline hlt hlive
    · simp only [result, hcheck]
      exact .refused rfl hle
  | _ => trivial

/-! ## Every run -/

/-- The expiry of a request is stamped after its end, and a request was
started in the past. -/
structure Renewal.Sound (now : Nat) (r : Renewal) : Prop where
  started : r.started ≤ now
  expiry : ∀ expiry, r.expiry = some expiry → r.started + r.duration ≤ expiry

/-- The request that the fence was confirmed for last. -/
structure Confirmed (s : Host) (deadline : Nat) (r : Renewal) : Prop where
  last : ∃ k, s.confirmed.head? = some k ∧ s.renewals[k]? = some r
  stamped : r.expiry.isSome = true
  margin : safetyMargin < r.duration
  deadline : deadline + safetyMargin = r.started + r.duration

/-- The deadline is that of a confirmed request. -/
structure Inv (s : Host) : Prop where
  renewals : ∀ r ∈ s.renewals, r.Sound s.now
  deadline : ∀ deadline, s.fence.deadline = some deadline → ∃ r, Confirmed s deadline r
  unconfirmed : s.fence.deadline = none → s.confirmed = []

theorem Renewal.Sound.later {r : Renewal} (h : r.Sound now) {now' : Nat} (hle : now ≤ now') :
    r.Sound now' := ⟨Nat.le_trans h.started hle, h.expiry⟩

variable {s s' s'' : Host}

/-- A stamped request stays as it is. -/
theorem step_stamped {a : Action} (hstep : step s a = some s') {k : Nat} {r : Renewal}
    (hr : s.renewals[k]? = some r) (hstamped : r.expiry.isSome = true) :
    s'.renewals[k]? = some r := by
  cases (step_move s a).of_eq hstep with
  | begun hle hlive durationMs =>
    have hlt : k < s.renewals.length := (List.getElem?_eq_some_iff.mp hr).1
    exact (List.getElem?_append_left hlt).trans hr
  | stamped hr' hfresh _ =>
    refine (List.getElem?_set_ne ?_).trans hr
    rintro rfl
    rw [← Option.some.inj (hr'.symm.trans hr), hfresh] at hstamped
    cases hstamped
  | _ => exact hr

/-- A step that keeps the deadline and the confirmations. -/
theorem Inv.keep {a : Action} (hinv : Inv s) (hstep : step s a = some s')
    (hrenewals : ∀ r ∈ s'.renewals, r.Sound s'.now) (hconfirmed : s'.confirmed = s.confirmed)
    (hdeadline : s'.fence.deadline = s.fence.deadline) : Inv s' := by
  refine ⟨hrenewals, ?_, ?_⟩
  · intro deadline hsome
    rw [hdeadline] at hsome
    obtain ⟨r, ⟨k, hk, hr⟩, hstamped, hmargin, hend⟩ := hinv.deadline deadline hsome
    exact ⟨r, ⟨k, hconfirmed ▸ hk, step_stamped hstep hr hstamped⟩, hstamped, hmargin, hend⟩
  · intro hnone
    rw [hconfirmed]
    exact hinv.unconfirmed (hdeadline ▸ hnone)

/-- Every step keeps the confirmed windows within their leases. -/
theorem Inv.step {a : Action} (hinv : Inv s) (hstep : step s a = some s') : Inv s' := by
  have hsound {now : Nat} (hle : s.now ≤ now) : ∀ r ∈ s.renewals, r.Sound now :=
    fun r hr => (hinv.renewals r hr).later hle
  cases (step_move s a).of_eq hstep with
  | begun hle hlive durationMs =>
    refine hinv.keep hstep ?_ rfl rfl
    intro r hr
    rcases List.mem_append.mp hr with hr | hr
    · exact hsound hle r hr
    · rw [List.mem_singleton.mp hr]
      exact ⟨Nat.le_refl _, fun expiry hexpiry => nomatch hexpiry⟩
  | stamped hr hfresh hend =>
    refine hinv.keep hstep ?_ rfl rfl
    intro r' hr'
    rcases List.mem_or_eq_of_mem_set hr' with hr' | rfl
    · exact hinv.renewals r' hr'
    · refine ⟨(hinv.renewals _ (List.mem_of_getElem? hr)).started, ?_⟩
      rintro expiry ⟨⟩
      exact hend
  | confirmed hr hle hstamped hlive hwindow =>
    refine ⟨hsound hle, ?_, fun hnone => nomatch hnone⟩
    intro deadline hdeadline
    have hstarted := (hsound hle _ (List.mem_of_getElem? hr)).started
    have hend := Option.some.inj hdeadline
    exact ⟨_, ⟨_, rfl, hr⟩, hstamped, by omega, by omega⟩
  | refused _ hle => exact hinv.keep hstep (hsound hle) rfl rfl
  | unconfirmed hle _ => exact hinv.keep hstep (hsound hle) rfl rfl
  | checked hle _ _ _ => exact hinv.keep hstep (hsound hle) rfl rfl

theorem inv_initial : Inv .initial :=
  ⟨(fun _ hr => nomatch hr), (fun _ hdeadline => nomatch hdeadline), fun _ => rfl⟩

/-! ## Fencing is permanent -/

/-- A failing call of the fence, and what it leaves. -/
theorem step_failed {a : Action} (hstep : step s a = some s') (hreading : a.reading.isSome = true)
    (hok : s'.ok = false) :
    s'.fence.fenced = true ∨ s.fence.deadline = none ∧ s'.fence = s.fence := by
  cases (step_move s a).of_eq hstep with
  | refused _ _ => exact .inl rfl
  | unconfirmed _ hnone => exact .inr ⟨hnone, rfl⟩
  | stamped _ _ _ => cases hreading
  | _ => cases hok

/-- A call that succeeds finds the host not fenced. -/
theorem step_succeeded {a : Action} (hstep : step s a = some s')
    (hreading : a.reading.isSome = true) (hok : s'.ok = true) : s.fence.fenced = false := by
  cases (step_move s a).of_eq hstep with
  | begun _ hlive _ => exact hlive
  | confirmed _ _ _ hlive _ => exact hlive
  | checked _ _ _ hlive => exact hlive
  | stamped _ _ _ => cases hreading
  | _ => cases hok

/-- Every call on a fenced host fails, and leaves it fenced. -/
theorem step_fenced {a : Action} (hfenced : s.fence.fenced = true) (hstep : step s a = some s') :
    s'.fence.fenced = true ∧ (a.reading.isSome = true → s'.ok = false) := by
  have hfails : a.reading.isSome = true → s'.ok = false := by
    intro hreading
    by_contra hok
    have hlive := step_succeeded hstep hreading (by simpa using hok)
    rw [hfenced] at hlive
    cases hlive
  refine ⟨?_, hfails⟩
  cases (step_move s a).of_eq hstep with
  | refused _ _ => rfl
  | confirmed _ _ _ hlive _ => exact absurd hfenced (Bool.eq_false_iff.mp hlive)
  | _ => exact hfenced

/-! ## The lease -/

/-- A check that succeeds is inside the window of the last confirmed
request. -/
theorem Inv.check_ok (hinv : Inv s) (hstep : LeaseFence.step s (.check now) = some s')
    (hok : s'.ok = true) :
    ∃ k r, s.confirmed.head? = some k ∧ s.renewals[k]? = some r ∧ r.expiry.isSome = true ∧
      now + safetyMargin < r.started + r.duration := by
  cases (step_move s _).of_eq hstep with
  | checked _ hdeadline hlt _ =>
    obtain ⟨r, ⟨k, hk, hr⟩, hstamped, -, hend⟩ := hinv.deadline _ hdeadline
    exact ⟨k, r, hk, hr, hstamped, by omega⟩
  | _ => cases hok

/-- A confirmation that succeeds is the last one. -/
theorem confirm_ok {k : Nat} {r : Renewal} (hr : s.renewals[k]? = some r)
    (hstep : step s (.confirm k now) = some s') (hok : s'.ok = true) :
    s'.confirmed.head? = some k ∧ r.expiry.isSome = true := by
  cases (step_move s _).of_eq hstep with
  | refused _ _ => cases hok
  | confirmed hr' _ hstamped _ _ =>
    obtain rfl := Option.some.inj (hr.symm.trans hr')
    exact ⟨rfl, hstamped⟩

theorem run_stamped {as : List Action} (hrun : Transition.run step s as = some s') {k : Nat}
    {r : Renewal} (hr : s.renewals[k]? = some r) (hstamped : r.expiry.isSome = true) :
    s'.renewals[k]? = some r := by
  let Kept (s : Host) : Prop := s.renewals[k]? = some r
  have hstep : ∀ s a s', Kept s → step s a = some s' → Kept s' :=
    fun _ _ _ hr hstep => step_stamped hstep hr hstamped
  exact Transition.run_invariant hstep hr hrun

theorem run_inv {as : List Action} (hinv : Inv s) (hrun : Transition.run step s as = some s') :
    Inv s' :=
  Transition.run_invariant (fun _ _ _ hinv hstep => .step hinv hstep) hinv hrun

/-- **The local fence expires before the durable lease.**  A check that
succeeds is earlier, by more than the safety margin, than the durable expiry
of a confirmed request.  A failure after the first confirmation is permanent.
After a confirmation, and until the next one, no check succeeds past the end
of its own request less the margin. -/
theorem fence_expires_before_lease {as : List Action}
    (hrun : Transition.run step .initial as = some s) :
    (∀ now s', step s (.check now) = some s' → s'.ok = true →
      ∃ k ∈ s.confirmed, ∃ r expiry, s.renewals[k]? = some r ∧ r.expiry = some expiry ∧
        now + safetyMargin < expiry) ∧
    (s.confirmed ≠ [] → ∀ a s', step s a = some s' → a.reading.isSome = true → s'.ok = false →
      ∀ later s₁, Transition.run step s' later = some s₁ → ∀ b s₂, step s₁ b = some s₂ →
        b.reading.isSome = true → s₂.ok = false) ∧
    (∀ k r now s', s.renewals[k]? = some r → step s (.confirm k now) = some s' → s'.ok = true →
      ∀ later s₁, Transition.run step s' later = some s₁ → s₁.confirmed = s'.confirmed →
        ∀ t s₂, step s₁ (.check t) = some s₂ → s₂.ok = true →
          t + safetyMargin < r.started + r.duration) := by
  have hinv : Inv s := run_inv inv_initial hrun
  refine ⟨?_, ?_, ?_⟩
  · intro now s' hstep hok
    obtain ⟨k, r, hk, hr, hstamped, hlt⟩ := hinv.check_ok hstep hok
    obtain ⟨expiry, hexpiry⟩ := Option.isSome_iff_exists.mp hstamped
    have hend := (hinv.renewals r (List.mem_of_getElem? hr)).expiry expiry hexpiry
    exact ⟨k, List.mem_of_head? hk, r, expiry, hr, hexpiry, by omega⟩
  · intro hconfirmed a s' hstep hreading hok later s₁ hlater b s₂ hstep' hreading'
    have hfenced : s'.fence.fenced = true := by
      rcases step_failed hstep hreading hok with hfenced | ⟨hnone, -⟩
      · exact hfenced
      · exact absurd (hinv.unconfirmed hnone) hconfirmed
    have hstays : s₁.fence.fenced = true := by
      let Fenced (s : Host) : Prop := s.fence.fenced = true
      have hfencedStep : ∀ s a s', Fenced s → step s a = some s' → Fenced s' :=
        fun _ _ _ hfenced hstep => (step_fenced hfenced hstep).1
      exact Transition.run_invariant hfencedStep hfenced hlater
    exact (step_fenced hstays hstep').2 hreading'
  · intro k r now s' hr hstep hok later s₁ hlater hsame t s₂ hcheck hcheckOk
    obtain ⟨hhead, hstamped⟩ := confirm_ok hr hstep hok
    obtain ⟨k', r', hk', hr', -, hlt⟩ :=
      (run_inv (hinv.step hstep) hlater).check_ok hcheck hcheckOk
    rw [hsame, hhead] at hk'
    obtain rfl := Option.some.inj hk'
    have hkept := run_stamped hlater (step_stamped hstep hr hstamped) hstamped
    rw [hr'] at hkept
    rw [← Option.some.inj hkept]
    exact hlt

/-- A lease of ten seconds is confirmed; two renewals overlap, and the later one is
confirmed first. -/
def overlapping : List Action :=
  [.begin 0 10000, .stamp 0 (10 ^ 10 + 7), .confirm 0 (10 ^ 9), .begin (2 * 10 ^ 9) 10000,
    .begin (3 * 10 ^ 9) 10000, .stamp 2 (13 * 10 ^ 9), .confirm 2 (35 * 10 ^ 8),
    .stamp 1 (12 * 10 ^ 9 + 5)]

/-- The response to the earlier renewal moves the deadline back to seven seconds, and the
check at that instant fences the host for good. -/
theorem fence_expires_before_lease_overlapping :
    ∃ s s₁ s₂, Transition.run step .initial overlapping = some s ∧
      step s (.confirm 1 (4 * 10 ^ 9)) = some s₁ ∧ s₁.ok = true ∧
      step s₁ (.check (7 * 10 ^ 9)) = some s₂ ∧ s₂.ok = false ∧
      (∃ k ∈ s₁.confirmed, ∃ r expiry, s₁.renewals[k]? = some r ∧ r.expiry = some expiry ∧
        6 * 10 ^ 9 + safetyMargin < expiry) ∧
      (∀ t s₃, step s₁ (.check t) = some s₃ → s₃.ok = true →
        t + safetyMargin < 12 * 10 ^ 9) ∧
      ∀ later s₃, Transition.run step s₂ later = some s₃ → ∀ b s₄, step s₃ b = some s₄ →
        b.reading.isSome = true → s₄.ok = false := by
  have hrun : Transition.run step .initial overlapping = some
      ⟨⟨some (8 * 10 ^ 9), false⟩, [⟨0, 10 ^ 10, some (10 ^ 10 + 7)⟩,
        ⟨2 * 10 ^ 9, 10 ^ 10, some (12 * 10 ^ 9 + 5)⟩, ⟨3 * 10 ^ 9, 10 ^ 10, some (13 * 10 ^ 9)⟩],
        [2, 0], 35 * 10 ^ 8, true⟩ := by
    decide
  have hconfirmed : Transition.run step .initial (overlapping ++ [.confirm 1 (4 * 10 ^ 9)]) = some
      ⟨⟨some (7 * 10 ^ 9), false⟩, [⟨0, 10 ^ 10, some (10 ^ 10 + 7)⟩,
        ⟨2 * 10 ^ 9, 10 ^ 10, some (12 * 10 ^ 9 + 5)⟩, ⟨3 * 10 ^ 9, 10 ^ 10, some (13 * 10 ^ 9)⟩],
        [1, 2, 0], 4 * 10 ^ 9, true⟩ := by
    decide
  obtain ⟨-, -, hwindow⟩ := fence_expires_before_lease hrun
  obtain ⟨hlive, hfenced, -⟩ := fence_expires_before_lease hconfirmed
  refine ⟨_, _, _, hrun, rfl, rfl, rfl, rfl, hlive (6 * 10 ^ 9) _ rfl rfl, ?_, ?_⟩
  · exact hwindow 1 _ (4 * 10 ^ 9) _ rfl rfl rfl [] _ rfl rfl
  · exact hfenced (by decide) (.check (7 * 10 ^ 9)) _ rfl rfl rfl

end DurableActors.Ports.LeaseFence
