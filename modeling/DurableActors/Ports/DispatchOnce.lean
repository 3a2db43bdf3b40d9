import DurableActors.Ports.Dispatch

/-!
# An operation is dispatched at most once

Every loop repeats an attempt only on a result that means the executor has not
seen the operation: a plain error of the provisioning, a refusal of a host, or
a host that could not be reached.  An operation that may have run shows in the
result, as a reply, as `AssignmentOutcomeUnknown`, or as an error that ends the
loop.
-/

namespace DurableActors.Ports.Dispatch

open Verified.Retry (Traced Decision Sound run_sound)

section

variable {ρ : Type} {notExecuted : ρ → Bool}

/-! ## Provisioning -/

theorem Delivery.effects_le {ρ : Type} {refused : Answer ρ → Bool} (d : Delivery refused) :
    d.effects ≤ 1 := by
  unfold Delivery.effects
  split
  · exact Nat.le_refl 1
  · exact Nat.zero_le 1

/-- A refused request was not executed. -/
theorem Delivery.effects_refused {ρ : Type} {refused : Answer ρ → Bool} (d : Delivery refused)
    (h : refused d.answer = true) : d.effects = 0 := by
  unfold Delivery.effects
  split
  · rename_i hex
    rw [d.sound hex] at h
    cases h
  · rfl

variable (notExecuted) in
/-- The result tells whether the operation may have run: it has not when the
error lacks the context, when there is no reply, and when the reply says so.
Errors that loops look for do not have the context. -/
def Accounted (result : Except Error (Option ρ)) (n : Nat) : Prop :=
  n ≤ 1 ∧
    match result with
    | .error e => (e.unknown = false → n = 0) ∧ (e.unknown = true → e.kind = .plain)
    | .ok none => n = 0
    | .ok (some reply) => notExecuted reply = true → n = 0

variable (notExecuted) in
/-- An error after which nothing has been executed. -/
theorem accounted_error {e : Error} {n : Nat} (h : e.unknown = false) (hn : n = 0) :
    Accounted notExecuted (.error e) n := by
  subst hn
  exact ⟨Nat.zero_le 1, fun _ => rfl, fun hu => by rw [h] at hu; cases hu⟩

/-- An error that a loop looks for does not have the context. -/
theorem Accounted.eq_zero {e : Error} {n : Nat} (h : Accounted notExecuted (.error e) n)
    (hkind : e.kind ≠ .plain) : n = 0 :=
  h.2.1 (Bool.of_not_eq_true fun hunknown => hkind (h.2.2 hunknown))

/-- A plain error with the context. -/
theorem accounted_context {n : Nat} (hn : n ≤ 1) {mayHaveRun : Bool}
    (h : mayHaveRun = false → n = 0) :
    Accounted notExecuted (.error (Error.plain.context mayHaveRun)) n := by
  refine ⟨hn, fun hu => h ?_, fun _ => rfl⟩
  cases mayHaveRun with
  | false => rfl
  | true => cases hu

/-- The answer to an assignment with an operation. -/
theorem httpAssign_accounted (d : Delivery (assignmentRefused notExecuted)) :
    match httpAssign true d.answer with
    | .error e => Accounted notExecuted (.error e) d.effects
    | .ok handle => ∃ reply, handle.initialReply = some reply ∧
        (notExecuted reply = true → d.effects = 0) := by
  have hunknown : Accounted notExecuted (.error (Error.plain.context true)) d.effects :=
    accounted_context d.effects_le (by simp)
  cases hanswer : d.answer with
  | connectError => exact accounted_error notExecuted rfl (d.effects_refused (by rw [hanswer]; rfl))
  | lost => exact hunknown
  | status code =>
    by_cases hdeclined : declinedBeforeExecution code = true
    · rw [httpAssign, if_pos hdeclined]
      exact accounted_error notExecuted rfl (d.effects_refused (by rw [hanswer]; exact hdeclined))
    · rw [httpAssign, if_neg hdeclined]
      exact hunknown
  | malformed => exact hunknown
  | reply handle =>
    cases hreply : handle.initialReply with
    | none =>
      simp only [httpAssign, hreply, Option.isNone_none, and_self, if_true]
      exact hunknown
    | some reply =>
      simp only [httpAssign, hreply, Option.isNone_some, and_false, if_false, Bool.false_eq_true]
      refine ⟨reply, rfl, fun hnot => d.effects_refused ?_⟩
      rw [hanswer]
      simp [assignmentRefused, hreply, hnot]

/-- A launch accounts for what it executes. -/
theorem launch_accounted (p : Provision notExecuted) :
    Accounted notExecuted (p.launch true).value (p.launch true).effects := by
  unfold Provision.launch
  split
  · exact accounted_error notExecuted rfl rfl
  · split
    · exact accounted_error notExecuted rfl rfl
    · have hassign := httpAssign_accounted p.assignment
      have hle := p.assignment.effects_le
      simp only [Provision.assign, if_true]
      cases hhttp : httpAssign true p.assignment.answer with
      | error e =>
        rw [hhttp] at hassign
        exact hassign
      | ok handle =>
        rw [hhttp] at hassign
        obtain ⟨reply, hreply, hnot⟩ := hassign
        have hunknown : Accounted notExecuted
            (.error (Error.plain.context handle.initialReply.isSome)) p.assignment.effects :=
          accounted_context hle (by rw [hreply]; simp)
        cases hvalid : p.validated with
        | false => exact hunknown
        | true =>
          cases hready : p.ready with
          | false => exact hunknown
          | true =>
            show Accounted notExecuted (.ok handle.initialReply) p.assignment.effects
            rw [hreply]
            exact ⟨hle, hnot⟩

/-- The last error in a loop over regions is one after which nothing has run. -/
def Unexecuted (last : Option Error) : Prop := ∀ e ∈ last, e.unknown = false

/-- An attempt in one region. -/
theorem provisionInRegion_sound (last : Option Error)
    (attempt : Provision notExecuted × Recheck) (_ : Unexecuted last) :
    Sound Unexecuted (Accounted notExecuted) (provisionInRegion true last attempt) := by
  have hlaunch : ∀ {t v}, t = attempt.1.launch true → t.value = v →
      Accounted notExecuted v t.effects := by
    rintro t v rfl rfl
    exact launch_accounted attempt.1
  have hretry : ∀ {t e}, t = attempt.1.launch true → t.value = .error e →
      ¬ (e.unknown = true ∨ e.kind = .admission) → e.unknown = false ∧ t.effects = 0 := by
    intro t e ht hvalue hretry
    have hknown := Bool.of_not_eq_true fun hunknown => hretry (.inl hunknown)
    exact ⟨hknown, (hlaunch ht hvalue).2.1 hknown⟩
  fun_cases provisionInRegion true last attempt with
  | case1 _ _ hvalue => exact hlaunch rfl hvalue
  | case2 _ _ hvalue => exact hlaunch rfl hvalue
  | case3 _ _ hvalue hnot => exact accounted_error notExecuted rfl (hretry rfl hvalue hnot).2
  | case4 _ _ hvalue hnot =>
    refine ⟨(hretry rfl hvalue hnot).2, ?_⟩
    rintro e ⟨⟩
    exact (hretry rfl hvalue hnot).1
  | case5 _ _ hvalue hnot => exact accounted_error notExecuted rfl (hretry rfl hvalue hnot).2
  | case6 _ _ hvalue hnot =>
    exact accounted_error notExecuted (hretry rfl hvalue hnot).1 (hretry rfl hvalue hnot).2
  | case7 _ _ hvalue hnot =>
    have hzero := (hretry rfl hvalue hnot).2
    exact ⟨Nat.le_trans (Nat.le_of_eq hzero) (Nat.zero_le 1), hzero⟩
  | case8 _ _ hvalue hnot => exact accounted_error notExecuted rfl (hretry rfl hvalue hnot).2

/-- The attempts in all regions account for what they execute. -/
theorem provisionInRegions_accounted (attempts : List (Provision notExecuted × Recheck)) :
    Accounted notExecuted (provisionInRegions true attempts).value
      (provisionInRegions true attempts).effects := by
  have htried : Sound Unexecuted (Accounted notExecuted)
      (Verified.Retry.run (provisionInRegion true) none attempts) :=
    run_sound provisionInRegion_sound attempts (by simp [Unexecuted])
  unfold provisionInRegions
  dsimp only
  generalize Verified.Retry.run (provisionInRegion true) none attempts = tried at htried
  obtain ⟨value, effects⟩ := tried
  cases value with
  | done result => exact htried
  | again last =>
    obtain ⟨hzero, hlast⟩ := htried
    cases last with
    | none => exact accounted_error notExecuted rfl hzero
    | some e => exact accounted_error notExecuted (hlast e rfl) hzero

/-! ## Routes -/

theorem routeActor_accounted (route : Route notExecuted) :
    Accounted notExecuted (routeActor true route).value (routeActor true route).effects := by
  fun_cases routeActor true route with
  | case1 => exact accounted_error notExecuted rfl rfl
  | case2 => exact ⟨Nat.zero_le 1, rfl⟩
  | case3 => exact provisionInRegions_accounted route.regions

theorem routeWhenReady_sound (u : Unit) (route : Route notExecuted) (_ : True) :
    Sound (fun _ => True) (Accounted notExecuted) (routeWhenReady true u route) := by
  have hroute : ∀ {t v}, t = routeActor true route → t.value = v →
      Accounted notExecuted v t.effects := by
    rintro t v rfl rfl
    exact routeActor_accounted route
  fun_cases routeWhenReady true u route with
  | case1 _ _ hvalue => exact hroute rfl hvalue
  | case2 _ _ hvalue hkind =>
    exact ⟨(hroute rfl hvalue).eq_zero (by rw [hkind]; decide), trivial⟩
  | case3 _ _ hvalue hkind =>
    exact accounted_error notExecuted rfl ((hroute rfl hvalue).eq_zero (by rw [hkind]; decide))
  | case4 _ _ hvalue => exact hroute rfl hvalue

variable (notExecuted) in
/-- A resolution that still waits has not run the operation. -/
def Resolved (value : Option (Except Error (Option ρ))) (n : Nat) : Prop :=
  match value with
  | none => n = 0
  | some result => Accounted notExecuted result n

theorem Resolved.le {value : Option (Except Error (Option ρ))} {n : Nat}
    (h : Resolved notExecuted value n) : n ≤ 1 := by
  cases value with
  | none => exact (show n = 0 from h) ▸ Nat.zero_le 1
  | some result => exact h.1

/-- **A resolution** tells whether the operation may have run. -/
theorem resolveActorRoute_resolved (a : Resolution notExecuted) :
    Resolved notExecuted (resolveActorRoute true a).value (resolveActorRoute true a).effects := by
  have hrouted : Sound (fun _ => True) (Accounted notExecuted)
      (Verified.Retry.run (routeWhenReady true) () a.routes) :=
    run_sound routeWhenReady_sound a.routes trivial
  unfold Sound at hrouted
  fun_cases resolveActorRoute true a with
  | case1 => exact accounted_error notExecuted rfl rfl
  | case2 => exact accounted_error notExecuted rfl rfl
  | case3 => exact ⟨Nat.zero_le 1, rfl⟩
  | case4 => exact accounted_error notExecuted rfl rfl
  | case5 _ _ _ _ hvalue =>
    rw [hvalue] at hrouted
    exact hrouted.1
  | case6 _ _ _ _ hvalue =>
    rw [hvalue] at hrouted
    exact hrouted
  | case7 _ _ _ _ hvalue =>
    rw [hvalue] at hrouted
    exact hrouted
  | case8 _ _ _ reply hvalue =>
    rw [hvalue] at hrouted
    show Accounted notExecuted (.error (Error.plain.context reply.isSome)) _
    refine accounted_context hrouted.1 fun hnone => ?_
    cases reply with
    | none => exact hrouted.2
    | some reply => cases hnone

end

/-! ## `settle` -/

/-- The outcomes of a request that ask for another one are refusals. -/
theorem sendInvocation_unsettled {answer : Answer InvocationReply}
    (h : (sendInvocation answer).unsettled = true) :
    hostRefused InvocationReply.isNotExecuted answer = true := by
  cases answer with
  | connectError => rfl
  | lost => cases h
  | status code =>
    simp only [sendInvocation] at h
    split at h
    · rename_i hcode
      simp [hostRefused, hcode]
    · cases h
  | malformed => cases h
  | reply reply =>
    simp only [sendInvocation, validateReply] at h
    split at h
    · exact h
    · cases h

/-- A turn is repeated only without effect, and has at most one. -/
theorem Round.conclude_sound (round : Round) (state : HostState) {outcome : Settled}
    {effects : Nat} (hle : effects ≤ 1) (h : outcome.unsettled = true → effects = 0) :
    Sound (fun _ => True) (fun _ n => n ≤ 1) (round.conclude state outcome effects) := by
  fun_cases Round.conclude round state outcome effects with
  | case1 hagain => exact ⟨h hagain.1, trivial⟩
  | case2 => exact hle

/-- A turn of `settle` sends at most once. -/
theorem settleRound_sound (state : HostState) (round : Round) (_ : True) :
    Sound (fun _ => True) (fun _ n => n ≤ 1) (settleRound state round) := by
  have hresolved := resolveActorRoute_resolved round.resolution
  fun_cases settleRound state round with
  | case1 => exact hresolved.le
  | case2 => exact hresolved.le
  | case3 _ _ reply hvalue =>
    refine Round.conclude_sound round _ hresolved.le fun hunsettled => ?_
    rw [hvalue] at hresolved
    -- the reply to the initial operation says that it has not run
    apply hresolved.2
    unfold validateReply at hunsettled
    split at hunsettled
    · exact hunsettled
    · cases hunsettled
  | case4 resolved _ hvalue =>
    rw [hvalue] at hresolved
    have hzero : resolved.effects = 0 := hresolved.2
    rw [hzero, Nat.zero_add]
    exact Round.conclude_sound round _ round.delivery.effects_le fun hunsettled =>
      round.delivery.effects_refused (sendInvocation_unsettled hunsettled)

/-! ## The socket gateway -/

theorem GatewayRound.retry_sound (round : GatewayRound) {effects : Nat} (h : effects = 0) :
    Sound (fun _ => True) (fun _ n => n ≤ 1) (round.retry effects) := by
  subst h
  fun_cases GatewayRound.retry round 0 with
  | case1 => exact ⟨rfl, trivial⟩
  | case2 => exact Nat.zero_le 1

theorem GatewayRound.conclude_sound (round : GatewayRound) {effects : Nat} (hle : effects ≤ 1)
    {reply : SocketReply} (h : reply.isNotExecuted = true → effects = 0) :
    Sound (fun _ => True) (fun _ n => n ≤ 1) (round.conclude effects reply) := by
  cases reply with
  | completed result => exact hle
  | notExecuted => exact round.retry_sound (h rfl)
  | failed message => exact hle
  | malformed => exact hle

theorem GatewayRound.deliver_sound (round : GatewayRound) :
    Sound (fun _ => True) (fun _ n => n ≤ 1) (round.deliver round.delivery.effects) := by
  have hle := round.delivery.effects_le
  have hrefused := round.delivery.effects_refused
  fun_cases GatewayRound.deliver round round.delivery.effects with
  | case1 hanswer => exact round.retry_sound (hrefused (by rw [hanswer]; rfl))
  | case3 code hanswer hcode =>
    exact round.retry_sound (hrefused (by rw [hanswer]; simpa [hostRefused] using hcode))
  | case6 reply hanswer =>
    exact round.conclude_sound hle fun hnot => hrefused (by rw [hanswer]; exact hnot)
  | _ => exact hle

/-- A turn of `dispatch` sends at most once. -/
theorem gatewayRound_sound (u : Unit) (round : GatewayRound) (_ : True) :
    Sound (fun _ => True) (fun _ n => n ≤ 1) (gatewayRound u round) := by
  have hresolved := resolveActorRoute_resolved round.resolution
  have hle := hresolved.le
  fun_cases gatewayRound u round with
  | case1 => exact Nat.zero_le 1
  | case2 => exact Nat.zero_le 1
  | case5 _ _ _ _ e hvalue hkind =>
    rw [hvalue] at hresolved
    have herror : Accounted SocketReply.isNotExecuted (.error e) _ := hresolved
    exact round.retry_sound (herror.eq_zero (by rw [hkind]; decide))
  | case7 _ _ _ _ reply hvalue =>
    rw [hvalue] at hresolved
    exact round.conclude_sound hle hresolved.2
  | case8 _ _ resolved _ hvalue =>
    rw [hvalue] at hresolved
    have hzero : resolved.effects = 0 := hresolved.2
    rw [hzero, Nat.zero_add]
    exact round.deliver_sound
  | _ => exact hle

/-! ## The result -/

/-- A sound loop has at most one effect. -/
theorem effects_le_one {σ β : Type} {t : Traced (Decision σ β)}
    (h : Sound (fun _ => True) (fun _ n => n ≤ 1) t) : t.effects ≤ 1 := by
  unfold Sound at h
  split at h
  · rw [h.1]
    exact Nat.zero_le 1
  · exact h

/-- **At most once.**  Whatever the network, the spares and the hosts do, one
call of `settle` and one dispatch of the socket gateway invoke the executor at
most once, over all attempts, hosts and regions. -/
theorem dispatched_at_most_once :
    (∀ rounds : List Round, (settle rounds).effects ≤ 1) ∧
      ∀ rounds : List GatewayRound, (gatewayDispatch rounds).effects ≤ 1 :=
  ⟨fun rounds => effects_le_one (run_sound settleRound_sound rounds trivial),
    fun rounds => effects_le_one (run_sound gatewayRound_sound rounds trivial)⟩

-- a host that could not be reached, then one that runs the operation
example :
    let target : Resolution InvocationReply.isNotExecuted := ⟨false, some false, [], true⟩
    settle
      [⟨target, false, ⟨false, .connectError, nofun⟩, false⟩,
        ⟨target, false, ⟨true, .reply (.completed (some 7)), fun _ => rfl⟩, false⟩] =
      ⟨.done (some (.answered (.completed (some 7)))), 1⟩ := rfl

end DurableActors.Ports.Dispatch
