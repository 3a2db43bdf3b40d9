import DurableActors.Ports.HostRequest

/-!
# What an actor host says about requests it has executed

A reply that calls a request rejected lets the client send it again, so it must
not be given once the executor was invoked.  The mailbox turns most errors after
that point into an unknown outcome: those of sequenced completions, those of an
interleaved mailbox, and those of a stopped database service.  What remains is
an unsequenced completion whose authority check fails after the state was
published: the error is taken for one from before the execution.
-/

namespace DurableActors.Ports.HostRequest

open Verified
open Verified.Transition (Ensures)
open Database (Service Answers Effect ExecutionResult Prepared Completion
  outcomeUnknown)

/-! ## The condition -/

section

variable (h : Host)

/-- The completion of the request has a sequence number. -/
def Host.sequenced : Bool :=
  match h.phase with
  | .completing output => output.sequence.isSome
  | .confirmed output _ => output.sequence.isSome
  | _ => false

/-- The session holds the state of the request's epoch. -/
def Host.resident : Bool :=
  match h.service.scopes[h.scope]?, h.service.session.cached with
  | some scope, some r => scope.epoch = some r.epoch
  | _, _ => false

/-- Errors are turned into an unknown outcome anyway. -/
def Host.guarded : Bool := h.interleaved || h.service.stopped || h.sequenced

/-- The condition on a step: when an unsequenced completion is handled the
session still holds the state of the request's epoch and the host has authority,
and it still has authority when the result is passed on. -/
def Authorized : Action → Prop
  | .send a => h.guarded = true ∨ h.resident = true ∧ a.confirmed = true
  | .respond authority => h.guarded = true ∨ authority = true
  | _ => True

instance (action : Action) : Decidable (Authorized h action) := by
  unfold Authorized
  split
  all_goals infer_instance

end

/-! ## The invariant -/

/-- The result is one of an executed request. -/
def Result.accounted : Result → Bool
  | .ok (.completed _ _) => true
  | .ok (.failed code _) =>
    code = "actor_error" || code = "resource_exhausted" || code = "outcome_unknown"
  | _ => false

/-- The result of an executed request is accounted for, or the mailbox will
stop. -/
def Host.Safe (h : Host) (c : Finished) : Prop :=
  c.result.accounted = true ∨
    c.interleaved = true ∧ c.result = .error ∨
    c.failureCode = none ∧ (h.interleaved = true ∨ h.service.stopped = true)

/-- Where the request is fits whether the executor was invoked, and from then
on only accounted results come about. -/
def Host.Inv (h : Host) : Prop :=
  match h.phase with
  | .submitted => h.executed = false
  | .queued => h.executed = false
  | .preparing => h.executed = false
  | .executing => h.executed = true
  | .completing _ => h.executed = true
  | .sent output => h.executed = true ∧ output.sequence.isSome = true
  | .confirmed _ _ => h.executed = true
  | .finished c => c.executed = h.executed ∧ (h.executed = true → h.Safe c)
  | .answered result => h.executed = true → result.accounted = true
  | .replied reply => h.executed = true → reply.accounted = true ∧ reply.rejected = false

theorem outcomeUnknown_accounted : (Result.ok outcomeUnknown).accounted = true := rfl

/-- The HTTP handlers report accounted results as such. -/
theorem execute_accounted {result : Result} (hr : result.accounted = true) (delivered : Bool) :
    (execute delivered result).accounted = true ∧ (execute delivered result).rejected = false := by
  cases result with
  | error => cases hr
  | ok result =>
    cases result with
    | completed result effects =>
      simp only [execute]
      split
      · exact ⟨by decide, by decide⟩
      · exact ⟨rfl, rfl⟩
    | failed code message =>
      refine ⟨hr, ?_⟩
      simp only [Result.accounted, Bool.or_eq_true, decide_eq_true_eq] at hr
      show decide (code = "unavailable") = false
      rcases hr with (rfl | rfl) | rfl
      all_goals decide
    | hostUnavailable => cases hr

theorem executeSocket_accounted {result : Result} (hr : result.accounted = true) :
    (executeSocket result).accounted = true ∧ (executeSocket result).rejected = false := by
  cases result with
  | error => cases hr
  | ok result =>
    cases result with
    | completed result effects => exact ⟨rfl, rfl⟩
    | failed code message => exact ⟨rfl, rfl⟩
    | hostUnavailable => cases hr

/-- A service that has stopped stays so. -/
theorem stopped_step {w w' : Service} {action : Database.Action} (hstop : w.stopped = true)
    (hstep : Database.step w action = some w') : w'.stopped = true := by
  cases Service.steps hstep with
  | scope request epoch => exact hstop
  | close k => exact hstop
  | _ hruns => cases hruns.symm.trans hstop

/-! ## Steps of the environment -/

section

variable {q : Request} {h : Host} (hinv : h.Inv)
include hinv

theorem Host.Inv.at {phase : Phase} (hphase : h.phase = phase) : { h with phase := phase }.Inv := by
  rw [← hphase]
  exact hinv

/-- Flags of the mailbox and of the service may be set at any time. -/
theorem Host.Inv.congr {h' : Host} (hphase : h'.phase = h.phase)
    (hexecuted : h'.executed = h.executed) (hinter : h.interleaved = true → h'.interleaved = true)
    (hstop : h.service.stopped = true → h'.service.stopped = true) : h'.Inv := by
  unfold Host.Inv at hinv ⊢
  rw [hphase, hexecuted]
  cases hp : h.phase with
  | finished c =>
    rw [hp] at hinv
    refine ⟨hinv.1, fun hex => ?_⟩
    rcases hinv.2 hex with hacc | herr | ⟨hcode, hflag⟩
    · exact .inl hacc
    · exact .inr (.inl herr)
    · exact .inr (.inr ⟨hcode, hflag.imp hinter hstop⟩)
  | _ =>
    rw [hp] at hinv
    exact hinv

theorem Host.Inv.drop : h.drop.Inv := by
  unfold Host.drop
  cases hp : h.phase with
  | submitted => exact fun hex => absurd hex (Bool.eq_false_iff.mp (hinv.at hp))
  | queued => exact fun hex => absurd hex (Bool.eq_false_iff.mp (hinv.at hp))
  | answered result => exact hinv.congr hp.symm rfl id id
  | replied reply => exact hinv.congr hp.symm rfl id id
  | _ => exact fun _ => outcomeUnknown_accounted

/-! ## Steps of the request -/

omit hinv in
/-- What is rejected was not executed. -/
theorem Host.Inv.reject (hex : h.executed = false) (result : Result) :
    { h with phase := .answered result }.Inv := by
  intro hexecuted
  exact absurd hexecuted (by simp [hex])

/-- The request is prepared, or replayed. -/
theorem Host.Inv.prepare (hphase : h.phase = .preparing) (a : Answers) : (h.prepare q a).Inv := by
  have hex : h.executed = false := hinv.at hphase
  have hun : ∀ (service : Service) result recovery,
      ({ h with service := service }.unexecuted result recovery).Inv := by
    intro service result recovery
    refine ⟨hex.symm, fun hexecuted => ?_⟩
    exact absurd hexecuted (by simp [Host.unexecuted, hex])
  unfold Host.prepare
  split
  · exact hinv
  · split
    · exact hun h.service _ _
    · dsimp only
      split
      · rfl
      · exact hun _ _ _
      · exact hun _ _ _

omit hinv in
/-- A request that was executed ends with an accounted result. -/
theorem Host.finish_inv (hex : h.executed = true) {result : Result}
    (hr : result.accounted = true) (interleaved : Bool) (recovery : Recovery)
    (failureCode : Option String) : (h.finish result interleaved recovery failureCode).Inv :=
  ⟨hex.symm, fun _ => .inl hr⟩

/-- The executor has ended. -/
theorem Host.Inv.commitOutcome (hphase : h.phase = .executing) (outcome : Outcome)
    (invalid : Option String) : (h.commitOutcome outcome invalid).Inv := by
  have hex : h.executed = true := hinv.at hphase
  cases outcome with
  | failed code message =>
    apply Host.finish_inv hex
    show ((_ || _) || _) = true
    split <;> simp
  | error text => exact Host.finish_inv hex (by simp [Result.accounted]) _ _ _
  | completed result effects =>
    cases invalid with
    | none => exact hex
    | some text => exact Host.finish_inv hex (by simp [Result.accounted]) _ _ _
  | interleaved result effects sequence =>
    cases invalid with
    | none => exact hex
    | some text => exact Host.finish_inv hex (by simp [Result.accounted]) _ _ _

omit hinv in
/-- An answer to a completion is accounted for, unless it is an error that the
mailbox does not take for an unknown outcome. -/
theorem Host.completed_inv (hex : h.executed = true) (output : Output) {completion : Completion}
    (herr : completion = .error → output.sequence = none →
      h.interleaved = true ∨ h.service.stopped = true) : (h.completed output completion).Inv := by
  cases completion with
  | done version => exact hex
  | unconfirmed => exact Host.finish_inv hex outcomeUnknown_accounted _ _ _
  | error =>
    cases hseq : output.sequence with
    | some sequence =>
      rw [Host.completed, if_pos (by rw [hseq]; rfl)]
      exact Host.finish_inv hex outcomeUnknown_accounted _ _ _
    | none =>
      rw [Host.completed, if_neg (by rw [hseq]; decide)]
      exact ⟨hex.symm, fun _ => .inr (.inr ⟨rfl, herr rfl hseq⟩)⟩

omit hinv in
/-- With its state resident and authority, a completion is not refused. -/
theorem publish_ne_error {w : Service} {a : Answers} {k : Nat} {scope : Database.Scope}
    {r : Database.Resident} (hcached : w.session.cached = some r)
    (hepoch : scope.epoch = some r.epoch) (hconfirmed : a.confirmed = true) (result : Nat) :
    (w.publish a k scope result).1 ≠ .error := by
  simp only [Service.publish, Database.Session.complete, hcached, hepoch, hconfirmed]
  rw [if_neg (not_not.mpr rfl), if_pos trivial]
  generalize r.publishResult a w.session.durable scope.request r.epoch result
    (if 0 < scope.committed then some scope.committed else none) = p
  split
  · simp
  · simp

/-- The completion is sent to the database. -/
theorem Host.Inv.send {output : Output} (hphase : h.phase = .completing output) {a : Answers}
    (hC : Authorized h (.send a)) : (h.send output a).Inv := by
  have hex : h.executed = true := hinv.at hphase
  unfold Host.send
  split
  · rename_i hstop
    exact Host.completed_inv hex output fun _ _ => .inr hstop
  · rename_i hrunning
    cases hscope : h.service.scopes[h.scope]? with
    | none => exact hinv
    | some scope =>
      cases hseq : output.sequence with
      | some sequence => exact ⟨hex, by rw [hseq]; rfl⟩
      | none =>
        dsimp only
        cases hpublish : h.service.publish a h.scope scope output.result with
        | mk completion service =>
        refine Host.completed_inv (h := { h with service := service }) hex output
          fun herr _ => ?_
        rcases hC with hguarded | ⟨hresident, hconfirmed⟩
        · simp only [Host.guarded, Host.sequenced, hphase, hseq, Option.isSome_none,
            Bool.or_false, Bool.or_eq_true] at hguarded
          exact .inl (hguarded.resolve_right hrunning)
        · cases hcached : h.service.session.cached with
          | none => simp [Host.resident, hcached] at hresident
          | some r =>
            simp only [Host.resident, hscope, hcached, decide_eq_true_eq] at hresident
            have hne := publish_ne_error (k := h.scope) hcached hresident hconfirmed
              output.result
            rw [hpublish] at hne
            exact absurd herr hne

theorem Host.Inv.await {output : Output} (hphase : h.phase = .sent output)
    (completion : Completion) : Ensures Host.Inv (h.await output completion) := by
  obtain ⟨hex, hseq⟩ : h.executed = true ∧ output.sequence.isSome = true := hinv.at hphase
  have hany : ∀ c, (h.completed output c).Inv := fun c =>
    Host.completed_inv hex output fun _ hnone => by simp [hnone] at hseq
  unfold Host.await
  split
  · exact hany completion
  · split
    · exact hany .error
    · trivial

/-- The last check of the authority before the reply. -/
theorem Host.Inv.respond {output : Output} {version : Nat}
    (hphase : h.phase = .confirmed output version) {authority : Bool}
    (hC : Authorized h (.respond authority)) : (h.completeWithState output authority).Inv := by
  have hex : h.executed = true := hinv.at hphase
  unfold Host.completeWithState
  split
  · rename_i hlost
    refine ⟨hex.symm, fun _ => ?_⟩
    rcases hC with hguarded | hauthority
    · simp only [Host.guarded, Host.sequenced, hphase, Bool.or_eq_true] at hguarded
      rcases hguarded with hflag | hseq
      · exact .inr (.inr ⟨rfl, hflag⟩)
      · exact .inr (.inl ⟨hseq, rfl⟩)
    · rw [hauthority] at hlost
      cases hlost
  · exact Host.finish_inv hex rfl _ _ _

/-- The mailbox stops on every error of an executed request. -/
theorem Host.Inv.handle {c : Finished} (hphase : h.phase = .finished c) : (h.handle c).Inv := by
  obtain ⟨hc, hsafe⟩ : c.executed = h.executed ∧ (h.executed = true → h.Safe c) :=
    hinv.at hphase
  unfold Host.handle
  split
  · exact fun _ => outcomeUnknown_accounted
  · rename_i hgoes
    intro hex
    show c.result.accounted = true
    have hex : h.executed = true := hex
    by_contra hacc
    apply hgoes
    rcases hsafe hex with h1 | ⟨hinter, herr⟩ | ⟨hcode, hinter | hstop⟩
    · exact absurd h1 hacc
    · simp [Host.recovery, recoveryOf, hinter, herr]
    · cases hci : c.interleaved with
      | false => simp [Host.recovery, recoveryOf, hc, hex, hinter, hcode, hci]
      | true =>
        have hres : ∀ result effects, c.result ≠ .ok (.completed result effects) := by
          intro result effects heq
          rw [heq] at hacc
          exact hacc rfl
        simp only [Host.recovery, recoveryOf, hci, Bool.true_and]
        split
        · rfl
        · rename_i hflag
          exfalso
          apply hflag
          cases hr : c.result with
          | error => simp
          | ok result =>
            cases result with
            | completed result effects => exact absurd hr (hres result effects)
            | failed code message => simp
            | hostUnavailable => simp
    · simp [Host.recovery, recoveryOf, hstop]

/-- **Every authorized step** keeps the invariant. -/
theorem Host.Inv.step {action : Action} (hC : Authorized h action) :
    Ensures Host.Inv (HostRequest.step q h action) := by
  fun_cases HostRequest.step q h action with
  | case1 action =>
    refine .map ?_
    cases hservice : Database.step h.service action with
    | none => trivial
    | some service => exact hinv.congr rfl rfl id fun hstop => stopped_step hstop hservice
  | case2 => exact hinv.congr rfl rfl (fun _ => rfl) id
  | case3 => exact hinv.congr rfl rfl id id
  | case4 => exact hinv.drop
  | case5 hphase _ => exact .reject (hinv.at hphase) _
  | case6 hphase _ result _ => exact .reject (hinv.at hphase) _
  | case7 hphase _ _ => exact hinv.at hphase
  | case9 hphase result _ => exact .reject (hinv.at hphase) _
  | case10 hphase _ => exact hinv.at hphase
  | case12 a hready => exact hinv.prepare hready.1 a
  | case14 outcome invalid hphase => exact hinv.commitOutcome hphase outcome invalid
  | case16 a output hphase _ => exact hinv.send hphase hC
  | case19 completion output hphase => exact hinv.await hphase completion
  | case21 authority output version hphase => exact hinv.respond hphase hC
  | case23 c hphase => exact hinv.handle hphase
  | case25 delivered result _ hphase =>
    exact fun hex => execute_accounted (hinv.at hphase hex) delivered
  | case26 delivered result disconnect _ hphase =>
    exact fun hex => executeSocket_accounted (hinv.at hphase hex)
  | _ => trivial

end

/-! ## The result -/

/-- **No executed request is reported as not executed.**  In every run of a
request through the host whose steps are authorized, the reply to a request for
which the executor was invoked is a result, a failure of the actor, or that the
outcome is unknown, and never that the actor has not run. -/
theorem executed_request_accounted {q : Request} {service : Service}
    {alive draining interleaved : Bool} {actions : List Action} {h : Host} {reply : Reply}
    (hC : Transition.Guarded (step q) Authorized
      (Host.initial service alive draining interleaved) actions)
    (hrun : Transition.run (step q) (Host.initial service alive draining interleaved) actions =
      some h) (hreply : h.phase = .replied reply) :
    (reply.rejected = true → h.executed = false) ∧
      (h.executed = true → reply.accounted = true) := by
  have hinv : h.Inv := Transition.run_guarded_invariant
    (fun _ _ _ hinv hC hstep => (hinv.step hC).of_eq hstep)
    (show (Host.initial service alive draining interleaved).Inv from rfl) hC hrun
  have hboth : h.executed = true → reply.accounted = true ∧ reply.rejected = false :=
    hinv.at hreply
  refine ⟨fun hrejected => ?_, fun hex => (hboth hex).1⟩
  by_contra hex
  rw [(hboth (Bool.of_not_eq_false hex)).2] at hrejected
  cases hrejected

/-- A method call of epoch 3 that commits one transaction and returns 7.  The
answers are those to its completion and of the last authority check. -/
def commitAndReturn (a : Answers) (authority : Bool) : List Action :=
  [.receive, .start, .prepare { loaded := some ⟨0, none⟩ },
    .service (.call 0 .commit { executed := some ⟨true, true, 1⟩ }),
    .invoked (.completed 7 []) none, .send a, .respond authority, .handle, .reply true]

def methodCall : Request := ⟨.method, 1, 3, true⟩

def idleHost : Host := Host.initial (Service.initial []) true false false

def commitAndReturnEnd : Host :=
  Transition.final (step methodCall) idleHost (commitAndReturn { ticket := some ⟨1, 3⟩ } true)

theorem executed_request_accounted_completed :
    commitAndReturnEnd.executed = true ∧ commitAndReturnEnd.phase = .replied (.completed 7) ∧
    commitAndReturnEnd.service.session.durable.length = 1 ∧
    (Reply.completed 7).accounted = true := by
  have hrun : Transition.run (step methodCall) (Host.initial (Service.initial []) true false false)
      (commitAndReturn { ticket := some ⟨1, 3⟩ } true) = some commitAndReturnEnd := rfl
  have hreply : commitAndReturnEnd.phase = .replied (.completed 7) := by decide
  have h := executed_request_accounted (by decide) hrun hreply
  exact ⟨by decide, by decide, by decide, h.2 (by decide)⟩

/-! ### Authority lost after the publication -/

/-- The host loses its authority between the publication and the check in
`complete`. -/
def lostInComplete : List Action :=
  [.receive, .start, .prepare { loaded := some ⟨0, none⟩ },
    .service (.call 0 .commit { executed := some ⟨true, true, 1⟩ }),
    .invoked (.completed 7 []) none, .send { ticket := some ⟨1, 3⟩, confirmed := false },
    .handle, .reply true]

/-- The actor has run and its state is durable, and the client is told that the
actor could not start: when the check in `complete` fails, and when the one in
`complete_with_state` does. -/
theorem executed_request_reported_unavailable :
    (∃ h, Transition.run (step methodCall) idleHost lostInComplete = some h ∧
      h.executed = true ∧ h.service.session.durable.length = 1 ∧
      h.phase = .replied (.failed "unavailable"
        "actor could not start because its state was unavailable")) ∧
    ∃ h, Transition.run (step methodCall) idleHost
        (commitAndReturn { ticket := some ⟨1, 3⟩ } false) = some h ∧
      h.executed = true ∧ h.service.session.durable.length = 1 ∧
      h.phase = .replied (.failed "unavailable"
        "actor could not start because its state was unavailable") := by
  refine ⟨⟨Transition.final (step methodCall) idleHost lostInComplete,
      rfl, by decide, by decide, by decide⟩,
    ⟨Transition.final (step methodCall) idleHost (commitAndReturn { ticket := some ⟨1, 3⟩ } false),
      rfl, by decide, by decide, by decide⟩⟩

end DurableActors.Ports.HostRequest
