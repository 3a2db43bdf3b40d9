import DurableActors.Ports.DatabaseMoves

/-!
# One request through an actor host

The path of a request of `host/actor_host.rs` and `host/http.rs`: the mailbox
(`receive`, `start_ready`, `executed`, its `Drop`), `run_request`,
`commit_outcome`, `complete_with_state`, and the HTTP handlers `execute` and
`execute_socket`.  Between its steps anything may happen to the database
service, the mailbox may admit other requests, start to drain, or end.

Errors carry no text here.
-/

namespace DurableActors.Ports.HostRequest

open Verified
open Database (Service Answers Effect ExecutionResult Prepared Completion
  outcomeUnknown)

/-! ## Requests and their results -/

/-- A method call or a socket event. -/
inductive Operation
  | method
  | socket (disconnect : Bool)
deriving DecidableEq, Repr

/-- A request: its id, owner epoch, and whether it passes `validate`. -/
structure Request where
  operation : Operation
  id : Nat
  epoch : Nat
  valid : Bool
deriving DecidableEq, Repr

/-- `Result<ActorExecutionResult>`. -/
inductive Result
  | ok (result : ExecutionResult)
  | error
deriving DecidableEq, Repr

/-- What the executor returned. -/
inductive Outcome
  | completed (result : Nat) (effects : List Effect)
  | interleaved (result : Nat) (effects : List Effect) (sequence : Nat)
  | failed (code message : String)
  | error (text : String)
deriving DecidableEq, Repr

/-- What follows a request that has not ended well. -/
inductive Recovery
  | keep
  | evict
  | reset
  | stop
deriving DecidableEq, Repr

/-- `Completion`: what a finished request hands to the mailbox. -/
structure Finished where
  result : Result
  interleaved : Bool
  recovery : Recovery
  failureCode : Option String
  executed : Bool
deriving DecidableEq, Repr

/-- What the executor produced, on its way through `commit_outcome`. -/
structure Output where
  result : Nat
  effects : List Effect
  sequence : Option Nat
deriving DecidableEq, Repr

/-- `InvocationReply` of `execute`, `SocketEventReply` of `execute_socket`. -/
inductive Reply
  | completed (result : Nat)
  | failed (code message : String)
  | notExecuted
  | socketCompleted (effects : List Effect)
  | socketFailed (message : Option String)
  | socketNotExecuted
deriving DecidableEq, Repr

/-! ## The host -/

/-- Where the request is. -/
inductive Phase
  /-- in the channel of the mailbox -/
  | submitted
  | queued
  /-- in `run_request`, before `prepare` has answered -/
  | preparing
  | executing
  /-- in `commit_outcome`, before the completion is sent -/
  | completing (output : Output)
  /-- a sequenced completion has been sent -/
  | sent (output : Output)
  /-- before `complete_with_state` -/
  | confirmed (output : Output) (version : Nat)
  /-- the mailbox has to handle the completion -/
  | finished (finished : Finished)
  /-- `submit_traced` has its outcome -/
  | answered (result : Result)
  | replied (reply : Reply)
deriving DecidableEq, Repr

/-- The database service, the flags of the mailbox, the request's scope and
where it is, and whether the executor was invoked for it. -/
structure Host where
  service : Service
  alive : Bool
  draining : Bool
  interleaved : Bool
  scope : Nat
  phase : Phase
  executed : Bool
deriving DecidableEq, Repr

/-- A request is sent to a mailbox in any state. -/
def Host.initial (service : Service) (alive draining interleaved : Bool) : Host :=
  ⟨service, alive, draining, interleaved, 0, .submitted, false⟩

variable (q : Request) (h : Host)

/-! ## The mailbox -/

/-- `rejection`. -/
def Host.rejection : Option Result :=
  if h.draining = true ∧ q.operation ≠ .socket true then some (.ok .hostUnavailable)
  else if q.valid = false then some .error
  else none

/-- `start`: the request gets a scope of its own. -/
def Host.start : Host :=
  { h with
    service := { h.service with
      scopes := h.service.scopes ++ [⟨q.id, some q.epoch, true, 0, []⟩] }
    scope := h.service.scopes.length
    phase := .preparing }

/-- Failures after which an interleaved mailbox goes on. -/
def expectedFailure (code : String) : Bool :=
  code = "actor_method_failed" || code = "actor_socket_failed" ||
    code = "method_not_found" || code = "method_not_callable"

/-- `recovery` of a mailbox whose database service may have stopped. -/
def recoveryOf (interleaved stopped : Bool) (c : Finished) : Recovery :=
  let unexpected := c.executed && interleaved && !c.interleaved &&
    c.failureCode.all fun code => !expectedFailure code
  let interleavingFailed := c.interleaved &&
    match c.result with
    | .ok (.completed _ _) => false
    | _ => true
  if unexpected || interleavingFailed || stopped then .stop else c.recovery

def Host.recovery (c : Finished) : Recovery := recoveryOf h.interleaved h.service.stopped c

/-- `executed`: the mailbox stops, and reports that it does not know, or it
passes the result on. -/
def Host.handle (c : Finished) : Host :=
  match h.recovery c with
  | .stop =>
    { h with alive := false, interleaved := h.interleaved || c.interleaved,
             phase := .answered (.ok outcomeUnknown) }
  | _ => { h with interleaved := h.interleaved || c.interleaved, phase := .answered c.result }

/-- The mailbox ends: what it has not started is unavailable, and the reply
channel of a running request is closed. -/
def Host.drop : Host :=
  let after := { h with alive := false }
  match h.phase with
  | .submitted => { after with phase := .answered (.ok .hostUnavailable) }
  | .queued => { after with phase := .answered (.ok .hostUnavailable) }
  | .answered _ => after
  | .replied _ => after
  | _ => { after with phase := .answered (.ok outcomeUnknown) }

/-! ## `run_request` -/

/-- A request that ended before the executor was invoked. -/
def Host.unexecuted (result : Result) (recovery : Recovery) : Host :=
  { h with phase := .finished ⟨result, false, recovery, none, false⟩ }

/-- Prepare the invocation and, if there is nothing to replay, invoke the
executor. -/
def Host.prepare (a : Answers) : Host :=
  match h.service.scopes[h.scope]? with
  | none => h
  | some scope =>
    if h.service.stopped = true then h.unexecuted .error .stop
    else
      let (prepared, service) := h.service.prepare a scope (q.operation = .method)
      let after := { h with service := service }
      match prepared with
      | .execute => { after with phase := .executing, executed := true }
      | .completed result => after.unexecuted (.ok result) .keep
      | .error => after.unexecuted .error .stop

/-- The end of `commit_outcome` for an executed request. -/
def Host.finish (result : Result) (interleaved : Bool) (recovery : Recovery)
    (failureCode : Option String) : Host :=
  { h with phase := .finished ⟨result, interleaved, recovery, failureCode, true⟩ }

/-- The start of `commit_outcome`; `invalid` is the error of
`validate_socket_effects`. -/
def Host.commitOutcome (outcome : Outcome) (invalid : Option String) : Host :=
  match outcome with
  | .failed code message =>
    h.finish
      (.ok (.failed
        (if code = "resource_exhausted" then "resource_exhausted" else "actor_error")
        message))
      false
      (if code = "actor_method_failed" ∨ code = "actor_socket_failed" then .keep
        else .reset)
      (some code)
  | .error text =>
    h.finish (.ok (.failed "actor_error" ("actor executor failed: " ++ text))) false .reset none
  | .completed result effects =>
    match invalid with
    | some text =>
      h.finish
        (.ok (.failed "actor_error" ("actor returned invalid socket effects: " ++ text)))
        false .reset none
    | none => { h with phase := .completing ⟨result, effects, none⟩ }
  | .interleaved result effects sequence =>
    match invalid with
    | some text =>
      h.finish
        (.ok (.failed "actor_error" ("actor returned invalid socket effects: " ++ text)))
        true .reset none
    | none => { h with phase := .completing ⟨result, effects, some sequence⟩ }

/-- What `commit_outcome` makes of the answer of `scope.complete`. -/
def Host.completed (output : Output) : Completion → Host
  | .done version => { h with phase := .confirmed output version }
  | .unconfirmed => h.finish (.ok outcomeUnknown) output.sequence.isSome .evict none
  | .error =>
    if output.sequence.isSome = true then h.finish (.ok outcomeUnknown) true .evict none
    else h.finish .error false .keep none

/-- `scope.complete`.  An unsequenced completion is answered at once, a
sequenced one when its turn has come. -/
def Host.send (output : Output) (a : Answers) : Host :=
  if h.service.stopped = true then h.completed output .error
  else
    match h.service.scopes[h.scope]? with
    | none => h
    | some scope =>
      match output.sequence with
      | none =>
        let (completion, service) := h.service.publish a h.scope scope output.result
        { h with service := service }.completed output completion
      | some sequence =>
        { h with
          service := h.service.complete a h.scope scope output.result (some sequence)
          phase := .sent output }

/-- The answer to a sequenced completion, or none when the service has ended. -/
def Host.await (output : Output) (completion : Completion) : Option Host :=
  if (h.service.events.any fun e => match e with
      | .completed k _ c => k = h.scope ∧ c = completion
      | _ => false) = true then some (h.completed output completion)
  else if h.service.stopped = true then some (h.completed output .error)
  else none

/-- `complete_with_state`: state effects are published on their own. -/
def Host.completeWithState (output : Output) (authority : Bool) : Host :=
  if authority = false then h.finish .error output.sequence.isSome .keep none
  else
    h.finish
      (.ok (.completed output.result (output.effects.filter fun e => match e with
        | .state _ => false
        | .message _ => true)))
      output.sequence.isSome .keep none

/-! ## The HTTP handlers -/

/-- `execute`; `delivered` tells whether the socket effects were published. -/
def execute (delivered : Bool) : Result → Reply
  | .ok (.completed result effects) =>
    if effects ≠ [] ∧ delivered = false then
      .failed "outcome_unknown" "actor completed but socket effects could not be delivered"
    else .completed result
  | .ok (.failed code message) => .failed code message
  | .ok .hostUnavailable => .notExecuted
  | .error => .failed "unavailable" "actor could not start because its state was unavailable"

/-- `execute_socket`. -/
def executeSocket : Result → Reply
  | .ok (.completed _ effects) => .socketCompleted effects
  | .ok .hostUnavailable => .socketNotExecuted
  | .ok (.failed _ message) => .socketFailed (some message)
  | .error => .socketFailed none

/-- The reply says that the actor has not run; clients may then send the
request again. -/
def Reply.rejected : Reply → Bool
  | .notExecuted => true
  | .socketNotExecuted => true
  | .failed code _ => code = "unavailable"
  | _ => false

/-- The reply is a result, a failure of the actor, or that the outcome is
unknown. -/
def Reply.accounted : Reply → Bool
  | .completed _ => true
  | .failed code _ =>
    code = "actor_error" || code = "resource_exhausted" || code = "outcome_unknown"
  | .socketCompleted _ => true
  | .socketFailed _ => true
  | _ => false

/-! ## Steps -/

inductive Action
  /-- the database service does something for another scope, for the executor,
  or stops -/
  | service (action : Database.Action)
  /-- the mailbox admits another request -/
  | admitted
  | drain
  | drop
  | receive
  | start
  | prepare (a : Answers)
  | invoked (outcome : Outcome) (invalid : Option String)
  | send (a : Answers)
  | await (completion : Completion)
  | respond (authority : Bool)
  | handle
  | reply (delivered : Bool)
deriving DecidableEq, Repr

/-- The service can take the request's command, or has stopped. -/
def Host.ready : Bool := h.service.stopped || h.service.idle

def step : Action → Option Host
  | .service action =>
    (Database.step h.service action).map fun service => { h with service := service }
  | .admitted => some { h with interleaved := true }
  | .drain => some { h with draining := true }
  | .drop => some h.drop
  | .receive =>
    if h.phase = .submitted then
      if h.alive = false then some { h with phase := .answered (.ok .hostUnavailable) }
      else
        match h.rejection q with
        | some result => some { h with phase := .answered result }
        | none => some { h with phase := .queued }
    else none
  | .start =>
    if h.phase = .queued then
      match h.rejection q with
      | some result => some { h with phase := .answered result }
      | none => some (h.start q)
    else none
  | .prepare a =>
    if h.phase = .preparing ∧ h.ready = true ∧ a.Sound h.service.session.durable then
      some (h.prepare q a)
    else none
  | .invoked outcome invalid =>
    if h.phase = .executing then some (h.commitOutcome outcome invalid) else none
  | .send a =>
    match h.phase with
    | .completing output => if h.ready = true then some (h.send output a) else none
    | _ => none
  | .await completion =>
    match h.phase with
    | .sent output => h.await output completion
    | _ => none
  | .respond authority =>
    match h.phase with
    | .confirmed output _ => some (h.completeWithState output authority)
    | _ => none
  | .handle =>
    match h.phase with
    | .finished c => some (h.handle c)
    | _ => none
  | .reply delivered =>
    match h.phase, q.operation with
    | .answered result, .method => some { h with phase := .replied (execute delivered result) }
    | .answered result, .socket _ => some { h with phase := .replied (executeSocket result) }
    | _, _ => none

end DurableActors.Ports.HostRequest
