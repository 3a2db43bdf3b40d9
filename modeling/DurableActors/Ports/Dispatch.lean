import DurableActors.Verified.Retry

/-!
# Dispatching an invocation

How the control plane gets an operation to the host of an actor:
`settle` of `control_plane/invocation.rs`, `dispatch` of
`control_plane/socket_gateway.rs`, the resolution of routes and
`provision_in_regions` of `control_plane/service.rs`, and `HttpAssignment` and
`RemoteSandboxProvider` of `sandbox/remote.rs`.  A new host gets the operation
with its assignment, a running one in a request of its own, and four loops
decide whether it is sent again: over regions, over hosts that shut down, and
over the attempts of `settle` and of the socket gateway.

What the network and the hosts do is given as data.  A `Delivery` tells whether
the executor was invoked for a request; it carries the proof that no refusal is
sent for a request the executor has seen.
-/

namespace DurableActors.Ports.Dispatch

open Verified.Retry (Traced Decision)

/-! ## Requests over the network -/

/-- How a request ends: nothing was sent; the answer was lost; an error status;
an answer that cannot be decoded; an answer. -/
inductive Answer (ρ : Type)
  | connectError
  | lost
  | status (code : Nat)
  | malformed
  | reply (value : ρ)
deriving DecidableEq, Repr

/-- A request: whether the executor was invoked for it, and its answer. -/
structure Delivery {ρ : Type} (refused : Answer ρ → Bool) where
  executed : Bool
  answer : Answer ρ
  sound : executed = true → refused answer = false

/-- How often the executor was invoked. -/
def Delivery.effects {ρ : Type} {refused : Answer ρ → Bool} (d : Delivery refused) : Nat :=
  if d.executed = true then 1 else 0

/-- `declined_before_execution`: 400, 401 and 409. -/
def declinedBeforeExecution (code : Nat) : Bool := code = 400 || code = 401 || code = 409

/-- `ActorHostHandle`: the reply to the initial operation. -/
structure Handle (ρ : Type) where
  initialReply : Option ρ
deriving DecidableEq, Repr

section

variable {ρ : Type} (notExecuted : ρ → Bool)

/-- The answers of a host that mean it has not invoked the executor. -/
def hostRefused : Answer ρ → Bool
  | .connectError => true
  | .status code => code = 401 || code = 403
  | .reply value => notExecuted value
  | _ => false

/-- The answers of a spare that mean the same. -/
def assignmentRefused : Answer (Handle ρ) → Bool
  | .connectError => true
  | .status code => declinedBeforeExecution code
  | .reply handle => handle.initialReply.any notExecuted
  | _ => false

end

/-! ## Errors -/

/-- The errors that loops look for. -/
inductive Kind
  | plain
  | hostNotReady
  | shuttingDown
  | regionConflict
  | admission
deriving DecidableEq, Repr

/-- An error, and whether `AssignmentOutcomeUnknown` is among its contexts. -/
structure Error where
  kind : Kind
  unknown : Bool
deriving DecidableEq, Repr

def Error.plain : Error := ⟨.plain, false⟩

/-- `error.context(AssignmentOutcomeUnknown)` if the operation may have run. -/
def Error.context (e : Error) (mayHaveRun : Bool) : Error :=
  { e with unknown := e.unknown || mayHaveRun }

/-! ## Provisioning -/

section

variable {ρ : Type} {notExecuted : ρ → Bool}

/-- `HttpAssignment::assign`. -/
def httpAssign (operation : Bool) : Answer (Handle ρ) → Except Error (Handle ρ)
  | .connectError => .error .plain
  | .lost => .error (Error.plain.context operation)
  | .status code =>
    if declinedBeforeExecution code = true then .error .plain
    else .error (Error.plain.context operation)
  | .malformed => .error (Error.plain.context operation)
  | .reply handle =>
    if operation = true ∧ handle.initialReply.isNone = true then
      .error (Error.plain.context operation)
    else .ok handle

variable (notExecuted) in
/-- One provisioning attempt: whether it is admitted, whether everything before
the assignment succeeds, the assignment, and the checks of the provider and of
the control plane after it. -/
structure Provision where
  admitted : Bool
  prepared : Bool
  assignment : Delivery (assignmentRefused notExecuted)
  validated : Bool
  ready : Bool

/-- `RemoteSandboxProvider::assign` after the request was sent. -/
def Provision.assign (p : Provision notExecuted) (operation : Bool) :
    Except Error (Handle ρ) :=
  match httpAssign operation p.assignment.answer with
  | .error e => .error e
  | .ok handle =>
    if p.validated = true then .ok handle
    else .error (Error.plain.context handle.initialReply.isSome)

/-- `ensure_actor_host` with `launch` and `provision`: the reply to the initial
operation. -/
def Provision.launch (p : Provision notExecuted) (operation : Bool) :
    Traced (Except Error (Option ρ)) :=
  if p.admitted = false then ⟨.error ⟨.admission, false⟩, 0⟩
  else if p.prepared = false then ⟨.error .plain, 0⟩
  else
    let effects := if operation = true then p.assignment.effects else 0
    match p.assign operation with
    | .error e => ⟨.error e, effects⟩
    | .ok handle =>
      if p.ready = true then ⟨.ok handle.initialReply, effects⟩
      else ⟨.error (Error.plain.context handle.initialReply.isSome), effects⟩

/-- What is found of the actor's placement after a failed attempt. -/
inductive Recheck
  | failed
  | none
  | conflict
  | inactive
  | active
  | error (kind : Kind)
deriving DecidableEq, Repr

/-- One turn of the loop in `provision_in_regions`; the state is the last
error. -/
def provisionInRegion (operation : Bool) (_ : Option Error)
    (attempt : Provision notExecuted × Recheck) :
    Traced (Decision (Option Error) (Except Error (Option ρ))) :=
  let launched := attempt.1.launch operation
  match launched.value with
  | .ok reply => ⟨.done (.ok reply), launched.effects⟩
  | .error e =>
    if e.unknown = true ∨ e.kind = .admission then ⟨.done (.error e), launched.effects⟩
    else
      match attempt.2 with
      | .failed => ⟨.done (.error .plain), launched.effects⟩
      | .none => ⟨.again (some e), launched.effects⟩
      | .conflict => ⟨.done (.error ⟨.regionConflict, false⟩), launched.effects⟩
      | .inactive => ⟨.done (.error e), launched.effects⟩
      | .active => ⟨.done (.ok .none), launched.effects⟩
      | .error kind => ⟨.done (.error ⟨kind, false⟩), launched.effects⟩

/-- `provision_in_regions`. -/
def provisionInRegions (operation : Bool) (attempts : List (Provision notExecuted × Recheck)) :
    Traced (Except Error (Option ρ)) :=
  let tried := Verified.Retry.run (provisionInRegion operation) none attempts
  match tried.value with
  | .done result => ⟨result, tried.effects⟩
  | .again last => ⟨.error (last.getD .plain), tried.effects⟩

/-! ## Routes -/

/-- What `route_actor` finds before it provisions: an error, a host that runs
the actor, or nothing. -/
inductive Found
  | error (kind : Kind)
  | active
  | nothing
deriving DecidableEq, Repr

variable (notExecuted) in
/-- One call of `route_actor`, and whether a host that shuts down is gone in
time. -/
structure Route where
  found : Found
  regions : List (Provision notExecuted × Recheck)
  waited : Bool

/-- `route_actor`. -/
def routeActor (operation : Bool) (route : Route notExecuted) :
    Traced (Except Error (Option ρ)) :=
  match route.found with
  | .error kind => ⟨.error ⟨kind, false⟩, 0⟩
  | .active => ⟨.ok none, 0⟩
  | .nothing => provisionInRegions operation route.regions

/-- One turn of `route_actor_when_ready`. -/
def routeWhenReady (operation : Bool) (_ : Unit) (route : Route notExecuted) :
    Traced (Decision Unit (Except Error (Option ρ))) :=
  let routed := routeActor operation route
  match routed.value with
  | .ok reply => ⟨.done (.ok reply), routed.effects⟩
  | .error e =>
    if e.kind = .shuttingDown then
      if route.waited = true then ⟨.again (), routed.effects⟩
      else ⟨.done (.error .plain), routed.effects⟩
    else ⟨.done (.error e), routed.effects⟩

variable (notExecuted) in
/-- One resolution: whether the request is refused at once, the cached route
(and whether it conflicts with the home region), the routing attempts, and
whether a token could be issued. -/
structure Resolution where
  refused : Bool
  cached : Option Bool
  routes : List (Route notExecuted)
  issued : Bool

/-- `resolve_actor_route`; nothing is returned while it waits for a host to
shut down. -/
def resolveActorRoute (operation : Bool) (a : Resolution notExecuted) :
    Traced (Option (Except Error (Option ρ))) :=
  if a.refused = true then ⟨some (.error .plain), 0⟩
  else
    match a.cached with
    | some conflict =>
      if conflict = true then ⟨some (.error ⟨.regionConflict, false⟩), 0⟩
      else if a.issued = true then ⟨some (.ok none), 0⟩
      else ⟨some (.error .plain), 0⟩
    | none =>
      let routed := Verified.Retry.run (routeWhenReady operation) () a.routes
      match routed.value with
      | .again _ => ⟨none, routed.effects⟩
      | .done (.error e) => ⟨some (.error e), routed.effects⟩
      | .done (.ok reply) =>
        if a.issued = true then ⟨some (.ok reply), routed.effects⟩
        else ⟨some (.error (Error.plain.context reply.isSome)), routed.effects⟩

end

/-! ## `settle` -/

/-- The JSON reply of a host to an invocation. -/
inductive InvocationReply
  | notExecuted (reason : Option String)
  | completed (result : Option Nat)
  | failed (code message : Option String)
  | other
deriving DecidableEq, Repr

/-- The host says that it did not run the request. -/
def InvocationReply.isNotExecuted : InvocationReply → Bool
  | .notExecuted _ => true
  | _ => false

/-- `validate_reply`. -/
def InvocationReply.valid : InvocationReply → Bool
  | .notExecuted reason =>
    reason = some "host_unavailable" || reason = some "upstream_not_reached"
  | .completed result => result.isSome
  | .failed code message => code.any (fun code => code ≠ "") && message.isSome
  | .other => false

/-- What `settle` returns. -/
inductive Settled
  | answered (reply : InvocationReply)
  | unauthenticated
  | outcomeUnknown
  | routing (e : Error)
deriving DecidableEq, Repr

/-- The outcomes after which `settle` tries again. -/
def Settled.unsettled : Settled → Bool
  | .answered reply => reply.isNotExecuted
  | .unauthenticated => true
  | _ => false

/-- A reply that is not valid leaves the outcome open. -/
def validateReply (reply : InvocationReply) : Settled :=
  if reply.valid = true then .answered reply else .outcomeUnknown

/-- `send_invocation`. -/
def sendInvocation : Answer InvocationReply → Settled
  | .connectError => .answered (.notExecuted (some "upstream_not_reached"))
  | .lost => .outcomeUnknown
  | .status code => if code = 401 then .unauthenticated else .outcomeUnknown
  | .malformed => .outcomeUnknown
  | .reply reply => validateReply reply

/-- `HostState`. -/
inductive HostState
  | warm
  | cold
deriving DecidableEq, Repr

/-- One turn of `settle`: the resolution, whether a new host was started, the
request to the host, and whether the deadline has passed. -/
structure Round where
  resolution : Resolution InvocationReply.isNotExecuted
  started : Bool
  delivery : Delivery (hostRefused InvocationReply.isNotExecuted)
  expired : Bool

/-- Try again unless the outcome is final or the deadline has passed. -/
def Round.conclude (round : Round) (state : HostState) (outcome : Settled) (effects : Nat) :
    Traced (Decision HostState (Option Settled)) :=
  if outcome.unsettled = true ∧ round.expired = false then ⟨.again state, effects⟩
  else ⟨.done (some outcome), effects⟩

/-- One turn of the loop of `settle`: resolve, then send unless the start has answered. -/
def settleRound (state : HostState) (round : Round) :
    Traced (Decision HostState (Option Settled)) :=
  let resolved := resolveActorRoute true round.resolution
  match resolved.value with
  | none => ⟨.done none, resolved.effects⟩
  | some (.error e) => ⟨.done (some (.routing e)), resolved.effects⟩
  | some (.ok initialReply) =>
    let state := if round.started = true then .cold else state
    match initialReply with
    | some reply => round.conclude state (validateReply reply) resolved.effects
    | none =>
      round.conclude state (sendInvocation round.delivery.answer)
        (resolved.effects + round.delivery.effects)

/-- `settle`. -/
def settle (rounds : List Round) : Traced (Decision HostState (Option Settled)) :=
  Verified.Retry.run settleRound .warm rounds

/-! ## `SocketGateway::dispatch` -/

/-- `SocketEventReply`, or a value that is none. -/
inductive SocketReply
  | completed (effects : Nat)
  | notExecuted
  | failed (message : String)
  | malformed
deriving DecidableEq, Repr

/-- The host says that it did not handle the event. -/
def SocketReply.isNotExecuted : SocketReply → Bool
  | .notExecuted => true
  | _ => false

/-- One turn of `dispatch`: whether the gateway is stopping or the deadline has
passed before it, the resolution and whether it takes too long, the request to
the host, and whether the gateway lives through the pause after it. -/
structure GatewayRound where
  stopping : Bool
  expired : Bool
  resolution : Resolution SocketReply.isNotExecuted
  timedOut : Bool
  delivery : Delivery (hostRefused SocketReply.isNotExecuted)
  waited : Bool

/-- The effects of the event, or an error. -/
abbrev Dispatched := Except String Nat

/-- `wait_to_retry`. -/
def GatewayRound.retry (round : GatewayRound) (effects : Nat) :
    Traced (Decision Unit (Option Dispatched)) :=
  if round.waited = true then ⟨.again (), effects⟩
  else ⟨.done (some (.error "socket gateway stopped")), effects⟩

/-- The end of a turn, once there is a reply. -/
def GatewayRound.conclude (round : GatewayRound) (effects : Nat) :
    SocketReply → Traced (Decision Unit (Option Dispatched))
  | .completed result => ⟨.done (some (.ok result)), effects⟩
  | .notExecuted => round.retry effects
  | .failed message => ⟨.done (some (.error ("socket handler failed: " ++ message))), effects⟩
  | .malformed => ⟨.done (some (.error "invalid socket event reply")), effects⟩

/-- The request of a turn. -/
def GatewayRound.deliver (round : GatewayRound) (effects : Nat) :
    Traced (Decision Unit (Option Dispatched)) :=
  let unknown : Traced (Decision Unit (Option Dispatched)) :=
    ⟨.done (some (.error "socket event outcome unknown; event was not replayed")), effects⟩
  match round.delivery.answer with
  | .connectError => round.retry effects
  | .lost => unknown
  | .status code => if code = 401 ∨ code = 403 then round.retry effects else unknown
  | .malformed => unknown
  | .reply reply => round.conclude effects reply

/-- One turn of the loop of `dispatch`, with its checks in order. -/
def gatewayRound (_ : Unit) (round : GatewayRound) :
    Traced (Decision Unit (Option Dispatched)) :=
  if round.stopping = true then ⟨.done (some (.error "socket gateway stopping")), 0⟩
  else if round.expired = true then
    ⟨.done (some (.error "actor remained unavailable during socket handoff")), 0⟩
  else
    let resolved := resolveActorRoute true round.resolution
    if round.timedOut = true then
      ⟨.done (some (.error "actor remained unavailable during socket handoff")),
        resolved.effects⟩
    else
      match resolved.value with
      | none => ⟨.done none, resolved.effects⟩
      | some (.error e) =>
        if e.kind = .hostNotReady then round.retry resolved.effects
        else ⟨.done (some (.error "actor host is unavailable")), resolved.effects⟩
      | some (.ok (some reply)) => round.conclude resolved.effects reply
      | some (.ok none) => round.deliver (resolved.effects + round.delivery.effects)

/-- `SocketGateway::dispatch`. -/
def gatewayDispatch (rounds : List GatewayRound) :
    Traced (Decision Unit (Option Dispatched)) :=
  Verified.Retry.run gatewayRound () rounds

end DurableActors.Ports.Dispatch
