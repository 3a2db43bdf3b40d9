import DurableActors.Ports.HostRequest
import DurableActors.Verified.Watch

/-!
# The mailbox of an actor and the executor driver

`Actor` of `host/actor_host.rs` starts requests one at a time: `blocked_on` is
the request it waits for before it starts the next one.  The actor's code can
let the next one in early.  It sends `ready_for_invocation` with the id of the
message it works on, `ExecutorDriver` of `actor/executor_connection.rs` checks
that it is an invocation that has not done so before, and signals the mailbox
through a watch channel that carries no value.

The two run concurrently.  A step of the model is a stretch of one of them
without a point where the other can see an intermediate state; `start` is two,
because the channel is read before `blocked_on` is set.  The actor's code may
send any message at any time.

The log records what the channel and the mailbox forget.
-/

namespace DurableActors.Ports.Mailbox

open Verified
open HostRequest (Recovery Finished recoveryOf)

/-! ## The driver -/

/-- `ExecutorCommand`. -/
inductive Command
  | invoke
  | websocketEvent
  | hydrate
  | evict
deriving DecidableEq, Repr

/-- The commands that can admit another call. -/
def Command.invocation : Command → Bool
  | .invoke => true
  | .websocketEvent => true
  | _ => false

/-- Who waits for the reply to a command: a request, or the mailbox itself,
which evicts. -/
inductive Waiter
  | request (id : Nat)
  | mailbox
deriving DecidableEq, Repr

/-- A command whose answer is waited for. -/
structure PendingCommand where
  command : Command
  waiter : Waiter
  admissionGranted : Bool
deriving DecidableEq, Repr

/-- What is sent to the executor. -/
inductive ExecutorRequest
  | exchange (pending : PendingCommand)
  | ready
deriving DecidableEq, Repr

/-- `ActorExecutorClientMessage`, with the ids of messages. -/
inductive ClientMessage
  | residency
  | readyForInvocation (messageId : Nat)
  | reply (messageId : Nat)
  | socketEffects (messageId : Nat)
  | databaseCall (messageId : Option Nat)
  | getConnections (messageId : Nat)
  | actorCall
  | log
  | warm
  | attach
deriving DecidableEq, Repr

/-- `ExecutorDriver`: the sets of tasks are given by the message ids the tasks
return. -/
structure Driver where
  running : Bool
  pending : List (Nat × PendingCommand)
  nextMessageId : Nat
  databaseCalls : List (Option Nat)
  databaseIds : List Nat
  loadingConnections : List Nat
  connectionLookupIds : List Nat
deriving DecidableEq, Repr

/-- What a step of the driver means to others. -/
inductive Signal
  | quiet
  | granted (waiter : Waiter)
  | answered (waiter : Waiter)
deriving DecidableEq, Repr

section

variable (d : Driver)

def Driver.find (messageId : Nat) : Option PendingCommand :=
  (d.pending.find? fun entry => entry.1 = messageId).map Prod.snd

/-- `pending.admission_granted = true` for the entry of a message. -/
def grantAt (messageId : Nat) (entry : Nat × PendingCommand) : Nat × PendingCommand :=
  if entry.1 = messageId then (entry.1, { entry.2 with admissionGranted := true }) else entry

/-- `allow_next_invocation`; an error ends the driver. -/
def Driver.allowNextInvocation (messageId : Nat) : Option (Driver × Signal) :=
  match d.find messageId with
  | none => none
  | some pending =>
    if pending.command.invocation = false then none
    else if pending.admissionGranted = true then none
    else
      some ({ d with pending := d.pending.map (grantAt messageId) }, .granted pending.waiter)

/-- `deliver`. -/
def Driver.deliver (messageId : Nat) : Option (Driver × Signal) :=
  if messageId ∈ d.databaseIds then none
  else if messageId ∈ d.connectionLookupIds then none
  else
    match d.find messageId with
    | none => none
    | some pending =>
      some ({ d with pending := d.pending.filter fun entry => entry.1 ≠ messageId },
            .answered pending.waiter)

/-- `publish`. -/
def Driver.publish (messageId : Nat) : Option Driver :=
  if (d.find messageId).isSome = true then some d else none

/-- `call_database`. -/
def Driver.callDatabase (messageId : Option Nat) : Option Driver :=
  match messageId.filter fun id => (d.find id).isSome with
  | none => some { d with databaseCalls := d.databaseCalls ++ [none] }
  | some id =>
    if id ∈ d.databaseIds then none
    else some { d with databaseCalls := d.databaseCalls ++ [some id],
                       databaseIds := id :: d.databaseIds }

/-- `load_connections`. -/
def Driver.loadConnections (messageId : Nat) : Option Driver :=
  match d.find messageId with
  | none => none
  | some pending =>
    if pending.command = .evict then none
    else if messageId ∈ d.connectionLookupIds then none
    else some { d with loadingConnections := d.loadingConnections ++ [messageId],
                       connectionLookupIds := messageId :: d.connectionLookupIds }

/-- The arm of `run` for messages of the actor's code. -/
def Driver.receive : ClientMessage → Option (Driver × Signal)
  | .residency => some (d, .quiet)
  | .readyForInvocation id => d.allowNextInvocation id
  | .reply id => d.deliver id
  | .socketEffects id => (d.publish id).map (·, .quiet)
  | .databaseCall id => (d.callDatabase id).map (·, .quiet)
  | .getConnections id => (d.loadConnections id).map (·, .quiet)
  | .actorCall => some (d, .quiet)
  | .log => some (d, .quiet)
  | .warm => none
  | .attach => none

/-- `enqueue`; the environment says whether the command can be encoded and
written. -/
def Driver.enqueue (pending : PendingCommand) (encoded written : Bool) :
    Option (Driver × Signal) :=
  let messageId := d.nextMessageId
  if messageId + 1 < 2 ^ 64 then
    let d := { d with nextMessageId := messageId + 1 }
    if encoded = true then
      if written = true then
        some ({ d with pending := (d.pending.filter fun entry => entry.1 ≠ messageId) ++
                  [(messageId, pending)] }, .quiet)
      else none
    else some (d, .answered pending.waiter)
  else none

/-- `handle_command`. -/
def Driver.handleCommand (encoded written : Bool) :
    ExecutorRequest → Option (Driver × Signal)
  | .exchange pending => d.enqueue pending encoded written
  | .ready => if encoded = true ∧ written = true then some (d, .quiet) else none

/-- The arm for a database call that has ended. -/
def Driver.databaseCalled (messageId : Option Nat) (written : Bool) :
    Option (Driver × Signal) :=
  let d := { d with
    databaseCalls := d.databaseCalls.erase messageId
    databaseIds := match messageId with
      | some id => d.databaseIds.erase id
      | none => d.databaseIds }
  if written = true then some (d, .quiet) else none

/-- The arm for a connection lookup that has ended. -/
def Driver.connectionsLoaded (messageId : Nat) (written : Bool) : Option (Driver × Signal) :=
  let d := { d with loadingConnections := d.loadingConnections.erase messageId
                    connectionLookupIds := d.connectionLookupIds.erase messageId }
  if written = true then some (d, .quiet) else none

end

/-! ## The mailbox -/

/-- `ActorOperation`. -/
inductive Operation
  | activate
  | method
  | socket (disconnect : Bool)
deriving DecidableEq, Repr

/-- The command of `run_request` for an operation. -/
def Operation.command : Operation → Command
  | .activate => .hydrate
  | .method => .invoke
  | .socket _ => .websocketEvent

/-- A request, and whether it passes `validate`. -/
structure Request where
  operation : Operation
  valid : Bool
deriving DecidableEq, Repr

/-- Where `run_request` is: before it uses the executor, waiting for its reply,
or past it. -/
inductive Progress
  | preparing
  | waiting
  | answered
deriving DecidableEq, Repr

/-- A future in `running`. -/
structure Running where
  id : Nat
  operation : Operation
  progress : Progress
deriving DecidableEq, Repr

/-- Its reply, or an error in its place, has arrived. -/
def Running.answer (r : Running) : Running :=
  if r.progress = .waiting then { r with progress := .answered } else r

/-- What `run_request` can return: the executor is invoked for methods and
socket events only. -/
def Running.returns (r : Running) (c : Finished) : Bool :=
  match r.progress with
  | .preparing => !c.executed
  | .waiting => false
  | .answered => c.executed == decide (r.operation ≠ .activate)

/-- What follows an eviction: the mailbox returns, or it goes on with the end
of `executed`. -/
inductive AfterEvict
  | stop
  | settle (id : Nat)
deriving DecidableEq, Repr

/-- Where the mailbox is in `run`. -/
inductive Phase
  /-- in the loop of `start_ready` -/
  | startReady
  /-- in `start`, after `borrow_and_update` -/
  | starting (request : Request)
  | select
  | evicting (answered : Bool) (next : AfterEvict)
  | stopped
deriving DecidableEq, Repr

/-- `Actor`. -/
structure Actor where
  pending : List Request
  running : List Running
  nextInvocation : Nat -- a `u64`, not bounded here
  blockedOn : Option Nat
  interleaved : Bool
  hydrating : Bool
  draining : Bool
  isOpen : Bool
  phase : Phase
deriving DecidableEq, Repr

section

variable (m : Actor)

/-- `rejection`. -/
def Actor.rejected (request : Request) : Bool :=
  (m.draining && request.operation != .socket true) || !request.valid

/-- The body of `start` after `borrow_and_update`. -/
def Actor.start (request : Request) : Actor :=
  { m with
    nextInvocation := m.nextInvocation + 1
    blockedOn := some (m.nextInvocation + 1)
    hydrating := decide (request.operation = .activate)
    running := m.running ++ [⟨m.nextInvocation + 1, request.operation, .preparing⟩]
    phase := .startReady }

/-- The first lines of `executed`, with `running.next()`. -/
def Actor.take (id : Nat) (c : Finished) : Actor :=
  { m with
    hydrating := false
    interleaved := m.interleaved || c.interleaved
    running := m.running.filter fun r => r.id ≠ id }

/-- The end of `executed`. -/
def Actor.settle (id : Nat) : Actor :=
  { m with
    blockedOn := if m.blockedOn = some id then none else m.blockedOn
    phase := .startReady }

/-- `run` returns, and the mailbox is dropped. -/
def Actor.stop : Actor := { m with pending := [], running := [], phase := .stopped }

/-- The waiting requests that `p` picks out have their answer. -/
def Actor.answerWhere (p : Nat → Bool) : Actor :=
  { m with running := m.running.map fun r => if p r.id = true then r.answer else r }

/-- The eviction has its answer. -/
def Actor.answerEvict : Actor :=
  match m.phase with
  | .evicting _ next => { m with phase := .evicting true next }
  | _ => m

/-- A reply arrives at the one who waits for it. -/
def Actor.answer : Waiter → Actor
  | .request id => m.answerWhere fun other => other = id
  | .mailbox => m.answerEvict

end

/-! ## Both together -/

/-- The log, newest entry first.  `admitted` records the request that the
mailbox was blocked on and whose signals let it go on. -/
inductive Event
  | started (id : Nat) (hydration : Bool)
  | granted (waiter : Waiter)
  | completed (id : Nat)
  | admitted (id : Nat) (signals : List Waiter)
deriving DecidableEq, Repr

/-- The mailbox, the driver, the channel of commands between them, the channel
`admission`, and the log. -/
structure World where
  actor : Actor
  driver : Driver
  commands : List ExecutorRequest
  admission : Watch Waiter
  log : List Event
deriving DecidableEq, Repr

def World.initial : World where
  actor := ⟨[], [], 0, none, false, false, false, true, .startReady⟩
  driver := ⟨true, [], 1, [], [], [], []⟩
  commands := []
  admission := Watch.fresh
  log := []

section

variable (w : World)

/-- The driver ends; everything it holds is dropped, and who waits gets an
error. -/
def World.stopDriver : World :=
  { w with
    actor := (w.actor.answerWhere fun _ => true).answerEvict
    driver := { w.driver with running := false, pending := [] }
    commands := [] }

/-- The driver has made a step. -/
def World.signal (d : Driver) : Signal → World
  | .quiet => { w with driver := d }
  | .granted waiter =>
    { w with driver := d, admission := w.admission.send waiter,
             log := .granted waiter :: w.log }
  | .answered waiter => { w with driver := d, actor := w.actor.answer waiter }

/-- The driver makes a step, or ends with an error. -/
def World.drive : Option (Driver × Signal) → World
  | some (d, signal) => w.signal d signal
  | none => w.stopDriver

/-- `evict`: the mailbox sends a command and waits for the reply. -/
def World.evict (next : AfterEvict) : World :=
  if w.driver.running = true then
    { w with actor := { w.actor with phase := .evicting false next },
             commands := w.commands ++ [.exchange ⟨.evict, .mailbox, false⟩] }
  else { w with actor := { w.actor with phase := .evicting true next } }

def World.stop : World := { w with actor := w.actor.stop }

/-- `start_ready` and the lines of `run` before `select`. -/
def World.advance : World :=
  match w.actor.blockedOn, w.actor.pending with
  | none, request :: rest =>
    if w.actor.rejected request = true then
      { w with actor := { w.actor with pending := rest } }
    else
      { w with actor := { w.actor with pending := rest, phase := .starting request },
               admission := w.admission.borrowAndUpdate }
  | _, _ =>
    if w.actor.draining = true ∧ w.actor.running = [] ∧ w.actor.pending = [] then
      w.evict .stop
    else if w.actor.isOpen = false ∧ w.actor.running = [] then w.stop
    else { w with actor := { w.actor with phase := .select } }

/-- `start`. -/
def World.start (request : Request) : World :=
  { w with actor := w.actor.start request,
           log := .started (w.actor.nextInvocation + 1)
             (decide (request.operation = .activate)) :: w.log }

/-- `exchange`, called by `run_request`. -/
def World.exchange (r : Running) : World :=
  let progress : Progress := if w.driver.running = true then .waiting else .answered
  let actor := { w.actor with running := w.actor.running.map fun other =>
    if other.id = r.id then { other with progress := progress } else other }
  if w.driver.running = true then
    { w with actor := actor, commands := w.commands ++
        [.exchange ⟨r.operation.command, .request r.id, false⟩] }
  else { w with actor := actor }

/-- `executed`; `stopped` tells whether the database service has stopped. -/
def World.executed (id : Nat) (c : Finished) (stopped : Bool) : World :=
  let taken := { w with actor := w.actor.take id c, log := .completed id :: w.log }
  match recoveryOf w.actor.interleaved stopped c with
  | .keep => { taken with actor := taken.actor.settle id }
  | .evict => taken.evict (.settle id)
  | .reset => taken.evict (.settle id)
  | .stop => taken.evict .stop

/-- The arm of `admitted`. -/
def World.pass (id : Nat) : World :=
  { w with actor := { w.actor with interleaved := true, blockedOn := none,
                                   phase := .startReady },
           admission := w.admission.borrowAndUpdate,
           log := .admitted id w.admission.unseen :: w.log }

/-- `ActorMessage`. -/
inductive Message
  | request (request : Request)
  | drain
deriving DecidableEq, Repr

/-- The arm of `requests.recv()`. -/
def Actor.receive (m : Actor) : Option Message → Actor
  | some (.request request) =>
    if m.rejected request = true then { m with phase := .startReady }
    else { m with pending := m.pending ++ [request], phase := .startReady }
  | some .drain => { m with draining := true, phase := .startReady }
  | none => { m with isOpen := false, phase := .startReady }

end

/-- One step of the mailbox, of a request it runs, or of the driver. -/
inductive Action
  /-- the mailbox, outside `select` and evictions -/
  | advance
  /-- a request calls the executor -/
  | exchange (id : Nat)
  /-- the arms of `select` -/
  | completed (id : Nat) (c : Finished) (stopped : Bool)
  | cancelled
  | admitted
  | admissionClosed
  | received (message : Option Message)
  /-- the eviction has been answered -/
  | evicted
  /-- the arms of the driver -/
  | client (message : ClientMessage)
  | databaseCalled (messageId : Option Nat) (written : Bool)
  | connectionsLoaded (messageId : Nat) (written : Bool)
  | command (encoded written : Bool)
  /-- the connection fails, or a task of the driver does -/
  | disconnected
  /-- `mark_ready` -/
  | markReady
deriving DecidableEq, Repr

def Action.ofDriver : Action → Bool
  | .client _ => true
  | .databaseCalled _ _ => true
  | .connectionsLoaded _ _ => true
  | .command _ _ => true
  | .disconnected => true
  | .markReady => true
  | _ => false

/-- The steps of the driver. -/
def stepDriver (w : World) : Action → Option World
  | .client message => some (w.drive (w.driver.receive message))
  | .databaseCalled id written =>
    if id ∈ w.driver.databaseCalls then some (w.drive (w.driver.databaseCalled id written))
    else none
  | .connectionsLoaded id written =>
    if id ∈ w.driver.loadingConnections then
      some (w.drive (w.driver.connectionsLoaded id written))
    else none
  | .command encoded written =>
    match w.commands with
    | [] => none
    | request :: rest =>
      some ({ w with commands := rest }.drive
        (w.driver.handleCommand encoded written request))
  | .disconnected => some w.stopDriver
  | .markReady => some { w with commands := w.commands ++ [.ready] }
  | _ => none

/-- The steps in `select`, among them those of the requests in `running`. -/
def stepSelect (w : World) : Action → Option World
  | .exchange id =>
    match w.actor.running.find? fun r => r.id = id with
    | some r => if r.progress = .preparing then some (w.exchange r) else none
    | none => none
  | .completed id c stopped =>
    match w.actor.running.find? fun r => r.id = id with
    | some r => if r.returns c = true then some (w.executed id c stopped) else none
    | none => none
  | .cancelled => some (w.evict .stop)
  | .admitted =>
    match w.actor.blockedOn with
    | some id =>
      if w.actor.hydrating = false ∧ w.admission.hasChanged = true then some (w.pass id)
      else none
    | none => none
  | .admissionClosed =>
    if w.actor.blockedOn.isSome = true ∧ w.actor.hydrating = false ∧
        w.driver.running = false then some w.stop
    else none
  | .received message =>
    if w.actor.isOpen = true then some { w with actor := w.actor.receive message } else none
  | _ => none

def step (w : World) (a : Action) : Option World :=
  if a.ofDriver = true then
    if w.driver.running = true then stepDriver w a else none
  else
    match w.actor.phase, a with
    | .startReady, .advance => some w.advance
    | .starting request, .advance => some (w.start request)
    | .select, a => stepSelect w a
    | .evicting true .stop, .evicted => some w.stop
    | .evicting true (.settle id), .evicted => some { w with actor := w.actor.settle id }
    | _, _ => none

end DurableActors.Ports.Mailbox
