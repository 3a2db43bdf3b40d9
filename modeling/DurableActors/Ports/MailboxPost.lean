import DurableActors.Ports.MailboxAdmission

/-!
# Who owns a submitted request

`submit_traced` of `host/actor_host.rs` puts a request into the channel of the
mailbox and waits for its reply channel.  From there the request is owned in turn by
the channel, the queue `pending`, `start`, a future in `running`, and `executed`
while it evicts; it is answered by `finish`, by `submit_traced` itself when the
channel is closed, by `Drop`, or by being dropped, which the caller reads as
`outcome_unknown`.

A `Post` is the mailbox with its channel, and next to each request in the mailbox the
caller who waits for it.  The mailbox may be dropped wherever it waits or runs the
code of others: when its task panics or is aborted.  The first poll is such a point
as well.
-/

namespace DurableActors.Ports.Mailbox

open Verified
open HostRequest (Recovery Finished Result recoveryOf)

/-! ## State -/

/-- What `submit_traced` returns: `HostUnavailable` from the mailbox, the error of
`validate`, the result of a completion, or `outcome_unknown`. -/
inductive Answer
  | unavailable
  | invalid
  | completed (result : Result)
  | unknown
deriving DecidableEq, Repr

/-- A message in the channel. -/
inductive Letter
  | request (caller : Nat)
  | drain
deriving DecidableEq, Repr

/-- The mailbox, the requests submitted so far, by caller, and who owns them.  `held`
is the request of `executed` with the answer it will get.  The last four fields
record what was answered, what was started and whether the mailbox was draining
then, which futures were dropped in `running`, and that the loop has ended because
everything was drained. -/
structure Post where
  world : World
  requests : List Request
  channel : List Letter
  senders : Bool
  pending : List Nat
  starting : Option Nat
  running : List (Nat × Nat)
  held : Option (Nat × Answer)
  replies : List (Nat × Answer)
  started : List (Nat × Operation × Bool)
  dropped : List Nat
  drained : Bool
deriving DecidableEq, Repr

def Post.initial : Post where
  world := .initial
  requests := []
  channel := []
  senders := true
  pending := []
  starting := none
  running := []
  held := none
  replies := []
  started := []
  dropped := []
  drained := false

/-- The caller of a message. -/
def Letter.caller : Letter → Option Nat
  | .request caller => some caller
  | .drain => none

section

variable (p : Post)

/-- Those whose request is somewhere. -/
def Post.owners : List Nat :=
  p.channel.filterMap Letter.caller ++ p.pending ++ p.starting.toList ++
    p.running.map Prod.snd ++ p.held.toList.map Prod.fst

/-- The mailbox is gone. -/
def Post.closed : Bool := decide (p.world.actor.phase = .stopped)

/-! ## Steps -/

def Post.reply (caller : Nat) (answer : Answer) : Post :=
  { p with replies := (caller, answer) :: p.replies }

/-- The answer of `rejection`. -/
def Actor.rejection (m : Actor) (request : Request) : Answer :=
  if m.draining = true ∧ request.operation ≠ .socket true then .unavailable else .invalid

/-- `Drop for Actor`, and the drop of its fields. -/
def Post.drop : Post :=
  { p with
    world := p.world.stop
    channel := []
    pending := []
    starting := none
    running := []
    held := none
    dropped := p.running.map Prod.snd ++ p.dropped
    replies :=
      (p.pending.map fun caller => (caller, .unavailable)) ++
      ((p.channel.filterMap Letter.caller).map fun caller => (caller, .unavailable)) ++
      (p.running.map fun entry => (entry.2, .unknown)) ++
      (p.starting.toList.map fun caller => (caller, .unknown)) ++
      (p.held.toList.map fun entry => (entry.1, .unknown)) ++ p.replies }

/-- The end of `run`. -/
def Post.close : Post := if p.closed = true then p.drop else p

/-- `start_ready` and the lines of `run` before `select`; `m` is the mailbox before
them. -/
def Post.advanced (m : Actor) : Post :=
  match m.blockedOn, m.pending, p.pending with
  | none, request :: _, caller :: rest =>
    if m.rejected request = true then
      { p with pending := rest }.reply caller (m.rejection request)
    else { p with pending := rest, starting := some caller }
  | _, _, _ =>
    if m.draining = true ∧ m.running = [] ∧ m.pending = [] then { p with drained := true }
    else p

/-- `start`. -/
def Post.begin (m : Actor) (request : Request) : Post :=
  match p.starting with
  | none => p
  | some caller =>
    { p with
      starting := none
      running := p.running ++ [(m.nextInvocation + 1, caller)]
      started := (caller, request.operation, m.draining) :: p.started }

/-- `executed`. -/
def Post.take (id : Nat) (recovery : Recovery) (result : Result) : Post :=
  match p.running.find? fun entry => entry.1 = id with
  | none => p
  | some (_, caller) =>
    let p := { p with running := p.running.filter fun entry => entry.1 ≠ id }
    match recovery with
    | .keep => p.reply caller (.completed result)
    | .evict => { p with held := some (caller, .completed result) }
    | .reset => { p with held := some (caller, .completed result) }
    | .stop => { p with held := some (caller, .unknown) }

/-- The end of `executed`, after an eviction. -/
def Post.evicted : Post :=
  match p.held with
  | none => p
  | some (caller, answer) => { p with held := none }.reply caller answer

/-- What the mailbox has done; `m` is the mailbox before it. -/
def Post.record (m : Actor) (a : Action) : Post :=
  match m.phase, a with
  | .startReady, .advance => p.advanced m
  | .starting request, .advance => p.begin m request
  | .select, .completed id c stopped => p.take id (recoveryOf m.interleaved stopped c) c.result
  | .evicting _ _, .evicted => p.evicted
  | _, _ => p

/-- A step of the mailbox, of a request it runs, or of the driver. -/
def Post.mailbox (a : Action) : Option Post :=
  (Mailbox.step p.world a).map fun world =>
    ({ p with world := world }.record p.world.actor a).close

/-- The arm of `requests.recv()`.  It returns `None` once all handles are dropped. -/
def Post.receive : Option Post :=
  match p.channel with
  | .request caller :: rest =>
    p.requests[caller]?.bind fun request =>
      (Mailbox.step p.world (.received (some (.request request)))).map fun world =>
        let p' := { p with world := world, channel := rest }
        if p.world.actor.rejected request = true then
          p'.reply caller (p.world.actor.rejection request)
        else { p' with pending := p.pending ++ [caller] }
  | .drain :: rest =>
    (Mailbox.step p.world (.received (some .drain))).map fun world =>
      { p with world := world, channel := rest }
  | [] =>
    if p.senders = true then none
    else (Mailbox.step p.world (.received none)).map fun world => { p with world := world }

/-- `submit_traced`. -/
def Post.submit (request : Request) : Post :=
  let p' := { p with requests := p.requests ++ [request] }
  if p.closed = true then p'.reply p.requests.length .unavailable
  else { p' with channel := p.channel ++ [.request p.requests.length] }

end

/-- A step of the mailbox, or of a caller. -/
inductive PostAction
  /-- `submit_traced` -/
  | submit (request : Request)
  /-- `drain` -/
  | drain
  /-- the last handle of the mailbox is dropped -/
  | release
  | receive
  | mailbox (a : Action)
  /-- the task of the mailbox panics or is aborted -/
  | abort
deriving DecidableEq, Repr

/-- A message that the mailbox receives. -/
def Action.receives : Action → Bool
  | .received _ => true
  | _ => false

/-- The mailbox holds no request in its hands and may be dropped. -/
def Phase.waits : Phase → Bool
  | .starting _ => false
  | .stopped => false
  | _ => true

def Post.step (p : Post) : PostAction → Option Post
  | .submit request => if p.senders = true then some (p.submit request) else none
  | .drain =>
    if p.senders = true ∧ p.closed = false then
      some { p with channel := p.channel ++ [.drain] }
    else none
  | .release => some { p with senders := false }
  | .receive => p.receive
  | .mailbox a => if a.receives = true then none else p.mailbox a
  | .abort => if p.world.actor.phase.waits = true then some p.drop else none

end DurableActors.Ports.Mailbox
