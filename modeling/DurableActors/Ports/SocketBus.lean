import DurableActors.Verified.Transition
import Mathlib.Data.List.Induction

/-!
# The socket bus of a gateway over Redis

A gateway with open sockets of an actor is subscribed to the actor's channel.
`watch` counts a socket and sends a subscribe command to the listener task, the
first one with a load of the actor's auto-response; `unwatch` sends the
unsubscribe command when the count reaches zero.  The listener owns the pub/sub
connection: it carries out the commands, applies what is published, and after a
lost connection subscribes again to every actor that is counted.

An auto-response is published in two commands: the value is written to a key of
the actor, then the effects are published on its channel.  Every command is its
own step, so a run is an interleaving of any number of watches, publishers and
the listener, with any of the commands failing.
-/

namespace DurableActors.Ports.SocketBus

open Verified

/-! ## Effects and the registry -/

/-- The stored form of an auto-response. -/
structure AutoResponse where
  request : Option String
  response : Option String
deriving DecidableEq, Repr

/-- `ActorSocketEffect`; the registry keeps the auto-response of an actor apart from
its connections, so all other effects are one. -/
inductive Effect
  | setAutoResponse (request response : Option String)
  | other
deriving DecidableEq, Repr

/-- `request.zip(response)`. -/
def AutoResponse.pair (r : AutoResponse) : Option (String × String) :=
  match r.request, r.response with
  | some request, some response => some (request, response)
  | _, _ => none

/-- `SocketRegistry::apply_one` on the auto-response of the actor. -/
def applyOne (current : Option (String × String)) : Effect → Option (String × String)
  | .setAutoResponse request response => AutoResponse.pair ⟨request, response⟩
  | .other => current

/-- `SocketRegistry::apply`, effect by effect. -/
def apply (current : Option (String × String)) (effects : List Effect) :
    Option (String × String) :=
  effects.foldl applyOne current

/-- The auto-response that `publish` stores: the last one of the effects. -/
def lastAutoResponse (effects : List Effect) : Option AutoResponse :=
  effects.reverse.findSome? fun
    | .setAutoResponse request response => some ⟨request, response⟩
    | .other => none

/-- What `publish` leaves under the key: `SET` with both parts, `DEL` otherwise. -/
def AutoResponse.store (r : AutoResponse) : Option AutoResponse :=
  if r.request.isSome && r.response.isSome then some r else none

/-- What `load_auto_response` makes of the reply to its `GET`. -/
def load (stored : Option AutoResponse) : Option (String × String) :=
  match stored with
  | some r => applyOne none (.setAutoResponse r.request r.response)
  | none => applyOne none (.setAutoResponse none none)

theorem load_store (r : AutoResponse) : load r.store = r.pair := by
  obtain ⟨request, response⟩ := r
  cases request <;> cases response <;> rfl

/-- The registry ends with the auto-response that was stored. -/
theorem apply_eq (current : Option (String × String)) (effects : List Effect) :
    apply current effects =
      match lastAutoResponse effects with
      | some r => r.pair
      | none => current := by
  induction effects using List.reverseRecOn with
  | nil => rfl
  | append_singleton effects effect ih =>
    have happly : apply current (effects ++ [effect]) =
        applyOne (apply current effects) effect := by
      simp [apply, List.foldl_append]
    cases effect with
    | setAutoResponse request response =>
      rw [happly]
      simp [lastAutoResponse, applyOne]
    | other =>
      rw [happly]
      simpa [lastAutoResponse, applyOne] using ih

/-! ## Redis -/

/-- A publication on the channel of an actor.  `write` says which of the values of
the actor's key it wrote, if any. -/
structure Publication (K : Type) where
  actor : K
  effects : List Effect
  write : Option Nat
deriving DecidableEq, Repr

/-- Redis as far as the auto-responses of the actors go. -/
structure Redis (K : Type) where
  /-- The values the key of an actor has had, the newest last. -/
  history : K → List (Option AutoResponse) := fun _ => [none]
  /-- The publishers that have written and not yet published. -/
  publishing : List (Publication K) := []

/-- What the key of the actor holds. -/
def Redis.stored {K : Type} (r : Redis K) (actor : K) : Option AutoResponse :=
  (r.history actor).getLast?.join

/-- The pub/sub connection of the listener. -/
structure Connection (K : Type) where
  channels : K → Bool := fun _ => false
  /-- Received and not yet read. -/
  stream : List (Publication K) := []
  alive : Bool := true

/-! ## Watches -/

/-- Where a call of `watch` is. -/
inductive WatchState
  | waiting
  | answered (ok : Bool)
  /-- `watch` has returned `Ok`. -/
  | watching
  /-- Uncounted again. -/
  | ended
deriving DecidableEq, Repr

/-- A call of `watch` that has been counted. -/
structure Watch (K : Type) where
  actor : K
  state : WatchState
deriving DecidableEq, Repr

/-- What a watch asks of the listener. -/
inductive Command (K : Type)
  | subscribe (actor : K) (load : Bool) (watch : Nat)
  | unsubscribe (actor : K)
deriving DecidableEq, Repr

/-- The state that the watches and the listener share. -/
structure Bus (K : Type) where
  watched : K → Option Nat := fun _ => none
  subscribed : List K := []
  commands : List (Command K) := []
  /-- The calls of `watch` that have found the bus connected and not yet counted. -/
  checked : List K := []
  watches : List (Watch K) := []

section Bus

variable {K : Type} [DecidableEq K]

/-- The part of `watch` under the lock. -/
def Bus.enter (bus : Bus K) (actor : K) : Bus K :=
  let sockets := (bus.watched actor).getD 0 + 1
  let load := sockets == 1
  { bus with
    watched := Function.update bus.watched actor (some sockets)
    subscribed := if load then bus.subscribed ++ [actor] else bus.subscribed
    commands := bus.commands ++ [.subscribe actor load bus.watches.length]
    watches := bus.watches ++ [⟨actor, .waiting⟩] }

/-- `unwatch`; the count is a `usize`. -/
def Bus.unwatch (bus : Bus K) (actor : K) : Bus K :=
  match bus.watched actor with
  | none => bus
  | some sockets =>
    let sockets := if sockets = 0 then 2 ^ 64 - 1 else sockets - 1
    if sockets = 0 then
      { bus with
        watched := Function.update bus.watched actor none
        subscribed := bus.subscribed.filter (· ≠ actor)
        commands := bus.commands ++ [.unsubscribe actor] }
    else { bus with watched := Function.update bus.watched actor (some sockets) }

def Bus.setState (bus : Bus K) (i : Nat) (state : WatchState) : Bus K :=
  { bus with watches := bus.watches.modify i fun watch => { watch with state := state } }

/-- `done.send(…)`: nobody reads it once the watch has timed out. -/
def Bus.answer (bus : Bus K) (i : Nat) (ok : Bool) : Bus K :=
  { bus with
    watches := bus.watches.modify i fun watch =>
      if watch.state = .waiting then { watch with state := .answered ok } else watch }

end Bus

/-! ## The listener -/

/-- What a load is made for: the actors left to subscribe to after a reconnect, or the
command of a watch. -/
inductive Job (K : Type)
  | restore (rest : List K)
  | reply (watch : Nat)
deriving DecidableEq, Repr

/-- Where the listener task is. -/
inductive Listener (K : Type)
  | offline
  | resubscribing (todo : List K)
  /-- Subscribed; the `GET` is next. -/
  | loading (actor : K) (job : Job K)
  /-- The reply to the `GET`, with the place of the value in the history of its key. -/
  | loaded (actor : K) (stored : Option AutoResponse) (write : Nat) (job : Job K)
  | idle
  | handling (command : Command K)
  /-- The session has ended with an error; `connected` is not yet cleared. -/
  | failed
  | stopped
deriving DecidableEq, Repr

/-- The gateway's bus, Redis as far as the bus sees it, and a record of the
subscription in force for each actor. -/
structure World (K : Type) where
  redis : Redis K := {}
  bus : Bus K := {}
  connection : Connection K := {}
  listener : Listener K := .offline
  connected : Bool := false
  generation : Nat := 0 -- a `u64`, not bounded here
  registry : K → Option (String × String) := fun _ => none
  /-- The place in its history of the value stored when the subscription was made. -/
  since : K → Nat := fun _ => 0
  /-- A stored value was loaded after the subscription was made. -/
  fresh : K → Bool := fun _ => false
  /-- The values that were delivered, by publications on the actor's channel. -/
  delivered : List (K × Nat) := []

/-- One step of a watch, a publisher, Redis or the listener. -/
inductive Action (K : Type)
  /-- A call of `watch` looks at `connected`. -/
  | check (actor : K)
  | enter (i : Nat)
  /-- A watch that was answered with success returns. -/
  | ready (i : Nat)
  /-- A watch times out or was answered with an error, or its socket has closed. -/
  | leave (i : Nat)
  /-- A publisher writes the auto-response, if there is one. -/
  | publish (actor : K) (effects : List Effect)
  /-- A publisher publishes. -/
  | send (i : Nat)
  /-- A publisher fails after its write. -/
  | abandon (i : Nat)
  | expire (actor : K)
  | connect
  /-- Redis carries out the subscribe or unsubscribe command. -/
  | confirm
  /-- Redis answers the `GET`. -/
  | read
  | apply
  | online
  | take
  | receive
  /-- The connection breaks. -/
  | cut
  /-- What the listener waits for fails. -/
  | fail
  | disconnect
  | stop
deriving DecidableEq, Repr

variable {K : Type} [DecidableEq K]

/-- The effect of `SUBSCRIBE`: nothing if the connection is subscribed already. -/
def World.subscribe (w : World K) (actor : K) : World K :=
  if w.connection.channels actor then w
  else
    { w with
      connection :=
        { w.connection with channels := Function.update w.connection.channels actor true }
      since := Function.update w.since actor ((w.redis.history actor).length - 1)
      fresh := Function.update w.fresh actor false }

/-- The write of `publish`, if its effects have an auto-response. -/
def Redis.write (r : Redis K) (actor : K) (effects : List Effect) : Redis K :=
  match lastAutoResponse effects with
  | some value =>
    { history := Function.update r.history actor (r.history actor ++ [value.store])
      publishing := r.publishing ++ [⟨actor, effects, some (r.history actor).length⟩] }
  | none => { r with publishing := r.publishing ++ [⟨actor, effects, none⟩] }

/-- A publication reaches the subscribers of its channel. -/
def Connection.deliver (c : Connection K) (p : Publication K) : Connection K :=
  if c.channels p.actor && c.alive then { c with stream := c.stream ++ [p] } else c

/-- `Shared::receive` of a publication. -/
def World.receive (w : World K) (p : Publication K) : World K :=
  { w with
    registry := Function.update w.registry p.actor (SocketBus.apply (w.registry p.actor) p.effects)
    delivered := w.delivered ++ (p.write.map fun n => (p.actor, n)).toList }

/-- What follows a load. -/
def World.afterLoad (w : World K) : Job K → World K
  | .restore rest => { w with listener := .resubscribing rest }
  | .reply i => { w with bus := w.bus.answer i true, listener := .idle }

/-- One step; `none` if it cannot be taken now. -/
def step (w : World K) : Action K → Option (World K)
  | .check actor =>
    if w.connected then some { w with bus := { w.bus with checked := w.bus.checked ++ [actor] } }
    else some w
  | .enter i =>
    match w.bus.checked[i]? with
    | some actor =>
      some { w with bus := { w.bus with checked := w.bus.checked.eraseIdx i }.enter actor }
    | none => none
  | .ready i =>
    match w.bus.watches[i]? with
    | some ⟨_, .answered true⟩ => some { w with bus := w.bus.setState i .watching }
    | _ => none
  | .leave i =>
    match w.bus.watches[i]? with
    | some ⟨actor, state⟩ =>
      if state = .ended ∨ state = .answered true then none
      else some { w with bus := (w.bus.setState i .ended).unwatch actor }
    | none => none
  | .publish actor effects => some { w with redis := w.redis.write actor effects }
  | .send i =>
    match w.redis.publishing[i]? with
    | some p => some
        { w with
          redis := { w.redis with publishing := w.redis.publishing.eraseIdx i }
          connection := w.connection.deliver p }
    | none => none
  | .abandon i =>
    if i < w.redis.publishing.length then
      some { w with redis := { w.redis with publishing := w.redis.publishing.eraseIdx i } }
    else none
  | .expire actor =>
    -- a value lasts a week, so its publisher is not between its two commands
    if w.redis.stored actor = none ∨
        ∃ p ∈ w.redis.publishing, p.actor = actor ∧ p.write ≠ none then none
    else some
      { w with
        redis :=
          { w.redis with
            history := Function.update w.redis.history actor (w.redis.history actor ++ [none]) } }
  | .connect =>
    match w.listener with
    | .offline => some { w with listener := .resubscribing w.bus.subscribed, connection := {} }
    | _ => none
  | .confirm =>
    if w.connection.alive then
      match w.listener with
      | .resubscribing (actor :: rest) =>
        some { w.subscribe actor with listener := .loading actor (.restore rest) }
      | .handling (.subscribe actor load i) =>
        if load then some { w.subscribe actor with listener := .loading actor (.reply i) }
        else some ((w.subscribe actor).afterLoad (.reply i))
      | .handling (.unsubscribe actor) => some
          { w with
            connection := { w.connection with
              channels := Function.update w.connection.channels actor false }
            listener := .idle }
      | _ => none
    else none
  | .read =>
    match w.listener with
    | .loading actor job => some
        { w with
          listener :=
            .loaded actor (w.redis.stored actor) ((w.redis.history actor).length - 1) job }
    | _ => none
  | .apply =>
    match w.listener with
    | .loaded actor stored _ job =>
      some (World.afterLoad
        { w with
          registry := Function.update w.registry actor (load stored)
          fresh := Function.update w.fresh actor true } job)
    | _ => none
  | .online =>
    match w.listener with
    | .resubscribing [] => some
        { w with listener := .idle, connected := true, generation := w.generation + 1 }
    | _ => none
  | .take =>
    match w.listener, w.bus.commands with
    | .idle, command :: rest => some
        { w with bus := { w.bus with commands := rest }, listener := .handling command }
    | _, _ => none
  | .receive =>
    match w.listener, w.connection.stream with
    | .idle, p :: rest =>
      some ({ w with connection := { w.connection with stream := rest } }.receive p)
    | _, _ => none
  | .cut => some { w with connection := { w.connection with alive := false } }
  | .fail =>
    match w.listener with
    | .resubscribing _ | .loading _ (.restore _) | .handling (.unsubscribe _) =>
      some { w with listener := .failed }
    | .handling (.subscribe _ _ i) =>
      some { w with bus := w.bus.answer i false, listener := .failed }
    | .loading _ (.reply i) => some { w with bus := w.bus.answer i false, listener := .idle }
    | .idle =>
      -- what was received and not yet read may be lost
      if w.connection.alive then none else some { w with listener := .failed }
    | _ => none
  | .disconnect =>
    match w.listener with
    | .failed => some { w with listener := .offline, connected := false }
    | _ => none
  | .stop =>
    match w.listener with
    | .idle | .offline => some { w with listener := .stopped, connected := false }
    | _ => none

end DurableActors.Ports.SocketBus
