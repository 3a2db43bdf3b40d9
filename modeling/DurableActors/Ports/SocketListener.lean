import DurableActors.Ports.SocketQueue

/-!
# The listener, step by step

The command that the listener is at stays pending until it is answered, so a step of
the listener takes the head of the queue or leaves the queue alone.  `Step` says what
every step does, branch by branch; the invariants of the bus go through its cases.
-/

namespace DurableActors.Ports.SocketBus

open Verified

variable {K : Type} [DecidableEq K]

/-! ## Where the listener is -/

/-- The command the listener is at. -/
def Listener.current : Listener K → List (Command K)
  | .handling command => [command]
  | .loading actor (.reply i) | .loaded actor _ _ (.reply i) => [.subscribe actor true i]
  | _ => []

/-- The actors that are still to be restored. -/
def Listener.todo : Listener K → List K
  | .resubscribing todo => todo
  | .loading actor (.restore rest) | .loaded actor _ _ (.restore rest) => actor :: rest
  | _ => []

/-- The session is being set up. -/
def Listener.restoring : Listener K → Bool
  | .resubscribing _ | .loading _ (.restore _) | .loaded _ _ _ (.restore _) => true
  | _ => false

/-- There is no session. -/
def Listener.down : Listener K → Bool
  | .offline | .failed | .stopped => true
  | _ => false

/-- The actor whose auto-response is being loaded. -/
def Listener.loads : Listener K → Option K
  | .loading actor _ | .loaded actor _ _ _ => some actor
  | _ => none

/-- The commands that are not yet answered. -/
def World.pending (w : World K) : List (Command K) := w.listener.current ++ w.bus.commands

omit [DecidableEq K] in
theorem World.pending_at {w : World K} {listener : Listener K} (h : w.listener = listener) :
    w.pending = listener.current ++ w.bus.commands := by
  rw [World.pending, h]

def WatchState.settled (state : WatchState) : Bool :=
  state = .answered true || state = .watching

/-! ## Small facts -/

theorem WatchState.settled_ne_ended {state : WatchState} (h : state.settled = true) :
    state ≠ .ended := by
  rintro rfl
  cases h

omit [DecidableEq K] in
theorem Listener.restoring_of_mem_todo {listener : Listener K} {actor : K}
    (h : actor ∈ listener.todo) : listener.restoring = true := by
  unfold Listener.todo at h
  split at h
  · rfl
  · rfl
  · rfl
  · cases h

theorem World.channels_subscribe (w : World K) (actor : K) :
    (w.subscribe actor).connection.channels actor = true := by
  unfold World.subscribe
  by_cases hchannel : w.connection.channels actor = true
  · rwa [if_pos hchannel]
  · rw [if_neg hchannel]
    exact Function.update_self ..

theorem World.channels_subscribe_of_ne {w : World K} {actor other : K} (h : other ≠ actor) :
    (w.subscribe actor).connection.channels other = w.connection.channels other := by
  unfold World.subscribe
  split
  · rfl
  · exact Function.update_of_ne h ..

theorem World.subscribe_of_subscribed {w : World K} {actor : K}
    (h : w.connection.channels actor = true) : w.subscribe actor = w := by
  rw [World.subscribe, if_pos h]

theorem World.fresh_subscribe_of_ne {w : World K} {actor other : K} (h : other ≠ actor) :
    (w.subscribe actor).fresh other = w.fresh other := by
  unfold World.subscribe
  split
  · rfl
  · exact Function.update_of_ne h ..

@[simp] theorem World.bus_subscribe (w : World K) (actor : K) :
    (w.subscribe actor).bus = w.bus := by
  unfold World.subscribe
  split <;> rfl

@[simp] theorem World.listener_subscribe (w : World K) (actor : K) :
    (w.subscribe actor).listener = w.listener := by
  unfold World.subscribe
  split <;> rfl

@[simp] theorem World.connected_subscribe (w : World K) (actor : K) :
    (w.subscribe actor).connected = w.connected := by
  unfold World.subscribe
  split <;> rfl

@[simp] theorem World.generation_subscribe (w : World K) (actor : K) :
    (w.subscribe actor).generation = w.generation := by
  unfold World.subscribe
  split <;> rfl

@[simp] theorem World.stream_subscribe (w : World K) (actor : K) :
    (w.subscribe actor).connection.stream = w.connection.stream := by
  unfold World.subscribe
  split <;> rfl

omit [DecidableEq K] in
@[simp] theorem Connection.channels_deliver (c : Connection K) (p : Publication K) :
    (c.deliver p).channels = c.channels := by
  unfold Connection.deliver
  split <;> rfl

/-! ## Every step -/

/-- The steps, by what they find and leave. -/
inductive Step (w : World K) : Action K → World K → Prop
  | check (actor : K) (checked : List K) :
      Step w (.check actor) { w with bus := { w.bus with checked := checked } }
  | enter {i : Nat} {actor : K} (hchecked : w.bus.checked[i]? = some actor) :
      Step w (.enter i)
        { w with bus := { w.bus with checked := w.bus.checked.eraseIdx i }.enter actor }
  | ready {i : Nat} {actor : K} (hget : w.bus.watches[i]? = some ⟨actor, .answered true⟩) :
      Step w (.ready i) { w with bus := w.bus.setState i .watching }
  | leave {i : Nat} {watch : Watch K} (hget : w.bus.watches[i]? = some watch)
      (hstate : watch.state ≠ .ended) :
      Step w (.leave i) { w with bus := (w.bus.setState i .ended).unwatch watch.actor }
  | publish (actor : K) (effects : List Effect) :
      Step w (.publish actor effects) { w with redis := w.redis.write actor effects }
  | send {i : Nat} {p : Publication K} (hget : w.redis.publishing[i]? = some p) :
      Step w (.send i)
        { w with
          redis := { w.redis with publishing := w.redis.publishing.eraseIdx i }
          connection := w.connection.deliver p }
  | abandon (i : Nat) :
      Step w (.abandon i)
        { w with redis := { w.redis with publishing := w.redis.publishing.eraseIdx i } }
  | expire {actor : K}
      (hnone : ¬ ∃ p ∈ w.redis.publishing, p.actor = actor ∧ p.write ≠ none) :
      Step w (.expire actor)
        { w with
          redis :=
            { w.redis with
              history := Function.update w.redis.history actor (w.redis.history actor ++ [none]) } }
  | connect (hlistener : w.listener = .offline) :
      Step w .connect { w with listener := .resubscribing w.bus.subscribed, connection := {} }
  | restore {actor : K} {rest : List K} (hlistener : w.listener = .resubscribing (actor :: rest)) :
      Step w .confirm { w.subscribe actor with listener := .loading actor (.restore rest) }
  | load {actor : K} {i : Nat} (hlistener : w.listener = .handling (.subscribe actor true i)) :
      Step w .confirm { w.subscribe actor with listener := .loading actor (.reply i) }
  | subscribe {actor : K} {i : Nat}
      (hlistener : w.listener = .handling (.subscribe actor false i)) :
      Step w .confirm ((w.subscribe actor).afterLoad (.reply i))
  | unsubscribe {actor : K} (hlistener : w.listener = .handling (.unsubscribe actor)) :
      Step w .confirm
        { w with
          connection := { w.connection with
            channels := Function.update w.connection.channels actor false }
          listener := .idle }
  | read {actor : K} {job : Job K} (hlistener : w.listener = .loading actor job) :
      Step w .read
        { w with
          listener :=
            .loaded actor (w.redis.stored actor) ((w.redis.history actor).length - 1) job }
  | apply {actor : K} {stored : Option AutoResponse} {n : Nat} {job : Job K}
      (hlistener : w.listener = .loaded actor stored n job) :
      Step w .apply (World.afterLoad
        { w with
          registry := Function.update w.registry actor (SocketBus.load stored)
          fresh := Function.update w.fresh actor true } job)
  | online (hlistener : w.listener = .resubscribing []) :
      Step w .online { w with listener := .idle, connected := true, generation := w.generation + 1 }
  | take {command : Command K} {rest : List (Command K)} (hlistener : w.listener = .idle)
      (hcommands : w.bus.commands = command :: rest) :
      Step w .take { w with bus := { w.bus with commands := rest }, listener := .handling command }
  | receive {p : Publication K} {rest : List (Publication K)} (hlistener : w.listener = .idle)
      (hstream : w.connection.stream = p :: rest) :
      Step w .receive ({ w with connection := { w.connection with stream := rest } }.receive p)
  | cut : Step w .cut { w with connection := { w.connection with alive := false } }
  /-- the session fails while it is set up, at an unsubscribe command, or between commands -/
  | dropped (htodo : w.listener.restoring = true ∨ w.listener.todo = []) :
      Step w .fail { w with listener := .failed }
  | refused {actor : K} {load : Bool} {i : Nat}
      (hlistener : w.listener = .handling (.subscribe actor load i)) :
      Step w .fail { w with bus := w.bus.answer i false, listener := .failed }
  | unloaded {actor : K} {i : Nat} (hlistener : w.listener = .loading actor (.reply i)) :
      Step w .fail { w with bus := w.bus.answer i false, listener := .idle }
  | disconnect (hlistener : w.listener = .failed) :
      Step w .disconnect { w with listener := .offline, connected := false }
  | stop (hlistener : w.listener = .idle ∨ w.listener = .offline) :
      Step w .stop { w with listener := .stopped, connected := false }

/-- A step is one of those listed. -/
theorem Step.of_step {w w' : World K} {action : Action K} (hstep : step w action = some w') :
    Step w action w' := by
  have hall : Transition.Ensures (Step w action) (step w action) := by
    fun_cases step w action with
    | case1 actor => exact .check actor _
    | case2 actor => exact .check actor w.bus.checked
    | case3 i actor hchecked => exact .enter hchecked
    | case5 i actor hget => exact .ready hget
    | case8 i actor state hget hstate => exact .leave hget fun hended => hstate (.inl hended)
    | case10 actor effects => exact .publish actor effects
    | case11 i p hget => exact .send hget
    | case13 i => exact .abandon i
    | case16 actor hcase => exact .expire fun hpublishing => hcase (.inr hpublishing)
    | case17 hlistener => exact .connect hlistener
    | case19 _ actor rest hlistener => exact .restore hlistener
    | case20 _ actor i hlistener => exact .load hlistener
    | case21 _ actor load i hlistener hload =>
      obtain rfl := Bool.eq_false_iff.mpr hload
      exact .subscribe hlistener
    | case22 _ actor hlistener => exact .unsubscribe hlistener
    | case25 actor job hlistener => exact .read hlistener
    | case27 actor stored write job hlistener => exact .apply hlistener
    | case29 hlistener => exact .online hlistener
    | case31 command rest hcommands hlistener => exact .take hlistener hcommands
    | case33 p rest hstream hlistener => exact .receive hlistener hstream
    | case35 => exact .cut
    | case36 todo hlistener => exact .dropped (.inl (by rw [hlistener]; rfl))
    | case37 actor rest hlistener => exact .dropped (.inl (by rw [hlistener]; rfl))
    | case38 actor hlistener => exact .dropped (.inr (by rw [hlistener]; rfl))
    | case39 actor load i hlistener => exact .refused hlistener
    | case40 actor i hlistener => exact .unloaded hlistener
    | case42 hlistener => exact .dropped (.inr (by rw [hlistener]; rfl))
    | case44 hlistener => exact .disconnect hlistener
    | case46 hlistener => exact .stop (.inl hlistener)
    | case47 hlistener => exact .stop (.inr hlistener)
    | _ => trivial
  exact hall.of_eq hstep

end DurableActors.Ports.SocketBus
