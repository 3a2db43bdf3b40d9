import DurableActors.Ports.SocketTracking

/-!
# What a watch receives

A watch that has returned is subscribed for the rest of its session, so a
publication on its actor's channel is unread from the moment it is published
until the listener receives it.  `step_unread` is that balance for one step; the
rule for a phase that is only left for good carries it over a run.
-/

namespace DurableActors.Ports.SocketBus

open Verified

variable {K : Type} [DecidableEq K]
variable {generation i : Nat} {action : Action K} {w w' : World K}

/-! ## Published and received -/

/-- `generation()`. -/
def World.currentGeneration (w : World K) : Option Nat :=
  if w.connected then some w.generation else none

/-- What was published on the actor's channel and is not yet read. -/
def World.unread (w : World K) (actor : K) : List (Publication K) :=
  w.connection.stream.filter fun p => p.actor = actor

/-- What a step publishes on the actor's channel before the connection is lost. -/
def World.published (actor : K) (w : World K) : Action K → List (Publication K)
  | .send i =>
    (w.redis.publishing[i]?).toList.filter fun p => p.actor = actor && w.connection.alive
  | _ => []

/-- What a step receives for the actor. -/
def World.received (actor : K) (w : World K) : Action K → List (Publication K)
  | .receive => (w.connection.stream.head?).toList.filter fun p => p.actor = actor
  | _ => []

/-- A subscribed channel passes on what is published, in order. -/
theorem World.Tracked.step_unread (h : w.Tracked) (hstep : SocketBus.step w action = some w')
    {actor : K} (hchannel : w.connection.channels actor = true) (hconnected : w.connected = true) :
    w.unread actor ++ w.published actor action = w.received actor action ++ w'.unread actor := by
  have hsame : w'.connection.stream = w.connection.stream →
      w.published actor action = [] → w.received actor action = [] →
      w.unread actor ++ w.published actor action =
        w.received actor action ++ w'.unread actor := by
    intro hstream hpublished hreceived
    rw [hpublished, hreceived, World.unread, World.unread, hstream, List.append_nil,
      List.nil_append]
  cases Step.of_step hstep with
  | send hget =>
    rename_i i p
    simp only [World.published, World.received, World.unread, hget, Option.toList_some,
      List.nil_append, Connection.deliver]
    by_cases hactor : p.actor = actor
    · subst hactor
      cases halive : w.connection.alive with
      | true => simp [hchannel]
      | false => simp
    · split <;> simp [hactor]
  | receive hlistener hstream =>
    simp only [World.published, World.received, World.unread, World.receive, hstream,
      List.append_nil, List.head?_cons, Option.toList_some]
    rw [← List.filter_append]
    rfl
  | connect hlistener =>
    rw [h.offline (.inl hlistener)] at hconnected
    cases hconnected
  | restore | load | subscribe => exact hsame (w.stream_subscribe _) rfl rfl
  | @apply _ _ _ job => exact hsame (by cases job <;> rfl) rfl rfl
  | _ => exact hsame rfl rfl rfl

/-- A watch keeps its actor, and one that has returned stays until it leaves. -/
theorem step_watch (hstep : SocketBus.step w action = some w') {watch : Watch K}
    (hget : w.bus.watches[i]? = some watch) :
    ∃ after : Watch K, w'.bus.watches[i]? = some after ∧ after.actor = watch.actor ∧
      (after = watch ∨ (watch.state = .watching ∧ after.state = .ended) ∨
        (watch.state ≠ .watching ∧ watch.state ≠ .ended)) := by
  have hsame : w'.bus.watches = w.bus.watches → ∃ after : Watch K,
      w'.bus.watches[i]? = some after ∧ after.actor = watch.actor ∧
      (after = watch ∨ (watch.state = .watching ∧ after.state = .ended) ∨
        (watch.state ≠ .watching ∧ watch.state ≠ .ended)) :=
    fun hwatches => ⟨watch, by rw [hwatches]; exact hget, rfl, .inl rfl⟩
  have hanswer : ∀ j ok, w'.bus = w.bus.answer j ok → ∃ after : Watch K,
      w'.bus.watches[i]? = some after ∧ after.actor = watch.actor ∧
      (after = watch ∨ (watch.state = .watching ∧ after.state = .ended) ∨
        (watch.state ≠ .watching ∧ watch.state ≠ .ended)) := by
    intro j ok hbus
    rw [hbus, Bus.getElem?_answer, hget, Option.map_some]
    by_cases hcase : j = i ∧ watch.state = .waiting
    · rw [if_pos hcase]
      refine ⟨_, rfl, rfl, .inr (.inr ?_)⟩
      rw [hcase.2]
      exact ⟨nofun, nofun⟩
    · rw [if_neg hcase]
      exact ⟨_, rfl, rfl, .inl rfl⟩
  cases Step.of_step hstep with
  | enter =>
    have hlt := (List.getElem?_eq_some_iff.mp hget).1
    exact ⟨watch, (List.getElem?_append_left hlt).trans hget, rfl, .inl rfl⟩
  | @ready j actor hanswered =>
    show ∃ after : Watch K, (w.bus.setState j .watching).watches[i]? = some after ∧ _
    rw [Bus.getElem?_setState, hget, Option.map_some]
    by_cases hij : j = i
    · subst hij
      rw [hget] at hanswered
      cases hanswered
      rw [if_pos rfl]
      exact ⟨_, rfl, rfl, .inr (.inr ⟨nofun, nofun⟩)⟩
    · rw [if_neg hij]
      exact ⟨_, rfl, rfl, .inl rfl⟩
  | @leave j leaving hleaving hstate =>
    show ∃ after : Watch K,
      ((w.bus.setState j .ended).unwatch leaving.actor).watches[i]? = some after ∧ _
    rw [Bus.watches_unwatch, Bus.getElem?_setState, hget, Option.map_some]
    by_cases hij : j = i
    · subst hij
      rw [hget] at hleaving
      cases hleaving
      rw [if_pos rfl]
      refine ⟨_, rfl, rfl, .inr ?_⟩
      by_cases hwatching : watch.state = .watching
      · exact .inl ⟨hwatching, rfl⟩
      · exact .inr ⟨hwatching, hstate⟩
    · rw [if_neg hij]
      exact ⟨_, rfl, rfl, .inl rfl⟩
  | restore | load => exact hsame (congrArg Bus.watches (w.bus_subscribe _))
  | subscribe => exact hanswer _ true (by rw [World.afterLoad, World.bus_subscribe])
  | @apply _ _ _ job =>
    cases job with
    | restore rest => exact hsame rfl
    | reply j => exact hanswer j true rfl
  | refused | unloaded => exact hanswer _ false rfl
  | _ => exact hsame rfl

/-- The generation only changes when a session becomes connected. -/
theorem World.Tracked.step_generation (h : w.Tracked) (hstep : SocketBus.step w action = some w') :
    (w'.generation = w.generation ∧ (w'.connected = true → w.connected = true)) ∨
      (w'.generation = w.generation + 1 ∧ w.connected = false) := by
  have hsame : w'.generation = w.generation → w'.connected = w.connected →
      (w'.generation = w.generation ∧ (w'.connected = true → w.connected = true)) ∨
        (w'.generation = w.generation + 1 ∧ w.connected = false) :=
    fun hgeneration hconnected => .inl ⟨hgeneration, fun hw' => hconnected ▸ hw'⟩
  cases Step.of_step hstep with
  | online hlistener => exact .inr ⟨rfl, h.offline (.inr (by rw [hlistener]; rfl))⟩
  | restore | load | subscribe =>
    exact hsame (w.generation_subscribe _) (w.connected_subscribe _)
  | @apply _ _ _ job => cases job <;> exact hsame rfl rfl
  | disconnect | stop => exact .inl ⟨rfl, nofun⟩
  | _ => exact hsame rfl rfl

/-- The session of a generation is over. -/
def World.Past (generation : Nat) (w : World K) : Prop :=
  generation < w.generation ∨ (w.generation = generation ∧ w.connected = false)

omit [DecidableEq K] in
theorem World.currentGeneration_eq_some :
    w.currentGeneration = some generation ↔ w.connected = true ∧ w.generation = generation := by
  unfold World.currentGeneration
  cases w.connected <;> simp

omit [DecidableEq K] in
theorem World.Past.currentGeneration_ne (h : w.Past generation) :
    w.currentGeneration ≠ some generation := by
  intro heq
  obtain ⟨hconnected, hgeneration⟩ := World.currentGeneration_eq_some.mp heq
  rcases h with hlt | ⟨-, hfalse⟩
  · omega
  · rw [hconnected] at hfalse
    cases hfalse

theorem World.Past.step (h : w.Past generation) (htracked : w.Tracked)
    (hstep : SocketBus.step w action = some w') : w'.Past generation := by
  rcases htracked.step_generation hstep with ⟨hsame, hconnected⟩ | ⟨hnext, -⟩
  · rcases h with hlt | ⟨heq, hfalse⟩
    · exact .inl (by omega)
    · refine .inr ⟨by omega, ?_⟩
      by_contra htrue
      rw [hconnected (by simpa using htrue)] at hfalse
      cases hfalse
  · rcases h with hlt | ⟨heq, -⟩
    · exact .inl (by omega)
    · exact .inl (by omega)

/-- A session that is left is past. -/
theorem World.Tracked.past_of_left (h : w.Tracked) {actions : List (Action K)}
    (hrun : Transition.run SocketBus.step w actions = some w') (hle : generation ≤ w.generation)
    (hleft : .disconnect ∈ actions ∨ .stop ∈ actions) : w'.Past generation := by
  have hinv : ∀ (w : World K) (action : Action K) (w' : World K),
      w.Tracked ∧ w.Past generation → SocketBus.step w action = some w' →
      w'.Tracked ∧ w'.Past generation :=
    fun w action w' hw hstep => ⟨hw.1.step hstep, hw.2.step hw.1 hstep⟩
  induction actions generalizing w with
  | nil => rcases hleft with hmem | hmem <;> cases hmem
  | cons action rest ih =>
    obtain ⟨next, hstep, hrest⟩ := Transition.run_cons_eq_some.mp hrun
    have htracked := h.step hstep
    by_cases hnow : next.Past generation
    · exact (Transition.run_invariant hinv ⟨htracked, hnow⟩ hrest).2
    · have hleaves : ∀ {listener : Listener K},
          next = { w with listener := listener, connected := false } → next.Past generation := by
        rintro listener rfl
        rcases Nat.lt_or_eq_of_le hle with hlt | heq
        · exact .inl hlt
        · exact .inr ⟨heq.symm, rfl⟩
      have hstays : action ≠ .disconnect ∧ action ≠ .stop := by
        constructor <;> rintro rfl <;> apply hnow <;> cases Step.of_step hstep <;> exact hleaves rfl
      refine ih htracked hrest ?_ ?_
      · rcases h.step_generation hstep with ⟨hsame, -⟩ | ⟨hnext, -⟩ <;> omega
      · refine hleft.imp (fun hmem => ?_) fun hmem => ?_
        · exact (List.mem_cons.mp hmem).resolve_left (Ne.symm hstays.1)
        · exact (List.mem_cons.mp hmem).resolve_left (Ne.symm hstays.2)

/-- A watch that has returned, in the session of a generation. -/
structure World.Serving (w : World K) (i : Nat) (actor : K) (generation : Nat) : Prop where
  tracked : w.Tracked
  watching : w.bus.watches[i]? = some ⟨actor, .watching⟩
  current : w.currentGeneration = some generation

/-- The watch has left, or its session is over. -/
def World.Served (w : World K) (i : Nat) (generation : Nat) : Prop :=
  w.Tracked ∧ ((∃ actor, w.bus.watches[i]? = some ⟨actor, .ended⟩) ∨ w.Past generation)

theorem World.Serving.channels {actor : K} (h : w.Serving i actor generation) :
    w.connection.channels actor = true := by
  have hconnected := (World.currentGeneration_eq_some.mp h.current).1
  refine (h.tracked.settled (.inl hconnected) h.watching rfl).resolve_right fun htodo => ?_
  have hrestoring := Listener.restoring_of_mem_todo htodo
  rw [h.tracked.offline (.inr hrestoring)] at hconnected
  cases hconnected

theorem World.Serving.step {actor : K} (h : w.Serving i actor generation)
    (hstep : SocketBus.step w action = some w') :
    w'.Serving i actor generation ∨ w'.Served i generation := by
  have htracked := h.tracked.step hstep
  obtain ⟨hconnected, hgeneration⟩ := World.currentGeneration_eq_some.mp h.current
  obtain ⟨⟨actor', state⟩, hget, hactor, hstate⟩ := step_watch hstep h.watching
  obtain rfl : actor' = actor := hactor
  rcases hstate with hsame | ⟨-, hended⟩ | ⟨hne, -⟩
  · cases hsame
    by_cases hpast : w'.Past generation
    · exact .inr ⟨htracked, .inr hpast⟩
    · refine .inl ⟨htracked, hget, World.currentGeneration_eq_some.mpr ?_⟩
      rcases h.tracked.step_generation hstep with ⟨hsame, -⟩ | ⟨-, hfalse⟩
      · have heq : w'.generation = generation := by omega
        refine ⟨?_, heq⟩
        by_contra hfalse
        exact hpast (.inr ⟨heq, by simpa using hfalse⟩)
      · rw [hconnected] at hfalse
        cases hfalse
  · obtain rfl : state = .ended := hended
    exact .inr ⟨htracked, .inl ⟨actor', hget⟩⟩
  · exact absurd rfl hne

theorem World.Served.step (h : w.Served i generation)
    (hstep : SocketBus.step w action = some w') : w'.Served i generation := by
  refine ⟨h.1.step hstep, ?_⟩
  rcases h.2 with ⟨actor, hget⟩ | hpast
  · obtain ⟨after, hget', -, hstate⟩ := step_watch hstep hget
    rcases hstate with rfl | ⟨hwatching, -⟩ | ⟨-, hne⟩
    · exact .inl ⟨actor, hget'⟩
    · cases hwatching
    · exact absurd rfl hne
  · exact .inr (hpast.step h.1 hstep)

theorem World.Served.not_serving {actor : K} (h : w.Served i generation) :
    ¬ w.Serving i actor generation := by
  intro hserving
  rcases h.2 with ⟨actor', hget⟩ | hpast
  · rw [hserving.watching] at hget
    cases hget
  · exact hpast.currentGeneration_ne hserving.current

/-- In every run: the resubscription list has no actor twice, no count is zero and none
underflows, and when the listener of a connected bus has no command left, exactly the
actors with a positive count are subscribed.  From any state of the run on, a watch that
has returned and stays receives what was unread and what is published, in order, as long
as the generation is the same and until the connection is lost; once the session is left
the generation is another one. -/
theorem subscriptions_track_watchers {actions : List (Action K)} {w : World K}
    (hrun : Transition.run SocketBus.step {} actions = some w) :
    w.bus.subscribed.Nodup ∧ (∀ actor, w.bus.watched actor ≠ some 0) ∧
    (∀ (i : Nat) (watch : Watch K), w.bus.watches[i]? = some watch → watch.state ≠ .ended →
      ∃ n, w.bus.watched watch.actor = some (n + 1)) ∧
    (w.connected = true → w.listener = .idle → w.bus.commands = [] →
      ∀ actor, w.connection.channels actor = true ↔ ∃ n, w.bus.watched actor = some (n + 1)) ∧
    ∀ (later : List (Action K)) (w' : World K), Transition.run SocketBus.step w later = some w' →
      ∀ (i : Nat) (actor : K) (generation : Nat), w.bus.watches[i]? = some ⟨actor, .watching⟩ →
        w'.bus.watches[i]? = some ⟨actor, .watching⟩ → w.currentGeneration = some generation →
        (w'.currentGeneration = some generation →
          w.unread actor ++ Transition.outputs SocketBus.step (World.published actor) w later =
            Transition.outputs SocketBus.step (World.received actor) w later ++ w'.unread actor) ∧
        (.disconnect ∈ later ∨ .stop ∈ later → w'.currentGeneration ≠ some generation) := by
  have htracked := World.tracked_run hrun
  have hwatched := htracked.queue.counted.watched
  have hpositive : ∀ actor, w.bus.count actor ≠ 0 ↔ ∃ n, w.bus.watched actor = some (n + 1) := by
    intro actor
    rw [hwatched]
    cases w.bus.count actor with
    | zero => simp
    | succ n => simp
  refine ⟨htracked.nodup, fun actor hzero => ?_, fun i watch hget hstate => ?_, ?_, ?_⟩
  · rw [hwatched] at hzero
    split at hzero
    · cases hzero
    · rename_i hne
      exact hne (Option.some.inj hzero)
  · have hlive : w.bus.Live watch.actor i :=
      ⟨watch, hget, Watch.counts_iff.mpr ⟨rfl, hstate⟩⟩
    exact (hpositive watch.actor).mp hlive.count_ne_zero
  · intro _ hidle hempty actor
    have hends := htracked.ends actor
    have hpending : w.pending = [] := by
      rw [World.pending, hidle, hempty]
      rfl
    rw [hpending, World.outset_of_up (by rw [hidle]; rfl), hidle, Leads] at hends
    rw [← hpositive, ← World.counted_iff, ← hends]
    simp [Listener.todo]
  · intro later w' hlater i actor generation hwatching hwatching' hcurrent
    have hserving : w.Serving i actor generation := ⟨htracked, hwatching, hcurrent⟩
    refine ⟨fun hcurrent' => ?_, fun hleft => ?_⟩
    · have hserving' : w'.Serving i actor generation :=
        ⟨Transition.run_invariant (fun _ _ _ h hstep => h.step hstep) htracked hlater,
          hwatching', hcurrent'⟩
      have hbalance : ∀ (s : World K) (a : Action K) (t : World K),
          s.Serving i actor generation → SocketBus.step s a = some t →
          s.unread actor ++ s.published actor a = s.received actor a ++ t.unread actor :=
        fun s a t hs hstep => hs.tracked.step_unread hstep hs.channels
          (World.currentGeneration_eq_some.mp hs.current).1
      exact Transition.run_conserved hbalance (fun s a t hs hstep => hs.step hstep)
        (fun s a t hs hstep => .step hs hstep)
        (fun s hs => hs.not_serving) hserving hlater hserving'
    · have hle : generation ≤ w.generation :=
        Nat.le_of_eq (World.currentGeneration_eq_some.mp hcurrent).2.symm
      exact (htracked.past_of_left hlater hle hleft).currentGeneration_ne

/-- Two watches of one actor and one of another return; one of the two leaves, and the
connection breaks and is made again. -/
def reconnected : List (Action Bool) :=
  [.connect, .online, .check true, .check false, .enter 0, .enter 0, .take, .confirm, .read,
    .apply, .ready 0, .take, .confirm, .read, .apply, .ready 1, .check true, .enter 0, .take,
    .confirm, .ready 2, .leave 0, .cut, .fail, .disconnect, .connect, .confirm, .read, .apply,
    .confirm, .read, .apply, .online]

/-- Two publications for the first actor, while the last watch of the other one leaves. -/
def publishing : List (Action Bool) :=
  [.publish true [.setAutoResponse (some "ping") (some "pong")], .leave 1, .publish true [.other],
    .send 0, .send 0, .take, .confirm, .receive, .receive]

/-- After the reconnect both actors are subscribed, at the end only the one that is
watched, and its watch receives both publications in their order. -/
theorem subscriptions_track_watchers_reconnected :
    ∃ w w' : World Bool, Transition.run SocketBus.step {} reconnected = some w ∧
      Transition.run SocketBus.step w publishing = some w' ∧
      (w.connection.channels true = true ∧ w.connection.channels false = true) ∧
      (w'.connection.channels true = true ∧ ¬ w'.connection.channels false = true) ∧
      Transition.outputs SocketBus.step (World.received true) w publishing =
        [⟨true, [.setAutoResponse (some "ping") (some "pong")], some 1⟩,
          ⟨true, [.other], none⟩] := by
  obtain ⟨-, -, -, hchannels, hlater⟩ := @subscriptions_track_watchers Bool _ reconnected _ rfl
  obtain ⟨-, -, -, hchannels', -⟩ :=
    @subscriptions_track_watchers Bool _ (reconnected ++ publishing) _ rfl
  refine ⟨_, _, rfl, rfl, ⟨?_, ?_⟩, ⟨?_, ?_⟩, ?_⟩
  · exact (hchannels rfl rfl rfl true).mpr ⟨0, rfl⟩
  · exact (hchannels rfl rfl rfl false).mpr ⟨0, rfl⟩
  · exact (hchannels' rfl rfl rfl true).mpr ⟨0, rfl⟩
  · intro hchannel
    obtain ⟨n, hn⟩ := (hchannels' rfl rfl rfl false).mp hchannel
    cases hn
  · have hbalance := (hlater publishing _ rfl 2 true 2 rfl rfl rfl).1 rfl
    exact (List.append_nil _).symm.trans hbalance.symm

end DurableActors.Ports.SocketBus
