import DurableActors.Ports.SocketListener

/-!
# Subscriptions and watchers

The commands that are pending say what becomes of a subscription: each subscribe
command makes it, each unsubscribe command ends it.  Whatever the listener is at,
the outcome is that exactly the counted actors are subscribed (`Tracked.ends`).
Without a session the outcome starts from the counts themselves, because the next
session restores exactly the counted actors.
-/

namespace DurableActors.Ports.SocketBus

open Verified

variable {K : Type} [DecidableEq K]
variable {actor : K} {w w' : World K}

/-! ## What the commands make of a subscription -/

/-- What a command makes of the subscription to the actor. -/
def Command.track (actor : K) (subscribed : Bool) : Command K → Bool
  | .subscribe other _ _ => if other = actor then true else subscribed
  | .unsubscribe other => if other = actor then false else subscribed

/-- A command without a load, which needs the actor subscribed and loaded before it. -/
def Command.relies (actor : K) : Command K → Prop
  | .subscribe other false _ => other = actor
  | _ => False

omit [DecidableEq K] in
theorem Command.relies_subscribe {other : K} {load : Bool} {i : Nat} :
    (Command.subscribe other load i).relies actor ↔ other = actor ∧ load = false := by
  cases load <;> simp [Command.relies]

/-- What the commands make of a subscription.  A command without a load finds the actor
subscribed, or the actor is unsubscribed later. -/
def Leads (actor : K) : Bool → List (Command K) → Bool → Prop
  | subscribed, [], result => subscribed = result
  | subscribed, command :: rest, result =>
      (command.relies actor → subscribed = true ∨ .unsubscribe actor ∈ rest) ∧
        Leads actor (command.track actor subscribed) rest result

section Leads

variable {actor : K} {subscribed result : Bool} {commands : List (Command K)}

variable (h : Leads actor subscribed commands result)
include h

theorem Leads.push (command : Command K) (hrelies : command.relies actor → result = true) :
    Leads actor subscribed (commands ++ [command]) (command.track actor result) := by
  induction commands generalizing subscribed with
  | nil =>
    subst h
    exact ⟨fun hc => .inl (hrelies hc), rfl⟩
  | cons first rest ih =>
    exact ⟨fun hc => (h.1 hc).imp_right (List.mem_append_left _), ih h.2⟩

/-- A last unsubscribe command leaves nothing to ask of the start. -/
theorem Leads.ended (start : Bool) :
    Leads actor start (commands ++ [.unsubscribe actor]) false := by
  induction commands generalizing subscribed start with
  | nil => exact ⟨nofun, if_pos rfl⟩
  | cons first rest ih =>
    exact ⟨fun _ => .inr (List.mem_append_right _ (List.mem_singleton_self _)), ih h.2 _⟩

omit h in
/-- A command either settles the subscription or leaves it alone. -/
theorem Command.track_cases (actor : K) (command : Command K) :
    (∀ subscribed start, command.track actor subscribed = command.track actor start) ∨
      (∀ subscribed, command.track actor subscribed = subscribed) ∧ ¬ command.relies actor := by
  cases command with
  | subscribe other load i =>
    by_cases hother : other = actor
    · exact .inl fun _ _ => by simp [Command.track, hother]
    · exact .inr ⟨fun _ => by simp [Command.track, hother],
        fun hrelies => hother (Command.relies_subscribe.mp hrelies).1⟩
  | unsubscribe other =>
    by_cases hother : other = actor
    · exact .inl fun _ _ => by simp [Command.track, hother]
    · exact .inr ⟨fun _ => by simp [Command.track, hother], nofun⟩

/-- A better start. -/
theorem Leads.raise : Leads actor true commands result ∨ Leads actor true commands true := by
  induction commands generalizing subscribed with
  | nil => exact .inr rfl
  | cons first rest ih =>
    have hfirst : first.relies actor → true = true ∨ .unsubscribe actor ∈ rest := fun _ => .inl rfl
    rcases first.track_cases actor with hsame | ⟨hkept, -⟩
    · exact .inl ⟨hfirst, hsame subscribed true ▸ h.2⟩
    · have hrest := h.2
      rw [hkept] at hrest
      refine (ih hrest).imp (fun hr => ⟨hfirst, ?_⟩) (fun hr => ⟨hfirst, ?_⟩) <;> rwa [hkept]

omit h in
theorem Leads.subscribed_or_ended (h : Leads actor true commands result) :
    result = true ∨ .unsubscribe actor ∈ commands := by
  induction commands with
  | nil => exact .inl h.symm
  | cons first rest ih =>
    cases first with
    | subscribe other load i =>
      have hkept : (Command.subscribe other load i).track actor true = true := by
        simp [Command.track]
      have hrest := h.2
      rw [hkept] at hrest
      exact (ih hrest).imp_right (List.mem_cons_of_mem _)
    | unsubscribe other =>
      by_cases hother : other = actor
      · rw [hother]
        exact .inr List.mem_cons_self
      · have hrest := h.2
        rw [Command.track, if_neg hother] at hrest
        exact (ih hrest).imp_right (List.mem_cons_of_mem _)

theorem Leads.suffix {rest : List (Command K)} (hsuffix : rest <:+ commands) :
    ∃ start, Leads actor start rest result := by
  obtain ⟨before, rfl⟩ := hsuffix
  induction before generalizing subscribed with
  | nil => exact ⟨subscribed, h⟩
  | cons first before ih => exact ih h.2

/-- The commands may start again from where they lead. -/
theorem Leads.restart : Leads actor result commands result := by
  induction commands generalizing subscribed with
  | nil => rfl
  | cons first rest ih =>
    have hrest := h.2
    rcases first.track_cases actor with hsame | ⟨hkept, hrelies⟩
    · refine ⟨fun hc => ?_, hsame subscribed result ▸ hrest⟩
      obtain ⟨i, rfl⟩ : ∃ i, first = .subscribe actor false i := by
        match first, hc with
        | .subscribe _ false i, rfl => exact ⟨i, rfl⟩
      rw [Command.track, if_pos rfl] at hrest
      exact hrest.subscribed_or_ended
    · rw [hkept] at hrest
      refine ⟨fun hc => absurd hc hrelies, ?_⟩
      rw [hkept]
      exact ih hrest

end Leads

/-! ## The invariant -/

def World.counted (w : World K) (actor : K) : Bool := w.bus.count actor != 0

/-- Subscribed before the pending commands: once the listener has restored the actors it is
at; without a session, once the next one has. -/
def World.outset (w : World K) (actor : K) : Bool :=
  if w.listener.down then w.counted actor
  else w.connection.channels actor || decide (actor ∈ w.listener.todo)

/-- The commands under way lead to the subscriptions that are counted. -/
structure World.Tracked (w : World K) : Prop where
  queue : Queue w.bus w.pending
  nodup : w.bus.subscribed.Nodup
  /-- Every live watch has its command behind an unsubscribe command. -/
  behind {actor : K} {rest : List (Command K)} : (.unsubscribe actor :: rest) <:+ w.pending →
    ∀ {i : Nat}, w.bus.Live actor i → ∃ load, .subscribe actor load i ∈ rest
  ends (actor : K) : Leads actor (w.outset actor) w.pending (w.counted actor)
  loads {actor : K} : w.listener.loads = some actor → w.connection.channels actor = true
  offline : w.listener = .offline ∨ w.listener.restoring = true → w.connected = false
  settled : w.connected = true ∨ w.listener.restoring = true →
    ∀ {i : Nat} {watch : Watch K}, w.bus.watches[i]? = some watch →
      watch.state.settled = true →
      w.connection.channels watch.actor = true ∨ watch.actor ∈ w.listener.todo

theorem World.counted_iff : w.counted actor = true ↔ w.bus.count actor ≠ 0 := by
  simp [World.counted]

/-- Steps that leave the watches and the commands alone, and the subscriptions as the
commands have them. -/
theorem World.Tracked.congr (h : w.Tracked) (hwatched : w'.bus.watched = w.bus.watched)
    (hsubscribed : w'.bus.subscribed = w.bus.subscribed)
    (hwatches : w'.bus.watches = w.bus.watches) (hpending : w'.pending = w.pending)
    (hends : ∀ actor, Leads actor (w'.outset actor) w.pending (w.counted actor))
    (hloads : ∀ actor, w'.listener.loads = some actor → w'.connection.channels actor = true)
    (hoffline : w'.listener = .offline ∨ w'.listener.restoring = true → w'.connected = false)
    (hwhen : w'.connected = true ∨ w'.listener.restoring = true →
      w.connected = true ∨ w.listener.restoring = true)
    (hsettled : ∀ actor, w.connection.channels actor = true ∨ actor ∈ w.listener.todo →
      w'.connection.channels actor = true ∨ actor ∈ w'.listener.todo) : w'.Tracked := by
  have hcount : ∀ actor, w'.bus.count actor = w.bus.count actor :=
    fun actor => by rw [Bus.count, Bus.count, hwatches]
  refine ⟨⟨⟨fun actor => ?_, fun actor => ?_⟩, ?_, ?_⟩, ?_, ?_, fun actor => ?_,
    fun {actor} => hloads actor, hoffline, ?_⟩
  · rw [hwatched, hcount]
    exact h.queue.counted.watched actor
  · rw [hsubscribed, hcount]
    exact h.queue.counted.listed actor
  · rw [hpending]
    exact h.queue.ids
  · rw [hpending, hwatches]
    exact h.queue.owned
  · rw [hsubscribed]
    exact h.nodup
  · intro actor rest hsuffix i hlive
    rw [hpending] at hsuffix
    rw [Bus.Live, hwatches] at hlive
    exact h.behind hsuffix hlive
  · have hcounted : w'.counted actor = w.counted actor := by
      rw [World.counted, World.counted, hcount]
    rw [hpending, hcounted]
    exact hends actor
  · intro hnow i watch hget hstate
    rw [hwatches] at hget
    exact hsettled _ (h.settled (hwhen hnow) hget hstate)

/-! ## Watches enter and leave -/

theorem Bus.nodup_enter {bus : Bus K} (hcounted : bus.Counted) (hnodup : bus.subscribed.Nodup)
    (actor : K) : (bus.enter actor).subscribed.Nodup := by
  simp only [Bus.enter]
  split
  · rename_i hfirst
    refine List.Nodup.append hnodup (List.nodup_singleton actor) ?_
    intro other hmem hother
    obtain rfl := List.mem_singleton.mp hother
    -- the first watch of an actor finds it uncounted
    have hne := (hcounted.listed other).mp hmem
    simp [hcounted.watched, hne] at hfirst
  · exact hnodup

theorem Bus.nodup_unwatch {bus : Bus K} (hnodup : bus.subscribed.Nodup) (actor : K) :
    (bus.unwatch actor).subscribed.Nodup := by
  unfold Bus.unwatch
  split
  · exact hnodup
  · dsimp only
    generalize (if _ = 0 then _ else _ : Nat) = sockets
    by_cases hzero : sockets = 0
    · rw [if_pos hzero]
      exact hnodup.filter _
    · rw [if_neg hzero]
      exact hnodup

omit [DecidableEq K] in
/-- A suffix that reaches the last command. -/
theorem suffix_concat {command last : Command K} {rest commands : List (Command K)}
    (h : (command :: rest) <:+ commands ++ [last]) :
    command = last ∧ rest = [] ∨
      ∃ before, rest = before ++ [last] ∧ (command :: before) <:+ commands := by
  rcases List.suffix_concat_iff.mp h with hnil | ⟨before, hrest, hbefore⟩
  · cases hnil
  · cases before with
    | nil => exact .inl (List.cons.inj hrest)
    | cons first before =>
      obtain ⟨rfl, rfl⟩ := List.cons.inj hrest
      exact .inr ⟨before, rfl, hbefore⟩

section

variable (h : w.Tracked)
include h

/-- A watch is counted; the first one of its actor subscribes. -/
theorem World.Tracked.enter {checked : List K} {bus : Bus K}
    (hbus : bus = { w.bus with checked := checked }.enter actor) :
    { w with bus := bus }.Tracked := by
  let w' : World K := { w with bus := bus }
  have hbase : Queue { w.bus with checked := checked } w.pending :=
    ⟨⟨h.queue.counted.watched, h.queue.counted.listed⟩, h.queue.ids, h.queue.owned⟩
  have hpending : w'.pending = w.pending ++
      [.subscribe actor (w.bus.count actor == 0) w.bus.watches.length] := by
    rw [World.pending, World.pending, List.append_assoc]
    subst hbus
    exact congrArg (w.listener.current ++ ·) (hbase.counted.enter actor).2
  have hcount : ∀ other, bus.count other =
      w.bus.count other + (if other = actor then 1 else 0) := by
    rw [hbus]
    exact Bus.count_enter { w.bus with checked := checked } actor
  change w'.Tracked
  refine ⟨?_, ?_, ?_, fun other => ?_, h.loads, h.offline, ?_⟩
  · rw [hpending]
    subst hbus
    exact hbase.enter actor (w.bus.count actor == 0)
  · subst hbus
    exact Bus.nodup_enter hbase.counted h.nodup actor
  · intro other rest hsuffix i hi
    rw [hpending] at hsuffix
    subst hbus
    rcases suffix_concat hsuffix with ⟨hcase, -⟩ | ⟨before, rfl, hbefore⟩
    · cases hcase
    · rcases Bus.live_enter.mp hi with hold | ⟨rfl, rfl⟩
      · obtain ⟨load, hmem⟩ := h.behind hbefore hold
        exact ⟨load, List.mem_append_left _ hmem⟩
      · exact ⟨_, List.mem_append_right _ (List.mem_singleton_self _)⟩
  · rw [hpending]
    by_cases hother : actor = other
    · subst hother
      have hcounted : w'.counted actor = true := World.counted_iff.mpr (by simp [w', hcount])
      have hrelies : Command.relies actor (.subscribe actor (w.bus.count actor == 0)
          w.bus.watches.length) → w.counted actor = true := by
        intro hrelies
        simpa [World.counted] using (Command.relies_subscribe.mp hrelies).2
      have htrack : ∀ result, Command.track actor result (.subscribe actor (w.bus.count actor == 0)
          w.bus.watches.length) = w'.counted actor := fun _ => (if_pos rfl).trans hcounted.symm
      -- without a session the outset is the count, which is now positive
      have hstart : w'.outset actor = w.outset actor ∨ w'.outset actor = true := by
        rw [World.outset, World.outset, hcounted]
        cases w.listener.down
        · exact .inl rfl
        · exact .inr rfl
      rcases hstart with hstart | hstart
      · rw [hstart, ← htrack]
        exact (h.ends actor).push _ hrelies
      · rcases (h.ends actor).raise with hraised | hraised
        · rw [hstart, ← htrack]
          exact hraised.push _ hrelies
        · rw [hstart, ← htrack]
          exact hraised.push _ fun _ => rfl
    · have hsame : w'.counted other = w.counted other := by
        simp [World.counted, w', hcount, Ne.symm hother]
      have houtset : w'.outset other = w.outset other := by
        rw [World.outset, World.outset, hsame]
      have hpush := (h.ends other).push (.subscribe actor (w.bus.count actor == 0)
        w.bus.watches.length) fun hrelies => absurd (Command.relies_subscribe.mp hrelies).1 hother
      rw [Command.track, if_neg hother] at hpush
      rwa [houtset, hsame]
  · intro hwhen i watch hget hstate
    subst hbus
    rcases Bus.of_getElem?_enter hget with hget | rfl
    · exact h.settled hwhen hget hstate
    · cases hstate

/-- A watch ends; the last one of its actor unsubscribes. -/
theorem World.Tracked.leave {i : Nat} {watch : Watch K} {bus : Bus K}
    (hget : w.bus.watches[i]? = some watch) (hstate : watch.state ≠ .ended)
    (hbus : bus = (w.bus.setState i .ended).unwatch watch.actor) :
    { w with bus := bus }.Tracked := by
  let w' : World K := { w with bus := bus }
  have hcount : ∀ other, bus.count other + (if other = watch.actor then 1 else 0) =
      w.bus.count other := by
    intro other
    rw [hbus, Bus.count, Bus.watches_unwatch]
    exact Bus.count_setState_ended hget hstate other
  have hpending : w'.pending = w.pending ++
      if bus.count watch.actor = 0 then [.unsubscribe watch.actor] else [] := by
    have hsame : (w.bus.setState i .ended).count watch.actor = bus.count watch.actor := by
      rw [hbus, Bus.count, Bus.count, Bus.watches_unwatch]
    rw [World.pending, World.pending, List.append_assoc, ← hsame]
    subst hbus
    exact congrArg (w.listener.current ++ ·) (h.queue.counted.leave hget hstate).2
  have hbehind : ∀ {other rest}, (.unsubscribe other :: rest) <:+ w.pending →
      ∀ {j}, bus.Live other j → ∃ load, .subscribe other load j ∈ rest :=
    fun hsuffix _ hj => h.behind hsuffix (Bus.live_leave (hbus ▸ hj))
  -- a count that is not the last one stays a count
  have hcounted : ∀ other, other ≠ watch.actor ∨ bus.count watch.actor ≠ 0 →
      w'.counted other = w.counted other ∧ w'.outset other = w.outset other := by
    intro other hother
    have hsame : w'.counted other = w.counted other := by
      have hone := hcount other
      rw [World.counted, World.counted, ← hone]
      by_cases heq : other = watch.actor
      · subst heq
        have hne := hother.resolve_left fun hne => hne rfl
        simp [w', hne]
      · rw [if_neg heq, Nat.add_zero]
    exact ⟨hsame, by rw [World.outset, World.outset, hsame]⟩
  change w'.Tracked
  refine ⟨?_, ?_, ?_, fun other => ?_, h.loads, h.offline, ?_⟩
  · have hqueue := h.queue.leave hget hstate
      (if bus.count watch.actor = 0 then [.unsubscribe watch.actor] else [])
      (by split <;> simp [Command.watch?])
    rwa [hpending, show w'.bus = _ from hbus]
  · have hbase : (w.bus.setState i .ended).subscribed.Nodup := h.nodup
    subst hbus
    exact Bus.nodup_unwatch hbase _
  · intro other rest hsuffix j hj
    rw [hpending] at hsuffix
    by_cases hzero : bus.count watch.actor = 0
    · rw [if_pos hzero] at hsuffix
      rcases suffix_concat hsuffix with ⟨hcase, -⟩ | ⟨before, rfl, hbefore⟩
      · cases hcase
        exact absurd hj (Bus.not_live_of_count hzero j)
      · obtain ⟨load, hmem⟩ := hbehind hbefore hj
        exact ⟨load, List.mem_append_left _ hmem⟩
    · rw [if_neg hzero, List.append_nil] at hsuffix
      exact hbehind hsuffix hj
  · rw [hpending]
    by_cases hzero : bus.count watch.actor = 0
    · rw [if_pos hzero]
      by_cases hother : other = watch.actor
      · subst hother
        have hnone : w'.counted watch.actor = false := by simp [World.counted, w', hzero]
        rw [hnone]
        exact (h.ends watch.actor).ended _
      · obtain ⟨hsame, houtset⟩ := hcounted other (.inl hother)
        have hpush := (h.ends other).push (.unsubscribe watch.actor) (by rintro ⟨⟩)
        rw [Command.track, if_neg (Ne.symm hother)] at hpush
        rwa [houtset, hsame]
    · obtain ⟨hsame, houtset⟩ := hcounted other (.inr hzero)
      rw [if_neg hzero, List.append_nil, houtset, hsame]
      exact h.ends other
  · intro hwhen j after hafter hsettled
    subst hbus
    obtain ⟨before, hget', -, rfl | hended⟩ := Bus.of_getElem?_leave hafter
    · exact h.settled hwhen hget' hsettled
    · exact absurd hended (WatchState.settled_ne_ended hsettled)

/-- `watch` returns to its caller. -/
theorem World.Tracked.return {i : Nat} (hget : w.bus.watches[i]? = some ⟨actor, .answered true⟩) :
    { w with bus := w.bus.setState i .watching }.Tracked := by
  have hcounted : ∀ other,
      World.counted { w with bus := w.bus.setState i .watching } other = w.counted other := by
    intro other
    rw [World.counted, World.counted]
    exact congrArg (· != 0) (Bus.count_return hget other)
  refine ⟨h.queue.return hget, h.nodup, fun hsuffix j hj => ?_, fun other => ?_, h.loads,
    h.offline, ?_⟩
  · exact h.behind hsuffix (Bus.live_return hget hj)
  · have houtset : World.outset { w with bus := w.bus.setState i .watching } other =
        w.outset other := by
      rw [World.outset, World.outset, hcounted]
    rw [houtset, hcounted]
    exact h.ends other
  · intro hwhen j after hafter hsettled
    obtain ⟨before, hget', hactor, rfl | ⟨hanswered, -⟩⟩ := Bus.of_getElem?_return hget hafter
    · exact h.settled hwhen hget' hsettled
    · rw [hactor]
      exact h.settled hwhen hget' (by rw [hanswered]; rfl)

/-! ## The listener moves on -/

omit h in
theorem World.outset_of_up (h : w.listener.down = false) (actor : K) :
    w.outset actor = (w.connection.channels actor || decide (actor ∈ w.listener.todo)) := by
  rw [World.outset, h]
  rfl

/-- The listener has answered the subscribe command it was at, or lost its session on it. -/
theorem World.Tracked.answered {load ok : Bool} {i : Nat} {listener : Listener K}
    (hlistener : w.listener = listener) (hcurrent : listener.current = [.subscribe actor load i])
    (hup : listener.down = false) (htodo : listener.todo = []) (hbus : w'.bus = w.bus.answer i ok)
    (hidle : w'.listener = .idle ∨ w'.listener = .failed)
    (hchannels : w'.listener = .idle → w'.connection.channels actor = true)
    (hothers : ∀ other, other ≠ actor → w'.connection.channels other = w.connection.channels other)
    (hkept : w.connection.channels actor = true → w'.connection.channels actor = true)
    (hconnected : w'.connected = w.connected) (hok : ok = true → w'.listener = .idle) :
    w'.Tracked := by
  subst hlistener
  have hpending : w.pending = .subscribe actor load i :: w.bus.commands := by
    rw [World.pending, hcurrent]
    rfl
  obtain ⟨hcurrent', hrestoring, hloads, hoffline⟩ : w'.listener.current = [] ∧
      w'.listener.restoring = false ∧ w'.listener.loads = none ∧ w'.listener ≠ .offline := by
    rcases hidle with hidle | hidle <;> simp [hidle, Listener.current, Listener.restoring,
      Listener.loads]
  have hpending' : w'.pending = w.bus.commands := by
    rw [World.pending, hbus, hcurrent']
    rfl
  have hqueue := h.queue
  rw [hpending] at hqueue
  have hcount : ∀ other, w'.counted other = w.counted other := by
    intro other
    rw [World.counted, World.counted, hbus, Bus.count_answer]
  have hends : ∀ other, Leads other
      ((Command.subscribe actor load i).track other (w.connection.channels other))
      w.bus.commands (w.counted other) := by
    intro other
    have hends := h.ends other
    rw [hpending, World.outset_of_up hup, htodo] at hends
    simpa using hends.2
  refine ⟨?_, ?_, ?_, fun other => ?_, ?_, ?_, ?_⟩
  · rw [hpending', hbus]
    exact hqueue.answered ok
  · rw [hbus]
    exact h.nodup
  · intro other rest' hsuffix j hj
    rw [hpending'] at hsuffix
    rw [hbus] at hj
    have hsuffix' : (.unsubscribe other :: rest') <:+ w.pending := by
      rw [hpending]
      exact hsuffix.trans (List.suffix_cons _ _)
    exact h.behind hsuffix' (Bus.live_answer hj)
  · rw [hpending', hcount]
    rcases hidle with hidle | hidle
    · have hbase : w'.outset other =
          (Command.subscribe actor load i).track other (w.connection.channels other) := by
        rw [World.outset, hidle]
        by_cases hother : other = actor
        · subst hother
          simp [Listener.down, Command.track, hchannels hidle]
        · simp [Listener.down, Listener.todo, Command.track, Ne.symm hother, hothers other hother]
      rw [hbase]
      exact hends other
    · have hbase : w'.outset other = w.counted other := by
        rw [World.outset, hidle, hcount]
        rfl
      rw [hbase]
      exact (hends other).restart
  · simp [hloads]
  · rw [hrestoring]
    exact fun hcase => absurd (hcase.resolve_right Bool.false_ne_true) hoffline
  · intro hwhen j after hafter hsettled
    have hwas : w.connected = true := by
      rw [hrestoring, hconnected] at hwhen
      exact hwhen.resolve_right Bool.false_ne_true
    rw [hbus] at hafter
    obtain ⟨before, hget, hsame, rfl | ⟨rfl, hwaiting, hanswered⟩⟩ :=
      Bus.of_getElem?_answer hafter
    · refine .inl ?_
      have hold := (h.settled (.inl hwas) hget hsettled).resolve_right
        fun hmem => by rw [htodo] at hmem; cases hmem
      by_cases hactor : after.actor = actor
      · rw [hactor] at hold ⊢
        exact hkept hold
      · rw [hothers _ hactor]
        exact hold
    · rw [hanswered] at hsettled
      cases ok with
      | false => cases hsettled
      | true =>
        obtain ⟨watch, hget', hactor, -⟩ := hqueue.owned List.mem_cons_self
        rw [hget] at hget'
        cases hget'
        rw [hsame, hactor]
        exact .inl (hchannels (hok rfl))

/-- Redis has taken the unsubscription. -/
theorem World.Tracked.unsubscribed
    (hlistener : w.listener = .handling (.unsubscribe actor)) {connection : Connection K}
    (hself : connection.channels actor = false)
    (hothers : ∀ other, other ≠ actor → connection.channels other = w.connection.channels other) :
    { w with connection := connection, listener := .idle }.Tracked := by
  have hpending : w.pending = .unsubscribe actor :: w.bus.commands := World.pending_at hlistener
  have hqueue := h.queue
  rw [hpending] at hqueue
  refine ⟨hqueue.tail, h.nodup, ?_, fun other => ?_, nofun, ?_, ?_⟩
  · intro other rest hsuffix j hj
    have hsuffix' : (.unsubscribe other :: rest) <:+ w.pending := by
      rw [hpending]
      exact hsuffix.trans (List.suffix_cons _ _)
    exact h.behind hsuffix' hj
  · have houtset : World.outset { w with connection := connection, listener := .idle } other =
        (Command.unsubscribe actor).track other (w.outset other) := by
      rw [World.outset, World.outset, hlistener]
      by_cases hother : other = actor
      · simp [hother, hself, Listener.down, Listener.todo, Command.track]
      · simp [hothers other hother, Listener.down, Listener.todo, Command.track, Ne.symm hother]
    have hends := h.ends other
    rw [hpending] at hends
    rw [houtset]
    exact hends.2
  · rintro (hcase | hcase) <;> cases hcase
  · intro hwhen i watch hget hsettled
    have hconnected : w.connected = true := hwhen.resolve_right nofun
    have hlive : w.bus.Live watch.actor i := ⟨watch, hget, Watch.counts_iff.mpr
      ⟨rfl, WatchState.settled_ne_ended hsettled⟩⟩
    by_cases hactor : watch.actor = actor
    · -- a watch of the actor would have its command behind this one
      obtain ⟨load, hmem⟩ := h.behind ⟨[], hpending.symm⟩
        (hactor ▸ hlive)
      obtain ⟨watch', hget', -, hstate⟩ := hqueue.tail.owned hmem
      cases hget.symm.trans hget'
      rcases hstate with hstate | hstate <;> rw [hstate] at hsettled <;> cases hsettled
    · refine .inl ((hothers _ hactor).trans ?_)
      refine (h.settled (.inl hconnected) hget hsettled).resolve_right fun htodo => ?_
      rw [hlistener] at htodo
      cases htodo

/-- The session ends: what is pending waits for the next one. -/
theorem World.Tracked.dropped (htodo : w.connected = true → w.listener.todo = []) :
    { w with listener := .failed }.Tracked := by
  have hsuffix : w.bus.commands <:+ w.pending := ⟨w.listener.current, rfl⟩
  refine ⟨h.queue.suffix hsuffix, h.nodup,
    fun hsuffix' j hj => h.behind (hsuffix'.trans hsuffix) hj, fun actor => ?_, nofun, ?_, ?_⟩
  · obtain ⟨start, hrest⟩ := (h.ends actor).suffix hsuffix
    exact hrest.restart
  · rintro (hcase | hcase) <;> cases hcase
  · intro hwhen i watch hget hsettled
    have hconnected : w.connected = true := hwhen.resolve_right nofun
    refine .inl ((h.settled (.inl hconnected) hget hsettled).resolve_right fun hmem => ?_)
    rw [htodo hconnected] at hmem
    cases hmem

/-- A new session reads the list of the actors that are counted. -/
theorem World.Tracked.connect (hlistener : w.listener = .offline) :
    { w with listener := .resubscribing w.bus.subscribed, connection := {} }.Tracked := by
  have hpending : w.pending = w.bus.commands := World.pending_at hlistener
  have hqueue := h.queue
  rw [hpending] at hqueue
  refine ⟨hqueue, h.nodup, fun hsuffix j hj => ?_, fun actor => ?_, nofun,
    fun _ => h.offline (.inl hlistener), ?_⟩
  · exact h.behind (by rw [hpending]; exact hsuffix) hj
  · have hends := h.ends actor
    rw [hpending, World.outset, hlistener] at hends
    have hlisted : decide (actor ∈ w.bus.subscribed) = w.counted actor := by
      rw [World.counted, Bool.eq_iff_iff]
      simpa using h.queue.counted.listed actor
    show Leads actor (false || decide (actor ∈ w.bus.subscribed)) w.bus.commands _
    rw [Bool.false_or, hlisted]
    exact hends
  · intro _ i watch hget hsettled
    have hlive : w.bus.Live watch.actor i := ⟨watch, hget, Watch.counts_iff.mpr
      ⟨rfl, WatchState.settled_ne_ended hsettled⟩⟩
    exact .inr ((h.queue.counted.listed watch.actor).mpr hlive.count_ne_zero)

/-- The listener subscribes to an actor it has to restore, or for the command it is at. -/
theorem World.Tracked.subscribing {before listener : Listener K}
    (hlistener : w.listener = before) (hcurrent : listener.current = before.current)
    (htodo : listener.todo = before.todo) (hup : before.down = false)
    (hup' : listener.down = false) (hrestoring : listener.restoring = before.restoring)
    (hloads : listener.loads = some actor) (hdue : actor ∈ before.todo ∨
      ∃ i rest, before.current ++ w.bus.commands = .subscribe actor true i :: rest) :
    { w.subscribe actor with listener := listener }.Tracked := by
  subst hlistener
  refine h.congr (congrArg Bus.watched (w.bus_subscribe actor))
    (congrArg Bus.subscribed (w.bus_subscribe actor))
    (congrArg Bus.watches (w.bus_subscribe actor)) ?_ (fun other => ?_) (fun other hother => ?_)
    (fun hcase => ?_) ?_ fun other hother => ?_
  · rw [World.pending, World.pending, ← hcurrent]
    exact congrArg (listener.current ++ Bus.commands ·) (w.bus_subscribe actor)
  · have hends := h.ends other
    rw [World.outset_of_up hup] at hends
    rw [World.outset_of_up hup']
    show Leads other ((w.subscribe actor).connection.channels other ||
      decide (other ∈ listener.todo)) _ _
    rw [htodo]
    by_cases hother : other = actor
    · subst hother
      rw [w.channels_subscribe other, Bool.true_or]
      rcases hdue with hmem | ⟨i, rest, hpending⟩
      · rwa [decide_eq_true hmem, Bool.or_true] at hends
      · rw [World.pending, hpending] at hends ⊢
        refine ⟨fun _ => .inl rfl, ?_⟩
        have hrest := hends.2
        rw [Command.track, if_pos rfl] at hrest ⊢
        exact hrest
    · rwa [World.channels_subscribe_of_ne hother]
  · cases hloads.symm.trans hother
    exact w.channels_subscribe actor
  · refine (w.connected_subscribe actor).trans (h.offline (.inr ?_))
    rcases hcase with hcase | hcase
    · have hdown : listener = .offline := hcase
      rw [hdown] at hup'
      cases hup'
    · exact hrestoring ▸ hcase
  · exact Or.imp (fun hcase => (w.connected_subscribe actor).symm.trans hcase)
      fun hcase => hrestoring ▸ hcase
  · show (w.subscribe actor).connection.channels other = true ∨ other ∈ listener.todo
    rw [htodo]
    by_cases hsame : other = actor
    · rw [hsame]
      exact .inl (w.channels_subscribe actor)
    · rwa [World.channels_subscribe_of_ne hsame]

/-- The loaded value is applied and the watches are answered. -/
theorem World.Tracked.apply {n : Nat} {job : Job K}
    {stored : Option AutoResponse} {registry : K → Option (String × String)}
    {fresh : K → Bool} (hlistener : w.listener = .loaded actor stored n job) :
    (World.afterLoad { w with registry := registry, fresh := fresh } job).Tracked := by
  have hchannel : w.connection.channels actor = true := h.loads (by rw [hlistener]; rfl)
  have hup : w.listener.down = false := by rw [hlistener]; rfl
  cases job with
  | restore rest =>
    have hrestoring : w.listener.restoring = true := by rw [hlistener]; rfl
    have htodo : w.listener.todo = actor :: rest := by rw [hlistener]; rfl
    refine h.congr rfl rfl rfl ?_ (fun other => ?_) nofun
      (fun _ => h.offline (.inr hrestoring)) (fun _ => .inr hrestoring)
      fun other hother => ?_
    · exact (World.pending_at hlistener).symm
    · have hends := h.ends other
      rw [World.outset_of_up hup, htodo] at hends
      rw [World.outset_of_up (by rfl)]
      show Leads other (w.connection.channels other || decide (other ∈ rest)) _ _
      by_cases hsame : other = actor
      · subst hsame
        rwa [hchannel] at hends ⊢
      · simpa [hsame] using hends
    · rw [htodo] at hother
      by_cases hsame : other = actor
      · rw [hsame]
        exact .inl hchannel
      · exact hother.imp_right fun hmem => (List.mem_cons.mp hmem).resolve_left hsame
  | reply i =>
    exact h.answered hlistener rfl rfl rfl rfl (.inl rfl)
      (fun _ => hchannel) (fun _ _ => rfl) id rfl fun _ => rfl

/-- The listener moves on; what is subscribed, to be restored and pending stays. -/
theorem World.Tracked.moved {listener : Listener K} (hlistener : w.listener = listener)
    (hwatched : w'.bus.watched = w.bus.watched) (hsubscribed : w'.bus.subscribed = w.bus.subscribed)
    (hwatches : w'.bus.watches = w.bus.watches)
    (hpending : w'.pending = listener.current ++ w.bus.commands)
    (hchannels : w'.connection.channels = w.connection.channels)
    (htodo : w'.listener.todo = listener.todo) (hdown : w'.listener.down = listener.down)
    (hloads : w'.listener.loads = listener.loads)
    (hoffline : w'.listener = .offline ∨ w'.listener.restoring = true → w'.connected = false)
    (hwhen : w'.connected = true ∨ w'.listener.restoring = true →
      w.connected = true ∨ listener.restoring = true) : w'.Tracked := by
  subst hlistener
  have hcounted : ∀ actor, w'.counted actor = w.counted actor :=
    fun actor => by rw [World.counted, World.counted, Bus.count, Bus.count, hwatches]
  refine h.congr hwatched hsubscribed hwatches hpending (fun actor => ?_) (fun actor hactor => ?_)
    hoffline hwhen fun actor hactor => ?_
  · rw [World.outset, hdown, hcounted, hchannels, htodo]
    exact h.ends actor
  · rw [hloads] at hactor
    rw [hchannels]
    exact h.loads hactor
  · rwa [hchannels, htodo]

theorem World.Tracked.quiet (hwatched : w'.bus.watched = w.bus.watched)
    (hsubscribed : w'.bus.subscribed = w.bus.subscribed)
    (hcommands : w'.bus.commands = w.bus.commands) (hwatches : w'.bus.watches = w.bus.watches)
    (hlistener : w'.listener = w.listener)
    (hchannels : w'.connection.channels = w.connection.channels)
    (hconnected : w'.connected = w.connected) : w'.Tracked := by
  refine h.moved hlistener.symm hwatched hsubscribed hwatches ?_ hchannels rfl rfl rfl ?_ ?_
  · rw [World.pending, hcommands]
  · rw [hlistener, hconnected]
    exact h.offline
  · rw [hconnected]
    exact id

/-- Redis answers the `GET`. -/
theorem World.Tracked.read {stored : Option AutoResponse} {n : Nat} {job : Job K}
    (hlistener : w.listener = .loading actor job) :
    { w with listener := .loaded actor stored n job }.Tracked := by
  refine h.moved hlistener rfl rfl rfl ?_ rfl ?_ rfl rfl ?_ ?_
  · cases job <;> rfl
  · cases job <;> rfl
  · rintro (hcase | hcase)
    · cases hcase
    · exact h.offline (.inr (by rw [hlistener]; cases job <;> exact hcase))
  · exact Or.imp_right fun hcase => by cases job <;> exact hcase

theorem World.Tracked.stop (hlistener : w.listener = .idle ∨ w.listener = .offline) :
    { w with listener := .stopped, connected := false }.Tracked := by
  have hcurrent : w.listener.current = [] ∧ w.listener.todo = [] := by
    rcases hlistener with hlistener | hlistener <;> rw [hlistener] <;> exact ⟨rfl, rfl⟩
  refine h.congr rfl rfl rfl ?_ (fun actor => (h.ends actor).restart) (by rintro _ ⟨⟩)
    (fun _ => rfl) ?_ fun actor hactor => ?_
  · rw [World.pending, World.pending, hcurrent.1]
    rfl
  · rintro (hcase | hcase) <;> cases hcase
  · rwa [hcurrent.2] at hactor

/-- Every step keeps the commands in line with the watches. -/
theorem World.Tracked.step {action : Action K}
    (hstep : SocketBus.step w action = some w') : w'.Tracked := by
  cases Step.of_step hstep with
  | check | publish | abandon | expire | cut | receive => exact h.quiet rfl rfl rfl rfl rfl rfl rfl
  | send => exact h.quiet rfl rfl rfl rfl rfl (w.connection.channels_deliver _) rfl
  | enter => exact h.enter rfl
  | ready hget => exact h.return hget
  | leave hget hstate => exact h.leave hget hstate rfl
  | connect hlistener => exact h.connect hlistener
  | restore hlistener =>
    exact h.subscribing hlistener rfl rfl rfl rfl rfl rfl (.inl List.mem_cons_self)
  | load hlistener =>
    exact h.subscribing hlistener rfl rfl rfl rfl rfl rfl (.inr ⟨_, _, rfl⟩)
  | subscribe hlistener =>
    rename_i actor i
    exact h.answered hlistener rfl rfl rfl (by rw [World.afterLoad, World.bus_subscribe]) (.inl rfl)
      (fun _ => w.channels_subscribe actor) (fun _ => World.channels_subscribe_of_ne)
      (fun _ => w.channels_subscribe actor) (w.connected_subscribe actor) fun _ => rfl
  | unsubscribe hlistener =>
    exact h.unsubscribed hlistener (Function.update_self ..)
      fun _ hother => Function.update_of_ne hother ..
  | read hlistener => exact h.read hlistener
  | apply hlistener => exact h.apply hlistener
  | online hlistener =>
    refine h.moved hlistener rfl rfl rfl rfl rfl rfl rfl rfl ?_ fun _ => .inr rfl
    rintro (hcase | hcase) <;> cases hcase
  | take hlistener hcommands =>
    refine h.moved hlistener rfl rfl rfl hcommands.symm rfl rfl rfl rfl ?_
      (Or.imp_right (by rintro ⟨⟩))
    rintro (hcase | hcase) <;> cases hcase
  | dropped htodo =>
    refine h.dropped fun hconnected => htodo.resolve_left fun hrestoring => ?_
    rw [h.offline (.inr hrestoring)] at hconnected
    cases hconnected
  | refused hlistener =>
    exact h.answered hlistener rfl rfl rfl rfl (.inr rfl) (by rintro ⟨⟩) (fun _ _ => rfl) id rfl
      (by rintro ⟨⟩)
  | unloaded hlistener =>
    exact h.answered hlistener rfl rfl rfl rfl (.inl rfl)
      (fun _ => h.loads (by rw [hlistener]; rfl)) (fun _ _ => rfl) id rfl (by rintro ⟨⟩)
  | disconnect hlistener =>
    refine h.moved hlistener rfl rfl rfl rfl rfl rfl rfl rfl (fun _ => rfl) ?_
    rintro (hcase | hcase) <;> cases hcase
  | stop hlistener => exact h.stop hlistener

end

theorem World.tracked_start : ({} : World K).Tracked := by
  refine ⟨⟨⟨fun actor => rfl, fun actor => ?_⟩, List.nodup_nil, fun hmem => ?_⟩, List.nodup_nil,
    fun hsuffix => ?_, fun actor => rfl, nofun, fun _ => rfl, ?_⟩
  · simp [Bus.count]
  · exact absurd hmem List.not_mem_nil
  · cases List.suffix_nil.mp hsuffix
  · rintro (hcase | hcase) <;> cases hcase

theorem World.tracked_run {actions : List (Action K)}
    (hrun : Transition.run SocketBus.step {} actions = some w) : w.Tracked :=
  Transition.run_invariant (fun _ _ _ h hstep => h.step hstep) World.tracked_start hrun

end DurableActors.Ports.SocketBus
