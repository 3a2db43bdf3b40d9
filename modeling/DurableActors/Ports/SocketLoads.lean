import DurableActors.Ports.SocketTracking

/-!
# Loads of watched actors

A watch that returns relies on a load: its own, the one of an earlier watch, or the
one made after a reconnect.  While a session lasts, a subscribed actor is loaded, is
being loaded, is about to be unsubscribed, or has no watch but one whose load failed
(`Kept.loaded`).  A watch that is answered with success excludes the last two.
-/

namespace DurableActors.Ports.SocketBus

open Verified

variable {K : Type} [DecidableEq K]
variable {actor other : K} {i : Nat}

/-- Some watch of the actor was answered with success. -/
def Bus.Settled (bus : Bus K) (actor : K) : Prop :=
  ∃ (i : Nat) (watch : Watch K), bus.watches[i]? = some watch ∧ watch.actor = actor ∧
    watch.state.settled = true

/-- The only watch of the actor was answered with an error. -/
def Bus.Failed (bus : Bus K) (actor : K) : Prop :=
  ∃ i, bus.watches[i]? = some ⟨actor, .answered false⟩ ∧ ∀ j, bus.Live actor j → j = i

/-- A subscribed channel has been loaded, or its load is under way. -/
structure World.Kept (w : World K) (actor : K) : Prop where
  loaded : w.listener.down = false → w.connection.channels actor = true →
    w.fresh actor = true ∨ w.listener.loads = some actor ∨ .unsubscribe actor ∈ w.pending ∨
      w.bus.Failed actor
  settled : w.connected = true → w.bus.Settled actor → w.fresh actor = true

theorem Bus.Failed.answer {bus : Bus K} (h : bus.Failed actor) (i : Nat) (ok : Bool) :
    (bus.answer i ok).Failed actor := by
  obtain ⟨k, hget, honly⟩ := h
  refine ⟨k, ?_, fun j hj => honly j (Bus.live_answer hj)⟩
  rw [Bus.getElem?_answer, hget, Option.map_some, if_neg fun hcase => nomatch hcase.2]

/-- An answer settles at most the watch it is for. -/
theorem Bus.Settled.of_answer {bus : Bus K} {ok : Bool} (h : (bus.answer i ok).Settled actor) :
    bus.Settled actor ∨ (ok = true ∧ bus.Live actor i) := by
  obtain ⟨j, after, hafter, hactor, hsettled⟩ := h
  obtain ⟨before, hget, hsame, rfl | ⟨rfl, hwaiting, hanswered⟩⟩ := Bus.of_getElem?_answer hafter
  · exact .inl ⟨j, after, hget, hactor, hsettled⟩
  · rw [hanswered] at hsettled
    cases ok with
    | false => cases hsettled
    | true =>
      exact .inr ⟨rfl, before, hget, Watch.counts_iff.mpr ⟨hsame ▸ hactor, by simp [hwaiting]⟩⟩

/-! ## What a settled watch excludes -/

theorem World.Tracked.owner {w : World K} (h : w.Tracked) {load : Bool}
    {rest : List (Command K)} (hpending : w.pending = .subscribe other load i :: rest)
    (hlive : w.bus.Live actor i) : actor = other := by
  obtain ⟨watch, hget, hactor, -⟩ := h.queue.owned (by rw [hpending]; exact List.mem_cons_self)
  obtain ⟨watch', hget', hcounts⟩ := hlive
  cases hget.symm.trans hget'
  exact (Watch.counts_iff.mp hcounts).1.symm.trans hactor

/-- A live watch has its command behind every unsubscribe command of its actor. -/
theorem World.Tracked.behind_mem {w : World K} (h : w.Tracked) {commands : List (Command K)}
    (hsuffix : commands <:+ w.pending) (hmem : .unsubscribe actor ∈ commands)
    (hlive : w.bus.Live actor i) : ∃ load, .subscribe actor load i ∈ commands := by
  obtain ⟨before, rest, rfl⟩ := List.append_of_mem hmem
  obtain ⟨load, hbehind⟩ := h.behind ((List.suffix_append before _).trans hsuffix) hlive
  exact ⟨load, List.mem_append_right _ (List.mem_cons_of_mem _ hbehind)⟩

theorem World.Tracked.channels_of_settled {w : World K} (h : w.Tracked)
    (hconnected : w.connected = true) (hsettled : w.bus.Settled actor) :
    w.connection.channels actor = true := by
  obtain ⟨i, watch, hget, rfl, hstate⟩ := hsettled
  refine (h.settled (.inl hconnected) hget hstate).resolve_right fun htodo => ?_
  -- a listener with something to restore is not connected
  rw [h.offline (.inr (Listener.restoring_of_mem_todo htodo))] at hconnected
  cases hconnected

/-- A settled watch of a subscribed channel has a loaded value. -/
theorem World.Tracked.fresh_of_settled {w : World K} (h : w.Tracked) (hkept : w.Kept actor)
    (hup : w.listener.down = false) (hloads : w.listener.loads = none)
    (hchannel : w.connection.channels actor = true) (hsettled : w.bus.Settled actor) :
    w.fresh actor = true := by
  obtain ⟨i, watch, hget, rfl, hstate⟩ := hsettled
  have hlive : w.bus.Live watch.actor i :=
    ⟨watch, hget, Watch.counts_iff.mpr ⟨rfl, WatchState.settled_ne_ended hstate⟩⟩
  rcases hkept.loaded hup hchannel with hfresh | hcase | hmem | ⟨k, hfailed, honly⟩
  · exact hfresh
  · rw [hloads] at hcase
    cases hcase
  · obtain ⟨load, hpending⟩ := h.behind_mem (List.suffix_refl _) hmem hlive
    obtain ⟨before, hbefore, -, hwaiting⟩ := h.queue.owned hpending
    cases hget.symm.trans hbefore
    rcases hwaiting with hwaiting | hwaiting <;> rw [hwaiting] at hstate <;> cases hstate
  · rw [honly i hlive, hfailed] at hget
    rw [← Option.some.inj hget] at hstate
    cases hstate

/-! ## Every step -/

/-- A load fails only for a watch that is alone, and nobody joins a watch that was
answered with an error. -/
def World.Awaited (w : World K) : Action K → Prop
  | .enter i =>
    match w.bus.checked[i]? with
    | some actor =>
      ∀ watch ∈ w.bus.watches, watch.actor = actor → watch.state ≠ .answered false
    | none => True
  | .fail =>
    match w.listener with
    | .loading actor (.reply i) =>
      ∀ watch ∈ w.bus.watches.eraseIdx i, watch.actor = actor → watch.state = .ended
    | _ => True
  | _ => True

instance World.decidableAwaited (w : World K) : ∀ action, Decidable (w.Awaited action)
  | .enter i =>
    match hchecked : w.bus.checked[i]? with
    | some actor => decidable_of_iff
        (∀ watch ∈ w.bus.watches, watch.actor = actor → watch.state ≠ .answered false)
        (by simp only [World.Awaited, hchecked])
    | none => .isTrue (by simp only [World.Awaited, hchecked])
  | .fail =>
    match hlistener : w.listener with
    | .loading actor (.reply i) => decidable_of_iff
        (∀ watch ∈ w.bus.watches.eraseIdx i, watch.actor = actor → watch.state = .ended)
        (by simp only [World.Awaited, hlistener])
    | .offline | .resubscribing _ | .loading _ (.restore _) | .loaded _ _ _ _ | .idle
    | .handling _ | .failed | .stopped => .isTrue (by simp only [World.Awaited, hlistener])
  | .check _ | .ready _ | .leave _ | .publish _ _ | .send _ | .abandon _ | .expire _ | .connect
  | .confirm | .read | .apply | .online | .take | .receive | .cut | .disconnect | .stop =>
    .isTrue trivial

section Steps

variable {w w' : World K} {actor : K}

variable (h : w.Kept actor)
include h

theorem World.Kept.congr (hchannels : w'.connection.channels actor = w.connection.channels actor)
    (hfresh : w'.fresh actor = w.fresh actor)
    (hdown : w'.listener.down = false → w.listener.down = false)
    (hloads : w.listener.loads = some actor → w'.listener.loads = some actor)
    (hpending : .unsubscribe actor ∈ w.pending → .unsubscribe actor ∈ w'.pending)
    (hfailed : w.bus.Failed actor → .unsubscribe actor ∈ w'.pending ∨ w'.bus.Failed actor)
    (hconnected : w'.connected = true → w.connected = true)
    (hsettled : w'.bus.Settled actor → w.bus.Settled actor) : w'.Kept actor := by
  refine ⟨fun hup hchannel => ?_, fun hwhen hafter => ?_⟩
  · rw [hchannels] at hchannel
    rw [hfresh]
    rcases h.loaded (hdown hup) hchannel with hcase | hcase | hcase | hcase
    · exact .inl hcase
    · exact .inr (.inl (hloads hcase))
    · exact .inr (.inr (.inl (hpending hcase)))
    · exact .inr (.inr (hfailed hcase))
  · rw [hfresh]
    exact h.settled (hconnected hwhen) (hsettled hafter)

/-- A watch is counted. -/
theorem World.Kept.enter {checked : List K}
    (hawaited : ∀ watch ∈ w.bus.watches, watch.actor = other → watch.state ≠ .answered false) :
    { w with bus := { w.bus with checked := checked }.enter other }.Kept actor := by
  refine h.congr rfl rfl id id (fun hmem => ?_) (fun hfailed => ?_) id ?_
  · rcases List.mem_append.mp hmem with hmem | hmem
    · exact List.mem_append_left _ hmem
    · exact List.mem_append_right _ (List.mem_append_left _ hmem)
  · obtain ⟨k, hget, honly⟩ := hfailed
    have hne : actor ≠ other := by
      rintro rfl
      exact hawaited _ (List.mem_of_getElem? hget) rfl rfl
    have hlt := (List.getElem?_eq_some_iff.mp hget).1
    refine .inr ⟨k, (List.getElem?_append_left hlt).trans hget, fun j hj => honly j ?_⟩
    exact (Bus.live_enter.mp hj).resolve_right fun hnew => hne hnew.1
  · rintro ⟨i, watch, hget, hactor, hstate⟩
    rcases Bus.of_getElem?_enter hget with hget | rfl
    · exact ⟨i, watch, hget, hactor, hstate⟩
    · cases hstate

/-- `watch` returns to its caller. -/
theorem World.Kept.return (hget : w.bus.watches[i]? = some ⟨other, .answered true⟩) :
    { w with bus := w.bus.setState i .watching }.Kept actor := by
  refine h.congr rfl rfl id id id (fun hfailed => ?_) id ?_
  · obtain ⟨k, hk, honly⟩ := hfailed
    refine .inr ⟨k, ?_, fun j hj => honly j (Bus.live_return hget hj)⟩
    show (w.bus.setState i .watching).watches[k]? = _
    have hne : i ≠ k := by
      rintro rfl
      rw [hget] at hk
      cases hk
    rw [Bus.getElem?_setState, hk, Option.map_some, if_neg hne]
  · rintro ⟨j, after, hafter, hactor, hstate⟩
    obtain ⟨before, hbefore, hsame, rfl | ⟨hanswered, -⟩⟩ := Bus.of_getElem?_return hget hafter
    · exact ⟨j, after, hbefore, hactor, hstate⟩
    · exact ⟨j, before, hbefore, hsame ▸ hactor, by rw [hanswered]; rfl⟩

variable (htracked : w.Tracked)
include htracked

/-- A watch ends. -/
theorem World.Kept.leave {watch : Watch K} (hget : w.bus.watches[i]? = some watch)
    (hstate : watch.state ≠ .ended) :
    { w with bus := (w.bus.setState i .ended).unwatch watch.actor }.Kept actor := by
  have hcommands := (htracked.queue.counted.leave hget hstate).2
  refine h.congr rfl rfl id id (fun hmem => ?_) (fun hfailed => ?_) id ?_
  · show _ ∈ w.listener.current ++ ((w.bus.setState i .ended).unwatch watch.actor).commands
    rw [hcommands, ← List.append_assoc]
    exact List.mem_append_left _ hmem
  · obtain ⟨k, hk, honly⟩ := hfailed
    by_cases hik : i = k
    · -- the last watch of the actor leaves, and its unsubscribe command is sent
      subst hik
      rw [hget] at hk
      cases hk
      have hzero : (w.bus.setState i .ended).count actor = 0 := by
        by_contra hne
        obtain ⟨j, after, hj, hcounts⟩ := Bus.exists_live hne
        have hlive : ((w.bus.setState i .ended).unwatch actor).Live actor j :=
          ⟨after, by rw [Bus.watches_unwatch]; exact hj, hcounts⟩
        rw [honly j (Bus.live_leave hlive), Bus.getElem?_setState, hget] at hj
        cases hj
        simp [Watch.counts] at hcounts
      left
      show _ ∈ w.listener.current ++ ((w.bus.setState i .ended).unwatch actor).commands
      rw [hcommands, if_pos hzero]
      exact List.mem_append_right _ (List.mem_append_right _ (List.mem_singleton_self _))
    · refine .inr ⟨k, ?_, fun j hj => honly j (Bus.live_leave hj)⟩
      show ((w.bus.setState i .ended).unwatch watch.actor).watches[k]? = _
      rw [Bus.watches_unwatch, Bus.getElem?_setState, hk, Option.map_some, if_neg hik]
  · rintro ⟨j, after, hafter, hactor, hsettled⟩
    obtain ⟨before, hbefore, -, rfl | hended⟩ := Bus.of_getElem?_leave hafter
    · exact ⟨j, after, hbefore, hactor, hsettled⟩
    · exact absurd hended (WatchState.settled_ne_ended hsettled)

/-- The listener subscribes, and the load is next. -/
theorem World.Kept.subscribing {listener : Listener K} (hloads : w.listener.loads = none)
    (hloads' : listener.loads = some other) (hup : w.listener.down = false)
    (hcurrent : listener.current = w.listener.current) :
    { w.subscribe other with listener := listener }.Kept actor := by
  have hbus : ({ w.subscribe other with listener := listener } : World K).bus = w.bus :=
    w.bus_subscribe other
  have hpending : World.pending { w.subscribe other with listener := listener } = w.pending := by
    rw [World.pending, World.pending, hbus, ← hcurrent]
  by_cases hother : actor = other
  · subst hother
    refine ⟨fun _ _ => .inr (.inl hloads'), fun hconnected hsettled => ?_⟩
    have hconnected : w.connected = true := (w.connected_subscribe actor).symm.trans hconnected
    have hsettled : w.bus.Settled actor := hbus ▸ hsettled
    show (w.subscribe actor).fresh actor = true
    rw [World.subscribe_of_subscribed (htracked.channels_of_settled hconnected hsettled)]
    exact h.settled hconnected hsettled
  · refine h.congr (World.channels_subscribe_of_ne hother) (World.fresh_subscribe_of_ne hother)
      (fun _ => hup) (by rw [hloads]; rintro ⟨⟩) (by rw [hpending]; exact id)
      (by rw [hbus]; exact .inr) ?_ (by rw [hbus]; exact id)
    exact (w.connected_subscribe other).symm.trans

/-- A subscribe command without a load. -/
theorem World.Kept.subscribed (hlistener : w.listener = .handling (.subscribe other false i)) :
    ((w.subscribe other).afterLoad (.reply i)).Kept actor := by
  have hpending : w.pending = .subscribe other false i :: w.bus.commands := by
    rw [World.pending, hlistener]
    rfl
  have hqueue := htracked.queue
  rw [hpending] at hqueue
  have hbus : ((w.subscribe other).afterLoad (.reply i)).bus = w.bus.answer i true := by
    rw [World.afterLoad, World.bus_subscribe]
  have hpending' : World.pending ((w.subscribe other).afterLoad (.reply i)) = w.bus.commands := by
    rw [World.pending, hbus]
    rfl
  have hmem : ∀ {actor : K}, .unsubscribe actor ∈ w.pending →
      .unsubscribe actor ∈ w.bus.commands := by
    intro actor hmem
    rw [hpending] at hmem
    exact (List.mem_cons.mp hmem).resolve_left (by rintro ⟨⟩)
  have hup : w.listener.down = false := by rw [hlistener]; rfl
  have hconnected : ((w.subscribe other).afterLoad (.reply i)).connected = w.connected :=
    w.connected_subscribe other
  by_cases hother : actor = other
  · subst hother
    -- the watch of the command is not behind an unsubscribe command
    have hbehind : .unsubscribe actor ∈ w.bus.commands → ¬ w.bus.Live actor i := by
      intro hmem hlive
      obtain ⟨load, hsubscribe⟩ := htracked.behind_mem (by rw [hpending]; exact List.suffix_cons ..)
        hmem hlive
      exact hqueue.not_mem actor load hsubscribe
    have hloaded : (w.subscribe actor).fresh actor = true ∨
        .unsubscribe actor ∈ w.bus.commands ∨ w.bus.Failed actor := by
      by_cases hchannel : w.connection.channels actor = true
      · rw [World.subscribe_of_subscribed hchannel]
        rcases h.loaded hup hchannel with hcase | hcase | hcase | hcase
        · exact .inl hcase
        · rw [hlistener] at hcase
          cases hcase
        · exact .inr (.inl (hmem hcase))
        · exact .inr (.inr hcase)
      · have hends := htracked.ends actor
        rw [hpending, World.outset_of_up hup, hlistener] at hends
        refine .inr (.inl ((hends.1 rfl).resolve_left fun hsubscribed => hchannel ?_))
        simpa [Listener.todo] using hsubscribed
    refine ⟨fun _ _ => ?_, fun hwhen hsettled => ?_⟩
    · rw [hpending', hbus]
      exact hloaded.imp_right fun hcase =>
        .inr (hcase.imp_right fun hfailed => hfailed.answer i true)
    · rw [hbus] at hsettled
      rw [hconnected] at hwhen
      rcases hsettled.of_answer with hold | ⟨-, hlive⟩
      · show (w.subscribe actor).fresh actor = true
        rw [World.subscribe_of_subscribed (htracked.channels_of_settled hwhen hold)]
        exact h.settled hwhen hold
      · rcases hloaded with hfresh | hunsubscribe | ⟨k, hk, honly⟩
        · exact hfresh
        · exact absurd hlive (hbehind hunsubscribe)
        · obtain ⟨watch, hget, -, hstate⟩ := hqueue.owned List.mem_cons_self
          rw [honly i hlive, hk] at hget
          cases hget
          rcases hstate with hstate | hstate <;> cases hstate
  · refine h.congr (World.channels_subscribe_of_ne hother) (World.fresh_subscribe_of_ne hother)
      (fun _ => hup) (by rw [hlistener]; rintro ⟨⟩) (fun hcase => ?_) (fun hfailed => ?_)
      (by rw [hconnected]; exact id) (fun hsettled => ?_)
    · rw [hpending']
      exact hmem hcase
    · rw [hbus]
      exact .inr (hfailed.answer i true)
    · rw [hbus] at hsettled
      exact hsettled.of_answer.resolve_right fun hnew => hother (htracked.owner hpending hnew.2)

/-- The load of a watch that is alone fails. -/
theorem World.Kept.unloaded (hlistener : w.listener = .loading other (.reply i))
    (halone : ∀ watch ∈ w.bus.watches.eraseIdx i, watch.actor = other → watch.state = .ended) :
    { w with bus := w.bus.answer i false, listener := .idle }.Kept actor := by
  have hpending : w.pending = .subscribe other true i :: w.bus.commands := by
    rw [World.pending, hlistener]
    rfl
  have hqueue := htracked.queue
  rw [hpending] at hqueue
  have hsettled : (w.bus.answer i false).Settled actor → w.bus.Settled actor :=
    fun hcase => hcase.of_answer.resolve_right (by rintro ⟨⟨⟩, _⟩)
  by_cases hother : actor = other
  · subst hother
    have honly : ∀ j, w.bus.Live actor j → j = i := by
      rintro j ⟨watch, hget, hcounts⟩
      by_contra hne
      obtain ⟨hactor, hended⟩ := Watch.counts_iff.mp hcounts
      exact hended (halone watch (List.mem_eraseIdx_iff_getElem?.mpr ⟨j, hne, hget⟩) hactor)
    refine ⟨fun _ _ => .inr (.inr ?_),
      fun hconnected hcase => h.settled hconnected (hsettled hcase)⟩
    obtain ⟨⟨actor', state⟩, hget, hactor, hstate⟩ := hqueue.owned List.mem_cons_self
    obtain rfl : actor' = actor := hactor
    rcases hstate with rfl | rfl
    · refine .inr ⟨i, ?_, fun j hj => honly j (Bus.live_answer hj)⟩
      show (w.bus.answer i false).watches[i]? = _
      rw [Bus.getElem?_answer, hget, Option.map_some, if_pos ⟨rfl, rfl⟩]
    · -- nobody is left, so the unsubscribe command was sent
      have hnone : w.counted actor' = false := by
        by_contra hcounted
        obtain ⟨j, hj⟩ := Bus.exists_live (World.counted_iff.mp (by simpa using hcounted))
        obtain rfl := honly j hj
        obtain ⟨watch, hget', hcounts⟩ := hj
        cases hget.symm.trans hget'
        simp [Watch.counts] at hcounts
      have hends := htracked.ends actor'
      rw [hpending, hnone] at hends
      have hrest := hends.2
      rw [Command.track, if_pos rfl] at hrest
      exact .inl (hrest.subscribed_or_ended.resolve_left (by rintro ⟨⟩))
  · refine h.congr rfl rfl (fun _ => by rw [hlistener]; rfl) ?_ (fun hmem => ?_)
      (fun hfailed => .inr (hfailed.answer i false)) id hsettled
    · rw [hlistener]
      exact fun hloads => absurd (Option.some.inj hloads).symm hother
    · rw [hpending] at hmem
      exact (List.mem_cons.mp hmem).resolve_left (by rintro ⟨⟩)

/-- The loaded value is applied. -/
theorem World.Kept.apply {n : Nat} {job : Job K} {stored : Option AutoResponse}
    {registry : K → Option (String × String)}
    (hlistener : w.listener = .loaded other stored n job) :
    (World.afterLoad { w with
      registry := registry, fresh := Function.update w.fresh other true } job).Kept actor := by
  by_cases hother : actor = other
  · subst hother
    cases job
    all_goals
      exact ⟨fun _ _ => .inl (Function.update_self ..), fun _ _ => Function.update_self ..⟩
  · have hfresh := Function.update_of_ne hother true w.fresh
    have hup : w.listener.down = false := by rw [hlistener]; rfl
    have hloads : w.listener.loads ≠ some actor := by
      rw [hlistener]
      exact fun hloads => hother (Option.some.inj hloads).symm
    cases job with
    | restore rest =>
      refine h.congr rfl hfresh (fun _ => hup) (fun hcase => absurd hcase hloads) (fun hmem => ?_)
        .inr id id
      rw [World.pending, hlistener] at hmem
      exact hmem
    | reply i =>
      have hpending : w.pending = .subscribe other true i :: w.bus.commands := by
        rw [World.pending, hlistener]
        rfl
      refine h.congr rfl hfresh (fun _ => hup) (fun hcase => absurd hcase hloads) (fun hmem => ?_)
        (fun hfailed => .inr (hfailed.answer i true)) id fun hsettled => ?_
      · rw [hpending] at hmem
        exact (List.mem_cons.mp hmem).resolve_left (by rintro ⟨⟩)
      · exact (Bus.Settled.of_answer hsettled).resolve_right
          fun hnew => hother (htracked.owner hpending hnew.2)

/-- Every step keeps a subscribed channel loaded or loading. -/
theorem World.Kept.step {action : Action K} (hawaited : w.Awaited action)
    (hstep : SocketBus.step w action = some w') : w'.Kept actor := by
  cases Step.of_step hstep with
  | check | publish | abandon | expire | cut | receive =>
    exact h.congr rfl rfl id id id .inr id id
  | send =>
    exact h.congr (congrFun (w.connection.channels_deliver _) actor) rfl id id id .inr id id
  | enter hchecked =>
    simp only [World.Awaited, hchecked] at hawaited
    exact h.enter hawaited
  | ready hget => exact h.return hget
  | leave hget hstate => exact h.leave htracked hget hstate
  | connect => exact ⟨by rintro _ ⟨⟩, h.settled⟩
  | restore hlistener | load hlistener =>
    exact h.subscribing htracked (by rw [hlistener]; rfl) rfl (by rw [hlistener]; rfl)
      (by rw [hlistener]; rfl)
  | subscribe hlistener => exact h.subscribed htracked hlistener
  | @unsubscribe other hlistener =>
    by_cases hother : actor = other
    · subst hother
      refine ⟨fun _ hchannel => ?_, h.settled⟩
      have hfalse : Function.update w.connection.channels actor false actor = true := hchannel
      rw [Function.update_self] at hfalse
      cases hfalse
    · refine h.congr (Function.update_of_ne hother ..) rfl (fun _ => by rw [hlistener]; rfl)
        (by rw [hlistener]; rintro ⟨⟩) (fun hmem => ?_) .inr id id
      rw [World.pending, hlistener] at hmem
      refine (List.mem_cons.mp hmem).resolve_left fun hcase => ?_
      cases hcase
      exact hother rfl
  | @read _ job hlistener =>
    refine h.congr rfl rfl (fun _ => by rw [hlistener]; rfl) (by rw [hlistener]; exact id)
      (fun hmem => ?_) .inr id id
    rw [World.pending, hlistener] at hmem
    cases job <;> exact hmem
  | apply hlistener => exact h.apply htracked hlistener
  | online hlistener =>
    have hup : w.listener.down = false := by rw [hlistener]; rfl
    refine ⟨fun _ hchannel => ?_, fun _ hsettled => ?_⟩
    · have hloaded := h.loaded hup hchannel
      rw [World.pending, hlistener] at hloaded
      exact hloaded
    · have hrestored : w.connection.channels actor = true := by
        obtain ⟨i, watch, hget, rfl, hstate⟩ := hsettled
        refine (htracked.settled (.inr (by rw [hlistener]; rfl)) hget hstate).resolve_right ?_
        rw [hlistener]
        exact List.not_mem_nil
      exact htracked.fresh_of_settled h hup (by rw [hlistener]; rfl) hrestored hsettled
  | take hlistener hcommands =>
    refine h.congr rfl rfl (fun _ => by rw [hlistener]; rfl) (by rw [hlistener]; rintro ⟨⟩)
      (fun hmem => ?_) .inr id id
    rw [World.pending, hlistener, hcommands] at hmem
    exact hmem
  | dropped => exact ⟨(by rintro ⟨⟩), h.settled⟩
  | refused =>
    exact ⟨(by rintro ⟨⟩), fun hconnected hcase =>
      h.settled hconnected (hcase.of_answer.resolve_right (by rintro ⟨⟨⟩, _⟩))⟩
  | unloaded hlistener =>
    simp only [World.Awaited, hlistener] at hawaited
    exact h.unloaded htracked hlistener hawaited
  | disconnect | stop => exact ⟨(by rintro ⟨⟩), (by rintro ⟨⟩)⟩

end Steps

theorem World.kept_start (actor : K) : ({} : World K).Kept actor := ⟨nofun, nofun⟩

end DurableActors.Ports.SocketBus
