import DurableActors.Ports.SocketLoads

/-!
# Auto-responses of watched sockets

The values of an actor's key are numbered by their place in its history.  A
publication carries the number of the value it wrote, so the auto-response the
registry holds has a number too: the one that was loaded or delivered last.  It
is in force if that number is not behind the subscription that the listener made,
nor behind any publication that was delivered.

Numbers reach the listener in order when no two publishers of one actor are
between their two commands at once, and when a channel is not subscribed to again
while something published before is still unread (`World.Sequenced`).
-/

namespace DurableActors.Ports.SocketBus

open Verified

variable {K : Type} [DecidableEq K]
variable {actor other : K} {w w' : World K}

/-! ## The way of a value -/

/-- The publication carries the value its number stands for. -/
def Publication.Wrote (p : Publication K) (history : List (Option AutoResponse)) : Prop :=
  match p.write with
  | some n => ∃ value, lastAutoResponse p.effects = some value ∧ history[n]? = some value.store
  | none => lastAutoResponse p.effects = none

/-- The numbers on the way to the listener. -/
def writes (stream : List (Publication K)) (actor : K) : List Nat :=
  stream.filterMap fun p => if p.actor = actor then p.write else none

/-- A value that was stored after the subscription was made and after every value that
was delivered. -/
def World.Holds (w : World K) (actor : K) (n : Nat) (stored : Option AutoResponse) : Prop :=
  (w.redis.history actor)[n]? = some stored ∧ w.since actor ≤ n ∧
    ∀ m, (actor, m) ∈ w.delivered → m ≤ n

/-- Where the values of the key of an actor are on their way to the registry. -/
structure World.Lane (w : World K) (actor : K) : Prop where
  since : w.since actor < (w.redis.history actor).length
  /-- A publisher between its commands wrote the newest value. -/
  newest {p : Publication K} {n : Nat} : p ∈ w.redis.publishing → p.actor = actor →
    p.write = some n → n + 1 = (w.redis.history actor).length
  wrote {p : Publication K} : p ∈ w.redis.publishing ∨ p ∈ w.connection.stream →
    p.actor = actor → p.Wrote (w.redis.history actor)
  ordered : (writes w.connection.stream actor).Pairwise (· ≤ ·)
  received {n : Nat} : n ∈ writes w.connection.stream actor →
    w.since actor ≤ n ∧ n < (w.redis.history actor).length ∧
      ∀ m, (actor, m) ∈ w.delivered → m ≤ n
  delivered {m : Nat} : (actor, m) ∈ w.delivered → m < (w.redis.history actor).length
  /-- While a session is set up, only what was subscribed in it is received. -/
  clean : w.listener.restoring = true → w.connection.channels actor = false →
    writes w.connection.stream actor = []
  loaded {stored : Option AutoResponse} {n : Nat} {job : Job K} :
    w.listener = .loaded actor stored n job → w.Holds actor n stored
  current : w.fresh actor = true →
    ∃ n stored, w.Holds actor n stored ∧ w.registry actor = load stored

omit [DecidableEq K] in
theorem Publication.Wrote.append {p : Publication K} {history : List (Option AutoResponse)}
    (h : p.Wrote history) (later : List (Option AutoResponse)) : p.Wrote (history ++ later) := by
  unfold Publication.Wrote at h ⊢
  split at h
  · obtain ⟨value, hvalue, hget⟩ := h
    have hlt := (List.getElem?_eq_some_iff.mp hget).1
    exact ⟨value, hvalue, by rw [List.getElem?_append_left hlt, hget]⟩
  · exact h

theorem writes_append (stream later : List (Publication K)) (actor : K) :
    writes (stream ++ later) actor = writes stream actor ++ writes later actor :=
  List.filterMap_append

theorem mem_writes {stream : List (Publication K)} {n : Nat} :
    n ∈ writes stream actor ↔ ∃ p ∈ stream, p.actor = actor ∧ p.write = some n := by
  simp [writes, List.mem_filterMap]

/-- Steps that do not touch the way of the actor's values. -/
theorem World.Lane.congr (h : w.Lane actor)
    (hhistory : w'.redis.history actor = w.redis.history actor)
    (hpublishing : ∀ p, p ∈ w'.redis.publishing → p.actor = actor → p ∈ w.redis.publishing)
    (hstream : w'.connection.stream = w.connection.stream)
    (hsince : w'.since actor = w.since actor) (hfresh : w'.fresh actor = w.fresh actor)
    (hregistry : w'.registry actor = w.registry actor) (hdelivered : w'.delivered = w.delivered)
    (hclean : w'.listener.restoring = true → w'.connection.channels actor = false →
      writes w.connection.stream actor = [])
    (hloaded : ∀ stored n job, w'.listener = .loaded actor stored n job →
      w.listener = .loaded actor stored n job) : w'.Lane actor := by
  have hholds : ∀ n stored, w'.Holds actor n stored ↔ w.Holds actor n stored := by
    intro n stored
    rw [World.Holds, World.Holds, hhistory, hsince, hdelivered]
  refine ⟨?_, fun hmem hactor => ?_, fun {p} hmem hactor => ?_, ?_, ?_, ?_, ?_, ?_, ?_⟩
  · rw [hsince, hhistory]
    exact h.since
  · rw [hhistory]
    exact h.newest (hpublishing _ hmem hactor) hactor
  · rw [hhistory]
    rw [hstream] at hmem
    exact h.wrote (hmem.imp_left fun hmem => hpublishing p hmem hactor) hactor
  · rw [hstream]
    exact h.ordered
  · rw [hstream, hsince, hhistory, hdelivered]
    exact h.received
  · rw [hdelivered, hhistory]
    exact h.delivered
  · rw [hstream]
    exact hclean
  · intro stored n job hlistener
    rw [hholds]
    exact h.loaded (hloaded stored n job hlistener)
  · rw [hfresh, hregistry]
    intro hfresh
    obtain ⟨n, stored, hold, hload⟩ := h.current hfresh
    exact ⟨n, stored, (hholds n stored).mpr hold, hload⟩

omit [DecidableEq K] in
theorem World.Holds.append {n : Nat} {stored : Option AutoResponse}
    (h : w.Holds actor n stored) {later : List (Option AutoResponse)}
    (hhistory : w'.redis.history actor = w.redis.history actor ++ later)
    (hsince : w'.since actor = w.since actor) (hdelivered : w'.delivered = w.delivered) :
    w'.Holds actor n stored := by
  obtain ⟨hget, hle, hall⟩ := h
  have hlt := (List.getElem?_eq_some_iff.mp hget).1
  refine ⟨?_, hsince ▸ hle, hdelivered ▸ hall⟩
  rw [hhistory, List.getElem?_append_left hlt, hget]

/-- A new value of the key, written when no publisher is between its commands. -/
theorem World.Lane.written (h : w.Lane actor) {redis : Redis K} {value : Option AutoResponse}
    (hnone : ∀ p ∈ w.redis.publishing, p.actor = actor → p.write = none)
    (hhistory : redis.history actor = w.redis.history actor ++ [value])
    (hpublishing : ∀ p ∈ redis.publishing, p ∈ w.redis.publishing ∨
      (p.write = some (w.redis.history actor).length ∧
        ∃ r, lastAutoResponse p.effects = some r ∧ r.store = value)) :
    { w with redis := redis }.Lane actor := by
  have hlength : (redis.history actor).length = (w.redis.history actor).length + 1 := by
    rw [hhistory, List.length_append, List.length_singleton]
  refine ⟨?_, fun {p n} hmem hactor hwrite => ?_, fun {p} hmem hactor => ?_, h.ordered,
    fun {n} hn => ?_, fun {m} hm => ?_, h.clean, fun hlistener => ?_, fun hfresh => ?_⟩
  · show w.since actor < (redis.history actor).length
    have hlt := h.since
    omega
  · show n + 1 = (redis.history actor).length
    rcases hpublishing p hmem with hold | ⟨hnew, -⟩
    · rw [hnone p hold hactor] at hwrite
      cases hwrite
    · rw [hnew] at hwrite
      cases hwrite
      exact hlength.symm
  · show p.Wrote (redis.history actor)
    rw [hhistory]
    rcases hmem with hmem | hmem
    · rcases hpublishing p hmem with hold | ⟨hnew, r, hlast, hstore⟩
      · exact (h.wrote (.inl hold) hactor).append _
      · rw [Publication.Wrote, hnew]
        refine ⟨r, hlast, ?_⟩
        rw [hstore]
        exact List.getElem?_concat_length
    · exact (h.wrote (.inr hmem) hactor).append _
  · show w.since actor ≤ n ∧ n < (redis.history actor).length ∧ _
    obtain ⟨hsince, hlt, hall⟩ := h.received hn
    exact ⟨hsince, by omega, hall⟩
  · show m < (redis.history actor).length
    have hlt := h.delivered hm
    omega
  · exact (h.loaded hlistener).append hhistory rfl rfl
  · obtain ⟨n, stored, hold, hload⟩ := h.current hfresh
    exact ⟨n, stored, hold.append hhistory rfl rfl, hload⟩

theorem World.mem_delivered_receive {p : Publication K} {m : Nat}
    (hm : (actor, m) ∈ (w.receive p).delivered) :
    (actor, m) ∈ w.delivered ∨ p.actor = actor ∧ p.write = some m := by
  refine (List.mem_append.mp hm).imp_right fun hm => ?_
  obtain ⟨n, hwrite, heq⟩ := Option.map_eq_some_iff.mp (Option.mem_toList.mp hm)
  cases heq
  exact ⟨rfl, hwrite⟩

/-- A publication of no newer value is received. -/
theorem World.Holds.receive {n : Nat} {stored : Option AutoResponse} (h : w.Holds actor n stored)
    {p : Publication K} (hle : ∀ m, p.actor = actor → p.write = some m → m ≤ n)
    (connection : Connection K) :
    ({ w with connection := connection }.receive p).Holds actor n stored := by
  obtain ⟨hget, hsince, hall⟩ := h
  refine ⟨hget, hsince, fun m hm => ?_⟩
  rcases World.mem_delivered_receive hm with hm | ⟨hactor, hwrite⟩
  · exact hall m hm
  · exact hle m hactor hwrite

/-! ## The steps of a publisher -/

/-- No two publishers of an actor are between their commands, and a channel that is
subscribed to again has nothing unread. -/
def World.Sequenced (w : World K) : Action K → Prop
  | .publish actor effects =>
    lastAutoResponse effects = none ∨
      ∀ p ∈ w.redis.publishing, p.actor = actor → p.write = none
  | .confirm =>
    match w.listener with
    | .handling (.subscribe actor _ _) =>
      w.connection.channels actor = true ∨ writes w.connection.stream actor = []
    | _ => True
  | _ => True

instance World.decidableSequenced (w : World K) : ∀ action, Decidable (w.Sequenced action)
  | .publish actor effects => inferInstanceAs (Decidable (lastAutoResponse effects = none ∨
      ∀ p ∈ w.redis.publishing, p.actor = actor → p.write = none))
  | .confirm =>
    match hlistener : w.listener with
    | .handling (.subscribe actor _ _) => decidable_of_iff
        (w.connection.channels actor = true ∨ writes w.connection.stream actor = [])
        (by simp only [World.Sequenced, hlistener])
    | .offline | .resubscribing _ | .loading _ _ | .loaded _ _ _ _ | .idle
    | .handling (.unsubscribe _) | .failed | .stopped =>
      .isTrue (by simp only [World.Sequenced, hlistener])
  | .check _ | .enter _ | .ready _ | .leave _ | .send _ | .abandon _ | .expire _ | .connect
  | .read | .apply | .online | .take | .receive | .cut | .fail | .disconnect | .stop =>
    .isTrue trivial

section

variable (h : w.Lane actor)
include h

/-- A new value is stored and its publication follows. -/
theorem World.Lane.publish {effects : List Effect}
    (hsequenced : w.Sequenced (.publish other effects)) :
    { w with redis := w.redis.write other effects }.Lane actor := by
  cases hlast : lastAutoResponse effects with
  | none =>
    have hwrite : w.redis.write other effects =
        { w.redis with publishing := w.redis.publishing ++ [⟨other, effects, none⟩] } := by
      rw [Redis.write, hlast]
    rw [hwrite]
    refine ⟨h.since, fun {p n} hmem hactor hwrite => ?_, fun {p} hmem hactor => ?_, h.ordered,
      h.received, h.delivered, h.clean, h.loaded, h.current⟩
    · rcases List.mem_append.mp hmem with hmem | hmem
      · exact h.newest hmem hactor hwrite
      · rw [List.mem_singleton.mp hmem] at hwrite
        cases hwrite
    · rcases hmem with hmem | hmem
      · rcases List.mem_append.mp hmem with hmem | hmem
        · exact h.wrote (.inl hmem) hactor
        · rw [List.mem_singleton.mp hmem]
          exact hlast
      · exact h.wrote (.inr hmem) hactor
  | some value =>
    have hwrite : w.redis.write other effects =
        { history :=
            Function.update w.redis.history other (w.redis.history other ++ [value.store])
          publishing := w.redis.publishing ++
            [⟨other, effects, some (w.redis.history other).length⟩] } := by
      rw [Redis.write, hlast]
    have hnone := hsequenced.resolve_left (by rw [hlast]; nofun)
    by_cases hactor : actor = other
    · subst hactor
      refine h.written hnone (by rw [hwrite]; exact Function.update_self ..) fun p hmem => ?_
      rw [hwrite] at hmem
      rcases List.mem_append.mp hmem with hmem | hmem
      · exact .inl hmem
      · rw [List.mem_singleton.mp hmem]
        exact .inr ⟨rfl, value, hlast, rfl⟩
    · rw [hwrite]
      refine h.congr (Function.update_of_ne hactor ..) (fun p hmem hp => ?_) rfl rfl rfl rfl rfl
        h.clean fun _ _ _ => id
      rcases List.mem_append.mp hmem with hmem | hmem
      · exact hmem
      · rw [List.mem_singleton.mp hmem] at hp
        exact absurd hp.symm hactor

theorem World.Lane.expire
    (hnone : ¬ ∃ p ∈ w.redis.publishing, p.actor = other ∧ p.write ≠ none) :
    { w with redis := { w.redis with
      history := Function.update w.redis.history other
        (w.redis.history other ++ [none]) } }.Lane actor := by
  by_cases hactor : actor = other
  · subst hactor
    refine h.written (fun p hmem hp => ?_) (Function.update_self ..) fun p hmem => .inl hmem
    by_contra hwrite
    exact hnone ⟨p, hmem, hp, hwrite⟩
  · exact h.congr (Function.update_of_ne hactor ..) (fun p hmem _ => hmem) rfl rfl rfl rfl rfl
      h.clean fun _ _ _ => id

/-- A publication is sent to the subscribed connection. -/
theorem World.Lane.send {i : Nat} {p : Publication K}
    (hget : w.redis.publishing[i]? = some p) :
    { w with
      redis := { w.redis with publishing := w.redis.publishing.eraseIdx i }
      connection := w.connection.deliver p }.Lane actor := by
  have hmem : p ∈ w.redis.publishing := List.mem_of_getElem? hget
  have herase : ∀ q, q ∈ w.redis.publishing.eraseIdx i → q ∈ w.redis.publishing :=
    fun q hq => List.mem_of_mem_eraseIdx hq
  by_cases hreaches : (w.connection.channels p.actor && w.connection.alive) = true
  · have hdeliver : w.connection.deliver p =
        { w.connection with stream := w.connection.stream ++ [p] } := by
      rw [Connection.deliver, if_pos hreaches]
    have hnew : ∀ n ∈ writes [p] actor, n + 1 = (w.redis.history actor).length := by
      intro n hn
      obtain ⟨q, hq, hactor, hwrite⟩ := mem_writes.mp hn
      rw [List.mem_singleton.mp hq] at hactor hwrite
      exact h.newest hmem hactor hwrite
    rw [hdeliver]
    refine ⟨h.since, fun hq => h.newest (herase _ hq), fun {q} hq hactor => ?_, ?_,
      fun {n} hn => ?_, h.delivered, fun hrestoring hchannel => ?_, h.loaded, h.current⟩
    · rcases hq with hq | hq
      · exact h.wrote (.inl (herase q hq)) hactor
      · rcases List.mem_append.mp hq with hq | hq
        · exact h.wrote (.inr hq) hactor
        · rw [List.mem_singleton.mp hq] at hactor ⊢
          exact h.wrote (.inl hmem) hactor
    · show (writes (w.connection.stream ++ [p]) actor).Pairwise (· ≤ ·)
      rw [writes_append]
      refine List.pairwise_append.mpr ⟨h.ordered, ?_, fun m hm n hn => ?_⟩
      · rw [writes, List.filterMap_cons]
        split <;> simp
      · have hlt := (h.received hm).2.1
        have hlast := hnew n hn
        omega
    · show w.since actor ≤ n ∧ n < (w.redis.history actor).length ∧ _
      have hn' : n ∈ writes (w.connection.stream ++ [p]) actor := hn
      rw [writes_append, List.mem_append] at hn'
      rcases hn' with hn' | hn'
      · exact h.received hn'
      · have hlast := hnew n hn'
        have hsince := h.since
        refine ⟨by omega, by omega, fun m hm => ?_⟩
        have hlt := h.delivered hm
        omega
    · show writes (w.connection.stream ++ [p]) actor = []
      have hother : p.actor ≠ actor := by
        rintro rfl
        rw [hchannel] at hreaches
        cases hreaches
      rw [writes_append, h.clean hrestoring hchannel]
      simp [writes, hother]
  · have hdeliver : w.connection.deliver p = w.connection := by
      rw [Connection.deliver, if_neg hreaches]
    rw [hdeliver]
    exact h.congr rfl (fun q hq _ => herase q hq) rfl rfl rfl rfl rfl h.clean fun _ _ _ => id

/-! ## The steps of the listener -/

/-- The registry follows the publication it receives. -/
theorem World.Lane.current_receive {p : Publication K} {rest : List (Publication K)}
    (hstream : w.connection.stream = p :: rest) (hfresh : w.fresh actor = true)
    (connection : Connection K) :
    ∃ n stored, ({ w with connection := connection }.receive p).Holds actor n stored ∧
      ({ w with connection := connection }.receive p).registry actor = load stored := by
  have hp : p ∈ w.connection.stream := by
    rw [hstream]
    exact List.mem_cons_self
  by_cases hactor : p.actor = actor
  · have hregistry : ({ w with connection := connection }.receive p).registry actor =
        SocketBus.apply (w.registry actor) p.effects := by
      rw [← hactor]
      exact Function.update_self ..
    have hwrote : p.Wrote (w.redis.history actor) := h.wrote (.inr hp) hactor
    cases hwrite : p.write with
    | some n =>
      -- the value delivered is the newest of those that were
      rw [Publication.Wrote, hwrite] at hwrote
      obtain ⟨value, hlast, hget⟩ := hwrote
      obtain ⟨hsince, -, hall⟩ := h.received (mem_writes.mpr ⟨p, hp, hactor, hwrite⟩)
      have hholds : w.Holds actor n value.store := ⟨hget, hsince, hall⟩
      refine ⟨n, value.store, hholds.receive (fun m _ hm => ?_) _, ?_⟩
      · exact Nat.le_of_eq (Option.some.inj (hm.symm.trans hwrite))
      · rw [hregistry, apply_eq, hlast, load_store]
    | none =>
      rw [Publication.Wrote, hwrite] at hwrote
      obtain ⟨n, stored, hholds, hload⟩ := h.current hfresh
      refine ⟨n, stored, hholds.receive (fun m _ hm => ?_) _, ?_⟩
      · cases hwrite.symm.trans hm
      · rw [hregistry, apply_eq, hwrote]
        exact hload
  · obtain ⟨n, stored, hholds, hload⟩ := h.current hfresh
    exact ⟨n, stored, hholds.receive (fun _ hsame _ => absurd hsame hactor) _,
      (Function.update_of_ne (Ne.symm hactor) ..).trans hload⟩

/-- A publication reaches the registry. -/
theorem World.Lane.receive {p : Publication K} {rest : List (Publication K)}
    (hidle : w.listener = .idle) (hstream : w.connection.stream = p :: rest) :
    ({ w with connection := { w.connection with stream := rest } }.receive p).Lane actor := by
  have hwrites : writes w.connection.stream actor = writes [p] actor ++ writes rest actor := by
    rw [hstream]
    exact writes_append [p] rest actor
  have hordered := h.ordered
  rw [hwrites, List.pairwise_append] at hordered
  have hfirst : ∀ {m}, p.actor = actor → p.write = some m → m ∈ writes [p] actor :=
    fun hactor hwrite => mem_writes.mpr ⟨p, List.mem_singleton_self p, hactor, hwrite⟩
  refine ⟨h.since, h.newest, fun {q} hq => h.wrote (hq.imp_right fun hq => ?_), hordered.2.1,
    fun {n} hn => ?_, fun {m} hm => ?_, fun hrestoring => ?_, fun hlistener => ?_,
    fun hfresh => h.current_receive hstream hfresh _⟩
  · rw [hstream]
    exact List.mem_cons_of_mem _ hq
  · obtain ⟨hsince, hlt, hall⟩ := h.received (by rw [hwrites]; exact List.mem_append_right _ hn)
    refine ⟨hsince, hlt, fun m hm => ?_⟩
    rcases World.mem_delivered_receive hm with hm | ⟨hactor, hwrite⟩
    · exact hall m hm
    · exact hordered.2.2 m (hfirst hactor hwrite) n hn
  · rcases World.mem_delivered_receive hm with hm | ⟨hactor, hwrite⟩
    · exact h.delivered hm
    · exact (h.received (by
        rw [hwrites]; exact List.mem_append_left _ (hfirst hactor hwrite))).2.1
  · have hrestoring' : w.listener.restoring = true := hrestoring
    rw [hidle] at hrestoring'
    cases hrestoring'
  · have hlistener' : w.listener = _ := hlistener
    rw [hidle] at hlistener'
    cases hlistener'

/-- A subscription starts from the newest value; nothing older is on the way. -/
theorem World.Lane.subscribe
    (hclean : w.connection.channels other = true ∨ writes w.connection.stream other = [])
    (hloaded : w.listener.loads = none) : (w.subscribe other).Lane actor := by
  unfold World.subscribe
  by_cases hchannel : w.connection.channels other = true
  · rwa [if_pos hchannel]
  · rw [if_neg hchannel]
    have hempty := hclean.resolve_left hchannel
    have hnone : ∀ stored n job, w.listener ≠ .loaded actor stored n job := by
      intro stored n job hlistener
      rw [hlistener] at hloaded
      cases hloaded
    by_cases hactor : actor = other
    · subst hactor
      have hempty' : ∀ {n}, n ∉ writes w.connection.stream actor := by
        intro n hn
        rw [hempty] at hn
        cases hn
      have hlt := h.since
      refine ⟨?_, h.newest, h.wrote, h.ordered, fun hn => absurd hn hempty', h.delivered,
        fun _ _ => hempty, fun hlistener => absurd hlistener (hnone _ _ _), fun hfresh => ?_⟩
      · show Function.update w.since actor _ actor < (w.redis.history actor).length
        rw [Function.update_self]
        omega
      · have hfalse : Function.update w.fresh actor false actor = true := hfresh
        rw [Function.update_self] at hfalse
        cases hfalse
    · refine h.congr rfl (fun _ hmem _ => hmem) rfl (Function.update_of_ne hactor ..)
        (Function.update_of_ne hactor ..) rfl rfl (fun hrestoring hchannel' => ?_) fun _ _ _ => id
      exact h.clean hrestoring ((Function.update_of_ne hactor ..).symm.trans hchannel')

/-- Steps of the watches, and of the listener between its commands. -/
theorem World.Lane.moved (hredis : w'.redis = w.redis)
    (hchannels : w'.connection.channels = w.connection.channels)
    (hstream : w'.connection.stream = w.connection.stream) (hsince : w'.since = w.since)
    (hfresh : w'.fresh = w.fresh) (hregistry : w'.registry = w.registry)
    (hdelivered : w'.delivered = w.delivered)
    (hrestoring : w'.listener.restoring = true → w.listener.restoring = true)
    (hloaded : ∀ stored n job, w'.listener = .loaded actor stored n job →
      w.listener = .loaded actor stored n job) : w'.Lane actor := by
  refine h.congr (by rw [hredis]) (fun p hmem _ => hredis ▸ hmem) hstream (by rw [hsince])
    (by rw [hfresh]) (by rw [hregistry]) hdelivered (fun hwhen hchannel => ?_) hloaded
  rw [hchannels] at hchannel
  exact h.clean (hrestoring hwhen) hchannel

/-- The reply to the `GET` is the newest value. -/
theorem World.Lane.read {job : Job K}
    (hlistener : w.listener = .loading other job) :
    { w with
      listener :=
        .loaded other (w.redis.stored other) ((w.redis.history other).length - 1) job }.Lane
      actor := by
  refine ⟨h.since, h.newest, h.wrote, h.ordered, h.received, h.delivered, fun hrestoring => ?_,
    fun {stored n job'} hloaded => ?_, h.current⟩
  · refine h.clean ?_
    rw [hlistener]
    cases job <;> exact hrestoring
  · cases hloaded
    have hlt := h.since
    have hsince : w.since actor ≤ (w.redis.history actor).length - 1 := by omega
    refine ⟨?_, hsince, fun m hm => ?_⟩
    · show (w.redis.history actor)[(w.redis.history actor).length - 1]? = _
      have hget : (w.redis.history actor)[(w.redis.history actor).length - 1]? =
          some (w.redis.history actor)[(w.redis.history actor).length - 1] :=
        List.getElem?_eq_getElem (by omega)
      rw [Redis.stored, List.getLast?_eq_getElem?, hget]
      rfl
    · have hm' := h.delivered hm
      show m ≤ (w.redis.history actor).length - 1
      omega

/-- A loaded value reaches the registry. -/
theorem World.Lane.apply {stored : Option AutoResponse} {n : Nat}
    {job : Job K} (hlistener : w.listener = .loaded other stored n job)
    (hw' : w' = World.afterLoad { w with
        registry := Function.update w.registry other (load stored)
        fresh := Function.update w.fresh other true } job) : w'.Lane actor := by
  have hloads : ∀ stored' n' job', w'.listener ≠ .loaded actor stored' n' job' := by
    intro stored' n' job' hlistener'
    rw [hw'] at hlistener'
    cases job <;> cases hlistener'
  have hrestoring : w'.listener.restoring = true → w.listener.restoring = true := by
    rw [hw', hlistener]
    cases job <;> exact id
  by_cases hactor : actor = other
  · subst hactor
    have hholds := h.loaded hlistener
    refine ⟨?_, ?_, ?_, ?_, ?_, ?_, ?_, fun hlistener' => absurd hlistener' (hloads _ _ _), ?_⟩
    · rw [hw']
      cases job <;> exact h.since
    · rw [hw']
      cases job <;> exact h.newest
    · rw [hw']
      cases job <;> exact h.wrote
    · rw [hw']
      cases job <;> exact h.ordered
    · rw [hw']
      cases job <;> exact h.received
    · rw [hw']
      cases job <;> exact h.delivered
    · intro hwhen
      have hclean := h.clean (hrestoring hwhen)
      rw [hw']
      cases job <;> exact hclean
    · intro _
      rw [hw']
      cases job <;> exact ⟨n, stored, hholds, Function.update_self ..⟩
  · have hmid : ({ w with
        registry := Function.update w.registry other (load stored)
        fresh := Function.update w.fresh other true } : World K).Lane actor :=
      h.congr rfl (fun _ hmem _ => hmem) rfl rfl (Function.update_of_ne hactor ..)
        (Function.update_of_ne hactor ..) rfl h.clean fun _ _ _ => id
    rw [hw'] at hrestoring hloads ⊢
    cases job <;>
      exact hmid.moved rfl rfl rfl rfl rfl rfl rfl hrestoring
        fun _ _ _ hlistener' => absurd hlistener' (hloads _ _ _)

end

/-- Every step keeps the values on their way. -/
theorem World.Lane.step {action : Action K} (h : ∀ actor, w.Lane actor)
    (hsequenced : w.Sequenced action) (hstep : SocketBus.step w action = some w') (actor : K) :
    w'.Lane actor := by
  have hlane := h actor
  cases Step.of_step hstep with
  | check | enter | ready | leave | cut =>
    exact hlane.moved rfl rfl rfl rfl rfl rfl rfl id fun _ _ _ => id
  | publish other effects => exact hlane.publish hsequenced
  | send hget => exact hlane.send hget
  | abandon =>
    exact hlane.congr rfl (fun p hmem _ => List.mem_of_mem_eraseIdx hmem) rfl rfl rfl rfl rfl
      hlane.clean fun _ _ _ => id
  | expire hnone => exact hlane.expire hnone
  | connect =>
    refine ⟨hlane.since, hlane.newest, fun hmem => hlane.wrote (.inl ?_), List.Pairwise.nil,
      fun hn => absurd hn List.not_mem_nil, hlane.delivered, fun _ _ => rfl, nofun, hlane.current⟩
    exact hmem.resolve_right List.not_mem_nil
  | @restore other rest hlistener =>
    have hrestoring : w.listener.restoring = true := by rw [hlistener]; rfl
    have hclean : w.connection.channels other = true ∨
        writes w.connection.stream other = [] := by
      cases hchannel : w.connection.channels other with
      | true => exact .inl rfl
      | false => exact .inr ((h other).clean hrestoring hchannel)
    have hsubscribed := hlane.subscribe hclean (by rw [hlistener]; rfl)
    refine hsubscribed.moved rfl rfl rfl rfl rfl rfl rfl (fun _ => ?_) nofun
    rwa [World.listener_subscribe]
  | load hlistener | subscribe hlistener =>
    simp only [World.Sequenced, hlistener] at hsequenced
    have hsubscribed := hlane.subscribe hsequenced (by rw [hlistener]; rfl)
    exact hsubscribed.moved rfl rfl rfl rfl rfl rfl rfl nofun nofun
  | unsubscribe => exact hlane.congr rfl (fun _ hmem _ => hmem) rfl rfl rfl rfl rfl nofun nofun
  | read hlistener => exact hlane.read hlistener
  | apply hlistener => exact hlane.apply hlistener rfl
  | receive hidle hstream => exact hlane.receive hidle hstream
  | online | take | dropped | refused | unloaded | disconnect | stop =>
    exact hlane.moved rfl rfl rfl rfl rfl rfl rfl nofun nofun

theorem World.lane_start (actor : K) : ({} : World K).Lane actor := by
  refine ⟨Nat.zero_lt_one, fun hmem => ?_, fun hmem => ?_, List.Pairwise.nil, fun hn => ?_,
    fun hm => ?_, fun _ _ => rfl, nofun, nofun⟩
  · exact absurd hmem List.not_mem_nil
  · rcases hmem with hmem | hmem <;> exact absurd hmem List.not_mem_nil
  · exact absurd hn List.not_mem_nil
  · exact absurd hm List.not_mem_nil

/-! ## Auto-responses in force -/

/-- The condition on a step under which auto-responses stay in force. -/
def World.Orderly (w : World K) (action : Action K) : Prop :=
  w.Awaited action ∧ w.Sequenced action

instance World.decidableOrderly (w : World K) (action : Action K) :
    Decidable (w.Orderly action) :=
  inferInstanceAs (Decidable (w.Awaited action ∧ w.Sequenced action))

/-- The newest value was there when the subscription was made, or was delivered. -/
def World.AllDelivered (w : World K) (actor : K) : Prop :=
  (w.redis.history actor).length = w.since actor + 1 ∨
    (actor, (w.redis.history actor).length - 1) ∈ w.delivered

instance World.decidableAllDelivered (w : World K) (actor : K) :
    Decidable (w.AllDelivered actor) := inferInstanceAs (Decidable (_ ∨ _))

/-- In every run whose steps are orderly: while a watch of an actor has returned and the
bus is connected, the actor's channel is subscribed and its auto-response was loaded
since; the registry has a value that was stored after the subscription was made and
after every value that was delivered, and it has the stored one if that was delivered. -/
theorem watched_auto_response_in_force {actions : List (Action K)} {w : World K}
    (horderly : Transition.Guarded step World.Orderly {} actions)
    (hrun : Transition.run step {} actions = some w) (i : Nat) (actor : K)
    (hwatch : w.bus.watches[i]? = some ⟨actor, .watching⟩) (hconnected : w.connected = true) :
    w.connection.channels actor = true ∧ w.fresh actor = true ∧
      (∃ n stored, w.Holds actor n stored ∧ w.registry actor = load stored) ∧
      (w.AllDelivered actor → w.registry actor = load (w.redis.stored actor)) := by
  have hstep : ∀ (w : World K) (action : Action K) (w' : World K), w.Tracked ∧ w.Kept actor →
      w.Orderly action → step w action = some w' → w'.Tracked ∧ w'.Kept actor :=
    fun w action w' h horderly hstep => ⟨h.1.step hstep, h.2.step h.1 horderly.1 hstep⟩
  have hkept := Transition.run_guarded_invariant hstep
    ⟨World.tracked_start, World.kept_start actor⟩ horderly hrun
  have hlane : ∀ actor, w.Lane actor := Transition.run_guarded_invariant
    (fun w action w' h horderly hstep => World.Lane.step h horderly.2 hstep)
    World.lane_start horderly hrun
  have hsettled : w.bus.Settled actor := ⟨i, _, hwatch, rfl, rfl⟩
  have hgood : w.connection.channels actor = true ∧ w.fresh actor = true :=
    ⟨hkept.1.channels_of_settled hconnected hsettled, hkept.2.settled hconnected hsettled⟩
  obtain ⟨n, stored, hholds, hregistry⟩ := (hlane actor).current hgood.2
  refine ⟨hgood.1, hgood.2, ⟨n, stored, hholds, hregistry⟩, fun hall => ?_⟩
  obtain ⟨hget, hsince, hle⟩ := hholds
  have hlt := (List.getElem?_eq_some_iff.mp hget).1
  have hlast : n = (w.redis.history actor).length - 1 := by
    rcases hall with hall | hall
    · omega
    · have hmost := hle _ hall
      omega
  rw [hregistry, Redis.stored, List.getLast?_eq_getElem?, ← hlast, hget]
  rfl

/-! ## Examples -/

def setPong (response : String) : List Effect := [.setAutoResponse (some "ping") (some response)]

/-- The steps of a watch, from its call to its return. -/
def watchSteps (i : Nat) : List (Action Unit) :=
  [.check (), .enter 0, .take, .confirm, .read, .apply, .ready i]

/-- A value is stored before the watch and another one is published after it. -/
def replacedResponse : List (Action Unit) :=
  [.publish () (setPong "one"), .send 0, .connect, .online] ++ watchSteps 0 ++
    [.publish () (setPong "two"), .send 0, .receive]

theorem watched_auto_response_in_force_replaced :
    ∃ w, Transition.run step {} replacedResponse = some w ∧
      w.registry () = some ("ping", "two") ∧ w.registry () = load (w.redis.stored ()) := by
  have horderly : Transition.Guarded step World.Orderly {} replacedResponse := by decide +kernel
  refine ⟨_, rfl, by decide, ?_⟩
  exact (watched_auto_response_in_force horderly rfl 0 () (by decide) (by decide)).2.2.2
    (.inr (by decide))

/-- A run after which a watch has returned, the bus is connected, nothing is on the way and
the newest value was delivered, and yet the registry has another value than Redis. -/
def OutOfForce (actions : List (Action Unit)) : Prop :=
  ∃ w, Transition.run step {} actions = some w ∧ w.connected = true ∧
    ⟨(), .watching⟩ ∈ w.bus.watches ∧ w.redis.publishing = [] ∧ w.connection.stream = [] ∧
    w.AllDelivered () ∧ w.registry () ≠ load (w.redis.stored ())

/-- The load of the first watch fails, and a second one is answered without a load. -/
def failedLoad : List (Action Unit) :=
  [.publish () (setPong "one"), .send 0, .connect, .online, .check (), .check (), .enter 0,
    .enter 0, .take, .confirm, .fail, .take, .confirm, .leave 0, .ready 1]

/-- Two publishers write in one order and publish in the other. -/
def crossedPublishers : List (Action Unit) :=
  [.connect, .online] ++ watchSteps 0 ++
    [.publish () (setPong "one"), .publish () (setPong "two"), .send 1, .send 0, .receive,
      .receive]

/-- A publication of an earlier subscription is read after the load of the next one. -/
def unreadPublication : List (Action Unit) :=
  [.connect, .online] ++ watchSteps 0 ++
    [.publish () (setPong "one"), .send 0, .leave 0, .take, .confirm,
      .publish () (setPong "two"), .send 0] ++ watchSteps 1 ++ [.receive]

theorem auto_response_out_of_force :
    OutOfForce failedLoad ∧ OutOfForce crossedPublishers ∧ OutOfForce unreadPublication :=
  ⟨⟨_, rfl, by decide⟩, ⟨_, rfl, by decide⟩, ⟨_, rfl, by decide⟩⟩

end DurableActors.Ports.SocketBus
