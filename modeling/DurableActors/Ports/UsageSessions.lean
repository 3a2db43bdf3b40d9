import DurableActors.Verified.Transition
import Mathlib.Data.List.Perm.Basic
import Mathlib.Data.Set.Insert

/-!
# Usage updates of an actor session

A host reports the life of a session; the control plane turns the reports into
usage updates for a billing consumer, which keeps the update with the greatest
revision.  A report with sequence `n` is published with revision `2n`, if it
starts or stops the session or corrects an estimate.  A session without a recent
report gets an estimated stop with revision `2n + 1`, where `n` is the sequence
of its last report.

Calls of `record_usage` and `reconcile` run concurrently; the store of sessions
is behind a lock, so each call is a sequence of steps: a boundary report is
published, the store is read and written, and what follows is published.  The
store is a cache that drops an entry a day after its last write, or earlier
when it is full.
-/

namespace DurableActors.Ports.Usage

open Verified

/-! ## Reports and updates -/

/-- What a host reports of a session. -/
inductive LifecycleKind
  | started
  | heartbeat
  | draining
  | stopped
deriving DecidableEq, Repr

/-- A report, with the session it is for and the time it was received. -/
structure LifecycleEvent (K : Type) where
  session : K
  kind : LifecycleKind
  sequence : Nat
  occurredAtMs : Nat
  receivedAtMs : Nat
deriving DecidableEq, Repr

/-- What is published of a session; a later revision replaces an earlier one. -/
structure UsageUpdate (K : Type) where
  session : K
  revision : Nat
  endedAtMs : Option Nat
  estimated : Bool
deriving DecidableEq, Repr

variable {K : Type}

/-- `UsageUpdate::from`. -/
def UsageUpdate.ofEvent (event : LifecycleEvent K) : UsageUpdate K where
  session := event.session
  revision := event.sequence * 2
  endedAtMs := if event.kind = .stopped then some event.occurredAtMs else none
  estimated := false

/-- The stop of a session that has fallen silent. -/
def UsageUpdate.estimatedStop (event : LifecycleEvent K) (now : Nat) : UsageUpdate K :=
  let update := UsageUpdate.ofEvent { event with kind := .stopped, receivedAtMs := now }
  { update with revision := update.revision + 1, estimated := true }

/-! ## The store of sessions -/

def staleAfterMs : Nat := 35000
def retentionMs : Nat := 86400000
def batchSize : Nat := 128

/-- A session of `MemoryUsageSessions`, with the time of its last write. -/
structure Session (K : Type) where
  event : LifecycleEvent K
  estimated : Bool
  writtenAt : Nat
deriving DecidableEq, Repr

abbrev Sessions (K : Type) := K → Option (Session K)

variable [DecidableEq K]

def Sessions.insert (sessions : Sessions K) (key : K) (session : Session K) : Sessions K :=
  fun k => if k = key then some session else sessions k

def Sessions.remove (sessions : Sessions K) (key : K) : Sessions K :=
  fun k => if k = key then none else sessions k

/-- The report is not newer than what the session has. -/
def Session.Supersedes (previous : Session K) (event : LifecycleEvent K) : Prop :=
  event.sequence ≤ previous.event.sequence ∨ previous.event.kind = .stopped

instance (previous : Session K) (event : LifecycleEvent K) :
    Decidable (previous.Supersedes event) :=
  inferInstanceAs (Decidable (_ ∨ _))

/-- `observe`: whether the report corrects an estimated stop. -/
def Sessions.observe (sessions : Sessions K) (now : Nat) (event : LifecycleEvent K) :
    Bool × Sessions K :=
  match sessions event.session with
  | some previous =>
    if previous.Supersedes event then (false, sessions)
    else (previous.estimated, sessions.insert event.session ⟨event, false, now⟩)
  | none => (false, sessions.insert event.session ⟨event, false, now⟩)

/-- The session is due for an estimated stop. -/
def Session.Stale (session : Session K) (now : Nat) : Prop :=
  session.estimated = false ∧ session.event.kind ≠ .stopped ∧
    staleAfterMs ≤ now - session.event.receivedAtMs

instance (session : Session K) (now : Nat) : Decidable (session.Stale now) :=
  inferInstanceAs (Decidable (_ ∧ _ ∧ _))

/-- `expire`: the cache is visited in some order, until the batch is full. -/
def Sessions.expire (now : Nat) : List K → Nat → Sessions K → List (LifecycleEvent K) × Sessions K
  | [], _, sessions => ([], sessions)
  | _ :: _, 0, sessions => ([], sessions)
  | key :: order, room + 1, sessions =>
    match sessions key with
    | none => Sessions.expire now order (room + 1) sessions
    | some session =>
      if session.Stale now then
        let rest := Sessions.expire now order room
          (sessions.insert key { session with estimated := true, writtenAt := now })
        (session.event :: rest.1, rest.2)
      else Sessions.expire now order (room + 1) sessions

/-! ## Calls -/

/-- A call in progress: before `observe`, or with an update to publish. -/
inductive Call (K : Type)
  | observing (event : LifecycleEvent K)
  | correcting (event : LifecycleEvent K)
  | estimating (event : LifecycleEvent K) (now : Nat)
deriving DecidableEq, Repr

/-- The update that a call has still to publish. -/
def Call.pending : Call K → Option (UsageUpdate K)
  | .observing _ => none
  | .correcting event => some (.ofEvent event)
  | .estimating event now => some (.estimatedStop event now)

/-- The store, the calls that have not ended, and what was published. -/
structure World (K : Type) where
  sessions : Sessions K
  calls : List (Call K)
  published : List (UsageUpdate K)
  clock : Nat

def World.initial : World K := ⟨fun _ => none, [], [], 0⟩

/-- The report is published at once. -/
def LifecycleEvent.boundary (event : LifecycleEvent K) : Bool :=
  event.kind = .started || event.kind = .stopped

/-- One step of a call or of the cache. -/
inductive Action (K : Type)
  /-- `record_usage` starts, and publishes a boundary report. -/
  | record (event : LifecycleEvent K)
  /-- Call `i` gets the lock of the store. -/
  | observe (i : Nat) (now : Nat)
  /-- Call `i` publishes. -/
  | publish (i : Nat)
  /-- `reconcile` gets the lock of the store. -/
  | reconcile (now : Nat) (order : List K)
  /-- The cache drops a session a day after its last write. -/
  | retire (key : K)
  /-- The cache drops a session for want of room. -/
  | displace (key : K)
deriving DecidableEq, Repr

def step (w : World K) : Action K → Option (World K)
  | .record event =>
    some { w with
      calls := w.calls ++ [.observing event]
      published := if event.boundary then w.published ++ [.ofEvent event] else w.published }
  | .observe i now =>
    match w.calls[i]? with
    | some (.observing event) =>
      if w.clock ≤ now then
        let (corrected, sessions) := w.sessions.observe now event
        let calls := w.calls.eraseIdx i
        some { w with
          sessions := sessions
          calls := if corrected && !event.boundary then calls ++ [.correcting event] else calls
          clock := now }
      else none
    | _ => none
  | .publish i =>
    match w.calls[i]? with
    | some call => call.pending.map fun update =>
      { w with calls := w.calls.eraseIdx i, published := w.published ++ [update] }
    | none => none
  | .reconcile now order =>
    if w.clock ≤ now then
      let (events, sessions) := Sessions.expire now order batchSize w.sessions
      some { w with
        sessions := sessions
        calls := w.calls ++ events.map fun event => .estimating event now
        clock := now }
    else none
  | .retire key =>
    match w.sessions key with
    | some session =>
      if session.writtenAt + retentionMs ≤ w.clock then
        some { w with sessions := w.sessions.remove key }
      else none
    | none => none
  | .displace key => some { w with sessions := w.sessions.remove key }

/-! ## Steps on one session -/

@[simp] theorem Sessions.insert_self (sessions : Sessions K) (key : K) (session : Session K) :
    sessions.insert key session key = some session := if_pos rfl

theorem Sessions.insert_ne (sessions : Sessions K) {key k : K} (session : Session K)
    (h : k ≠ key) : sessions.insert key session k = sessions k := if_neg h

@[simp] theorem Sessions.remove_self (sessions : Sessions K) (key : K) :
    sessions.remove key key = none := if_pos rfl

theorem Sessions.remove_ne (sessions : Sessions K) {key k : K} (h : k ≠ key) :
    sessions.remove key k = sessions k := if_neg h

/-- Every session is stored under its own key. -/
def Sessions.Keyed (sessions : Sessions K) : Prop :=
  ∀ key session, sessions key = some session → session.event.session = key

theorem Sessions.Keyed.insert {sessions : Sessions K} (h : sessions.Keyed) {key : K}
    {session : Session K} (hkey : session.event.session = key) :
    (sessions.insert key session).Keyed := by
  intro k stored hstored
  by_cases hk : k = key
  · subst hk
    rw [Sessions.insert_self] at hstored
    rw [← Option.some.inj hstored]
    exact hkey
  · rw [sessions.insert_ne session hk] at hstored
    exact h k stored hstored

theorem Sessions.Keyed.remove {sessions : Sessions K} (h : sessions.Keyed) (key : K) :
    (sessions.remove key).Keyed := fun k stored hstored =>
  h k stored (Option.ite_none_left_eq_some.mp hstored).2

/-- What `expire` does to one session: nothing, or the mark with its event. -/
inductive Expired (k : K) (now : Nat) (sessions sessions' : Sessions K)
    (events : List (LifecycleEvent K)) : Prop
  | kept (hsession : sessions' k = sessions k) (hevents : ∀ e ∈ events, e.session ≠ k)
  | marked (session : Session K) (hbefore : sessions k = some session)
      (hstale : session.Stale now)
      (hafter : sessions' k = some { session with estimated := true, writtenAt := now })
      (hmem : session.event ∈ events)
      (hevents : ∀ e ∈ events, e.session = k → e = session.event)

/-- What a batch of the reconciliation does to one session. -/
theorem Sessions.expire_spec (k : K) (now : Nat) (order : List K) (room : Nat)
    {sessions : Sessions K} (hkeyed : sessions.Keyed) :
    (Sessions.expire now order room sessions).2.Keyed ∧
      Expired k now sessions (Sessions.expire now order room sessions).2
        (Sessions.expire now order room sessions).1 := by
  induction order generalizing room sessions with
  | nil =>
    rw [Sessions.expire]
    exact ⟨hkeyed, .kept rfl (fun e he => nomatch he)⟩
  | cons key order ih =>
    cases room with
    | zero =>
      rw [Sessions.expire]
      exact ⟨hkeyed, .kept rfl (fun e he => nomatch he)⟩
    | succ room =>
      rw [Sessions.expire]
      cases hkey : sessions key with
      | none => exact ih (room + 1) hkeyed
      | some session =>
        simp only
        by_cases hstale : session.Stale now
        · rw [if_pos hstale]
          have hsession := hkeyed key session hkey
          have hinserted : (sessions.insert key
              { session with estimated := true, writtenAt := now }).Keyed := hkeyed.insert hsession
          obtain ⟨hkeyed', hrest⟩ := ih room hinserted
          refine ⟨hkeyed', ?_⟩
          by_cases hk : k = key
          · -- the session is marked, and not visited again
            subst hk
            cases hrest with
            | kept hafter hevents =>
              rw [Sessions.insert_self] at hafter
              refine .marked session hkey hstale hafter List.mem_cons_self ?_
              intro e he hes
              rcases List.mem_cons.mp he with he | he
              · exact he
              · exact absurd hes (hevents e he)
            | marked again hbefore hagain =>
              rw [Sessions.insert_self] at hbefore
              rw [← Option.some.inj hbefore] at hagain
              cases hagain.1
          · cases hrest with
            | kept hafter hevents =>
              rw [sessions.insert_ne _ hk] at hafter
              refine .kept hafter fun e he => ?_
              rcases List.mem_cons.mp he with he | he
              · rw [he, hsession]
                exact fun h => hk h.symm
              · exact hevents e he
            | marked other hbefore hother hafter hmem hevents =>
              rw [sessions.insert_ne _ hk] at hbefore
              refine .marked other hbefore hother hafter (List.mem_cons_of_mem _ hmem) ?_
              intro e he hes
              rcases List.mem_cons.mp he with he | he
              · rw [he, hsession] at hes
                exact absurd hes.symm hk
              · exact hevents e he hes
        · rw [if_neg hstale]
          exact ih (room + 1) hkeyed

/-- What `observe` does to the session of the report. -/
theorem Sessions.observe_spec (sessions : Sessions K) (now : Nat) (event : LifecycleEvent K) :
    (∃ previous, sessions event.session = some previous ∧ previous.Supersedes event ∧
      sessions.observe now event = (false, sessions)) ∨
    ((∀ previous, sessions event.session = some previous → ¬ previous.Supersedes event) ∧
      sessions.observe now event = ((sessions event.session).any (·.estimated),
          sessions.insert event.session ⟨event, false, now⟩)) := by
  unfold Sessions.observe
  cases hprevious : sessions event.session with
  | none => exact .inr ⟨(fun previous h => nomatch h), rfl⟩
  | some previous =>
    by_cases hsupersedes : previous.Supersedes event
    · exact .inl ⟨previous, rfl, hsupersedes, by simp only [if_pos hsupersedes]⟩
    · refine .inr ⟨?_, by simp only [if_neg hsupersedes, Option.any_some]⟩
      intro other hother
      rw [← Option.some.inj hother]
      exact hsupersedes

theorem Sessions.Keyed.observe {sessions : Sessions K} (h : sessions.Keyed) (now : Nat)
    (event : LifecycleEvent K) : (sessions.observe now event).2.Keyed := by
  obtain ⟨_, -, -, hobserve⟩ | ⟨-, hobserve⟩ := sessions.observe_spec now event
  · rw [hobserve]
    exact h
  · rw [hobserve]
    exact h.insert rfl

theorem Sessions.observe_ne (sessions : Sessions K) (now : Nat) (event : LifecycleEvent K) {k : K}
    (hk : k ≠ event.session) : (sessions.observe now event).2 k = sessions k := by
  obtain ⟨_, -, -, hobserve⟩ | ⟨-, hobserve⟩ := sessions.observe_spec now event
  · rw [hobserve]
  · rw [hobserve]
    exact sessions.insert_ne _ hk

/-! ## The view of one session

What matters to a session is its entry, the reports that wait for the store, and
the updates that have been issued: published, or left to publish by a call. -/

/-- What was published or will be by a call. -/
def World.issued (w : World K) : List (UsageUpdate K) :=
  w.published ++ w.calls.filterMap Call.pending

/-- What matters to one session. -/
structure View (K : Type) where
  session : Option (Session K)
  observing : Set (LifecycleEvent K)
  issued : Set (UsageUpdate K)

omit [DecidableEq K] in
@[ext] theorem View.ext {v v' : View K} (hsession : v.session = v'.session)
    (hobserving : ∀ e, e ∈ v.observing ↔ e ∈ v'.observing)
    (hissued : ∀ u, u ∈ v.issued ↔ u ∈ v'.issued) : v = v' := by
  cases v
  cases v'
  rw [View.mk.injEq]
  exact ⟨hsession, Set.ext hobserving, Set.ext hissued⟩

def World.view (w : World K) (k : K) : View K where
  session := w.sessions k
  observing := fun e => .observing e ∈ w.calls ∧ e.session = k
  issued := fun u => u ∈ w.issued ∧ u.session = k

/-- The set with `x` added, if the condition holds. -/
def insertIf {α : Type} (condition : Bool) (x : α) (s : Set α) : Set α :=
  fun y => (condition = true ∧ y = x) ∨ y ∈ s

theorem mem_insertIf {α : Type} {condition : Bool} {x y : α} {s : Set α} :
    y ∈ insertIf condition x s ↔ (condition = true ∧ y = x) ∨ y ∈ s := Iff.rfl

/-- What an action does to the view of session `k`. -/
inductive Effect (k : K) (v : View K) : Action K → View K → Prop
  | other (a : Action K) : Effect k v a v
  | record (event : LifecycleEvent K) (hkey : event.session = k) :
      Effect k v (.record event) ⟨v.session, insert event v.observing,
        insertIf event.boundary (.ofEvent event) v.issued⟩
  | reject (i now : Nat) (event : LifecycleEvent K) (previous : Session K)
      (observing : Set (LifecycleEvent K)) (hevent : event ∈ v.observing)
      (hprevious : v.session = some previous) (hsupersedes : previous.Supersedes event)
      (hsub : observing ⊆ v.observing) (hsup : v.observing ⊆ insert event observing) :
      Effect k v (.observe i now) ⟨v.session, observing, v.issued⟩
  | accept (i now : Nat) (event : LifecycleEvent K) (observing : Set (LifecycleEvent K))
      (hevent : event ∈ v.observing)
      (hnewer : ∀ previous, v.session = some previous → ¬ previous.Supersedes event)
      (hsub : observing ⊆ v.observing) (hsup : v.observing ⊆ insert event observing) :
      Effect k v (.observe i now) ⟨some ⟨event, false, now⟩, observing,
        insertIf (v.session.any (·.estimated) && !event.boundary) (.ofEvent event) v.issued⟩
  | mark (now : Nat) (order : List K) (session : Session K) (hsession : v.session = some session)
      (hstale : session.Stale now) :
      Effect k v (.reconcile now order)
        ⟨some { session with estimated := true, writtenAt := now }, v.observing,
          insert (.estimatedStop session.event now) v.issued⟩
  | retire : Effect k v (.retire k) ⟨none, v.observing, v.issued⟩
  | displace : Effect k v (.displace k) ⟨none, v.observing, v.issued⟩

omit [DecidableEq K] in
theorem Effect.of_eq {k : K} {v v' : View K} {a : Action K} (h : v' = v) : Effect k v a v' :=
  h ▸ .other a

section Views

variable {w w' : World K} {k : K}

theorem mem_iff_eraseIdx {α : Type} {xs : List α} {i : Nat} {x : α} (h : xs[i]? = some x) (y : α) :
    y ∈ xs ↔ y = x ∨ y ∈ xs.eraseIdx i := by
  obtain ⟨hi, rfl⟩ := List.getElem?_eq_some_iff.mp h
  rw [← List.mem_cons, (List.getElem_cons_eraseIdx_perm hi).mem_iff]

omit [DecidableEq K] in
@[simp] theorem mem_view_observing {e : LifecycleEvent K} :
    e ∈ (w.view k).observing ↔ .observing e ∈ w.calls ∧ e.session = k := Iff.rfl

omit [DecidableEq K] in
@[simp] theorem mem_view_issued {u : UsageUpdate K} :
    u ∈ (w.view k).issued ↔ u ∈ w.issued ∧ u.session = k := Iff.rfl

omit [DecidableEq K] in
theorem mem_issued {u : UsageUpdate K} :
    u ∈ w.issued ↔ u ∈ w.published ∨ ∃ call ∈ w.calls, call.pending = some u := by
  rw [World.issued, List.mem_append, List.mem_filterMap]

section Issued

variable {new : UsageUpdate K → Prop} (hissued : ∀ u, u ∈ w'.issued ↔ u ∈ w.issued ∨ new u)

include hissued

omit [DecidableEq K] in
/-- What is issued for other sessions leaves the view alone. -/
theorem mem_view_issued_of_ne (hne : ∀ u, new u → u.session ≠ k) (u : UsageUpdate K) :
    u ∈ (w'.view k).issued ↔ u ∈ (w.view k).issued := by
  rw [mem_view_issued, mem_view_issued, hissued, or_and_right, or_iff_left]
  exact fun h => hne u h.1 h.2

omit [DecidableEq K] in
/-- What is issued for the session is added to its view. -/
theorem mem_view_issued_of_eq (heq : ∀ u, new u → u.session = k) (u : UsageUpdate K) :
    u ∈ (w'.view k).issued ↔ new u ∨ u ∈ (w.view k).issued := by
  rw [mem_view_issued, mem_view_issued, hissued, or_and_right, and_iff_left_of_imp (heq u),
    or_comm]

end Issued

/-- A report waits for the store, and is published at once if it is a boundary. -/
theorem view_record {event : LifecycleEvent K} (hstep : step w (.record event) = some w') :
    w'.sessions = w.sessions ∧ w.published ⊆ w'.published ∧
      Effect k (w.view k) (.record event) (w'.view k) := by
  have hw' := Option.some.inj hstep
  refine ⟨by rw [← hw'], ?_, ?_⟩
  · rw [← hw']
    dsimp only
    split
    · exact List.subset_append_left _ _
    · exact List.Subset.refl _
  have hcalls : ∀ call, call ∈ w'.calls ↔ call ∈ w.calls ∨ call = .observing event := by
    intro call
    rw [← hw', List.mem_append, List.mem_singleton]
  have hissued : ∀ u, u ∈ w'.issued ↔
      u ∈ w.issued ∨ (event.boundary = true ∧ u = .ofEvent event) := by
    intro u
    rw [mem_issued, mem_issued, ← hw']
    have hpending : (∃ call ∈ w.calls ++ [Call.observing event], call.pending = some u) ↔
        ∃ call ∈ w.calls, call.pending = some u := by
      simp [Call.pending]
    simp only [hpending]
    cases hb : event.boundary with
    | true =>
      simp only [if_true, List.mem_append, List.mem_singleton, true_and]
      exact or_right_comm
    | false => simp
  by_cases hkey : event.session = k
  · have hview : w'.view k = ⟨(w.view k).session, insert event (w.view k).observing,
        insertIf event.boundary (.ofEvent event) (w.view k).issued⟩ := by
      apply View.ext
      · rw [← hw']
        rfl
      · intro e
        rw [mem_view_observing, hcalls, Call.observing.injEq, or_and_right,
          and_iff_left_of_imp fun he : e = event => he ▸ hkey, or_comm]
        rfl
      · refine mem_view_issued_of_eq hissued ?_
        rintro u ⟨-, rfl⟩
        exact hkey
    rw [hview]
    exact .record event hkey
  · refine .of_eq (View.ext ?_ (fun e => ?_) (mem_view_issued_of_ne hissued ?_))
    · rw [← hw']
      rfl
    · rw [mem_view_observing, hcalls, Call.observing.injEq, or_and_right, or_iff_left]
      · rfl
      · rintro ⟨rfl, hes⟩
        exact hkey hes
    · rintro u ⟨-, rfl⟩
      exact hkey

/-- What a call had left to publish was issued before. -/
theorem view_publish {i : Nat} (hstep : step w (.publish i) = some w') :
    w'.sessions = w.sessions ∧ w.published ⊆ w'.published ∧
      Effect k (w.view k) (.publish i) (w'.view k) := by
  unfold step at hstep
  simp only at hstep
  split at hstep
  · rename_i call hcall
    obtain ⟨update, hpending, rfl⟩ := Option.map_eq_some_iff.mp hstep
    refine ⟨rfl, List.subset_append_left _ _, ?_⟩
    have hmem := mem_iff_eraseIdx hcall
    refine .of_eq (View.ext rfl (fun e => ?_) fun u => ?_)
    · rw [mem_view_observing, mem_view_observing, hmem, or_iff_right]
      rintro rfl
      cases hpending
    · simp only [mem_view_issued, mem_issued, hmem, or_and_right, exists_or, exists_eq_left,
        hpending, List.mem_append, List.mem_singleton, Option.some.injEq, or_assoc,
        eq_comm (a := update)]
  · cases hstep

/-- What is left when the store has taken a report. -/
structure Observed (w : World K) (i now : Nat) (event : LifecycleEvent K) (w' : World K) :
    Prop where
  call : w.calls[i]? = some (.observing event)
  sessions : w'.sessions = (w.sessions.observe now event).2
  published : w'.published = w.published
  observing : ∀ e, .observing e ∈ w'.calls ↔ .observing e ∈ w.calls.eraseIdx i
  issued : ∀ u, u ∈ w'.issued ↔ u ∈ w.issued ∨
    (((w.sessions.observe now event).1 && !event.boundary) = true ∧ u = .ofEvent event)

theorem Observed.of_step {i now : Nat} (hstep : step w (.observe i now) = some w') :
    ∃ event, Observed w i now event w' := by
  unfold step at hstep
  simp only at hstep
  split at hstep
  · rename_i event hcall
    split at hstep
    · have hw' := Option.some.inj hstep
      refine ⟨event, hcall, by rw [← hw'], by rw [← hw'], fun e => ?_, fun u => ?_⟩
      · rw [← hw']
        dsimp only
        split
        · simp
        · rfl
      · rw [mem_issued, mem_issued, ← hw']
        -- nothing that was pending is lost with the call
        have hpending : (∃ call ∈ w.calls, call.pending = some u) ↔
            ∃ call ∈ w.calls.eraseIdx i, call.pending = some u := by
          simp [mem_iff_eraseIdx hcall, or_and_right, exists_or, Call.pending]
        dsimp only
        rw [hpending]
        split
        · rename_i hcorrected
          simp only [List.mem_append, List.mem_singleton, hcorrected, true_and, or_and_right,
            exists_or, exists_eq_left, Call.pending, Option.some.injEq, or_assoc]
          rw [eq_comm (a := UsageUpdate.ofEvent event)]
        · rename_i hcorrected
          simp only [hcorrected, false_and, or_false, Bool.false_eq_true]
    · cases hstep
  · cases hstep

/-- The store takes a report: it is rejected, or replaces the session. -/
theorem view_observe {i now : Nat} (hkeyed : w.sessions.Keyed)
    (hstep : step w (.observe i now) = some w') :
    w'.sessions.Keyed ∧ w.published ⊆ w'.published ∧
      Effect k (w.view k) (.observe i now) (w'.view k) := by
  obtain ⟨event, h⟩ := Observed.of_step hstep
  have hmem := mem_iff_eraseIdx h.call
  -- the reports that wait, apart from this one
  have hsub : (w'.view k).observing ⊆ (w.view k).observing := by
    rintro e ⟨he, hes⟩
    exact ⟨(hmem _).mpr (.inr ((h.observing e).mp he)), hes⟩
  have hsup : (w.view k).observing ⊆ insert event (w'.view k).observing := by
    rintro e ⟨he, hes⟩
    rcases (hmem _).mp he with he | he
    · exact .inl (Call.observing.inj he)
    · exact .inr ⟨(h.observing e).mpr he, hes⟩
  refine ⟨h.sessions ▸ hkeyed.observe now event, h.published ▸ List.Subset.refl _, ?_⟩
  by_cases hkey : event.session = k
  · subst hkey
    have hevent : event ∈ (w.view event.session).observing :=
      ⟨List.mem_of_getElem? h.call, rfl⟩
    rcases w.sessions.observe_spec now event with
      ⟨previous, hprevious, hsupersedes, hobserve⟩ | ⟨hnewer, hobserve⟩
    · have hview : w'.view event.session = ⟨(w.view event.session).session,
          (w'.view event.session).observing, (w.view event.session).issued⟩ := by
        refine View.ext ?_ (fun e => Iff.rfl) fun u => ?_
        · rw [World.view, h.sessions, hobserve]
          rfl
        · rw [mem_view_issued, mem_view_issued, h.issued, hobserve]
          simp
      rw [hview]
      exact .reject i now event previous _ hevent hprevious hsupersedes hsub hsup
    · have hview : w'.view event.session = ⟨some ⟨event, false, now⟩,
          (w'.view event.session).observing,
          insertIf ((w.view event.session).session.any (·.estimated) && !event.boundary)
            (.ofEvent event) (w.view event.session).issued⟩ := by
        refine View.ext ?_ (fun e => Iff.rfl) fun u => ?_
        · rw [World.view, h.sessions, hobserve]
          exact Sessions.insert_self _ _ _
        · rw [mem_view_issued_of_eq h.issued (by rintro u ⟨-, rfl⟩; rfl), hobserve]
          rfl
      rw [hview]
      exact .accept i now event _ hevent hnewer hsub hsup
  · refine .of_eq (View.ext ?_ (fun e => ⟨fun he => hsub he, fun he => ?_⟩)
      (mem_view_issued_of_ne h.issued ?_))
    · rw [World.view, h.sessions]
      exact w.sessions.observe_ne now event (Ne.symm hkey)
    · exact (hsup he).resolve_left fun heq => hkey (heq ▸ he.2)
    · rintro u ⟨-, rfl⟩
      exact hkey

/-- A stale session gets an estimated stop; the others are as before. -/
theorem view_reconcile {now : Nat} {order : List K} (hkeyed : w.sessions.Keyed)
    (hstep : step w (.reconcile now order) = some w') :
    w'.sessions.Keyed ∧ w.published ⊆ w'.published ∧
      Effect k (w.view k) (.reconcile now order) (w'.view k) := by
  unfold step at hstep
  simp only at hstep
  split at hstep
  · have hw' := Option.some.inj hstep
    obtain ⟨hkeyed', hexpired⟩ := Sessions.expire_spec k now order batchSize hkeyed
    have hsessions : w'.sessions = (Sessions.expire now order batchSize w.sessions).2 := by
      rw [← hw']
    have hobserving : ∀ e, e ∈ (w'.view k).observing ↔ e ∈ (w.view k).observing := by
      intro e
      rw [mem_view_observing, mem_view_observing, ← hw']
      simp
    have hissued : ∀ u, u ∈ w'.issued ↔ u ∈ w.issued ∨
        ∃ e ∈ (Sessions.expire now order batchSize w.sessions).1, u = .estimatedStop e now := by
      intro u
      rw [mem_issued, mem_issued, ← hw']
      simp only [List.mem_append, List.mem_map, or_and_right, exists_or, or_assoc]
      refine or_congr_right (or_congr_right ?_)
      constructor
      · rintro ⟨call, ⟨e, he, rfl⟩, hu⟩
        exact ⟨e, he, (Option.some.inj hu).symm⟩
      · rintro ⟨e, he, rfl⟩
        exact ⟨_, ⟨e, he, rfl⟩, rfl⟩
    refine ⟨hsessions ▸ hkeyed', by rw [← hw']; exact List.Subset.refl _, ?_⟩
    cases hexpired with
    | kept hsession hevents =>
      refine .of_eq (View.ext ?_ hobserving (mem_view_issued_of_ne hissued ?_))
      · rw [World.view, hsessions]
        exact hsession
      · rintro u ⟨e, he, rfl⟩
        exact hevents e he
    | marked session hbefore hstale hafter hmem hevents =>
      have hview : w'.view k = ⟨some { session with estimated := true, writtenAt := now },
          (w.view k).observing, insert (.estimatedStop session.event now) (w.view k).issued⟩ := by
        refine View.ext (by rw [World.view, hsessions]; exact hafter) hobserving (fun u => ?_)
        rw [mem_view_issued, hissued, Set.mem_insert_iff, mem_view_issued]
        constructor
        · rintro ⟨hu | ⟨e, he, hu⟩, hus⟩
          · exact .inr ⟨hu, hus⟩
          · rw [hu] at hus
            rw [hu, hevents e he hus]
            exact .inl rfl
        · rintro (hu | ⟨hu, hus⟩)
          · refine ⟨.inr ⟨_, hmem, hu⟩, ?_⟩
            rw [hu]
            exact hkeyed k session hbefore
          · exact ⟨.inl hu, hus⟩
      rw [hview]
      exact .mark now order session hbefore hstale
  · cases hstep

/-- A session that the cache drops has no entry; the others are left alone. -/
theorem view_remove (key : K) : { w with sessions := w.sessions.remove key }.view k =
      if k = key then ⟨none, (w.view k).observing, (w.view k).issued⟩ else w.view k := by
  split
  · rename_i hk
    subst hk
    exact View.ext (Sessions.remove_self _ _) (fun e => Iff.rfl) (fun u => Iff.rfl)
  · rename_i hk
    exact View.ext (Sessions.remove_ne _ hk) (fun e => Iff.rfl) (fun u => Iff.rfl)

theorem effect_remove {a : Action K} (hkeyed : w.sessions.Keyed) (key : K)
    (heffect : Effect key (w.view key) a ⟨none, (w.view key).observing, (w.view key).issued⟩) :
    (w.sessions.remove key).Keyed ∧ w.published ⊆ w.published ∧
      Effect k (w.view k) a ({ w with sessions := w.sessions.remove key }.view k) := by
  refine ⟨hkeyed.remove key, List.Subset.refl _, ?_⟩
  rw [view_remove]
  split
  · rename_i hk
    subst hk
    exact heffect
  · exact .other _

/-- Every step has one of the effects on each session, and takes back no publication. -/
theorem step_effect {a : Action K} (hkeyed : w.sessions.Keyed) (hstep : step w a = some w')
    (k : K) :
    w'.sessions.Keyed ∧ w.published ⊆ w'.published ∧ Effect k (w.view k) a (w'.view k) := by
  cases a with
  | record event =>
    obtain ⟨hsessions, heffect⟩ := view_record hstep
    exact ⟨hsessions ▸ hkeyed, heffect⟩
  | observe i now => exact view_observe hkeyed hstep
  | publish i =>
    obtain ⟨hsessions, heffect⟩ := view_publish hstep
    exact ⟨hsessions ▸ hkeyed, heffect⟩
  | reconcile now order => exact view_reconcile hkeyed hstep
  | retire key =>
    unfold step at hstep
    simp only at hstep
    split at hstep
    · split at hstep
      · rw [← Option.some.inj hstep]
        exact effect_remove hkeyed key .retire
      · cases hstep
    · cases hstep
  | displace key =>
    rw [← Option.some.inj hstep]
    exact effect_remove hkeyed key .displace

end Views

end DurableActors.Ports.Usage
