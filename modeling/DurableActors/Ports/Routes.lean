import DurableActors.Ports.StoragePaths
import DurableActors.Ports.UsageSessions

/-!
# Routes to actor hosts

The control plane remembers one entry for each actor: the route to its host, or
that the host with an identity is draining or has stopped.  An entry gives way
to one of a greater epoch, and to one of the same identity that is further on
the way to a stop.  A deployment starts a new generation, which hides the active
routes of earlier ones.

A shutdown entry keeps the stale route of its host away as long as it, or a
newer entry, is there to be compared with.  When a newer active route has
replaced it and that one is removed or hidden by a deployment, nothing is left
to compare with, and a late `remember` brings the old route back.
-/

namespace DurableActors.Ports.Routes

open Verified StoragePaths

/-! ## Entries -/

/-- The host session that a route is for, and its owner epoch. -/
structure RouteIdentity where
  host : String
  session : String
  epoch : Nat
deriving DecidableEq, Repr

/-- The fields of a placement that identify its host. -/
structure ObjectPlacement where
  owner : String
  leaseSessionId : String
  ownerEpoch : Nat
deriving DecidableEq, Repr

/-- `RouteIdentity::of` -/
def RouteIdentity.of (placement : ObjectPlacement) : RouteIdentity :=
  ⟨placement.owner, placement.leaseSessionId, placement.ownerEpoch⟩

/-- A route to the host of an actor. -/
structure CachedRoute where
  placement : ObjectPlacement
  hostConfigKey : String
  overridesRegions : Bool
deriving DecidableEq, Repr

/-- A route, or the mark that its host drains. -/
inductive RouteEntry
  | active (route : CachedRoute)
  | draining (identity : RouteIdentity)
  | stopped (identity : RouteIdentity)
deriving DecidableEq, Repr

namespace RouteEntry

def identity : RouteEntry → RouteIdentity
  | .active route => RouteIdentity.of route.placement
  | .draining identity => identity
  | .stopped identity => identity

/-- An entry of higher rank replaces one of its identity. -/
def rank : RouteEntry → Nat
  | .active _ => 0
  | .draining _ => 1
  | .stopped _ => 2

def supersedes (next current : RouteEntry) : Bool :=
  if next.identity = current.identity then current.rank ≤ next.rank
  else current.identity.epoch < next.identity.epoch

def isActive (entry : RouteEntry) (identity : RouteIdentity) : Bool :=
  entry.rank = 0 && entry.identity = identity

end RouteEntry

/-- An entry with the generation it was written in. -/
structure Stamped where
  generation : Nat
  entry : RouteEntry
deriving DecidableEq, Repr

def Stamped.visible (stamped : Stamped) (generation : Nat) : Bool :=
  stamped.generation = generation || stamped.entry.rank ≠ 0

/-! ## The store in memory -/

/-- The routes of a project.  The generation is a `u64`, which is not bounded here. -/
structure MemoryRoutes where
  entries : ActorKey → Option Stamped := fun _ => none
  generation : Nat := 0

namespace MemoryRoutes

def get (routes : MemoryRoutes) (actor : ActorKey) : Option RouteEntry :=
  ((routes.entries actor).filter fun stamped => stamped.visible routes.generation).map (·.entry)

def set (routes : MemoryRoutes) (actor : ActorKey) (stamped : Option Stamped) : MemoryRoutes :=
  { routes with entries := fun a => if a = actor then stamped else routes.entries a }

/-- Whether `write` puts the entry. -/
def accepts (routes : MemoryRoutes) (actor : ActorKey) (entry : RouteEntry)
    (observed : Option Nat) : Bool :=
  observed.all (fun observed => observed = routes.generation) &&
    ((routes.entries actor).filter fun current => current.visible routes.generation).all
      fun current => entry.supersedes current.entry

def write (routes : MemoryRoutes) (actor : ActorKey) (entry : RouteEntry)
    (observed : Option Nat) : MemoryRoutes :=
  if routes.accepts actor entry observed then
    routes.set actor (some ⟨routes.generation, entry⟩)
  else routes

def remember (routes : MemoryRoutes) (actor : ActorKey) (route : CachedRoute)
    (generation : Option Nat) : MemoryRoutes :=
  match generation with
  | some generation => routes.write actor (.active route) (some generation)
  | none => routes

def put (routes : MemoryRoutes) (actor : ActorKey) (entry : RouteEntry) : MemoryRoutes :=
  routes.write actor entry none

/-- `update_if_active`: the entry becomes what `op` makes of it. -/
def updateIfActive (routes : MemoryRoutes) (actor : ActorKey) (identity : RouteIdentity)
    (op : Stamped → Option Stamped) : MemoryRoutes :=
  match routes.entries actor with
  | some current =>
    if current.entry.isActive identity then routes.set actor (op current) else routes
  | none => routes

/-- `renew` writes the entry again, which only lengthens its life. -/
def renew (routes : MemoryRoutes) (actor : ActorKey) (identity : RouteIdentity) : MemoryRoutes :=
  routes.updateIfActive actor identity some

def remove (routes : MemoryRoutes) (actor : ActorKey) (identity : RouteIdentity) : MemoryRoutes :=
  routes.updateIfActive actor identity fun _ => none

/-- `remove_project`: all active routes are hidden. -/
def removeProject (routes : MemoryRoutes) : MemoryRoutes :=
  { routes with generation := routes.generation + 1 }

end MemoryRoutes

/-! ## Calls -/

inductive Operation
  /-- A route resolved under a generation that was read before. -/
  | remember (actor : ActorKey) (route : CachedRoute) (generation : Option Nat)
  | put (actor : ActorKey) (entry : RouteEntry)
  | renew (actor : ActorKey) (identity : RouteIdentity)
  | remove (actor : ActorKey) (identity : RouteIdentity)
  | removeProject
deriving DecidableEq, Repr

def MemoryRoutes.update (routes : MemoryRoutes) : Operation → MemoryRoutes
  | .remember actor route generation => routes.remember actor route generation
  | .put actor entry => routes.put actor entry
  | .renew actor identity => routes.renew actor identity
  | .remove actor identity => routes.remove actor identity
  | .removeProject => routes.removeProject

/-- The routes, with what has happened to each actor: the identities whose
shutdown took effect, and the generation with which its entry was remembered. -/
structure World where
  routes : MemoryRoutes := {}
  down : ActorKey → List RouteIdentity := fun _ => []
  origin : ActorKey → Option Nat := fun _ => none

namespace World

def step (w : World) : Operation → Option World
  | .remember actor route generation => some
      { w with
        routes := w.routes.remember actor route generation
        origin := fun a =>
          if a = actor ∧ generation.isSome ∧ w.routes.accepts actor (.active route) generation then
            generation
          else w.origin a }
  | .put actor entry => some
      { routes := w.routes.put actor entry
        down := fun a =>
          if a = actor ∧ entry.rank ≠ 0 ∧ w.routes.accepts actor entry none then
            entry.identity :: w.down a
          else w.down a
        origin := fun a =>
          if a = actor ∧ w.routes.accepts actor entry none then none else w.origin a }
  | .renew actor identity => some { w with routes := w.routes.renew actor identity }
  | .remove actor identity => some { w with routes := w.routes.remove actor identity }
  | .removeProject => some { w with routes := w.routes.removeProject }

end World

/-! ## What an entry keeps away -/

/-- The entry keeps routes of the identity, and of smaller epochs, away. -/
def RouteEntry.Bars (identity : RouteIdentity) (entry : RouteEntry) : Prop :=
  (entry.identity = identity ∧ entry.rank ≠ 0) ∨ identity.epoch < entry.identity.epoch

theorem RouteEntry.Bars.supersede {identity : RouteIdentity} {next current : RouteEntry}
    (h : current.Bars identity) (hnext : next.supersedes current = true) : next.Bars identity := by
  unfold RouteEntry.supersedes at hnext
  split at hnext
  · rename_i hsame
    have hrank : current.rank ≤ next.rank := of_decide_eq_true hnext
    obtain ⟨hidentity, hdown⟩ | hepoch := h
    · exact .inl ⟨hsame.trans hidentity, by omega⟩
    · exact .inr (hsame ▸ hepoch)
  · have hepoch : current.identity.epoch < next.identity.epoch := of_decide_eq_true hnext
    obtain ⟨rfl, -⟩ | hbars := h
    · exact .inr hepoch
    · exact .inr (Nat.lt_trans hbars hepoch)

namespace MemoryRoutes

variable {routes : MemoryRoutes} {actor : ActorKey}

theorem write_entries (routes : MemoryRoutes) (target : ActorKey) (entry : RouteEntry)
    (observed : Option Nat) (actor : ActorKey) :
    (routes.write target entry observed).entries actor =
      if actor = target ∧ routes.accepts target entry observed then some ⟨routes.generation, entry⟩
      else routes.entries actor := by
  unfold write
  cases routes.accepts target entry observed with
  | true =>
    by_cases hactor : actor = target
    · simp [set, hactor]
    · simp [set, hactor]
  | false => simp

theorem write_generation (routes : MemoryRoutes) (target : ActorKey) (entry : RouteEntry)
    (observed : Option Nat) :
    (routes.write target entry observed).generation = routes.generation := by
  unfold write
  split
  · rfl
  · rfl

/-- `update_if_active` changes the slot of an active entry of the identity, or nothing. -/
theorem updateIfActive_cases (routes : MemoryRoutes) (target : ActorKey)
    (identity : RouteIdentity) (op : Stamped → Option Stamped) :
    (∃ current, routes.entries target = some current ∧ current.entry.isActive identity = true ∧
      routes.updateIfActive target identity op = routes.set target (op current)) ∨
    ((routes.entries target).any (fun current => current.entry.isActive identity) = false ∧
      routes.updateIfActive target identity op = routes) := by
  unfold updateIfActive
  cases hcurrent : routes.entries target with
  | none => exact .inr ⟨rfl, rfl⟩
  | some current =>
    by_cases hactive : current.entry.isActive identity = true
    · exact .inl ⟨current, rfl, hactive, if_pos hactive⟩
    · exact .inr ⟨Bool.eq_false_of_not_eq_true hactive, if_neg hactive⟩

/-- A renewal changes no entry. -/
theorem renew_eq (routes : MemoryRoutes) (target : ActorKey) (identity : RouteIdentity) :
    routes.renew target identity = routes := by
  obtain ⟨current, hcurrent, -, hset⟩ | ⟨-, hsame⟩ :=
    updateIfActive_cases routes target identity some
  · have hentries : (fun a => if a = target then some current else routes.entries a) =
        routes.entries := by
      funext a
      split
      · rw [‹a = target›, hcurrent]
      · rfl
    rw [renew, hset, set, hentries]
  · exact hsame

/-- Only the removal of the project changes the generation. -/
theorem update_generation (routes : MemoryRoutes) (operation : Operation) :
    (routes.update operation).generation =
      routes.generation + if operation = .removeProject then 1 else 0 := by
  cases operation with
  | remember actor route generation =>
    cases generation with
    | none => rfl
    | some generation => exact write_generation ..
  | put actor entry => exact write_generation ..
  | renew actor identity => exact congrArg generation (renew_eq ..)
  | remove actor identity =>
    obtain ⟨-, -, -, hset⟩ | ⟨-, hsame⟩ := updateIfActive_cases routes actor identity fun _ => none
    · exact (congrArg generation hset :)
    · exact congrArg generation hsame
  | removeProject => rfl

theorem supersedes_of_accepts {entry : RouteEntry} {observed : Option Nat} {current : Stamped}
    (h : routes.accepts actor entry observed = true)
    (hcurrent : routes.entries actor = some current)
    (hvisible : current.visible routes.generation = true) :
    entry.supersedes current.entry = true := by
  unfold accepts at h
  rw [hcurrent, Option.filter_some, if_pos hvisible, Bool.and_eq_true] at h
  exact h.2

theorem generation_of_accepts {entry : RouteEntry} {generation : Nat}
    (h : routes.accepts actor entry (some generation) = true) : generation = routes.generation := by
  unfold accepts at h
  rw [Bool.and_eq_true] at h
  exact of_decide_eq_true h.1

/-- A visible entry that keeps the identity away. -/
def Retired (identity : RouteIdentity) (routes : MemoryRoutes) (actor : ActorKey) : Prop :=
  ∃ current, routes.entries actor = some current ∧
    current.visible routes.generation = true ∧ current.entry.Bars identity

theorem visible_new (generation : Nat) (entry : RouteEntry) :
    (⟨generation, entry⟩ : Stamped).visible generation = true := by
  simp [Stamped.visible]

theorem Retired.write {identity : RouteIdentity} (h : Retired identity routes actor)
    (target : ActorKey) (entry : RouteEntry) (observed : Option Nat) :
    Retired identity (routes.write target entry observed) actor := by
  obtain ⟨current, hcurrent, hvisible, hbars⟩ := h
  unfold Retired
  rw [write_entries, write_generation]
  split
  · rename_i hwrites
    obtain ⟨rfl, haccepts⟩ := hwrites
    exact ⟨_, rfl, visible_new _ _,
      hbars.supersede (supersedes_of_accepts haccepts hcurrent hvisible)⟩
  · exact ⟨current, hcurrent, hvisible, hbars⟩

/-- A shutdown that takes effect keeps its identity away. -/
theorem retired_put {entry : RouteEntry} (hrank : entry.rank ≠ 0)
    (haccepts : routes.accepts actor entry none = true) :
    Retired entry.identity (routes.put actor entry) actor := by
  unfold Retired MemoryRoutes.put
  rw [write_entries, write_generation, if_pos ⟨rfl, haccepts⟩]
  exact ⟨_, rfl, visible_new _ _, .inl ⟨rfl, hrank⟩⟩

/-- What keeps an identity away is not the route to it, and no older route. -/
theorem Retired.get {identity : RouteIdentity} {route : CachedRoute}
    (h : Retired identity routes actor) (hget : routes.get actor = some (.active route)) :
    RouteIdentity.of route.placement ≠ identity ∧
      ¬ (RouteIdentity.of route.placement).epoch < identity.epoch := by
  obtain ⟨current, hcurrent, hvisible, hbars⟩ := h
  have hentry : current.entry = .active route := by
    unfold MemoryRoutes.get at hget
    rw [hcurrent, Option.filter_some, if_pos hvisible] at hget
    exact Option.some.inj hget
  rw [hentry] at hbars
  obtain ⟨-, hrank⟩ | hepoch := hbars
  · exact absurd rfl hrank
  · have hepoch : identity.epoch < (RouteIdentity.of route.placement).epoch := hepoch
    refine ⟨?_, by omega⟩
    rintro rfl
    exact Nat.lt_irrefl _ hepoch

end MemoryRoutes

/-! ## Runs -/

namespace World

variable {w w' : World} {operation : Operation} {operations : List Operation} {actor : ActorKey}

/-- After a shutdown of the actor's host took effect, no active route of the actor
is removed, by itself or with its project. -/
def Kept (actor : ActorKey) (w : World) : Operation → Prop
  | .remove target identity => target = actor → w.down actor ≠ [] →
      ∀ current, w.routes.entries actor = some current → current.entry.isActive identity = false
  | .removeProject => w.down actor ≠ [] →
      ∀ current, w.routes.entries actor = some current → current.entry.rank ≠ 0
  | _ => True

/-- Every identity whose shutdown took effect is kept away. -/
def AllRetired (actor : ActorKey) (w : World) : Prop :=
  ∀ identity ∈ w.down actor, MemoryRoutes.Retired identity w.routes actor

/-- A route that was retired stays retired. -/
theorem step_allRetired (h : AllRetired actor w) (hkept : Kept actor w operation)
    (hstep : w.step operation = some w') : AllRetired actor w' := by
  cases operation with
  | remember target route generation =>
    cases hstep
    intro identity hidentity
    unfold MemoryRoutes.remember
    cases generation with
    | none => exact h identity hidentity
    | some generation => exact (h identity hidentity).write _ _ _
  | put target entry =>
    cases hstep
    intro identity hidentity
    dsimp only at hidentity ⊢
    split at hidentity
    · rename_i hput
      obtain ⟨rfl, hrank, haccepts⟩ := hput
      obtain rfl | hidentity := List.mem_cons.mp hidentity
      · exact MemoryRoutes.retired_put hrank haccepts
      · exact (h identity hidentity).write _ _ _
    · exact (h identity hidentity).write _ _ _
  | renew target identity =>
    cases hstep
    rw [MemoryRoutes.renew_eq]
    exact h
  | remove target identity' =>
    cases hstep
    obtain ⟨other, hother, hactive, hset⟩ | ⟨-, hsame⟩ :=
      MemoryRoutes.updateIfActive_cases w.routes target identity' fun _ => none
    · intro identity hidentity
      rw [MemoryRoutes.remove, hset]
      have htarget : actor ≠ target := by
        rintro rfl
        rw [hkept rfl (List.ne_nil_of_mem hidentity) other hother] at hactive
        cases hactive
      obtain ⟨current, hcurrent, hshown⟩ := h identity hidentity
      exact ⟨current, (if_neg htarget).trans hcurrent, hshown⟩
    · rw [MemoryRoutes.remove, hsame]
      exact h
  | removeProject =>
    cases hstep
    intro identity hidentity
    obtain ⟨current, hcurrent, -, hbars⟩ := h identity hidentity
    refine ⟨current, hcurrent, ?_, hbars⟩
    have hrank := hkept (List.ne_nil_of_mem hidentity) current hcurrent
    simp [Stamped.visible, hrank]

/-- The entry carries the generation with which it was remembered. -/
def Stamps (actor : ActorKey) (w : World) : Prop :=
  ∀ current generation, w.routes.entries actor = some current →
    w.origin actor = some generation → current.generation = generation

/-- Every write keeps the stamp of the entry. -/
theorem step_stamps (h : Stamps actor w) (hstep : w.step operation = some w') :
    Stamps actor w' := by
  cases operation with
  | remember target route generation =>
    cases hstep
    intro current observed hcurrent horigin
    cases generation with
    | none => exact h current observed hcurrent (by simpa using horigin)
    | some generation =>
      dsimp only [MemoryRoutes.remember] at hcurrent horigin
      rw [MemoryRoutes.write_entries] at hcurrent
      by_cases hwrites : actor = target ∧
          w.routes.accepts target (.active route) (some generation) = true
      · rw [if_pos hwrites] at hcurrent
        rw [if_pos ⟨hwrites.1, rfl, hwrites.2⟩] at horigin
        cases hcurrent
        cases horigin
        exact (MemoryRoutes.generation_of_accepts hwrites.2).symm
      · rw [if_neg hwrites] at hcurrent
        rw [if_neg fun hall => hwrites ⟨hall.1, hall.2.2⟩] at horigin
        exact h current observed hcurrent horigin
  | put target entry =>
    cases hstep
    intro current observed hcurrent horigin
    dsimp only [MemoryRoutes.put] at hcurrent horigin
    rw [MemoryRoutes.write_entries] at hcurrent
    by_cases hwrites : actor = target ∧ w.routes.accepts target entry none = true
    · rw [if_pos hwrites] at horigin
      cases horigin
    · rw [if_neg hwrites] at hcurrent horigin
      exact h current observed hcurrent horigin
  | renew target identity =>
    cases hstep
    rw [MemoryRoutes.renew_eq]
    exact h
  | remove target identity =>
    cases hstep
    obtain ⟨_, -, -, hset⟩ | ⟨-, hsame⟩ :=
      MemoryRoutes.updateIfActive_cases w.routes target identity fun _ => none
    · rw [MemoryRoutes.remove, hset]
      intro current observed hcurrent horigin
      obtain ⟨-, hcurrent⟩ := Option.ite_none_left_eq_some.mp hcurrent
      exact h current observed hcurrent horigin
    · rw [MemoryRoutes.remove, hsame]
      exact h
  | removeProject =>
    cases hstep
    exact h

theorem step_generation_le (hstep : w.step operation = some w') :
    w.routes.generation ≤ w'.routes.generation := by
  have hroutes : w'.routes = w.routes.update operation := by
    cases operation <;> cases hstep <;> rfl
  rw [hroutes, MemoryRoutes.update_generation]
  exact Nat.le_add_right _ _

theorem run_generation_le (hrun : Transition.run step w operations = some w') :
    w.routes.generation ≤ w'.routes.generation := by
  let Inv (w' : World) : Prop := w.routes.generation ≤ w'.routes.generation
  have hstep : ∀ w' operation w'', Inv w' → step w' operation = some w'' → Inv w'' :=
    fun w' operation w'' h hstep => Nat.le_trans h (step_generation_le hstep)
  exact Transition.run_invariant hstep (Nat.le_refl _) hrun

/-- A route that is shown carries the generation in force. -/
theorem Stamps.get {generation : Nat} {route : CachedRoute} (h : Stamps actor w)
    (hget : w.routes.get actor = some (.active route))
    (horigin : w.origin actor = some generation) :
    generation = w.routes.generation := by
  obtain ⟨current, hcurrent, hentry⟩ := Option.map_eq_some_iff.mp hget
  obtain ⟨hcurrent, hvisible⟩ := Option.filter_eq_some_iff.mp hcurrent
  have hstamp := h current generation hcurrent horigin
  unfold Stamped.visible at hvisible
  rw [hentry, hstamp] at hvisible
  simpa [RouteEntry.rank] using hvisible

end World

open World

/-- In every run of the store from its start: as long as no active route that has
replaced a shutdown entry is removed, alone or with its project, no active route
of an identity that was shut down, or of a smaller epoch, is shown; and after a
project was removed no route that was remembered under an earlier generation is
shown. -/
theorem shut_down_host_is_not_routed (operations : List Operation) (w : World)
    (hrun : Transition.run World.step {} operations = some w) (actor : ActorKey) :
    (Transition.Guarded World.step (Kept actor) {} operations →
      ∀ identity ∈ w.down actor, ∀ route, w.routes.get actor = some (.active route) →
        RouteIdentity.of route.placement ≠ identity ∧
          ¬ (RouteIdentity.of route.placement).epoch < identity.epoch) ∧
    ∀ (later : List Operation) (w' : World),
      Transition.run World.step w (.removeProject :: later) = some w' →
      ∀ route generation, w'.routes.get actor = some (.active route) →
        w'.origin actor = some generation → w.routes.generation < generation := by
  refine ⟨fun hkept identity hidentity route hget => ?_, fun later w' hrun' => ?_⟩
  · have hstart : AllRetired actor {} := fun identity hidentity => nomatch hidentity
    have hretired := Transition.run_guarded_invariant
      (fun w operation w' h hkept hstep => step_allRetired h hkept hstep) hstart hkept hrun
    exact (hretired identity hidentity).get hget
  · intro route generation hget horigin
    have hstart : Stamps actor {} := fun current generation hcurrent => nomatch hcurrent
    have hinv : ∀ w operation w', Stamps actor w → World.step w operation = some w' →
        Stamps actor w' := fun w operation w' h hstep => step_stamps h hstep
    have hstamps := Transition.run_invariant hinv
      (Transition.run_invariant hinv hstart hrun) hrun'
    obtain ⟨removed, hremoved, hrest⟩ := Transition.run_cons_eq_some.mp hrun'
    cases hremoved
    rw [hstamps.get hget horigin]
    exact run_generation_le hrest

/-- A host identity of the given epoch. -/
def exampleIdentity (epoch : Nat) : RouteIdentity := ⟨"host", "session", epoch⟩

def exampleRoute (epoch : Nat) : CachedRoute := ⟨⟨"host", "session", epoch⟩, "config", false⟩

def exampleActor : ActorKey := ⟨"project", "Actor", "a"⟩

instance (actor : ActorKey) (w : World) (operation : Operation) :
    Decidable (Kept actor w operation) :=
  match operation with
  | .remember _ _ _ => .isTrue trivial
  | .put _ _ => .isTrue trivial
  | .renew _ _ => .isTrue trivial
  | .remove target identity => decidable_of_iff (target = actor → w.down actor ≠ [] →
      (w.routes.entries actor).all (fun current => ! current.entry.isActive identity) = true) (by
        unfold Kept
        cases w.routes.entries actor <;> simp)
  | .removeProject => decidable_of_iff (w.down actor ≠ [] →
      (w.routes.entries actor).all (fun current => current.entry.rank ≠ 0) = true) (by
        unfold Kept
        cases w.routes.entries actor <;> simp)

/-- The host of epoch one drains, a late route to it is ignored, and the one of epoch two
is routed to. -/
def replacedHost : List Operation :=
  [.put exampleActor (.draining (exampleIdentity 1)),
    .remember exampleActor (exampleRoute 1) (some 0),
    .remember exampleActor (exampleRoute 2) (some 0)]

theorem shut_down_host_is_not_routed_replaced :
    ∃ w, Transition.run World.step {} replacedHost = some w ∧
      w.routes.get exampleActor = some (.active (exampleRoute 2)) ∧
      RouteIdentity.of (exampleRoute 2).placement ≠ exampleIdentity 1 := by
  refine ⟨_, rfl, by decide, ?_⟩
  exact ((shut_down_host_is_not_routed replacedHost _ rfl exampleActor).1 (by decide)
    (exampleIdentity 1) (by decide) (exampleRoute 2) (by decide)).1

/-- The newer route is removed, and a late `remember` brings back the route to the
host that is draining. -/
theorem draining_host_routed_again :
    ∃ w, Transition.run World.step {} [.put exampleActor (.draining (exampleIdentity 1)),
          .remember exampleActor (exampleRoute 2) (some 0),
          .remove exampleActor (exampleIdentity 2),
          .remember exampleActor (exampleRoute 1) (some 0)] = some w ∧
      exampleIdentity 1 ∈ w.down exampleActor ∧
      w.routes.get exampleActor = some (.active (exampleRoute 1)) ∧
      RouteIdentity.of (exampleRoute 1).placement = exampleIdentity 1 :=
  ⟨_, rfl, by decide, by decide, rfl⟩

end DurableActors.Ports.Routes
