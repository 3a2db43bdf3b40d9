import DurableActors.Ports.Routes
import DurableActors.Verified.Double
import DurableActors.Verified.Machine

/-!
# Routes in Redis

`RedisRoutes` keeps an entry as a hash with the fields a script compares: the
generation, the key of the identity, the epoch, the state and the entry itself as
JSON.  The generation of the project is a number of its own, which `INCR` keeps
below `2 ^ 63`.  Lua compares epochs as doubles.

Both stores let an entry live for a time that depends on its state, and start
that time again when the entry is written or renewed.  Active entries of earlier
generations stay until they expire: `get` and `put` pass over them, `renew` and
`remove` do not.
-/

namespace DurableActors.Ports.Routes

open Verified StoragePaths

/-! ## Lifetimes -/

/-- `LIVENESS`, in milliseconds: three heartbeats of ten seconds. -/
def livenessMs : Nat := 30000

/-- `SHUTDOWN_RETENTION`, in milliseconds: twice the longest lease. -/
def shutdownRetentionMs : Nat := 120000

/-- `state` in the scripts. -/
inductive EntryState
  | active
  | draining
  | stopped
deriving DecidableEq, Repr

/-- The table `rank` of the script. -/
def EntryState.rank : EntryState → Nat
  | .active => 0
  | .draining => 1
  | .stopped => 2

def RouteEntry.state : RouteEntry → EntryState
  | .active _ => .active
  | .draining _ => .draining
  | .stopped _ => .stopped

/-- How long an entry is kept. -/
def RouteEntry.lifetime : RouteEntry → Nat
  | .active _ => livenessMs
  | .draining _ | .stopped _ => shutdownRetentionMs

/-! ## Calls -/

inductive Call
  | get (actor : ActorKey)
  | generation
  | update (operation : Operation)
deriving DecidableEq, Repr

inductive Answer
  | entry (entry : Option RouteEntry)
  | generation (generation : Option Nat)
  | done
deriving DecidableEq, Repr

/-- A call at a time. -/
structure Timed where
  now : Nat
  call : Call
deriving DecidableEq, Repr

/-! ## The store in memory, with lifetimes -/

/-- The store in memory with the deadlines of its cache. -/
structure MemoryCache where
  routes : MemoryRoutes := {}
  deadline : ActorKey → Nat := fun _ => 0

/-- The entry that an operation puts into the cache, if any: `EntryLifetime` then gives it
the lifetime of its state. -/
def MemoryRoutes.puts (routes : MemoryRoutes) : Operation → Option (ActorKey × RouteEntry)
  | .remember actor route generation =>
    if generation.isSome && routes.accepts actor (.active route) generation then
      some (actor, .active route)
    else none
  | .put actor entry => if routes.accepts actor entry none then some (actor, entry) else none
  | .renew actor identity =>
    ((routes.entries actor).filter fun current => current.entry.isActive identity).map
      fun current => (actor, current.entry)
  | .remove _ _ | .removeProject => none

section Memory

variable (expired : Nat → Nat → Bool)

/-- Entries past their deadline are absent. -/
def MemoryCache.purge (cache : MemoryCache) (now : Nat) : MemoryCache :=
  { cache with
    routes :=
      { cache.routes with
        entries := fun actor =>
          if expired (cache.deadline actor) now then none else cache.routes.entries actor } }

def MemoryCache.update (cache : MemoryCache) (now : Nat) (operation : Operation) : MemoryCache :=
  { routes := cache.routes.update operation
    deadline :=
      match cache.routes.puts operation with
      | some (actor, entry) => Function.update cache.deadline actor (now + entry.lifetime)
      | none => cache.deadline }

def MemoryCache.handle (cache : MemoryCache) (t : Timed) : Answer × MemoryCache :=
  let cache := cache.purge expired t.now
  match t.call with
  | .get actor => (.entry (cache.routes.get actor), cache)
  | .generation => (.generation (some cache.routes.generation), cache)
  | .update operation => (.done, cache.update t.now operation)

/-- The time an entry still has. -/
def MemoryCache.remaining (cache : MemoryCache) (actor : ActorKey) (now : Nat) : Option Nat :=
  ((cache.purge expired now).routes.entries actor).map fun _ => cache.deadline actor - now

end Memory

/-! ## The scripts -/

/-- The JSON texts of identities and entries. -/
structure Codec (T : Type) where
  key : RouteIdentity → T
  encode : RouteEntry → T
  decode : T → Option RouteEntry
  key_injective : Function.Injective key
  decode_encode (entry : RouteEntry) : decode (encode entry) = some entry

/-- The hash of an entry. -/
structure Fields (T : Type) where
  generation : Nat
  identity : T
  epoch : Nat
  state : EntryState
  entry : T
deriving DecidableEq, Repr

/-- The keys of a project. -/
structure RedisRoutes (T : Type) where
  entries : ActorKey → Option (Fields T) := fun _ => none
  deadline : ActorKey → Nat := fun _ => 0
  generation : Option Nat := none

namespace RedisRoutes

variable {T : Type} [DecidableEq T] (codec : Codec T) (expired : Nat → Nat → Bool)

/-- `CURRENT_ENTRY` -/
def currentEntry (routes : RedisRoutes T) (actor : ActorKey) : Option T :=
  match routes.entries actor with
  | some entry =>
    if entry.state ≠ .active ∨ entry.generation = routes.generation.getD 0 then some entry.entry
    else none
  | none => none

/-- `HSET` and `PEXPIRE` of `PUT_ENTRY`. -/
def setEntry (routes : RedisRoutes T) (actor : ActorKey) (fields : Fields T) (deadline : Nat) :
    RedisRoutes T :=
  { routes with
    entries := fun a => if a = actor then some fields else routes.entries a
    deadline := Function.update routes.deadline actor deadline }

/-- `PUT_ENTRY` -/
def putEntry (routes : RedisRoutes T) (now : Nat) (actor : ActorKey) (identity : T) (epoch : Nat)
    (state : EntryState) (entry : T) (lifetime : Nat) (observed : Option Nat) : RedisRoutes T :=
  let generation := routes.generation.getD 0
  if observed.any (· ≠ generation) then routes
  else
    let written :=
      routes.setEntry actor ⟨generation, identity, epoch, state, entry⟩ (now + lifetime)
    match (routes.entries actor).filter
        fun current => ¬ (current.state = .active ∧ current.generation ≠ generation) with
    | some current =>
      if current.identity = identity then
        if state.rank < current.state.rank then routes else written
      else if Double.ofNat epoch ≤ Double.ofNat current.epoch then routes
      else written
    | none => written

/-- `IF_ACTIVE`, with what it does to an active entry of the identity. -/
def ifActive (routes : RedisRoutes T) (actor : ActorKey) (identity : T)
    (operation : RedisRoutes T → RedisRoutes T) : RedisRoutes T :=
  match routes.entries actor with
  | some current =>
    if current.identity ≠ identity ∨ current.state ≠ .active then routes else operation routes
  | none => routes

/-- `INCR`: a signed number of 64 bits. -/
def incr (routes : RedisRoutes T) : RedisRoutes T :=
  let next := routes.generation.getD 0 + 1
  if next < 2 ^ 63 then { routes with generation := some next } else routes

def write (routes : RedisRoutes T) (now : Nat) (actor : ActorKey) (entry : RouteEntry)
    (observed : Option Nat) : RedisRoutes T :=
  routes.putEntry now actor (codec.key entry.identity) entry.identity.epoch entry.state
    (codec.encode entry) entry.lifetime observed

def update (routes : RedisRoutes T) (now : Nat) : Operation → RedisRoutes T
  | .remember actor route generation =>
    match generation with
    | some generation => routes.write codec now actor (.active route) (some generation)
    | none => routes
  | .put actor entry => routes.write codec now actor entry none
  | .renew actor identity =>
    routes.ifActive actor (codec.key identity) fun routes =>
      { routes with deadline := Function.update routes.deadline actor (now + livenessMs) }
  | .remove actor identity =>
    routes.ifActive actor (codec.key identity) fun routes =>
      { routes with entries := fun a => if a = actor then none else routes.entries a }
  | .removeProject => routes.incr

/-- Keys past their deadline are absent. -/
def purge (routes : RedisRoutes T) (now : Nat) : RedisRoutes T :=
  { routes with
    entries := fun actor =>
      if expired (routes.deadline actor) now then none else routes.entries actor }

def handle (routes : RedisRoutes T) (t : Timed) : Answer × RedisRoutes T :=
  let routes := routes.purge expired t.now
  match t.call with
  | .get actor => (.entry ((routes.currentEntry actor).bind codec.decode), routes)
  | .generation => (.generation (some (routes.generation.getD 0)), routes)
  | .update operation => (.done, routes.update codec t.now operation)

/-- `PTTL` -/
def remaining (routes : RedisRoutes T) (actor : ActorKey) (now : Nat) : Option Nat :=
  ((routes.purge expired now).entries actor).map fun _ => routes.deadline actor - now

end RedisRoutes

/-! ## The two stores agree -/

section Mirrors

variable {T : Type} [DecidableEq T] {codec : Codec T} {cache : MemoryCache} {routes : RedisRoutes T}

def Fields.ofStamped (codec : Codec T) (stamped : Stamped) : Fields T :=
  ⟨stamped.generation, codec.key stamped.entry.identity, stamped.entry.identity.epoch,
    stamped.entry.state, codec.encode stamped.entry⟩

/-- The same entries with the same deadlines, invisible ones included. -/
structure Mirrors (codec : Codec T) (cache : MemoryCache) (routes : RedisRoutes T) : Prop where
  generation : routes.generation.getD 0 = cache.routes.generation
  entries (actor : ActorKey) :
    routes.entries actor = (cache.routes.entries actor).map (Fields.ofStamped codec)
  deadline : routes.deadline = cache.deadline
  epochs (actor : ActorKey) : ∀ stamped ∈ cache.routes.entries actor,
    stamped.entry.identity.epoch ≤ 2 ^ 53

theorem RouteEntry.rank_state (entry : RouteEntry) : entry.state.rank = entry.rank := by
  cases entry <;> rfl

theorem RouteEntry.state_eq_active {entry : RouteEntry} :
    entry.state = .active ↔ entry.rank = 0 := by
  cases entry <;> simp [RouteEntry.state, RouteEntry.rank]

omit [DecidableEq T] in
/-- The script passes over the same entries as `visible`. -/
theorem Fields.visible_ofStamped (codec : Codec T) (stamped : Stamped) (generation : Nat) :
    decide (¬ ((Fields.ofStamped codec stamped).state = .active ∧
      (Fields.ofStamped codec stamped).generation ≠ generation)) = stamped.visible generation := by
  rw [Stamped.visible, Bool.eq_iff_iff]
  simp only [Fields.ofStamped, RouteEntry.state_eq_active, decide_eq_true_eq, Bool.or_eq_true]
  tauto

/-- The script gives way to the same entries as `supersedes`. -/
theorem supersedes_iff (codec : Codec T) {next : RouteEntry} {current : Stamped}
    (hnext : next.identity.epoch ≤ 2 ^ 53) (hcurrent : current.entry.identity.epoch ≤ 2 ^ 53) :
    next.supersedes current.entry = true ↔
      if (Fields.ofStamped codec current).identity = codec.key next.identity then
        ¬ next.state.rank < (Fields.ofStamped codec current).state.rank
      else ¬ Double.ofNat next.identity.epoch ≤
        Double.ofNat (Fields.ofStamped codec current).epoch := by
  have hkey : (Fields.ofStamped codec current).identity = codec.key next.identity ↔
      next.identity = current.entry.identity := by
    constructor
    · exact fun h => (codec.key_injective h).symm
    · exact fun h => congrArg codec.key h.symm
  rw [RouteEntry.supersedes]
  by_cases hsame : next.identity = current.entry.identity
  · rw [if_pos hsame, if_pos (hkey.mpr hsame), RouteEntry.rank_state, decide_eq_true_eq, Nat.not_lt]
    show _ ↔ current.entry.state.rank ≤ _
    rw [RouteEntry.rank_state]
  · rw [if_neg hsame, if_neg fun h => hsame (hkey.mp h), Double.ofNat_eq hnext, decide_eq_true_eq,
      Nat.not_le]
    show _ ↔ Double.ofNat current.entry.identity.epoch < _
    rw [Double.ofNat_eq hcurrent]

variable (h : Mirrors codec cache routes)
include h

omit [DecidableEq T] in
theorem Mirrors.purge (expired : Nat → Nat → Bool) (now : Nat) :
    Mirrors codec (cache.purge expired now) (routes.purge expired now) := by
  refine ⟨h.generation, fun actor => ?_, h.deadline, fun actor stamped hentry => ?_⟩
  · show (if expired (routes.deadline actor) now then none else routes.entries actor) =
      (if expired (cache.deadline actor) now then none else cache.routes.entries actor).map _
    rw [h.deadline, h.entries]
    split <;> rfl
  · exact h.epochs actor stamped (Option.ite_none_left_eq_some.mp hentry).2

omit h in
omit [DecidableEq T] in
/-- The slot of an actor is written on both sides. -/
theorem Mirrors.set (h : Mirrors codec cache routes) (actor : ActorKey) (slot : Option Stamped)
    (hslot : ∀ stamped ∈ slot, stamped.entry.identity.epoch ≤ 2 ^ 53) (deadline : ActorKey → Nat) :
    Mirrors codec ⟨cache.routes.set actor slot, deadline⟩
      { routes with
        entries := fun a =>
          if a = actor then slot.map (Fields.ofStamped codec) else routes.entries a
        deadline := deadline } := by
  refine ⟨h.generation, fun other => ?_, rfl, fun other stamped hentry => ?_⟩
  · show (if other = actor then _ else routes.entries other) =
      (if other = actor then slot else cache.routes.entries other).map _
    split
    · rfl
    · exact h.entries other
  · have hentry : (if other = actor then slot else cache.routes.entries other) =
      some stamped := hentry
    split at hentry
    · exact hslot stamped hentry
    · exact h.epochs other stamped hentry

omit [DecidableEq T] in
theorem Mirrors.get_eq (actor : ActorKey) :
    (routes.currentEntry actor).bind codec.decode = cache.routes.get actor := by
  rw [RedisRoutes.currentEntry, MemoryRoutes.get, h.entries, h.generation]
  cases cache.routes.entries actor with
  | none => rfl
  | some stamped =>
    rw [Option.map_some]
    dsimp only
    have hvisible := Fields.visible_ofStamped codec stamped cache.routes.generation
    by_cases hshown : stamped.visible cache.routes.generation = true
    · rw [hshown, decide_eq_true_eq] at hvisible
      rw [if_pos (by tauto), Option.filter_some, if_pos hshown]
      exact codec.decode_encode stamped.entry
    · rw [Bool.not_eq_true] at hshown
      rw [hshown, decide_eq_false_iff_not] at hvisible
      rw [if_neg (by tauto), Option.filter_some, hshown]
      rfl

/-- The script writes exactly what `write` accepts. -/
theorem Mirrors.write_eq (now : Nat) (actor : ActorKey) {entry : RouteEntry}
    (hepoch : entry.identity.epoch ≤ 2 ^ 53) (observed : Option Nat) :
    routes.write codec now actor entry observed = if cache.routes.accepts actor entry observed then
        routes.setEntry actor (Fields.ofStamped codec ⟨cache.routes.generation, entry⟩)
          (now + entry.lifetime) else routes := by
  rw [RedisRoutes.write, RedisRoutes.putEntry, MemoryRoutes.accepts, h.generation, h.entries]
  have hobserved : observed.any (fun g => decide (g ≠ cache.routes.generation)) =
      !observed.all fun g => decide (g = cache.routes.generation) := by
    cases observed <;> simp
  rw [hobserved]
  cases hall : observed.all fun g => decide (g = cache.routes.generation) with
  | false => rfl
  | true =>
    simp only [Bool.not_true, Bool.false_eq_true, if_false, Bool.true_and]
    cases hentry : cache.routes.entries actor with
    | none => rfl
    | some current =>
      have hvisible := Fields.visible_ofStamped codec current
        cache.routes.generation
      rw [Option.map_some, Option.filter_some, Option.filter_some, hvisible]
      cases hshown : current.visible cache.routes.generation with
      | false => rfl
      | true =>
        have hiff := supersedes_iff codec hepoch (h.epochs actor current hentry)
        simp only [if_true, Option.all_some]
        by_cases hkey : (Fields.ofStamped codec current).identity = codec.key entry.identity
        · rw [if_pos hkey] at hiff ⊢
          by_cases hrank : entry.state.rank < (Fields.ofStamped codec current).state.rank
          · rw [if_pos hrank, if_neg fun hsup => hiff.mp hsup hrank]
          · rw [if_neg hrank, if_pos (hiff.mpr hrank)]
            rfl
        · rw [if_neg hkey] at hiff ⊢
          by_cases hle : Double.ofNat entry.identity.epoch ≤
              Double.ofNat (Fields.ofStamped codec current).epoch
          · rw [if_pos hle, if_neg fun hsup => hiff.mp hsup hle]
          · rw [if_neg hle, if_pos (hiff.mpr hle)]
            rfl

/-- An operation that writes an entry, if it is accepted. -/
theorem Mirrors.write (now : Nat) {actor : ActorKey} {entry : RouteEntry} {observed : Option Nat}
    {operation : Operation} (hepoch : entry.identity.epoch ≤ 2 ^ 53)
    (hwrites : cache.routes.update operation = cache.routes.write actor entry observed)
    (hputs : cache.routes.puts operation =
      if cache.routes.accepts actor entry observed then some (actor, entry) else none) :
    Mirrors codec (cache.update now operation) (routes.write codec now actor entry observed) := by
  rw [h.write_eq now actor hepoch observed, MemoryCache.update, hputs, hwrites, MemoryRoutes.write]
  cases cache.routes.accepts actor entry observed with
  | false => exact h
  | true =>
    have hset := h.set actor (some ⟨cache.routes.generation, entry⟩)
      (by rintro _ ⟨⟩; exact hepoch) (Function.update cache.deadline actor (now + entry.lifetime))
    rw [← h.deadline] at hset ⊢
    exact hset

/-- `IF_ACTIVE` finds the entries that `update_if_active` finds. -/
theorem Mirrors.ifActive_eq (actor : ActorKey) (identity : RouteIdentity)
    (operation : RedisRoutes T → RedisRoutes T) :
    routes.ifActive actor (codec.key identity) operation =
      if (cache.routes.entries actor).any fun current => current.entry.isActive identity then
        operation routes else routes := by
  rw [RedisRoutes.ifActive, h.entries]
  cases cache.routes.entries actor with
  | none => rfl
  | some current =>
    have hiff : current.entry.isActive identity = true ↔
        ¬ (codec.key current.entry.identity ≠ codec.key identity ∨
          current.entry.state ≠ .active) := by
      rw [RouteEntry.isActive, ne_eq, codec.key_injective.eq_iff, ne_eq, RouteEntry.state_eq_active]
      simp only [Bool.and_eq_true, decide_eq_true_eq]
      tauto
    exact (ite_not ..).symm.trans (if_congr hiff.symm rfl rfl)

omit h in
/-- The epochs of what an operation writes are exact as doubles. -/
def Operation.Exact : Operation → Prop
  | .remember _ route _ => route.placement.ownerEpoch ≤ 2 ^ 53
  | .put _ entry => entry.identity.epoch ≤ 2 ^ 53
  | .renew _ _ | .remove _ _ | .removeProject => True

/-- A write does the same to both stores. -/
theorem Mirrors.update (now : Nat) {operation : Operation} (hexact : operation.Exact)
    (hroom : operation = .removeProject → cache.routes.generation + 1 < 2 ^ 63) :
    Mirrors codec (cache.update now operation) (routes.update codec now operation) := by
  cases operation with
  | remember actor route generation =>
    cases generation with
    | none => exact h
    | some generation =>
      have hputs : cache.routes.puts (.remember actor route (some generation)) =
          if cache.routes.accepts actor (.active route) (some generation) then
            some (actor, .active route)
          else none := rfl
      exact h.write now hexact rfl hputs
  | put actor entry => exact h.write now hexact rfl rfl
  | renew actor identity =>
    rw [RedisRoutes.update, h.ifActive_eq, MemoryCache.update]
    simp only [MemoryRoutes.update, MemoryRoutes.renew_eq, MemoryRoutes.puts]
    cases hcurrent : cache.routes.entries actor with
    | none => exact h
    | some current =>
      rw [Option.filter_some, Option.any_some]
      by_cases hactive : current.entry.isActive identity = true
      · have hlifetime : current.entry.lifetime = livenessMs := by
          cases hentry : current.entry with
          | active route => rfl
          | draining _ => simp [RouteEntry.isActive, RouteEntry.rank, hentry] at hactive
          | stopped _ => simp [RouteEntry.isActive, RouteEntry.rank, hentry] at hactive
        rw [if_pos hactive, if_pos hactive, Option.map_some]
        dsimp only
        rw [hlifetime, ← h.deadline]
        exact { h with deadline := rfl }
      · rw [if_neg hactive, if_neg hactive]
        exact h
  | remove actor identity =>
    rw [RedisRoutes.update, h.ifActive_eq]
    obtain ⟨current, hcurrent, hactive, hset⟩ | ⟨hnone, hsame⟩ :=
      MemoryRoutes.updateIfActive_cases cache.routes actor identity fun _ => none
    · rw [hcurrent, Option.any_some, if_pos hactive]
      have hremoved := h.set actor none (by rintro _ ⟨⟩) cache.deadline
      rw [← h.deadline] at hremoved
      show Mirrors codec ⟨cache.routes.updateIfActive actor identity fun _ => none, _⟩ _
      rw [hset, ← h.deadline]
      exact hremoved
    · rw [hnone]
      show Mirrors codec ⟨cache.routes.updateIfActive actor identity fun _ => none, _⟩ _
      rw [hsame]
      exact h
  | removeProject =>
    have hnext : routes.generation.getD 0 + 1 < 2 ^ 63 := by
      rw [h.generation]
      exact hroom rfl
    have hincr : routes.incr = { routes with generation := some (routes.generation.getD 0 + 1) } :=
      if_pos hnext
    show Mirrors codec _ routes.incr
    rw [hincr]
    exact ⟨congrArg (· + 1) h.generation, h.entries, h.deadline, h.epochs⟩

/-! ## Sequences of calls -/

omit h in
/-- The number of deployments in a sequence of calls. -/
def removals (calls : List Timed) : Nat :=
  calls.countP fun t => t.call = .update .removeProject

omit h in
/-- Every write of the calls is exact, and the generation has room for their deployments. -/
def Room (cache : MemoryCache) (calls : List Timed) : Prop :=
  (∀ t ∈ calls, ∀ operation, t.call = .update operation → operation.Exact) ∧
    cache.routes.generation + removals calls < 2 ^ 63

omit h in
/-- A call has one answer, and the stores stay in step. -/
theorem Mirrors.handle (expired : Nat → Nat → Bool) (t : Timed) (calls : List Timed)
    (h : Mirrors codec cache routes) (hroom : Room cache (t :: calls)) :
    (cache.handle expired t).1 = (routes.handle codec expired t).1 ∧
      Mirrors codec (cache.handle expired t).2 (routes.handle codec expired t).2 ∧
      Room (cache.handle expired t).2 calls := by
  obtain ⟨hexact, hbound⟩ := hroom
  have hpurged := h.purge expired t.now
  have hgeneration : (cache.purge expired t.now).routes.generation = cache.routes.generation := rfl
  have hexact' := fun t' ht' => hexact t' (List.mem_cons_of_mem t ht')
  have hcount : removals (t :: calls) =
      removals calls + if t.call = .update .removeProject then 1 else 0 := by
    simp [removals, List.countP_cons]
  rw [hcount] at hbound
  have hrest : cache.routes.generation + removals calls < 2 ^ 63 := by omega
  obtain ⟨now, call⟩ := t
  cases call with
  | get actor =>
    exact ⟨congrArg Answer.entry (hpurged.get_eq actor).symm, hpurged, hexact', hrest⟩
  | generation =>
    exact ⟨congrArg (Answer.generation ∘ some) hpurged.generation.symm, hpurged, hexact', hrest⟩
  | update operation =>
    simp only [Call.update.injEq] at hbound
    refine ⟨rfl, hpurged.update now (hexact _ List.mem_cons_self operation rfl) ?_, hexact', ?_⟩
    · rintro rfl
      rw [if_pos rfl] at hbound
      rw [hgeneration]
      omega
    · show ((cache.purge expired now).routes.update operation).generation + _ < _
      rw [MemoryRoutes.update_generation, hgeneration]
      omega

omit [DecidableEq T] in
theorem Mirrors.remaining_eq (expired : Nat → Nat → Bool) (actor : ActorKey) (now : Nat) :
    cache.remaining expired actor now = routes.remaining expired actor now := by
  rw [MemoryCache.remaining, RedisRoutes.remaining, (h.purge expired now).entries, Option.map_map,
    h.deadline]
  rfl

end Mirrors

/-- With epochs up to `2 ^ 53` and fewer than `2 ^ 63` deployments, every sequence of calls
at any times is answered alike by the store in memory and the one in Redis, and leaves
entries with the same remaining lifetimes. -/
theorem redis_routes_mirror_memory {T : Type} [DecidableEq T] (codec : Codec T)
    (expired : Nat → Nat → Bool) (calls : List Timed)
    (hexact : ∀ t ∈ calls, ∀ operation, t.call = .update operation → operation.Exact)
    (hremovals : removals calls < 2 ^ 63) :
    Machine.answers (MemoryCache.handle expired) {} calls =
        Machine.answers (RedisRoutes.handle codec expired) {} calls ∧ ∀ actor now,
        (Machine.after (MemoryCache.handle expired) {} calls).remaining expired actor now =
          (Machine.after (RedisRoutes.handle codec expired) {} calls).remaining expired actor
            now := by
  have hstart : Mirrors codec {} {} := ⟨rfl, fun _ => rfl, rfl, nofun⟩
  have hroom : Room {} calls := ⟨hexact, by rw [Nat.zero_add]; exact hremovals⟩
  obtain ⟨hanswers, hend⟩ := Machine.simulate
    (fun _ _ t calls h hroom => h.handle expired t calls hroom) hstart hroom
  exact ⟨hanswers, fun actor now => hend.remaining_eq expired actor now⟩

/-! ## Examples -/

/-- Texts that are what they stand for. -/
def exampleCodec : Codec (RouteIdentity ⊕ RouteEntry) where
  key := .inl
  encode := .inr
  decode
    | .inr entry => some entry
    | .inl _ => none
  key_injective := Sum.inl_injective
  decode_encode _ := rfl

/-- An entry lasts until its deadline. -/
def pastDeadline (deadline now : Nat) : Bool := deadline ≤ now

/-- A deployment hides the route, which can still be renewed. -/
def hiddenRoute : List Timed :=
  [⟨0, .update (.remember exampleActor (exampleRoute 1) (some 0))⟩, ⟨1, .update .removeProject⟩,
    ⟨2, .get exampleActor⟩, ⟨20000, .update (.renew exampleActor (exampleIdentity 1))⟩]

theorem redis_routes_mirror_memory_hidden :
    Machine.answers (RedisRoutes.handle exampleCodec pastDeadline) {} hiddenRoute =
        [.done, .done, .entry none, .done] ∧
      (Machine.after (RedisRoutes.handle exampleCodec pastDeadline) {} hiddenRoute).remaining
        pastDeadline exampleActor 40000 = some 10000 := by
  have hexact : ∀ t ∈ hiddenRoute, ∀ operation, t.call = .update operation → operation.Exact := by
    intro t ht operation hoperation
    simp only [hiddenRoute, List.mem_cons, List.not_mem_nil, or_false] at ht
    rcases ht with rfl | rfl | rfl | rfl <;> cases hoperation
    · show (1 : Nat) ≤ 2 ^ 53
      decide
    · trivial
    · trivial
  obtain ⟨hanswers, hremaining⟩ := redis_routes_mirror_memory exampleCodec pastDeadline
    hiddenRoute hexact (by decide)
  rw [← hanswers, ← hremaining]
  exact ⟨by decide, by decide⟩

/-- Deployments, one after the other. -/
theorem after_removals (expired : Nat → Nat → Bool) (n : Nat) :
    (Machine.after (MemoryCache.handle expired) {}
        (List.replicate n ⟨0, .update .removeProject⟩)).routes.generation = n ∧
      (Machine.after (RedisRoutes.handle exampleCodec expired) {}
        (List.replicate n ⟨0, .update .removeProject⟩)).generation.getD 0 = min n (2 ^ 63 - 1) := by
  induction n with
  | zero => exact ⟨rfl, rfl⟩
  | succ n ih =>
    rw [List.replicate_succ', Machine.after_append, Machine.after_append]
    refine ⟨congrArg (· + 1) ih.1, ?_⟩
    show (RedisRoutes.incr _).generation.getD 0 = _
    rw [RedisRoutes.incr]
    have hsame : ∀ routes : RedisRoutes (RouteIdentity ⊕ RouteEntry),
        (routes.purge expired 0).generation = routes.generation := fun _ => rfl
    simp only [hsame]
    by_cases hroom : min n (2 ^ 63 - 1) + 1 < 2 ^ 63
    · rw [ih.2, if_pos hroom, Option.getD_some]
      omega
    · rw [ih.2, if_neg hroom, hsame, ih.2]
      omega

/-- Asked for the generation then, the stores agree below `2 ^ 63` deployments only. -/
theorem removals_of_same_answers (expired : Nat → Nat → Bool) (n : Nat)
    (hsame : Machine.answers (MemoryCache.handle expired) {}
        (List.replicate n ⟨0, .update .removeProject⟩ ++ [⟨0, .generation⟩]) =
      Machine.answers (RedisRoutes.handle exampleCodec expired) {}
        (List.replicate n ⟨0, .update .removeProject⟩ ++ [⟨0, .generation⟩])) :
    n = min n (2 ^ 63 - 1) := by
  obtain ⟨hmemory, hredis⟩ := after_removals expired n
  rw [Machine.answers_append, Machine.answers_append] at hsame
  have hlast := List.head_eq_of_cons_eq (List.append_inj' hsame rfl).2
  injection hlast with hgeneration
  exact hmemory.symm.trans ((Option.some.inj hgeneration).trans hredis)

/-- `INCR` fails at `2 ^ 63 - 1`, and the stores are of different generations. -/
theorem generations_differ_after_removals :
    ∃ calls : List Timed, (∀ t ∈ calls, ∀ operation, t.call = .update operation → operation.Exact) ∧
      Machine.answers (MemoryCache.handle pastDeadline) {} calls ≠
        Machine.answers (RedisRoutes.handle exampleCodec pastDeadline) {} calls := by
  refine ⟨List.replicate (2 ^ 63) ⟨0, .update .removeProject⟩ ++ [⟨0, .generation⟩], ?_, ?_⟩
  · intro t ht operation hoperation
    rcases List.mem_append.mp ht with ht | ht
    · rw [List.eq_of_mem_replicate ht] at hoperation
      cases hoperation
      trivial
    · rw [List.mem_singleton.mp ht] at hoperation
      cases hoperation
  · intro hsame
    have hle := removals_of_same_answers pastDeadline (2 ^ 63) hsame
    omega

end DurableActors.Ports.Routes
