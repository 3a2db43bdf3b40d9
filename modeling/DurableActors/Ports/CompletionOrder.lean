import DurableActors.Ports.DatabaseMoves
import DurableActors.Verified.Journal
import DurableActors.Verified.Reorder

/-!
# The order of completions

Completions of interleaved invocations carry a sequence number and reach the
database service in any order; `DatabaseService::complete` holds them in `ready`
until their turn.  A ledger follows the service and keeps what the callers see:
who has sent a completion, which were published with which result, and who was
answered.  When the service ends, the completions that still wait are dropped
with it and their callers get an error, and so do those who come later.
-/

namespace DurableActors.Ports.Database

open Verified
open Verified.Reorder
open Verified.Journal

/-! ## The ledger -/

/-- What the callers of `complete` see.  Callers are numbered in the order in
which their completions arrive. -/
inductive Notice
  | arrived (caller : Nat) (sequence : Option Nat)
  /-- `session.complete` ran for the caller -/
  | published (caller : Nat) (sequence : Option Nat) (ok : Bool)
  /-- the caller's sequence number has been used -/
  | repeated (caller : Nat)
  | answered (caller : Nat) (ok : Bool)
  /-- the service was cancelled, or a database call could not be confirmed -/
  | ended
deriving DecidableEq, Repr

/-- The service with its callers: those who wait, by sequence number, and the
journal, newest first. -/
structure Ledger where
  service : Service
  callers : Nat
  waiting : List (Nat × Nat)
  journal : List Notice
deriving DecidableEq, Repr

def Ledger.initial (durable : List Snapshot) : Ledger := ⟨.initial durable, 0, [], []⟩

def Completion.ok : Completion → Bool
  | .done _ => true
  | _ => false

/-- Whether the publication of a completion succeeds. -/
def Service.publishes (w : Service) (a : Answers) (k result : Nat) : Bool :=
  match w.scopes[k]? with
  | none => false
  | some scope => (w.publish a k scope result).1.ok

/-- The buffer of the service without the completion whose turn it is. -/
def Service.without (w : Service) (sequence : Nat) : Service :=
  { w with ready := w.ready.filter fun p => p.1 ≠ sequence }

namespace Ledger

variable (L : Ledger)

/-- The service ends and drops the completions that wait. -/
def dropped : List Notice := L.waiting.reverse.map fun p => .answered p.2 false

/-- A new caller. -/
def arrive (sequence : Option Nat) (service : Service) : Ledger :=
  { L with
    service := service
    callers := L.callers + 1
    journal := .arrived L.callers sequence :: L.journal }

/-- The service has ended before the completion is taken. -/
def reject (sequence : Option Nat) : Ledger :=
  { L.arrive sequence L.service with
    journal := .answered L.callers false :: .arrived L.callers sequence :: L.journal }

/-- The service takes a completion. -/
def complete (k result : Nat) (a : Answers) (service : Service) : Option Nat → Ledger
  | none =>
    let ok := L.service.publishes a k result
    { L.arrive none service with
      journal := .answered L.callers ok :: .published L.callers none ok ::
        .arrived L.callers none :: L.journal }
  | some sequence =>
    if service.stopped = true then
      { L.arrive (some sequence) service with
        waiting := []
        journal := L.dropped ++ .answered L.callers false :: .repeated L.callers ::
          .arrived L.callers (some sequence) :: L.journal }
    else
      { L.arrive (some sequence) service with waiting := (sequence, L.callers) :: L.waiting }

/-- One turn of the loop over `ready`. -/
def publishReady (a : Answers) (service : Service) : Ledger :=
  match L.service.next, L.waiting.find? fun p => p.1 = L.service.nextSequence with
  | some (sequence, k, result), some (_, caller) =>
    let ok := (L.service.without sequence).publishes a k result
    let waiting := L.waiting.filter fun p => p.1 ≠ sequence
    let journal := .answered caller ok :: .published caller (some sequence) ok :: L.journal
    if ok = true then
      { L with service := service, waiting := waiting, journal := journal }
    else
      { L with
        service := service
        waiting := []
        journal := { L with waiting := waiting }.dropped ++ journal }
  | _, _ => { L with service := service }

/-- Any other command. -/
def other (service : Service) : Ledger :=
  if service.stopped = true ∧ L.service.stopped = false then
    { L with service := service, waiting := [], journal := L.dropped ++ .ended :: L.journal }
  else { L with service := service }

/-- One step, with the notices it sends. -/
def step : Action → Option Ledger
  | .complete k result sequence a =>
    if L.service.stopped = true then some (L.reject sequence)
    else
      (Database.step L.service (.complete k result sequence a)).map fun service =>
        L.complete k result a service sequence
  | .publishReady a => (Database.step L.service (.publishReady a)).map (L.publishReady a)
  | action => (Database.step L.service action).map L.other

end Ledger

/-! ## What a command does to the buffer -/

section

variable {w w' : Service} {a : Answers}

/-- Calls, preparations, activations and resets leave the buffer alone. -/
structure Service.Aside (w w' : Service) : Prop where
  ready : w'.ready = w.ready
  nextSequence : w'.nextSequence = w.nextSequence
  draining : w'.draining = w.draining
  scopes : w.scopes.length ≤ w'.scopes.length
  stopped : w.stopped = true → w'.stopped = true

theorem Service.Aside.refl (w : Service) : w.Aside w :=
  ⟨rfl, rfl, rfl, Nat.le_refl _, id⟩

theorem Service.aside_call (w : Service) (a : Answers) (k : Nat) (scope : Scope) (call : Call) :
    w.Aside (w.call a k scope call) := by
  fun_cases Service.call w a k scope call with
  | case1 => exact .refl w
  | case2 => exact ⟨rfl, rfl, rfl, by simp, id⟩
  | case5 => exact ⟨rfl, rfl, rfl, Nat.le_refl _, fun _ => rfl⟩
  | _ => exact ⟨rfl, rfl, rfl, Nat.le_refl _, id⟩

/-- The commands that complete nothing. -/
def Action.Aside : Action → Prop
  | .complete .. => False
  | .publishReady _ => False
  | _ => True

theorem aside_step {action : Action} (haside : action.Aside)
    (hstep : step w action = some w') : w.Aside w' := by
  cases Service.steps hstep with
  | scope request epoch => exact ⟨rfl, rfl, rfl, by simp, id⟩
  | close k => exact ⟨rfl, rfl, rfl, by simp, id⟩
  | call hruns hscope => exact w.aside_call _ _ _ _
  | complete hruns hscope => exact haside.elim
  | publishReady hruns hdraining => exact haside.elim
  | stop hruns => exact ⟨rfl, rfl, rfl, Nat.le_refl _, fun _ => rfl⟩
  | _ => exact ⟨rfl, rfl, rfl, Nat.le_refl _, id⟩

theorem complete_step {k result : Nat} {sequence : Option Nat}
    (hstep : step w (.complete k result sequence a) = some w') :
    w.stopped = false ∧
      ∃ scope, w.scopes[k]? = some scope ∧ w' = w.complete a k scope result sequence := by
  cases Service.steps hstep with
  | complete hruns hscope => exact ⟨hruns, _, hscope, rfl⟩

theorem publishReady_step (hstep : step w (.publishReady a) = some w') :
    w.stopped = false ∧ w.draining = true ∧ w' = w.publishReady a := by
  cases Service.steps hstep with
  | publishReady hruns hdraining => exact ⟨hruns, hdraining, rfl⟩

/-- What a turn of the loop does. -/
inductive Service.Turns (w : Service) (a : Answers) (w' : Service) : Prop
  | idle (hnext : w.next = none) (hw' : w' = { w with draining := false })
  | done {k result : Nat} (hnext : w.next = some (w.nextSequence, k, result))
      (hok : (w.without w.nextSequence).publishes a k result = true)
      (hready : w'.ready = w.ready.filter fun p => p.1 ≠ w.nextSequence)
      (hsequence : w'.nextSequence = w.nextSequence + 1) (hdraining : w'.draining = w.draining)
      (hstopped : w'.stopped = w.stopped) (hscopes : w'.scopes = w.scopes)
  | failed {k result : Nat} (hnext : w.next = some (w.nextSequence, k, result))
      (hok : (w.without w.nextSequence).publishes a k result = false)
      (hstopped : w'.stopped = true)

/-- A turn of `publish_ready` is one of these. -/
theorem Service.publishReady_turns (hscopes : ∀ p ∈ w.ready, p.2.1 < w.scopes.length) :
    w.Turns a (w.publishReady a) := by
  unfold Service.publishReady
  split
  · rename_i hnext
    exact .idle hnext rfl
  · rename_i sequence k result hnext
    obtain rfl : sequence = w.nextSequence := by
      simpa using List.find?_some hnext
    have hk : k < w.scopes.length := hscopes _ (List.mem_of_find?_eq_some hnext)
    obtain ⟨scope, hscope⟩ : ∃ scope, w.scopes[k]? = some scope :=
      ⟨w.scopes[k], List.getElem?_eq_getElem hk⟩
    have hpublishes : (w.without w.nextSequence).publishes a k result =
        ((w.without w.nextSequence).publish a k scope result).1.ok := by
      rw [Service.publishes, show (w.without w.nextSequence).scopes[k]? = some scope from hscope]
    rw [hscope]
    dsimp only
    split
    · rename_i hpublish
      obtain ⟨hdone, rfl⟩ := Prod.ext_iff.mp hpublish
      exact .done hnext (hpublishes.trans (congrArg Completion.ok hdone)) rfl rfl rfl rfl rfl
    · rename_i hfails hpublish
      obtain ⟨rfl, rfl⟩ := Prod.ext_iff.mp hpublish
      refine .failed hnext (hpublishes.trans ?_) rfl
      cases hok : ((w.without w.nextSequence).publish a k scope result).1 with
      | done version => exact (hfails version hok).elim
      | _ => rfl

theorem Service.next_eq_none (hnext : w.next = none) : w.nextSequence ∉ w.ready.map Prod.fst := by
  intro hmem
  obtain ⟨p, hp, hsequence⟩ := List.mem_map.mp hmem
  have := List.find?_eq_none.mp hnext p hp
  simp [hsequence] at this

end

/-! ## The laws of the journal -/

/-- The sequence numbers that were published, in the order of publication. -/
def released : List Notice → List Nat
  | [] => []
  | .published _ (some sequence) true :: before => released before ++ [sequence]
  | _ :: before => released before

/-- The sequence numbers of the callers. -/
def sequences : List Notice → List Nat
  | [] => []
  | .arrived _ (some sequence) :: before => sequence :: sequences before
  | _ :: before => sequences before

/-- The completion after which the service ends. -/
def Notice.Fatal : Notice → Prop
  | .published _ (some _) false => True
  | .repeated _ => True
  | _ => False

/-- What ends the service. -/
def Notice.Ends (e : Notice) : Prop := e.Fatal ∨ e = .ended

/-- What holds of an entry when it is made. -/
def Notice.Law : Notice → List Notice → Prop
  | .arrived caller _, before => ∀ sequence, .arrived caller sequence ∉ before
  | .published caller sequence _, before =>
    (∀ e ∈ before, ¬ e.Ends) ∧ .arrived caller sequence ∈ before ∧
      ∀ s ∈ sequence, 0 < s ∧ released before = List.range' 1 (s - 1)
  | .answered caller ok, before =>
    (∀ ok', .answered caller ok' ∉ before) ∧
      (ok = true → ∃ sequence rest, before = .published caller sequence true :: rest)
  | _, _ => True

theorem released_append_of_answers {answers journal : List Notice}
    (h : ∀ e ∈ answers, ∃ caller ok, e = .answered caller ok) :
    released (answers ++ journal) = released journal := by
  induction answers with
  | nil => rfl
  | cons e answers ih =>
    obtain ⟨caller, ok, rfl⟩ := h e (by simp)
    exact ih fun e he => h e (by simp [he])

/-- A caller arrives once. -/
theorem Lawful.arrived_unique {journal : List Notice} (h : Lawful Notice.Law journal)
    {caller : Nat} {s t : Option Nat} (hs : .arrived caller s ∈ journal)
    (ht : .arrived caller t ∈ journal) : s = t := by
  induction journal with
  | nil => cases hs
  | cons e before ih =>
    rcases List.mem_cons.mp hs with rfl | hs'
    · rcases List.mem_cons.mp ht with heq | ht'
      · injection heq with _ heq
        exact heq.symm
      · exact absurd ht' (h.1 t)
    · rcases List.mem_cons.mp ht with rfl | ht'
      · exact absurd hs' (h.1 s)
      · exact ih h.2 hs' ht'

/-! ## The invariant -/

/-- The callers who wait, as a reorder buffer. -/
def Ledger.buffer (L : Ledger) : Buffer Nat := ⟨L.service.nextSequence, L.waiting⟩

/-- The caller of an answer. -/
def Notice.answers : Notice → Option Nat
  | .answered caller _ => some caller
  | _ => none

/-- The callers who have been answered. -/
def answered (journal : List Notice) : List Nat := journal.filterMap Notice.answers

theorem mem_answered {journal : List Notice} {caller : Nat} :
    caller ∈ answered journal ↔ ∃ ok, .answered caller ok ∈ journal := by
  rw [answered, List.mem_filterMap]
  constructor
  · rintro ⟨e, he, hcaller⟩
    cases e with
    | answered other ok =>
      obtain rfl := Option.some.inj hcaller
      exact ⟨ok, he⟩
    | _ => cases hcaller
  · rintro ⟨ok, he⟩
    exact ⟨_, he, rfl⟩

/-- Who is where: everyone who has arrived waits or has been answered, once. -/
structure Ledger.Placed (L : Ledger) : Prop where
  lawful : Lawful Notice.Law L.journal
  known : ∀ caller sequence, .arrived caller sequence ∈ L.journal → caller < L.callers
  places : (L.waiting.map Prod.snd ++ answered L.journal).Perm (List.range L.callers)
  waits : ∀ p ∈ L.waiting, .arrived p.2 (some p.1) ∈ L.journal

/-- What holds while the service runs. -/
structure Ledger.Running (L : Ledger) : Prop where
  sound : ∀ e ∈ L.journal, ¬ e.Ends
  keeps : L.buffer.Keeps (sequences L.journal)
  keys : L.waiting.map Prod.fst = L.service.ready.map Prod.fst
  scopes : ∀ p ∈ L.service.ready, p.2.1 < L.service.scopes.length
  ordered : released L.journal = L.buffer.released
  rests : L.service.draining = false → L.service.nextSequence ∉ L.buffer.keys
  served : ∀ caller s, .arrived caller (some s) ∈ L.journal → (s, caller) ∈ L.waiting ∨
    (.published caller (some s) true ∈ L.journal ∧ .answered caller true ∈ L.journal)

/-- What holds when it has ended. -/
structure Ledger.Ended (L : Ledger) : Prop where
  reason : ∃ e ∈ L.journal, e.Ends
  nobody : L.waiting = []
  ordered : ∃ n, released L.journal = List.range' 1 n

/-- The invariant, by whether the service still runs. -/
structure Ledger.Inv (L : Ledger) : Prop where
  placed : L.Placed
  running : L.service.stopped = false → L.Running
  ended : L.service.stopped = true → L.Ended

theorem Ledger.Inv.of_running {L : Ledger} (hplaced : L.Placed)
    (hstopped : L.service.stopped = false) (hrunning : L.Running) : L.Inv :=
  ⟨hplaced, fun _ => hrunning, fun h => nomatch hstopped.symm.trans h⟩

theorem Ledger.Inv.of_ended {L : Ledger} (hplaced : L.Placed)
    (hstopped : L.service.stopped = true) (hended : L.Ended) : L.Inv :=
  ⟨hplaced, fun h => (nomatch hstopped.symm.trans h), fun _ => hended⟩

theorem Ledger.inv_initial (durable : List Snapshot) : (Ledger.initial durable).Inv := by
  refine .of_running ⟨trivial, nofun, .refl _, nofun⟩ rfl ?_
  exact ⟨nofun, ⟨Nat.one_pos, List.nodup_nil, nofun, .refl _⟩, rfl, nofun, rfl, nofun, nofun⟩

/-! ## Moves of the callers -/

namespace Ledger.Placed

variable {L : Ledger} (h : L.Placed)

include h

theorem everyone {caller : Nat} (hcaller : caller < L.callers) :
    caller ∈ L.waiting.map Prod.snd ∨ ∃ ok, .answered caller ok ∈ L.journal := by
  rw [← mem_answered, ← List.mem_append]
  exact h.places.mem_iff.mpr (List.mem_range.mpr hcaller)

/-- Who waits has not been answered. -/
theorem unanswered {p : Nat × Nat} (hp : p ∈ L.waiting) : ∀ ok, .answered p.2 ok ∉ L.journal := by
  intro ok he
  have hnodup := h.places.nodup_iff.mpr List.nodup_range
  exact (List.nodup_append.mp hnodup).2.2 _ (List.mem_map_of_mem hp) _
    (mem_answered.mpr ⟨ok, he⟩) rfl

theorem fresh_arrived (sequence : Option Nat) : (Notice.arrived L.callers sequence).Law L.journal :=
  fun _ he => Nat.lt_irrefl _ (h.known _ _ he)

/-- New entries, new callers and another buffer. -/
theorem add {service : Service} {callers : Nat} {waiting : List (Nat × Nat)}
    (entries : List Notice) (hlaw : Lawful Notice.Law (entries ++ L.journal))
    (hcallers : L.callers ≤ callers)
    (hknown : ∀ caller sequence, .arrived caller sequence ∈ entries → caller < callers)
    (hplaces : (waiting.map Prod.snd ++ (answered entries ++ answered L.journal)).Perm
      (List.range callers))
    (hwaits : ∀ p ∈ waiting, p ∈ L.waiting ∨ .arrived p.2 (some p.1) ∈ entries) :
    Placed ⟨service, callers, waiting, entries ++ L.journal⟩ where
  lawful := hlaw
  known := fun caller sequence he => (List.mem_append.mp he).elim (hknown caller sequence)
    fun he => Nat.lt_of_lt_of_le (h.known caller sequence he) hcallers
  places := by
    show (_ ++ answered (entries ++ L.journal)).Perm _
    rw [answered, List.filterMap_append]
    exact hplaces
  waits := fun p hp => (hwaits p hp).elim (fun hp => List.mem_append_right _ (h.waits p hp))
    (List.mem_append_left _)

/-- The place of the callers does not depend on the service. -/
theorem serve (service : Service) : { L with service := service }.Placed :=
  { h with }

/-- An entry about the service. -/
theorem note {e : Notice} (hanswers : e.answers = none)
    (harrived : ∀ caller sequence, e ≠ .arrived caller sequence) (hlaw : e.Law L.journal) :
    { L with journal := e :: L.journal }.Placed := by
  refine h.add [e] (h.lawful.cons hlaw) (Nat.le_refl _) ?_ ?_ fun p hp => .inl hp
  · exact fun caller sequence he => absurd (List.mem_singleton.mp he).symm (harrived _ _)
  · rw [answered, List.filterMap_cons_none hanswers]
    exact h.places

/-- A caller leaves the buffer with an answer. -/
theorem answer {p : Nat × Nat} {waiting : List (Nat × Nat)} {ok : Bool}
    (hperm : (p :: waiting).Perm L.waiting)
    (hok : ok = true → ∃ sequence rest, L.journal = .published p.2 sequence true :: rest) :
    { L with waiting := waiting, journal := .answered p.2 ok :: L.journal }.Placed := by
  have hp : p ∈ L.waiting := hperm.subset List.mem_cons_self
  refine h.add [.answered p.2 ok] (h.lawful.cons ⟨h.unanswered hp, hok⟩)
    (Nat.le_refl _) (by simp) ?_ fun q hq => .inl (hperm.subset (List.mem_cons_of_mem _ hq))
  exact List.perm_middle.trans (((hperm.map Prod.snd).append_right _).trans h.places)

/-- All who wait get an error. -/
theorem flush : { L with waiting := [], journal := L.dropped ++ L.journal }.Placed := by
  obtain ⟨service, callers, waiting, journal⟩ := L
  induction waiting generalizing journal with
  | nil => exact h
  | cons p waiting ih =>
    -- answer the first caller, then the rest
    have hdropped : Ledger.dropped ⟨service, callers, p :: waiting, journal⟩ ++ journal =
        Ledger.dropped ⟨service, callers, waiting, journal⟩ ++
          .answered p.2 false :: journal := by
      simp [dropped]
    rw [hdropped]
    have hrest : Placed ⟨service, callers, waiting, .answered p.2 false :: journal⟩ :=
      h.answer (.refl _) nofun
    exact ih _ hrest

/-- A caller who is answered at once. -/
theorem passes {sequence : Option Nat} {ok : Bool} (middle : List Notice)
    (hanswers : answered middle = [])
    (harrived : ∀ caller sequence, .arrived caller sequence ∉ middle)
    (hlaw : Lawful Notice.Law (middle ++ Notice.arrived L.callers sequence :: L.journal))
    (hok : ok = true → ∃ sequence' rest, middle ++ Notice.arrived L.callers sequence :: L.journal =
      .published L.callers sequence' true :: rest) :
    { L with
      callers := L.callers + 1
      journal := .answered L.callers ok ::
        (middle ++ Notice.arrived L.callers sequence :: L.journal) }.Placed := by
  have hentries : answered (middle ++ Notice.arrived L.callers sequence :: L.journal) =
      answered L.journal := by
    rw [answered, List.filterMap_append]
    exact congrArg (· ++ _) hanswers
  have hfresh : L.callers ∉ answered L.journal := fun hmem =>
    Nat.lt_irrefl _ (List.mem_range.mp (h.places.subset (List.mem_append_right _ hmem)))
  constructor
  case lawful =>
    refine hlaw.cons ⟨fun ok' he => hfresh ?_, hok⟩
    rw [← hentries]
    exact mem_answered.mpr ⟨ok', he⟩
  case known =>
    intro caller sequence' he
    simp only [List.mem_cons, List.mem_append, reduceCtorEq, false_or, Notice.arrived.injEq,
      harrived] at he
    rcases he with ⟨rfl, -⟩ | he
    · exact Nat.lt_succ_self _
    · exact Nat.lt_succ_of_lt (h.known _ _ he)
  case places =>
    show (_ ++ L.callers :: answered (middle ++ _)).Perm _
    rw [hentries, List.range_succ]
    exact List.perm_middle.trans ((h.places.cons _).trans (List.perm_append_singleton _ _).symm)
  case waits => exact fun p hp => by simp [h.waits p hp]

/-- A caller who has to wait. -/
theorem wait (sequence : Nat) :
    { L with
      callers := L.callers + 1
      waiting := (sequence, L.callers) :: L.waiting
      journal := .arrived L.callers (some sequence) :: L.journal }.Placed := by
  refine h.add [.arrived L.callers (some sequence)]
    (h.lawful.cons (h.fresh_arrived _)) (Nat.le_succ _) ?_ ?_ ?_
  · intro caller sequence' he
    injection List.mem_singleton.mp he with heq
    exact heq ▸ Nat.lt_succ_self _
  · rw [List.range_succ]
    exact (h.places.cons _).trans (List.perm_append_singleton _ _).symm
  · intro p hp
    rcases List.mem_cons.mp hp with rfl | hp
    · exact .inr List.mem_cons_self
    · exact .inl hp

end Ledger.Placed

/-! ## One step -/

theorem released_dropped (L : Ledger) (journal : List Notice) :
    released (L.dropped ++ journal) = released journal := by
  refine released_append_of_answers fun e he => ?_
  obtain ⟨p, -, rfl⟩ := List.mem_map.mp he
  exact ⟨p.2, false, rfl⟩

namespace Ledger

variable {L L' : Ledger} {a : Answers}
variable {service : Service}

/-- The service ends with an entry that says why, and drops who waits. -/
theorem Placed.ends (service : Service) {e : Notice} (hplaced : L.Placed)
    (hmem : e ∈ L.journal) (he : e.Ends) (hordered : ∃ n, released L.journal = List.range' 1 n)
    (hstopped : service.stopped = true) :
    Ledger.Inv { L with service := service, waiting := [], journal := L.dropped ++ L.journal } := by
  obtain ⟨n, hn⟩ := hordered
  exact .of_ended (hplaced.flush.serve service) hstopped
    ⟨⟨e, List.mem_append_right _ hmem, he⟩, rfl, n, (released_dropped L L.journal).trans hn⟩

theorem Running.ordered_range (h : L.Running) : ∃ n, released L.journal = List.range' 1 n :=
  ⟨_, h.ordered⟩

theorem Running.aside (h : L.Running) (haside : L.service.Aside service) :
    { L with service := service }.Running := by
  have hbuffer : { L with service := service }.buffer = L.buffer :=
    congrArg (Buffer.mk · L.waiting) haside.nextSequence
  constructor
  case sound => exact h.sound
  case keeps => exact hbuffer ▸ h.keeps
  case keys => exact haside.ready ▸ h.keys
  case scopes =>
    intro p hp
    rw [haside.ready] at hp
    exact Nat.lt_of_lt_of_le (h.scopes p hp) haside.scopes
  case ordered => exact hbuffer ▸ h.ordered
  case rests =>
    rw [hbuffer, haside.draining, haside.nextSequence]
    exact h.rests
  case served => exact h.served

variable (h : L.Inv)
include h

/-- A command that completes nothing. -/
theorem Inv.other (haside : L.service.Aside service) : (L.other service).Inv := by
  unfold Ledger.other
  split
  · rename_i hends
    have hrunning := h.running hends.2
    have hnoted : { L with journal := .ended :: L.journal }.Placed :=
      h.placed.note rfl nofun trivial
    exact hnoted.ends service (e := .ended) List.mem_cons_self (.inr rfl) hrunning.ordered_range
      hends.1
  · rename_i hgoes
    cases hs : L.service.stopped with
    | false =>
      have hstopped : service.stopped = false := Bool.eq_false_iff.mpr fun h => hgoes ⟨h, hs⟩
      exact .of_running (h.placed.serve service) hstopped ((h.running hs).aside haside)
    | true =>
      have hended := h.ended hs
      exact .of_ended (h.placed.serve service) (haside.stopped hs)
        ⟨hended.reason, hended.nobody, hended.ordered⟩

/-- A completion that comes too late. -/
theorem Inv.reject (hstopped : L.service.stopped = true) (sequence : Option Nat) :
    (L.reject sequence).Inv := by
  obtain ⟨⟨e, he, hends⟩, hnobody, hordered⟩ := h.ended hstopped
  refine .of_ended ?_ hstopped
    ⟨⟨e, List.mem_cons_of_mem _ (List.mem_cons_of_mem _ he), hends⟩, hnobody, hordered⟩
  exact h.placed.passes [] rfl nofun (h.placed.lawful.cons (h.placed.fresh_arrived _)) nofun

omit h in
theorem not_ends_arrived (caller : Nat) (sequence : Option Nat) :
    ¬ (Notice.arrived caller sequence).Ends := by
  simp [Notice.Ends, Notice.Fatal]

omit h in
theorem not_ends_answered (caller : Nat) (ok : Bool) : ¬ (Notice.answered caller ok).Ends := by
  simp [Notice.Ends, Notice.Fatal]

section

variable (hstopped : L.service.stopped = false)
include hstopped

/-- An unsequenced completion. -/
theorem Inv.complete_unsequenced {k result : Nat} {scope : Scope} :
    (L.complete k result a (L.service.complete a k scope result none) none).Inv := by
  have hrunning := h.running hstopped
  have hsound : ∀ e ∈ .arrived L.callers none :: L.journal, ¬ e.Ends :=
    List.forall_mem_cons.mpr ⟨not_ends_arrived _ _, hrunning.sound⟩
  refine .of_running ?_ hstopped { hrunning with sound := ?_, served := ?_ }
  · refine .serve (h.placed.passes [.published L.callers none
      (L.service.publishes a k result)] rfl (by simp) ?_ ?_) _
    · exact (h.placed.lawful.cons (h.placed.fresh_arrived none)).cons
        ⟨hsound, List.mem_cons_self, nofun⟩
    · intro hok
      rw [hok]
      exact ⟨none, _, rfl⟩
  · refine List.forall_mem_cons.mpr ⟨not_ends_answered _ _, List.forall_mem_cons.mpr ⟨?_, hsound⟩⟩
    simp [Notice.Ends, Notice.Fatal]
  · intro caller s he
    have he : .arrived caller (some s) ∈ L.journal := by simpa [Ledger.complete] using he
    refine (hrunning.served caller s he).imp_right fun ⟨hpublished, hanswered⟩ => ?_
    exact ⟨by simp [Ledger.complete, hpublished], by simp [Ledger.complete, hanswered]⟩

/-- A completion whose sequence number has been used. -/
theorem Inv.complete_repeated {k result sequence : Nat} (hservice : service.stopped = true) :
    (L.complete k result a service (some sequence)).Inv := by
  have hrunning := h.running hstopped
  have hplaced : Placed { L with
      callers := L.callers + 1
      journal := .answered L.callers false :: .repeated L.callers ::
        .arrived L.callers (some sequence) :: L.journal } := by
    refine h.placed.passes [.repeated L.callers] rfl (by simp) ?_ nofun
    exact (h.placed.lawful.cons (h.placed.fresh_arrived _)).cons trivial
  have hends := hplaced.ends service (e := .repeated L.callers) (by simp)
    (.inl trivial) hrunning.ordered_range hservice
  simp only [Ledger.complete, hservice, if_true]
  exact hends

/-- A completion that waits for its turn. -/
theorem Inv.complete_buffered {k result sequence : Nat} {scope : Scope}
    (hscope : L.service.scopes[k]? = some scope) (hfresh : L.buffer.Fresh sequence) :
    ({ L.arrive (some sequence) { L.service with
          ready := (sequence, k, result) :: L.service.ready, draining := true } with
        waiting := (sequence, L.callers) :: L.waiting } : Ledger).Inv := by
  have hrunning := h.running hstopped
  refine .of_running ((h.placed.wait sequence).serve _) hstopped ?_
  constructor
  case sound => exact List.forall_mem_cons.mpr ⟨not_ends_arrived _ _, hrunning.sound⟩
  case keeps => exact hrunning.keeps.insert hfresh L.callers
  case keys => exact congrArg (sequence :: ·) hrunning.keys
  case scopes =>
    exact List.forall_mem_cons.mpr ⟨(List.getElem?_eq_some_iff.mp hscope).1, hrunning.scopes⟩
  case ordered => exact hrunning.ordered
  case rests => nofun
  case served =>
    intro caller s he
    rcases List.mem_cons.mp he with heq | he
    · injection heq with hcaller hs
      obtain rfl := Option.some.inj hs
      exact .inl (hcaller ▸ List.mem_cons_self)
    · exact (hrunning.served caller s he).imp (List.mem_cons_of_mem _)
        (And.imp (List.mem_cons_of_mem _) (List.mem_cons_of_mem _))

omit hstopped in
/-- A completion arrives. -/
theorem Inv.complete {k result : Nat} {sequence : Option Nat}
    (hstep : Database.step L.service (.complete k result sequence a) = some service) :
    (L.complete k result a service sequence).Inv := by
  obtain ⟨hstopped, scope, hscope, rfl⟩ := complete_step hstep
  clear hstep
  fun_cases Service.complete L.service a k scope result sequence with
  | case1 => exact h.complete_unsequenced hstopped
  | case2 sequence hused => exact h.complete_repeated hstopped rfl
  | case3 sequence hused =>
    rw [not_or] at hused
    have hfresh : L.buffer.Fresh sequence := by
      refine ⟨Nat.le_of_not_lt hused.1, fun hmem => hused.2 ?_⟩
      have hkey : sequence ∈ L.service.ready.map Prod.fst := (h.running hstopped).keys ▸ hmem
      obtain ⟨p, hp, hsequence⟩ := List.mem_map.mp hkey
      exact List.any_eq_true.mpr ⟨p, hp, decide_eq_true hsequence⟩
    rw [Ledger.complete, if_neg (by simp [hstopped])]
    exact h.complete_buffered hstopped hscope hfresh

omit hstopped in
omit h in
/-- The caller whose turn it is. -/
theorem Running.waiter {k result : Nat} (h : L.Running)
    (hnext : L.service.next = some (L.service.nextSequence, k, result)) :
    ∃ caller, (L.service.nextSequence, caller) ∈ L.waiting ∧
      (L.waiting.find? fun p => p.1 = L.service.nextSequence) =
        some (L.service.nextSequence, caller) := by
  have hkey : L.service.nextSequence ∈ L.waiting.map Prod.fst := by
    rw [h.keys]
    exact List.mem_map_of_mem (List.mem_of_find?_eq_some hnext)
  obtain ⟨p, hp, hsequence⟩ := List.mem_map.mp hkey
  cases hfind : L.waiting.find? fun p => p.1 = L.service.nextSequence with
  | none =>
    have := List.find?_eq_none.mp hfind p hp
    simp [hsequence] at this
  | some q =>
    have hq : q.1 = L.service.nextSequence := by simpa using List.find?_some hfind
    obtain ⟨sequence, caller⟩ := q
    obtain rfl : sequence = _ := hq
    exact ⟨caller, List.mem_of_find?_eq_some hfind, rfl⟩

/-- The publication of the caller whose turn it is obeys its law. -/
theorem Inv.turn_law {caller : Nat} (hwaits : (L.service.nextSequence, caller) ∈ L.waiting)
    (ok : Bool) : (Notice.published caller (some L.service.nextSequence) ok).Law L.journal := by
  have hrunning := h.running hstopped
  refine ⟨hrunning.sound, h.placed.waits _ hwaits, ?_⟩
  intro s hs
  obtain rfl := Option.some.inj hs
  exact ⟨hrunning.keeps.positive, hrunning.ordered⟩

/-- The caller leaves the buffer with the answer. -/
theorem Inv.turn_placed {caller : Nat} {ok : Bool}
    (hwaits : (L.service.nextSequence, caller) ∈ L.waiting) :
    Placed { L with
      waiting := L.waiting.filter fun p => p.1 ≠ L.service.nextSequence
      journal := .answered caller ok ::
        .published caller (some L.service.nextSequence) ok :: L.journal } := by
  have hnoted := h.placed.note (e := .published caller (some L.service.nextSequence) ok)
    rfl nofun (h.turn_law hstopped hwaits ok)
  refine hnoted.answer (p := (L.service.nextSequence, caller))
    (perm_cons_filter (h.running hstopped).keeps.nodup hwaits) ?_
  intro hok
  rw [hok]
  exact ⟨_, _, rfl⟩

omit hstopped in
/-- One turn of the loop of `publish_ready`. -/
theorem Inv.publishReady (hstep : Database.step L.service (.publishReady a) = some service) :
    (L.publishReady a service).Inv := by
  obtain ⟨hstopped, hloops, hservice⟩ := publishReady_step hstep
  have hrunning := h.running hstopped
  have hturns : L.service.Turns a service := hservice ▸ Service.publishReady_turns hrunning.scopes
  cases hturns with
  | idle hnext hw' =>
    simp only [Ledger.publishReady, hnext]
    subst hw'
    refine .of_running (h.placed.serve _) hstopped { hrunning with rests := fun _ => ?_ }
    change L.service.nextSequence ∉ L.waiting.map Prod.fst
    rw [hrunning.keys]
    exact Service.next_eq_none hnext
  | done hnext hok hready hsequence hdraining hstopped' hscopes =>
    obtain ⟨caller, hwaits, hfind⟩ := hrunning.waiter hnext
    simp only [Ledger.publishReady, hnext, hfind, hok, if_true]
    have hkeys : L.buffer.next ∈ L.buffer.keys := List.mem_map_of_mem hwaits
    have hbuffer : ∀ journal, Ledger.buffer ⟨service, L.callers,
        L.waiting.filter fun p => p.1 ≠ L.service.nextSequence, journal⟩ =
        L.buffer.release := by
      intro journal
      simp only [buffer, hsequence, Buffer.release, Buffer.drop]
      rfl
    refine .of_running ((h.turn_placed hstopped hwaits).serve service) (hstopped'.trans hstopped) ?_
    constructor
    case sound =>
      refine List.forall_mem_cons.mpr ⟨not_ends_answered _ _,
        List.forall_mem_cons.mpr ⟨?_, hrunning.sound⟩⟩
      simp [Notice.Ends, Notice.Fatal]
    case keeps =>
      rw [hbuffer]
      exact hrunning.keeps.release hkeys
    case keys =>
      rw [hready]
      have hfilter : ∀ {β : Type} (xs : List (Nat × β)),
          (xs.filter fun p => p.1 ≠ L.service.nextSequence).map Prod.fst =
            (xs.map Prod.fst).filter (· ≠ L.service.nextSequence) := by
        intro β xs
        rw [List.filter_map]
        rfl
      rw [hfilter, hfilter, hrunning.keys]
    case scopes =>
      intro p hp
      rw [hready] at hp
      rw [hscopes]
      exact hrunning.scopes p (List.mem_filter.mp hp).1
    case ordered =>
      rw [hbuffer]
      change released L.journal ++ [L.service.nextSequence] = _
      rw [hrunning.ordered]
      exact (Buffer.released_succ hrunning.keeps.positive).symm
    case rests => exact fun hrests => nomatch (hdraining.trans hloops).symm.trans hrests
    case served =>
      intro caller' s he
      have he : .arrived caller' (some s) ∈ L.journal := by simpa using he
      rcases hrunning.served caller' s he with hwaits' | ⟨hpublished, hanswered⟩
      · by_cases hs : s = L.service.nextSequence
        · subst hs
          obtain ⟨-, rfl⟩ := Prod.mk.inj
            (List.inj_on_of_nodup_map hrunning.keeps.nodup hwaits' hwaits rfl)
          exact .inr ⟨by simp, by simp⟩
        · exact .inl (List.mem_filter.mpr ⟨hwaits', decide_eq_true hs⟩)
      · exact .inr ⟨by simp [hpublished], by simp [hanswered]⟩
  | failed hnext hok hstopped' =>
    obtain ⟨caller, hwaits, hfind⟩ := hrunning.waiter hnext
    simp only [Ledger.publishReady, hnext, hfind, hok]
    exact (h.turn_placed hstopped hwaits).ends service
      (e := .published caller (some L.service.nextSequence) false) (by simp) (.inl trivial)
      hrunning.ordered_range hstopped'

omit hstopped in
/-- Every step keeps the order. -/
theorem Inv.step {action : Action} (hstep : L.step action = some L') : L'.Inv := by
  revert hstep
  fun_cases Ledger.step L action with
  | case1 k result sequence a hstopped =>
    rintro ⟨⟩
    exact h.reject hstopped sequence
  | case2 =>
    intro hstep
    obtain ⟨service, hservice, rfl⟩ := Option.map_eq_some_iff.mp hstep
    exact h.complete hservice
  | case3 =>
    intro hstep
    obtain ⟨service, hservice, rfl⟩ := Option.map_eq_some_iff.mp hstep
    exact h.publishReady hservice
  | case4 action hcomplete hpublish =>
    intro hstep
    obtain ⟨service, hservice, rfl⟩ := Option.map_eq_some_iff.mp hstep
    refine h.other (aside_step ?_ hservice)
    cases action with
    | complete => exact hcomplete _ _ _ _ rfl
    | publishReady => exact hpublish _ rfl
    | _ => trivial

/-- **The loop ends**: while it runs it takes a turn, and every turn ends the
loop, ends the service or takes a completion from the buffer. -/
theorem Inv.loop_progress (hdraining : L.service.draining = true) (a : Answers) :
    ∃ L', L.step (.publishReady a) = some L' ∧
      (L'.service.draining = false ∨ L'.service.stopped = true ∨
        L'.waiting.length < L.waiting.length) := by
  have hrunning := h.running hstopped
  have hservice : Database.step L.service (.publishReady a) =
      some (L.service.publishReady a) := if_pos ⟨hstopped, hdraining⟩
  refine ⟨L.publishReady a (L.service.publishReady a), by simp [Ledger.step, hservice], ?_⟩
  have hturns : L.service.Turns a (L.service.publishReady a) :=
    Service.publishReady_turns hrunning.scopes
  generalize L.service.publishReady a = service at *
  cases hturns with
  | idle hnext hw' =>
    simp [Ledger.publishReady, hnext, hw']
  | done hnext hok hready hsequence hdraining' hstopped' hscopes =>
    obtain ⟨caller, hwaits, hfind⟩ := hrunning.waiter hnext
    simp only [Ledger.publishReady, hnext, hfind, hok, if_true]
    refine .inr (.inr ?_)
    exact List.length_filter_lt_length_iff_exists.mpr ⟨_, hwaits, by simp⟩
  | failed hnext hok hstopped' =>
    obtain ⟨caller, hwaits, hfind⟩ := hrunning.waiter hnext
    simp only [Ledger.publishReady, hnext, hfind, hok]
    exact .inr (.inl hstopped')

end

/-! ## The order of publication -/

/-- Whoever gets a positive answer was published after all smaller numbers. -/
theorem Inv.answered_after {after before : List Notice} {caller s : Nat}
    (hjournal : L.journal = after ++ .answered caller true :: before)
    (harrived : .arrived caller (some s) ∈ before) : ∀ t, 0 < t → t ≤ s → t ∈ released before := by
  have hlawful := h.placed.lawful
  rw [hjournal] at hlawful
  obtain ⟨-, hpublished⟩ := hlawful.at
  obtain ⟨sequence, rest, rfl⟩ := hpublished rfl
  have hlaw : (Notice.published caller sequence true).Law rest := by
    have hsplit : after ++ .answered caller true :: .published caller sequence true :: rest =
        (after ++ [.answered caller true]) ++ .published caller sequence true :: rest := by
      rw [List.append_assoc]
      rfl
    rw [hsplit] at hlawful
    exact hlawful.at
  obtain ⟨-, hknown, hsequence⟩ := hlaw
  have hfirst : Notice.arrived caller sequence ∈ L.journal := by
    rw [hjournal]
    simp [hknown]
  have hsecond : Notice.arrived caller (some s) ∈ L.journal := by
    rw [hjournal]
    exact List.mem_append_right _ (List.mem_cons_of_mem _ harrived)
  obtain rfl := Lawful.arrived_unique h.placed.lawful hfirst hsecond
  obtain ⟨hpos, hreleased⟩ := hsequence s rfl
  intro t ht hts
  change t ∈ released rest ++ [s]
  rw [hreleased, List.mem_append, List.mem_range'_1, List.mem_singleton]
  omega

/-- The service runs while nothing has ended it. -/
theorem Inv.runs (hsound : ∀ e ∈ L.journal, ¬ e.Ends) : L.service.stopped = false := by
  cases hs : L.service.stopped with
  | false => rfl
  | true =>
    obtain ⟨e, he, hends⟩ := (h.ended hs).reason
    exact absurd hends (hsound e he)

/-- Without a failure, everyone has been served when the numbers are complete. -/
theorem Inv.all_served {n : Nat} (hperm : (sequences L.journal).Perm (List.range' 1 n))
    (hsound : ∀ e ∈ L.journal, ¬ e.Ends) (hdraining : L.service.draining = false) :
    L.waiting = [] ∧ released L.journal = List.range' 1 n ∧
      ∀ caller s, .arrived caller (some s) ∈ L.journal →
        .published caller (some s) true ∈ L.journal ∧ .answered caller true ∈ L.journal := by
  have hrunning := h.running (h.runs hsound)
  obtain ⟨hnext, hnobody⟩ := hrunning.keeps.complete (hrunning.rests hdraining) hperm
  have hwaiting : L.waiting = [] := hnobody
  refine ⟨hwaiting, ?_, fun caller s he => ?_⟩
  · rw [hrunning.ordered, Buffer.released, hnext, Nat.add_sub_cancel]
  · rcases hrunning.served caller s he with hwaits | hserved
    · rw [hwaiting] at hwaits
      cases hwaits
    · exact hserved

/-- After a completion that ends the service nothing is published, and everyone
who has not been answered before gets an error. -/
theorem Inv.nothing_after {after before : List Notice} {e : Notice}
    (hjournal : L.journal = after ++ e :: before) (hfatal : e.Fatal) :
    (∀ caller sequence ok, .published caller sequence ok ∉ after) ∧
      ∀ caller < L.callers, .answered caller true ∈ before ∨
        .answered caller false ∈ L.journal := by
  have hlawful := h.placed.lawful
  rw [hjournal] at hlawful
  have hnone : ∀ caller sequence ok, .published caller sequence ok ∉ after := by
    intro caller sequence ok hmem
    obtain ⟨later, earlier, rfl⟩ := List.append_of_mem hmem
    rw [List.append_assoc, List.cons_append] at hlawful
    obtain ⟨hsound, -⟩ := hlawful.at
    exact hsound e (by simp) (.inl hfatal)
  refine ⟨hnone, fun caller hcaller => ?_⟩
  have hstopped : L.service.stopped = true := by
    cases hs : L.service.stopped with
    | true => rfl
    | false => exact absurd (.inl hfatal) ((h.running hs).sound e (by rw [hjournal]; simp))
  rcases h.placed.everyone hcaller with hwaits | ⟨ok, hanswered⟩
  · rw [(h.ended hstopped).nobody] at hwaits
    cases hwaits
  cases ok with
  | false => exact .inr hanswered
  | true =>
    -- a positive answer comes right after its publication, so not after `e`
    rw [hjournal] at hanswered
    rcases List.mem_append.mp hanswered with hlate | hearly
    · exfalso
      obtain ⟨later, earlier, rfl⟩ := List.append_of_mem hlate
      rw [List.append_assoc, List.cons_append] at hlawful
      obtain ⟨-, hpublished⟩ := hlawful.at
      obtain ⟨sequence, rest, hrest⟩ := hpublished rfl
      cases earlier with
      | nil =>
        obtain ⟨rfl, -⟩ := List.cons.inj hrest
        cases sequence <;> exact hfatal
      | cons f earlier =>
        obtain ⟨rfl, -⟩ := List.cons.inj hrest
        exact hnone caller sequence true (by simp)
    · rcases List.mem_cons.mp hearly with rfl | hearly
      · exact hfatal.elim
      · exact .inl hearly

end Ledger

/-- **Completions are published in sequence.**  In every run of the database
service: the sequence numbers published are `1, …, n` in this order; whoever gets
a positive answer had all smaller numbers published before; when the numbers that
arrived are a permutation of `1, …, n` and nothing ended the service, the loop
leaves nobody without publication and positive answer, and while it runs it makes
progress; and after a failed publication in sequence or a repeated number nothing
is published and everyone not yet answered gets an error. -/
theorem completions_in_sequence {durable : List Snapshot} {actions : List Action} {L : Ledger}
    (hrun : Transition.run Ledger.step (.initial durable) actions = some L) :
    (∃ n, released L.journal = List.range' 1 n) ∧
    (∀ after before caller s, L.journal = after ++ .answered caller true :: before →
      .arrived caller (some s) ∈ before → ∀ t, 0 < t → t ≤ s → t ∈ released before) ∧
    (∀ n, (sequences L.journal).Perm (List.range' 1 n) → (∀ e ∈ L.journal, ¬ e.Ends) →
      (L.service.draining = false → released L.journal = List.range' 1 n ∧
        ∀ caller s, .arrived caller (some s) ∈ L.journal →
          .published caller (some s) true ∈ L.journal ∧ .answered caller true ∈ L.journal) ∧
      (L.service.draining = true → ∀ a, ∃ L', L.step (.publishReady a) = some L' ∧
        (L'.service.draining = false ∨ L'.service.stopped = true ∨
          L'.waiting.length < L.waiting.length))) ∧
    (∀ after before e, L.journal = after ++ e :: before → e.Fatal →
      (∀ caller sequence ok, .published caller sequence ok ∉ after) ∧
        ∀ caller < L.callers, .answered caller true ∈ before ∨
          .answered caller false ∈ L.journal) := by
  have h : L.Inv := Transition.run_invariant (fun _ _ _ h hstep => .step h hstep)
    (Ledger.inv_initial durable) hrun
  refine ⟨?_, ?_, ?_, ?_⟩
  · cases hs : L.service.stopped with
    | false => exact (h.running hs).ordered_range
    | true => exact (h.ended hs).ordered
  · intro after before caller s hjournal harrived
    exact h.answered_after hjournal harrived
  · intro n hperm hsound
    exact ⟨fun hdraining => (h.all_served hperm hsound hdraining).2,
      h.loop_progress (h.runs hsound)⟩
  · intro after before e hjournal hfatal
    exact h.nothing_after hjournal hfatal

/-- Two invocations of which the second one completes first; later the number 1
is used again. -/
def completeOutOfOrder : List Action :=
  [.scope 1 (some 3), .scope 2 (some 3), .prepare 0 true { loaded := some ⟨0, none⟩ },
    .prepare 1 true {}, .close 1, .complete 1 8 (some 2) {}, .publishReady {},
    .close 0, .complete 0 7 (some 1) {}, .publishReady {}, .publishReady {}, .publishReady {},
    .complete 0 7 (some 1) {}]

def completeOutOfOrderEnd : Ledger :=
  Transition.final Ledger.step (.initial []) completeOutOfOrder

theorem completions_in_sequence_swapped :
    completeOutOfOrderEnd.journal = [.answered 2 false, .repeated 2, .arrived 2 (some 1),
          .answered 0 true, .published 0 (some 2) true, .answered 1 true,
          .published 1 (some 1) true, .arrived 1 (some 1), .arrived 0 (some 2)] ∧
      ∃ n, released completeOutOfOrderEnd.journal = List.range' 1 n := by
  have hrun : Transition.run Ledger.step (.initial []) completeOutOfOrder =
      some completeOutOfOrderEnd := rfl
  exact ⟨by decide, (completions_in_sequence hrun).1⟩

end DurableActors.Ports.Database
