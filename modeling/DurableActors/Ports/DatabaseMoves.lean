import DurableActors.Ports.DatabaseService

/-!
# What the commands of the database session can do

One relation per function of the session, with what it leaves of the resident
database and of the durable snapshots.  The invariants of the service are proved
from these, case by case.
-/

namespace DurableActors.Ports.Database

/-! ## Publications -/

section

variable {r r' : Resident} {a : Answers} {durable : List Snapshot} {header : Header} {txid : Nat}

/-- A capture moves the resident database at most to the position. -/
theorem captureSqlite_moves {snapshot : Option Snapshot}
    (h : r.captureSqlite a header txid = (r', snapshot)) :
    ∃ captured, r' = { r with captured := captured } := by
  revert h
  fun_cases Resident.captureSqlite r a header txid with
  | case4 => exact fun h => ⟨r.captured, (Prod.mk.inj h).1.symm⟩
  | _ => exact fun h => ⟨txid, (Prod.mk.inj h).1.symm⟩

/-- A captured snapshot: everything up to the position, or the durable head and the
files since the last capture. -/
structure Captures (r : Resident) (header : Header) (txid : Nat) (r' : Resident)
    (snapshot : Snapshot) : Prop where
  after : r' = { r with captured := txid }
  bounds : r.captured ≤ txid ∧ txid ≤ r.position
  header : snapshot.header = header
  contents : snapshot.contents = r.upTo txid ∨ ∃ parent files, r.head = some parent ∧
    snapshot.contents = parent.contents ++ files ∧ r.upTo txid = r.upTo r.captured ++ files

theorem captures {snapshot : Snapshot} (h : r.captureSqlite a header txid = (r', some snapshot)) :
    Captures r header txid r' snapshot := by
  revert h
  fun_cases Resident.captureSqlite r a header txid with
  | case2 hok =>
    intro h
    obtain ⟨rfl, ⟨⟩⟩ := Prod.mk.inj h
    exact ⟨rfl, hok.2, rfl, .inl rfl⟩
  | case3 hok =>
    intro h
    obtain ⟨rfl, hs⟩ := Prod.mk.inj h
    obtain ⟨parent, hparent, rfl⟩ := Option.map_eq_some_iff.mp hs
    refine ⟨rfl, hok.2, rfl, .inr ⟨parent, _, hparent, rfl, ?_⟩⟩
    -- the files continue where the last capture ended
    have hsplit := List.take_append_drop (r.captured - r.start) (r.log.take (txid - r.start))
    rw [List.take_take, Nat.min_eq_left (Nat.sub_le_sub_right hok.2.1 _)] at hsplit
    rw [Resident.upTo, Resident.upTo, List.append_assoc, hsplit]
  | _ => exact fun h => nomatch (Prod.mk.inj h).2

/-- `publish_state_once` fails before its snapshot is pending, or writes it. -/
inductive Resident.Publishes (r : Resident) (a : Answers) (durable : List Snapshot)
    (request epoch : Nat) (completion : Option Nat) (txid : Nat) : Published → Prop
  | failed (captured : Nat) : Publishes r a durable request epoch completion txid
      ⟨false, { r with nextWrite := none, captured := captured }, durable⟩
  | wrote {snapshot : Snapshot} (ticket : Ticket)
      (hcapture : Captures { r with nextWrite := none }
        ⟨r.version + 1, epoch, request, completion, txid⟩ txid
        { r with nextWrite := none, captured := txid } snapshot) :
      Publishes r a durable request epoch completion txid
        ({ r with nextWrite := none, captured := txid }.writePending a durable
          ⟨snapshot, txid, ticket, false⟩)

theorem publishes (r : Resident) (a : Answers) (durable : List Snapshot) (request epoch : Nat)
    (completion : Option Nat) (txid : Nat) :
    r.Publishes a durable request epoch completion txid
      (r.publishState a durable request epoch completion txid) := by
  fun_cases Resident.publishState r a durable request epoch completion txid with
  | case1 => exact .failed r.captured
  | case2 => exact .failed r.captured
  | case3 _ _ _ _ _ _ _ hcapture =>
    obtain ⟨captured, rfl⟩ := captureSqlite_moves hcapture
    exact .failed captured
  | case4 _ _ _ _ _ _ _ _ hcapture =>
    obtain rfl := (captures hcapture).after
    exact .failed txid
  | case5 _ _ _ ticket _ _ _ _ hcapture =>
    have hcaptures := captures hcapture
    obtain rfl := hcaptures.after
    exact .wrote ticket hcaptures

end

/-! ## Commands of the session -/

section

variable {s : Session} {a : Answers}

/-- What `prepare_activation` opens: version zero is a new database. -/
def Loaded.found (loaded : Loaded) : Loaded := if loaded.version = 0 then ⟨0, none⟩ else loaded

/-- A resident database that was there, or is opened from what the storage loads. -/
def Session.Takes (s : Session) (a : Answers) (r : Resident) : Prop :=
  s.cached = some r ∨ ∃ epoch, ∃ loaded ∈ a.loaded,
    s.openLoaded a epoch loaded = some r ∨ s.openLoaded a epoch loaded.found = some r

/-- What preparing leaves: the same resident database, none, or one whose pending
commit may have been finished. -/
inductive Session.Prepares (s : Session) (a : Answers) (s' : Session) : Prop
  | kept (hcached : s'.cached = s.cached) (hdurable : s'.durable = s.durable)
      (hopened : s'.opened = s.opened)
  | dropped (hcached : s'.cached = none) (hdurable : s'.durable = s.durable)
      (hopened : s.opened ≤ s'.opened)
  | resident {r : Resident} {P : Published} (htakes : s.Takes a r)
      (hP : P = ⟨true, r, s.durable⟩ ∨ P = r.finishPendingCommit a s.durable)
      (hcached : s'.cached = some P.resident) (hdurable : s'.durable = P.durable)
      (hopened : s'.opened = s.opened + 1)

theorem takes_of_takeOrLoad {epoch : Nat} {r : Resident} (h : s.takeOrLoad a epoch = some r) :
    s.Takes a r := by
  revert h
  fun_cases Session.takeOrLoad a s epoch with
  | case1 r hr =>
    rintro ⟨⟩
    exact .inl (Option.filter_eq_some_iff.mp hr).1
  | case2 =>
    intro h
    obtain ⟨loaded, hloaded, hopen⟩ := Option.bind_eq_some_iff.mp h
    exact .inr ⟨epoch, loaded, hloaded, .inl hopen⟩

theorem prepares_invocation (s : Session) (a : Answers) (request : Nat) (epoch : Option Nat)
    (replay : Bool) : s.Prepares a (s.prepareInvocation a request epoch replay).2 := by
  fun_cases Session.prepareInvocation a s request epoch replay with
  | case1 => exact .kept rfl rfl rfl
  | case2 => exact .kept rfl rfl rfl
  | case3 => exact .dropped rfl rfl (Nat.le_succ _)
  | case4 _ _ _ htake => exact .resident (takes_of_takeOrLoad htake) (.inr rfl) rfl rfl rfl
  | case5 _ _ _ htake => exact .resident (takes_of_takeOrLoad htake) (.inr rfl) rfl rfl rfl
  | case6 _ _ _ htake => exact .resident (takes_of_takeOrLoad htake) (.inr rfl) rfl rfl rfl
  | case7 _ _ _ htake => exact .resident (takes_of_takeOrLoad htake) (.inr rfl) rfl rfl rfl

theorem prepares_activation (s : Session) (a : Answers) :
    s.Prepares a (s.prepareActivation a).2 := by
  have htakes : ∀ {loaded r}, a.loaded = some loaded →
      s.cached.or (s.openLoaded a a.epoch loaded.found) = some r → s.Takes a r :=
    fun hloaded hr => (Option.or_eq_some_iff.mp hr).imp_right
      fun hopen => ⟨a.epoch, _, hloaded, .inr hopen.2⟩
  fun_cases Session.prepareActivation a s with
  | case5 _ _ _ _ _ _ _ hnone =>
    exact .dropped (Option.or_eq_none_iff.mp hnone).1 rfl (Nat.le_succ _)
  | case6 _ _ _ _ _ hloaded _ _ hr => exact .resident (htakes hloaded hr) (.inl rfl) rfl rfl rfl
  | case7 _ _ _ _ _ hloaded _ _ hr => exact .resident (htakes hloaded hr) (.inl rfl) rfl rfl rfl
  | _ => exact .kept rfl rfl rfl

theorem finishActivation_kept (s : Session) (a : Answers) (activation : Activation) (ok : Bool) :
    (s.finishActivation a activation ok).cached = s.cached ∧
      (s.finishActivation a activation ok).durable = s.durable ∧
      (s.finishActivation a activation ok).opened = s.opened := by
  fun_cases Session.finishActivation a s activation ok with
  | _ => exact ⟨rfl, rfl, rfl⟩

/-- `database_call` runs SQLite on the resident database, or changes nothing. -/
inductive Session.Calls (s : Session) (a : Answers) (request : Nat) (call : Call) :
    Reply → Session → Prop
  | beside {reply : Reply} (hcommit : ∀ txid, reply ≠ .executed (some txid))
      (hwrote : a.wrote call = true → ∀ committed, reply ≠ .executed committed) :
      Calls s a request call reply s
  | ran {r r' : Resident} {e : Executed} {reply : Reply} {durable : List Snapshot}
      (hcached : s.cached = some r) (he : a.executed = some e) (halarm : call.isAlarm = false)
      (hafter : (r.append e s.transactions).afterCall a s.durable request call e =
        (reply, r', durable)) :
      Calls s a request call reply
        { s with cached := some r', durable := durable,
                 transactions := s.transactions + e.transactions }

theorem calls (s : Session) (a : Answers) (request : Nat) (epoch : Option Nat) (call : Call) :
    s.Calls a request call (s.databaseCall a request epoch call).1
      (s.databaseCall a request epoch call).2 := by
  fun_cases Session.databaseCall a s request epoch call with
  | case1 => exact .beside (by simp) (by simp)
  | case2 => exact .beside (by simp) (by simp)
  | case3 _ _ _ halarm =>
    refine .beside (fun txid => ?_) (by simp [Answers.wrote, halarm])
    dsimp only
    split <;> simp
  | case4 => exact .beside (by simp) (by simp)
  | case5 _ hcached _ halarm _ he _ _ _ hafter =>
    exact .ran hcached he (Bool.eq_false_iff.mpr halarm) hafter

/-- `complete` changes nothing, drops the resident database of another epoch, or
publishes. -/
inductive Session.Completes (s : Session) (a : Answers) (request result : Nat)
    (committed : Option Nat) : Completion → Session → Prop
  | refused : Completes s a request result committed .error s
  | dropped {s' : Session} (hcached : s'.cached = none) (hdurable : s'.durable = s.durable)
      (hopened : s'.opened = s.opened) : Completes s a request result committed .error s'
  | failed {r : Resident} {P : Published} {s' : Session} (hcached : s.cached = some r)
      (hP : P = r.publishResult a s.durable request r.epoch result committed)
      (hafter : s'.cached = if P.resident.pending = none then none else some P.resident)
      (hdurable : s'.durable = P.durable) (hopened : s'.opened = s.opened) :
      Completes s a request result committed .unconfirmed s'
  | published {r : Resident} {P : Published} {completion : Completion}
      (hcached : s.cached = some r)
      (hP : P = r.publishResult a s.durable request r.epoch result committed)
      (hok : P.ok = true)
      (hversion : ∀ version, completion = .done version → version = P.resident.version) :
      Completes s a request result committed completion
        { s with cached := some P.resident, durable := P.durable }

theorem completes (s : Session) (a : Answers) (request : Nat) (epoch : Option Nat) (result : Nat)
    (committed : Option Nat) :
    s.Completes a request result committed (s.complete a request epoch result committed).1
      (s.complete a request epoch result committed).2 := by
  fun_cases Session.complete a s request epoch result committed with
  | case1 => exact .refused
  | case2 => exact .refused
  | case3 => exact .dropped rfl rfl rfl
  | case4 _ _ hcached hepoch =>
    obtain rfl := Decidable.not_not.mp hepoch
    exact .failed hcached rfl rfl rfl rfl
  | case5 _ _ hcached hepoch _ hok =>
    obtain rfl := Decidable.not_not.mp hepoch
    exact .published hcached rfl (Bool.of_not_eq_false hok)
      fun version h => (Completion.done.inj h).symm
  | case6 _ _ hcached hepoch _ hok =>
    obtain rfl := Decidable.not_not.mp hepoch
    exact .published hcached rfl (Bool.of_not_eq_false hok) nofun

end

/-! ## Steps of the service -/

/-- What a step of the service does; only a service that has not stopped works. -/
inductive Service.Steps (w : Service) : Action → Service → Prop
  | scope (request : Nat) (epoch : Option Nat) : Steps w (.scope request epoch)
      { w with scopes := w.scopes ++ [⟨request, epoch, true, 0, []⟩] }
  | close (k : Nat) : Steps w (.close k)
      { w with scopes := w.scopes.modify k fun scope => { scope with active := false } }
  | prepare {k : Nat} {replay : Bool} {a : Answers} {s : Session} (hruns : w.stopped = false)
      (hsound : a.Sound w.session.durable) (hprepares : w.session.Prepares a s) :
      Steps w (.prepare k replay a) { w with session := s }
  | call {k : Nat} {scope : Scope} {call : Call} {a : Answers} (hruns : w.stopped = false)
      (hscope : w.scopes[k]? = some scope) : Steps w (.call k call a) (w.call a k scope call)
  | activate {a : Answers} {s : Session} (hruns : w.stopped = false)
      (hsound : a.Sound w.session.durable) (hprepares : w.session.Prepares a s) :
      Steps w (.activate a) { w with session := s }
  | hydrated {activation : Activation} {ok : Bool} {a : Answers} {s : Session}
      (hruns : w.stopped = false) (hcached : s.cached = w.session.cached)
      (hdurable : s.durable = w.session.durable) (hopened : s.opened = w.session.opened) :
      Steps w (.hydrated activation ok a) { w with session := s }
  | complete {k result : Nat} {scope : Scope} {sequence : Option Nat} {a : Answers}
      (hruns : w.stopped = false) (hscope : w.scopes[k]? = some scope) :
      Steps w (.complete k result sequence a) (w.complete a k scope result sequence)
  | publishReady {a : Answers} (hruns : w.stopped = false) (hdraining : w.draining = true) :
      Steps w (.publishReady a) (w.publishReady a)
  | reset (hruns : w.stopped = false) : Steps w .reset { w with session := w.session.reset }
  | stop (hruns : w.stopped = false) : Steps w .stop { w with stopped := true }

/-- A step is one of those listed. -/
theorem Service.steps {w w' : Service} {action : Action} (hstep : step w action = some w') :
    w.Steps action w' := by
  have hidle : w.idle = true → w.stopped = false :=
    fun h => by simpa using (Bool.and_eq_true_iff.mp h).1
  have hall : Verified.Transition.Ensures (w.Steps action) (step w action) := by
    fun_cases step w action with
    | case1 request epoch => exact .scope request epoch
    | case2 k => exact .close k
    | case4 _ _ _ _ _ hok => exact .prepare (hidle hok.1) hok.2 (prepares_invocation _ _ _ _ _)
    | case7 _ _ _ _ hscope hruns => exact .call (hidle hruns) hscope
    | case9 _ hok => exact .activate (hidle hok.1) hok.2 (prepares_activation _ _)
    | case11 activation ok a hruns =>
      obtain ⟨hcached, hdurable, hopened⟩ := finishActivation_kept w.session a activation ok
      exact .hydrated (hidle hruns) hcached hdurable hopened
    | case14 _ _ _ _ _ hscope hruns => exact .complete (hidle hruns) hscope
    | case16 _ hok => exact .publishReady hok.1 hok.2
    | case18 hruns => exact .reset (hidle hruns)
    | case20 hruns => exact .stop (hidle hruns)
    | _ => trivial
  exact hall.of_eq hstep

end DurableActors.Ports.Database
