import DurableActors.Ports.DatabaseDurability

/-!
# A reload gives the resident state

The resident database is changed step by step on several paths: version, memory of
the last completion, durable head and published position.  A reload builds all of
them from one snapshot.  They agree whenever nothing is pending and nothing local is
left to publish, in every run in which the storage loads the durable head and a
failed publication is resolved before the next one starts.

The published position is the exception.  A capture that starts a new history
counts from zero again, so there it is zero until the next publication.
-/

namespace DurableActors.Ports.Database

open Verified

variable {s s' : Session}

/-! ## The runs -/

/-- What the storage loads: the durable head and its version. -/
def Loaded.head (durable : List Snapshot) : Loaded :=
  ⟨durable.head?.elim 0 fun x => x.header.version, durable.head?⟩

/-- The storage loads the durable head, if it answers. -/
def Answers.FromHead (a : Answers) (durable : List Snapshot) : Prop :=
  ∀ loaded ∈ a.loaded, loaded = Loaded.head durable

instance (a : Answers) (durable : List Snapshot) : Decidable (a.FromHead durable) :=
  inferInstanceAs (Decidable (∀ loaded ∈ a.loaded, _))

section

variable (w : Service)

/-- Nothing is pending if the completion of the scope publishes. -/
def Service.Settles (k : Nat) : Prop :=
  ∀ scope ∈ w.scopes[k]?, ∀ r ∈ w.session.cached,
    r.unpublished scope.toPublish ≠ none → r.pending = none

instance (k : Nat) : Decidable (w.Settles k) :=
  inferInstanceAs (Decidable (∀ scope ∈ w.scopes[k]?, ∀ r ∈ w.session.cached, _))

/-- The storage loads the durable head, and no publication starts while an earlier
one is pending: a failed one is left to `finish_pending_commit`. -/
def Resolves : Action → Prop
  | .prepare _ _ a => a.FromHead w.session.durable
  | .activate a => a.FromHead w.session.durable
  | .call _ call a => ∀ r ∈ w.session.cached, ∀ e ∈ a.executed, call.immediate = true →
      e.committed = true → r.synced < r.position + e.transactions → r.pending = none
  | .complete k _ none _ => w.Settles k
  | .publishReady _ => ∀ p ∈ w.next, w.Settles p.2.1
  | _ => True

instance (action : Action) : Decidable (Resolves w action) :=
  match action with
  | .prepare _ _ a | .activate a => inferInstanceAs (Decidable (a.FromHead _))
  | .call _ _ a =>
    inferInstanceAs (Decidable (∀ r ∈ w.session.cached, ∀ e ∈ a.executed, _ → _ → _ → _))
  | .complete k _ none _ => inferInstanceAs (Decidable (w.Settles k))
  | .publishReady _ => inferInstanceAs (Decidable (∀ p ∈ w.next, w.Settles p.2.1))
  | .complete _ _ (some _) _ | .scope .. | .close _ | .hydrated .. | .reset | .stop =>
    .isTrue trivial

end

/-! ## The invariant of the resident database -/

/-- The memory of the last completion that a snapshot carries. -/
def Snapshot.last (x : Snapshot) : Option (Nat × Nat) :=
  x.header.completion.map fun result => (x.header.request, result)

/-- The resident database is that of the durable head, up to what is not yet
published. -/
structure Mirrors (newest : Option Snapshot) (r : Resident) : Prop where
  version : r.version = newest.elim 0 fun x => x.header.version
  epoch : ∀ x ∈ newest, x.header.epoch ≤ r.epoch
  last : r.last = newest.bind Snapshot.last
  published : r.published = newest.map fun x => if r.head = none then 0 else x.header.txid
  contents : r.upTo (r.published.getD 0) = newest.elim [] Snapshot.contents
  range : r.start ≤ r.published.getD 0 ∧ r.published.getD 0 ≤ r.position

/-- The capture stands where the durable head ends. -/
structure Cursor (newest : Option Snapshot) (r : Resident) : Prop where
  captured : r.captured = r.published.getD 0
  head : ∀ x ∈ r.head, newest = some x

/-- The version of a durable head is positive. -/
def Positive (durable : List Snapshot) : Prop := ∀ x ∈ durable.head?, 0 < x.header.version

/-- The pending snapshot is that of the local database up to its position. -/
structure Waits (r : Resident) (p : Pending) : Prop where
  positive : 0 < p.snapshot.header.version
  durable : p.durable = false
  txid : p.snapshot.header.txid = p.txid
  epoch : p.snapshot.header.epoch ≤ r.epoch
  contents : r.upTo p.txid = p.snapshot.contents
  range : r.start ≤ p.txid ∧ p.txid ≤ r.position
  captured : r.captured = p.txid

/-- What holds of a resident database even when the service has stopped. -/
structure Reflects (durable : List Snapshot) (r : Resident) : Prop where
  positive : Positive durable
  mirrors : r.pending = none → Mirrors durable.head? r
  waits : ∀ p, r.pending = some p → Waits r p

/-- What holds of it while the service runs. -/
structure Current (durable : List Snapshot) (r : Resident) : Prop where
  positive : Positive durable
  mirrors : r.pending = none → Mirrors durable.head? r
  cursor : r.pending = none → Cursor durable.head? r
  waits : ∀ p, r.pending = some p → Waits r p

theorem Current.reflects {durable : List Snapshot} {r : Resident} (h : Current durable r) :
    Reflects durable r := ⟨h.positive, h.mirrors, h.waits⟩

section

variable {r r' : Resident} {durable : List Snapshot}

/-- A pending snapshot that has become durable is the head. -/
theorem Waits.finish {p : Pending} (h : Waits r p) :
    Current (p.snapshot :: durable) (r.finish p) := by
  constructor
  case positive =>
    intro x hx
    obtain rfl := Option.some.inj hx
    exact h.positive
  case mirrors =>
    intro _
    constructor
    case version => rfl
    case epoch =>
      intro x hx
      obtain rfl := Option.some.inj hx
      exact h.epoch
    case last => rfl
    case published =>
      show some p.txid = some (if some p.snapshot = none then 0 else p.snapshot.header.txid)
      rw [if_neg (by simp), h.txid]
    case contents => exact h.contents
    case range => exact h.range
  case waits => exact fun _ hp => by cases hp
  case cursor => exact fun _ => ⟨h.captured, fun x hx => hx⟩

/-- A write of a pending snapshot. -/
theorem Waits.write {p : Pending} (h : Waits r p) (hpositive : Positive durable) (a : Answers) :
    Current (r.writePending a durable p).durable (r.writePending a durable p).resident := by
  have hpending : ∀ durable', Positive durable' →
      Current durable' { r with pending := some p } := by
    intro durable' hpositive'
    constructor
    case positive => exact hpositive'
    case mirrors => exact fun hnone => by cases hnone
    case waits =>
      intro p' hp'
      obtain rfl := Option.some.inj hp'
      exact ⟨h.positive, h.durable, h.txid, h.epoch, h.contents, h.range, h.captured⟩
    case cursor => exact fun hnone => by cases hnone
  unfold Resident.writePending
  split
  · exact hpending durable hpositive
  · refine hpending (p.snapshot :: durable) fun x hx => ?_
    obtain rfl := Option.some.inj hx
    exact h.positive
  · have h' : Waits r { p with durable := false } := by
      rw [← h.durable]
      exact h
    exact h'.finish

/-! ### Publications -/

/-- Nothing that the durable head says changes. -/
theorem Mirrors.congr {newest : Option Snapshot} (h : Mirrors newest r) (hsame : Same r r')
    (hversion : r'.version = r.version) (hepoch : r'.epoch = r.epoch) (hlast : r'.last = r.last)
    (hpublished : r'.published = r.published) (hhead : r'.head = r.head) : Mirrors newest r' := by
  constructor
  case version => exact hversion.trans h.version
  case epoch => rw [hepoch]; exact h.epoch
  case last => exact hlast.trans h.last
  case published => rw [hpublished, hhead]; exact h.published
  case contents => rw [hpublished, hsame.upTo]; exact h.contents
  case range => rw [hpublished, hsame.start, hsame.position]; exact h.range

/-- The snapshot of a capture holds exactly the transactions up to its position. -/
theorem Cursor.capture {newest : Option Snapshot} (hcursor : Cursor newest r)
    (hmirrors : Mirrors newest r) {header : Header} {txid : Nat} {snapshot : Snapshot}
    (h : Captures r header txid r' snapshot) :
    r.upTo txid = snapshot.contents ∧ r.start ≤ txid ∧ txid ≤ r.position := by
  have hstart : r.start ≤ r.captured := hcursor.captured ▸ hmirrors.range.1
  refine ⟨?_, Nat.le_trans hstart h.bounds.1, h.bounds.2⟩
  rcases h.contents with hall | ⟨parent, files, hparent, hcontents, hsplit⟩
  · exact hall.symm
  · -- the parent holds what was captured before, the files the rest
    rw [hsplit, hcontents, hcursor.captured, hmirrors.contents, hcursor.head parent hparent]
    rfl

/-- What a publication leaves: the head may be a new one, and unless it failed
without a pending snapshot the capture stands at it. -/
structure Tries (P : Published) : Prop where
  reflects : Reflects P.durable P.resident
  current : P.ok = true ∨ P.resident.pending ≠ none → Current P.durable P.resident

theorem Tries.of_current {P : Published} (h : Current P.durable P.resident) : Tries P :=
  ⟨h.reflects, fun _ => h⟩

/-- A publication that fails before its snapshot is pending. -/
theorem Tries.failed (h : Reflects durable r') (hpending : r'.pending = none) :
    Tries ⟨false, r', durable⟩ := by
  refine ⟨h, fun hor => ?_⟩
  rcases hor with hok | hne
  · cases hok
  · exact absurd hpending hne

/-- **A publication** with no earlier one pending. -/
theorem Current.publishState (h : Current durable r) (hpending : r.pending = none) (a : Answers)
    (request epoch : Nat) (completion : Option Nat) (txid : Nat) (hepoch : epoch = r.epoch) :
    Tries (r.publishState a durable request epoch completion txid) := by
  have hmirrors := h.mirrors hpending
  have hcursor := h.cursor hpending
  have hmoved : ∀ captured, Mirrors durable.head?
      { r with nextWrite := none, captured := captured } :=
    fun _ => hmirrors.congr ⟨rfl, rfl, rfl, rfl, rfl, Nat.le_refl _⟩ rfl rfl rfl rfl rfl
  have hpublishes := publishes r a durable request epoch completion txid
  generalize r.publishState a durable request epoch completion txid = P at hpublishes
  cases hpublishes with
  | failed captured =>
    refine .failed ⟨h.positive, fun _ => hmoved captured, fun p hp => ?_⟩ hpending
    cases hpending.symm.trans hp
  | wrote ticket hcapture =>
    rename_i snapshot
    have hheader := hcapture.header
    obtain ⟨hcontents, hrange⟩ := Cursor.capture (r := { r with nextWrite := none })
      ⟨hcursor.captured, hcursor.head⟩ (hmoved r.captured) hcapture
    refine .of_current (Waits.write ?_ h.positive a)
    constructor
    case positive =>
      show 0 < snapshot.header.version
      rw [hheader]
      exact Nat.succ_pos _
    case durable => rfl
    case txid => show snapshot.header.txid = txid; rw [hheader]
    case epoch =>
      show snapshot.header.epoch ≤ r.epoch
      rw [hheader]
      exact Nat.le_of_eq hepoch
    case contents => exact hcontents
    case range => exact hrange
    case captured => rfl

/-- `finish_pending_commit`. -/
theorem Current.finishPendingCommit (h : Current durable r) (a : Answers) :
    Current (r.finishPendingCommit a durable).durable
      (r.finishPendingCommit a durable).resident := by
  fun_cases Resident.finishPendingCommit r a durable with
  | case2 p hp hdurable => cases (h.waits p hp).durable.symm.trans hdurable
  | case3 p hp => exact (h.waits p hp).write h.positive a
  | _ => exact h

/-! ### Opening and local transactions -/

/-- What is opened from the durable head: a new database if there is none. -/
inductive Opens (s : Session) (a : Answers) (epoch : Nat) (durable : List Snapshot) :
    Resident → Prop
  | fresh (hnewest : durable.head? = none) : Opens s a epoch durable (.empty s.opened epoch)
  | head {x : Snapshot} {start : Nat} (hnewest : durable.head? = some x)
      (hepoch : x.header.epoch ≤ epoch)
      (hstart : start = if a.resumed = true then x.header.txid else 0) :
      Opens s a epoch durable
        { Resident.empty s.opened epoch with
          version := x.header.version
          base := x.contents
          start := start
          captured := start
          head := if a.resumed = true ∧ 0 < start then some x else none
          published := some start
          synced := start
          last := x.last }

theorem opens {a : Answers} {epoch : Nat}
    (h : s.openLoaded a epoch (Loaded.head durable) = some r) : Opens s a epoch durable r := by
  revert h
  fun_cases Session.openLoaded a s epoch (Loaded.head durable) with
  | case1 hnewest =>
    rintro ⟨⟩
    exact .fresh hnewest
  | case5 version x hnewest _ hloads =>
    obtain ⟨hversion, hepoch, -⟩ := hloads
    rw [← hversion]
    rintro ⟨⟩
    exact .head hnewest hepoch rfl
  | _ => rintro ⟨⟩

/-- A database opened from the durable head is current. -/
theorem openLoaded_current {a : Answers} {epoch : Nat} (hpositive : Positive durable)
    (h : s.openLoaded a epoch (Loaded.head durable) = some r) :
    Current durable r ∧ r.log = [] ∧ r.pending = none := by
  cases opens h with
  | fresh hnewest =>
    refine ⟨⟨hpositive, fun _ => ?_, fun _ => ⟨rfl, nofun⟩, nofun⟩, rfl, rfl⟩
    rw [hnewest]
    exact ⟨rfl, nofun, rfl, rfl, rfl, Nat.le_refl _, Nat.le_refl _⟩
  | head hnewest hepoch hstart =>
    rename_i x start
    refine ⟨⟨hpositive, fun _ => ?_, fun _ => ?_, nofun⟩, rfl, rfl⟩
    · rw [hnewest]
      constructor
      case version => rfl
      case epoch =>
        intro y hy
        obtain rfl := Option.some.inj hy
        exact hepoch
      case last => rfl
      case published =>
        by_cases hresumed : a.resumed = true
        · rw [if_pos hresumed] at hstart
          simp [hresumed, hstart]
        · simpa [hresumed] using hstart
      case contents =>
        show x.contents ++ [].take _ = x.contents
        rw [List.take_nil, List.append_nil]
      case range => exact ⟨Nat.le_refl _, Nat.le_refl _⟩
    · rw [hnewest]
      refine ⟨rfl, fun y hy => ?_⟩
      obtain ⟨-, hx⟩ := Option.ite_none_right_eq_some.mp hy
      exact hx

/-- Its published position. -/
theorem openLoaded_published {a : Answers} {epoch : Nat}
    (h : s.openLoaded a epoch (Loaded.head durable) = some r) :
    r.published = durable.head?.map fun x => if a.resumed = true then x.header.txid else 0 := by
  cases opens h with
  | fresh hnewest => rw [hnewest]; rfl
  | head hnewest hepoch hstart => rw [hnewest, hstart]; rfl

/-- New transactions are not yet published. -/
theorem Current.append (h : Current durable r) (e : Executed) (next synced : Nat) :
    Current durable { r.append e next with synced := synced } := by
  have hposition : r.position ≤ (r.append e next).position := by
    rw [position_append]
    exact Nat.le_add_right _ _
  constructor
  case positive => exact h.positive
  case mirrors =>
    intro hnone
    have hmirrors := h.mirrors hnone
    refine ⟨hmirrors.version, hmirrors.epoch, hmirrors.last, hmirrors.published, ?_,
      hmirrors.range.1, Nat.le_trans hmirrors.range.2 hposition⟩
    exact (upTo_append hmirrors.range.2).trans hmirrors.contents
  case cursor => exact fun hnone => ⟨(h.cursor hnone).captured, (h.cursor hnone).head⟩
  case waits =>
    intro p hp
    have hwaits := h.waits p hp
    refine ⟨hwaits.positive, hwaits.durable, hwaits.txid, hwaits.epoch, ?_,
      ⟨hwaits.range.1, Nat.le_trans hwaits.range.2 hposition⟩, hwaits.captured⟩
    exact (upTo_append hwaits.range.2).trans hwaits.contents

theorem Current.append_only (h : Current durable r) (e : Executed) (next : Nat) :
    Current durable (r.append e next) := h.append e next r.synced

/-- **A call of SQLite.** -/
theorem Current.afterCall (h : Current durable r) {e : Executed} (next : Nat) {call : Call}
    (hpending : call.immediate = true → e.committed = true →
      r.synced < r.position + e.transactions → r.pending = none)
    (a : Answers) (request : Nat) {reply : Reply} {durable' : List Snapshot}
    (hcall : (r.append e next).afterCall a durable request call e = (reply, r', durable')) :
    Reflects durable' r' ∧ (reply ≠ .error → Current durable' r') := by
  have happended := h.append_only e next
  unfold Resident.afterCall at hcall
  dsimp only at hcall
  split at hcall
  · obtain ⟨-, rfl, rfl⟩ := hcall
    exact ⟨happended.reflects, fun _ => happended⟩
  · rename_i hcommitted
    split at hcall
    · obtain ⟨rfl, rfl, rfl⟩ := hcall
      exact ⟨happended.reflects, fun hne => absurd rfl hne⟩
    · have hsynced := h.append e next (r.append e next).position
      split at hcall
      · rename_i hpublish
        obtain ⟨himmediate, hmore⟩ := hpublish
        have hnone : r.pending = none := by
          refine hpending himmediate (by simpa using hcommitted) ?_
          rw [← position_append]
          exact hmore
        generalize hP : Resident.publishImmediate _ _ _ _ = P at hcall
        have htries : Tries P := by
          rw [← hP]
          unfold Resident.publishImmediate
          split
          · have htries := hsynced.publishState hnone a request r.epoch none
              (r.append e next).position rfl
            refine ⟨htries.reflects, fun hor => htries.current ?_⟩
            exact hor.imp (fun hok => (Bool.and_eq_true_iff.mp hok).1) id
          · exact .failed hsynced.reflects hnone
        obtain ⟨hreply, hrest⟩ := Prod.mk.inj hcall
        obtain ⟨rfl, rfl⟩ := Prod.mk.inj hrest
        refine ⟨htries.reflects, fun hne => htries.current (.inl ?_)⟩
        by_contra hok
        rw [if_neg hok] at hreply
        exact hne hreply.symm
      · obtain ⟨-, rfl, rfl⟩ := hcall
        exact ⟨hsynced.reflects, fun _ => hsynced⟩

end

/-! ## The session -/

/-- The resident database of a session is current. -/
structure Session.Current (s : Session) : Prop where
  positive : Positive s.durable
  resident : ∀ r ∈ s.cached, Database.Current s.durable r

section

variable {s : Session} {a : Answers}

theorem Session.Current.of_resident {r : Resident} (hcached : s'.cached = some r)
    (h : Database.Current s'.durable r) : s'.Current := by
  refine ⟨h.positive, fun r' hr' => ?_⟩
  obtain rfl := Option.some.inj (hcached.symm.trans hr')
  exact h

theorem Session.Current.of_absent (hpositive : Positive s'.durable)
    (h : s'.cached = none) : s'.Current := by
  refine ⟨hpositive, fun r hr => ?_⟩
  rw [h] at hr
  cases hr

/-- Only the resident database and the durable snapshots matter. -/
theorem Session.Current.congr (h : s.Current) (hcached : s'.cached = s.cached)
    (hdurable : s'.durable = s.durable) : s'.Current := by
  refine ⟨hdurable ▸ h.positive, fun r hr => ?_⟩
  rw [hdurable]
  exact h.resident r (hcached ▸ hr)

/-- A head has a positive version, so version zero is loaded only if there is none. -/
theorem Positive.found {durable : List Snapshot} (h : Positive durable) :
    (Loaded.head durable).found = Loaded.head durable := by
  cases hnewest : durable.head? with
  | none => simp [Loaded.found, Loaded.head, hnewest]
  | some x =>
    have hpos : x.header.version ≠ 0 := Nat.pos_iff_ne_zero.mp (h x hnewest)
    simp [Loaded.found, Loaded.head, hnewest, hpos]

/-- **Preparing.** -/
theorem Session.Current.prepares (h : s.Current) (hhead : a.FromHead s.durable)
    (hprepares : s.Prepares a s') : s'.Current := by
  cases hprepares with
  | kept hcached hdurable hopened => exact h.congr hcached hdurable
  | dropped hcached hdurable hopened => exact .of_absent (hdurable ▸ h.positive) hcached
  | resident htakes hP hcached hdurable hopened =>
    rename_i r P
    have hcurrent : Database.Current s.durable r := by
      rcases htakes with hold | ⟨epoch, loaded, hloaded, hopen⟩
      · exact h.resident r hold
      · obtain rfl := hhead loaded hloaded
        rw [h.positive.found, or_self] at hopen
        exact (openLoaded_current h.positive hopen).1
    refine .of_resident hcached ?_
    rw [hdurable]
    rcases hP with rfl | rfl
    · exact hcurrent
    · exact hcurrent.finishPendingCommit a

/-- **A completion.** -/
theorem Session.Current.completes (h : s.Current) {committed : Option Nat}
    (hpending : ∀ r ∈ s.cached, r.unpublished committed ≠ none → r.pending = none)
    {request result : Nat} {completion : Completion}
    (hcompletes : s.Completes a request result committed completion s') : s'.Current := by
  have htries : ∀ {r}, s.cached = some r →
      Tries (r.publishResult a s.durable request r.epoch result committed) := by
    intro r hcached
    unfold Resident.publishResult
    split
    · rename_i txid hsome
      exact (h.resident r hcached).publishState (hpending r hcached (by simp [hsome])) a request
        r.epoch (some result) txid rfl
    · exact .of_current (h.resident r hcached)
  cases hcompletes with
  | refused => exact h
  | dropped hcached hdurable hopened => exact .of_absent (hdurable ▸ h.positive) hcached
  | failed hcached hP hleft hdurable hopened =>
    rename_i r P
    have htried : Tries P := hP ▸ htries hcached
    by_cases hnone : P.resident.pending = none
    · exact .of_absent (hdurable ▸ htried.reflects.positive) (hleft.trans (if_pos hnone))
    · refine .of_resident (hleft.trans (if_neg hnone)) ?_
      rw [hdurable]
      exact htried.current (.inr hnone)
  | published hcached hP hok hversion =>
    have htried : Tries _ := hP ▸ htries hcached
    exact .of_resident rfl (htried.current (.inl hok))

/-- **A database call.** -/
theorem Session.Current.calls (h : s.Current) {call : Call}
    (hpending : ∀ r ∈ s.cached, ∀ e ∈ a.executed, call.immediate = true →
      e.committed = true → r.synced < r.position + e.transactions → r.pending = none)
    {request : Nat} {reply : Reply} (hcalls : s.Calls a request call reply s') :
    (∀ r ∈ s'.cached, Reflects s'.durable r) ∧ (reply ≠ .error → s'.Current) := by
  cases hcalls with
  | beside hcommit hwrote => exact ⟨fun r hr => (h.resident r hr).reflects, fun _ => h⟩
  | ran hcached he halarm hafter =>
    obtain ⟨hreflects, hcurrent⟩ := (h.resident _ hcached).afterCall s.transactions
      (hpending _ hcached _ he) a request hafter
    refine ⟨?_, fun hne => .of_resident rfl (hcurrent hne)⟩
    rintro r'' ⟨⟩
    exact hreflects

end

/-! ## The service -/

/-- The invariant of a run. -/
structure Service.Kept (w : Service) : Prop where
  reflects : ∀ r ∈ w.session.cached, Reflects w.session.durable r
  current : w.stopped = false → w.session.Current

section

variable {w w' : Service} {a : Answers}

theorem Service.Kept.of_current (h : w.session.Current) : w.Kept :=
  ⟨fun r hr => (h.resident r hr).reflects, fun _ => h⟩

theorem Service.Kept.call (h : w.session.Current) {call : Call}
    (hpending : ∀ r ∈ w.session.cached, ∀ e ∈ a.executed, call.immediate = true →
      e.committed = true → r.synced < r.position + e.transactions → r.pending = none)
    (k : Nat) (scope : Scope) : (w.call a k scope call).Kept := by
  obtain ⟨hreflects, hcurrent⟩ := h.calls hpending
    (calls w.session a scope.request scope.epoch call)
  fun_cases Service.call w a k scope call with
  | case1 => exact .of_current h
  | case5 _ session hcall =>
    rw [hcall] at hreflects
    exact ⟨hreflects, fun hruns => by cases hruns⟩
  | _ =>
    rename_i hcall
    rw [hcall] at hcurrent
    exact .of_current (hcurrent (by simp))

/-- The session after a publication. -/
theorem Service.publish_current (h : w.session.Current) {k : Nat} {scope : Scope}
    (hscope : w.scopes[k]? = some scope) (hsettles : w.Settles k) (result : Nat) :
    (w.publish a k scope result).2.session.Current :=
  h.completes (fun r hr => hsettles scope hscope r hr)
    (completes w.session a scope.request scope.epoch result scope.toPublish)

theorem Service.Kept.publishReady (h : w.session.Current)
    (hsettles : ∀ p ∈ w.next, w.Settles p.2.1) : (w.publishReady a).Kept := by
  unfold Service.publishReady
  split
  · exact .of_current h
  · rename_i sequence k result hnext
    dsimp only
    split
    · exact .of_current h
    · rename_i scope hscope
      have hpublished := Service.publish_current
        (w := { w with ready := w.ready.filter fun p => p.1 ≠ sequence }) (a := a) h hscope
        (hsettles _ hnext) result
      split
      · rename_i hpublish
        rw [hpublish] at hpublished
        exact .of_current hpublished
      · rename_i hpublish
        rw [hpublish] at hpublished
        exact .of_current hpublished

/-- **One step.** -/
theorem Service.Kept.step {action : Action} (hkept : w.Kept) (hguard : Resolves w action)
    (hstep : step w action = some w') : w'.Kept := by
  cases Service.steps hstep with
  | scope request epoch => exact ⟨hkept.reflects, hkept.current⟩
  | close k => exact ⟨hkept.reflects, hkept.current⟩
  | prepare hruns hsound hprepares =>
    exact .of_current ((hkept.current hruns).prepares hguard hprepares)
  | call hruns hscope => exact .call (hkept.current hruns) hguard _ _
  | activate hruns hsound hprepares =>
    exact .of_current ((hkept.current hruns).prepares hguard hprepares)
  | hydrated hruns hcached hdurable hopened =>
    exact .of_current ((hkept.current hruns).congr hcached hdurable)
  | complete hruns hscope =>
    rename_i k result scope sequence a
    fun_cases Service.complete w a k scope result sequence with
    | case1 =>
      exact .of_current (Service.publish_current (hkept.current hruns) hscope hguard result)
    | _ => exact .of_current (hkept.current hruns)
  | publishReady hruns hdraining => exact .publishReady (hkept.current hruns) hguard
  | reset hruns => exact .of_current (.of_absent (hkept.current hruns).positive rfl)
  | stop hruns => exact ⟨hkept.reflects, fun hruns => by cases hruns⟩

/-- **Every run.** -/
theorem Service.kept_run {durable : List Snapshot} (hpositive : Positive durable)
    {actions : List Action} (hguard : Transition.Guarded step Resolves (.initial durable) actions)
    (hrun : Transition.run step (.initial durable) actions = some w) : w.Kept :=
  Transition.run_guarded_invariant (fun _ _ _ hkept hg hstep => hkept.step hg hstep)
    (.of_current (.of_absent hpositive rfl)) hguard hrun

end

/-! ## The reload -/

/-- The head loads again, with the epoch of the resident database. -/
theorem Mirrors.reload {r : Resident} (h : Mirrors s.durable.head? r)
    (hpositive : Positive s.durable) {a : Answers} (hrestored : a.restored = true) :
    ∃ r', s.openLoaded a r.epoch (Loaded.head s.durable) = some r' := by
  unfold Session.openLoaded Loaded.head
  cases hnewest : s.durable.head? with
  | none => exact ⟨_, if_pos hrestored⟩
  | some x =>
    simp only [Option.elim_some]
    cases hversion : x.header.version with
    | zero =>
      have := hpositive x hnewest
      omega
    | succ version => exact ⟨_, if_pos ⟨hversion, h.epoch x hnewest, hrestored⟩⟩

/-- Two databases of one head agree. -/
theorem Mirrors.agree {newest : Option Snapshot} {r r' : Resident} (h : Mirrors newest r)
    (h' : Mirrors newest r') (hall : r.position ≤ r.published.getD 0)
    (hall' : r'.position ≤ r'.published.getD 0) :
    r'.version = r.version ∧ r'.contents = r.contents ∧
      (∀ request, r'.replay request = r.replay request) ∧
      ((r'.head = none ↔ r.head = none) → r'.published = r.published) := by
  refine ⟨h'.version.trans h.version.symm, ?_, fun request => ?_, fun hhead => ?_⟩
  · have hposition : r.published.getD 0 = r.position := Nat.le_antisymm h.range.2 hall
    have hposition' : r'.published.getD 0 = r'.position := Nat.le_antisymm h'.range.2 hall'
    rw [← upTo_position, ← upTo_position, ← hposition, ← hposition', h.contents, h'.contents]
  · unfold Resident.replay
    rw [h.last, h'.last]
  · rw [h.published, h'.published]
    simp only [hhead]

/-- An invocation writes at once and commits again; its completion is stored but the
answer is lost, and the next invocation finishes it. -/
def writeLoseFinish : List Action :=
  [.scope 1 (some 3), .prepare 0 true { loaded := some ⟨0, none⟩ },
    .call 0 (.exec true) { executed := some ⟨true, true, 1⟩, ticket := some ⟨1, 3⟩ },
    .call 0 .commit { executed := some ⟨true, true, 1⟩ },
    .close 0, .complete 0 7 none { write := .lost },
    .scope 2 (some 3), .prepare 1 true { ticket := some ⟨2, 3⟩ }]

def writeLoseFinishEnd : Service :=
  Transition.final step (Service.initial []) writeLoseFinish

/-- The database that is resident at its end. -/
def writeLoseFinishResident : Resident :=
  writeLoseFinishEnd.session.cached.getD (.empty 0 0)

/-- The answers to a reload at its end. -/
def writeLoseFinishReload (resumed : Bool) : Answers :=
  { loaded := some (Loaded.head writeLoseFinishEnd.session.durable), resumed := resumed }

end DurableActors.Ports.Database
