import DurableActors.Verified.KeyedTable
import DurableActors.Verified.Transition
import Mathlib.Data.List.Sort

/-!
# Alarm stores and their pollers

Each actor has at most one alarm.  Setting it makes a new revision; a poller
claims the alarms that are due, delivers them and finishes the revision it
claimed.  A claim that is not finished can be taken again after the queued
timeout.

The memory store is a map of alarms by actor; the SQLite and Postgres stores run
statements on a table with the actor as its primary key.  They also differ in how
they keep a revision: as a `u64` whose increment is checked, as an SQLite integer
that turns into a float beyond 64 bits, as a `bigint` whose increment fails there.
A scan of the map or the table sees its rows in some order; the order breaks ties
of the timestamp.
-/

namespace DurableActors.Ports.Alarms

open Verified

/-! ## Revisions -/

/-- How a store keeps revisions: the first one, the increment, what a claim
returns and what `finish` compares with. -/
structure Revisions (R : Type) where
  first : R
  next : R → Except String R
  read : R → Except String Nat
  write : Nat → Except String R

/-- A `u64`. -/
def memoryRevisions : Revisions Nat where
  first := 1
  next n := if n + 1 < 2 ^ 64 then .ok (n + 1) else .error "alarm revision overflow"
  read := .ok
  write := .ok

/-- A value of the `revision` column: an integer, or the float an overflow gives. -/
inductive SqliteValue
  | integer (n : Nat)
  | real
deriving DecidableEq, Repr

/-- `revision + 1`. -/
def SqliteValue.succ : SqliteValue → SqliteValue
  | .integer n => if n + 1 < 2 ^ 63 then .integer (n + 1) else .real
  | .real => .real

/-- `row.get::<_, i64>`. -/
def SqliteValue.read : SqliteValue → Except String Nat
  | .integer n => .ok n
  | .real => .error "Invalid column type Real"

def sqliteRevisions : Revisions SqliteValue where
  first := .integer 1
  next x := .ok x.succ
  read := SqliteValue.read
  write n := if n < 2 ^ 63 then .ok (.integer n) else .error "alarm revision overflow"

/-- A `bigint`. -/
def postgresRevisions : Revisions Nat where
  first := 1
  next n := if n + 1 < 2 ^ 63 then .ok (n + 1) else .error "bigint out of range"
  read := .ok
  write n := if n < 2 ^ 63 then .ok n else .error "alarm revision overflow"

/-! ## The alarms by actor -/

/-- `MemoryAlarm`, or a row of the table without its key. -/
structure Alarm (R : Type) where
  revision : R
  timestampMs : Option Int
  queuedAtMs : Option Int
deriving DecidableEq, Repr

/-- An alarm that was claimed, at a revision. -/
structure ClaimedAlarm (K : Type) where
  actor : K
  revision : Nat
deriving DecidableEq, Repr

abbrev Table (K R : Type) := K → Option (Alarm R)

section Operations

variable {K R : Type} [DecidableEq K] [DecidableEq R]

def Table.set (t : Table K R) (actor : K) (alarm : Alarm R) : Table K R :=
  fun a => if a = actor then some alarm else t a

/-- `MemoryAlarmStore::get`. -/
def Table.get (t : Table K R) (actor : K) : Option Int := (t actor).bind (·.timestampMs)

/-- `MemoryAlarmStore::update`, for given revisions. -/
def Table.update (ρ : Revisions R) (t : Table K R) (actor : K) (timestampMs : Option Int) :
    Except String (Table K R) :=
  match t actor with
  | some alarm =>
    match ρ.next alarm.revision with
    | .ok revision => .ok (t.set actor ⟨revision, timestampMs, none⟩)
    | .error message => .error message
  | none => .ok (t.set actor ⟨ρ.first, timestampMs, none⟩)

/-- The time an alarm is due, if it is due and not claimed. -/
def Alarm.due (alarm : Alarm R) (now expiredBefore : Int) : Option Int :=
  match alarm.timestampMs with
  | some due =>
    if due ≤ now ∧ alarm.queuedAtMs.all (fun queued => queued ≤ expiredBefore) = true then
      some due
    else none
  | none => none

/-- The alarms that are due, in the order of the scan. -/
def Table.due (t : Table K R) (now expiredBefore : Int) (order : List K) : List (Int × K) :=
  order.filterMap fun actor =>
    ((t actor).bind fun alarm => alarm.due now expiredBefore).map fun due => (due, actor)

/-- The actors whose alarms are claimed: the earliest ones, up to the limit. -/
def Table.chosen (t : Table K R) (now expiredBefore : Int) (limit : Nat) (order : List K) :
    List K :=
  (((t.due now expiredBefore order).insertionSort fun x y => x.1 ≤ y.1).take limit).map (·.2)

/-- The table with the claims marked. -/
def Table.queue (t : Table K R) (now : Int) (chosen : List K) : Table K R :=
  fun actor =>
    if actor ∈ chosen then (t actor).map fun alarm => { alarm with queuedAtMs := some now }
    else t actor

/-- The claim of an actor's alarm. -/
def Table.claimed (ρ : Revisions R) (t : Table K R) (actor : K) :
    Except String (ClaimedAlarm K) :=
  match t actor with
  | some alarm =>
    match ρ.read alarm.revision with
    | .ok revision => .ok ⟨actor, revision⟩
    | .error message => .error message
  | none => .error "selected alarm disappeared"

/-- `MemoryAlarmStore::claim_due`: the map is scanned in the given order. -/
def Table.claimDue (ρ : Revisions R) (t : Table K R) (now expiredBefore : Int) (limit : Nat)
    (order : List K) : Except String (List (ClaimedAlarm K)) × Table K R :=
  let chosen := t.chosen now expiredBefore limit order
  (chosen.mapM (t.claimed ρ), t.queue now chosen)

/-- `MemoryAlarmStore::finish`. -/
def Table.finish (ρ : Revisions R) (t : Table K R) (alarm : ClaimedAlarm K) :
    Except String (Table K R) :=
  match ρ.write alarm.revision with
  | .error message => .error message
  | .ok revision =>
    match t alarm.actor with
    | some current =>
      if current.revision = revision then
        .ok (t.set alarm.actor ⟨current.revision, none, none⟩)
      else .ok t
    | none => .ok t

end Operations

/-! ## The stores -/

/-- `AlarmStore`, with the state passed explicitly, and with the order in which
`claim_due` scans it. -/
structure AlarmStore (K S : Type) where
  get : S → K → Option Int
  update : S → K → Option Int → Except String S
  claimDue : S → Int → Int → Nat → List K → Except String (List (ClaimedAlarm K)) × S
  finish : S → ClaimedAlarm K → Except String S

section Stores

variable {K R : Type} [DecidableEq K]

/-- `MemoryAlarmStore`. -/
def memoryAlarmStore : AlarmStore K (Table K Nat) where
  get := Table.get
  update := Table.update memoryRevisions
  claimDue := Table.claimDue memoryRevisions
  finish := Table.finish memoryRevisions

/-- The table of alarms in a database. -/
abbrev AlarmRows (K R : Type) := KeyedTable K (Alarm R)

/-- `timestamp_ms <= now AND (queued_at_ms IS NULL OR queued_at_ms <= expired)`;
a comparison with `NULL` does not hold. -/
def Alarm.isDue (alarm : Alarm R) (now expiredBefore : Int) : Bool :=
  alarm.timestampMs.any (· ≤ now) && alarm.queuedAtMs.all (· ≤ expiredBefore)

/-- `SELECT ... WHERE ... ORDER BY timestamp_ms LIMIT ...`: the keys. -/
def selectDue (t : AlarmRows K R) (now expiredBefore : Int) (limit : Nat) (order : List K) :
    List K :=
  let scanned := order.filterMap fun actor => (t.row actor).map fun alarm => (actor, alarm)
  let due := scanned.filter fun row => row.2.isDue now expiredBefore
  ((due.insertionSort fun x y => x.2.timestampMs.getD 0 ≤ y.2.timestampMs.getD 0).take limit).map
    Prod.fst

/-- `UPDATE ... SET queued_at_ms = now` of the selected rows. -/
def setQueued (t : AlarmRows K R) (now : Int) (selected : List K) : AlarmRows K R :=
  t.update (fun actor _ => actor ∈ selected) fun alarm => { alarm with queuedAtMs := some now }

/-- `UPDATE ... SET timestamp_ms = NULL, queued_at_ms = NULL` of the row with this
key and revision. -/
def setFinished [DecidableEq R] (t : AlarmRows K R) (actor : K) (revision : R) : AlarmRows K R :=
  t.update (fun actor' alarm => actor' = actor ∧ alarm.revision = revision)
    fun alarm => { alarm with timestampMs := none, queuedAtMs := none }

/-- The rows that `RETURNING` lists, in the order of the table. -/
def returning (t : AlarmRows K R) (selected : List K) : List (K × Alarm R) :=
  t.rows.filter fun row => row.1 ∈ selected

/-- `SqliteAlarmStore`.  The rows are updated also when a revision among them
cannot be read. -/
def sqliteAlarmStore : AlarmStore K (AlarmRows K SqliteValue) where
  get t actor := (t.row actor).bind (·.timestampMs)
  update t actor timestampMs :=
    t.upsert actor ⟨.integer 1, timestampMs, none⟩ fun alarm =>
      .ok ⟨alarm.revision.succ, timestampMs, none⟩
  claimDue t now expiredBefore limit order :=
    if limit < 2 ^ 63 then
      let rowids := selectDue t now expiredBefore limit order
      let t' := setQueued t now rowids
      ((returning t' rowids).mapM fun row =>
        row.2.revision.read.map fun revision => ⟨row.1, revision⟩, t')
    else (.error "alarm batch size overflow", t)
  finish t alarm :=
    if alarm.revision < 2 ^ 63 then .ok (setFinished t alarm.actor (.integer alarm.revision))
    else .error "alarm revision overflow"

/-- `PostgresAlarmStore`. -/
def postgresAlarmStore : AlarmStore K (AlarmRows K Nat) where
  get t actor := (t.row actor).bind (·.timestampMs)
  update t actor timestampMs :=
    t.upsert actor ⟨1, timestampMs, none⟩ fun alarm =>
      if alarm.revision + 1 < 2 ^ 63 then .ok ⟨alarm.revision + 1, timestampMs, none⟩
      else .error "bigint out of range"
  claimDue t now expiredBefore limit order :=
    if limit < 2 ^ 63 then
      let due := selectDue t now expiredBefore limit order
      let t' := setQueued t now due
      (.ok ((returning t' due).map fun row => ⟨row.1, row.2.revision⟩), t')
    else (.error "alarm batch size overflow", t)
  finish t alarm :=
    if alarm.revision < 2 ^ 63 then .ok (setFinished t alarm.actor alarm.revision)
    else .error "alarm revision overflow"

end Stores

/-! ## Pollers -/

/-- `QUEUED_TIMEOUT`, in milliseconds. -/
def queuedTimeoutMs : Nat := 300000

/-- A store with the alarms that pollers are delivering, and the log of claims. -/
structure World (K S : Type) where
  alarms : S
  inFlight : List (ClaimedAlarm K)
  claims : List (ClaimedAlarm K × Nat)

/-- A call of a store at a reading of the clock. -/
inductive Action (K : Type)
  | update (actor : K) (timestampMs : Option Int)
  /-- A poller with `limit` free slots claims at its reading of the clock. -/
  | claim (now limit : Nat) (order : List K)
  /-- The delivery has succeeded, or failed for good. -/
  | finish (i : Nat)
  /-- Access is disabled, or the poller is gone: nothing is finished. -/
  | abandon (i : Nat)
deriving DecidableEq, Repr

variable {K S : Type} [DecidableEq K]

def step (store : AlarmStore K S) (w : World K S) : Action K → Option (World K S)
  | .update actor timestampMs =>
    match store.update w.alarms actor timestampMs with
    | .ok alarms => some { w with alarms := alarms }
    | .error _ => some w
  | .claim now limit order =>
    -- a scan visits a row once
    if ¬ order.Nodup then none
    -- no slot is free, or the clock overflows
    else if limit = 0 ∨ 2 ^ 63 ≤ now then some w
    else
      match store.claimDue w.alarms now ((now : Int) - queuedTimeoutMs) limit order with
      | (.ok claims, alarms) => some
          { alarms := alarms
            inFlight := w.inFlight ++ claims
            claims := w.claims ++ claims.map fun claim => (claim, now) }
      | (.error _, alarms) => some { w with alarms := alarms }
  | .finish i =>
    match w.inFlight[i]? with
    | some alarm =>
      match store.finish w.alarms alarm with
      | .ok alarms => some { w with alarms := alarms, inFlight := w.inFlight.eraseIdx i }
      | .error _ => some { w with inFlight := w.inFlight.eraseIdx i }
    | none => none
  | .abandon i =>
    if i < w.inFlight.length then some { w with inFlight := w.inFlight.eraseIdx i } else none

end DurableActors.Ports.Alarms
