import DurableActors.Ports.AlarmSafety

/-!
# The three alarm stores agree

`Book` is what an alarm store is for: the alarms by actor, with a revision that
counts the updates.  A claim without a limit takes every alarm that is due, so
it needs no order of rows.

A store that implements a map whose revisions count (`Counts`) refines the book
below the largest `i64`.  The memory, SQLite and Postgres stores, started on one
book, therefore give equal answers whatever order each of them scans its rows in.
-/

namespace DurableActors.Ports.Alarms

open Verified

variable {K R : Type} [DecidableEq K] [DecidableEq R] {ρ : Revisions R}

/-! ## The book of alarms -/

/-- The table that the stores agree with, with revisions that never end. -/
abbrev Book (K : Type) := Table K Nat

namespace Book

def update (b : Book K) (actor : K) (timestampMs : Option Int) : Book K :=
  b.set actor ⟨((b actor).map (·.revision)).getD 0 + 1, timestampMs, none⟩

/-- The claims of every alarm that is due. -/
def claims (b : Book K) (now expiredBefore : Int) : Set (ClaimedAlarm K) :=
  fun claim => ∃ alarm, b claim.actor = some alarm ∧ alarm.revision = claim.revision ∧
    (alarm.due now expiredBefore).isSome

def queue (b : Book K) (now expiredBefore : Int) : Book K := fun actor =>
  (b actor).map fun alarm =>
    if (alarm.due now expiredBefore).isSome then { alarm with queuedAtMs := some now } else alarm

def finish (b : Book K) (claim : ClaimedAlarm K) : Book K := fun actor =>
  (b actor).map fun alarm =>
    if actor = claim.actor ∧ alarm.revision = claim.revision then
      ⟨alarm.revision, none, none⟩
    else alarm

end Book

/-! ## Refinement -/

/-- The revisions count, as far as an `i64` goes. -/
structure Revisions.Counts (ρ : Revisions R) : Prop where
  read_first : ρ.read ρ.first = .ok 1
  next_read : ∀ {x : R} {n : Nat}, ρ.read x = .ok n → n + 1 < 2 ^ 63 →
    ∃ y, ρ.next x = .ok y ∧ ρ.read y = .ok (n + 1)
  write_read : ∀ {x : R} {n : Nat}, ρ.read x = .ok n → n < 2 ^ 63 → ρ.write n = .ok x

theorem memoryRevisions_counts : memoryRevisions.Counts where
  read_first := rfl
  next_read := by
    intro x n hread hn
    cases hread
    exact ⟨x + 1, if_pos (by omega), rfl⟩
  write_read := by
    intro x n hread _
    cases hread
    rfl

theorem sqliteRevisions_counts : sqliteRevisions.Counts where
  read_first := rfl
  next_read := by
    intro x n hread hn
    cases x with
    | real => cases hread
    | integer k =>
      cases hread
      exact ⟨.integer (n + 1), congrArg Except.ok (if_pos hn), rfl⟩
  write_read := by
    intro x n hread hn
    cases x with
    | real => cases hread
    | integer k =>
      cases hread
      exact if_pos hn

theorem postgresRevisions_counts : postgresRevisions.Counts where
  read_first := rfl
  next_read := by
    intro x n hread hn
    cases hread
    exact ⟨x + 1, if_pos hn, rfl⟩
  write_read := by
    intro x n hread hn
    cases hread
    exact if_pos hn

/-- A row holds an alarm of the book. -/
structure RowOf (ρ : Revisions R) (row : Alarm R) (alarm : Alarm Nat) : Prop where
  read : ρ.read row.revision = .ok alarm.revision
  bound : alarm.revision < 2 ^ 63
  timestampMs : row.timestampMs = alarm.timestampMs
  queuedAtMs : row.queuedAtMs = alarm.queuedAtMs

/-- The table holds the book. -/
def Holds (ρ : Revisions R) (t : Table K R) (b : Book K) : Prop :=
  ∀ actor, Option.Rel (RowOf ρ) (t actor) (b actor)

/-- The scan visits every row once. -/
structure Scans (t : Table K R) (order : List K) : Prop where
  nodup : order.Nodup
  complete : ∀ actor, t actor ≠ none → actor ∈ order

omit [DecidableEq K] [DecidableEq R] in
theorem Holds.cases_at {t : Table K R} {b : Book K} (h : Holds ρ t b) (actor : K) :
    (t actor = none ∧ b actor = none) ∨
      ∃ row alarm, t actor = some row ∧ b actor = some alarm ∧ RowOf ρ row alarm := by
  have hrel := h actor
  generalize t actor = row, b actor = alarm at hrel
  cases hrel with
  | none => exact .inl ⟨rfl, rfl⟩
  | some hrow => exact .inr ⟨_, _, rfl, rfl, hrow⟩

omit [DecidableEq R] in
theorem Holds.set {t : Table K R} {b : Book K} (h : Holds ρ t b) (actor : K) {row : Alarm R}
    {alarm : Alarm Nat} (hrow : RowOf ρ row alarm) :
    Holds ρ (t.set actor row) (b.set actor alarm) := by
  intro a
  by_cases ha : a = actor
  · rw [ha, Table.set_self, Table.set_self]
    exact .some hrow
  · rw [Table.set_ne _ _ ha, Table.set_ne _ _ ha]
    exact h a

omit [DecidableEq K] [DecidableEq R] in
theorem Holds.get_eq {t : Table K R} {b : Book K} (h : Holds ρ t b) (actor : K) :
    t.get actor = b.get actor := by
  unfold Table.get
  obtain ⟨ht, hb⟩ | ⟨row, alarm, ht, hb, hrow⟩ := h.cases_at actor
  · rw [ht, hb]
    rfl
  · rw [ht, hb]
    exact hrow.timestampMs

/-- The state after a call, which an error leaves as it was. -/
def after {S : Type} (s : S) : Except String S → S
  | .ok s' => s'
  | .error _ => s

omit [DecidableEq R] in
theorem Holds.update {t : Table K R} {b : Book K} (h : Holds ρ t b) (hρ : ρ.Counts) {actor : K}
    {timestampMs : Option Int}
    (hbound : ∀ alarm, b actor = some alarm → alarm.revision + 1 < 2 ^ 63) :
    Holds ρ (after t (t.update ρ actor timestampMs)) (b.update actor timestampMs) := by
  rw [Table.update, Book.update]
  obtain ⟨ht, hb⟩ | ⟨row, alarm, ht, hb, hrow⟩ := h.cases_at actor
  · rw [ht, hb]
    have hone : (1 : Nat) < 2 ^ 63 := by decide
    exact h.set actor ⟨hρ.read_first, hone, rfl, rfl⟩
  · obtain ⟨revision, hnext, hread⟩ := hρ.next_read hrow.read (hbound alarm hb)
    rw [ht, hb]
    dsimp only
    rw [hnext]
    exact h.set actor ⟨hread, hbound alarm hb, rfl, rfl⟩

theorem Table.after_finish_eq_self {t : Table K R} {claim : ClaimedAlarm K}
    (h : ∀ row, t claim.actor = some row → ρ.write claim.revision ≠ .ok row.revision) :
    after t (t.finish ρ claim) = t := by
  cases hfinish : t.finish ρ claim with
  | error => rfl
  | ok t' =>
    obtain rfl | ⟨row, hrow, hwrite, -⟩ := Table.finish_eq_ok hfinish
    · rfl
    · exact absurd hwrite (h row hrow)

theorem Table.after_finish_eq_set {t : Table K R} {claim : ClaimedAlarm K} {row : Alarm R}
    (hrow : t claim.actor = some row) (hwrite : ρ.write claim.revision = .ok row.revision) :
    after t (t.finish ρ claim) = t.set claim.actor ⟨row.revision, none, none⟩ := by
  rw [Table.finish, hwrite, hrow]
  dsimp only
  rw [if_pos rfl]
  rfl

theorem Book.finish_eq_self {b : Book K} {claim : ClaimedAlarm K}
    (h : ∀ alarm, b claim.actor = some alarm → alarm.revision ≠ claim.revision) :
    b.finish claim = b := by
  funext actor
  unfold Book.finish
  cases halarm : b actor with
  | none => rfl
  | some alarm =>
    rw [Option.map_some, if_neg]
    rintro ⟨rfl, hrevision⟩
    exact h alarm halarm hrevision

theorem Book.finish_eq_set {b : Book K} {claim : ClaimedAlarm K} {alarm : Alarm Nat}
    (halarm : b claim.actor = some alarm) (hrevision : alarm.revision = claim.revision) :
    b.finish claim = b.set claim.actor ⟨alarm.revision, none, none⟩ := by
  funext actor
  by_cases hactor : actor = claim.actor
  · rw [hactor, Table.set_self, Book.finish, halarm, Option.map_some, if_pos ⟨rfl, hrevision⟩]
  · rw [Table.set_ne _ _ hactor, Book.finish]
    cases b actor with
    | none => rfl
    | some other => rw [Option.map_some, if_neg fun h => hactor h.1]

/-- `finish` does to the table what it does to the book. -/
theorem Holds.finish {t : Table K R} {b : Book K} (h : Holds ρ t b) (hρ : ρ.Counts)
    (hlawful : ρ.Lawful) (claim : ClaimedAlarm K) :
    Holds ρ (after t (t.finish ρ claim)) (b.finish claim) := by
  obtain ⟨ht, hb⟩ | ⟨row, alarm, ht, hb, hrow⟩ := h.cases_at claim.actor
  · have hnone : ∀ row, t claim.actor = some row → ρ.write claim.revision ≠ .ok row.revision := by
      intro row hrow
      cases ht.symm.trans hrow
    have hnone' : ∀ alarm, b claim.actor = some alarm → alarm.revision ≠ claim.revision := by
      intro alarm halarm
      cases hb.symm.trans halarm
    rw [Table.after_finish_eq_self hnone, Book.finish_eq_self hnone']
    exact h
  · by_cases hrevision : alarm.revision = claim.revision
    · have hwrite := hρ.write_read hrow.read hrow.bound
      rw [Table.after_finish_eq_set ht (hrevision ▸ hwrite), Book.finish_eq_set hb hrevision]
      exact h.set claim.actor ⟨hrow.read, hrow.bound, rfl, rfl⟩
    · have hother : ∀ row', t claim.actor = some row' →
          ρ.write claim.revision ≠ .ok row'.revision := by
        intro row' hrow' hwrite
        cases ht.symm.trans hrow'
        exact hrevision (Except.ok.inj (hrow.read.symm.trans (hlawful.read_write hwrite)))
      have hother' : ∀ alarm', b claim.actor = some alarm' →
          alarm'.revision ≠ claim.revision := by
        intro alarm' halarm'
        cases hb.symm.trans halarm'
        exact hrevision
      rw [Table.after_finish_eq_self hother, Book.finish_eq_self hother']
      exact h

/-! ## Claims below the limit -/

omit [DecidableEq K] [DecidableEq R] in
theorem RowOf.due_eq {row : Alarm R} {alarm : Alarm Nat} (h : RowOf ρ row alarm)
    (now expiredBefore : Int) : row.due now expiredBefore = alarm.due now expiredBefore := by
  unfold Alarm.due
  rw [h.timestampMs, h.queuedAtMs]

omit [DecidableEq K] [DecidableEq R] in
/-- If the limit is not reached, all alarms that are due are chosen. -/
theorem Table.mem_chosen {t : Table K R} {now expiredBefore : Int} {limit : Nat} {order : List K}
    (hscan : Scans t order) (hlimit : (t.due now expiredBefore order).length ≤ limit) {actor : K} :
    actor ∈ t.chosen now expiredBefore limit order ↔
      ∃ alarm, t actor = some alarm ∧ (alarm.due now expiredBefore).isSome := by
  constructor
  · intro h
    obtain ⟨-, alarm, due, halarm, hdue⟩ := Table.due_of_mem_chosen h
    exact ⟨alarm, halarm, hdue ▸ rfl⟩
  · rintro ⟨alarm, halarm, hdue⟩
    obtain ⟨due, hdue⟩ := Option.isSome_iff_exists.mp hdue
    have horder : actor ∈ order :=
      hscan.complete actor (by rw [halarm]; exact Option.some_ne_none _)
    have hmem : (due, actor) ∈ t.due now expiredBefore order :=
      Table.mem_due.mpr ⟨horder, alarm, halarm, hdue⟩
    unfold Table.chosen
    rw [List.take_of_length_le (by rw [List.length_insertionSort]; exact hlimit)]
    exact List.mem_map.mpr ⟨(due, actor), (List.mem_insertionSort _).mpr hmem, rfl⟩

omit [DecidableEq R] in
/-- The claims mark the table as they mark the book. -/
theorem Holds.queue {t : Table K R} {b : Book K} (h : Holds ρ t b) {now expiredBefore : Int}
    {limit : Nat} {order : List K} (hscan : Scans t order)
    (hlimit : (t.due now expiredBefore order).length ≤ limit) :
    Holds ρ (t.queue now (t.chosen now expiredBefore limit order)) (b.queue now expiredBefore) := by
  intro actor
  unfold Book.queue
  obtain ⟨ht, hb⟩ | ⟨row, alarm, ht, hb, hrow⟩ := h.cases_at actor
  · have hout : actor ∉ t.chosen now expiredBefore limit order := by
      intro hmem
      obtain ⟨alarm, halarm, -⟩ := (Table.mem_chosen hscan hlimit).mp hmem
      rw [ht] at halarm
      cases halarm
    rw [Table.queue_of_not_mem hout, ht, hb]
    exact .none
  · rw [hb, Option.map_some]
    by_cases hdue : (alarm.due now expiredBefore).isSome
    · have hmem := (Table.mem_chosen hscan hlimit).mpr ⟨row, ht, hrow.due_eq .. ▸ hdue⟩
      rw [Table.queue_of_mem hmem ht, if_pos hdue]
      exact .some ⟨hrow.read, hrow.bound, hrow.timestampMs, rfl⟩
    · have hout : actor ∉ t.chosen now expiredBefore limit order := by
        intro hmem
        obtain ⟨row', hrow', hdue'⟩ := (Table.mem_chosen hscan hlimit).mp hmem
        cases ht.symm.trans hrow'
        exact hdue (hrow.due_eq .. ▸ hdue')
      rw [Table.queue_of_not_mem hout, ht, if_neg hdue]
      exact .some hrow

omit [DecidableEq K] [DecidableEq R] in
/-- Below the limit a claim takes the claims of the book. -/
theorem Holds.claims {t : Table K R} {b : Book K} (h : Holds ρ t b) {now expiredBefore : Int}
    {limit : Nat} {order chosen : List K} (hscan : Scans t order)
    (hlimit : (t.due now expiredBefore order).length ≤ limit)
    (hchosen : ∀ actor, actor ∈ chosen ↔ actor ∈ t.chosen now expiredBefore limit order) :
    ∃ claims, chosen.mapM (t.claimed ρ) = .ok claims ∧
      {claim | claim ∈ claims} = b.claims now expiredBefore := by
  have hmem : ∀ {actor}, actor ∈ chosen ↔
      ∃ alarm, t actor = some alarm ∧ (alarm.due now expiredBefore).isSome :=
    (hchosen _).trans (Table.mem_chosen hscan hlimit)
  have hclaimed : ∀ actor ∈ chosen,
      ∃ alarm, b actor = some alarm ∧ (alarm.due now expiredBefore).isSome ∧
        t.claimed ρ actor = .ok ⟨actor, alarm.revision⟩ := by
    intro actor hactor
    obtain ⟨row, hrow, hdue⟩ := hmem.mp hactor
    obtain ⟨ht, -⟩ | ⟨row', alarm, ht, hb, hof⟩ := h.cases_at actor
    · rw [ht] at hrow
      cases hrow
    · cases ht.symm.trans hrow
      exact ⟨alarm, hb, hof.due_eq .. ▸ hdue, Table.claimed_of_read ht hof.read⟩
  obtain ⟨claims, hclaims⟩ := Checked.exists_mapM_eq_ok fun actor hactor =>
    let ⟨alarm, _, _, hok⟩ := hclaimed actor hactor
    ⟨_, hok⟩
  refine ⟨claims, hclaims, Set.ext fun claim => ⟨fun hclaim => ?_, ?_⟩⟩
  · obtain ⟨actor, hactor, hok⟩ := Checked.exists_of_mem_mapM hclaims hclaim
    obtain ⟨alarm, hb, hdue, hok'⟩ := hclaimed actor hactor
    cases hok.symm.trans hok'
    exact ⟨alarm, hb, rfl, hdue⟩
  · rintro ⟨alarm, hb, hrevision, hdue⟩
    obtain ⟨-, hnone⟩ | ⟨row, alarm', ht, hb', hof⟩ := h.cases_at claim.actor
    · rw [hnone] at hb
      cases hb
    · cases hb'.symm.trans hb
      have hactor := hmem.mpr ⟨row, ht, hof.due_eq .. ▸ hdue⟩
      obtain ⟨claim', hclaim', hok⟩ := Checked.exists_mem_of_mapM hclaims hactor
      rw [Table.claimed_of_read ht hof.read, hrevision] at hok
      cases hok
      exact hclaim'

/-! ## Stores -/

section Stores

variable {S : Type} {store : AlarmStore K S} {table : S → Table K R} {s : S} {b : Book K}

omit [DecidableEq K] [DecidableEq R] in
theorem table_after (table : S → Table K R) (s : S) (result : Except String S) :
    table (after s result) = after (table s) (result.map table) := by
  cases result <;> rfl

variable (hstore : Implements store table ρ) (h : Holds ρ (table s) b)
include hstore h

theorem Implements.get_eq_book (actor : K) : store.get s actor = b.get actor :=
  (hstore.get_eq s actor).trans (h.get_eq actor)

theorem Implements.holds_update (hρ : ρ.Counts) {actor : K} (timestampMs : Option Int)
    (hbound : ∀ alarm, b actor = some alarm → alarm.revision + 1 < 2 ^ 63) :
    Holds ρ (table (after s (store.update s actor timestampMs))) (b.update actor timestampMs) := by
  rw [table_after table, hstore.update_eq]
  exact h.update hρ hbound

theorem Implements.holds_finish (hρ : ρ.Counts) (hlawful : ρ.Lawful) (claim : ClaimedAlarm K) :
    Holds ρ (table (after s (store.finish s claim))) (b.finish claim) := by
  rw [table_after table, hstore.finish_eq]
  exact h.finish hρ hlawful claim

/-- A claim below its limit takes the claims of the book. -/
theorem Implements.holds_claimDue {now expiredBefore : Int} {limit : Nat} {order : List K}
    (hfits : limit < 2 ^ 63) (hscan : Scans (table s) order)
    (hlimit : ((table s).due now expiredBefore order).length ≤ limit) :
    Holds ρ (table (store.claimDue s now expiredBefore limit order).2)
        (b.queue now expiredBefore) ∧
      ∃ claims, (store.claimDue s now expiredBefore limit order).1 = .ok claims ∧
        {claim | claim ∈ claims} = b.claims now expiredBefore := by
  obtain hclaims | ⟨hlarge, -⟩ := hstore.claimDue s now expiredBefore limit order
  · obtain ⟨chosen, hchosen, -, hresult⟩ := hclaims.claims
    rw [hclaims.table, hresult]
    exact ⟨h.queue hscan hlimit, h.claims hscan hlimit hchosen⟩
  · exact absurd hfits (Nat.not_lt.mpr hlarge)

end Stores

/-! ## The three stores in step -/

/-- The states of the three stores. -/
structure Tables (K : Type) where
  memory : Table K Nat
  sqlite : AlarmRows K SqliteValue
  postgres : AlarmRows K Nat

/-- The order in which each store scans its rows. -/
structure Orders (K : Type) where
  memory : List K
  sqlite : List K
  postgres : List K

/-- An operation that all stores take. -/
inductive Operation (K : Type)
  | update (actor : K) (timestampMs : Option Int)
  | claimDue (now expiredBefore : Int) (limit : Nat) (orders : Orders K)
  | finish (claim : ClaimedAlarm K)

/-- The limit is an `i64` and not reached: every store scans its rows and finds no
more due than that. -/
structure Unreached (T : Tables K) (now expiredBefore : Int) (limit : Nat) (orders : Orders K) :
    Prop where
  fits : limit < 2 ^ 63
  memory : Scans T.memory orders.memory
  sqlite : Scans T.sqlite.row orders.sqlite
  postgres : Scans T.postgres.row orders.postgres
  memory_due : (T.memory.due now expiredBefore orders.memory).length ≤ limit
  sqlite_due : (Table.due T.sqlite.row now expiredBefore orders.sqlite).length ≤ limit
  postgres_due : (Table.due T.postgres.row now expiredBefore orders.postgres).length ≤ limit

namespace Tables

/-- The operation on all three stores. -/
def apply (T : Tables K) : Operation K → Tables K
  | .update actor timestampMs =>
    { memory := after T.memory (memoryAlarmStore.update T.memory actor timestampMs)
      sqlite := after T.sqlite (sqliteAlarmStore.update T.sqlite actor timestampMs)
      postgres := after T.postgres (postgresAlarmStore.update T.postgres actor timestampMs) }
  | .claimDue now expiredBefore limit orders =>
    { memory := (memoryAlarmStore.claimDue T.memory now expiredBefore limit orders.memory).2
      sqlite := (sqliteAlarmStore.claimDue T.sqlite now expiredBefore limit orders.sqlite).2
      postgres :=
        (postgresAlarmStore.claimDue T.postgres now expiredBefore limit orders.postgres).2 }
  | .finish claim =>
    { memory := after T.memory (memoryAlarmStore.finish T.memory claim)
      sqlite := after T.sqlite (sqliteAlarmStore.finish T.sqlite claim)
      postgres := after T.postgres (postgresAlarmStore.finish T.postgres claim) }

def step (T : Tables K) (operation : Operation K) : Option (Tables K) := some (T.apply operation)

/-- The three stores hold one book. -/
def Equal (T : Tables K) : Prop :=
  ∃ b, Holds memoryRevisions T.memory b ∧ Holds sqliteRevisions T.sqlite.row b ∧
    Holds postgresRevisions T.postgres.row b

/-- No claim reaches its limit, and no alarm is updated at the largest `i64`. -/
def Within (T : Tables K) : Operation K → Prop
  | .update actor _ => ∀ alarm, T.memory actor = some alarm → alarm.revision ≠ 2 ^ 63 - 1
  | .claimDue now expiredBefore limit orders => Unreached T now expiredBefore limit orders
  | .finish _ => True

/-- What the three claim is what the book claims. -/
theorem claims_eq {T : Tables K} {b : Book K} (hmemory : Holds memoryRevisions T.memory b)
    (hsqlite : Holds sqliteRevisions T.sqlite.row b)
    (hpostgres : Holds postgresRevisions T.postgres.row b) {now expiredBefore : Int} {limit : Nat}
    {orders : Orders K} (h : Unreached T now expiredBefore limit orders) :
    (T.apply (.claimDue now expiredBefore limit orders)).Equal ∧ ∃ memory sqlite postgres,
      (memoryAlarmStore.claimDue T.memory now expiredBefore limit orders.memory).1 = .ok memory ∧
      (sqliteAlarmStore.claimDue T.sqlite now expiredBefore limit orders.sqlite).1 = .ok sqlite ∧
      (postgresAlarmStore.claimDue T.postgres now expiredBefore limit orders.postgres).1 =
        .ok postgres ∧ {claim | claim ∈ memory} = {claim | claim ∈ sqlite} ∧
      {claim | claim ∈ sqlite} = {claim | claim ∈ postgres} := by
  obtain ⟨hm, memory, hmemory, hmset⟩ := memoryAlarmStore_implements.holds_claimDue (s := T.memory)
    hmemory h.fits h.memory h.memory_due
  obtain ⟨hs, sqlite, hsqlite, hsset⟩ :=
    sqliteAlarmStore_implements.holds_claimDue hsqlite h.fits h.sqlite h.sqlite_due
  obtain ⟨hp, postgres, hpostgres, hpset⟩ :=
    postgresAlarmStore_implements.holds_claimDue hpostgres h.fits h.postgres h.postgres_due
  exact ⟨⟨_, hm, hs, hp⟩, memory, sqlite, postgres, hmemory, hsqlite, hpostgres,
    hmset.trans hsset.symm, hsset.trans hpset.symm⟩

/-- An operation leaves the three stores with one table. -/
theorem Equal.apply {T : Tables K} (h : T.Equal) {operation : Operation K}
    (hwithin : T.Within operation) : (T.apply operation).Equal := by
  obtain ⟨b, hmemory, hsqlite, hpostgres⟩ := h
  cases operation with
  | update actor timestampMs =>
    have hbound : ∀ alarm, b actor = some alarm → alarm.revision + 1 < 2 ^ 63 := by
      intro alarm halarm
      obtain ⟨-, hnone⟩ | ⟨row, alarm', ht, hb, hrow⟩ := hmemory.cases_at actor
      · rw [hnone] at halarm
        cases halarm
      · cases hb.symm.trans halarm
        have hne := hwithin row ht
        have hread : row.revision = alarm.revision := Except.ok.inj hrow.read
        have hlt := hrow.bound
        omega
    exact ⟨b.update actor timestampMs,
      memoryAlarmStore_implements.holds_update (s := T.memory) hmemory memoryRevisions_counts
        timestampMs hbound,
      sqliteAlarmStore_implements.holds_update hsqlite sqliteRevisions_counts timestampMs hbound,
      postgresAlarmStore_implements.holds_update hpostgres postgresRevisions_counts timestampMs
        hbound⟩
  | claimDue now expiredBefore limit orders =>
    exact (claims_eq hmemory hsqlite hpostgres hwithin).1
  | finish claim =>
    exact ⟨b.finish claim,
      memoryAlarmStore_implements.holds_finish (s := T.memory) hmemory memoryRevisions_counts
        memoryRevisions_lawful claim,
      sqliteAlarmStore_implements.holds_finish hsqlite sqliteRevisions_counts
        sqliteRevisions_lawful claim,
      postgresAlarmStore_implements.holds_finish hpostgres postgresRevisions_counts
        postgresRevisions_lawful claim⟩

theorem Equal.run {T T' : Tables K} (h : T.Equal) {operations : List (Operation K)}
    (hwithin : Transition.Guarded Tables.step Within T operations)
    (hrun : Transition.run Tables.step T operations = some T') : T'.Equal := by
  have hstep : ∀ (T : Tables K) operation T', T.Equal → T.Within operation →
      T.step operation = some T' → T'.Equal := by
    intro T operation T' h hwithin hstep
    rw [← Option.some.inj hstep]
    exact h.apply hwithin
  exact Transition.run_guarded_invariant hstep h hwithin hrun

end Tables

/-- Each of the three stores is safe, and started from equal states they answer
`get` and claim alike as long as no claim reaches its limit, which is an `i64`,
and no alarm is updated at the largest `i64`. -/
theorem alarms_neither_lost_nor_double_claimed :
    Safe (memoryAlarmStore : AlarmStore K _) id memoryRevisions ∧
    Safe (sqliteAlarmStore : AlarmStore K _) KeyedTable.row sqliteRevisions ∧
    Safe (postgresAlarmStore : AlarmStore K _) KeyedTable.row postgresRevisions ∧
    ∀ {T T' : Tables K} {operations : List (Operation K)}, T.Equal →
      Transition.Guarded Tables.step Tables.Within T operations →
      Transition.run Tables.step T operations = some T' →
      (∀ actor, memoryAlarmStore.get T'.memory actor = sqliteAlarmStore.get T'.sqlite actor ∧
        sqliteAlarmStore.get T'.sqlite actor = postgresAlarmStore.get T'.postgres actor) ∧
      ∀ {now expiredBefore : Int} {limit : Nat} {orders : Orders K},
        Unreached T' now expiredBefore limit orders → ∃ memory sqlite postgres,
          (memoryAlarmStore.claimDue T'.memory now expiredBefore limit orders.memory).1 =
            .ok memory ∧
          (sqliteAlarmStore.claimDue T'.sqlite now expiredBefore limit orders.sqlite).1 =
            .ok sqlite ∧
          (postgresAlarmStore.claimDue T'.postgres now expiredBefore limit orders.postgres).1 =
            .ok postgres ∧ {claim | claim ∈ memory} = {claim | claim ∈ sqlite} ∧
          {claim | claim ∈ sqlite} = {claim | claim ∈ postgres} := by
  refine ⟨memoryAlarmStore_implements.safe memoryRevisions_lawful,
    sqliteAlarmStore_implements.safe sqliteRevisions_lawful,
    postgresAlarmStore_implements.safe postgresRevisions_lawful, ?_⟩
  intro T T' operations hequal hwithin hrun
  obtain ⟨b, hmemory, hsqlite, hpostgres⟩ := hequal.run hwithin hrun
  refine ⟨fun actor => ?_, fun hunreached =>
    (Tables.claims_eq hmemory hsqlite hpostgres hunreached).2⟩
  rw [memoryAlarmStore_implements.get_eq_book (s := T'.memory) hmemory,
    sqliteAlarmStore_implements.get_eq_book hsqlite,
    postgresAlarmStore_implements.get_eq_book hpostgres]
  exact ⟨rfl, rfl⟩

/-- Three empty stores. -/
def Tables.empty : Tables Bool := ⟨fun _ => none, .empty, .empty⟩

theorem Tables.empty_equal : Tables.empty.Equal :=
  ⟨fun _ => none, fun _ => .none, fun _ => .none, fun _ => .none⟩

instance (t : Table Bool R) (order : List Bool) : Decidable (Scans t order) :=
  decidable_of_iff (order.Nodup ∧ ∀ actor, t actor ≠ none → actor ∈ order)
    ⟨fun h => ⟨h.1, h.2⟩, fun h => ⟨h.1, h.2⟩⟩

/-- Two actors have alarms at one time, which the stores scan in different
orders.  Both are claimed; one is finished and the other claimed again after the
timeout. -/
def pairOperations : List (Operation Bool) :=
  [.update true (some 5), .update false (some 5),
    .claimDue 10 (-299990) 2 ⟨[true, false], [false, true], [true, false]⟩, .finish ⟨true, 1⟩,
    .claimDue 300010 10 2 ⟨[false, true], [true, false], [true, false]⟩]

theorem alarms_neither_lost_nor_double_claimed_pair :
    ∃ T', Transition.run Tables.step Tables.empty pairOperations = some T' ∧
      sqliteAlarmStore.get T'.sqlite true = none ∧
      memoryAlarmStore.get T'.memory false = some 5 ∧
      sqliteAlarmStore.get T'.sqlite false = postgresAlarmStore.get T'.postgres false := by
  have hwithin : Transition.Guarded Tables.step Tables.Within Tables.empty pairOperations := by
    refine ⟨nofun, fun T hT => ?_⟩
    cases hT
    refine ⟨nofun, fun T hT => ?_⟩
    cases hT
    refine ⟨⟨by decide, by decide, by decide, by decide, by decide, by decide, by decide⟩,
      fun T hT => ?_⟩
    cases hT
    refine ⟨trivial, fun T hT => ?_⟩
    cases hT
    exact ⟨⟨by decide, by decide, by decide, by decide, by decide, by decide, by decide⟩,
      fun _ _ => trivial⟩
  have hget := (alarms_neither_lost_nor_double_claimed.2.2.2 Tables.empty_equal hwithin rfl).1
  exact ⟨_, rfl, by decide, by decide, (hget false).2⟩

/-- Three stores with one alarm at the largest `i64`. -/
def Tables.largest : Tables Unit :=
  { memory := fun _ => some ⟨2 ^ 63 - 1, some 5, none⟩
    sqlite := ⟨[((), ⟨.integer (2 ^ 63 - 1), some 5, none⟩)], List.nodup_singleton _⟩
    postgres := ⟨[((), ⟨2 ^ 63 - 1, some 5, none⟩)], List.nodup_singleton _⟩ }

theorem Tables.largest_equal : Tables.largest.Equal :=
  ⟨fun _ => some ⟨2 ^ 63 - 1, some 5, none⟩, fun _ => .some ⟨rfl, by decide, rfl, rfl⟩,
    fun _ => .some ⟨rfl, by decide, rfl, rfl⟩, fun _ => .some ⟨rfl, by decide, rfl, rfl⟩⟩

/-- Updated there, the memory store has the new time and Postgres keeps the old
one.  A limit that is no `i64` is no limit to the memory store, and an error in
the other two. -/
theorem update_at_largest_revision_differs :
    Tables.largest.Equal ∧
      (∃ T', Transition.run Tables.step Tables.largest [.update () (some 7)] = some T' ∧
        memoryAlarmStore.get T'.memory () = some 7 ∧
        postgresAlarmStore.get T'.postgres () = some 5) ∧
      (memoryAlarmStore.claimDue Tables.largest.memory 10 0 (2 ^ 63) [()]).1 =
        .ok [⟨(), 2 ^ 63 - 1⟩] ∧
      (sqliteAlarmStore.claimDue Tables.largest.sqlite 10 0 (2 ^ 63) [()]).1 =
        .error "alarm batch size overflow" ∧
      (postgresAlarmStore.claimDue Tables.largest.postgres 10 0 (2 ^ 63) [()]).1 =
        .error "alarm batch size overflow" := by
  refine ⟨Tables.largest_equal, ⟨_, rfl, by decide, by decide⟩, ?_, ?_, ?_⟩
  · rfl
  · exact congrArg Prod.fst (if_neg (Nat.lt_irrefl _))
  · exact congrArg Prod.fst (if_neg (Nat.lt_irrefl _))

end DurableActors.Ports.Alarms
