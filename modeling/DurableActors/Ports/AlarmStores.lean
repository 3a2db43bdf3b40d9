import DurableActors.Ports.Alarms
import DurableActors.Verified.Checked

/-!
# What the stores do to the alarms

`Implements` says what the calls of a store do, in terms of the alarms by actor:
they are those of a map whose revisions are kept in a certain way, except that a
store may refuse a limit that is no `i64`, and may return the claims in another
order.  The memory store is such a map.  For the SQLite and Postgres stores it
follows from what their statements do to the row of each actor.
-/

namespace DurableActors.Ports.Alarms

open Verified

variable {K R : Type} {ρ : Revisions R}
variable {expiredBefore now : Int} {actor : K} {claim : ClaimedAlarm K} {chosen order : List K}
  {t t' : Table K R}

/-! ## The alarms by actor -/

theorem Alarm.due_eq_some {alarm : Alarm R} {due : Int}
    (h : alarm.due now expiredBefore = some due) :
    alarm.timestampMs = some due ∧ due ≤ now ∧
      ∀ queued, alarm.queuedAtMs = some queued → queued ≤ expiredBefore := by
  revert h
  fun_cases Alarm.due alarm now expiredBefore with
  | case1 timestamp htimestamp hdue =>
    rintro ⟨⟩
    refine ⟨htimestamp, hdue.1, fun queued hqueued => ?_⟩
    have hexpired := hdue.2
    rw [hqueued, Option.all_some, decide_eq_true_eq] at hexpired
    exact hexpired
  | _ => nofun

theorem Table.mem_due {entry : Int × K} :
    entry ∈ t.due now expiredBefore order ↔ entry.2 ∈ order ∧
      ∃ alarm, t entry.2 = some alarm ∧ alarm.due now expiredBefore = some entry.1 := by
  simp only [Table.due, List.mem_filterMap, Option.map_eq_some_iff, Option.bind_eq_some_iff]
  constructor
  · rintro ⟨actor, hactor, due, ⟨alarm, halarm, hdue⟩, rfl⟩
    exact ⟨hactor, alarm, halarm, hdue⟩
  · rintro ⟨hactor, alarm, halarm, hdue⟩
    exact ⟨entry.2, hactor, entry.1, ⟨alarm, halarm, hdue⟩, rfl⟩

/-- Only due alarms are claimed. -/
theorem Table.due_of_mem_chosen {limit : Nat} (h : actor ∈ t.chosen now expiredBefore limit order) :
    actor ∈ order ∧ ∃ alarm due, t actor = some alarm ∧ alarm.due now expiredBefore = some due := by
  obtain ⟨entry, hentry, rfl⟩ := List.mem_map.mp h
  have hmem := List.mem_of_mem_take hentry
  rw [List.mem_insertionSort, Table.mem_due] at hmem
  obtain ⟨horder, alarm, halarm, hdue⟩ := hmem
  exact ⟨horder, alarm, entry.1, halarm, hdue⟩

theorem Table.due_actors_sublist (t : Table K R) (now expiredBefore : Int) (order : List K) :
    List.Sublist ((t.due now expiredBefore order).map (·.2)) order := by
  induction order with
  | nil => exact List.Sublist.slnil
  | cons actor order ih =>
    rw [Table.due, List.filterMap_cons]
    cases (t actor).bind fun alarm => alarm.due now expiredBefore with
    | none => exact ih.cons actor
    | some due => exact ih.cons_cons actor

theorem Table.nodup_chosen {limit : Nat} (horder : order.Nodup) :
    (t.chosen now expiredBefore limit order).Nodup := by
  have hdue : ((t.due now expiredBefore order).map (·.2)).Nodup :=
    horder.sublist (t.due_actors_sublist now expiredBefore order)
  have hsorted := ((List.perm_insertionSort (fun x y : Int × K => x.1 ≤ y.1)
    (t.due now expiredBefore order)).map (·.2)).nodup_iff.mpr hdue
  exact hsorted.sublist ((List.take_sublist limit _).map _)

theorem Table.claimed_eq_ok (h : t.claimed ρ actor = .ok claim) :
    claim.actor = actor ∧
      ∃ alarm, t actor = some alarm ∧ ρ.read alarm.revision = .ok claim.revision := by
  revert h
  fun_cases Table.claimed ρ t actor with
  | case1 alarm halarm revision hread =>
    rintro ⟨⟩
    exact ⟨rfl, alarm, halarm, hread⟩
  | _ => nofun

theorem Table.claimed_of_read {alarm : Alarm R} {revision : Nat} (halarm : t actor = some alarm)
    (hread : ρ.read alarm.revision = .ok revision) : t.claimed ρ actor = .ok ⟨actor, revision⟩ := by
  rw [Table.claimed, halarm]
  dsimp only
  rw [hread]

/-- A successful claim names the chosen actors. -/
theorem Table.actors_of_claims {claims : List (ClaimedAlarm K)}
    (h : chosen.mapM (t.claimed ρ) = .ok claims) : claims.map (·.actor) = chosen := by
  have hpairs := Checked.mapM_eq_ok.mp h
  clear h
  induction hpairs with
  | nil => rfl
  | cons hhead _ ih => rw [List.map_cons, ih, (Table.claimed_eq_ok hhead).1]

variable [DecidableEq K]

@[simp] theorem Table.set_self (t : Table K R) (actor : K) (alarm : Alarm R) :
    t.set actor alarm actor = some alarm := if_pos rfl

theorem Table.set_ne (t : Table K R) {a : K} (alarm : Alarm R) (h : a ≠ actor) :
    t.set actor alarm a = t a := if_neg h

theorem Table.update_eq_ok {timestampMs : Option Int} (h : t.update ρ actor timestampMs = .ok t') :
    ∃ revision, t' = t.set actor ⟨revision, timestampMs, none⟩ ∧
      ∀ alarm, t actor = some alarm → ρ.next alarm.revision = .ok revision := by
  revert h
  fun_cases Table.update ρ t actor timestampMs with
  | case1 alarm halarm revision hrevision =>
    rintro ⟨⟩
    refine ⟨revision, rfl, fun other hother => ?_⟩
    cases halarm.symm.trans hother
    exact hrevision
  | case2 => nofun
  | case3 hnone =>
    rintro ⟨⟩
    exact ⟨ρ.first, rfl, fun alarm halarm => nomatch hnone.symm.trans halarm⟩

theorem Table.queue_of_mem {alarm : Alarm R} (hactor : actor ∈ chosen)
    (halarm : t actor = some alarm) :
    t.queue now chosen actor = some { alarm with queuedAtMs := some now } := by
  rw [Table.queue, if_pos hactor, halarm]
  rfl

theorem Table.queue_of_not_mem (hactor : actor ∉ chosen) :
    t.queue now chosen actor = t actor := if_neg hactor

variable [DecidableEq R]

theorem Table.finish_eq_ok {alarm : ClaimedAlarm K} (h : t.finish ρ alarm = .ok t') :
    t' = t ∨ ∃ current, t alarm.actor = some current ∧
      ρ.write alarm.revision = .ok current.revision ∧
        t' = t.set alarm.actor ⟨current.revision, none, none⟩ := by
  revert h
  fun_cases Table.finish ρ t alarm with
  | case1 => nofun
  | case2 current hcurrent hwrite =>
    rintro ⟨⟩
    exact .inr ⟨current, hcurrent, hwrite, rfl⟩
  | case3 | case4 =>
    rintro ⟨⟩
    exact .inl rfl

/-! ## Stores -/

/-- What `claimDue` returns and leaves: the claims are those of the chosen
actors, in some order. -/
structure Claims (ρ : Revisions R) (t : Table K R) (now expiredBefore : Int) (limit : Nat)
    (order : List K) (result : Except String (List (ClaimedAlarm K))) (t' : Table K R) : Prop where
  table : t' = t.queue now (t.chosen now expiredBefore limit order)
  claims : ∃ chosen : List K,
    (∀ actor, actor ∈ chosen ↔ actor ∈ t.chosen now expiredBefore limit order) ∧
      (order.Nodup → chosen.Nodup) ∧ result = chosen.mapM (t.claimed ρ)

/-- The store keeps the alarms `table s` in its state `s`. -/
structure Implements {S : Type} (store : AlarmStore K S) (table : S → Table K R)
    (ρ : Revisions R) : Prop where
  get_eq : ∀ s actor, store.get s actor = (table s).get actor
  update_eq : ∀ s actor timestampMs,
    (store.update s actor timestampMs).map table = (table s).update ρ actor timestampMs
  claimDue : ∀ s now expiredBefore limit order,
    Claims ρ (table s) now expiredBefore limit order
      (store.claimDue s now expiredBefore limit order).1
      (table (store.claimDue s now expiredBefore limit order).2) ∨
    2 ^ 63 ≤ limit ∧
      ∃ message, store.claimDue s now expiredBefore limit order = (.error message, s)
  finish_eq : ∀ s claim, (store.finish s claim).map table = (table s).finish ρ claim
  finish_kept : ∀ {s s' : S} {claim : ClaimedAlarm K},
    store.finish s claim = .ok s' → table s' = table s → s' = s

theorem memoryAlarmStore_implements :
    Implements (memoryAlarmStore : AlarmStore K (Table K Nat)) id memoryRevisions where
  get_eq _ _ := rfl
  update_eq _ _ _ := congrFun Except.map_id _
  claimDue _ _ _ _ _ := .inl ⟨rfl, _, fun _ => Iff.rfl, Table.nodup_chosen, rfl⟩
  finish_eq _ _ := congrFun Except.map_id _
  finish_kept _ h := h

/-! ## The statements -/

omit [DecidableEq K] [DecidableEq R] in
theorem Alarm.due_eq (alarm : Alarm R) (now expiredBefore : Int) :
    alarm.due now expiredBefore =
      if alarm.isDue now expiredBefore = true then some (alarm.timestampMs.getD 0) else none := by
  unfold Alarm.due Alarm.isDue
  cases alarm.timestampMs with
  | none => rfl
  | some due => simp [Option.any_some]

omit [DecidableEq R] in
/-- The statement selects the actors that the map would choose. -/
theorem selectDue_eq (t : AlarmRows K R) (now expiredBefore : Int) (limit : Nat)
    (order : List K) : selectDue t now expiredBefore limit order =
      Table.chosen t.row now expiredBefore limit order := by
  let entry (row : K × Alarm R) : Int × K := (row.2.timestampMs.getD 0, row.1)
  have hdue : ((order.filterMap fun actor => (t.row actor).map fun alarm => (actor, alarm)).filter
      fun row => row.2.isDue now expiredBefore).map entry =
        Table.due t.row now expiredBefore order := by
    induction order with
    | nil => rfl
    | cons actor order ih =>
      rw [Table.due, List.filterMap_cons, List.filterMap_cons]
      cases t.row actor with
      | none => exact ih
      | some alarm =>
        rw [Option.map_some, Option.bind_some, Alarm.due_eq]
        dsimp only
        rw [List.filter_cons]
        by_cases hdue : alarm.isDue now expiredBefore = true
        · rw [if_pos hdue, if_pos hdue, List.map_cons, ih]
          rfl
        · rw [if_neg hdue, if_neg hdue]
          exact ih
  unfold selectDue Table.chosen
  rw [← hdue, ← List.map_insertionSort _ _ entry _ fun _ _ _ _ => Iff.rfl, ← List.map_take,
    List.map_map]
  rfl

omit [DecidableEq R] in
theorem row_setQueued (t : AlarmRows K R) (now : Int) (selected : List K) :
    (setQueued t now selected).row = Table.queue t.row now selected := by
  funext actor
  rw [setQueued, KeyedTable.row_update, Table.queue]
  by_cases hactor : actor ∈ selected
  · simp [hactor]
  · simp [hactor]

omit [DecidableEq R] in
/-- `INSERT ... ON CONFLICT DO UPDATE` is the update of the map. -/
theorem upsert_eq (t : AlarmRows K R) (actor : K) (timestampMs : Option Int)
    {conflict : Alarm R → Except String (Alarm R)} (hconflict : ∀ alarm, conflict alarm =
      (ρ.next alarm.revision).map fun revision => ⟨revision, timestampMs, none⟩) :
    (t.upsert actor ⟨ρ.first, timestampMs, none⟩ conflict).map KeyedTable.row =
      Table.update ρ t.row actor timestampMs := by
  unfold Table.update
  cases hrow : t.row actor with
  | none =>
    rw [KeyedTable.upsert_of_none hrow]
    exact congrArg Except.ok (funext (KeyedTable.row_insert hrow))
  | some alarm =>
    rw [KeyedTable.upsert_of_some hrow, hconflict]
    dsimp only
    cases ρ.next alarm.revision with
    | error message => rfl
    | ok revision =>
      refine congrArg Except.ok (funext fun actor' => ?_)
      rw [KeyedTable.row_update, Table.set]
      by_cases hactor : actor' = actor
      · simp [hactor, hrow]
      · simp [hactor]

/-- `finish` of the map, for a revision that can be written. -/
theorem row_setFinished (t : AlarmRows K R) {revision : R}
    (hwrite : ρ.write claim.revision = .ok revision) :
    Table.finish ρ t.row claim = .ok (setFinished t claim.actor revision).row := by
  have hset : (setFinished t claim.actor revision).row = fun actor => (t.row actor).map fun alarm =>
      if actor = claim.actor ∧ alarm.revision = revision then
        { alarm with timestampMs := none, queuedAtMs := none } else alarm := by
    funext actor
    rw [setFinished, KeyedTable.row_update]
    simp only [decide_eq_true_eq]
  rw [hset, Table.finish, hwrite]
  dsimp only
  split
  · rename_i current hcurrent
    split
    · rename_i hrevision
      refine congrArg Except.ok (funext fun actor => ?_)
      rw [Table.set]
      by_cases hactor : actor = claim.actor
      · simp [hactor, hcurrent, hrevision]
      · simp [hactor]
    · rename_i hrevision
      refine congrArg Except.ok (funext fun actor => ?_)
      by_cases hactor : actor = claim.actor
      · simp [hactor, hcurrent, hrevision]
      · simp [hactor]
  · rename_i hnone
    refine congrArg Except.ok (funext fun actor => ?_)
    by_cases hactor : actor = claim.actor
    · simp [hactor, hnone]
    · simp [hactor]

omit [DecidableEq R] in
/-- The rows that a claim returns are those of the chosen actors. -/
theorem claims_returning (t : AlarmRows K R) (now expiredBefore : Int) (limit : Nat)
    (order : List K) : let selected := selectDue t now expiredBefore limit order
    Claims ρ t.row now expiredBefore limit order
      ((returning (setQueued t now selected) selected).mapM fun row =>
        (ρ.read row.2.revision).map fun revision => ⟨row.1, revision⟩)
      (setQueued t now selected).row := by
  intro selected
  have hselected : selected = Table.chosen t.row now expiredBefore limit order :=
    selectDue_eq t now expiredBefore limit order
  have hrow : (setQueued t now selected).row = Table.queue t.row now selected :=
    row_setQueued t now selected
  refine ⟨by rw [hrow, hselected], (returning (setQueued t now selected) selected).map Prod.fst,
    fun actor => ?_, fun _ => ?_, ?_⟩
  · rw [← hselected]
    constructor
    · intro hactor
      obtain ⟨row, hmem, rfl⟩ := List.mem_map.mp hactor
      simpa using (List.mem_filter.mp hmem).2
    · intro hactor
      obtain ⟨-, alarm, -, halarm, -⟩ := Table.due_of_mem_chosen (hselected ▸ hactor)
      have hqueued := (congrFun hrow actor).trans (Table.queue_of_mem hactor halarm)
      exact List.mem_map.mpr ⟨_, List.mem_filter.mpr
        ⟨KeyedTable.row_eq_some.mp hqueued, by simpa using hactor⟩, rfl⟩
  · exact (setQueued t now selected).key.sublist (List.filter_sublist.map _)
  · apply Checked.mapM_congr
    rw [List.forall₂_map_right_iff, List.forall₂_same]
    intro row hmem
    obtain ⟨hmem, hactor⟩ := List.mem_filter.mp hmem
    have hactor : row.1 ∈ selected := by simpa using hactor
    obtain ⟨-, alarm, -, halarm, -⟩ := Table.due_of_mem_chosen (hselected ▸ hactor)
    have hqueued := KeyedTable.row_eq_some.mpr hmem
    rw [hrow, Table.queue_of_mem hactor halarm] at hqueued
    rw [← Option.some.inj hqueued, Table.claimed, halarm]
    dsimp only
    cases ρ.read alarm.revision with
    | error => rfl
    | ok => rfl

theorem setFinished_eq_self {t : AlarmRows K R} {revision : R}
    (h : (setFinished t actor revision).row = t.row) : setFinished t actor revision = t :=
  KeyedTable.update_eq_self h

/-- The SQL of the SQLite store implements the table. -/
theorem sqliteAlarmStore_implements :
    Implements (sqliteAlarmStore : AlarmStore K _) KeyedTable.row sqliteRevisions where
  get_eq _ _ := rfl
  update_eq t actor timestampMs := upsert_eq (ρ := sqliteRevisions) t actor timestampMs fun _ => rfl
  claimDue t now expiredBefore limit order := by
    by_cases hlimit : limit < 2 ^ 63
    · simp only [sqliteAlarmStore, if_pos hlimit]
      exact .inl (claims_returning (ρ := sqliteRevisions) t now expiredBefore limit order)
    · exact .inr ⟨Nat.le_of_not_lt hlimit, _, if_neg hlimit⟩
  finish_eq t claim := by
    by_cases hrevision : claim.revision < 2 ^ 63
    · rw [row_setFinished t (ρ := sqliteRevisions) (if_pos hrevision)]
      simp only [sqliteAlarmStore, if_pos hrevision]
      rfl
    · simp only [sqliteAlarmStore, Table.finish, sqliteRevisions, if_neg hrevision]
      rfl
  finish_kept {t t' claim} hfinish hkept := by
    simp only [sqliteAlarmStore] at hfinish
    split at hfinish
    · cases hfinish
      exact setFinished_eq_self hkept
    · cases hfinish

/-- The SQL of the Postgres store implements the table. -/
theorem postgresAlarmStore_implements :
    Implements (postgresAlarmStore : AlarmStore K _) KeyedTable.row postgresRevisions where
  get_eq _ _ := rfl
  update_eq t actor timestampMs := by
    refine upsert_eq (ρ := postgresRevisions) t actor timestampMs fun alarm => ?_
    simp only [postgresRevisions]
    split <;> rfl
  claimDue t now expiredBefore limit order := by
    by_cases hlimit : limit < 2 ^ 63
    · have hclaims := claims_returning (ρ := postgresRevisions) t now expiredBefore limit order
      have hread : ∀ rows : List (K × Alarm Nat), (rows.mapM fun row =>
          (postgresRevisions.read row.2.revision).map fun revision =>
            (⟨row.1, revision⟩ : ClaimedAlarm K)) =
          .ok (rows.map fun row => ⟨row.1, row.2.revision⟩) := by
        intro rows
        rw [Checked.mapM_eq_ok, List.forall₂_map_right_iff, List.forall₂_same]
        exact fun _ _ => rfl
      simp only [hread] at hclaims
      simp only [postgresAlarmStore, if_pos hlimit]
      exact .inl hclaims
    · exact .inr ⟨Nat.le_of_not_lt hlimit, _, if_neg hlimit⟩
  finish_eq t claim := by
    by_cases hrevision : claim.revision < 2 ^ 63
    · rw [row_setFinished t (ρ := postgresRevisions) (if_pos hrevision)]
      simp only [postgresAlarmStore, if_pos hrevision]
      rfl
    · simp only [postgresAlarmStore, Table.finish, postgresRevisions, if_neg hrevision]
      rfl
  finish_kept {t t' claim} hfinish hkept := by
    simp only [postgresAlarmStore] at hfinish
    split at hfinish
    · cases hfinish
      exact setFinished_eq_self hkept
    · cases hfinish

end DurableActors.Ports.Alarms
