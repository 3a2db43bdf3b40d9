import Mathlib.Data.List.Nodup

/-!
# Tables with a primary key

A table is a list of rows in which no key occurs twice.  The statements that
programs run on it, `INSERT ... ON CONFLICT DO UPDATE` and `UPDATE ... WHERE`,
are known by what they do to the row of each key.
-/

namespace DurableActors.Verified

/-- A table with at most one row for a key. -/
structure KeyedTable (K V : Type) where
  rows : List (K × V)
  key : (rows.map Prod.fst).Nodup

namespace KeyedTable

variable {K V : Type} [DecidableEq K] {t t' : KeyedTable K V} {k : K} {v : V}

def empty : KeyedTable K V := ⟨[], List.nodup_nil⟩

/-- The row with this key. -/
def row (t : KeyedTable K V) (k : K) : Option V := t.rows.lookup k

/-- The row of a key is the one in the table. -/
theorem row_eq_some : t.row k = some v ↔ (k, v) ∈ t.rows := by
  obtain ⟨rows, hkey⟩ := t
  show rows.lookup k = some v ↔ (k, v) ∈ rows
  induction rows with
  | nil => simp
  | cons r rows ih =>
    obtain ⟨hhead, hrest⟩ := List.nodup_cons.mp hkey
    obtain ⟨k', v'⟩ := r
    rw [List.mem_cons, Prod.mk.injEq]
    by_cases hk : k = k'
    · subst hk
      have hout : (k, v) ∉ rows := fun hmem => hhead (List.mem_map.mpr ⟨_, hmem, rfl⟩)
      rw [List.lookup_cons_self, Option.some.injEq, or_iff_left hout]
      exact ⟨fun h => ⟨rfl, h.symm⟩, fun h => h.2.symm⟩
    · rw [List.lookup_cons, beq_false_of_ne hk, or_iff_right fun h => hk h.1]
      exact ih hrest

theorem row_eq_none : t.row k = none ↔ k ∉ t.rows.map Prod.fst := by
  rw [Option.eq_none_iff_forall_ne_some, List.mem_map]
  constructor
  · rintro h ⟨r, hr, rfl⟩
    exact h r.2 (row_eq_some.mpr hr)
  · intro h v hv
    exact h ⟨(k, v), row_eq_some.mp hv, rfl⟩

/-- `UPDATE ... SET ... WHERE`. -/
def update (t : KeyedTable K V) (p : K → V → Bool) (f : V → V) : KeyedTable K V where
  rows := t.rows.map fun r => (r.1, if p r.1 r.2 = true then f r.2 else r.2)
  key := by
    rw [List.map_map]
    exact t.key

theorem row_update (t : KeyedTable K V) (p : K → V → Bool) (f : V → V) (k : K) :
    (t.update p f).row k = (t.row k).map fun v => if p k v = true then f v else v := by
  cases hrow : t.row k with
  | none =>
    rw [row_eq_none] at hrow
    rw [Option.map_none, row_eq_none]
    show k ∉ (t.rows.map _).map Prod.fst
    rw [List.map_map]
    exact hrow
  | some v =>
    rw [Option.map_some, row_eq_some]
    exact List.mem_map.mpr ⟨(k, v), row_eq_some.mp hrow, rfl⟩

/-- An update that leaves the row of each key leaves the table. -/
theorem update_eq_self {p : K → V → Bool} {f : V → V} (h : (t.update p f).row = t.row) :
    t.update p f = t := by
  obtain ⟨rows, hkey⟩ := t
  have hrows : rows.map (fun r => (r.1, if p r.1 r.2 = true then f r.2 else r.2)) = rows := by
    conv_rhs => rw [← List.map_id rows]
    apply List.map_congr_left
    intro r hr
    have hrow : KeyedTable.row ⟨rows, hkey⟩ r.1 = some r.2 := row_eq_some.mpr hr
    have hsame := congrFun h r.1
    rw [row_update, hrow, Option.map_some, Option.some.injEq] at hsame
    exact Prod.ext rfl hsame
  simp only [update, hrows]

/-- The row a statement inserts has a new key. -/
def insert (t : KeyedTable K V) (k : K) (v : V) (h : t.row k = none) : KeyedTable K V where
  rows := t.rows ++ [(k, v)]
  key := by
    rw [List.map_append, List.nodup_append']
    refine ⟨t.key, List.nodup_singleton k, fun k' hk' hmem => ?_⟩
    obtain rfl := List.mem_singleton.mp hmem
    exact row_eq_none.mp h hk'

theorem row_insert (h : t.row k = none) (k' : K) :
    (t.insert k v h).row k' = if k' = k then some v else t.row k' := by
  show (t.rows ++ [(k, v)]).lookup k' = _
  rw [List.lookup_append]
  by_cases hk : k' = k
  · subst hk
    rw [if_pos rfl, show t.rows.lookup k' = none from h, Option.none_or, List.lookup_cons_self]
  · rw [if_neg hk, List.lookup_cons, beq_false_of_ne hk, List.lookup_nil, Option.or_none]
    rfl

/-- `INSERT ... ON CONFLICT DO UPDATE`, whose assignment can fail. -/
def upsert (t : KeyedTable K V) (k : K) (inserted : V) (conflict : V → Except String V) :
    Except String (KeyedTable K V) :=
  match h : t.row k with
  | none => .ok (t.insert k inserted h)
  | some v => (conflict v).map fun v' => t.update (fun k' _ => k' = k) fun _ => v'

theorem upsert_of_none {inserted : V} {conflict : V → Except String V} (h : t.row k = none) :
    t.upsert k inserted conflict = .ok (t.insert k inserted h) := by
  unfold upsert
  split
  · rfl
  · rename_i v hv
    cases h.symm.trans hv

theorem upsert_of_some {inserted : V} {conflict : V → Except String V} (h : t.row k = some v) :
    t.upsert k inserted conflict =
      (conflict v).map fun v' => t.update (fun k' _ => k' = k) fun _ => v' := by
  unfold upsert
  split
  · rename_i hnone
    cases h.symm.trans hnone
  · rename_i v' hv'
    cases h.symm.trans hv'
    rfl

end KeyedTable

end DurableActors.Verified
