import DurableActors.Ports.SqliteSnapshot
import Mathlib.Data.List.Sort

/-!
# Capturing the local database

`SqliteCapture` and `collect_ltx_files` of `litestream/storage.rs`.  Litestream
writes LTX files into a replica directory next to the local database; a capture
takes those after the last captured transaction.  A full copy (level 9) may take
the place of the files it covers.

The directory is given as the files whose names parse, in any order.
-/

namespace DurableActors.Ports.Sqlite

open Verified
open Verified.Checked

/-! ## The replica directory -/

/-- The order of `sort_by_key` on `(first, last)`. -/
def LtxFile.Before (f g : LtxFile) : Prop :=
  f.first < g.first ∨ (f.first = g.first ∧ f.last ≤ g.last)

instance : DecidableRel LtxFile.Before := fun f g =>
  inferInstanceAs (Decidable (f.first < g.first ∨ (f.first = g.first ∧ f.last ≤ g.last)))

/-- `read_ltx_files`.  Only the last full copy is read. -/
def readLtxFiles (directory : List LtxFile) (after level through : Nat) : List LtxFile :=
  let files := (directory.filter fun file =>
    file.level = level ∧ 0 < file.first ∧ file.first ≤ file.last ∧
      file.last ≤ through ∧ after < file.last).insertionSort LtxFile.Before
  if level = 9 then files.drop (files.length - 1) else files

/-- The loop of `collect_ltx_files` over the files of level 0. -/
def collectFrom : Nat → List LtxFile → List LtxFile → Checked (Nat × List LtxFile)
  | next, files, [] => .ok (next, files)
  | next, files, file :: rest =>
    if file.last < next then collectFrom next files rest
    else do
      ensure (file.first = next) "Litestream capture has a transaction gap"
      let next ← ofOption "Litestream transaction overflow" (checkedAdd file.last 1)
      collectFrom next (files ++ [file]) rest

/-- `collect_ltx_files`. -/
def collectLtxFiles (directory : List LtxFile) (after through : Nat) :
    Checked (List LtxFile) := do
  let checkpoint := (readLtxFiles directory after 9 through).find? fun file => after < file.last
  let start := checkpoint.elim (after + 1) fun file => file.last + 1
  let (next, files) ← collectFrom start checkpoint.toList (readLtxFiles directory after 0 through)
  let stop ← ofOption "Litestream transaction overflow" (checkedAdd through 1)
  ensure (next = stop) "Litestream has not replicated the actor commit"
  return files

/-! ## The capture -/

/-- `SqliteCapture`. -/
structure SqliteCapture where
  txid : Nat
  published : Nat
deriving DecidableEq, Repr

/-- `SqliteCapture::open`: the position that Litestream returns. -/
def SqliteCapture.open (position : Nat) : SqliteCapture := ⟨position, position⟩

/-- `SqliteCapture::capture`. -/
def SqliteCapture.capture (c : SqliteCapture) (directory : List LtxFile) (txid : Nat) :
    Checked (List LtxFile × SqliteCapture) := do
  ensure (c.txid ≤ txid) "SQLite transaction went backwards"
  let files ← collectLtxFiles directory c.published txid
  return (files, ⟨txid, txid⟩)

/-! ## What is captured -/

theorem level_of_mem_readLtxFiles {directory : List LtxFile} {after level through : Nat}
    {file : LtxFile} (h : file ∈ readLtxFiles directory after level through) :
    file.level = level := by
  unfold readLtxFiles at h
  have hsorted : ∀ {files : List LtxFile} {n : Nat}, file ∈ files.drop n → file ∈ files :=
    fun h => List.mem_of_mem_drop h
  dsimp only at h
  split at h
  · have h := (List.mem_insertionSort _).mp (hsorted h)
    exact (of_decide_eq_true (List.mem_filter.mp h).2).1
  · have h := (List.mem_insertionSort _).mp h
    exact (of_decide_eq_true (List.mem_filter.mp h).2).1

/-- The loop keeps the files it has and starts at the next transaction. -/
theorem collectFrom_head {next next' : Nat} {files rest files' : List LtxFile}
    (h : collectFrom next files rest = .ok (next', files')) :
    (files' = [] ∧ files = []) ∨ (files'.head? = files.head? ∧ files ≠ []) ∨
      ∃ file, files = [] ∧ files'.head? = some file ∧ file.first = next := by
  induction rest generalizing next files with
  | nil =>
    obtain ⟨rfl, rfl⟩ := Prod.mk.inj (Except.ok.inj h)
    by_cases hempty : files = []
    · exact .inl ⟨hempty, hempty⟩
    · exact .inr (.inl ⟨rfl, hempty⟩)
  | cons file rest ih =>
    rw [collectFrom] at h
    split at h
    · exact ih h
    · obtain ⟨_, hfirst, h⟩ := bind_eq_ok.mp h
      obtain ⟨stop, -, h⟩ := bind_eq_ok.mp h
      have hfirst : file.first = next := of_decide_eq_true (ensure_eq_ok.mp hfirst)
      have hhead : files'.head? = (files ++ [file]).head? := by
        rcases ih h with ⟨-, hnil⟩ | ⟨hhead, -⟩ | ⟨_, hnil, -⟩
        · exact absurd hnil (by simp)
        · exact hhead
        · exact absurd hnil (by simp)
      cases files with
      | nil => exact .inr (.inr ⟨file, rfl, hhead, hfirst⟩)
      | cons f files => exact .inr (.inl ⟨hhead, by simp⟩)

/-- A capture starts right after the last one, or with a full copy. -/
theorem collectLtxFiles_head {directory files : List LtxFile} {after through : Nat}
    {file : LtxFile} (h : collectLtxFiles directory after through = .ok files)
    (hhead : files.head? = some file) : file.first = after + 1 ∨ file.level = 9 := by
  unfold collectLtxFiles at h
  obtain ⟨⟨next, files'⟩, hloop, h⟩ := bind_eq_ok.mp h
  obtain ⟨stop, -, h⟩ := bind_eq_ok.mp h
  obtain ⟨_, -, h⟩ := bind_eq_ok.mp h
  obtain rfl : files' = files := Except.ok.inj h
  cases hcheckpoint : (readLtxFiles directory after 9 through).find?
      fun file => after < file.last with
  | none =>
    rw [hcheckpoint] at hloop
    rcases collectFrom_head hloop with ⟨hnil, -⟩ | ⟨-, hne⟩ | ⟨f, -, hf, hfirst⟩
    · rw [hnil] at hhead
      cases hhead
    · exact absurd rfl hne
    · rw [hf] at hhead
      obtain rfl := Option.some.inj hhead
      exact .inl hfirst
  | some copy =>
    rw [hcheckpoint] at hloop
    have hlevel : copy.level = 9 :=
      level_of_mem_readLtxFiles (List.mem_of_find?_eq_some hcheckpoint)
    rcases collectFrom_head hloop with ⟨-, hnil⟩ | ⟨hf, -⟩ | ⟨_, hnil, -⟩
    · cases hnil
    · rw [hf] at hhead
      obtain rfl := Option.some.inj hhead
      exact .inr hlevel
    · cases hnil

/-- What a successful capture returns. -/
theorem SqliteCapture.capture_eq_ok {c c' : SqliteCapture} {directory files : List LtxFile}
    {txid : Nat} (h : c.capture directory txid = .ok (files, c')) :
    c.txid ≤ txid ∧ c' = ⟨txid, txid⟩ ∧
      ∀ file, files.head? = some file → file.first = c.published + 1 ∨ file.level = 9 := by
  unfold SqliteCapture.capture at h
  obtain ⟨_, hforward, h⟩ := bind_eq_ok.mp h
  obtain ⟨files', hcollect, h⟩ := bind_eq_ok.mp h
  obtain ⟨rfl, rfl⟩ := Prod.mk.inj (Except.ok.inj h)
  exact ⟨of_decide_eq_true (ensure_eq_ok.mp hforward), rfl,
    fun file hhead => collectLtxFiles_head hcollect hhead⟩

end DurableActors.Ports.Sqlite
