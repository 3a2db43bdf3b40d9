import DurableActors.Ports.TransactionIsolation

/-!
# Rollback of `db.transaction` calls

Sequential programs: every call is awaited, so the running calls form a stack
and only the innermost one acts.  Here a statement may also make SQLite roll
the whole transaction back.  The proxy does not notice at once: its depth
stays, and statements that follow run in autocommit mode (`Broken`).

A nested call that ends in that state finds its savepoint gone, forgets all
depths and restores every field.  An outermost call does not: its `ROLLBACK` is
skipped, and the values it compares with were read after SQLite had rolled back.
-/

namespace DurableActors.Ports.Transactions

open Verified
open Verified.Savepoints (Connection Mark Numbered)

variable {k : Nat} {rest stack : List Nat}

/-! ## Sequential programs -/

section

variable (w : Worker)

/-- The latest running call. -/
def Worker.innermost : Option Nat :=
  (List.range w.calls.length).reverse.find? fun k =>
    (w.calls[k]?).any fun call => call.status = .running

/-- Only the latest running call acts, and an invocation ends when there is
none. -/
def Sequential : Action → Prop
  | .exec context _ _ => context = w.innermost
  | .begin context => context = w.innermost
  | .settle k _ _ => w.innermost = some k
  | .commit => w.innermost = none
  | .rollback => w.innermost = none

/-- SQLite has rolled back the transaction the proxy believes to be in. -/
def Broken : Prop := 0 < w.depth ∧ w.sqlite.marks = []

/-- An assigned value is its own JSON clone. -/
def Statement.Cloned : Statement → Prop
  | .sql _ => True
  | .assign _ value image => value = image

/-- The condition on a step: nothing takes effect in a transaction that SQLite
has rolled back, an assigned value is one that JSON keeps, and SQLite rolls back an
outermost transaction only while every field still has the value stored before it. -/
def Recoverable : Action → Prop
  | .exec _ statement .ok => ¬Broken w ∧ statement.Cloned
  | .exec _ _ .rolledBack =>
    w.depth ≠ 1 ∨ ∀ m ∈ w.sqlite.marks.getLast?, ∀ f ∈ w.names,
      w.memory f = stored m.saved f
  | .begin _ => ¬Broken w
  | _ => True

instance (action : Action) : Decidable (Sequential w action) :=
  match action with
  | .exec .. | .begin _ | .settle .. | .commit | .rollback => inferInstanceAs (Decidable (_ = _))

instance : Decidable (Broken w) := inferInstanceAs (Decidable (_ ∧ _))

instance (statement : Statement) : Decidable statement.Cloned := by
  cases statement <;> unfold Statement.Cloned <;> infer_instance

instance (action : Action) : Decidable (Recoverable w action) := by
  unfold Recoverable
  split
  all_goals infer_instance

/-- The fields in memory are the stored ones. -/
def Worker.InMemory : Prop :=
  ∀ f ∈ w.names, w.memory f = stored w.sqlite.current f

end

/-! ## The stack of running calls -/

/-- The running calls, innermost first: each is one deeper than the next and
lies inside it. -/
def Running (calls : List Call) : List Nat → Prop
  | [] => True
  | k :: rest =>
    (∃ call, calls[k]? = some call ∧ call.depth = rest.length + 1 ∧
      call.scope = k :: rest ∧ call.status = .running) ∧
    (∀ j ∈ rest, j < k) ∧ Running calls rest

/-- These are all running calls. -/
def Complete (calls : List Call) (stack : List Nat) : Prop :=
  ∀ (k : Nat) (call : Call), calls[k]? = some call → call.status = .running → k ∈ stack

/-- The innermost running call is the top of the stack. -/
theorem innermost_eq {w : Worker} (h : Running w.calls stack)
    (hall : Complete w.calls stack) : w.innermost = stack.head? := by
  have hmem : ∀ k, (w.calls[k]?).any (fun call => call.status = .running) = true →
      k ∈ stack := by
    intro k hk
    cases hcall : w.calls[k]? with
    | none =>
      rw [hcall] at hk
      cases hk
    | some call =>
      rw [hcall] at hk
      exact hall k call hcall (of_decide_eq_true hk)
  unfold Worker.innermost
  cases stack with
  | nil =>
    apply List.find?_eq_none.mpr
    intro k _ hk
    exact absurd (hmem k hk) (by simp)
  | cons k rest =>
    obtain ⟨⟨call, hcall, -, -, hrun⟩, hlt, -⟩ := h
    have hk : k < w.calls.length := (List.getElem?_eq_some_iff.mp hcall).1
    have hsplit : (List.range w.calls.length).reverse =
        (List.range' (k + 1) (w.calls.length - (k + 1))).reverse ++
          k :: (List.range k).reverse := by
      have hrange : List.range w.calls.length =
          List.range (k + 1) ++ List.range' (k + 1) (w.calls.length - (k + 1)) := by
        have happend := List.range'_append_1 (s := 0) (m := k + 1)
          (n := w.calls.length - (k + 1))
        rw [Nat.zero_add, Nat.add_sub_cancel' hk] at happend
        rw [List.range_eq_range', List.range_eq_range', happend]
      rw [hrange, List.reverse_append, List.range_succ, List.reverse_append]
      rfl
    rw [hsplit, List.find?_append]
    have hnone : (List.range' (k + 1) (w.calls.length - (k + 1))).reverse.find?
        (fun k => (w.calls[k]?).any fun call => call.status = .running) = none := by
      apply List.find?_eq_none.mpr
      intro j hj hrunning
      rw [List.mem_reverse, List.mem_range'_1] at hj
      rcases List.mem_cons.mp (hmem j hrunning) with rfl | hmem
      · omega
      · have := hlt j hmem
        omega
    rw [hnone, List.find?_cons_of_pos (by simp [hcall, hrun])]
    rfl

theorem Running.later {calls calls' : List Call} {k : Option Nat} (h : Later calls calls' k)
    (hk : ∀ j, k = some j → j ∉ stack) (hrun : Running calls stack) : Running calls' stack := by
  induction stack with
  | nil => trivial
  | cons j rest ih =>
    obtain ⟨⟨call, hcall, hdepth, hscope, hstatus⟩, hlt, hrest⟩ := hrun
    obtain ⟨call', hcall', hdepth', hscope', hkeep⟩ := h.kept j call hcall
    refine ⟨⟨call', hcall', hdepth'.trans hdepth, hscope'.trans hscope, ?_⟩, hlt, ?_⟩
    · rw [hkeep fun hkj => hk j hkj List.mem_cons_self, hstatus]
    · exact ih (fun i hi hmem => hk i hi (List.mem_cons_of_mem _ hmem)) hrest

theorem Running.lt_length {calls : List Call} (h : Running calls stack) (hk : k ∈ stack) :
    k < calls.length := by
  induction stack with
  | nil => simp at hk
  | cons j rest ih =>
    rcases List.mem_cons.mp hk with rfl | hk
    · obtain ⟨⟨call, hcall, -⟩, -⟩ := h
      exact (List.getElem?_eq_some_iff.mp hcall).1
    · exact ih h.2.2 hk

/-! ## The invariant -/

/-- Apart from its depth, a sequential worker is as isolated as any other.
Either its depth is right and its fields are the stored ones (while the calls
around a nested one that has recovered still run, the depth is zero), or SQLite
has rolled back and the innermost call has not ended yet. -/
structure SequentialInv (w : Worker) (stack : List Nat) : Prop where
  base : Inv { w with depth := w.sqlite.marks.length }
  running : Running w.calls stack
  complete : Complete w.calls stack
  mode : w.depth = w.sqlite.marks.length ∧ w.InMemory ∧
      (w.sqlite.marks.map Mark.tag = stack ∨ w.depth = 0) ∨
    w.sqlite.marks = [] ∧ 0 < w.depth ∧ w.depth = stack.length ∧
      (w.depth = 1 → w.InMemory)

/-- The invariant of isolation does not look at the fields. -/
theorem Inv.congr {w w' : Worker} (h : Inv w) (hdepth : w'.depth = w'.sqlite.marks.length)
    (hsqlite : w'.sqlite = w.sqlite) (hcalls : w'.calls = w.calls)
    (hevents : w'.events = w.events) : Inv w' := by
  refine ⟨hdepth, hsqlite ▸ h.numbered, ?_, ?_, ?_, ?_⟩
  · rw [hsqlite, hcalls]
    exact h.stack
  · rw [hsqlite, hcalls]
    exact h.content
  · rw [hcalls]
    exact h.callDepth
  · rw [hevents]
    intro e he
    have hlater : Later w.calls w'.calls none := hcalls ▸ Later.refl w.calls
    exact hlater.isolated (h.events e he)

/-- Without a transaction there is nothing to roll back. -/
theorem finishRollback_autocommit {c : Connection Nat (List Write)} (hnil : c.marks = []) :
    finishRollback c = c := by
  rw [finishRollback, Connection.rollback, hnil]
  rfl

section

variable {w : Worker} {stack : List Nat} (hinv : SequentialInv w stack)
include hinv

theorem SequentialInv.synced (hdepth : w.depth = w.sqlite.marks.length) : Inv w :=
  hinv.base.congr hdepth rfl rfl rfl

/-- The acting context is the innermost call. -/
theorem SequentialInv.context {caller : Option Nat} (hcaller : caller = w.innermost) :
    caller = stack.head? ∧ w.context caller = some (stack.length, stack) := by
  rw [innermost_eq hinv.running hinv.complete] at hcaller
  refine ⟨hcaller, ?_⟩
  subst hcaller
  cases hstack : stack with
  | nil => rfl
  | cons k rest =>
    have hrun := hinv.running
    rw [hstack] at hrun
    obtain ⟨⟨call, hcall, hdepth, hscope, -⟩, -⟩ := hrun
    simp [Worker.context, hcall, hdepth, hscope]

/-- In a worker whose depth is right, the innermost call owns its frame or has
lost its depth. -/
theorem SequentialInv.owns (htags : w.sqlite.marks.map Mark.tag = stack ∨ w.depth = 0) :
    OwnsFrame w (.begin stack.head?) := by
  cases hstack : stack with
  | nil => trivial
  | cons k rest =>
    rcases htags with htags | hzero
    · left
      show k ∈ w.sqlite.marks.map Mark.tag
      rw [htags, hstack]
      exact List.mem_cons_self
    · right
      intro call hcall
      have := hinv.base.callDepth k call hcall
      omega

/-! ## Statements -/

omit hinv in
theorem InMemory.exec (hmem : w.InMemory) (scope : List Nat) {statement : Statement}
    (hcloned : statement.Cloned) : ∀ f ∈ w.names, statement.memory w.memory f =
      stored (w.sqlite.current ++ [⟨scope, statement⟩]) f := by
  intro f hf
  rw [stored_append]
  cases statement with
  | sql text => exact hmem f hf
  | assign field value image =>
    have hsame : value = image := hcloned
    by_cases heq : f = field
    · subst heq hsame
      simp [Statement.fields, Statement.memory]
    · simp only [Statement.fields, Statement.memory, Function.update_of_ne heq]
      exact hmem f hf

/-- A statement of the innermost call. -/
theorem SequentialInv.exec {caller : Option Nat} (hcaller : caller = w.innermost)
    {statement : Statement} {outcome : Outcome}
    (hC : Recoverable w (.exec caller statement outcome)) :
    SequentialInv (w.exec caller stack.length stack statement outcome) stack := by
  obtain ⟨hhead, hcontext⟩ := hinv.context hcaller
  unfold Worker.exec
  split
  · exact hinv
  · rename_i haccess
    have haccess : stack.length = w.depth := not_not.mp haccess
    cases outcome with
    | ok =>
      rcases hinv.mode with ⟨hsync, hmem, htags⟩ | ⟨hnil, hpos, -, -⟩
      · have hI := hinv.synced hsync
        have hok : Outcome.ok ≠ .rolledBack := by simp
        have hI' := hI.exec hcontext (hhead ▸ hinv.owns htags) statement hok
        unfold Worker.exec at hI'
        rw [if_neg (not_not.mpr haccess)] at hI'
        exact ⟨hI'.congr rfl rfl rfl rfl, hinv.running, hinv.complete,
          .inl ⟨hsync, InMemory.exec hmem stack hC.2, htags⟩⟩
      · exact absurd ⟨hpos, hnil⟩ hC.1
    | failed => exact hinv
    | rolledBack =>
      cases hlast : w.sqlite.marks.getLast? with
      | none =>
        dsimp only
        rw [finishRollback_autocommit (List.getLast?_eq_none_iff.mp hlast)]
        exact hinv
      | some m =>
        have hafter : finishRollback w.sqlite = ⟨m.saved, []⟩ := by
          rw [finishRollback, Connection.rollback, hlast]
          rfl
        have hne : w.sqlite.marks ≠ [] := by
          rintro hnil
          rw [hnil] at hlast
          cases hlast
        rcases hinv.mode with ⟨hsync, hmem, htags⟩ | ⟨hnil, -⟩
        · have hpos : 0 < w.depth := by
            rw [hsync]
            exact List.length_pos_of_ne_nil hne
          have hI := (hinv.synced hsync).rollback
          unfold Worker.rollback at hI
          rw [hafter] at hI
          dsimp only
          rw [hafter]
          refine ⟨hI.congr rfl rfl rfl rfl, hinv.running, hinv.complete,
            .inr ⟨rfl, hpos, haccess.symm, fun hone => ?_⟩⟩
          rcases hC with hne1 | hsaved
          · exact absurd hone hne1
          · exact hsaved m hlast
        · exact absurd hnil hne

/-- A nested call of the innermost one. -/
theorem SequentialInv.begin {caller : Option Nat} (hcaller : caller = w.innermost)
    (hC : ¬Broken w) : ∃ stack', SequentialInv (w.begin stack.length stack) stack' := by
  obtain ⟨hhead, hcontext⟩ := hinv.context hcaller
  by_cases haccess : stack.length = w.depth
  · rcases hinv.mode with ⟨hsync, hmem, htags⟩ | ⟨hnil, hpos, -, -⟩
    · have hI := hinv.synced hsync
      have hI' := hI.begin hcontext (hhead ▸ hinv.owns htags)
      have hstack : w.sqlite.marks.map Mark.tag = stack := by
        rcases htags with h | hzero
        · exact h
        · -- at depth zero nothing is running
          have hnil : stack = [] := List.eq_nil_of_length_eq_zero (by omega)
          have hmarks : w.sqlite.marks = [] :=
            List.eq_nil_of_length_eq_zero (by omega)
          rw [hnil, hmarks]
          rfl
      obtain ⟨name, -, hbegin⟩ := begin_eq hI haccess stack
      rw [hbegin] at hI' ⊢
      have hlater := Later.append w.calls
        [⟨w.depth + 1, w.calls.length :: stack, .running⟩]
      refine ⟨w.calls.length :: stack, hI'.congr rfl rfl rfl rfl,
        ⟨⟨⟨w.depth + 1, w.calls.length :: stack, .running⟩, ?_, ?_, rfl, rfl⟩,
          fun j hj => hinv.running.lt_length hj,
          hinv.running.later hlater (by simp)⟩, ?_, .inl ⟨?_, hmem, .inl ?_⟩⟩
      · show (w.calls ++ _)[w.calls.length]? = _
        rw [List.getElem?_append_right (Nat.le_refl _), Nat.sub_self]
        rfl
      · show w.depth + 1 = stack.length + 1
        omega
      · intro k call hk hrun
        change (w.calls ++ _)[k]? = some call at hk
        rcases Nat.lt_or_ge k w.calls.length with hlt | hge
        · rw [List.getElem?_append_left hlt] at hk
          exact List.mem_cons_of_mem _ (hinv.complete k call hk hrun)
        · have := (List.getElem?_eq_some_iff.mp hk).1
          rw [List.length_append, List.length_singleton] at this
          have : k = w.calls.length := by omega
          rw [this]
          exact List.mem_cons_self
      · show w.depth + 1 = w.sqlite.marks.length + 1
        rw [hsync]
      · show w.calls.length :: w.sqlite.marks.map Mark.tag = _
        rw [hstack]
    · exact absurd ⟨hpos, hnil⟩ hC
  · rw [Worker.begin, if_pos haccess]
    exact ⟨stack, hinv⟩

/-- The call that ends is the innermost one. -/
theorem SequentialInv.head (hk : w.innermost = some k) :
    ∃ rest call, stack = k :: rest ∧ w.calls[k]? = some call ∧ call.status = .running := by
  rw [innermost_eq hinv.running hinv.complete] at hk
  obtain ⟨rest, hstack⟩ := List.head?_eq_some_iff.mp hk
  have hrun := hinv.running
  rw [hstack] at hrun
  obtain ⟨⟨call, hcall, -, -, hstatus⟩, -⟩ := hrun
  exact ⟨rest, call, hstack, hcall, hstatus⟩

/-- An invocation ends outside all transactions. -/
theorem SequentialInv.outside (hnone : w.innermost = none) : w.depth = 0 ∧ w.sqlite.marks = [] := by
  rw [innermost_eq hinv.running hinv.complete] at hnone
  have hstack : stack = [] := List.head?_eq_none_iff.mp hnone
  rcases hinv.mode with ⟨hsync, -, htags⟩ | ⟨hnil, hpos, hlen, -⟩
  · have hmarks : w.sqlite.marks = [] := by
      rcases htags with htags | hzero
      · rw [hstack] at htags
        exact List.map_eq_nil_iff.mp htags
      · exact List.eq_nil_of_length_eq_zero (hsync.symm.trans hzero)
    rw [hmarks] at hsync
    exact ⟨hsync, hmarks⟩
  · rw [hstack] at hlen
    exact absurd hlen (Nat.ne_of_gt hpos)

theorem SequentialInv.commit (hnone : w.innermost = none) : SequentialInv w.commit stack := by
  obtain ⟨hzero, hnil⟩ := hinv.outside hnone
  have hsame : w.sqlite.commit.getD w.sqlite = w.sqlite := by
    rw [Connection.commit, Connection.autocommit, hnil]
    rfl
  rw [Worker.commit, if_neg (by omega), hsame]
  exact hinv

theorem SequentialInv.rollback (hnone : w.innermost = none) : SequentialInv w.rollback stack := by
  obtain ⟨hzero, hnil⟩ := hinv.outside hnone
  rw [Worker.rollback, finishRollback_autocommit hnil, ← hzero]
  exact hinv

/-! ## The end of a call -/

omit hinv in
/-- Restoring all fields makes them the stored ones. -/
theorem restoreFields_all : (w.restoreFields none).InMemory := by
  intro f hf
  exact if_pos ⟨hf, rfl⟩

omit hinv in
/-- Restoring the fields that differ from `written` is enough when they had
the values `written`. -/
theorem restoreFields_written {written : Nat → Option Value}
    (h : ∀ f ∈ w.names, w.memory f = written f) : (w.restoreFields (some written)).InMemory := by
  intro f hf
  show ite _ _ _ = stored w.sqlite.current f
  split
  · rfl
  · rename_i hsame
    rw [h f hf]
    by_contra hne
    exact hsame ⟨hf, decide_eq_true hne⟩

omit hinv in
/-- A rollback that starts from the stored fields ends with them. -/
theorem rollbackTo_inMemory (hmem : w.InMemory) (depth : Nat) : (w.rollbackTo depth).InMemory := by
  unfold Worker.rollbackTo
  split
  · exact restoreFields_written hmem
  · split
    · exact restoreFields_written hmem
    · exact restoreFields_all

omit hinv in
/-- In autocommit mode there is nothing to release and nothing to roll back to. -/
theorem release_autocommit (hnil : w.sqlite.marks = []) (depth : Nat)
    (resolved done : Bool) : w.release depth resolved done = none := by
  unfold Worker.release
  split
  · split
    · rw [Connection.commit, Connection.autocommit, hnil]
      rfl
    · rw [Connection.release, Connection.find, hnil]
      rfl
  · rfl

omit hinv in
/-- A nested call that finds its savepoint gone restores every field. -/
theorem rollbackTo_autocommit (hnil : w.sqlite.marks = []) (depth : Nat) :
    (w.rollbackTo depth).sqlite = w.sqlite ∧
      (depth ≠ 1 → (w.rollbackTo depth).depth = 0 ∧ (w.rollbackTo depth).InMemory) := by
  have hsame := finishRollback_autocommit hnil
  have hfind : w.sqlite.rollbackTo depth = none := by
    rw [Connection.rollbackTo, Connection.find, hnil]
    rfl
  unfold Worker.rollbackTo
  split
  · exact ⟨hsame, fun h => absurd ‹_› h⟩
  · rw [hfind]
    exact ⟨hsame, fun _ => ⟨rfl, restoreFields_all⟩⟩

end

/-- What is left of the stack of running calls when the innermost one ends. -/
theorem Running.settle {w : Worker} (h : Running w.calls (k :: rest)) (status : Status) :
    Running (w.setStatus k status) rest := by
  refine h.2.2.later (.setStatus w k status) fun j hj hmem => ?_
  have := h.2.1 j hmem
  have := Option.some.inj hj
  omega

theorem Complete.settle {w : Worker} (h : Complete w.calls (k :: rest)) {status : Status}
    (hstatus : status ≠ .running) : Complete (w.setStatus k status) rest := by
  intro j call hj hrun
  rw [Worker.setStatus, List.getElem?_modify] at hj
  obtain ⟨call', hcall', rfl⟩ := Option.map_eq_some_iff.mp hj
  by_cases hkj : k = j
  · rw [if_pos hkj] at hrun
    exact absurd hrun hstatus
  · rw [if_neg hkj] at hrun
    rcases List.mem_cons.mp (h j call' hcall' hrun) with hjk | hmem
    · exact absurd hjk.symm hkj
    · exact hmem

section

variable {w : Worker} {k : Nat} {rest : List Nat} {call : Call}
  (hinv : SequentialInv w (k :: rest)) (hcall : w.calls[k]? = some call)
include hinv hcall

/-- The innermost call ends in a worker whose depth is right. -/
theorem SequentialInv.settle_synced (hsync : w.depth = w.sqlite.marks.length) (hmem : w.InMemory)
    (htags : w.sqlite.marks.map Mark.tag = k :: rest ∨ w.depth = 0)
    (hrun : call.status = .running) (resolved done : Bool) :
    SequentialInv (w.settle k call resolved done) rest ∧
      (w.settle k call resolved done).InMemory := by
  have hpos := hinv.base.callDepth k call hcall
  have hI := hinv.synced hsync
  have howns : w.Open k ∨ ∀ call, w.calls[k]? = some call → w.depth < call.depth := by
    rcases htags with htags | hzero
    · left
      show k ∈ w.sqlite.marks.map Mark.tag
      rw [htags]
      exact List.mem_cons_self
    · right
      intro call hcall
      have := hinv.base.callDepth k call hcall
      omega
  have hI' := hI.settle hcall hrun howns resolved done
  -- the frame that goes is the innermost one, the call's own
  have htop : w.sqlite.marks.map Mark.tag = k :: rest →
      ∃ m mrest, w.sqlite.marks = m :: mrest ∧ mrest.map Mark.tag = rest ∧
        call.depth = mrest.length + 1 := by
    intro htags
    obtain ⟨m, mrest, hmarks, -, hrest⟩ := List.map_eq_cons_iff.mp htags
    obtain ⟨call', hcall', hdepth, -⟩ := hinv.running.1
    rw [hcall] at hcall'
    obtain rfl := Option.some.inj hcall'
    refine ⟨m, mrest, hmarks, hrest, ?_⟩
    rw [hdepth, ← hrest, List.length_map]
  unfold Worker.settle at hI' ⊢
  cases hrel : w.release call.depth resolved done with
  | some sqlite =>
    rw [hrel] at hI'
    have hguard : w.depth = call.depth := by
      unfold Worker.release at hrel
      split at hrel
      · rename_i h
        exact h.2.1
      · cases hrel
    obtain ⟨m, mrest, hmarks, hrest, hdepth⟩ :=
      htop (htags.resolve_right (by omega))
    rw [hdepth] at hrel
    obtain rfl := release_eq hI.numbered hmarks hrel
    exact ⟨⟨hI'.congr rfl rfl rfl rfl, hinv.running.settle _,
      hinv.complete.settle (by decide), .inl ⟨hI'.depth, hmem, .inl hrest⟩⟩, hmem⟩
  | none =>
    rw [hrel] at hI'
    dsimp only at hI' ⊢
    have hafter : (if call.depth ≤ w.depth then w.rollbackTo call.depth else w).InMemory := by
      split
      · exact rollbackTo_inMemory hmem _
      · exact hmem
    refine ⟨⟨hI'.congr rfl rfl rfl rfl, hinv.running.settle _,
      hinv.complete.settle (by decide), .inl ⟨hI'.depth, hafter, ?_⟩⟩, hafter⟩
    rcases htags with htags | hzero
    · left
      obtain ⟨m, mrest, hmarks, hrest, hdepth⟩ := htop htags
      have hlen : w.depth = mrest.length + 1 := by
        rw [hsync, hmarks]
        rfl
      show (ite _ _ w).sqlite.marks.map Mark.tag = rest
      rw [if_pos (by omega), hdepth,
        (rollbackTo_eq hI.numbered (i := 0) hmarks).1]
      exact hrest
    · right
      rw [if_neg (by omega)]
      show min w.depth _ = 0
      omega

/-- The innermost call ends after SQLite has rolled back. -/
theorem SequentialInv.settle_broken (hnil : w.sqlite.marks = []) (hpos : 0 < w.depth)
    (hlen : w.depth = (k :: rest).length) (hone : w.depth = 1 → w.InMemory)
    (hrun : call.status = .running) (resolved done : Bool) :
    SequentialInv (w.settle k call resolved done) rest ∧
      (w.settle k call resolved done).InMemory := by
  have hdepth : call.depth = w.depth := by
    obtain ⟨call', hcall', hdepth, -⟩ := hinv.running.1
    rw [hcall] at hcall'
    obtain rfl := Option.some.inj hcall'
    rw [hdepth, hlen]
    rfl
  -- with the depth SQLite is at, the call would just reject
  have hI' := hinv.base.settle hcall hrun
    (.inr fun c hc => by
      have := hinv.base.callDepth k c hc
      show w.sqlite.marks.length < c.depth
      rw [hnil]
      exact this) resolved done
  have hlow : ¬call.depth ≤ w.sqlite.marks.length := by
    rw [hnil, hdepth]
    exact Nat.not_le.mpr hpos
  obtain ⟨hsqlite, hrecovers⟩ := rollbackTo_autocommit hnil call.depth
  have hmem : (w.rollbackTo call.depth).InMemory := by
    by_cases h : w.depth = 1
    · exact rollbackTo_inMemory (hone h) _
    · exact (hrecovers (by omega)).2
  have hzero : min (w.rollbackTo call.depth).depth (call.depth - 1) = 0 := by
    by_cases h : w.depth = 1
    · omega
    · have hne : call.depth ≠ 1 := by omega
      have := (hrecovers hne).1
      omega
  unfold Worker.settle at hI' ⊢
  rw [release_autocommit hnil]
  rw [release_autocommit (w := { w with depth := w.sqlite.marks.length }) hnil] at hI'
  dsimp only at hI' ⊢
  rw [if_neg hlow] at hI'
  rw [if_pos (Nat.le_of_eq hdepth)]
  refine ⟨⟨hI'.congr rfl hsqlite rfl ?_, hinv.running.settle _,
    hinv.complete.settle (by decide), .inl ⟨?_, hmem, .inr hzero⟩⟩, hmem⟩
  · show Event.settled k false (w.closed (w.rollbackTo call.depth).sqlite) :: w.events = _
    rw [hsqlite]
    rfl
  · show min _ _ = (w.rollbackTo call.depth).sqlite.marks.length
    rw [hzero, hsqlite, hnil]
    rfl

/-- **When a call ends**, the fields in memory are the stored ones. -/
theorem SequentialInv.settle (hrun : call.status = .running) (resolved done : Bool) :
    SequentialInv (w.settle k call resolved done) rest ∧
      (w.settle k call resolved done).InMemory := by
  rcases hinv.mode with ⟨hsync, hmem, htags⟩ | ⟨hnil, hpos, hlen, hone⟩
  · exact hinv.settle_synced hcall hsync hmem htags hrun resolved done
  · exact hinv.settle_broken hcall hnil hpos hlen hone hrun resolved done

end

/-! ## The result -/

/-- Every step of a sequential worker keeps the stack. -/
theorem SequentialInv.step {w w' : Worker} (hinv : ∃ stack, SequentialInv w stack)
    {action : Action} (hseq : Sequential w action) (hC : Recoverable w action)
    (hstep : Transactions.step w action = some w') : ∃ stack, SequentialInv w' stack := by
  obtain ⟨stack, hinv⟩ := hinv
  cases action with
  | exec caller statement outcome =>
    rw [Transactions.step, (hinv.context hseq).2] at hstep
    obtain rfl := Option.some.inj hstep
    exact ⟨stack, hinv.exec hseq hC⟩
  | begin caller =>
    rw [Transactions.step, (hinv.context hseq).2] at hstep
    obtain rfl := Option.some.inj hstep
    exact hinv.begin hseq hC
  | settle k resolved done =>
    obtain ⟨rest, call, rfl, hcall, hrun⟩ := hinv.head hseq
    rw [Transactions.step, hcall] at hstep
    dsimp only at hstep
    rw [if_pos hrun] at hstep
    obtain rfl := Option.some.inj hstep
    exact ⟨rest, (hinv.settle hcall hrun resolved done).1⟩
  | commit =>
    obtain rfl := Option.some.inj hstep
    exact ⟨stack, hinv.commit hseq⟩
  | rollback =>
    obtain rfl := Option.some.inj hstep
    exact ⟨stack, hinv.rollback hseq⟩

theorem sequentialInv_initial (fields : List (Nat × Option Value)) :
    SequentialInv (Worker.initial fields) [] := by
  refine ⟨(inv_initial fields).congr rfl rfl rfl rfl, trivial, ?_,
    .inl ⟨rfl, fun _ _ => rfl, .inl rfl⟩⟩
  intro k call hcall
  cases hcall

/-- **A rejected call rolls back.**  In every sequential program whose steps
are recoverable, when a call rejects the database holds none of the writes made
inside it, and every persisted field has the stored value in memory. -/
theorem rejected_transaction_rolls_back {fields : List (Nat × Option Value)}
    {actions : List Action} {w w' : Worker} {k : Nat} {resolved done : Bool} {call : Call}
    (hseq : Transition.Guarded step Sequential (Worker.initial fields) actions)
    (hC : Transition.Guarded step Recoverable (Worker.initial fields) actions)
    (hrun : Transition.run step (Worker.initial fields) actions = some w)
    (hinner : Sequential w (.settle k resolved done))
    (hstep : step w (.settle k resolved done) = some w')
    (hcall : w'.calls[k]? = some call) (hrej : call.status = .rejected) :
    (∀ x ∈ w'.sqlite.current, k ∉ x.scope) ∧
      ∀ f ∈ w'.names, w'.memory f = stored w'.sqlite.current f := by
  obtain ⟨stack, hinv⟩ : ∃ stack, SequentialInv w stack :=
    Transition.run_guarded_invariant
      (fun _ _ _ hinv hC hstep => SequentialInv.step hinv hC.1 hC.2 hstep)
      ⟨[], sequentialInv_initial fields⟩ (hseq.and hC) hrun
  obtain ⟨rest, running, rfl, hrunning, hstatus⟩ := hinv.head hinner
  rw [step, hrunning] at hstep
  dsimp only at hstep
  rw [if_pos hstatus] at hstep
  obtain rfl := Option.some.inj hstep
  obtain ⟨hafter, hmem⟩ := hinv.settle hrunning hstatus resolved done
  exact ⟨fun x hx => hafter.base.rejected_writes hcall hrej x hx, hmem⟩

/-- A nested call has assigned a field when SQLite rolls everything back; the
nested call throws, and then the outer one. -/
def nestedWholeRollback : List Action :=
  [.begin none, .exec (some 0) (.assign 0 (some 1) (some 1)) .ok, .begin (some 0),
    .exec (some 1) (.assign 0 (some 2) (some 2)) .ok, .exec (some 1) (.sql 10) .rolledBack]

def nestedWholeRollbackEnd : Worker :=
  Transition.final step (Worker.initial [(0, some 5)]) nestedWholeRollback

def nestedWholeRollbackSettled : Worker :=
  (step nestedWholeRollbackEnd (.settle 1 false true)).getD (Worker.initial [])

theorem rejected_transaction_rolls_back_nested :
    nestedWholeRollbackEnd.memory 0 = some 2 ∧ nestedWholeRollbackSettled.memory 0 = some 5 ∧
    (∀ x ∈ nestedWholeRollbackSettled.sqlite.current, 1 ∉ x.scope) ∧
    ∀ f ∈ nestedWholeRollbackSettled.names, nestedWholeRollbackSettled.memory f =
      stored nestedWholeRollbackSettled.sqlite.current f := by
  have hrun : Transition.run step (Worker.initial [(0, some 5)]) nestedWholeRollback =
      some nestedWholeRollbackEnd := rfl
  have hstep : step nestedWholeRollbackEnd (.settle 1 false true) =
      some nestedWholeRollbackSettled := rfl
  have hcall : nestedWholeRollbackSettled.calls[1]? = some ⟨2, [1, 0], .rejected⟩ := by decide
  have h := rejected_transaction_rolls_back (by decide) (by decide) hrun (by decide) hstep
    hcall rfl
  exact ⟨by decide, by decide, h.1, h.2⟩

/-! ### Effects that stay -/

/-- A field is assigned, a statement makes SQLite roll back, and the operation
throws. -/
def fieldBeforeWholeRollback : List Action :=
  [.begin none, .exec (some 0) (.assign 0 (some 2) (some 2)) .ok,
    .exec (some 0) (.sql 10) .rolledBack, .settle 0 false true]

/-- The operation catches the error of that statement, writes again and then
throws. -/
def writeAfterWholeRollback : List Action :=
  [.begin none, .exec (some 0) (.sql 10) .rolledBack, .exec (some 0) (.sql 11) .ok,
    .settle 0 false true]

/-- A field that is stored as `5` gets a value whose JSON clone is `5` too, and the
operation throws. -/
def unkeptByJson : List Action :=
  [.begin none, .exec (some 0) (.assign 0 (some 7) (some 5)) .ok, .settle 0 false true]

/-- In the first program the field keeps the value that was rolled back, in the second
one the write stays, and in the third one the rollback changes nothing that is stored
and the field keeps its value, though all three calls reject. -/
theorem rejected_transaction_keeps_effects :
    Transition.Guarded step Sequential (Worker.initial [(0, some 5)]) fieldBeforeWholeRollback ∧
    (∃ w, Transition.run step (Worker.initial [(0, some 5)]) fieldBeforeWholeRollback =
        some w ∧ w.calls = [⟨1, [0], .rejected⟩] ∧
      w.memory 0 = some 2 ∧ stored w.sqlite.current 0 = some 5) ∧
    Transition.Guarded step Sequential (Worker.initial []) writeAfterWholeRollback ∧
    (∃ w, Transition.run step (Worker.initial []) writeAfterWholeRollback = some w ∧
      w.calls = [⟨1, [0], .rejected⟩] ∧ w.sqlite.current = [⟨[0], .sql 11⟩]) ∧
    Transition.Guarded step Sequential (Worker.initial [(0, some 5)]) unkeptByJson ∧
    ∃ w, Transition.run step (Worker.initial [(0, some 5)]) unkeptByJson = some w ∧
      w.calls = [⟨1, [0], .rejected⟩] ∧
      w.memory 0 = some 7 ∧ stored w.sqlite.current 0 = some 5 := by
  refine ⟨by decide, ⟨_, rfl, by decide, by decide, by decide⟩, by decide,
    ⟨_, rfl, by decide, by decide⟩, by decide, ⟨_, rfl, by decide, by decide, by decide⟩⟩

end DurableActors.Ports.Transactions
