import DurableActors.Ports.Transactions

/-!
# Isolation of `db.transaction` calls

The proxy decides ownership by comparing depths.  That is enough as long as a
continuation of a call whose frame is gone does not come back while a later call
has reached its depth again; `staleWorker` shows what happens then.

The invariant: the proxy's depth is the height of SQLite's stack, the frame at
each depth belongs to a running call of that depth, and the owners of the
frames below it are the calls around that call.  Every write in the database
was made inside calls that have resolved or are still open, and a restore
point never holds a write of its own call.
-/

namespace DurableActors.Ports.Transactions

open Verified
open Verified.Savepoints (Connection Mark Numbered)

variable {depth i j : Nat} {caller k : Option Nat} {m : Mark Nat (List Write)}
  {rest : List (Mark Nat (List Write))}

/-! ## What isolation means -/

section

variable (w : Worker)

/-- The frame of the call is on the stack. -/
def Worker.Open (k : Nat) : Prop := k ∈ w.sqlite.marks.map Mark.tag

instance (k : Nat) : Decidable (w.Open k) := inferInstanceAs (Decidable (k ∈ _))

/-- Call `k` is `o` or one of the calls around it. -/
def Worker.Encloses (k o : Nat) : Prop :=
  ∃ call, w.calls[o]? = some call ∧ k ∈ call.scope

/-- The event respects the owners: a write belongs to the innermost open
transaction; a call that resolves closes exactly its own frame, and a call
that rejects closes only frames it encloses. -/
def Worker.Isolated : Event → Prop
  | .wrote caller innermost => ∀ k, innermost = some k → caller = some k
  | .settled k resolved closed =>
    (∀ o ∈ closed, w.Encloses k o) ∧ (resolved = true → closed = [k])

/-- The condition on a step: a context or a call whose frame is gone does not
come back at a depth that is open again. -/
def OwnsFrame : Action → Prop
  | .exec (some k) _ _ =>
    w.Open k ∨ ∀ call, w.calls[k]? = some call → call.depth ≠ w.depth
  | .begin (some k) => w.Open k ∨ ∀ call, w.calls[k]? = some call → call.depth ≠ w.depth
  | .settle k _ _ => w.Open k ∨ ∀ call, w.calls[k]? = some call → w.depth < call.depth
  | _ => True

instance (action : Action) : Decidable (OwnsFrame w action) := by
  have hall : ∀ (k : Nat) (p : Call → Prop) [DecidablePred p],
      Decidable (∀ call, w.calls[k]? = some call → p call) := fun k p _ =>
    match h : w.calls[k]? with
    | none => .isTrue (by simp)
    | some call => decidable_of_iff (p call) (by simp)
  unfold OwnsFrame
  split
  all_goals infer_instance

/-- The statement does not make SQLite roll the whole transaction back. -/
def Action.keepsTransaction : Action → Bool
  | .exec _ _ .rolledBack => false
  | _ => true

end

/-! ## The invariant -/

/-- The call has resolved. -/
def Resolved (calls : List Call) (k : Nat) : Prop :=
  ∃ call, calls[k]? = some call ∧ call.status = .resolved

/-- The owner of the innermost of these frames: a running call at this depth,
inside the owners of the frames below. -/
def Owns (calls : List Call) (marks : List (Mark Nat (List Write))) (k : Nat) : Prop :=
  ∃ call, calls[k]? = some call ∧ call.depth = marks.length ∧
    call.status = .running ∧ call.scope = marks.map Mark.tag

/-- Every write was made inside resolved calls and owners of these frames. -/
def MadeIn (calls : List Call) (marks : List (Mark Nat (List Write)))
    (writes : List Write) : Prop :=
  ∀ x ∈ writes, ∀ j ∈ x.scope, Resolved calls j ∨ j ∈ marks.map Mark.tag

/-- The stack of frames. -/
def StackInv (calls : List Call) : List (Mark Nat (List Write)) → Prop
  | [] => True
  | m :: rest =>
    Owns calls (m :: rest) m.tag ∧ MadeIn calls rest m.saved ∧ StackInv calls rest

/-- The frames of SQLite are those of running calls, innermost first. -/
structure Inv (w : Worker) : Prop where
  depth : w.depth = w.sqlite.marks.length
  numbered : Numbered w.sqlite.marks
  stack : StackInv w.calls w.sqlite.marks
  content : MadeIn w.calls w.sqlite.marks w.sqlite.current
  callDepth : ∀ (k : Nat) (call : Call), w.calls[k]? = some call → 0 < call.depth
  events : ∀ e ∈ w.events, w.Isolated e

/-! ## The stack -/

section Stack

variable {calls : List Call} {marks : List (Mark Nat (List Write))}

theorem StackInv.drop (h : StackInv calls marks) (n : Nat) : StackInv calls (marks.drop n) := by
  induction n generalizing marks with
  | zero => exact h
  | succ n ih =>
    cases marks with
    | nil => exact h
    | cons m rest => exact ih h.2.2

/-- The frame at a depth, from the stack above it. -/
theorem StackInv.owner (h : StackInv calls marks) {k : Nat} (hk : k ∈ marks.map Mark.tag) :
    ∃ i m rest, marks.drop i = m :: rest ∧ m.tag = k ∧ i ≤ marks.length ∧
      Owns calls (m :: rest) k := by
  induction marks with
  | nil => simp at hk
  | cons m rest ih =>
    rcases List.mem_cons.mp hk with rfl | hk
    · exact ⟨0, m, rest, rfl, rfl, Nat.zero_le _, h.1⟩
    · obtain ⟨i, m', rest', hdrop, htag, hi, howns⟩ := ih h.2.2 hk
      exact ⟨i + 1, m', rest', hdrop, htag, Nat.succ_le_succ hi, howns⟩

/-- An open call at the depth of the stack owns its innermost frame. -/
theorem StackInv.innermost (h : StackInv calls marks) {k : Nat} {call : Call}
    (hk : k ∈ marks.map Mark.tag) (hcall : calls[k]? = some call)
    (hdepth : call.depth = marks.length) :
    ∃ m rest, marks = m :: rest ∧ m.tag = k ∧ call.scope = marks.map Mark.tag := by
  obtain ⟨i, m, rest, hdrop, htag, hi, call', hcall', hdepth', -, hscope⟩ := h.owner hk
  rw [hcall] at hcall'
  obtain rfl := Option.some.inj hcall'
  have hlen := congrArg List.length hdrop
  rw [List.length_drop, ← hdepth', hdepth] at hlen
  have hpos : 0 < marks.length := List.length_pos_of_ne_nil fun hnil => by simp [hnil] at hk
  obtain rfl : i = 0 := by omega
  rw [List.drop_zero] at hdrop
  exact ⟨m, rest, hdrop, htag, by rw [hscope, hdrop]⟩

/-- A call does not own two frames. -/
theorem StackInv.owner_unique (h : StackInv calls (m :: marks)) : m.tag ∉ marks.map Mark.tag := by
  intro hmem
  obtain ⟨call, hcall, hdepth, -⟩ := h.1
  obtain ⟨i, m', rest, hdrop, -, -, call', hcall', hdepth', -⟩ := h.2.2.owner hmem
  rw [hcall] at hcall'
  obtain rfl := Option.some.inj hcall'
  have hlen := congrArg List.length hdrop
  rw [List.length_drop, ← hdepth', hdepth, List.length_cons] at hlen
  omega

/-- A frame's owner is among the calls around the owners of the frames above
it. -/
theorem StackInv.encloses (h : StackInv calls marks) (hdrop : marks.drop i = m :: rest) :
    ∀ o ∈ (marks.take (i + 1)).map Mark.tag,
      ∃ call, calls[o]? = some call ∧ m.tag ∈ call.scope := by
  induction i generalizing marks with
  | zero =>
    rw [List.drop_zero] at hdrop
    subst hdrop
    intro o ho
    obtain rfl : o = m.tag := by simpa using ho
    obtain ⟨call, hcall, -, -, hscope⟩ := h.1
    exact ⟨call, hcall, by simp [hscope]⟩
  | succ i ih =>
    cases marks with
    | nil => simp at hdrop
    | cons x xs =>
      rw [List.drop_succ_cons] at hdrop
      intro o ho
      rw [List.take_succ_cons, List.map_cons, List.mem_cons] at ho
      rcases ho with rfl | ho
      · obtain ⟨call, hcall, -, -, hscope⟩ := h.1
        refine ⟨call, hcall, ?_⟩
        have hm : m ∈ xs := List.mem_of_mem_drop (hdrop ▸ List.mem_cons_self)
        rw [hscope]
        exact List.mem_map_of_mem (List.mem_cons_of_mem _ hm)
      · exact ih h.2.2 hdrop o ho

end Stack

/-! ## Changes of the calls -/

/-- The calls of a later state: the old ones keep their depth and scope, and
the status of all but `k` among them. -/
structure Later (calls calls' : List Call) (k : Option Nat) : Prop where
  kept : ∀ j call, calls[j]? = some call →
    ∃ call', calls'[j]? = some call' ∧ call'.depth = call.depth ∧
      call'.scope = call.scope ∧ (k ≠ some j → call'.status = call.status)

section Later

variable {calls calls' : List Call} {marks : List (Mark Nat (List Write))}

theorem Later.append (calls more : List Call) : Later calls (calls ++ more) none := by
  refine ⟨fun j call hj => ⟨call, ?_, rfl, rfl, fun _ => rfl⟩⟩
  have hlt := (List.getElem?_eq_some_iff.mp hj).1
  rw [List.getElem?_append_left hlt, hj]

theorem Later.setStatus (w : Worker) (k : Nat) (status : Status) :
    Later w.calls (w.setStatus k status) (some k) := by
  refine ⟨fun j call hj => ?_⟩
  rw [Worker.setStatus, List.getElem?_modify, hj]
  by_cases hjk : k = j
  · exact ⟨{ call with status := status }, by simp [hjk], rfl, rfl,
      fun h => absurd (by rw [hjk]) h⟩
  · exact ⟨call, by simp [hjk], rfl, rfl, fun _ => rfl⟩

theorem Later.refl (calls : List Call) : Later calls calls none :=
  ⟨fun _ call hj => ⟨call, hj, rfl, rfl, fun _ => rfl⟩⟩

theorem Later.resolved (h : Later calls calls' k) (hj : k ≠ some j)
    (hres : Resolved calls j) : Resolved calls' j := by
  obtain ⟨call, hcall, hstatus⟩ := hres
  obtain ⟨call', hcall', -, -, hkeep⟩ := h.kept j call hcall
  exact ⟨call', hcall', (hkeep hj).trans hstatus⟩

theorem Later.owns (h : Later calls calls' k) (hj : k ≠ some j)
    (howns : Owns calls marks j) : Owns calls' marks j := by
  obtain ⟨call, hcall, hdepth, hstatus, hscope⟩ := howns
  obtain ⟨call', hcall', hdepth', hscope', hkeep⟩ := h.kept j call hcall
  exact ⟨call', hcall', hdepth'.trans hdepth, (hkeep hj).trans hstatus, hscope'.trans hscope⟩

/-- The calls with writes in the database keep what is known of them, if the
one whose status changes is not resolved and not among the owners. -/
theorem Later.madeIn (h : Later calls calls' k) (hk : ∀ j, k = some j → ¬Resolved calls j)
    {writes : List Write} (hmade : MadeIn calls marks writes) : MadeIn calls' marks writes := by
  intro x hx j hj
  rcases hmade x hx j hj with hres | hopen
  · exact .inl (h.resolved (fun hkj => hk j hkj hres) hres)
  · exact .inr hopen

theorem Later.stack (h : Later calls calls' k)
    (hk : ∀ j, k = some j → ¬Resolved calls j ∧ j ∉ marks.map Mark.tag)
    (hstack : StackInv calls marks) : StackInv calls' marks := by
  induction marks with
  | nil => trivial
  | cons m rest ih =>
    refine ⟨h.owns (fun hkj => ?_) hstack.1,
      h.madeIn (fun j hj => (hk j hj).1) hstack.2.1, ih (fun j hj => ⟨(hk j hj).1, ?_⟩) hstack.2.2⟩
    · exact (hk _ hkj).2 List.mem_cons_self
    · exact fun hmem => (hk j hj).2 (List.mem_cons_of_mem _ hmem)

theorem Later.callDepth (h : Later calls calls' k) (hlen : calls'.length = calls.length)
    (hdepth : ∀ (j : Nat) (call : Call), calls[j]? = some call → 0 < call.depth) :
    ∀ (j : Nat) (call : Call), calls'[j]? = some call → 0 < call.depth := by
  intro j call hj
  have hlt := (List.getElem?_eq_some_iff.mp hj).1
  have hold : calls[j]? = some calls[j] := List.getElem?_eq_getElem (hlen ▸ hlt)
  obtain ⟨call', hcall', hd, -⟩ := h.kept j _ hold
  rw [hj] at hcall'
  obtain rfl := Option.some.inj hcall'
  rw [hd]
  exact hdepth j _ hold

theorem Later.isolated {w w' : Worker} (h : Later w.calls w'.calls k) {e : Event}
    (he : w.Isolated e) : w'.Isolated e := by
  cases e with
  | wrote caller innermost => exact he
  | settled j resolved closed =>
    refine ⟨fun o ho => ?_, he.2⟩
    obtain ⟨call, hcall, hmem⟩ := he.1 o ho
    obtain ⟨call', hcall', -, hscope, -⟩ := h.kept o call hcall
    exact ⟨call', hcall', hscope ▸ hmem⟩

end Later

/-! ## Steps -/

section Steps

variable {w : Worker} (hinv : Inv w)
include hinv

/-- A context that passes the check of the proxy is the innermost one. -/
theorem context_innermost {scope : List Nat} (hcontext : w.context caller = some (depth, scope))
    (howns : OwnsFrame w (.begin caller)) (hdepth : depth = w.depth) :
    scope = w.sqlite.marks.map Mark.tag ∧
      ∀ k, w.sqlite.marks.head?.map Mark.tag = some k → caller = some k := by
  cases caller with
  | none =>
    obtain ⟨rfl, rfl⟩ := Prod.mk.inj (Option.some.inj hcontext)
    have hnil : w.sqlite.marks = [] := by
      apply List.eq_nil_of_length_eq_zero
      rw [← hinv.depth, ← hdepth]
    simp [hnil]
  | some k =>
    obtain ⟨call, hcall, heq⟩ := Option.map_eq_some_iff.mp hcontext
    obtain ⟨rfl, rfl⟩ := Prod.mk.inj heq
    have hopen : w.Open k := by
      rcases howns with h | h
      · exact h
      · exact absurd hdepth (h call hcall)
    obtain ⟨m, rest, hmarks, rfl, hscope⟩ :=
      hinv.stack.innermost hopen hcall (hdepth.trans hinv.depth)
    refine ⟨hscope, fun j hj => ?_⟩
    rw [hmarks] at hj
    exact hj

/-- A statement runs in the frame of its caller. -/
theorem Inv.exec {scope : List Nat} (hcontext : w.context caller = some (depth, scope))
    (howns : OwnsFrame w (.begin caller)) (statement : Statement) {outcome : Outcome}
    (hkeep : outcome ≠ .rolledBack) : Inv (w.exec caller depth scope statement outcome) := by
  unfold Worker.exec
  split
  · exact hinv
  · rename_i hdepth
    cases outcome with
    | ok =>
      obtain ⟨rfl, hinner⟩ :=
        context_innermost hinv hcontext howns (not_not.mp hdepth)
      refine ⟨hinv.depth, hinv.numbered, hinv.stack, ?_, hinv.callDepth, ?_⟩
      · intro x hx j hj
        rcases List.mem_append.mp hx with hx | hx
        · exact hinv.content x hx j hj
        · obtain rfl := List.mem_singleton.mp hx
          exact .inr hj
      · intro e he
        rcases List.mem_cons.mp he with rfl | he
        · exact hinner
        · exact (Later.refl w.calls).isolated (hinv.events e he)
    | failed => exact hinv
    | rolledBack => exact absurd rfl hkeep

/-- `BEGIN` and `SAVEPOINT` set a restore point with the name of the new
depth. -/
theorem begin_eq (hdepth : depth = w.depth) (scope : List Nat) :
    ∃ name, Numbered (⟨name, w.calls.length, w.sqlite.current⟩ :: w.sqlite.marks) ∧
      w.begin depth scope =
        { w with
          sqlite := w.sqlite.push name w.calls.length
          depth := w.depth + 1
          calls := w.calls ++ [⟨w.depth + 1, w.calls.length :: scope, .running⟩] } := by
  unfold Worker.begin
  rw [if_neg (not_not.mpr hdepth)]
  dsimp only
  by_cases hnil : w.sqlite.marks = []
  · have h0 : w.depth = 0 := by rw [hinv.depth, hnil]; rfl
    have hbegin : w.sqlite.begin w.calls.length =
        some (w.sqlite.push none w.calls.length) := by
      rw [Connection.begin, Connection.autocommit, hnil]
      rfl
    refine ⟨none, ⟨by rw [if_pos hnil], hinv.numbered⟩, ?_⟩
    rw [if_pos (by omega), hbegin]
  · have hpos : 0 < w.depth := by
      rw [hinv.depth]
      exact List.length_pos_of_ne_nil hnil
    refine ⟨some (w.sqlite.marks.length + 1), ⟨by rw [if_neg hnil], hinv.numbered⟩, ?_⟩
    rw [if_neg (by omega), Connection.savepoint, hinv.depth]

/-- A nested call opens the frame above its caller. -/
theorem Inv.begin {scope : List Nat} (hcontext : w.context caller = some (depth, scope))
    (howns : OwnsFrame w (.begin caller)) : Inv (w.begin depth scope) := by
  by_cases hdepth : depth = w.depth
  · obtain ⟨rfl, -⟩ := context_innermost hinv hcontext howns hdepth
    obtain ⟨name, hnum, hbegin⟩ :=
      begin_eq hinv hdepth (w.sqlite.marks.map Mark.tag)
    rw [hbegin]
    have hlater := Later.append w.calls
      [⟨w.depth + 1, w.calls.length :: w.sqlite.marks.map Mark.tag, .running⟩]
    refine ⟨?_, hnum, ⟨?_, ?_, ?_⟩, ?_, ?_, ?_⟩
    · show w.depth + 1 = w.sqlite.marks.length + 1
      rw [hinv.depth]
    · refine ⟨⟨w.depth + 1, w.calls.length :: w.sqlite.marks.map Mark.tag, .running⟩,
        ?_, ?_, rfl, rfl⟩
      · show (w.calls ++ _)[w.calls.length]? = _
        rw [List.getElem?_append_right (Nat.le_refl _), Nat.sub_self]
        rfl
      · show w.depth + 1 = w.sqlite.marks.length + 1
        rw [hinv.depth]
    · exact hlater.madeIn (by simp) hinv.content
    · exact hlater.stack (by simp) hinv.stack
    · intro x hx j hj
      rcases hlater.madeIn (by simp) hinv.content x hx j hj with h | h
      · exact .inl h
      · exact .inr (List.mem_cons_of_mem _ h)
    · intro k call hk
      change (w.calls ++ _)[k]? = some call at hk
      rcases Nat.lt_or_ge k w.calls.length with hlt | hge
      · rw [List.getElem?_append_left hlt] at hk
        exact hinv.callDepth k call hk
      · rw [List.getElem?_append_right hge] at hk
        obtain rfl := List.mem_singleton.mp (List.mem_of_getElem? hk)
        exact Nat.succ_pos _
    · intro e he
      exact hlater.isolated (hinv.events e he)
  · rw [Worker.begin, if_pos hdepth]
    exact hinv

theorem Inv.rollback : Inv w.rollback := by
  unfold Worker.rollback finishRollback Connection.rollback
  cases hlast : w.sqlite.marks.getLast? with
  | none =>
    have hnil : w.sqlite.marks = [] := List.getLast?_eq_none_iff.mp hlast
    refine ⟨?_, hinv.numbered, hinv.stack, hinv.content, hinv.callDepth, hinv.events⟩
    show 0 = w.sqlite.marks.length
    rw [hnil]
    rfl
  | some m =>
    refine ⟨rfl, trivial, trivial, ?_, hinv.callDepth, hinv.events⟩
    -- the outermost restore point only holds writes of resolved calls
    obtain ⟨inner, hmarks⟩ := List.getLast?_eq_some_iff.mp hlast
    have hstack := hinv.stack.drop inner.length
    rw [hmarks, List.drop_left] at hstack
    exact hstack.2.1

omit hinv in
/-- `COMMIT` and `RELEASE` of the innermost frame keep the content. -/
theorem release_eq (hnum : Numbered w.sqlite.marks) (hmarks : w.sqlite.marks = m :: rest)
    {resolved done : Bool} {sqlite : Connection Nat (List Write)}
    (h : w.release (rest.length + 1) resolved done = some sqlite) :
    sqlite = ⟨w.sqlite.current, rest⟩ := by
  unfold Worker.release at h
  split at h
  · split at h
    · rename_i hone
      have hnil : rest = [] := List.eq_nil_of_length_eq_zero (by omega)
      rw [Connection.commit, Connection.autocommit, hmarks] at h
      rw [← Option.some.inj h, hnil]
    · rename_i hne
      have hlen : w.sqlite.marks.length = rest.length + 1 := by rw [hmarks]; rfl
      have hrel := Savepoints.release_innermost hnum (by omega)
      rw [hlen, h, hmarks] at hrel
      exact Option.some.inj hrel
  · cases h

omit hinv in
/-- `rollbackTo` of an open depth restores what its frame had saved. -/
theorem rollbackTo_eq (hnum : Numbered w.sqlite.marks) (hdrop : w.sqlite.marks.drop i = m :: rest) :
    (w.rollbackTo (rest.length + 1)).sqlite = ⟨m.saved, rest⟩ ∧
      (w.rollbackTo (rest.length + 1)).depth = w.depth := by
  have hlen := congrArg List.length hdrop
  rw [List.length_drop, List.length_cons] at hlen
  unfold Worker.rollbackTo
  split
  · rename_i hone
    have hnil : rest = [] := List.eq_nil_of_length_eq_zero (by omega)
    have hlast : w.sqlite.marks.getLast? = some m := by
      have hsplit := List.take_append_drop i w.sqlite.marks
      rw [hdrop, hnil] at hsplit
      rw [← hsplit, List.getLast?_append]
      rfl
    rw [finishRollback, Connection.rollback, hlast, hnil]
    exact ⟨rfl, rfl⟩
  · obtain ⟨m', hm', c', hto, hrel⟩ :=
      Savepoints.rollbackTo_release hnum (d := rest.length + 1) (by omega) (by omega)
    rw [show w.sqlite.marks.length - (rest.length + 1) = i by omega, hdrop] at hm'
    obtain ⟨rfl, hrest⟩ := List.cons.inj hm'
    have hboth : (w.sqlite.rollbackTo (rest.length + 1)).bind
        (fun c => c.release (rest.length + 1)) = some ⟨m.saved, rest⟩ := by
      rw [hto, Option.bind_some, hrel, ← hrest]
    rw [hboth]
    exact ⟨rfl, rfl⟩

/-- A call ends: its frame is gone, and the writes that are left are those of
the frames that are left and, if it resolves, its own. -/
theorem Inv.settled {k : Nat} {call : Call} (hcall : w.calls[k]? = some call)
    (hrun : call.status = .running) {sqlite : Connection Nat (List Write)} {names : List Nat}
    {memory : Nat → Option Value} {status : Status} {closed : List Nat} {resolved : Bool}
    (hdepth : depth = sqlite.marks.length) (hnum : Numbered sqlite.marks)
    (hstack : StackInv w.calls sqlite.marks) (hgone : k ∉ sqlite.marks.map Mark.tag)
    (hcontent : ∀ x ∈ sqlite.current, ∀ j ∈ x.scope, Resolved w.calls j ∨
      j ∈ sqlite.marks.map Mark.tag ∨ status = .resolved ∧ j = k)
    (hclosed : w.Isolated (.settled k resolved closed)) :
    Inv ⟨depth, sqlite, names, memory, w.setStatus k status,
      .settled k resolved closed :: w.events⟩ := by
  have hnotres : ¬Resolved w.calls k := by
    rintro ⟨call', hcall', hres⟩
    rw [hcall] at hcall'
    obtain rfl := Option.some.inj hcall'
    rw [hrun] at hres
    cases hres
  have hlater := Later.setStatus w k status
  refine ⟨hdepth, hnum, hlater.stack ?_ hstack, ?_,
    hlater.callDepth (List.length_modify ..) hinv.callDepth, ?_⟩
  · rintro j ⟨⟩
    exact ⟨hnotres, hgone⟩
  · intro x hx j hj
    rcases hcontent x hx j hj with h | h | ⟨rfl, rfl⟩
    · exact .inl (hlater.resolved (fun hkj => hnotres (Option.some.inj hkj ▸ h)) h)
    · exact .inr h
    · exact .inl ⟨{ call with status := .resolved }, by simp [Worker.setStatus, hcall], rfl⟩
  · exact List.forall_mem_cons.mpr
      ⟨hlater.isolated hclosed, fun e he => hlater.isolated (hinv.events e he)⟩

/-- A call ends, with its frame open or already gone. -/
theorem Inv.settle {k : Nat} {call : Call} (hcall : w.calls[k]? = some call)
    (hrun : call.status = .running)
    (howns : w.Open k ∨ ∀ call, w.calls[k]? = some call → w.depth < call.depth)
    (resolved done : Bool) : Inv (w.settle k call resolved done) := by
  have hd := hinv.depth
  by_cases hopen : w.Open k
  · -- the frame of the call is on the stack, at its depth
    obtain ⟨i, m, rest, hdrop, rfl, hi, call', hcall', hdepth, -, -⟩ :=
      hinv.stack.owner hopen
    rw [hcall] at hcall'
    obtain rfl := Option.some.inj hcall'
    rw [List.length_cons] at hdepth
    have hlen := congrArg List.length hdrop
    rw [List.length_drop, List.length_cons] at hlen
    have hsub := hinv.stack.drop i
    have hnum := hinv.numbered.drop i
    rw [hdrop] at hsub hnum
    have hleft : min w.depth (rest.length + 1 - 1) = rest.length := by omega
    have hencloses := hinv.stack.encloses hdrop
    unfold Worker.settle
    rw [hdepth]
    split
    · rename_i sqlite hrel
      have hguard : w.depth = rest.length + 1 := by
        unfold Worker.release at hrel
        split at hrel
        · rename_i h
          exact h.2.1
        · cases hrel
      obtain rfl : i = 0 := by omega
      rw [List.drop_zero] at hdrop
      obtain rfl := release_eq hinv.numbered hdrop hrel
      have hclosed : w.closed ⟨w.sqlite.current, rest⟩ = [m.tag] := by
        rw [Worker.closed, hdrop]
        simp
      rw [hclosed]
      refine hinv.settled hcall hrun hleft hnum.2 hsub.2.2 hsub.owner_unique ?_
        ⟨by simpa [hdrop, Worker.Encloses] using hencloses, fun _ => rfl⟩
      intro x hx j hj
      rcases hinv.content x hx j hj with h | h
      · exact .inl h
      · rw [hdrop, List.map_cons, List.mem_cons] at h
        exact .inr (h.symm.imp_right fun hself => ⟨rfl, hself⟩)
    · obtain ⟨hsqlite, hback⟩ := rollbackTo_eq hinv.numbered hdrop
      have hle : rest.length + 1 ≤ w.depth := by omega
      dsimp only
      rw [if_pos hle, hsqlite, hback]
      have hclosed : w.closed ⟨m.saved, rest⟩ = (w.sqlite.marks.take (i + 1)).map Mark.tag := by
        rw [Worker.closed]
        dsimp only
        rw [show w.sqlite.marks.length - rest.length = i + 1 by omega]
      rw [hclosed]
      refine hinv.settled hcall hrun hleft hnum.2 hsub.2.2 hsub.owner_unique ?_
        ⟨hencloses, nofun⟩
      exact fun x hx j hj => (hsub.2.1 x hx j hj).imp_right .inl
  · -- the frame is gone and the depth was left: the call just rejects
    have hlt : w.depth < call.depth := (howns.resolve_left hopen) call hcall
    have hrel : w.release call.depth resolved done = none := by
      unfold Worker.release
      rw [if_neg (by omega)]
    unfold Worker.settle
    rw [hrel]
    dsimp only
    rw [if_neg (by omega)]
    refine hinv.settled hcall hrun (by omega) hinv.numbered hinv.stack hopen ?_
      ⟨by simp [Worker.closed], nofun⟩
    exact fun x hx j hj => (hinv.content x hx j hj).imp_right .inl

/-- **Every step that owns its frame** keeps the invariant. -/
theorem Inv.step {action : Action} (hkeep : action.keepsTransaction = true)
    (hC : OwnsFrame w action) {w' : Worker}
    (hstep : Transactions.step w action = some w') : Inv w' := by
  revert hstep
  fun_cases Transactions.step w action with
  | case1 context statement outcome =>
    intro hstep
    obtain ⟨⟨depth, scope⟩, hcontext, rfl⟩ := Option.map_eq_some_iff.mp hstep
    have howns : OwnsFrame w (.begin context) := by
      cases context with
      | none => trivial
      | some k => exact hC
    refine hinv.exec hcontext howns statement ?_
    rintro rfl
    exact absurd hkeep (by simp [Action.keepsTransaction])
  | case2 context =>
    intro hstep
    obtain ⟨⟨depth, scope⟩, hcontext, rfl⟩ := Option.map_eq_some_iff.mp hstep
    exact hinv.begin hcontext hC
  | case4 k resolved done call hcall hrun =>
    rintro ⟨⟩
    exact hinv.settle hcall hrun hC resolved done
  | case6 =>
    rintro ⟨⟩
    fun_cases Worker.commit w with
    | case1 => exact hinv
    | case2 hzero =>
      have hnil : w.sqlite.marks = [] := by
        apply List.eq_nil_of_length_eq_zero
        have := hinv.depth
        omega
      rw [Connection.commit, Connection.autocommit, hnil]
      exact hinv
  | case7 =>
    rintro ⟨⟩
    exact hinv.rollback
  | _ => rintro ⟨⟩

end Steps

/-! ## The result -/

theorem inv_initial (fields : List (Nat × Option Value)) : Inv (Worker.initial fields) := by
  refine ⟨rfl, trivial, trivial, ?_, by simp [Worker.initial], by simp [Worker.initial]⟩
  intro x hx j hj
  obtain ⟨p, -, rfl⟩ := List.mem_map.mp hx
  cases hj

/-- A rejected call has left no writes. -/
theorem Inv.rejected_writes {w : Worker} (hinv : Inv w) {k : Nat} {call : Call}
    (hcall : w.calls[k]? = some call) (hrej : call.status = .rejected) :
    ∀ x ∈ w.sqlite.current, k ∉ x.scope := by
  intro x hx hk
  rcases hinv.content x hx k hk with hres | hopen
  · obtain ⟨call', hcall', hres⟩ := hres
    rw [hcall] at hcall'
    obtain rfl := Option.some.inj hcall'
    rw [hrej] at hres
    cases hres
  · obtain ⟨-, -, -, -, -, -, call', hcall', -, hrunning, -⟩ := hinv.stack.owner hopen
    rw [hcall] at hcall'
    obtain rfl := Option.some.inj hcall'
    rw [hrej] at hrunning
    cases hrunning

/-- **Transactions are isolated** in every schedule in which no continuation
of a call whose frame is gone comes back at a depth that is open again: every
write is the innermost open transaction's, every call closes only its own
frame and (on rejection) those nested in it, and a rejected call leaves no
writes. -/
theorem transactions_isolated {fields : List (Nat × Option Value)} {actions : List Action}
    {w : Worker} (hsql : ∀ a ∈ actions, a.keepsTransaction = true)
    (hC : Transition.Guarded step OwnsFrame (Worker.initial fields) actions)
    (hrun : Transition.run step (Worker.initial fields) actions = some w) :
    (∀ e ∈ w.events, w.Isolated e) ∧ ∀ k call, w.calls[k]? = some call → call.status = .rejected →
      ∀ x ∈ w.sqlite.current, k ∉ x.scope := by
  have hinv : Inv w := Transition.run_guarded_invariant
    (fun _ _ _ hinv hC hstep => hinv.step hC.1 hC.2 hstep) (inv_initial fields)
    ((Transition.Guarded.of_forall (fun a ha _ => hsql a ha) _).and hC) hrun
  exact ⟨hinv.events, fun k call hcall hrej => hinv.rejected_writes hcall hrej⟩

/-- A transaction with a nested one that throws. -/
def nestedFailure : List Action :=
  [.begin none, .exec (some 0) (.sql 10) .ok, .begin (some 0),
    .exec (some 1) (.assign 0 (some 11) (some 11)) .ok, .settle 1 false true,
    .exec (some 0) (.sql 12) .ok, .settle 0 true true, .commit]

def nestedFailureEnd : Worker :=
  Transition.final step (Worker.initial []) nestedFailure

theorem transactions_isolated_nested :
    nestedFailureEnd.sqlite.current = [⟨[0], .sql 10⟩, ⟨[0], .sql 12⟩] ∧
    nestedFailureEnd.events.length = 5 ∧
    (∀ e ∈ nestedFailureEnd.events, nestedFailureEnd.Isolated e) ∧
    ∀ k call, nestedFailureEnd.calls[k]? = some call → call.status = .rejected →
      ∀ x ∈ nestedFailureEnd.sqlite.current, k ∉ x.scope := by
  have hC : Transition.Guarded step OwnsFrame (Worker.initial []) nestedFailure := by
    decide
  have h := transactions_isolated (w := nestedFailureEnd) (by decide) hC rfl
  exact ⟨by decide, by decide, h.1, h.2⟩

/-! ### A parent with a nested call that is not awaited, and a stale context -/

/-- The parent's operation resolves while a nested call is still open: the
parent rejects and rolls the nested frame back with its own. -/
def unawaitedNested : List Action :=
  [.begin none, .begin (some 0), .settle 0 true true]

/-- A call is not awaited, and the invocation ends with `rollback`; the next
invocation opens a transaction at the same depth.  A continuation of the first
call writes into it and then commits it. -/
def staleWorker : List Action :=
  [.begin none, .rollback, .begin none, .exec (some 0) (.sql 7) .ok, .settle 0 true true]

/-- A call closes a frame that another call opened: a parent the frame of a
nested call, and a stale call the frame of a later one, into which it has
written before. -/
theorem transaction_closes_foreign_frame :
    (∃ w, Transition.run step (Worker.initial []) unawaitedNested = some w ∧
      w.events = [.settled 0 false [1, 0]]) ∧
    ∃ w, Transition.run step (Worker.initial []) staleWorker = some w ∧
      w.events = [.settled 0 true [1], .wrote (some 0) (some 1)] ∧
      w.sqlite.current = [⟨[0], .sql 7⟩] := by
  refine ⟨⟨Transition.final step (Worker.initial []) unawaitedNested, rfl, by decide⟩,
    ⟨Transition.final step (Worker.initial []) staleWorker, rfl, by decide, by decide⟩⟩

end DurableActors.Ports.Transactions
