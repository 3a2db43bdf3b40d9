import DurableActors.Ports.DatabaseMoves

/-!
# What a publication leaves behind

The resident database knows up to which position it has published.  As long as
no publication starts while an earlier one is pending, everything up to that
position is in a durable snapshot: a capture starts where the last one ended,
the durable head holds what was captured before, and a pending snapshot holds
everything up to its position.
-/

namespace DurableActors.Ports.Database

open Verified

/-- The transaction is in a durable snapshot of this version or an earlier one. -/
def Contained (durable : List Snapshot) (version t : Nat) : Prop :=
  ∃ s ∈ durable, s.header.version ≤ version ∧ t ∈ s.contents

theorem Contained.mono {durable durable' : List Snapshot} {version version' t : Nat}
    (h : Contained durable version t) (hsub : ∀ s ∈ durable, s ∈ durable')
    (hle : version ≤ version') : Contained durable' version' t := by
  obtain ⟨s, hs, hversion, ht⟩ := h
  exact ⟨s, hsub s hs, Nat.le_trans hversion hle, ht⟩

/-! ## The invariant of the resident database -/

/-- What is published is durable. -/
structure Core (durable : List Snapshot) (r : Resident) : Prop where
  base : ∀ t ∈ r.base, Contained durable r.version t
  synced : r.synced = r.position
  captured : r.captured ≤ r.position
  bound : ∀ p, r.published = some p → p ≤ r.position
  published : ∀ p, r.published = some p → ∀ t ∈ r.upTo p, Contained durable r.version t

/-- The pending snapshot is the next version and holds all transactions up to
its position, which is where the capture stands. -/
structure Awaited (r : Resident) (p : Pending) : Prop where
  version : p.snapshot.header.version = r.version + 1
  contents : ∀ t ∈ r.upTo p.txid, t ∈ p.snapshot.contents
  captured : r.captured = p.txid

/-- The snapshots in hand have the transactions they stand for. -/
structure ResidentInv (durable : List Snapshot) (r : Resident) : Prop where
  core : Core durable r
  head : r.pending = none → ∀ s, r.head = some s → ∀ t ∈ r.upTo r.captured, t ∈ s.contents
  pending : ∀ p, r.pending = some p → Awaited r p
  durable : ∀ p, r.pending = some p → p.durable = true → p.snapshot ∈ durable

/-- The local database is the same. -/
structure Same (r r' : Resident) : Prop where
  opening : r'.opening = r.opening
  base : r'.base = r.base
  start : r'.start = r.start
  log : r'.log = r.log
  synced : r'.synced = r.synced
  version : r.version ≤ r'.version

section

variable {r r' : Resident} {durable durable' : List Snapshot}

theorem Same.upTo (h : Same r r') (txid : Nat) : r'.upTo txid = r.upTo txid := by
  rw [Resident.upTo, Resident.upTo, h.base, h.log, h.start]

theorem Same.position (h : Same r r') : r'.position = r.position := by
  rw [Resident.position, Resident.position, h.log, h.start]

theorem Same.refl (r : Resident) : Same r r := ⟨rfl, rfl, rfl, rfl, rfl, Nat.le_refl _⟩

theorem Same.trans {r'' : Resident} (h : Same r r') (h' : Same r' r'') : Same r r'' :=
  ⟨h'.opening.trans h.opening, h'.base.trans h.base, h'.start.trans h.start,
    h'.log.trans h.log, h'.synced.trans h.synced, Nat.le_trans h.version h'.version⟩

/-- A longer prefix holds more. -/
theorem upTo_mono {txid txid' t : Nat} (hle : txid ≤ txid') (ht : t ∈ r.upTo txid) :
    t ∈ r.upTo txid' := by
  unfold Resident.upTo at ht ⊢
  rcases List.mem_append.mp ht with hbase | hlog
  · exact List.mem_append_left _ hbase
  · apply List.mem_append_right
    have hsub : (r.log.take (txid - r.start)) <+: (r.log.take (txid' - r.start)) :=
      List.take_prefix_take_left (Nat.sub_le_sub_right hle _)
    exact hsub.subset hlog

/-- Up to the last position there is everything. -/
theorem upTo_position : r.upTo r.position = r.contents := by
  rw [Resident.upTo, Resident.position, Nat.add_sub_cancel_left, List.take_length]
  rfl

theorem Core.mono (h : Core durable r) (hsub : ∀ s ∈ durable, s ∈ durable') : Core durable' r :=
  ⟨fun t ht => (h.base t ht).mono hsub (Nat.le_refl _), h.synced, h.captured, h.bound,
    fun p hp t ht => (h.published p hp t ht).mono hsub (Nat.le_refl _)⟩

/-! ## Publishing -/

theorem finish_same {p : Pending} (hp : Awaited r p) : Same r (r.finish p) := by
  refine { Same.refl r with version := ?_ }
  show r.version ≤ p.snapshot.header.version
  rw [hp.version]
  exact Nat.le_succ _

/-- A durable pending snapshot becomes the head. -/
theorem finish_inv (hcore : Core durable r) {p : Pending} (hp : Awaited r p)
    (hmem : p.snapshot ∈ durable) : ResidentInv durable (r.finish p) := by
  refine ⟨⟨?_, hcore.synced, hcore.captured, ?_, ?_⟩, ?_, nofun, nofun⟩
  · intro t ht
    exact (hcore.base t ht).mono (fun _ h => h) (finish_same hp).version
  · rintro txid ⟨⟩
    show p.txid ≤ r.position
    rw [← hp.captured]
    exact hcore.captured
  · rintro txid ⟨⟩ t ht
    exact ⟨p.snapshot, hmem, Nat.le_refl _, hp.contents t ht⟩
  · rintro _ s ⟨⟩ t ht
    change t ∈ r.upTo r.captured at ht
    rw [hp.captured] at ht
    exact hp.contents t ht

/-- What a write does to the invariant: it holds afterwards, whatever the
storage answered, and a write that is confirmed has published the position. -/
structure Wrote (durable : List Snapshot) (r : Resident) (txid : Nat) (P : Published) : Prop where
  grows : ∀ s ∈ durable, s ∈ P.durable
  same : Same r P.resident
  inv : ResidentInv P.durable P.resident
  published : P.ok = true → P.resident.published = some txid

theorem writePending_wrote (hcore : Core durable r) {p : Pending} (hp : Awaited r p)
    (hnot : p.durable = false) (a : Answers) :
    Wrote durable r p.txid (r.writePending a durable p) := by
  have hkept : ∀ durable', (∀ s ∈ durable, s ∈ durable') →
      ResidentInv durable' { r with pending := some p } := by
    intro durable' hsub
    refine ⟨{ hcore.mono hsub with }, nofun, ?_, ?_⟩
    · rintro p' ⟨⟩
      exact { hp with }
    · rintro p' ⟨⟩ hdurable
      cases hnot.symm.trans hdurable
  have hgrow : ∀ s ∈ durable, s ∈ p.snapshot :: durable := fun s hs =>
    List.mem_cons_of_mem _ hs
  fun_cases Resident.writePending r a durable p with
  | case1 => exact ⟨fun _ h => h, { Same.refl r with }, hkept _ fun _ h => h, nofun⟩
  | case2 => exact ⟨hgrow, { Same.refl r with }, hkept _ hgrow, nofun⟩
  | case3 =>
    have hp' : Awaited r { p with durable := true } := { hp with }
    exact ⟨hgrow, finish_same hp', finish_inv (hcore.mono hgrow) hp' List.mem_cons_self,
      fun _ => rfl⟩

/-- A capture has taken everything up to the position. -/
theorem Captures.all {header : Header} {txid : Nat} {snapshot : Snapshot}
    (h : Captures r header txid r' snapshot)
    (hhead : ∀ s, r.head = some s → ∀ t ∈ r.upTo r.captured, t ∈ s.contents) :
    ∀ t ∈ r.upTo txid, t ∈ snapshot.contents := by
  intro t ht
  rcases h.contents with hall | ⟨parent, files, hparent, hcontents, hsplit⟩
  · rwa [hall]
  · rw [hcontents]
    rw [hsplit] at ht
    exact (List.mem_append.mp ht).elim
      (fun hold => List.mem_append_left _ (hhead parent hparent t hold))
      (List.mem_append_right _)

/-- What a publication does: unless it fails without leaving a pending
snapshot, the invariant holds afterwards. -/
structure Attempted (durable : List Snapshot) (r : Resident) (txid : Nat) (P : Published) :
    Prop where
  grows : ∀ s ∈ durable, s ∈ P.durable
  same : Same r P.resident
  inv : P.ok = true ∨ P.resident.pending ≠ none → ResidentInv P.durable P.resident
  published : P.ok = true → P.resident.published = some txid

/-- A publication that fails before the snapshot is pending. -/
theorem Attempted.failed {txid : Nat} (hsame : Same r r') (hpending : r'.pending = none) :
    Attempted durable r txid ⟨false, r', durable⟩ :=
  ⟨fun _ h => h, hsame, fun h => h.elim nofun fun hne => absurd hpending hne, nofun⟩

/-- **A publication** with no earlier one pending. -/
theorem publishState_attempted (hinv : ResidentInv durable r) (hpending : r.pending = none)
    (a : Answers) (request epoch : Nat) (completion : Option Nat) (txid : Nat) :
    Attempted durable r txid (r.publishState a durable request epoch completion txid) := by
  have hpublishes := publishes r a durable request epoch completion txid
  generalize r.publishState a durable request epoch completion txid = P at hpublishes
  cases hpublishes with
  | failed captured => exact .failed { Same.refl r with } hpending
  | wrote ticket hcapture =>
    have hcore : Core durable { r with nextWrite := none, captured := txid } :=
      { hinv.core with captured := hcapture.bounds.2 }
    have hwrote := writePending_wrote hcore (p := ⟨_, txid, ticket, false⟩)
      ⟨by rw [hcapture.header], hcapture.all (hinv.head hpending), rfl⟩ rfl a
    have hsame : Same r { r with nextWrite := none, captured := txid } := { Same.refl r with }
    exact ⟨hwrote.grows, hsame.trans hwrote.same, fun _ => hwrote.inv, hwrote.published⟩

/-- `finish_pending_commit` keeps the invariant. -/
theorem finishPendingCommit_inv (hinv : ResidentInv durable r) {a : Answers} {P : Published}
    (hP : P = r.finishPendingCommit a durable) :
    (∀ s ∈ durable, s ∈ P.durable) ∧ Same r P.resident ∧ ResidentInv P.durable P.resident := by
  subst hP
  fun_cases Resident.finishPendingCommit r a durable with
  | case2 p hp hdurable =>
    exact ⟨fun _ h => h, finish_same (hinv.pending p hp),
      finish_inv hinv.core (hinv.pending p hp) (hinv.durable p hp hdurable)⟩
  | case3 p hp hnot =>
    have hwrote := writePending_wrote hinv.core (hinv.pending p hp) (Bool.of_not_eq_true hnot) a
    exact ⟨hwrote.grows, hwrote.same, hwrote.inv⟩
  | _ => exact ⟨fun _ h => h, .refl r, hinv⟩

/-- A completion publishes, or has nothing to publish. -/
theorem publishResult_attempted (hinv : ResidentInv durable r) {committed : Option Nat}
    (hpending : r.unpublished committed ≠ none → r.pending = none) {a : Answers}
    {request epoch result : Nat} {P : Published}
    (hP : P = r.publishResult a durable request epoch result committed) :
    (∀ s ∈ durable, s ∈ P.durable) ∧ Same r P.resident ∧
    (P.ok = true ∨ P.resident.pending ≠ none → ResidentInv P.durable P.resident) ∧
    (P.ok = true → ∀ txid, committed = some txid → ∀ t ∈ r.upTo txid,
      Contained P.durable P.resident.version t) := by
  subst hP
  fun_cases Resident.publishResult r a durable request epoch result committed with
  | case1 txid hun =>
    have hattempt := publishState_attempted hinv (hpending (by simp [hun])) a request epoch
      (some result) txid
    refine ⟨hattempt.grows, hattempt.same, hattempt.inv, fun hok txid' hcommitted t ht => ?_⟩
    obtain rfl : txid' = txid :=
      Option.some.inj (hcommitted.symm.trans (Option.filter_eq_some_iff.mp hun).1)
    apply (hattempt.inv (.inl hok)).core.published txid' (hattempt.published hok)
    rw [hattempt.same.upTo]
    exact ht
  | case2 hun =>
    refine ⟨fun _ h => h, .refl r, fun _ => hinv, fun _ txid hcommitted t ht => ?_⟩
    -- another publication has covered the commit
    rw [Resident.unpublished, hcommitted, Option.filter_some] at hun
    cases hpub : r.published with
    | none => simp [hpub] at hun
    | some p =>
      have hle : txid ≤ p := by simpa [hpub] using hun
      exact hinv.core.published p hpub t (upTo_mono hle ht)

/-! ## Opening -/

/-- A resident database opened from a durable snapshot. -/
theorem openLoaded_inv {s : Session} {a : Answers} {epoch : Nat} {loaded : Loaded}
    (hsound : ∀ x ∈ loaded.snapshot, x ∈ s.durable) (h : s.openLoaded a epoch loaded = some r) :
    ResidentInv s.durable r ∧ r.opening = s.opened ∧ r.log = [] := by
  revert h
  fun_cases Session.openLoaded a s epoch loaded with
  | case1 =>
    rintro ⟨⟩
    refine ⟨⟨⟨?_, rfl, Nat.le_refl _, ?_, ?_⟩, ?_, ?_, ?_⟩, rfl, rfl⟩
    all_goals simp [Resident.empty]
  | case5 version x hsnapshot _ hok =>
    rintro ⟨⟩
    have hcontained : ∀ t ∈ x.contents, Contained s.durable (version + 1) t :=
      fun t ht => ⟨x, hsound x hsnapshot, Nat.le_of_eq hok.1, ht⟩
    refine ⟨⟨⟨hcontained, rfl, Nat.le_refl _, ?_, ?_⟩, ?_, by rintro _ ⟨⟩, by rintro _ ⟨⟩⟩, rfl,
      rfl⟩
    · rintro p ⟨⟩
      exact Nat.le_refl _
    · intro p hp t ht
      simp only [Resident.upTo, Resident.empty, List.take_nil, List.append_nil] at ht
      exact hcontained t ht
    · intro _ head hhead t ht
      simp only [Resident.upTo, Resident.empty, List.take_nil, List.append_nil] at ht
      obtain ⟨-, ⟨⟩⟩ := Option.ite_none_right_eq_some.mp hhead
      exact ht
  | _ => rintro ⟨⟩

/-! ## Local transactions -/

/-- New transactions do not change what lies before them. -/
theorem upTo_append {e : Executed} {next txid : Nat} (hle : txid ≤ r.position) :
    (r.append e next).upTo txid = r.upTo txid := by
  show r.base ++ (r.log ++ _).take (txid - r.start) = r.base ++ r.log.take (txid - r.start)
  have hshort : txid - r.start ≤ r.log.length := by
    unfold Resident.position at hle
    omega
  rw [List.take_append_of_le_length hshort]

theorem position_append (e : Executed) (next : Nat) :
    (r.append e next).position = r.position + e.transactions := by
  show r.start + (r.log ++ _).length = r.start + r.log.length + e.transactions
  rw [List.length_append, List.length_range', Nat.add_assoc]

/-- The local database is the same one, with more transactions. -/
structure Grown (r r' : Resident) : Prop where
  opening : r'.opening = r.opening
  synced : r.synced ≤ r'.synced
  upTo : ∀ txid, ∀ t ∈ r.upTo txid, t ∈ r'.upTo txid

theorem Same.grown (h : Same r r') : Grown r r' :=
  ⟨h.opening, Nat.le_of_eq h.synced.symm, fun txid _ ht => h.upTo txid ▸ ht⟩

theorem Grown.trans {r'' : Resident} (h : Grown r r') (h' : Grown r' r'') : Grown r r'' :=
  ⟨h'.opening.trans h.opening, Nat.le_trans h.synced h'.synced,
    fun txid t ht => h'.upTo txid t (h.upTo txid t ht)⟩

theorem append_grown (e : Executed) (next : Nat) : Grown r (r.append e next) := by
  refine ⟨rfl, Nat.le_refl _, fun txid t ht => ?_⟩
  show t ∈ r.base ++ (r.log ++ _).take (txid - r.start)
  rw [List.take_append, ← List.append_assoc]
  exact List.mem_append_left _ ht

/-- After the calls of SQLite are synced the invariant holds again. -/
theorem append_inv (hinv : ResidentInv durable r) (e : Executed) (next : Nat) :
    ResidentInv durable { r.append e next with synced := (r.append e next).position } := by
  have hcore := hinv.core
  have hle : r.position ≤ (r.append e next).position := by
    rw [position_append]
    exact Nat.le_add_right _ _
  refine ⟨⟨hcore.base, rfl, Nat.le_trans hcore.captured hle,
    fun p hp => Nat.le_trans (hcore.bound p hp) hle, ?_⟩, ?_, ?_, hinv.durable⟩
  · intro p hp t ht
    change t ∈ (r.append e next).upTo p at ht
    rw [upTo_append (hcore.bound p hp)] at ht
    exact hcore.published p hp t ht
  · intro hnone head hhead t ht
    change t ∈ (r.append e next).upTo r.captured at ht
    rw [upTo_append hcore.captured] at ht
    exact hinv.head hnone head hhead t ht
  · intro p hp
    have hawaited := hinv.pending p hp
    refine ⟨hawaited.version, fun t ht => ?_, hawaited.captured⟩
    change t ∈ (r.append e next).upTo p.txid at ht
    rw [upTo_append (hawaited.captured ▸ hcore.captured)] at ht
    exact hawaited.contents t ht

/-- An immediate publication that is confirmed has published everything. -/
theorem publishImmediate_spec (hinv : ResidentInv durable r) (hpending : r.pending = none)
    {a : Answers} {request : Nat} {P : Published} (hP : P = r.publishImmediate a durable request) :
    (∀ x ∈ durable, x ∈ P.durable) ∧ Same r P.resident ∧ (P.ok = true →
      ResidentInv P.durable P.resident ∧ P.resident.published = some r.synced) := by
  subst hP
  fun_cases Resident.publishImmediate r a durable request with
  | case1 =>
    have hattempt := publishState_attempted hinv hpending a request r.epoch none r.synced
    refine ⟨hattempt.grows, hattempt.same, fun hok => ?_⟩
    have hok := (Bool.and_eq_true_iff.mp hok).1
    exact ⟨hattempt.inv (.inl hok), hattempt.published hok⟩
  | case2 => exact ⟨fun _ h => h, .refl r, nofun⟩

/-- **A call of SQLite.**  Unless the service stops the invariant holds
afterwards; a `Commit` returns the position reached, and an immediate call that
appended transactions succeeds only when all of them are durable. -/
theorem afterCall_spec (hinv : ResidentInv durable r) {e : Executed} (next : Nat)
    {call : Call} (hflag : 0 < e.transactions → e.committed = true)
    (hpending : call.immediate = true → 0 < e.transactions → r.pending = none)
    (a : Answers) (request : Nat) {reply : Reply}
    (h : (r.append e next).afterCall a durable request call e = (reply, r', durable')) :
    (∀ x ∈ durable, x ∈ durable') ∧ Grown r r' ∧ (reply ≠ .error → ResidentInv durable' r') ∧
    ∀ committed, reply = .executed committed → (∀ txid, committed = some txid → txid = r'.synced) ∧
      (call.immediate = true → 0 < e.transactions →
        ∀ t ∈ r'.contents, Contained durable' r'.version t) := by
  have hreturned : ∀ (x : Resident) (committed : Option Nat),
      (if e.ok = true then Reply.executed (if call = .commit then some x.synced else none)
        else .rejected) = .executed committed →
      ∀ txid, committed = some txid → txid = x.synced := by
    intro x committed hreply txid htxid
    split at hreply
    · obtain rfl := Reply.executed.inj hreply
      exact (Option.some.inj (Option.ite_none_right_eq_some.mp htxid).2).symm
    · cases hreply
  have hgrown : Grown r { r.append e next with synced := (r.append e next).position } := by
    refine ⟨rfl, ?_, (append_grown e next).upTo⟩
    show r.synced ≤ (r.append e next).position
    rw [hinv.core.synced, position_append]
    exact Nat.le_add_right _ _
  have hmore : (r.append e next).synced < (r.append e next).position ↔ 0 < e.transactions := by
    show r.synced < (r.append e next).position ↔ _
    rw [hinv.core.synced, position_append]
    omega
  revert h
  fun_cases Resident.afterCall (r.append e next) a durable request call e with
  | case1 _ hcommitted =>
    -- no commit is reported: nothing was appended
    have hzero : e.transactions = 0 := by
      by_contra hne
      cases hcommitted.symm.trans (hflag (Nat.pos_of_ne_zero hne))
    have happend : r.append e next = r := by
      rw [Resident.append, hzero, List.range'_zero, List.append_nil]
    rw [happend]
    rintro ⟨rfl, rfl, rfl⟩
    exact ⟨fun _ h => h, (Same.refl _).grown, fun _ => hinv, fun committed hreply =>
      ⟨hreturned _ committed hreply, fun _ hpos => by omega⟩⟩
  | case2 =>
    rintro ⟨⟩
    exact ⟨fun _ h => h, append_grown e next, fun hne => absurd rfl hne, nofun⟩
  | case3 _ _ _ _ x hpublish P =>
    intro h
    obtain ⟨hgrows, hsame, hok⟩ := publishImmediate_spec (append_inv hinv e next)
      (hpending hpublish.1 (hmore.mp hpublish.2)) (rfl : P = x.publishImmediate a durable request)
    obtain ⟨hreply, h⟩ := Prod.mk.inj h
    obtain ⟨rfl, rfl⟩ := Prod.mk.inj h
    refine ⟨hgrows, hgrown.trans hsame.grown, fun hne => ?_, fun committed hexecuted => ?_⟩
    · split at hreply
      · rename_i hpok
        exact (hok hpok).1
      · exact absurd hreply.symm hne
    · rw [hexecuted] at hreply
      split at hreply
      · rename_i hpok
        refine ⟨hreturned _ committed hreply, fun _ _ t ht => ?_⟩
        obtain ⟨hfinal, hpublished⟩ := hok hpok
        apply hfinal.core.published _ hpublished
        show t ∈ P.resident.upTo x.position
        rw [← hsame.position, upTo_position]
        exact ht
      · cases hreply
  | case4 _ _ _ _ _ hnot =>
    intro h
    obtain ⟨rfl, hrest⟩ := Prod.mk.inj h
    obtain ⟨rfl, rfl⟩ := Prod.mk.inj hrest
    exact ⟨fun _ h => h, hgrown, fun _ => append_inv hinv e next, fun committed hreply =>
      ⟨hreturned _ committed hreply, fun himmediate hpos =>
        absurd ⟨himmediate, hmore.mpr hpos⟩ hnot⟩⟩

end

end DurableActors.Ports.Database
