import DurableActors.Ports.DatabasePublication

/-!
# Durable before acknowledged

An immediate call that succeeds, and a completion that returns a version, tell
the actor's caller that what was committed before is safe.  It is, in every run
of the database service in which

* a call that appends transactions is reported as committed by the engine,
* no call and no completion publishes while an earlier publication is pending,
  since that one's files would be left out, and
* an invocation completes on the resident database on which it has committed,
  since positions of another one say nothing about its transactions.
-/

namespace DurableActors.Ports.Database

open Verified

/-! ## The condition -/

section

variable (w : Service)

/-- The position a scope asks to be published. -/
def Scope.toPublish (scope : Scope) : Option Nat :=
  if 0 < scope.committed then some scope.committed else none

/-- The scope completes on the resident database it has committed on, and
nothing is pending if there is something to publish. -/
def Service.Undisturbed (k : Nat) : Prop :=
  ∀ scope ∈ w.scopes[k]?, ∀ r ∈ w.session.cached,
    (∀ c ∈ scope.commits, c.opening = r.opening) ∧
      (r.unpublished scope.toPublish ≠ none → r.pending = none)

instance (k : Nat) : Decidable (w.Undisturbed k) :=
  inferInstanceAs (Decidable (∀ scope ∈ w.scopes[k]?, ∀ r ∈ w.session.cached, _))

/-- The condition on a step. -/
def Steady : Action → Prop
  | .call _ call a =>
    (∀ e ∈ a.executed, 0 < e.transactions → e.committed = true) ∧
      (a.wrote call = true → ∀ r ∈ w.session.cached, r.pending = none)
  | .complete k _ none _ => w.Undisturbed k
  | .publishReady _ => ∀ p ∈ w.next, w.Undisturbed p.2.1
  | _ => True

instance (action : Action) : Decidable (Steady w action) := by
  unfold Steady
  split
  all_goals infer_instance

end

/-! ## The session -/

/-- The resident database is one of the session. -/
def SessionInv (s : Session) : Prop :=
  ∀ r, s.cached = some r → ResidentInv s.durable r ∧ r.opening < s.opened

/-- How a session may change: snapshots stay, and the resident database is the
old one with more transactions, a new one, or none. -/
structure Evolves (s s' : Session) : Prop where
  grows : ∀ x ∈ s.durable, x ∈ s'.durable
  opened : s.opened ≤ s'.opened
  cached : ∀ r', s'.cached = some r' →
    (∃ r, s.cached = some r ∧ Grown r r') ∨ s.opened ≤ r'.opening

section

variable {s : Session} {a : Answers}

theorem Evolves.refl (s : Session) : Evolves s s :=
  ⟨fun _ h => h, Nat.le_refl _, fun r hr => .inl ⟨r, hr, (Same.refl r).grown⟩⟩

/-- The resident database has grown, or is dropped. -/
theorem Evolves.grown {r : Resident} (hcached : s.cached = some r) {s' : Session}
    (hgrows : ∀ x ∈ s.durable, x ∈ s'.durable) (hopened : s.opened ≤ s'.opened)
    (hgrown : ∀ r', s'.cached = some r' → Grown r r') : Evolves s s' :=
  ⟨hgrows, hopened, fun r' hr' => .inl ⟨r, hcached, hgrown r' hr'⟩⟩

/-- The resident database is dropped. -/
theorem SessionInv.dropped {s' : Session} (hdurable : s'.durable = s.durable)
    (hopened : s.opened ≤ s'.opened) (hnone : s'.cached = none) : SessionInv s' ∧ Evolves s s' := by
  refine ⟨fun r hr => ?_, fun x hx => hdurable ▸ hx, hopened, fun r hr => ?_⟩
  · cases hnone.symm.trans hr
  · cases hnone.symm.trans hr

theorem SessionInv.kept (hinv : SessionInv s) {s' : Session} (hcached : s'.cached = s.cached)
    (hdurable : s'.durable = s.durable) (hopened : s'.opened = s.opened) :
    SessionInv s' ∧ Evolves s s' := by
  refine ⟨fun r hr => ?_, fun x hx => hdurable ▸ hx, Nat.le_of_eq hopened.symm, fun r hr => ?_⟩
  · rw [hdurable, hopened]
    exact hinv r (hcached ▸ hr)
  · exact (Evolves.refl s).cached r (hcached ▸ hr)

/-- The resident database was there, or is a new one. -/
theorem SessionInv.takes (hinv : SessionInv s) (hsound : a.Sound s.durable) {r : Resident}
    (h : s.Takes a r) :
    ResidentInv s.durable r ∧
      (s.cached = some r ∧ r.opening < s.opened ∨ r.opening = s.opened) := by
  rcases h with hcached | ⟨epoch, loaded, hloaded, hopen⟩
  · exact ⟨(hinv r hcached).1, .inl ⟨hcached, (hinv r hcached).2⟩⟩
  · have hfound : ∀ x ∈ loaded.found.snapshot, x ∈ s.durable := by
      intro x hx
      unfold Loaded.found at hx
      split at hx
      · cases hx
      · exact hsound loaded hloaded x hx
    have hopened : ResidentInv s.durable r ∧ r.opening = s.opened ∧ r.log = [] :=
      hopen.elim (openLoaded_inv (hsound loaded hloaded)) (openLoaded_inv hfound)
    exact ⟨hopened.1, .inr hopened.2.1⟩

/-- **Preparing** keeps the invariant. -/
theorem SessionInv.prepares (hinv : SessionInv s) (hsound : a.Sound s.durable) {s' : Session}
    (h : s.Prepares a s') : SessionInv s' ∧ Evolves s s' := by
  cases h with
  | kept hcached hdurable hopened => exact hinv.kept hcached hdurable hopened
  | dropped hcached hdurable hopened => exact SessionInv.dropped hdurable hopened hcached
  | resident htakes hP hcached hdurable hopened =>
    rename_i r P
    obtain ⟨hr, hfrom⟩ := hinv.takes hsound htakes
    have hafter : (∀ x ∈ s.durable, x ∈ P.durable) ∧ Same r P.resident ∧
        ResidentInv P.durable P.resident := by
      rcases hP with rfl | hP
      · exact ⟨fun _ h => h, .refl r, hr⟩
      · exact finishPendingCommit_inv hr hP
    obtain ⟨hgrows, hsame, hr'⟩ := hafter
    refine ⟨fun r' h => ?_, fun x hx => hdurable ▸ hgrows x hx, hopened ▸ Nat.le_succ _,
      fun r' h => ?_⟩
    · obtain rfl := Option.some.inj (hcached.symm.trans h)
      rw [hdurable, hopened, hsame.opening]
      exact ⟨hr', Nat.lt_succ_of_le (hfrom.elim (fun h => Nat.le_of_lt h.2) Nat.le_of_eq)⟩
    · obtain rfl := Option.some.inj (hcached.symm.trans h)
      refine hfrom.imp (fun hold => ⟨r, hold.1, hsame.grown⟩) fun heq => ?_
      exact Nat.le_of_eq (hsame.opening.trans heq).symm

/-- **A database call.**  Unless the service stops the invariant holds afterwards; a
`Commit` returns the position reached, and an immediate call that appended
transactions succeeds only when all of them are durable. -/
theorem SessionInv.calls (hinv : SessionInv s) {call : Call}
    (hflag : ∀ e ∈ a.executed, 0 < e.transactions → e.committed = true)
    (hpending : a.wrote call = true → ∀ r ∈ s.cached, r.pending = none)
    {request : Nat} {reply : Reply} {s' : Session} (h : s.Calls a request call reply s') :
    Evolves s s' ∧ (reply ≠ .error → SessionInv s') ∧
    ∀ committed, reply = .executed committed → ∀ r, s'.cached = some r →
      (∀ txid, committed = some txid → txid = r.synced) ∧
      (a.wrote call = true → ∀ t ∈ r.contents, Contained s'.durable r.version t) := by
  cases h with
  | beside hcommit hwrote =>
    refine ⟨.refl s, fun _ => hinv, fun committed hreply r _ => ⟨?_, fun hw => ?_⟩⟩
    · rintro txid rfl
      exact absurd hreply (hcommit txid)
    · exact absurd hreply (hwrote hw committed)
  | ran hcached he halarm hafter =>
    rename_i r r' e durable
    obtain ⟨hr, hopening⟩ := hinv r hcached
    have hw : a.wrote call = true ↔ call.immediate = true ∧ 0 < e.transactions := by
      simp [Answers.wrote, he, halarm]
    obtain ⟨hgrows, hgrown, hinv', hreply⟩ := afterCall_spec hr s.transactions
      (hflag e he) (fun hi hpos => hpending (hw.mpr ⟨hi, hpos⟩) r hcached) a request hafter
    refine ⟨.grown hcached hgrows (Nat.le_refl _) ?_, fun hne => ?_, ?_⟩
    · rintro r'' ⟨⟩
      exact hgrown
    · rintro r'' ⟨⟩
      rw [hgrown.opening]
      exact ⟨hinv' hne, hopening⟩
    · rintro committed hexecuted r'' ⟨⟩
      obtain ⟨htxid, hall⟩ := hreply committed hexecuted
      exact ⟨htxid, fun hwrote => hall (hw.mp hwrote).1 (hw.mp hwrote).2⟩

/-- **A completion.**  Nothing breaks, and one that returns a version has
everything up to the committed position in durable snapshots. -/
theorem SessionInv.completes (hinv : SessionInv s) {committed : Option Nat}
    (hpending : ∀ r ∈ s.cached, r.unpublished committed ≠ none → r.pending = none)
    {request result : Nat} {completion : Completion} {s' : Session}
    (h : s.Completes a request result committed completion s') :
    Evolves s s' ∧ SessionInv s' ∧ ∀ version, completion = .done version → ∃ r, s.cached = some r ∧
      (∀ t ∈ r.base, Contained s'.durable version t) ∧
      ∀ txid, committed = some txid → ∀ t ∈ r.upTo txid, Contained s'.durable version t := by
  have hafter : ∀ {r P} (s'' : Session), s.cached = some r →
      P = r.publishResult a s.durable request r.epoch result committed →
      s''.durable = P.durable → s''.opened = s.opened →
      (∀ r'', s''.cached = some r'' → r'' = P.resident ∧
        (P.ok = true ∨ P.resident.pending ≠ none)) → Evolves s s'' ∧ SessionInv s'' := by
    intro r P s'' hcached hP hdurable hopened hleft
    obtain ⟨hr, hopening⟩ := hinv r hcached
    obtain ⟨hgrows, hsame, hkept, -⟩ := publishResult_attempted hr (hpending r hcached) hP
    refine ⟨.grown hcached (fun x hx => hdurable ▸ hgrows x hx)
      (Nat.le_of_eq hopened.symm) fun r'' hr'' => ?_, fun r'' hr'' => ?_⟩
    · rw [(hleft r'' hr'').1]
      exact hsame.grown
    · obtain ⟨rfl, hok⟩ := hleft r'' hr''
      rw [hdurable, hopened, hsame.opening]
      exact ⟨hkept hok, hopening⟩
  cases h with
  | refused => exact ⟨.refl s, hinv, nofun⟩
  | dropped hcached hdurable hopened =>
    obtain ⟨hinv', hevolves⟩ := SessionInv.dropped hdurable (Nat.le_of_eq hopened.symm) hcached
    exact ⟨hevolves, hinv', nofun⟩
  | failed hcached hP hleft hdurable hopened =>
    obtain ⟨hevolves, hinv'⟩ := hafter _ hcached hP hdurable hopened fun r'' hr'' => by
      obtain ⟨hne, hsome⟩ := Option.ite_none_left_eq_some.mp (hleft.symm.trans hr'')
      exact ⟨(Option.some.inj hsome).symm, .inr hne⟩
    exact ⟨hevolves, hinv', nofun⟩
  | published hcached hP hok hversion =>
    rename_i r P
    obtain ⟨hevolves, hinv'⟩ := hafter
      { s with cached := some P.resident, durable := P.durable } hcached hP rfl rfl
      fun r'' hr'' => ⟨(Option.some.inj hr'').symm, .inl hok⟩
    refine ⟨hevolves, hinv', fun version hdone => ?_⟩
    obtain rfl := hversion version hdone
    obtain ⟨-, hsame, hkept, hcovered⟩ :=
      publishResult_attempted (hinv r hcached).1 (hpending r hcached) hP
    exact ⟨r, hcached, fun t ht => (hkept (.inl hok)).core.base t (hsame.base ▸ ht), hcovered hok⟩

end

/-! ## The service -/

/-- A commit made on the resident database is not above the position of its
scope, and its transactions lie before it. -/
def CommitOk (s : Session) (committed : Nat) (c : Commit) : Prop :=
  c.opening < s.opened ∧ ∀ r, s.cached = some r → c.opening = r.opening →
    c.txid ≤ committed ∧ c.txid ≤ r.synced ∧ ∀ t ∈ c.seen, t ∈ r.upTo c.txid

/-- The commits of every scope are those of the session. -/
def ScopesOk (s : Session) (scopes : List Scope) : Prop :=
  ∀ scope ∈ scopes, ∀ c ∈ scope.commits, CommitOk s scope.committed c

/-- What was answered is durable. -/
def Answered (durable : List Snapshot) : Event → Prop
  | .wrote seen version => ∀ t ∈ seen, Contained durable version t
  | .completed _ seen (.done version) => ∀ t ∈ seen, Contained durable version t
  | .completed _ _ _ => True

/-- What was answered is durable, and what is cached is sound. -/
structure ServiceInv (w : Service) : Prop where
  events : ∀ e ∈ w.events, Answered w.session.durable e
  session : w.stopped = false → SessionInv w.session
  scopes : w.stopped = false → ScopesOk w.session w.scopes

theorem Answered.mono {durable durable' : List Snapshot} {e : Event}
    (h : Answered durable e) (hsub : ∀ x ∈ durable, x ∈ durable') : Answered durable' e := by
  cases e with
  | wrote seen version => exact fun t ht => (h t ht).mono hsub (Nat.le_refl _)
  | completed k seen completion =>
    cases completion with
    | done version => exact fun t ht => (h t ht).mono hsub (Nat.le_refl _)
    | unconfirmed => trivial
    | error => trivial

/-- Commits keep their meaning when the session changes. -/
theorem CommitOk.evolves {s s' : Session} {committed : Nat} {c : Commit}
    (h : CommitOk s committed c) (he : Evolves s s') : CommitOk s' committed c := by
  refine ⟨Nat.lt_of_lt_of_le h.1 he.opened, fun r' hr' hopening => ?_⟩
  rcases he.cached r' hr' with ⟨r, hr, hgrown⟩ | hnew
  · obtain ⟨hle, hsynced, hseen⟩ := h.2 r hr (hopening.trans hgrown.opening)
    exact ⟨hle, Nat.le_trans hsynced hgrown.synced, fun t ht => hgrown.upTo c.txid t (hseen t ht)⟩
  · have := h.1
    omega

theorem ScopesOk.evolves {s s' : Session} {scopes : List Scope} (h : ScopesOk s scopes)
    (he : Evolves s s') : ScopesOk s' scopes :=
  fun scope hscope c hc => (h scope hscope c hc).evolves he

section

variable {w : Service} (hinv : ServiceInv w)
include hinv

/-- The session changes and nothing is answered. -/
theorem ServiceInv.evolves {s' : Session} (hsession : w.stopped = false → SessionInv s')
    (he : Evolves w.session s') : ServiceInv { w with session := s' } :=
  ⟨fun e hmem => (hinv.events e hmem).mono he.grows, hsession,
    fun hrun => (hinv.scopes hrun).evolves he⟩

theorem ServiceInv.stop {s' : Session} (he : Evolves w.session s') :
    ServiceInv { w with session := s', stopped := true } :=
  ⟨fun e hmem => (hinv.events e hmem).mono he.grows, nofun, nofun⟩

/-- A scope records the position its `Commit` call returned. -/
theorem ServiceInv.record (hrun : w.stopped = false) {k : Nat} {scope : Scope}
    (hscope : w.scopes[k]? = some scope) {s' : Session} (he : Evolves w.session s')
    (hsession : SessionInv s') {r : Resident} (hcached : s'.cached = some r)
    {committed : Option Nat} (htxid : ∀ txid, committed = some txid → txid = r.synced) :
    ScopesOk s' (w.scopes.set k (scope.record r committed)) := by
  have hscopes := (hinv.scopes hrun).evolves he
  intro scope' hscope' c hc
  rcases List.mem_or_eq_of_mem_set hscope' with hmem | rfl
  · exact hscopes scope' hmem c hc
  · have hold : ∀ c ∈ scope.commits, CommitOk s' scope.committed c :=
      hscopes scope (List.mem_of_getElem? hscope)
    cases committed with
    | none => exact hold c hc
    | some txid =>
      obtain rfl := htxid txid rfl
      obtain ⟨hr, hopening⟩ := hsession r hcached
      rcases List.mem_cons.mp hc with rfl | hc
      · refine ⟨hopening, fun r' hr' _ => ?_⟩
        rw [hcached] at hr'
        obtain rfl := Option.some.inj hr'
        refine ⟨Nat.le_refl _, Nat.le_refl _, fun t ht => ?_⟩
        show t ∈ r.upTo r.synced
        rw [hr.core.synced, upTo_position]
        exact ht
      · refine ⟨(hold c hc).1, fun r' hr' hsame => ?_⟩
        have hc' := (hold c hc).2 r' hr' hsame
        rw [hcached] at hr'
        obtain rfl := Option.some.inj hr'
        exact ⟨hc'.2.1, hc'.2⟩

/-- A call of a scope. -/
theorem ServiceInv.call (hrun : w.stopped = false) {k : Nat} {scope : Scope}
    (hscope : w.scopes[k]? = some scope) {call : Call} {a : Answers}
    (hC : Steady w (.call k call a)) : ServiceInv (w.call a k scope call) := by
  have hcalls := calls w.session a scope.request scope.epoch call
  have hspec : ∀ {reply s'}, w.session.Calls a scope.request call reply s' → _ :=
    (hinv.session hrun).calls hC.1 hC.2
  fun_cases Service.call w a k scope call with
  | case1 => exact hinv
  | case2 _ s' committed r hcached heq =>
    rw [heq] at hcalls
    obtain ⟨he, hsession, hreply⟩ := hspec hcalls
    have hs' := hsession nofun
    obtain ⟨htxid, hwrote⟩ := hreply committed rfl r hcached
    refine ⟨?_, fun _ => hs', fun _ => hinv.record hrun hscope he hs' hcached htxid⟩
    have hold : ∀ e ∈ w.events, Answered s'.durable e := fun e hmem =>
      (hinv.events e hmem).mono he.grows
    dsimp only
    split
    · rename_i hw
      exact List.forall_mem_cons.mpr ⟨hwrote hw, hold⟩
    · exact hold
  | case5 _ s' heq =>
    rw [heq] at hcalls
    exact hinv.stop (hspec hcalls).1
  | case3 _ s' _ _ heq | case4 _ s' heq =>
    rw [heq] at hcalls
    obtain ⟨he, hsession, -⟩ := hspec hcalls
    exact hinv.evolves (fun _ => hsession nofun) he

/-- A completion is answered.  A version means that everything the scope had
committed is durable. -/
theorem ServiceInv.publish (hrun : w.stopped = false) {k : Nat} {scope : Scope}
    (hscope : w.scopes[k]? = some scope) (hC : w.Undisturbed k) (a : Answers)
    (result : Nat) : ServiceInv (w.publish a k scope result).2 := by
  unfold Service.publish
  dsimp only
  obtain ⟨he, hsession, hdone⟩ := (hinv.session hrun).completes
    (fun r hr => (hC scope hscope r hr).2)
    (completes w.session a scope.request scope.epoch result scope.toPublish)
  unfold Scope.toPublish at he hsession hdone
  generalize w.session.complete a scope.request scope.epoch result
    (if 0 < scope.committed then some scope.committed else none) = completed at he hsession hdone
  obtain ⟨completion, s'⟩ := completed
  refine ⟨?_, fun _ => hsession, fun _ => (hinv.scopes hrun).evolves he⟩
  refine List.forall_mem_cons.mpr ⟨?_, fun e hmem => (hinv.events e hmem).mono he.grows⟩
  cases completion with
  | unconfirmed => trivial
  | error => trivial
  | done version =>
    obtain ⟨r, hcached, hbase, hupTo⟩ := hdone version rfl
    intro t ht
    obtain ⟨c, hc, hseen⟩ := List.mem_flatMap.mp ht
    have hopening := (hC scope hscope r hcached).1 c hc
    obtain ⟨hle, -, hsub⟩ :=
      (hinv.scopes hrun scope (List.mem_of_getElem? hscope) c hc).2 r hcached hopening
    have hmem := upTo_mono hle (hsub t hseen)
    by_cases hpos : 0 < scope.committed
    · exact hupTo scope.committed (if_pos hpos) t hmem
    · -- position zero is before the first local transaction
      rw [Nat.eq_zero_of_not_pos hpos, Resident.upTo, Nat.zero_sub, List.take_zero,
        List.append_nil] at hmem
      exact hbase t hmem

theorem ServiceInv.complete (hrun : w.stopped = false) {k : Nat} {scope : Scope}
    (hscope : w.scopes[k]? = some scope) {result : Nat} {sequence : Option Nat} {a : Answers}
    (hC : Steady w (.complete k result sequence a)) :
    ServiceInv (w.complete a k scope result sequence) := by
  fun_cases Service.complete w a k scope result sequence with
  | case1 => exact hinv.publish hrun hscope hC a result
  | case2 => exact ⟨List.forall_mem_cons.mpr ⟨trivial, hinv.events⟩, nofun, nofun⟩
  | case3 => exact { hinv with }

/-- A turn of `publish_ready`. -/
theorem ServiceInv.publishReady (hrun : w.stopped = false) {a : Answers}
    (hC : Steady w (.publishReady a)) : ServiceInv (w.publishReady a) := by
  fun_cases Service.publishReady w a with
  | case1 => exact { hinv with }
  | case2 => exact { hinv with }
  | case3 _ k result hnext rest scope hscope version w' heq =>
    have hrest : ServiceInv rest := { hinv with }
    have hpublish := hrest.publish hrun hscope (hC _ hnext) a result
    rw [heq] at hpublish
    exact { hpublish with }
  | case4 _ k result hnext rest scope hscope completion w' _ heq =>
    have hrest : ServiceInv rest := { hinv with }
    have hpublish := hrest.publish hrun hscope (hC _ hnext) a result
    rw [heq] at hpublish
    exact ⟨hpublish.events, nofun, nofun⟩

/-- **Every steady step** keeps the invariant. -/
theorem ServiceInv.step {action : Action} (hC : Steady w action) {w' : Service}
    (hstep : Database.step w action = some w') : ServiceInv w' := by
  cases Service.steps hstep with
  | scope request epoch =>
    refine ⟨hinv.events, hinv.session, fun hrun scope hscope c hc => ?_⟩
    rcases List.mem_append.mp hscope with hold | hnew
    · exact hinv.scopes hrun scope hold c hc
    · obtain rfl := List.mem_singleton.mp hnew
      cases hc
  | close k =>
    refine ⟨hinv.events, hinv.session, fun hrun scope hscope c hc => ?_⟩
    obtain ⟨i, hi⟩ := List.getElem?_of_mem hscope
    rw [List.getElem?_modify] at hi
    obtain ⟨scope', hscope', rfl⟩ := Option.map_eq_some_iff.mp hi
    have hold := hinv.scopes hrun scope' (List.mem_of_getElem? hscope')
    split at hc
    · rename_i hki
      rw [if_pos hki]
      exact hold c hc
    · rename_i hki
      rw [if_neg hki]
      exact hold c hc
  | prepare hruns hsound hprepares =>
    obtain ⟨hs', he⟩ := (hinv.session hruns).prepares hsound hprepares
    exact hinv.evolves (fun _ => hs') he
  | call hruns hscope => exact hinv.call hruns hscope hC
  | activate hruns hsound hprepares =>
    obtain ⟨hs', he⟩ := (hinv.session hruns).prepares hsound hprepares
    exact hinv.evolves (fun _ => hs') he
  | hydrated hruns hcached hdurable hopened =>
    obtain ⟨hs', he⟩ := (hinv.session hruns).kept hcached hdurable hopened
    exact hinv.evolves (fun _ => hs') he
  | complete hruns hscope => exact hinv.complete hruns hscope hC
  | publishReady hruns hdraining => exact hinv.publishReady hruns hC
  | reset hruns =>
    have hdropped : SessionInv w.session.reset ∧ Evolves w.session w.session.reset :=
      SessionInv.dropped rfl (Nat.le_refl _) rfl
    exact hinv.evolves (fun _ => hdropped.1) hdropped.2
  | stop hruns => exact hinv.stop (.refl _)

end

/-! ## The result -/

theorem serviceInv_initial (durable : List Snapshot) : ServiceInv (Service.initial durable) :=
  ⟨nofun, fun _ => nofun, nofun⟩

/-- **Durable before acknowledged.**  In every run of the database service
whose steps are steady: when an immediate call that appended transactions
succeeds, every transaction of the local database is in a durable snapshot of
the session's version or an earlier one; and when a completion returns a
version, every transaction made before a `Commit` call of its scope is in a
durable snapshot of that version or an earlier one. -/
theorem acknowledged_contained {durable : List Snapshot} {actions : List Action} {w : Service}
    (hC : Transition.Guarded step Steady (Service.initial durable) actions)
    (hrun : Transition.run step (Service.initial durable) actions = some w) :
    (∀ seen version, Event.wrote seen version ∈ w.events →
      ∀ t ∈ seen, Contained w.session.durable version t) ∧
    ∀ k seen version, Event.completed k seen (.done version) ∈ w.events →
      ∀ t ∈ seen, Contained w.session.durable version t := by
  have hinv : ServiceInv w := Transition.run_guarded_invariant
    (fun _ _ _ hinv hC hstep => hinv.step hC hstep) (serviceInv_initial durable) hC hrun
  exact ⟨fun seen version hmem => hinv.events _ hmem,
    fun k seen version hmem => hinv.events _ hmem⟩

/-- An invocation writes at once, makes another transaction, commits and
completes. -/
def writeCommitComplete : List Action :=
  [.scope 1 (some 3), .prepare 0 true { loaded := some ⟨0, none⟩ },
    .call 0 (.exec true) { executed := some ⟨true, true, 1⟩, ticket := some ⟨1, 3⟩ },
    .call 0 (.exec false) { executed := some ⟨true, true, 1⟩ },
    .call 0 .commit { executed := some ⟨true, false, 0⟩ },
    .close 0, .complete 0 7 none {}]

def writeCommitCompleteEnd : Service :=
  Transition.final step (Service.initial []) writeCommitComplete

theorem acknowledged_contained_completed :
    writeCommitCompleteEnd.events = [.completed 0 [0, 1] (.done 2), .wrote [0] 1] ∧
    (∀ seen version, Event.wrote seen version ∈ writeCommitCompleteEnd.events →
      ∀ t ∈ seen, Contained writeCommitCompleteEnd.session.durable version t) ∧
    ∀ k seen version, Event.completed k seen (.done version) ∈ writeCommitCompleteEnd.events →
      ∀ t ∈ seen, Contained writeCommitCompleteEnd.session.durable version t := by
  have hrun : Transition.run step (Service.initial []) writeCommitComplete =
      some writeCommitCompleteEnd := rfl
  have h := acknowledged_contained (by decide) hrun
  exact ⟨by decide, h.1, h.2⟩

/-! ### A pending publication, and another resident database -/

/-- The snapshot of a completion is not stored and stays pending; then a
background write publishes.  Its files start after those of the pending one. -/
def writeOverPending : List Action :=
  [.scope 1 (some 3), .scope 0 none, .prepare 0 true { loaded := some ⟨0, none⟩ },
    .call 0 (.exec true) { executed := some ⟨true, true, 1⟩, ticket := some ⟨1, 3⟩ },
    .call 0 .commit { executed := some ⟨true, true, 1⟩ },
    .close 0, .complete 0 7 none { write := .failed },
    .call 1 (.exec true) { executed := some ⟨true, true, 1⟩, ticket := some ⟨2, 3⟩ }]

/-- Two invocations commit; the second one's completion gets no ticket and the
resident database is dropped.  A third invocation opens a new one and publishes
its first position, and the first one's position counts as published. -/
def completeOnAnother : List Action :=
  [.scope 1 (some 3), .scope 2 (some 3), .scope 3 (some 3),
    .prepare 0 true { loaded := some ⟨0, none⟩ }, .prepare 1 true {},
    .call 0 .commit { executed := some ⟨true, true, 1⟩ },
    .call 1 .commit { executed := some ⟨true, true, 1⟩ },
    .close 1, .complete 1 8 none {},
    .prepare 2 true { loaded := some ⟨0, none⟩ },
    .call 2 .commit { executed := some ⟨true, true, 1⟩ },
    .close 2, .complete 2 9 none { ticket := some ⟨1, 3⟩ },
    .close 0, .complete 0 7 (some 1) {}, .publishReady {}]

/-- In the first run an immediate write succeeds although transaction 1 is in
no snapshot, in the second one a completion returns version 1 although
transaction 0, which its invocation had committed, is in none. -/
theorem acknowledged_not_contained :
    (∃ w, Transition.run step (Service.initial []) writeOverPending = some w ∧
      w.events.head? = some (.wrote [0, 1, 2] 2) ∧ ∀ s ∈ w.session.durable, 1 ∉ s.contents) ∧
    ∃ w, Transition.run step (Service.initial []) completeOnAnother = some w ∧
      w.events.head? = some (.completed 0 [0] (.done 1)) ∧
      ∀ s ∈ w.session.durable, 0 ∉ s.contents := by
  refine ⟨⟨Transition.final step (Service.initial []) writeOverPending, rfl, by decide, by decide⟩,
    ⟨Transition.final step (Service.initial []) completeOnAnother, rfl, by decide, by decide⟩⟩

end DurableActors.Ports.Database
