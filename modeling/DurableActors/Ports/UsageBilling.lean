import DurableActors.Ports.UsageSessions

/-!
# Billing of a session

Two invariants of the view of a session.  `Sound` holds in every run: each
update comes from a report of the session, so a revision determines its end and
whether it is an estimate.  `Tracked` holds while the cache keeps the session:
what has been issued follows the mark of the session.
-/

namespace DurableActors.Ports.Usage

open Verified

variable {K : Type} {event : LifecycleEvent K}

/-! ## Every update comes from a report -/

/-- The reports of a session, by sequence.  No report follows the stop. -/
structure Reports where
  report : Nat → Option (LifecycleKind × Nat)
  stopped_last : ∀ {n m : Nat} {occurred : Nat} {r : LifecycleKind × Nat},
    report n = some (.stopped, occurred) → report m = some r → m ≤ n

/-- The event is a report of the session; sequences are positive and below `2 ^ 52`. -/
structure Reports.Has (reports : Reports) (event : LifecycleEvent K) : Prop where
  pos : 0 < event.sequence
  small : event.sequence < 2 ^ 52
  report : reports.report event.sequence = some (event.kind, event.occurredAtMs)

/-- The update of a report, or the estimated stop after a report. -/
inductive Reports.Gives (reports : Reports) (u : UsageUpdate K) : Prop
  | exact (n : Nat) (kind : LifecycleKind) (occurred : Nat)
      (hreport : reports.report n = some (kind, occurred)) (hrevision : u.revision = n * 2)
      (hended : u.endedAtMs = if kind = .stopped then some occurred else none)
      (hestimated : u.estimated = false)
  | estimate (n : Nat) (kind : LifecycleKind) (occurred : Nat)
      (hreport : reports.report n = some (kind, occurred)) (hkind : kind ≠ .stopped)
      (hrevision : u.revision = n * 2 + 1) (hended : u.endedAtMs = some occurred)
      (hestimated : u.estimated = true)

/-- What every run keeps for a session, whatever the cache drops. -/
structure Sound (reports : Reports) (v : View K) : Prop where
  observing : ∀ e ∈ v.observing, reports.Has e
  stored : ∀ session, v.session = some session → reports.Has session.event
  issued : ∀ u ∈ v.issued, reports.Gives u

/-- The action delivers a report of the session, if it records one. -/
def Reports.Delivers (reports : Reports) (k : K) : Action K → Prop
  | .record event => event.session = k → reports.Has event
  | _ => True

section Invariants

variable {reports : Reports} {k : K} {v v' : View K} {a : Action K}

theorem Reports.Has.gives (h : reports.Has event) : reports.Gives (.ofEvent event) :=
  .exact event.sequence event.kind event.occurredAtMs h.report rfl rfl rfl

theorem Reports.Has.gives_estimate (h : reports.Has event)
    (hkind : event.kind ≠ .stopped) (now : Nat) : reports.Gives (.estimatedStop event now) :=
  .estimate event.sequence event.kind event.occurredAtMs h.report hkind rfl rfl rfl

/-- Every step keeps the view to what the host reported. -/
theorem Sound.effect (hsound : Sound reports v) (hdelivers : reports.Delivers k a)
    (heffect : Effect k v a v') : Sound reports v' := by
  cases heffect with
  | other => exact hsound
  | record event hkey =>
    have hevent : reports.Has event := hdelivers hkey
    refine ⟨?_, hsound.stored, ?_⟩
    · intro e he
      rcases he with he | he
      · exact he ▸ hevent
      · exact hsound.observing e he
    · intro u hu
      rcases mem_insertIf.mp hu with ⟨-, hu⟩ | hu
      · exact hu ▸ hevent.gives
      · exact hsound.issued u hu
  | reject i now event previous observing hevent hprevious hsupersedes hsub hsup =>
    exact ⟨fun e he => hsound.observing e (hsub he), hsound.stored, hsound.issued⟩
  | accept i now event observing hevent hnewer hsub hsup =>
    have hhas := hsound.observing event hevent
    refine ⟨fun e he => hsound.observing e (hsub he), ?_, ?_⟩
    · intro session hsession
      rw [← Option.some.inj hsession]
      exact hhas
    · intro u hu
      rcases mem_insertIf.mp hu with ⟨-, hu⟩ | hu
      · exact hu ▸ hhas.gives
      · exact hsound.issued u hu
  | mark now order session hsession hstale =>
    have hhas := hsound.stored session hsession
    refine ⟨hsound.observing, ?_, ?_⟩
    · intro marked hmarked
      rw [← Option.some.inj hmarked]
      exact hhas
    · intro u hu
      rcases hu with hu | hu
      · exact hu ▸ hhas.gives_estimate hstale.2.1 now
      · exact hsound.issued u hu
  | retire => exact ⟨hsound.observing, nofun, hsound.issued⟩
  | displace => exact ⟨hsound.observing, nofun, hsound.issued⟩

/-- A revision determines the end and the estimate. -/
theorem Reports.Gives.agree {u u' : UsageUpdate K} (h : reports.Gives u)
    (h' : reports.Gives u') (hrevision : u.revision = u'.revision) :
    u.endedAtMs = u'.endedAtMs ∧ u.estimated = u'.estimated := by
  cases h with
  | exact n kind occurred hreport hn hended hestimated =>
    cases h' with
    | exact m kind' occurred' hreport' hm hended' hestimated' =>
      have hnm : n = m := by omega
      subst hnm
      obtain ⟨hkind, hoccurred⟩ := Prod.mk.inj (Option.some.inj (hreport.symm.trans hreport'))
      rw [hended, hended', hestimated, hestimated', hkind, hoccurred]
      exact ⟨rfl, rfl⟩
    | estimate m kind' occurred' hreport' hkind' hm hended' hestimated' => omega
  | estimate n kind occurred hreport hkind hn hended hestimated =>
    cases h' with
    | exact m kind' occurred' hreport' hm hended' hestimated' => omega
    | estimate m kind' occurred' hreport' hkind' hm hended' hestimated' =>
      have hnm : n = m := by omega
      subst hnm
      obtain ⟨-, hoccurred⟩ := Prod.mk.inj (Option.some.inj (hreport.symm.trans hreport'))
      rw [hended, hended', hestimated, hestimated', hoccurred]
      exact ⟨rfl, rfl⟩

/-- No update is newer than the stop, and one as new is the stop. -/
theorem Reports.Gives.le_stopped (hevent : reports.Has event) (hstopped : event.kind = .stopped)
    {u : UsageUpdate K} (h : reports.Gives u) : u.revision ≤ event.sequence * 2 := by
  have hlast := hevent.report
  rw [hstopped] at hlast
  cases h with
  | exact n kind occurred hreport hn hended hestimated =>
    have := reports.stopped_last hlast hreport
    omega
  | estimate n kind occurred hreport hkind hn hended hestimated =>
    have hle := reports.stopped_last hlast hreport
    have hne : n ≠ event.sequence := by
      intro heq
      subst heq
      rw [hlast] at hreport
      exact hkind (Prod.mk.inj (Option.some.inj hreport)).1.symm
    omega

/-! ## Updates follow the mark of the session -/

/-- What a run keeps for a session while the cache keeps its entry. -/
structure Tracked (v : View K) : Prop where
  /-- An update of a report is not newer than the session, unless its report
  still waits for the store. -/
  exact_le : ∀ u ∈ v.issued, u.estimated = false →
    (∃ e ∈ v.observing, u.revision = e.sequence * 2) ∨
      ∃ session, v.session = some session ∧ u.revision ≤ session.event.sequence * 2
  /-- An estimate is not newer than the session, and an update follows it once
  the session is open again. -/
  estimate_le : ∀ u ∈ v.issued, u.estimated = true → ∃ session, v.session = some session ∧
    u.revision ≤ session.event.sequence * 2 + 1 ∧
      (session.estimated = false →
        ∃ u' ∈ v.issued, u'.estimated = false ∧ u.revision < u'.revision)
  marked : ∀ session, v.session = some session → session.estimated = true →
    ∃ u ∈ v.issued, u.estimated = true ∧ u.revision = session.event.sequence * 2 + 1
  boundary : ∀ e ∈ v.observing, e.boundary = true → .ofEvent e ∈ v.issued

/-- The cache keeps the session. -/
def Keeps (k : K) (a : Action K) : Prop := a ≠ .retire k ∧ a ≠ .displace k

instance [DecidableEq K] (k : K) (a : Action K) : Decidable (Keeps k a) :=
  inferInstanceAs (Decidable (_ ∧ _))

/-- A report that the store rejects is not newer than the session. -/
theorem Sound.sequence_le (hsound : Sound reports v) (hevent : event ∈ v.observing)
    {previous : Session K} (hprevious : v.session = some previous)
    (hsupersedes : previous.Supersedes event) : event.sequence ≤ previous.event.sequence := by
  rcases hsupersedes with hle | hstopped
  · exact hle
  · have hlast := (hsound.stored previous hprevious).report
    rw [hstopped] at hlast
    exact reports.stopped_last hlast (hsound.observing event hevent).report

theorem Tracked.record (h : Tracked v) (event : LifecycleEvent K) :
    Tracked (⟨v.session, insert event v.observing,
      insertIf event.boundary (.ofEvent event) v.issued⟩ : View K) := by
  refine ⟨?_, ?_, ?_, ?_⟩
  · intro u hu hexact
    rcases mem_insertIf.mp hu with ⟨-, hu⟩ | hu
    · exact .inl ⟨event, .inl rfl, by rw [hu]; rfl⟩
    · rcases h.exact_le u hu hexact with ⟨e, he, hrevision⟩ | hle
      · exact .inl ⟨e, .inr he, hrevision⟩
      · exact .inr hle
  · intro u hu hestimated
    rcases mem_insertIf.mp hu with ⟨-, hu⟩ | hu
    · rw [hu] at hestimated
      cases hestimated
    · obtain ⟨session, hsession, hle, hopen⟩ := h.estimate_le u hu hestimated
      refine ⟨session, hsession, hle, fun hunmarked => ?_⟩
      obtain ⟨u', hu', hlater⟩ := hopen hunmarked
      exact ⟨u', .inr hu', hlater⟩
  · intro session hsession hmark
    obtain ⟨u, hu, hestimate⟩ := h.marked session hsession hmark
    exact ⟨u, .inr hu, hestimate⟩
  · intro e he hboundary
    rcases he with he | he
    · subst he
      exact .inl ⟨hboundary, rfl⟩
    · exact .inr (h.boundary e he hboundary)

/-- A newer report opens the session; the correction is issued with it. -/
theorem Tracked.accept (h : Tracked v) (now : Nat) {observing : Set (LifecycleEvent K)}
    (hevent : event ∈ v.observing)
    (hnewer : ∀ previous, v.session = some previous → ¬ previous.Supersedes event)
    (hsub : observing ⊆ v.observing) (hsup : v.observing ⊆ insert event observing) :
    Tracked (⟨some ⟨event, false, now⟩, observing,
      insertIf (v.session.any (·.estimated) && !event.boundary) (.ofEvent event)
        v.issued⟩ : View K) := by
  have hlt : ∀ previous, v.session = some previous →
      previous.event.sequence < event.sequence := by
    intro previous hprevious
    by_contra hge
    exact hnewer previous hprevious (.inl (Nat.le_of_not_lt hge))
  refine ⟨?_, ?_, ?_, ?_⟩
  · intro u hu hexact
    rcases mem_insertIf.mp hu with ⟨-, hu⟩ | hu
    · exact .inr ⟨_, rfl, by rw [hu]; exact Nat.le_refl _⟩
    · rcases h.exact_le u hu hexact with ⟨e, he, hrevision⟩ | ⟨previous, hprevious, hle⟩
      · rcases hsup he with he | he
        · exact .inr ⟨_, rfl, by rw [hrevision, he]⟩
        · exact .inl ⟨e, he, hrevision⟩
      · have := hlt previous hprevious
        exact .inr ⟨_, rfl, by show u.revision ≤ event.sequence * 2; omega⟩
  · intro u hu hestimated
    rcases mem_insertIf.mp hu with ⟨-, hu⟩ | hu
    · rw [hu] at hestimated
      cases hestimated
    · obtain ⟨previous, hprevious, hle, hopen⟩ := h.estimate_le u hu hestimated
      have hnew := hlt previous hprevious
      refine ⟨_, rfl, by show u.revision ≤ event.sequence * 2 + 1; omega, fun _ => ?_⟩
      by_cases hmark : previous.estimated = true
      · -- the report itself is issued: as a boundary, or as a correction
        have hissued : UsageUpdate.ofEvent event ∈
            insertIf (v.session.any (·.estimated) && !event.boundary) (.ofEvent event)
              v.issued := by
          by_cases hboundary : event.boundary = true
          · exact .inr (h.boundary event hevent hboundary)
          · exact .inl ⟨by simp [hprevious, hmark, hboundary], rfl⟩
        exact ⟨_, hissued, rfl, by show u.revision < event.sequence * 2; omega⟩
      · obtain ⟨u', hu', hlater⟩ := hopen (by simpa using hmark)
        exact ⟨u', .inr hu', hlater⟩
  · intro session hsession hmark
    rw [← Option.some.inj hsession] at hmark
    cases hmark
  · intro e he hboundary
    exact .inr (h.boundary e (hsub he) hboundary)

theorem Tracked.mark (h : Tracked v) {session : Session K} (hsession : v.session = some session)
    (now : Nat) : Tracked (⟨some { session with estimated := true, writtenAt := now }, v.observing,
      insert (.estimatedStop session.event now) v.issued⟩ : View K) := by
  refine ⟨?_, ?_, ?_, ?_⟩
  · intro u hu hexact
    rcases hu with hu | hu
    · rw [hu] at hexact
      cases hexact
    · rcases h.exact_le u hu hexact with hwaits | ⟨other, hother, hle⟩
      · exact .inl hwaits
      · rw [hsession] at hother
        rw [← Option.some.inj hother] at hle
        exact .inr ⟨_, rfl, hle⟩
  · intro u hu hestimated
    refine ⟨_, rfl, ?_, fun hunmarked => nomatch hunmarked⟩
    rcases hu with hu | hu
    · rw [hu]
      exact Nat.le_refl _
    · obtain ⟨other, hother, hle, -⟩ := h.estimate_le u hu hestimated
      rw [hsession] at hother
      rw [← Option.some.inj hother] at hle
      exact hle
  · intro marked hmarked _
    rw [← Option.some.inj hmarked]
    exact ⟨_, .inl rfl, rfl, rfl⟩
  · intro e he hboundary
    exact .inr (h.boundary e he hboundary)

/-- While the cache keeps the entry, no update is ahead of the session for good. -/
theorem Tracked.effect (h : Tracked v) (hsound : Sound reports v) (hkeeps : Keeps k a)
    (heffect : Effect k v a v') : Tracked v' := by
  cases heffect with
  | other => exact h
  | record event hkey => exact h.record event
  | reject i now event previous observing hevent hprevious hsupersedes hsub hsup =>
    refine ⟨?_, h.estimate_le, h.marked, fun e he => h.boundary e (hsub he)⟩
    intro u hu hexact
    rcases h.exact_le u hu hexact with ⟨e, he, hrevision⟩ | hle
    · rcases hsup he with he | he
      · have hle := hsound.sequence_le hevent hprevious hsupersedes
        exact .inr ⟨previous, hprevious, by rw [hrevision, he]; omega⟩
      · exact .inl ⟨e, he, hrevision⟩
    · exact .inr hle
  | accept i now event observing hevent hnewer hsub hsup =>
    exact h.accept now hevent hnewer hsub hsup
  | mark now order session hsession hstale => exact h.mark hsession now
  | retire => exact absurd rfl hkeeps.1
  | displace => exact absurd rfl hkeeps.2

end Invariants

/-! ## Runs -/

section Runs

variable {reports : Reports} {k : K} {w w' : World K} {actions : List (Action K)}

theorem view_initial : (World.initial : World K).view k = ⟨none, ∅, ∅⟩ := by
  refine View.ext rfl (fun e => ?_) (fun u => ?_)
  · exact ⟨(fun h => nomatch h.1), fun h => nomatch h⟩
  · exact ⟨(fun h => nomatch h.1), fun h => nomatch h⟩

theorem keyed_initial : (World.initial : World K).sessions.Keyed := nofun

variable [DecidableEq K]

/-- A boundary report is published when it is recorded, and stays so. -/
theorem recorded_published (hkeyed : w.sessions.Keyed)
    (hrun : Transition.run step w actions = some w') (hmem : .record event ∈ actions)
    (hboundary : event.boundary = true) : .ofEvent event ∈ w'.published := by
  let P (w : World K) : Prop := w.sessions.Keyed ∧ UsageUpdate.ofEvent event ∈ w.published
  have hstep : ∀ s a t, P s → step s a = some t → P t := by
    intro s a t hs hstep
    obtain ⟨hkeyed, hsub, -⟩ := step_effect hs.1 hstep event.session
    exact ⟨hkeyed, hsub hs.2⟩
  induction actions generalizing w with
  | nil => cases hmem
  | cons a actions ih =>
    obtain ⟨t, ht, hrest⟩ := Transition.run_cons_eq_some.mp hrun
    have hkeyed' := (step_effect hkeyed ht event.session).1
    rcases List.mem_cons.mp hmem with rfl | hmem
    · refine (Transition.run_invariant hstep ⟨hkeyed', ?_⟩ hrest).2
      rw [← Option.some.inj ht]
      dsimp only
      rw [if_pos hboundary]
      exact List.mem_append_right _ (List.mem_singleton_self _)
    · exact ih hkeyed' hrest hmem

/-- What every effect keeps of a view holds in every run. -/
theorem run_view {C : Action K → Prop} {P : View K → Prop} (hinitial : P ⟨none, ∅, ∅⟩)
    (heffect : ∀ v a v', P v → C a → Effect k v a v' → P v') (hactions : ∀ a ∈ actions, C a)
    (hrun : Transition.run step World.initial actions = some w) : P (w.view k) := by
  let Q (w : World K) : Prop := w.sessions.Keyed ∧ P (w.view k)
  have hstep : ∀ s a t, Q s → C a → step s a = some t → Q t := by
    intro s a t hs ha hstep
    obtain ⟨hkeyed, -, hview⟩ := step_effect hs.1 hstep k
    exact ⟨hkeyed, heffect _ _ _ hs.2 ha hview⟩
  have hstart : Q World.initial := ⟨keyed_initial, view_initial ▸ hinitial⟩
  exact (Transition.run_guarded_invariant hstep hstart
    (.of_forall (fun a ha _ => hactions a ha) _) hrun).2

theorem sound_run (hdelivers : ∀ a ∈ actions, reports.Delivers k a)
    (hrun : Transition.run step World.initial actions = some w) : Sound reports (w.view k) :=
  run_view ⟨nofun, nofun, nofun⟩ (fun _ _ _ h hd heffect => h.effect hd heffect) hdelivers hrun

theorem tracked_run (hdelivers : ∀ a ∈ actions, reports.Delivers k a)
    (hkeeps : ∀ a ∈ actions, Keeps k a)
    (hrun : Transition.run step World.initial actions = some w) : Tracked (w.view k) := by
  let P (v : View K) : Prop := Sound reports v ∧ Tracked v
  have heffect : ∀ v a v', P v → reports.Delivers k a ∧ Keeps k a → Effect k v a v' → P v' :=
    fun v a v' h hguard he => ⟨h.1.effect hguard.1 he, h.2.effect h.1 hguard.2 he⟩
  have hinitial : P ⟨none, ∅, ∅⟩ := ⟨⟨nofun, nofun, nofun⟩, nofun, nofun, nofun, nofun⟩
  exact (run_view hinitial heffect (fun a ha => ⟨hdelivers a ha, hkeeps a ha⟩) hrun).2

/-! ## What the consumer keeps -/

/-- The update the consumer keeps is one of the greatest revision. -/
def Kept (w : World K) (k : K) (u : UsageUpdate K) : Prop :=
  u ∈ w.published ∧ u.session = k ∧
    ∀ u' ∈ w.published, u'.session = k → u'.revision ≤ u.revision

/-- **Billing converges**: the updates of a revision agree; once the stop of a
session has been recorded, the update the consumer keeps is that stop; and as
long as the cache keeps the session, whenever no call is in progress the
consumer keeps an estimated stop exactly if the session is marked. -/
theorem usage_updates_converge (hdelivers : ∀ a ∈ actions, reports.Delivers k a)
    (hrun : Transition.run step World.initial actions = some w) :
    (∀ u ∈ w.published, ∀ u' ∈ w.published, u.session = k → u'.session = k →
      u.revision = u'.revision → u.endedAtMs = u'.endedAtMs ∧ u.estimated = u'.estimated) ∧
    (∀ event, .record event ∈ actions → event.session = k → event.kind = .stopped →
      (∃ u, Kept w k u) ∧ ∀ u, Kept w k u →
        u.endedAtMs = some event.occurredAtMs ∧ u.estimated = false) ∧
    ((∀ a ∈ actions, Keeps k a) → w.calls = [] → ((∃ u, Kept w k u ∧ u.estimated = true) ↔
        ∃ session, w.sessions k = some session ∧ session.estimated = true)) := by
  have hsound := sound_run hdelivers hrun
  have hgives : ∀ u ∈ w.published, u.session = k → reports.Gives u :=
    fun u hu hk => hsound.issued u ⟨mem_issued.mpr (.inl hu), hk⟩
  refine ⟨?_, ?_, ?_⟩
  · intro u hu u' hu' hk hk' hrevision
    exact (hgives u hu hk).agree (hgives u' hu' hk') hrevision
  · intro event hevent hk hstopped
    have hhas : reports.Has event := hdelivers _ hevent hk
    have hboundary : event.boundary = true := by
      rw [LifecycleEvent.boundary, hstopped]
      rfl
    have hpublished := recorded_published keyed_initial hrun hevent hboundary
    refine ⟨⟨_, hpublished, hk, fun u hu hus => (hgives u hu hus).le_stopped hhas hstopped⟩, ?_⟩
    intro u hkept
    have hle := (hgives u hkept.1 hkept.2.1).le_stopped hhas hstopped
    have hge := hkept.2.2 _ hpublished hk
    obtain ⟨hended, hestimated⟩ := (hgives u hkept.1 hkept.2.1).agree hhas.gives
      (Nat.le_antisymm hle hge)
    rw [hended, hestimated]
    exact ⟨if_pos hstopped, rfl⟩
  · intro hkeeps hcalls
    have htracked := tracked_run hdelivers hkeeps hrun
    have hissued : ∀ u, u ∈ w.published → u.session = k → u ∈ (w.view k).issued :=
      fun u hu hk => ⟨mem_issued.mpr (.inl hu), hk⟩
    have hpublished : ∀ u ∈ (w.view k).issued, u ∈ w.published ∧ u.session = k := by
      rintro u ⟨hu, hk⟩
      rcases mem_issued.mp hu with hu | ⟨call, hcall, -⟩
      · exact ⟨hu, hk⟩
      · rw [hcalls] at hcall
        cases hcall
    constructor
    · rintro ⟨u, hkept, hestimated⟩
      obtain ⟨session, hsession, -, hopen⟩ :=
        htracked.estimate_le u (hissued u hkept.1 hkept.2.1) hestimated
      refine ⟨session, hsession, ?_⟩
      by_contra hunmarked
      obtain ⟨u', hu', -, hlater⟩ := hopen (by simpa using hunmarked)
      have hle := hkept.2.2 u' (hpublished u' hu').1 (hpublished u' hu').2
      omega
    · rintro ⟨session, hsession, hmarked⟩
      obtain ⟨u, hu, hestimated, hrevision⟩ := htracked.marked session hsession hmarked
      refine ⟨u, ⟨(hpublished u hu).1, (hpublished u hu).2, ?_⟩, hestimated⟩
      intro u' hu' hk'
      have hold := hissued u' hu' hk'
      have hview : (w.view k).session = some session := hsession
      by_cases hexact : u'.estimated = true
      · obtain ⟨other, hother, hle, -⟩ := htracked.estimate_le u' hold hexact
        rw [hview] at hother
        rw [← Option.some.inj hother] at hle
        omega
      · rcases htracked.exact_le u' hold (by simpa using hexact) with
          ⟨e, he, -⟩ | ⟨other, hother, hle⟩
        · rw [mem_view_observing, hcalls] at he
          cases he.1
        · rw [hview] at hother
          rw [← Option.some.inj hother] at hle
          omega

end Runs

/-! A session whose host is silent for more than a day: the cache drops its
entry, and the heartbeat that follows does not correct the estimate. -/

def silentReports : Reports where
  report
    | 1 => some (.started, 0)
    | 2 => some (.heartbeat, 90000000)
    | _ => none
  stopped_last := by
    intro n m occurred r hn
    split at hn <;> cases hn

def firstReport : LifecycleEvent Unit := ⟨(), .started, 1, 0, 0⟩
def lateHeartbeat : LifecycleEvent Unit := ⟨(), .heartbeat, 2, 90000000, 90000000⟩

def silentDay : List (Action Unit) :=
  [.record firstReport, .observe 0 0, .reconcile 35000 [()], .publish 0,
    .reconcile 86435000 [()], .retire (), .record lateHeartbeat, .observe 0 90000000]

theorem silentReports_firstReport : silentReports.Has firstReport :=
  ⟨by decide, by decide, rfl⟩

theorem silentReports_lateHeartbeat : silentReports.Has lateHeartbeat :=
  ⟨by decide, by decide, rfl⟩

/-- No call is in progress, a heartbeat has been accepted after the estimate, and
the consumer still keeps the estimate. -/
theorem estimate_survives_heartbeat :
    (∀ event, .record event ∈ silentDay → silentReports.Has event) ∧
      ∃ w, Transition.run step World.initial silentDay = some w ∧ w.calls = [] ∧
        (∃ u, Kept w () u ∧ u.estimated = true) ∧
        w.sessions () = some ⟨lateHeartbeat, false, 90000000⟩ := by
  constructor
  · intro event hevent
    have hcases : event = firstReport ∨ event = lateHeartbeat := by
      simpa [silentDay] using hevent
    rcases hcases with rfl | rfl
    · exact silentReports_firstReport
    · exact silentReports_lateHeartbeat
  · exact ⟨_, rfl, rfl, ⟨.estimatedStop firstReport 35000, ⟨by decide, rfl, by decide⟩, rfl⟩, rfl⟩

theorem usage_updates_converge_estimated :
    ∃ w, Transition.run step World.initial (silentDay.take 4) = some w ∧ w.calls = [] ∧
      ∃ u, Kept w () u ∧ u.estimated = true := by
  refine ⟨_, rfl, rfl, ?_⟩
  have hdelivers : ∀ a ∈ silentDay.take 4, silentReports.Delivers () a := by
    intro a ha
    have hcases : a = .record firstReport ∨ a = .observe 0 0 ∨ a = .reconcile 35000 [()] ∨
        a = .publish 0 := by
      simpa [silentDay] using ha
    rcases hcases with rfl | rfl | rfl | rfl
    · exact fun _ => silentReports_firstReport
    · trivial
    · trivial
    · trivial
  have hkeeps : ∀ a ∈ silentDay.take 4, Keeps () a := by decide
  have hmark := (usage_updates_converge hdelivers rfl).2.2 hkeeps rfl
  exact hmark.mpr ⟨⟨firstReport, true, 35000⟩, rfl, rfl⟩

end DurableActors.Ports.Usage
