import DurableActors.Ports.SqliteChain

/-!
# The snapshots of one activation

The invariant of an activation whose writer refuses all writes once one has
failed or was cancelled: its snapshots continue each other, and while nothing has
failed the resident database is aligned with the newest of them.  From it every
snapshot has a complete history, which `resolve` walks to transaction one.
-/

namespace DurableActors.Ports.Sqlite

open Verified
open Verified.Checked
open Verified.Journal

variable {written : List Stored} {found : Option Stored}

/-! ## The storage -/

/-- The snapshots found and written are stored under their names, and those
written continue each other. -/
structure Storage.Kept (site : Site) (found : Option Stored) (storage : Storage) : Prop where
  good : ∀ d, d ∈ storage.written ∨ d ∈ found → d.Good site
  stored : ∀ d, d ∈ storage.written ∨ d ∈ found → storage.get d.object = some d.bytes
  owned : ∀ d ∈ storage.written, d.snapshot.epoch = site.epoch
  lineage : Lineage site found storage.written

section

variable {site : Site} {found : Option Stored} {storage storage' : Storage} {d : Stored}

/-- The newest snapshot is found or was written. -/
theorem mem_of_newest (h : d ∈ written.head?.or found) : d ∈ written ∨ d ∈ found := by
  rcases Option.or_eq_some_iff.mp h with hhead | ⟨-, hfound⟩
  · exact .inl (List.mem_of_head? hhead)
  · exact .inr hfound

/-- Versions grow along the snapshots of an activation. -/
theorem lineage_version_le (h : Lineage site found written) :
    ∀ d ∈ written, d.snapshot.version ≤ versionOf (written.head?.or found) := by
  induction written with
  | nil => simp
  | cons e written ih =>
    intro d hd
    have hversion := h.1.version
    rcases List.mem_cons.mp hd with rfl | hd
    · exact Nat.le_refl _
    · have hle := ih h.2 d hd
      change d.snapshot.version ≤ e.snapshot.version
      omega

/-- **One more snapshot.** -/
theorem Storage.Kept.persist (h : storage.Kept site found) (hgood : d.Good site)
    (howned : d.snapshot.epoch = site.epoch)
    (hcontinues : d.Continues site (storage.written.head?.or found))
    (hpersist : storage.persist d = some storage') :
    storage'.Kept site found ∧ storage'.written = d :: storage.written := by
  obtain ⟨hkeeps, hget, hwritten⟩ := Storage.persist_eq_some hpersist
  have hname : ∀ e : Stored, e.Good site → e.snapshot.epoch = site.epoch →
      e.object = site.stream.object e.snapshot.version := by
    intro e he hown
    rw [he.named, Site.objectName_own hown]
  -- its version is new, and so is its name
  have hnew : storage.written.any (fun e => e.object = d.object) = false := by
    rw [List.any_eq_false]
    intro e he hsame
    have hsame := of_decide_eq_true hsame
    rw [hname e (h.good e (.inl he)) (h.owned e he), hname d hgood howned] at hsame
    have hversion := StateStream.object_inj hsame
    have hle := lineage_version_le h.lineage e he
    have hnext := hcontinues.version
    omega
  have hwritten' : storage'.written = d :: storage.written := by simpa [hnew] using hwritten
  refine ⟨?_, hwritten'⟩
  constructor
  case good =>
    rintro e (he | he)
    · rw [hwritten'] at he
      rcases List.mem_cons.mp he with rfl | he
      · exact hgood
      · exact h.good e (.inl he)
    · exact h.good e (.inr he)
  case stored =>
    rintro e (he | he)
    · rw [hwritten'] at he
      rcases List.mem_cons.mp he with rfl | he
      · exact hget
      · exact hkeeps _ _ (h.stored e (.inl he))
    · exact hkeeps _ _ (h.stored e (.inr he))
  case owned =>
    intro e he
    rw [hwritten'] at he
    rcases List.mem_cons.mp he with rfl | he
    · exact howned
    · exact h.owned e he
  case lineage =>
    rw [hwritten']
    exact h.lineage.cons hcontinues

end

/-! ## Loading -/

/-- What `load_cached` makes of a stored snapshot. -/
structure Loads (site : Site) (storage : Storage) (d : Stored) (a : LoadAnswers)
    (r : ResidentDatabase) : Prop where
  aligned : r.Aligned site (some d)
  pending : r.pending = none
  synced : r.synced = if a.resumed = true then d.snapshot.sqlite.txid else 0
  published : r.published = some r.synced
  request : r.lastRequest = d.snapshot.completion.map fun _ => d.snapshot.request
  result : r.lastResult = d.snapshot.completion
  history : ∃ resolved, resolve site.serde.toCodec (storedHistory storage.get) ()
    (d.snapshot.version + 1) d.object d.bytes a.prefetched = some (.ok (resolved, ()))

/-- A load that succeeds restores the stored snapshot. -/
theorem loadCached_eq_ok {site : Site} {storage : Storage} {d : Stored} {a : LoadAnswers}
    {r : ResidentDatabase} (hgood : d.Good site)
    (hload : loadCached site storage d.snapshot.version d.bytes a = .ok r) :
    Loads site storage d a r := by
  unfold loadCached at hload
  obtain ⟨snapshot, hdecode, hversion⟩ := bind_eq_ok.mp hload
  obtain ⟨_, -, hepoch⟩ := bind_eq_ok.mp hversion
  obtain ⟨_, -, hresolve⟩ := bind_eq_ok.mp hepoch
  obtain ⟨⟨resolved, _⟩, hresolved, hrestored⟩ := bind_eq_ok.mp hresolve
  obtain ⟨_, -, hreturn⟩ := bind_eq_ok.mp hrestored
  obtain rfl := Except.ok.inj (hgood.decoded.symm.trans hdecode)
  rw [← hgood.named] at hresolved hreturn
  have hhistory : resolve site.serde.toCodec (storedHistory storage.get) ()
      (d.snapshot.version + 1) d.object d.bytes a.prefetched = some (.ok (resolved, ())) := by
    cases hsome : resolve site.serde.toCodec (storedHistory storage.get) ()
        (d.snapshot.version + 1) d.object d.bytes a.prefetched with
    | none =>
      rw [hsome] at hresolved
      cases hresolved
    | some result =>
      rw [hsome] at hresolved
      exact congrArg some hresolved
  have htxid : resolved.sqlite.txid = d.snapshot.sqlite.txid := by
    obtain ⟨head, hhead, htxid, -⟩ := (resolve_restores hhistory).covers
    obtain rfl := Except.ok.inj (hgood.decoded.symm.trans hhead)
    exact htxid
  have hpositive : 0 < d.snapshot.sqlite.txid :=
    (StateSnapshot.decode_valid hgood.decoded).2.positive
  obtain rfl := Except.ok.inj hreturn
  rw [htxid]
  constructor
  case pending => rfl
  case synced => rfl
  case published => rfl
  case request => rfl
  case result => rfl
  case history => exact ⟨resolved, hhistory⟩
  case aligned =>
    by_cases hresumed : a.resumed = true
    · simp only [hresumed, if_true]
      refine ⟨rfl, rfl, .inr ⟨d, rfl, ?_, rfl⟩, by rintro _ ⟨⟩⟩
      exact if_pos ⟨trivial, hpositive⟩
    · simp only [hresumed]
      exact ⟨rfl, rfl, .inl ⟨rfl, rfl⟩, by rintro _ ⟨⟩⟩

/-! ## The invariant -/

/-- How the write of an action ends. -/
def Action.write : Action → Option Write
  | .immediate _ _ a => some a.write
  | .complete _ _ _ a => some a.write
  | .prepare a => some a.write
  | _ => none

/-- Once a write has failed or was cancelled, the writer refuses all writes. -/
def Refuses (w : Publisher) (action : Action) : Prop :=
  w.refused = true → ∀ write ∈ action.write, write = .refused

instance (w : Publisher) (action : Action) : Decidable (Refuses w action) :=
  inferInstanceAs (Decidable (w.refused = true → ∀ write ∈ action.write, write = .refused))

/-- What is stored is restorable, and the resident database is at its newest. -/
structure Publisher.Inv (site : Site) (w : Publisher) : Prop where
  kept : w.storage.Kept site w.found
  aligned : w.refused = false → w.stopped = false → ∀ r ∈ w.resident,
    r.pending = none ∧ r.Aligned site w.newest

section

variable {site : Site} {w w' : Publisher} {a : Answers} {storage : Storage}
  {r : ResidentDatabase}

theorem writeSnapshot_refused (plan : WritePlan) (s : StateSnapshot) (bytes : Bytes) :
    writeSnapshot site storage plan s bytes .refused = (false, storage) := by
  unfold writeSnapshot
  split
  · rfl
  · rw [if_neg (fun h => h.2.2 rfl)]

theorem ResidentDatabase.writePending_refused (hwrite : a.write = .refused)
    (p : PendingStateCommit) (bytes : Bytes) :
    r.writePending site a storage p bytes =
      ⟨false, true, { r with pending := some p }, storage⟩ := by
  unfold ResidentDatabase.writePending
  rw [hwrite, writeSnapshot_refused]

/-- A writer that refuses stores nothing. -/
theorem ResidentDatabase.publishStateOnce_refused (hwrite : a.write = .refused)
    (request : String) (completion : Option String) (txid : Nat) :
    (r.publishStateOnce site a storage request completion txid).storage = storage := by
  fun_cases ResidentDatabase.publishStateOnce site r a storage request completion txid with
  | case3 => rw [ResidentDatabase.writePending_refused hwrite]
  | _ => rfl

theorem ResidentDatabase.finishPendingCommit_refused (hwrite : a.write = .refused) :
    (r.finishPendingCommit site a storage).storage = storage := by
  fun_cases ResidentDatabase.finishPendingCommit site r a storage with
  | case5 => rw [ResidentDatabase.writePending_refused hwrite]
  | _ => rfl

/-- When a write has failed, only the storage matters. -/
theorem Publisher.Inv.of_refused (hkept : w.storage.Kept site w.found)
    (hrefused : w.refused = true) : w.Inv site :=
  ⟨hkept, fun h => absurd (hrefused.symm.trans h) (by decide)⟩

theorem Publisher.Inv.of_stopped (hkept : w.storage.Kept site w.found)
    (hstopped : w.stopped = true) : w.Inv site :=
  ⟨hkept, fun _ h => absurd (hstopped.symm.trans h) (by decide)⟩

theorem Publisher.Inv.of_absent (hkept : w.storage.Kept site w.found)
    (habsent : w.resident = none) : w.Inv site := by
  refine ⟨hkept, fun _ _ r hr => ?_⟩
  rw [habsent] at hr
  cases hr

section

variable (hinv : w.Inv site)
include hinv

/-- A publication on an aligned database: a failed one has stored nothing or is
the last one, a successful one leaves the database aligned. -/
theorem Publisher.Inv.publication (haligned : r.Aligned site w.newest) (request : String)
    (completion : Option String) (txid : Nat) {p : Published}
    (hp : r.publishStateOnce site a w.storage request completion txid = p) :
    (p.ok = false ∧ p.wrote = false ∧ p.resident.pending = r.pending ∧ p.storage = w.storage) ∨
      (w.after p).Inv site := by
  rcases haligned.publishStateOnce_outcome request completion txid with
    ⟨resident, hpending, hresult⟩ | ⟨d, -, -, -, houtcome⟩
  · rw [hresult] at hp
    subst hp
    exact .inl ⟨rfl, rfl, hpending, rfl⟩
  · right
    rw [hp] at houtcome
    cases houtcome with
    | refused hawaits =>
      exact .of_refused hinv.kept (by simp [Publisher.after])
    | lost hawaits hwrite hgood hpersist =>
      have hkept := hinv.kept.persist hgood hawaits.owned hawaits.continues hpersist
      exact .of_refused hkept.1 (by simp [Publisher.after])
    | stored hsettled howned hcontinues hwrite hgood hpersist =>
      rename_i resident storage'
      obtain ⟨hkept, hwritten⟩ := hinv.kept.persist hgood howned hcontinues hpersist
      refine ⟨hkept, fun _ _ r' hr' => ?_⟩
      obtain rfl := Option.some.inj hr'
      refine ⟨hsettled.pending, ?_⟩
      have hnewest : (w.after ⟨true, true, resident, storage'⟩).newest = some d := by
        simp only [Publisher.newest, Publisher.after, hwritten, List.head?_cons, Option.some_or]
      rw [hnewest]
      exact hsettled.aligned

theorem Publisher.Inv.load {la : LoadAnswers} (hload : w.load site la = some r) :
    r.pending = none ∧ r.Aligned site w.newest := by
  revert hload
  fun_cases Publisher.load site w la with
  | case1 hnone =>
    rintro ⟨⟩
    rw [hnone]
    exact ⟨rfl, rfl, rfl, .inl ⟨rfl, rfl⟩, nofun⟩
  | case2 => rintro ⟨⟩
  | case3 d hsome =>
    cases hcached : loadCached site w.storage d.snapshot.version d.bytes la with
    | error e => rintro ⟨⟩
    | ok r' =>
      rintro ⟨⟩
      have hloads := loadCached_eq_ok (hinv.kept.good d (mem_of_newest hsome)) hcached
      rw [hsome]
      exact ⟨hloads.pending, hloads.aligned⟩

/-- The storage after a publication whose writer refuses. -/
theorem Publisher.Inv.after_refused {p : Published} (hrefused : w.refused = true)
    (hp : p.storage = w.storage) : (w.after p).Inv site := by
  refine .of_refused ?_ (by simp [Publisher.after, hrefused])
  change p.storage.Kept site w.found
  rw [hp]
  exact hinv.kept

/-- `publish_immediate` publishes, or the service ends. -/
theorem Publisher.Inv.immediate {request : String} (hstopped : w.stopped = false)
    (hguard : w.refused = true → a.write = .refused)
    (haligned : w.refused = false → r.Aligned site w.newest) :
    (w.publishImmediate site r request a).Inv site := by
  unfold Publisher.publishImmediate
  split
  · dsimp only
    cases hrefused : w.refused with
    | true =>
      have hafter : (w.after (r.publishStateOnce site a w.storage request none r.synced)).Inv
          site :=
        hinv.after_refused hrefused
          (ResidentDatabase.publishStateOnce_refused (hguard hrefused) _ _ _)
      exact .of_refused hafter.kept (by simp [Publisher.after, hrefused])
    | false =>
      generalize hp : r.publishStateOnce site a w.storage request none r.synced = p
      rcases hinv.publication (haligned hrefused) request none r.synced hp with
        ⟨hok, -, -, hstorage⟩ | hafter
      · refine .of_stopped ?_ (by simp [hok])
        change p.storage.Kept site w.found
        rw [hstorage]
        exact hinv.kept
      · exact ⟨hafter.kept, fun hgoes _ => hafter.aligned hgoes hstopped⟩
  · exact .of_stopped hinv.kept rfl

/-- `complete` publishes what the commit has added. -/
theorem Publisher.Inv.complete {request result : String} {committed : Option Nat}
    (hguard : w.refused = true → a.write = .refused)
    (haligned : w.refused = false → r.pending = none ∧ r.Aligned site w.newest) :
    (w.complete site r request result committed a).Inv site := by
  unfold Publisher.complete
  split
  · exact hinv
  · rename_i txid _
    dsimp only
    generalize hp : r.publishStateOnce site a w.storage request (some result) txid = p
    cases hrefused : w.refused with
    | true =>
      have hstorage : p.storage = w.storage := by
        rw [← hp]
        exact ResidentDatabase.publishStateOnce_refused (hguard hrefused) _ _ _
      have hafter := hinv.after_refused hrefused hstorage
      split
      · exact .of_absent hafter.kept rfl
      · exact hafter
    | false =>
      obtain ⟨hpending, haligned⟩ := haligned hrefused
      rcases hinv.publication haligned request (some result) txid hp with
        ⟨hok, -, hsame, hstorage⟩ | hafter
      · rw [if_pos ⟨hok, hsame.trans hpending⟩]
        refine .of_absent ?_ rfl
        change p.storage.Kept site w.found
        rw [hstorage]
        exact hinv.kept
      · split
        · exact .of_absent hafter.kept rfl
        · exact hafter

theorem Publisher.Inv.prepare (hguard : w.refused = true → a.write = .refused)
    (haligned : w.refused = false → r.pending = none) (hresident : w.resident = some r) :
    (w.after (r.finishPendingCommit site a w.storage)).Inv site := by
  cases hrefused : w.refused with
  | true =>
    exact hinv.after_refused hrefused
      (ResidentDatabase.finishPendingCommit_refused (hguard hrefused))
  | false =>
    have hnothing : r.finishPendingCommit site a w.storage = ⟨true, false, r, w.storage⟩ := by
      simp only [ResidentDatabase.finishPendingCommit, haligned hrefused]
    rw [hnothing]
    refine ⟨hinv.kept, fun hgoes hstopped r' hr' => ?_⟩
    obtain rfl := Option.some.inj hr'
    exact hinv.aligned hrefused hstopped _ hresident

/-- **One step.** -/
theorem Publisher.Inv.step {action : Action} (hguard : Refuses w action)
    (hstep : w.step site action = some w') : w'.Inv site := by
  cases Publisher.steps hstep with
  | load hstopped habsent hload =>
    refine ⟨hinv.kept, fun _ _ r' hr' => ?_⟩
    obtain rfl := Option.some.inj hr'
    exact hinv.load hload
  | sync hstopped hr =>
    refine ⟨hinv.kept, fun hrefused _ r' hr' => ?_⟩
    obtain rfl := Option.some.inj hr'
    obtain ⟨hpending, haligned⟩ := hinv.aligned hrefused hstopped _ hr
    exact ⟨hpending, haligned.epoch, haligned.version, haligned.cursor, haligned.plan⟩
  | immediate hstopped hr hlater =>
    refine hinv.immediate hstopped (fun hrefused => hguard hrefused _ rfl) fun hrefused => ?_
    obtain ⟨-, haligned⟩ := hinv.aligned hrefused hstopped _ hr
    exact ⟨haligned.epoch, haligned.version, haligned.cursor, haligned.plan⟩
  | complete hstopped hr =>
    exact hinv.complete (fun hrefused => hguard hrefused _ rfl)
      fun hrefused => hinv.aligned hrefused hstopped _ hr
  | prepare hstopped hr =>
    exact hinv.prepare (fun hrefused => hguard hrefused _ rfl)
      (fun hrefused => (hinv.aligned hrefused hstopped _ hr).1) hr
  | reset hstopped => exact .of_absent hinv.kept rfl
  | stop => exact .of_stopped hinv.kept rfl

end

theorem Publisher.inv_initial {objects : List (String × Bytes)}
    (hfound : ∀ d ∈ found, d.Good site ∧ objects.lookup d.object = some d.bytes) :
    (Publisher.initial objects found).Inv site := by
  refine .of_absent ?_ rfl
  constructor
  case good =>
    rintro d (hd | hd)
    · cases hd
    · exact (hfound d hd).1
  case stored =>
    rintro d (hd | hd)
    · cases hd
    · exact (hfound d hd).2
  case owned => nofun
  case lineage => trivial

/-- What was found does not change, and no object is lost. -/
theorem Publisher.step_frame {action : Action} (hstep : w.step site action = some w') :
    w'.found = w.found ∧ w.storage.Grows w'.storage := by
  cases Publisher.steps hstep with
  | immediate =>
    fun_cases Publisher.publishImmediate with
    | case1 => exact ⟨rfl, ResidentDatabase.publishStateOnce_grows _ _ _⟩
    | case2 => exact ⟨rfl, .refl _⟩
  | complete =>
    fun_cases Publisher.complete with
    | case1 => exact ⟨rfl, .refl _⟩
    | _ => exact ⟨rfl, ResidentDatabase.publishStateOnce_grows _ _ _⟩
  | prepare => exact ⟨rfl, ResidentDatabase.finishPendingCommit_grows⟩
  | _ => exact ⟨rfl, .refl _⟩

theorem Publisher.run_frame {objects : List (String × Bytes)} {actions : List Action}
    (hrun : Transition.run (Publisher.step site) (.initial objects found) actions = some w) :
    w.found = found ∧ Storage.Grows ⟨objects, []⟩ w.storage := by
  have hframe : ∀ (w w' : Publisher) (action : Action),
      (w.found = found ∧ Storage.Grows ⟨objects, []⟩ w.storage) →
      w.step site action = some w' →
      w'.found = found ∧ Storage.Grows ⟨objects, []⟩ w'.storage := by
    intro w w' action h hstep
    obtain ⟨hfound, hgrows⟩ := Publisher.step_frame hstep
    exact ⟨hfound.trans h.1, fun object bytes hget => hgrows _ _ (h.2 _ _ hget)⟩
  exact Transition.run_invariant (fun w action w' h hstep => hframe w w' action h hstep)
    ⟨rfl, .refl _⟩ hrun

end

/-! ## Complete histories -/

/-- The history of a snapshot is stored up to a snapshot without parent. -/
inductive Linked (codec : Codec) (store : String → Option Bytes) : StateSnapshot → Prop
  | full {s : StateSnapshot} (hparent : s.sqlite.parent = none) : Linked codec store s
  | link {s current : StateSnapshot} {parent : SnapshotRef} {file : LtxFile} {bytes : Bytes}
      (hparent : s.sqlite.parent = some parent) (hstored : store parent.object = some bytes)
      (hfile : s.sqlite.files[0]? = some file)
      (hfollows : Follows codec parent file.first bytes current)
      (hlinked : Linked codec store current) : Linked codec store s

/-- No checkpoint that is stored for a stored snapshot is malformed. -/
def CheckpointsSound (codec : Codec) (store : String → Option Bytes) : Prop :=
  ∀ object bytes s checkpoint, store object = some bytes →
    StateSnapshot.decode codec bytes = .ok s →
    store (object ++ ".checkpoint") = some checkpoint →
    ∃ c, Checkpoint.decode codec checkpoint (SnapshotRef.new codec object s bytes) s.sqlite.txid =
      .ok c

section

variable {codec : Codec} {store store' : String → Option Bytes} {s : StateSnapshot}

theorem Linked.mono (hlinked : Linked codec store s)
    (hsub : ∀ object bytes, store object = some bytes → store' object = some bytes) :
    Linked codec store' s := by
  induction hlinked with
  | full hparent => exact .full hparent
  | link hparent hstored hfile hfollows _ ih =>
    exact .link hparent (hsub _ _ hstored) hfile hfollows ih

/-- With sound checkpoints the walk does not fail. -/
theorem Linked.chain (hlinked : Linked codec store s) (hsound : CheckpointsSound codec store)
    {object : String} {bytes : Bytes} (hstored : store object = some bytes)
    (hdecode : StateSnapshot.decode codec bytes = .ok s) :
    Chain codec store (SnapshotRef.new codec object s bytes) s := by
  induction hlinked generalizing object bytes with
  | full hparent => exact .full hparent
  | link hparent hparentStored hfile hfollows _ ih =>
    rename_i s current parent file parentBytes _
    refine .link hparent (fun checkpoint hcheckpoint => ?_) hparentStored hfile hfollows ?_
    · exact hsound object bytes s checkpoint hstored hdecode hcheckpoint
    · rw [hfollows.reference_eq]
      exact ih hparentStored hfollows.decoded

end

/-- The snapshots of an activation have complete histories. -/
theorem lineage_linked {site : Site} {store : String → Option Bytes}
    (hlineage : Lineage site found written)
    (hgood : ∀ d, d ∈ written ∨ d ∈ found → d.Good site ∧ store d.object = some d.bytes)
    (hfound : ∀ d ∈ found, Linked site.serde.toCodec store d.snapshot) :
    ∀ d ∈ written, Linked site.serde.toCodec store d.snapshot := by
  induction written with
  | nil => simp
  | cons d written ih =>
    have hrest := ih hlineage.2 fun e he => hgood e (he.imp_left (List.mem_cons_of_mem d))
    refine List.forall_mem_cons.mpr ⟨?_, hrest⟩
    rcases hlineage.1.parent with hnone | ⟨e, he, hparent, hfirst⟩
    · exact .full hnone
    · have hmem := mem_of_newest he
      obtain ⟨hegood, hestored⟩ := hgood e (hmem.imp_left (List.mem_cons_of_mem d))
      have helinked : Linked site.serde.toCodec store e.snapshot := hmem.elim (hrest e) (hfound e)
      have hdvalid := (StateSnapshot.decode_valid (hgood d (.inl List.mem_cons_self)).1.decoded).2
      obtain ⟨first, -, hhead, -⟩ := hdvalid.tiles
      obtain ⟨file, hfile, -⟩ := Option.map_eq_some_iff.mp hhead
      refine .link hparent hestored (List.head?_eq_getElem?.symm.trans hfile) ?_ helinked
      exact ⟨rfl, hegood.decoded, hegood.object, rfl, rfl, (hfirst file hfile).symm⟩

/-! ## Restoring what was published -/

/-- The versions of an activation follow that of the snapshot it found. -/
theorem lineage_versions {site : Site} (h : Lineage site found written) :
    (written.reverse.map fun d => d.snapshot.version) =
        List.range' (versionOf found + 1) written.length ∧
      versionOf (written.head?.or found) = versionOf found + written.length := by
  induction written with
  | nil => exact ⟨rfl, rfl⟩
  | cons d written ih =>
    obtain ⟨hmap, hnewest⟩ := ih h.2
    have hversion := h.1.version
    rw [hnewest] at hversion
    constructor
    · rw [List.reverse_cons, List.map_append, hmap, List.length_cons, List.range'_concat,
        List.map_singleton, hversion, Nat.one_mul]
      congr 2
      omega
    · change d.snapshot.version = _
      rw [hversion, List.length_cons]
      omega

/-- **Every published snapshot can be restored.**  In every run of an activation
whose writer refuses all writes after one that failed or was cancelled, the
durable snapshots have consecutive versions; each starts at transaction one without
a parent, or right after the snapshot before it, which is its parent, and its files
are contiguous up to its transaction; and `resolve` restores each of them, from any
store that holds these objects and no malformed checkpoint. -/
theorem published_snapshots_restorable {site : Site} {objects : List (String × Bytes)}
    {found : Option Stored} {actions : List Action} {w : Publisher}
    (hfound : ∀ d ∈ found, d.Good site ∧ objects.lookup d.object = some d.bytes ∧
      Linked site.serde.toCodec (fun object => objects.lookup object) d.snapshot)
    (hguard : Transition.Guarded (Publisher.step site) Refuses (.initial objects found) actions)
    (hrun : Transition.run (Publisher.step site) (.initial objects found) actions = some w) :
    (w.storage.written.reverse.map fun d => d.snapshot.version) =
        List.range' (versionOf found + 1) w.storage.written.length ∧
      (∀ after d before, w.storage.written = after ++ d :: before →
        w.storage.get d.object = some d.bytes ∧
        StateSnapshot.decode site.serde.toCodec d.bytes = .ok d.snapshot ∧
        ∃ first, d.snapshot.sqlite.files.head?.map LtxFile.first = some first ∧
          Contiguous first d.snapshot.sqlite.files (d.snapshot.sqlite.txid + 1) ∧
          ((first = 1 ∧ d.snapshot.sqlite.parent = none) ∨ ∃ e ∈ before.head?.or found,
              d.snapshot.sqlite.parent = some (e.reference site.serde.toCodec) ∧
                first = e.snapshot.sqlite.txid + 1)) ∧
      ∀ d ∈ w.storage.written, ∀ store : String → Option Bytes,
        (∀ object bytes, w.storage.get object = some bytes → store object = some bytes) →
        CheckpointsSound site.serde.toCodec store → ∃ bound resolved,
          (∀ fuel, bound ≤ fuel → resolve site.serde.toCodec (storedHistory store) () fuel
            d.object d.bytes none = some (.ok (resolved, ()))) ∧
          Restores site.serde.toCodec d.bytes resolved.sqlite := by
  have hinv : w.Inv site := Transition.run_guarded_invariant
    (fun _ _ _ hinv hC hstep => hinv.step hC hstep)
    (Publisher.inv_initial fun d hd => ⟨(hfound d hd).1, (hfound d hd).2.1⟩) hguard hrun
  obtain ⟨hw, hsub⟩ := Publisher.run_frame hrun
  have hkept := hinv.kept
  rw [hw] at hkept
  refine ⟨(lineage_versions hkept.lineage).1, ?_, ?_⟩
  · intro after d before hwritten
    have hmem : d ∈ w.storage.written := by
      rw [hwritten]
      simp
    have hgood := hkept.good d (.inl hmem)
    refine ⟨hkept.stored d (.inl hmem), hgood.decoded, ?_⟩
    obtain ⟨first, htiles, hhead, hone⟩ := (StateSnapshot.decode_valid hgood.decoded).2.tiles
    refine ⟨first, hhead, htiles, ?_⟩
    have hlineage := hkept.lineage
    rw [hwritten] at hlineage
    rcases hlineage.at.parent with hnone | ⟨e, he, hparent, hfirst⟩
    · exact .inl ⟨hone.mpr hnone, hnone⟩
    · obtain ⟨file, hfile, rfl⟩ := Option.map_eq_some_iff.mp hhead
      exact .inr ⟨e, he, hparent, hfirst file hfile⟩
  · intro d hd store hstore hsound
    have hgood := hkept.good d (.inl hd)
    have hlinked : Linked site.serde.toCodec store d.snapshot := by
      refine lineage_linked hkept.lineage (fun e he => ⟨hkept.good e he, ?_⟩) ?_ d hd
      · exact hstore _ _ (hkept.stored e he)
      · intro e he
        exact (hfound e he).2.2.mono fun object bytes h => hstore _ _ (hsub object bytes h)
    have hchain := hlinked.chain hsound (hstore _ _ (hkept.stored d (.inl hd))) hgood.decoded
    obtain ⟨bound, result, hresult, -, hrestores⟩ := resolve_sound site.serde.toCodec ()
      (storedHistory_safe store) d.object d.bytes none
    obtain ⟨resolved, rfl⟩ := resolve_chain hgood.decoded hgood.object hchain (by simp)
      (hresult bound (Nat.le_refl _))
    exact ⟨bound, resolved, hresult, hrestores resolved () rfl⟩

/-! An activation that publishes twice; the answer of the second write is lost. -/

def cartSite : Site := ⟨cartSerde, fun _ => cartPath, "session", 1, 0⟩

def publishTwice : List Action :=
  [.load {},
    .immediate "first" 2
      { directory := some [⟨0, 1, 2, ltxMagic⟩], attribution := some (added 1000) },
    .sync 3,
    .complete "second" "done" (some 3)
      { directory := some [⟨0, 3, 3, ltxMagic⟩], attribution := some (added 2000), write := .lost },
    .prepare { write := .refused }]

def publishTwiceEnd : Publisher :=
  Transition.final (Publisher.step cartSite) (.initial [] none) publishTwice

theorem published_snapshots_restorable_twice :
    (publishTwiceEnd.storage.written.map Stored.snapshot) = [secondSnapshot, firstSnapshot] ∧
      (publishTwiceEnd.storage.written.reverse.map fun d => d.snapshot.version) =
        List.range' 1 2 := by
  have hrun : Transition.run (Publisher.step cartSite) (.initial [] none) publishTwice =
      some publishTwiceEnd := by decide +kernel
  have hguard : Transition.Guarded (Publisher.step cartSite) Refuses (.initial [] none)
      publishTwice := by decide +kernel
  have hwritten : (publishTwiceEnd.storage.written.map Stored.snapshot) =
      [secondSnapshot, firstSnapshot] := by decide +kernel
  have h := published_snapshots_restorable (by simp) hguard hrun
  have hlength : publishTwiceEnd.storage.written.length = 2 := by
    simpa using congrArg List.length hwritten
  rw [hlength] at h
  exact ⟨hwritten, h.1⟩

end DurableActors.Ports.Sqlite
