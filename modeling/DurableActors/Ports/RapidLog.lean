import DurableActors.Ports.RapidGapless

/-!
# The log of a session over every sequence of calls

`Ready` is the invariant of a session that still accepts calls, over any sequence
of calls with any failures and drops: the log is sound, every record in it was
passed to a `put`, and the latest snapshot is its end.  A session accepts calls
exactly as long as none has been interrupted.
-/

namespace DurableActors.Ports.Rapid

open Verified
open Verified.Call (Ends)
open Sqlite (Bytes Codec StateStream StateSnapshot SnapshotRef parsed)
open Log (Record Digest)

variable {codec : Codec} {digest : Digest} {stream : StateStream} {calls : List Invocation}
  {call : Invocation} {w w' : World}

/-! ## One call -/

/-- What a call can do to the log. -/
inductive Calls (codec : Codec) (w : World) : Invocation → Except Interrupt Unit → World → Prop
  | refused {a object bytes e w'} (h : Moves w w') :
      Calls codec w (.put a object bytes) (.error e) w'
  | repeated {a object bytes} {reference : SnapshotRef} (hhealthy : w.session.healthy = true)
      (hcached : w.session.cached object = some bytes)
      (hreference : w.session.stream.snapshot codec bytes = .ok reference)
      (hobject : reference.object = object) :
      Calls codec w (.put a object bytes) (.ok ()) w
  | recorded {a object bytes outcome w'} (hhealthy : w.session.healthy = true)
      (h : Recorded codec object bytes w w') : Calls codec w (.put a object bytes) outcome w'
  | halted {a object bytes e w'} (h : Halted w w') :
      Calls codec w (.put a object bytes) (.error e) w'
  | rotated {a outcome w'} (h : Moves w w') : Calls codec w (.rotate a) outcome w'
  | restored {scheduled object bytes outcome w'} (h : Adopts codec w w') :
      Calls codec w (.restored scheduled object bytes) outcome w'
  | finished {a w'} (hhealthy : w.session.healthy = true) (h : Moves w w') :
      Calls codec w (.finish a) (.ok ()) w'
  | unfinished {a e w'} (h : w'.session.healthy = false) :
      Calls codec w (.finish a) (.error e) w'

/-- What each call can end in. -/
theorem invoke_calls (codec : Codec) (digest : Digest) (w : World) (call : Invocation) :
    Calls codec w call (invoke codec digest w call).1 (invoke codec digest w call).2 := by
  cases call with
  | put a object bytes =>
    have h := put_ends codec digest a object bytes w
    unfold Ends at h
    simp only [invoke]
    split at h
    · rename_i w' hput
      simp only [hput]
      obtain ⟨hhealthy, ⟨rfl, hcached, reference, hreference, hobject⟩ | hrecorded⟩ := h
      · exact .repeated hhealthy hcached hreference hobject
      · exact .recorded hhealthy hrecorded
    · rename_i e w' hput
      simp only [hput]
      obtain hmoved | ⟨hhealthy, hhalted | hrecorded⟩ := h
      · exact .refused hmoved
      · exact .halted hhalted
      · exact .recorded hhealthy hrecorded
  | rotate a =>
    have h := rotate_moves a w
    unfold Ends at h
    simp only [invoke]
    cases hrotate : rotate a w with
    | ok _ w' =>
      rw [hrotate] at h
      exact .rotated h
    | error e w' =>
      rw [hrotate] at h
      exact .rotated h
  | restored scheduled object bytes =>
    have h := restored_ends codec scheduled object bytes w
    unfold Ends at h
    simp only [invoke]
    cases hrestored : restored codec scheduled object bytes w with
    | ok _ w' =>
      rw [hrestored] at h
      exact .restored h
    | error e w' =>
      rw [hrestored] at h
      exact .restored h
  | finish a =>
    have h := finish_ends a w
    unfold Ends at h
    simp only [invoke]
    cases hfinish : finish a w with
    | ok _ w' =>
      rw [hfinish] at h
      exact .finished h.1 h.2
    | error e w' =>
      rw [hfinish] at h
      exact .unfinished h

/-- No call makes a session accept calls again. -/
theorem Calls.healthy_before {outcome : Except Interrupt Unit} (h : Calls codec w call outcome w')
    (hafter : w'.session.healthy = true) : w.session.healthy = true := by
  cases h with
  | refused h => exact h.kept.healthy ▸ hafter
  | repeated hhealthy _ _ _ => exact hhealthy
  | recorded hhealthy _ => exact hhealthy
  | halted h => exact absurd (h.healthy.symm.trans hafter) (by simp)
  | rotated h => exact h.kept.healthy ▸ hafter
  | restored h => exact h.kept.healthy ▸ hafter
  | finished hhealthy _ => exact hhealthy
  | unfinished h => exact absurd (h.symm.trans hafter) (by simp)

/-- A `put` or `finish` that returns finds and leaves a session that accepts calls. -/
theorem Calls.healthy_of_ok (h : Calls codec w call (.ok ()) w') (hwrites : call.writes = true) :
    w'.session.healthy = true := by
  cases h with
  | repeated hhealthy _ _ _ => exact hhealthy
  | recorded _ h => exact h.healthy
  | rotated _ => simp [Invocation.writes] at hwrites
  | restored _ => simp [Invocation.writes] at hwrites
  | finished hhealthy h => exact h.kept.healthy.trans hhealthy

/-- A session stops accepting calls when one is interrupted. -/
theorem healthy_after (codec : Codec) (digest : Digest) (w : World) (call : Invocation) :
    (invoke codec digest w call).2.session.healthy =
      (w.session.healthy && !interrupts codec digest w call) := by
  rcases hresult : invoke codec digest w call with ⟨outcome, w'⟩
  have h : Calls codec w call outcome w' := by
    have h := invoke_calls codec digest w call
    rwa [hresult] at h
  simp only [interrupts, hresult]
  cases h with
  | refused h => simp [h.kept.healthy, h.kept.attempts]
  | repeated _ _ _ _ => simp [Except.isOk, Except.toBool]
  | recorded hhealthy h => simp [h.healthy, hhealthy, h.next]
  | halted h => simp [h.healthy, h.version, h.attempts, Except.isOk, Except.toBool]
  | rotated h => simp [h.kept.healthy]
  | restored h => simp [h.kept.healthy]
  | finished _ h => simp [h.kept.healthy, Except.isOk, Except.toBool]
  | unfinished h => simp [h, Except.isOk, Except.toBool]

/-! ## Sequences of calls -/

/-- The invariant of a session that accepts calls. -/
structure Ready (codec : Codec) (stream : StateStream) (calls : List Invocation) (w : World) :
    Prop where
  same : w.session.stream = stream
  sound : w.Sound
  own : w.Own codec
  passed : ∀ record ∈ w.written, ∃ a,
    Invocation.put a (stream.object record.version) record.state ∈ calls
  decoded : ∀ record ∈ w.written, ∃ reference,
    stream.snapshot codec record.state = .ok reference ∧ reference.version = record.version

theorem Ready.moves (h : Ready codec stream calls w) (hmoves : Moves w w') :
    Ready codec stream (calls ++ [call]) w' where
  same := hmoves.kept.stream.trans h.same
  sound := hmoves.sound h.sound
  own := by
    unfold World.Own
    rw [hmoves.latest, hmoves.kept.stream, hmoves.kept.version]
    exact h.own
  passed := by
    rw [hmoves.written]
    intro record hrecord
    obtain ⟨a, ha⟩ := h.passed record hrecord
    exact ⟨a, List.mem_append_left _ ha⟩
  decoded := by
    rw [hmoves.written]
    exact h.decoded

/-- A call that leaves the session healthy leaves it ready. -/
theorem Ready.step (h : Ready codec stream calls w) {outcome : Except Interrupt Unit}
    (hcall : Calls codec w call outcome w') (hafter : w'.session.healthy = true) :
    Ready codec stream (calls ++ [call]) w' := by
  cases hcall with
  | refused hmoves => exact h.moves hmoves
  | repeated _ _ _ _ => exact h.moves (.refl w)
  | recorded hhealthy hrecorded =>
    rename_i a object bytes
    obtain ⟨reference, hreference, hversion⟩ := hrecorded.decoded
    have hwritten := hrecorded.written h.sound
    rw [h.same] at hreference
    constructor
    case same => exact hrecorded.stream.trans h.same
    case sound => exact hrecorded.sound h.sound
    case own =>
      intro object' bytes' reference' hlatest hreference' _
      rw [hrecorded.latest] at hlatest
      cases hlatest
      rw [hrecorded.stream, h.same, hreference] at hreference'
      cases hreference'
      exact hversion
    case passed =>
      rw [hwritten]
      intro record hrecord
      rcases List.mem_append.mp hrecord with hbefore | hnew
      · obtain ⟨a', ha'⟩ := h.passed record hbefore
        exact ⟨a', List.mem_append_left _ ha'⟩
      · rw [List.mem_singleton.mp hnew, ← h.same, ← hrecorded.named]
        exact ⟨a, List.mem_append_right _ (List.mem_singleton_self _)⟩
    case decoded =>
      rw [hwritten]
      intro record hrecord
      rcases List.mem_append.mp hrecord with hbefore | hnew
      · exact h.decoded record hbefore
      · rw [List.mem_singleton.mp hnew]
        exact ⟨reference, hreference, hversion⟩
  | halted hhalted => exact absurd (hhalted.healthy.symm.trans hafter) (by simp)
  | rotated hmoves => exact h.moves hmoves
  | restored hadopts =>
    exact {
      same := hadopts.kept.stream.trans h.same
      sound := hadopts.sound h.sound
      own := hadopts.own h.own
      passed := by
        rw [hadopts.written]
        intro record hrecord
        obtain ⟨a, ha⟩ := h.passed record hrecord
        exact ⟨a, List.mem_append_left _ ha⟩
      decoded := by
        rw [hadopts.written]
        exact h.decoded }
  | finished _ hmoves => exact h.moves hmoves
  | unfinished hunhealthy => exact absurd (hunhealthy.symm.trans hafter) (by simp)

theorem run_concat (w : World) (calls : List Invocation) (call : Invocation) :
    run codec digest w (calls ++ [call]) =
      (invoke codec digest (run codec digest w calls) call).2 := by
  simp [run]

/-- A session accepts calls as long as none was interrupted. -/
theorem healthy_run (codec : Codec) (digest : Digest) (w : World) (calls : List Invocation) :
    (run codec digest w calls).session.healthy =
      (w.session.healthy && !interrupted codec digest w calls) := by
  induction calls generalizing w with
  | nil => simp [run, interrupted]
  | cons call calls ih =>
    have hrest := ih (invoke codec digest w call).2
    rw [healthy_after] at hrest
    show (run codec digest (invoke codec digest w call).2 calls).session.healthy = _
    rw [hrest, interrupted, Bool.not_or, Bool.and_assoc]

/-- A new session is ready with an empty log. -/
theorem Ready.start (codec : Codec) {session : Session}
    (hopen : Session.open stream = .ok session) :
    Ready codec stream [] (World.start session) ∧ session.healthy = true := by
  obtain ⟨first, hfirst, hsession⟩ := Checked.bind_eq_ok.mp hopen
  have hfirst := (Checked.checkedAdd_eq_some.mp (Checked.ofOption_eq_ok.mp hfirst)).1
  have hsegments : (World.start session).segments = [] := by
    cases hsession
    rfl
  have hwritten : (World.start session).written = [] := by
    rw [World.written, hsegments]
    rfl
  cases hsession
  refine ⟨⟨rfl, ?_, ?_, ?_, ?_⟩, rfl⟩
  · constructor
    case base_le => exact le_refl _
    case versions => rw [hwritten]; simp [World.start]
    case certain => simp [hsegments]
    case confirmed => rfl
    case onlyStored => simp [hsegments]
    case onlyLogged => exact fun _ => rfl
    case first => simp [hsegments]
    case current => simp [World.start]
    case preparing =>
      intro n hn
      cases hn
      exact ⟨hfirst.ge, rfl, hsegments, rfl⟩
    case next => simp [World.start]
    case latest => simp [hwritten]
  · simp [World.Own, World.start]
  · simp [hwritten]
  · simp [hwritten]

/-- The invariant holds as long as the session accepts calls. -/
theorem Ready.run {session : Session} (hopen : Session.open stream = .ok session)
    (calls : List Invocation)
    (hhealthy : (Rapid.run codec digest (World.start session) calls).session.healthy = true) :
    Ready codec stream calls (Rapid.run codec digest (World.start session) calls) := by
  induction calls using List.reverseRecOn with
  | nil => exact (Ready.start codec hopen).1
  | append_singleton calls call ih =>
    rw [run_concat] at hhealthy ⊢
    have hcall :=
      invoke_calls codec digest (Rapid.run codec digest (World.start session) calls) call
    exact (ih (hcall.healthy_before hhealthy)).step hcall hhealthy

/-! ## A log without gaps -/

/-- The log of a session over `stream` after `calls`. -/
structure GapFree (stream : StateStream) (calls : List Invocation) (w : World) : Prop where
  base_le : stream.base ≤ w.session.version
  versions : w.written.map Record.version =
    List.range' (stream.base + 1) (w.session.version - stream.base)
  passed : ∀ record ∈ w.written, ∃ a,
    Invocation.put a (stream.object record.version) record.state ∈ calls
  once : ∀ n, stream.base < n → n ≤ w.session.version →
    w.session.standard = false ∧
        w.segments.countP (fun s => decide (n ∈ s.records.map Record.version)) = 1 ∨
      w.session.standard = true ∧ n ∈ w.stored.map Record.version
  mode : (w.session.standard = true → ∀ s ∈ w.segments, s.records = []) ∧
    (w.session.standard = false → w.stored = [])
  ranges : ∀ s ∈ w.segments, ∃ k, s.records.map Record.version =
    List.range' k s.records.length ∧ (s.records ≠ [] → s.firstVersion ≤ k)
  certain : (∀ s ∈ w.segments, s.doubtful = none) ∧ w.storing = none

/-- A run of consecutive numbers in a range is a range. -/
theorem range_of_infix {before run after : List Nat} {start count : Nat}
    (h : before ++ run ++ after = List.range' start count) :
    run = List.range' (start + before.length) run.length := by
  rw [List.append_assoc] at h
  obtain ⟨k, -, hbefore, hrest⟩ := List.range'_eq_append_iff.mp h.symm
  obtain ⟨m, -, hrun, -⟩ := List.range'_eq_append_iff.mp hrest.symm
  have hk : before.length = k := by rw [hbefore, List.length_range']
  have hm : run.length = m := by rw [hrun, List.length_range']
  rw [hk, hm]
  rwa [Nat.mul_one] at hrun

/-- In a list of lists without repetition an element is in exactly one of them. -/
theorem countP_mem_eq_one {α β : Type} [DecidableEq β] (f : α → List β) {b : β} :
    ∀ {xs : List α}, (xs.flatMap f).Nodup → b ∈ xs.flatMap f →
      xs.countP (fun x => decide (b ∈ f x)) = 1
  | [], _, hb => by simp at hb
  | x :: xs, hnodup, hb => by
      rw [List.flatMap_cons, List.nodup_append] at hnodup
      obtain ⟨-, hrest, hdisjoint⟩ := hnodup
      rw [List.flatMap_cons, List.mem_append] at hb
      by_cases hx : b ∈ f x
      · have hnone : xs.countP (fun x => decide (b ∈ f x)) = 0 := by
          rw [List.countP_eq_zero]
          intro y hy hby
          exact hdisjoint b hx b (List.mem_flatMap.mpr ⟨y, hy, of_decide_eq_true hby⟩) rfl
        rw [List.countP_cons, hnone]
        simp [hx]
      · rw [List.countP_cons, countP_mem_eq_one f hrest (hb.resolve_left hx)]
        simp [hx]

theorem World.Sound.nodup (h : w.Sound) : (w.written.map Record.version).Nodup := by
  rw [h.versions]
  exact List.nodup_range'

/-- A version is in one segment, or in the Standard store. -/
theorem World.Sound.once (h : w.Sound) {n : Nat} (hlow : w.session.stream.base < n)
    (hhigh : n ≤ w.session.version) :
    w.session.standard = false ∧
        w.segments.countP (fun s => decide (n ∈ s.records.map Record.version)) = 1 ∨
      w.session.standard = true ∧ n ∈ w.stored.map Record.version := by
  have hmem : n ∈ w.written.map Record.version := by
    rw [h.versions, List.mem_range'_1]
    omega
  have hnodup := h.nodup
  cases hmode : w.session.standard with
  | false =>
    have hlogged : w.written.map Record.version =
        w.segments.flatMap (fun s => s.records.map Record.version) := by
      rw [World.written, h.onlyLogged hmode, List.append_nil, List.map_flatMap]
    rw [hlogged] at hmem hnodup
    exact .inl ⟨rfl, countP_mem_eq_one _ hnodup hmem⟩
  | true =>
    have hstored : w.segments.flatMap Segment.records = [] := by
      rw [List.flatMap_eq_nil_iff]
      exact h.onlyStored hmode
    rw [World.written, hstored, List.nil_append] at hmem
    exact .inr ⟨rfl, hmem⟩

/-- A segment holds consecutive versions, none before the one it was opened for. -/
theorem World.Sound.ranges (h : w.Sound) {s : Segment} (hs : s ∈ w.segments) :
    ∃ k, s.records.map Record.version = List.range' k s.records.length ∧
      (s.records ≠ [] → s.firstVersion ≤ k) := by
  obtain ⟨before, after, hsplit⟩ := List.append_of_mem hs
  have hversions := h.versions
  rw [World.written, hsplit, List.flatMap_append, List.flatMap_cons, List.append_assoc,
    List.append_assoc, List.map_append, List.map_append, ← List.append_assoc] at hversions
  have hrange := range_of_infix hversions
  simp only [List.length_map] at hrange
  refine ⟨_, hrange, ?_⟩
  intro hne
  obtain ⟨record, records, hcons⟩ := List.exists_cons_of_ne_nil hne
  have hfirst := h.first s hs record (by rw [hcons]; exact List.mem_cons_self)
  rw [hcons] at hrange
  simp only [List.map_cons, List.length_cons, List.range'_succ, List.cons.injEq] at hrange
  rwa [hrange.1] at hfirst

theorem Ready.gapFree (h : Ready codec stream calls w) : GapFree stream calls w where
  base_le := h.same ▸ h.sound.base_le
  versions := h.same ▸ h.sound.versions
  passed := h.passed
  once := fun _ hlow hhigh => h.sound.once (h.same.symm ▸ hlow) hhigh
  mode := ⟨h.sound.onlyStored, h.sound.onlyLogged⟩
  ranges := fun _ hs => h.sound.ranges hs
  certain := ⟨h.sound.certain, h.sound.confirmed⟩

/-! ## Repeated and conflicting writes -/

theorem cached_eq_some {s : Session} {object : String} {bytes : Bytes} :
    s.cached object = some bytes ↔ s.latest = some (object, bytes) := by
  unfold Session.cached
  cases hlatest : s.latest with
  | none => simp
  | some latest =>
    obtain ⟨key, value⟩ := latest
    by_cases hkey : key = object
    · simp [Option.filter, hkey]
    · simp [Option.filter, hkey]

/-- The last record has the session's version. -/
theorem World.Sound.last_version (h : w.Sound) {record : Record}
    (hlast : w.written.getLast? = some record) : record.version = w.session.version := by
  have hversions := congrArg List.getLast? h.versions
  rw [List.getLast?_map, hlast, List.getLast?_range'] at hversions
  split at hversions
  · simp at hversions
  · have hbase := h.base_le
    have hend := Option.some.inj hversions
    omega

/-- The newest snapshot may be put again. -/
theorem Ready.repeat (h : Ready codec stream calls w) (hhealthy : w.session.healthy = true)
    {record : Record} (hlast : w.written.getLast? = some record) (a : PutAnswers) :
    Ends (put codec digest a (stream.object record.version) record.state) w
      (fun _ w' => w' = w) (fun _ _ => False) := by
  have hrecord := List.mem_of_getLast? hlast
  obtain ⟨reference, hreference, hversion⟩ := h.decoded record hrecord
  have hobject : reference.object = stream.object record.version :=
    hversion ▸ (reference_of_snapshot hreference).1
  have hcached : w.session.cached (stream.object record.version) = some record.state :=
    cached_eq_some.mpr (h.same ▸ h.sound.latest record hlast)
  refine .bind (.get (.bind (.ensure ?_ ?_)))
  · intro _
    rw [h.same]
    refine .bind (.lift ?_ ?_)
    · intro reference' hreference'
      rw [hreference] at hreference'
      cases hreference'
      refine .bind (.ensure ?_ ?_)
      · intro _
        rw [if_pos hcached]
        exact .pure rfl
      · simp [hobject]
    · simp [hreference]
  · simp [hhealthy]

/-- Other bytes under a version of the log are an error. -/
theorem Ready.conflict (h : Ready codec stream calls w) {bytes : Bytes} {reference : SnapshotRef}
    (hreference : stream.snapshot codec bytes = .ok reference) {record : Record}
    (hrecord : record ∈ w.written) (hversion : record.version = reference.version)
    (hstate : record.state ≠ bytes) (a : PutAnswers) (object : String) :
    Ends (put codec digest a object bytes) w (fun _ _ => False)
      (fun e w' => (∃ fault, e = .error fault) ∧ w' = w) := by
  refine .bind (.get (.bind (.ensure ?_ fun _ => ⟨⟨_, rfl⟩, rfl⟩)))
  intro _
  refine .bind (.lift ?_ fun _ _ => ⟨⟨_, rfl⟩, rfl⟩)
  intro reference' hreference'
  rw [h.same, hreference] at hreference'
  cases hreference'
  refine .bind (.ensure ?_ fun _ => ⟨⟨_, rfl⟩, rfl⟩)
  intro hobject
  have hobject := of_decide_eq_true hobject
  have hle : record.version ≤ w.session.version := by
    have hmem := List.mem_map_of_mem (f := Record.version) hrecord
    rw [h.sound.versions, List.mem_range'_1] at hmem
    omega
  split
  · -- the latest snapshot is the record of its version
    rename_i hcached
    have hlatest := cached_eq_some.mp hcached
    have hown := h.own object bytes reference hlatest (h.same ▸ hreference) hobject
    obtain ⟨last, hlast⟩ : ∃ last, w.written.getLast? = some last :=
      ⟨_, List.getLast?_eq_some_getLast (List.ne_nil_of_mem hrecord)⟩
    have hsame : record = last := by
      have hversions : record.version = last.version := by
        rw [hversion, hown, h.sound.last_version hlast]
      exact List.inj_on_of_nodup_map h.sound.nodup hrecord (List.mem_of_getLast? hlast) hversions
    have hlast := h.sound.latest last hlast
    rw [hlatest, ← hsame] at hlast
    exact hstate (congrArg Prod.snd (Option.some.inj hlast)).symm
  · refine .bind (.ensure ?_ fun _ => ⟨⟨_, rfl⟩, rfl⟩)
    intro hnext
    have hnext := (Checked.checkedAdd_eq_some.mp (of_decide_eq_true hnext)).1
    omega

/-- A `put` that ends in one way returns it. -/
theorem invoke_put_of_ends {a : PutAnswers} {object : String} {bytes : Bytes}
    {Q : World → Prop} {E : Interrupt → World → Prop}
    (h : Ends (put codec digest a object bytes) w (fun _ w' => Q w') E) :
    (∃ w', invoke codec digest w (.put a object bytes) = (.ok (), w') ∧ Q w') ∨
      ∃ e w', invoke codec digest w (.put a object bytes) = (.error e, w') ∧ E e w' := by
  unfold Ends at h
  cases hput : put codec digest a object bytes w with
  | ok _ w' =>
    rw [hput] at h
    exact .inl ⟨w', by simp only [invoke, hput], h⟩
  | error e w' =>
    rw [hput] at h
    exact .inr ⟨e, w', by simp only [invoke, hput], h⟩

/-- A `put` that returns was one of the version the session is at. -/
theorem Ready.put_version (h : Ready codec stream calls w) {a : PutAnswers} {object : String}
    {bytes : Bytes} (hcall : Calls codec w (.put a object bytes) (.ok ()) w') :
    ∃ reference, stream.snapshot codec bytes = .ok reference ∧
      reference.version = w'.session.version := by
  cases hcall with
  | repeated _ hcached hreference hobject =>
    exact ⟨_, h.same ▸ hreference,
      h.own object bytes _ (cached_eq_some.mp hcached) hreference hobject⟩
  | recorded _ hrecorded => exact h.same ▸ hrecorded.decoded

/-- A session that does not accept calls refuses every `put`. -/
theorem put_refused (hunhealthy : w.session.healthy = false) (a : PutAnswers)
    (object : String) (bytes : Bytes) :
    Ends (put codec digest a object bytes) w (fun _ _ => False)
      (fun e w' => (∃ fault, e = .error fault) ∧ w' = w) := by
  refine .bind (.get (.bind (.ensure ?_ fun _ => ⟨⟨_, rfl⟩, rfl⟩)))
  intro hhealthy
  simp [hunhealthy] at hhealthy

/-! ## The whole session -/

/-- Over every sequence of calls with any failures and drops: when `put` or `finish`
returns, the log is gap-free up to the version; once a call was interrupted, none of them
returns; as long as none was, the latest record may be put again, which writes nothing; and
other bytes for a written version are refused. -/
theorem session_log_gap_free (codec : Codec) (digest : Digest) {stream : StateStream}
    {session : Session} (hopen : Session.open stream = .ok session) (calls : List Invocation) :
    let w := run codec digest (World.start session) calls
    (∀ call w', call.writes = true → invoke codec digest w call = (.ok (), w') →
      GapFree stream (calls ++ [call]) w' ∧
        ∀ a object bytes, call = .put a object bytes → ∃ reference,
          stream.snapshot codec bytes = .ok reference ∧
            reference.version = w'.session.version) ∧
    (interrupted codec digest (World.start session) calls = true →
      ∀ call, call.writes = true → (invoke codec digest w call).1 ≠ .ok ()) ∧
    (interrupted codec digest (World.start session) calls = false →
      ∀ record, w.written.getLast? = some record → ∀ a,
        invoke codec digest w (.put a (stream.object record.version) record.state) =
          (.ok (), w)) ∧
    (∀ bytes reference, stream.snapshot codec bytes = .ok reference →
      (∃ record ∈ w.written, record.version = reference.version ∧ record.state ≠ bytes) →
      ∀ a object, ∃ fault,
        invoke codec digest w (.put a object bytes) = (.error (.error fault), w)) := by
  intro w
  have hstart := (Ready.start codec hopen).2
  have hhealthy : w.session.healthy = !interrupted codec digest (World.start session) calls := by
    rw [healthy_run, World.start, hstart, Bool.true_and]
  have hready : w.session.healthy = true → Ready codec stream calls w := .run hopen calls
  refine ⟨?_, ?_, ?_, ?_⟩
  · intro call w' hwrites hinvoke
    have hcall : Calls codec w call (.ok ()) w' := by
      have hcall := invoke_calls codec digest w call
      rwa [hinvoke] at hcall
    have hafter := hcall.healthy_of_ok hwrites
    have hbefore := hready (hcall.healthy_before hafter)
    refine ⟨(hbefore.step hcall hafter).gapFree, ?_⟩
    rintro a object bytes rfl
    exact hbefore.put_version hcall
  · intro hinterrupted call hwrites hok
    have hcall := invoke_calls codec digest w call
    rw [hok] at hcall
    have hbefore := hcall.healthy_before (hcall.healthy_of_ok hwrites)
    rw [hhealthy, hinterrupted] at hbefore
    simp at hbefore
  · intro hinterrupted record hlast a
    have hbefore : w.session.healthy = true := by rw [hhealthy, hinterrupted]; rfl
    rcases invoke_put_of_ends ((hready hbefore).repeat hbefore hlast a) with
      ⟨w', hinvoke, rfl⟩ | ⟨_, _, _, hfalse⟩
    · exact hinvoke
    · exact hfalse.elim
  · rintro bytes reference hreference ⟨record, hrecord, hversion, hstate⟩ a object
    have hends : Ends (put codec digest a object bytes) w (fun _ _ => False)
        (fun e w' => (∃ fault, e = .error fault) ∧ w' = w) := by
      cases hbefore : w.session.healthy with
      | true => exact (hready hbefore).conflict hreference hrecord hversion hstate a object
      | false => exact put_refused hbefore a object bytes
    rcases invoke_put_of_ends hends with ⟨_, _, hfalse⟩ | ⟨_, _, hinvoke, ⟨fault, rfl⟩, rfl⟩
    · exact hfalse.elim
    · exact ⟨fault, hinvoke⟩

/-! ## A session of two snapshots -/

def cartStream : StateStream := ⟨"session", Sqlite.cartPath, 1, 0⟩

def cartSession : Session :=
  ⟨cartStream, none, some 1, none, none, none, false, none, 0, 0, false, true⟩

/-- A put that both writers answer with the offset, after a rotation if it is time. -/
def cartPut (elapsed : Bool) (flushed : Answer (List (Except String Nat))) (object : String)
    (header : Bytes) : Invocation :=
  .put ⟨⟨false, .ready (), elapsed, some (.ok true)⟩, .ready true, flushed, .ready (), true⟩
    object (Sqlite.das2 header)

def firstPut : Invocation :=
  cartPut false (.ready [.ok 300, .ok 300]) Sqlite.firstObject Sqlite.firstHeader

/-- The second put goes to the next segment. -/
def secondPut : Invocation :=
  cartPut true (.ready [.ok 541, .ok 541]) Sqlite.secondObject Sqlite.secondHeader

def droppedPut : Invocation := cartPut true .dropped Sqlite.secondObject Sqlite.secondHeader

/-- A `finish` in which the archive is not drained in time. -/
def lateFinish : Invocation :=
  .finish ⟨.ready true, .ready true, .ready (), .failed (.error ["archive drain timed out"]),
    .ready (), .ready (), true⟩

def afterCalls (calls : List Invocation) : World :=
  run Sqlite.cartSerde.toCodec Log.sha256 (World.start cartSession) calls

def callAfter (calls : List Invocation) (call : Invocation) : Except Interrupt Unit × World :=
  invoke Sqlite.cartSerde.toCodec Log.sha256 (afterCalls calls) call

/-- After a `finish` that failed the latest put is refused when it is repeated. -/
theorem repeat_refused_after_finish :
    Session.open cartStream = .ok cartSession ∧
    (callAfter [] firstPut).1 = .ok () ∧
    (callAfter [firstPut, lateFinish] firstPut).1 =
      .error (.error (.error ["uncertain write requires activation recovery"])) := by
  refine ⟨rfl, ?_, ?_⟩ <;> decide +kernel

/-- Two puts fill two segments without a gap, and the second may be repeated; had it been
dropped, it would be refused. -/
theorem session_log_gap_free_pair :
    Session.open cartStream = .ok cartSession ∧
    (callAfter [firstPut] secondPut).2.segments.map (·.records.map Record.version) = [[1], [2]] ∧
    GapFree cartStream [firstPut, secondPut] (callAfter [firstPut] secondPut).2 ∧
    callAfter [firstPut, secondPut] secondPut = (.ok (), afterCalls [firstPut, secondPut]) ∧
    (callAfter [firstPut, droppedPut] secondPut).1 ≠ .ok () := by
  have hopen : Session.open cartStream = .ok cartSession := rfl
  have hcall : callAfter [firstPut] secondPut = (.ok (), (callAfter [firstPut] secondPut).2) := by
    decide +kernel
  have hlast : (afterCalls [firstPut, secondPut]).written.getLast? =
      some ⟨2, Sqlite.das2 Sqlite.secondHeader⟩ := by decide +kernel
  refine ⟨hopen, by decide +kernel, ?_, ?_, ?_⟩
  · have h := (session_log_gap_free Sqlite.cartSerde.toCodec Log.sha256 hopen [firstPut]).1
    exact (h secondPut (callAfter [firstPut] secondPut).2 rfl hcall).1
  · have h := (session_log_gap_free Sqlite.cartSerde.toCodec Log.sha256 hopen
      [firstPut, secondPut]).2.2.1
    exact h (by decide +kernel) _ hlast _
  · have h := (session_log_gap_free Sqlite.cartSerde.toCodec Log.sha256 hopen
      [firstPut, droppedPut]).2.1
    exact h (by decide +kernel) secondPut rfl

end DurableActors.Ports.Rapid
