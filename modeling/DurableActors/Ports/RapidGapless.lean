import DurableActors.Ports.RapidSession
import DurableActors.Ports.SqliteChain

/-!
# The session writes one gap-free log

Whatever fails and wherever a call is dropped, a session that still accepts calls
has written the versions after its base one after the other, each once.  The
invariant `Sound` says this of a state without regard to `healthy`; a call of `put`
breaks it only while `healthy` is lowered.
-/

namespace DurableActors.Ports.Rapid

open Verified
open Verified.Call (Ends)
open Sqlite (Bytes Codec StateStream StateSnapshot SnapshotRef parsed)
open Log (Record Digest)

variable {w w' w'' : World}

/-! ## The invariant -/

/-- The log is gap-free and the session's fields point to its end. -/
structure World.Sound (w : World) : Prop where
  base_le : w.session.stream.base ≤ w.session.version
  versions : w.written.map Record.version =
    List.range' (w.session.stream.base + 1) (w.session.version - w.session.stream.base)
  certain : ∀ segment ∈ w.segments, segment.doubtful = none
  confirmed : w.storing = none
  onlyStored : w.session.standard = true → ∀ segment ∈ w.segments, segment.records = []
  onlyLogged : w.session.standard = false → w.stored = []
  first : ∀ segment ∈ w.segments, ∀ record ∈ segment.records,
    segment.firstVersion ≤ record.version
  current : ∀ segment ∈ w.session.segment, segment.firstVersion ≤ w.session.version + 1
  preparing : ∀ first ∈ w.session.preparing,
    first ≤ w.session.version + 1 ∧ w.session.version = w.session.installedAt ∧
      w.segments = [] ∧ w.stored = []
  next : ∀ first ∈ w.session.next, first ≤ w.session.version + 1
  latest : ∀ record ∈ w.written.getLast?,
    w.session.latest = some (w.session.stream.object record.version, record.state)

/-- What a call changes neither before its write nor after it. -/
structure Kept (w w' : World) : Prop where
  stream : w'.session.stream = w.session.stream
  version : w'.session.version = w.session.version
  healthy : w'.session.healthy = w.session.healthy
  attempts : w'.attempts = w.attempts

theorem Kept.refl (w : World) : Kept w w := ⟨rfl, rfl, rfl, rfl⟩

theorem Kept.trans (h : Kept w w') (h' : Kept w' w'') : Kept w w'' :=
  ⟨h'.stream.trans h.stream, h'.version.trans h.version, h'.healthy.trans h.healthy,
    h'.attempts.trans h.attempts⟩

/-- A part of a call that moves segments around: the log stays as it is. -/
structure Moves (w w' : World) : Prop where
  kept : Kept w w'
  sound : w.Sound → w'.Sound
  written : w'.written = w.written
  latest : w'.session.latest = w.session.latest
  prepared : w.session.preparing = none → w'.session.preparing = none

theorem Moves.refl (w : World) : Moves w w := ⟨.refl w, id, rfl, rfl, id⟩

theorem Moves.trans (h : Moves w w') (h' : Moves w' w'') : Moves w w'' :=
  ⟨h.kept.trans h'.kept, fun hs => h'.sound (h.sound hs), h'.written.trans h.written,
    h'.latest.trans h.latest, fun hp => h'.prepared (h.prepared hp)⟩

/-- The handles of a session and the copies in the Standard store may be assigned
freely. -/
theorem Moves.assign (w : World) (preparing next : Option Nat) (archive retired : Option Archiver)
    (retirementError : Bool) (copies : List (String × Bytes))
    (hpreparing : ∀ first ∈ preparing, first ∈ w.session.preparing)
    (hnext : w.Sound → ∀ first ∈ next, first ≤ w.session.version + 1) :
    Moves w { w with
      session := { w.session with preparing, next, archive, retired, retirementError }
      copies } := by
  have hprepared : w.session.preparing = none → preparing = none := by
    intro hnone
    cases preparing with
    | none => rfl
    | some first => exact absurd (hpreparing first rfl) (by simp [hnone])
  refine ⟨⟨rfl, rfl, rfl, rfl⟩, fun hs => ?_, rfl, rfl, hprepared⟩
  exact {
    base_le := hs.base_le
    versions := hs.versions
    certain := hs.certain
    confirmed := hs.confirmed
    onlyStored := hs.onlyStored
    onlyLogged := hs.onlyLogged
    first := hs.first
    current := hs.current
    preparing := fun first hfirst => hs.preparing first (hpreparing first hfirst)
    next := hnext hs
    latest := hs.latest }

/-- The invariant does not read `healthy`. -/
theorem World.Sound.flag (hs : w.Sound) (healthy : Bool) (attempts : Nat) :
    World.Sound { w with session := { w.session with healthy }, attempts } :=
  ⟨hs.base_le, hs.versions, hs.certain, hs.confirmed, hs.onlyStored, hs.onlyLogged, hs.first,
    hs.current, hs.preparing, hs.next, hs.latest⟩

/-! ## Rotation -/

theorem World.install_written (w : World) (fresh : Option Nat) :
    (w.install (fresh.map Segment.opened)).written = w.written := by
  have hsegments : (w.install (fresh.map Segment.opened)).segments =
      w.segments ++ (fresh.map Segment.opened).toList := rfl
  have hnew : (fresh.map Segment.opened).toList.flatMap Segment.records = [] := by
    cases fresh with
    | none => rfl
    | some first => rfl
  rw [World.written, hsegments, List.flatMap_append, hnew, List.append_nil]
  rfl

/-- A fresh segment may be installed while the session writes to segments, or
before it has written anything; the latter is also when it may go without one. -/
theorem World.Sound.install (hs : w.Sound) (fresh : Option Nat)
    (hfresh : ∀ first ∈ fresh, first ≤ w.session.version + 1)
    (hmode : w.segments = [] ∧ w.stored = [] ∨ fresh.isSome ∧ w.session.standard = false)
    (hpreparing : w.session.preparing = none) : (w.install (fresh.map Segment.opened)).Sound := by
  have hsegments : (w.install (fresh.map Segment.opened)).segments =
      w.segments ++ (fresh.map Segment.opened).toList := rfl
  have hmem : ∀ s ∈ (w.install (fresh.map Segment.opened)).segments,
      s ∈ w.segments ∨ ∃ first ∈ fresh, Segment.opened first = s := by
    intro s hs
    rw [hsegments, List.mem_append, Option.mem_toList] at hs
    exact hs.imp_right Option.map_eq_some_iff.mp
  constructor
  case base_le => exact hs.base_le
  case versions => rw [World.install_written]; exact hs.versions
  case certain =>
    intro s hsmem
    rcases hmem s hsmem with h | ⟨first, -, rfl⟩
    · exact hs.certain s h
    · rfl
  case confirmed => exact hs.confirmed
  case onlyStored =>
    intro hstandard s hsmem
    have hnone : fresh = none := by simpa [World.install] using hstandard
    rcases hmode with ⟨hempty, -⟩ | ⟨hsome, -⟩
    · rw [hsegments, hempty, hnone] at hsmem
      simp at hsmem
    · simp [hnone] at hsome
  case onlyLogged =>
    intro _
    rcases hmode with ⟨-, hempty⟩ | ⟨-, hrapid⟩
    · exact hempty
    · exact hs.onlyLogged hrapid
  case first =>
    intro s hsmem record hrecord
    rcases hmem s hsmem with h | ⟨first, -, rfl⟩
    · exact hs.first s h record hrecord
    · simp [Segment.opened] at hrecord
  case current =>
    intro s hsegment
    obtain ⟨first, hfirst, rfl⟩ := Option.mem_map.mp hsegment
    exact hfresh first hfirst
  case preparing =>
    intro first hfirst
    have hnone : (w.install (fresh.map Segment.opened)).session.preparing = none :=
      hpreparing
    simp [hnone] at hfirst
  case next => exact hs.next
  case latest => rw [World.install_written]; exact hs.latest

theorem collectRetired_moves (a : RotateAnswers) (w : World) :
    Ends (collectRetired a) w (fun _ w' => Moves w w') (fun _ w' => Moves w w') := by
  refine .bind (.get ?_)
  split
  · have htaken : ∀ b, Moves w { w with session := { w.session with
        retired := none, retirementError := b } } := fun b =>
      .assign w _ _ _ _ b _ (fun _ h => h) World.Sound.next
    refine .bind (.modify ?_)
    split
    · exact .modify (htaken true)
    · exact .await (fun _ _ => htaken _) (fun _ => htaken _)
  · exact .pure (.refl w)

theorem World.rotated_moves {first : Nat} (prepared : Option (Except Fault Bool))
    (hstandard : w.session.standard = false) (hfirst : w.session.version + 1 = first)
    (hwritten : w.session.version ≠ w.session.installedAt) :
    Moves w (w.rotated prepared first) := by
  have hnext : w.Sound → w.session.next.getD first ≤ w.session.version + 1 := by
    intro hs
    cases hn : w.session.next with
    | none => exact hfirst.ge
    | some n => exact hs.next n hn
  unfold World.rotated
  split
  · -- still being prepared
    refine .assign w _ _ _ _ _ _ (fun _ h => h) ?_
    intro hs n hn
    have hsame : w.session.next.getD first = n := Option.some.inj hn
    exact hsame ▸ hnext hs
  · refine ⟨⟨rfl, rfl, rfl, rfl⟩, fun hs => ?_, ?_, rfl, id⟩
    · have hpreparing : w.session.preparing = none := by
        cases hp : w.session.preparing with
        | none => rfl
        | some n => exact absurd (hs.preparing n hp).2.1 hwritten
      refine .install ?_ (some _) ?_ (.inr ⟨rfl, hstandard⟩) hpreparing
      · exact (Moves.assign w _ none none _ _ w.copies (fun _ h => h) (by simp)).sound hs
      intro n hn
      exact Option.some.inj hn ▸ hnext hs
    · exact World.install_written _ (some _)
  · -- no segment: the current one stays
    exact .assign w _ _ _ _ _ _ (fun _ h => h) (by simp)

/-- A rotation that completes or stops leaves the log as it is. -/
theorem rotate_moves (a : RotateAnswers) (w : World) :
    Ends (rotate a) w (fun _ w' => Moves w w') (fun _ w' => Moves w w') := by
  refine .bind ((collectRetired_moves a w).mono (fun _ w₁ h₁ => ?_) (fun _ _ h => h))
  refine .bind (.get ?_)
  split
  · exact .pure h₁
  · rename_i hgoes
    simp only [not_or] at hgoes
    obtain ⟨-, hstandard, -, -, hwritten⟩ := hgoes
    split
    · exact .pure h₁
    · rename_i first hfirst
      exact .modify (h₁.trans (World.rotated_moves a.prepared
        (Bool.eq_false_of_not_eq_true hstandard) (Checked.checkedAdd_eq_some.mp hfirst).1
        hwritten))

/-! ## Writing -/

/-- The first segment is installed before anything is written. -/
theorem installPrepared_moves (prepared : Answer Bool) (w : World) :
    Ends (installPrepared prepared) w
      (fun _ w' => Moves w w' ∧ w'.session.preparing = none) (fun _ w' => Kept w w') := by
  refine .bind (.get ?_)
  cases hp : w.session.preparing with
  | none => exact .pure ⟨.refl w, hp⟩
  | some first =>
    refine .bind (.modify (.bind (.await ?_ ?_)))
    · intro available _
      refine .modify ?_
      have hmoved := Moves.assign w none w.session.next w.session.archive w.session.retired
        w.session.retirementError w.copies (by simp) World.Sound.next
      have hfresh : (if available = true then some (Segment.opened first) else none) =
          (if available = true then some first else none).map Segment.opened := by
        cases available with
        | true => rfl
        | false => rfl
      rw [hfresh]
      refine ⟨⟨⟨rfl, rfl, rfl, rfl⟩, fun hs => ?_, World.install_written _ _, rfl,
        fun _ => rfl⟩, rfl⟩
      obtain ⟨hle, -, hempty⟩ := hs.preparing first hp
      refine .install (hmoved.sound hs) _ ?_ (.inl hempty) rfl
      intro n hn
      cases available with
      | true => exact Option.some.inj hn ▸ hle
      | false => exact absurd hn (by simp)
    · exact fun _ => ⟨rfl, rfl, rfl, rfl⟩

/-- A confirmed write of a record. -/
inductive Wrote (w : World) (record : Record) : World → Prop
  | stored (hstandard : w.session.standard = true) :
      Wrote w record { w with stored := w.stored ++ [record], storing := none }
  | appended {segment : Segment} (offset : Nat) (archive : Option Archiver)
      (hrapid : w.session.standard = false) (hsegment : w.session.segment = some segment) :
      Wrote w record { w with session := { w.session with
        segment := some { segment with
          offset, healthy := true, records := segment.records ++ [record], doubtful := none }
        archive } }

theorem Segment.append_ends (digest : Digest) (flushed : Answer (List (Except String Nat)))
    (version : Nat) (state : Bytes) (segment : Segment) :
    Ends (Segment.append digest flushed version state) segment
      (fun _ segment' => ∃ offset, segment' = { segment with
        offset, healthy := true, records := segment.records ++ [⟨version, state⟩],
        doubtful := none })
      (fun _ _ => True) := by
  refine .bind (.get (.bind (.ensure ?_ fun _ => trivial)))
  intro _
  refine .bind (.lift ?_ fun _ _ => trivial)
  intro frame _
  refine .bind (.lift ?_ fun _ _ => trivial)
  intro expected _
  refine .bind (.modify (.bind (.await ?_ fun _ => trivial)))
  intro results _
  refine .bind (.lift ?_ fun _ _ => trivial)
  intro _ _
  exact .bind (.modify (.pure ⟨expected, rfl⟩))

theorem appendRecord_ends (digest : Digest) (flushed : Answer (List (Except String Nat)))
    (record : Record) (hrapid : w.session.standard = false) :
    Ends (appendRecord digest flushed record) w (fun _ w' => Wrote w record w')
      (fun _ w' => Kept w w') := by
  refine .bind (.within ?_ fun _ => .refl w)
  intro segment hsegment
  refine (Segment.append_ends digest flushed record.version record.state segment).mono ?_ ?_
  · rintro frame segment' ⟨offset, rfl⟩
    refine .bind (.get (.bind (.lift ?_ fun _ _ => ⟨rfl, rfl, rfl, rfl⟩)))
    intro archive _
    exact .modify (.appended offset _ hrapid hsegment)
  · exact fun _ _ _ => ⟨rfl, rfl, rfl, rfl⟩

theorem storeRecord_ends (stored : Answer Unit) (record : Record)
    (hstandard : w.session.standard = true) :
    Ends (storeRecord stored record) w (fun _ w' => Wrote w record w') (fun _ w' => Kept w w') := by
  refine .bind (.modify (.bind (.await ?_ ?_)))
  · intro _ _
    exact .modify (.stored hstandard)
  · exact fun _ => ⟨rfl, rfl, rfl, rfl⟩

theorem writeRecord_ends (digest : Digest) (flushed : Answer (List (Except String Nat)))
    (stored : Answer Unit) (record : Record) (w : World) :
    Ends (writeRecord digest flushed stored record) w (fun _ w' => Wrote w record w')
      (fun _ w' => Kept w w') := by
  refine .bind (.get ?_)
  split
  · exact storeRecord_ends _ _ ‹_›
  · exact appendRecord_ends _ _ _ (Bool.eq_false_of_not_eq_true ‹_›)

theorem Wrote.kept {record : Record} (h : Wrote w record w') : Kept w w' := by
  cases h with
  | stored _ => exact ⟨rfl, rfl, rfl, rfl⟩
  | appended _ _ _ _ => exact ⟨rfl, rfl, rfl, rfl⟩

theorem Wrote.written {record : Record} (h : Wrote w record w') (hs : w.Sound) :
    w'.written = w.written ++ [record] := by
  cases h with
  | stored _ => exact (List.append_assoc _ _ _).symm
  | appended offset archive hrapid hsegment =>
    have hstored := hs.onlyLogged hrapid
    simp only [World.written, World.segments, hsegment, hstored, Option.toList_some,
      List.flatMap_append, List.flatMap_cons, List.flatMap_nil, List.append_nil,
      List.append_assoc]

/-- The segments after a write: those before it, and the current one with the record
at its end. -/
theorem Wrote.segments {record : Record} (h : Wrote w record w') {s : Segment}
    (hmem : s ∈ w'.segments) : s ∈ w.segments ∨ w.session.standard = false ∧
      ∃ old ∈ w.session.segment, s.firstVersion = old.firstVersion ∧ s.doubtful = none ∧
        s.records = old.records ++ [record] := by
  cases h with
  | stored _ => exact .inl hmem
  | @appended old offset archive hrapid hsegment =>
    rcases List.mem_append.mp hmem with hreleased | hcurrent
    · exact .inl (List.mem_append_left _ hreleased)
    · rw [Option.mem_toList] at hcurrent
      cases hcurrent
      exact .inr ⟨hrapid, old, hsegment, rfl, rfl, rfl⟩

theorem Wrote.mode {record : Record} (h : Wrote w record w') :
    w'.session.standard = w.session.standard ∧ w'.session.next = w.session.next ∧
      w'.session.preparing = w.session.preparing := by
  cases h with
  | stored _ => exact ⟨rfl, rfl, rfl⟩
  | appended _ _ _ _ => exact ⟨rfl, rfl, rfl⟩

theorem mem_segments_of_current {s : Segment} (h : s ∈ w.session.segment) : s ∈ w.segments :=
  List.mem_append_right _ (Option.mem_toList.mpr h)

/-- The record of a write: the session's fields move to the end of the log. -/
def World.record (w : World) (record : Record) : World :=
  { w with session := { w.session with
    version := record.version
    latest := some (w.session.stream.object record.version, record.state)
    healthy := true } }

/-- A confirmed write of the next version extends the log. -/
theorem Wrote.sound {record : Record} (h : Wrote w record w') (hs : w.Sound)
    (hnext : w.session.version + 1 = record.version)
    (hpreparing : w.session.preparing = none) : (w'.record record).Sound := by
  have hwritten : (w'.record record).written = w.written ++ [record] := h.written hs
  have hstream : (w'.record record).session.stream = w.session.stream := h.kept.stream
  have hbase := hs.base_le
  constructor
  case base_le =>
    rw [hstream]
    show w.session.stream.base ≤ record.version
    omega
  case versions =>
    have hlast : record.version - w.session.stream.base =
        (w.session.version - w.session.stream.base) + 1 := by omega
    have hend : w.session.stream.base + 1 + (w.session.version - w.session.stream.base) =
        record.version := by omega
    rw [hwritten, hstream, List.map_append, hs.versions]
    show _ = List.range' _ (record.version - w.session.stream.base)
    rw [hlast, List.range'_1_concat, hend]
    rfl
  case certain =>
    intro s hmem
    rcases h.segments hmem with hold | ⟨-, old, -, -, hcertain, -⟩
    · exact hs.certain s hold
    · exact hcertain
  case confirmed =>
    cases h with
    | stored _ => rfl
    | appended _ _ _ _ => exact hs.confirmed
  case onlyStored =>
    intro hstandard s hmem
    rcases h.segments hmem with hold | ⟨hrapid, -⟩
    · exact hs.onlyStored (h.mode.1 ▸ hstandard) s hold
    · exact absurd (h.mode.1.symm.trans hstandard) (by simp [hrapid])
  case onlyLogged =>
    intro hrapid
    cases h with
    | stored hstandard => exact absurd (hstandard.symm.trans hrapid) (by simp)
    | appended _ _ _ _ => exact hs.onlyLogged hrapid
  case first =>
    intro s hmem r hr
    rcases h.segments hmem with hold | ⟨-, old, hcurrent, hfirst, -, hrecords⟩
    · exact hs.first s hold r hr
    · have hle := hs.current old hcurrent
      rw [hrecords, List.mem_append, List.mem_singleton] at hr
      rw [hfirst]
      rcases hr with hbefore | rfl
      · exact hs.first old (mem_segments_of_current hcurrent) r hbefore
      · omega
  case current =>
    intro s hcurrent
    show s.firstVersion ≤ record.version + 1
    cases h with
    | stored _ =>
      have hle := hs.current s hcurrent
      omega
    | @appended old offset archive _ hsegment =>
      have hle := hs.current old hsegment
      cases hcurrent
      show old.firstVersion ≤ record.version + 1
      omega
  case preparing =>
    intro first hfirst
    have hnone : (w'.record record).session.preparing = none := h.mode.2.2.trans hpreparing
    simp [hnone] at hfirst
  case next =>
    intro first hfirst
    have hle := hs.next first (h.mode.2.1 ▸ hfirst)
    show first ≤ record.version + 1
    omega
  case latest =>
    intro r hr
    rw [hwritten, List.getLast?_concat] at hr
    rw [← Option.some.inj hr]
    rfl

/-! ## One call of `put` -/

theorem reference_of_snapshot {codec : Codec} {stream : StateStream} {bytes : Bytes}
    {reference : SnapshotRef} (h : stream.snapshot codec bytes = .ok reference) :
    reference.object = stream.object reference.version ∧ stream.base < reference.version ∧
      ∃ snapshot, StateSnapshot.decode codec bytes = .ok snapshot ∧
        snapshot.version = reference.version := by
  obtain ⟨snapshot, hdecode, -, -, hbase, rfl⟩ := StateStream.snapshot_eq_ok h
  exact ⟨rfl, hbase, snapshot, hdecode, rfl⟩

/-- A call of `put` that has recorded its write. -/
structure Recorded (codec : Codec) (object : String) (bytes : Bytes) (w w' : World) :
    Prop where
  healthy : w'.session.healthy = true
  next : w'.session.version = w.session.version + 1
  stream : w'.session.stream = w.session.stream
  named : object = w.session.stream.object w'.session.version
  latest : w'.session.latest = some (object, bytes)
  decoded : ∃ reference, w.session.stream.snapshot codec bytes = .ok reference ∧
    reference.version = w'.session.version
  sound : w.Sound → w'.Sound
  written : w.Sound → w'.written = w.written ++ [⟨w'.session.version, bytes⟩]

/-- A call of `put` that stopped between the start of its write and its record. -/
structure Halted (w w' : World) : Prop where
  healthy : w'.session.healthy = false
  version : w'.session.version = w.session.version
  attempts : w'.attempts = w.attempts + 1

/-- What a call of `put` can do. -/
theorem put_ends (codec : Codec) (digest : Digest) (a : PutAnswers) (object : String)
    (bytes : Bytes) (w : World) :
    Ends (put codec digest a object bytes) w (fun _ w' => w.session.healthy = true ∧ (w' = w ∧
          w.session.cached object = some bytes ∧
          (∃ reference, w.session.stream.snapshot codec bytes = .ok reference ∧
            reference.object = object) ∨ Recorded codec object bytes w w'))
      (fun _ w' => Moves w w' ∨ w.session.healthy = true ∧
        (Halted w w' ∨ Recorded codec object bytes w w')) := by
  refine .bind (.get (.bind (.ensure ?_ fun _ => .inl (.refl w))))
  intro hhealthy
  refine .bind (.lift ?_ fun _ _ => .inl (.refl w))
  intro reference hreference
  obtain ⟨hobject, -, -⟩ := reference_of_snapshot hreference
  refine .bind (.ensure ?_ fun _ => .inl (.refl w))
  intro hown
  have hown := of_decide_eq_true hown
  split
  · rename_i hcached
    exact .pure ⟨hhealthy, .inl ⟨rfl, hcached, reference, hreference, hown⟩⟩
  refine .bind (.ensure ?_ fun _ => .inl (.refl w))
  intro hnext
  have hnext := (Checked.checkedAdd_eq_some.mp (of_decide_eq_true hnext)).1
  refine .bind ((rotate_moves a.rotation w).mono ?_ fun _ _ h => .inl h)
  intro _ w₁ h₁
  -- from here on the session refuses every other call until the write is recorded
  have halted : ∀ {w' : World}, Kept { w₁ with
      session := { w₁.session with healthy := false }, attempts := w₁.attempts + 1 } w' →
      Halted w w' := fun hkept =>
    ⟨hkept.healthy, hkept.version.trans h₁.kept.version, by
      rw [hkept.attempts, ← h₁.kept.attempts]⟩
  refine .bind (.modify (.bind ((installPrepared_moves a.prepared _).mono ?_
    fun _ _ h => .inr ⟨hhealthy, .inl (halted h)⟩)))
  rintro _ w₃ ⟨h₃, hprepared⟩
  have hstream₃ : w₃.session.stream = w.session.stream :=
    h₃.kept.stream.trans h₁.kept.stream
  have hversion₃ : w₃.session.version = w.session.version :=
    h₃.kept.version.trans h₁.kept.version
  have hsound₃ : w.Sound → w₃.Sound := fun hs => h₃.sound ((h₁.sound hs).flag _ _)
  have hwritten₃ : w₃.written = w.written := h₃.written.trans h₁.written
  have recorded : ∀ {w' : World}, Wrote w₃ ⟨reference.version, bytes⟩ w' →
      Recorded codec object bytes w (w'.record ⟨reference.version, bytes⟩) := by
    intro w' hwrote
    have hnext₃ : w₃.session.version + 1 = reference.version := by rw [hversion₃, hnext]
    exact {
      healthy := rfl
      next := hnext.symm
      stream := hwrote.kept.stream.trans hstream₃
      named := hown.symm.trans hobject
      latest := by
        rw [World.record, hwrote.kept.stream, hstream₃, ← hobject, hown]
      decoded := ⟨reference, hreference, rfl⟩
      sound := fun hs => hwrote.sound (hsound₃ hs) hnext₃ hprepared
      written := fun hs => by
        rw [← hwritten₃]
        exact hwrote.written (hsound₃ hs) }
  have hrecord : ∀ {w' : World}, Wrote w₃ ⟨reference.version, bytes⟩ w' →
      { w' with session := { w'.session with
        version := reference.version, latest := some (object, bytes), healthy := true } } =
      w'.record ⟨reference.version, bytes⟩ := by
    intro w' hwrote
    have hname : object = w'.session.stream.object reference.version := by
      rw [hwrote.kept.stream, hstream₃, ← hobject, hown]
    rw [World.record, hname]
  refine .bind ((writeRecord_ends _ _ _ _ w₃).mono ?_
    fun _ _ h => .inr ⟨hhealthy, .inl (halted (h₃.kept.trans h))⟩)
  intro _ w' hwrote
  refine .bind (.modify ?_)
  rw [hrecord hwrote]
  exact .pause ⟨hhealthy, .inr (recorded hwrote)⟩ (.inr ⟨hhealthy, .inr (recorded hwrote)⟩)

/-! ## The other calls -/

/-- The segment a session holds counts as released once it is let go; a segment that
was never written to may join it. -/
theorem World.Sound.release (hs : w.Sound) (empty : List Segment)
    (hempty : ∀ s ∈ empty, s.records = [] ∧ s.doubtful = none)
    (hsegments : ∀ s ∈ w'.segments, s ∈ w.segments ∨ s ∈ empty)
    (hwritten : w'.written = w.written) (hstored : w'.stored = w.stored)
    (hstoring : w'.storing = w.storing) (hstream : w'.session.stream = w.session.stream)
    (hversion : w'.session.version = w.session.version)
    (hstandard : w'.session.standard = w.session.standard)
    (hlatest : w'.session.latest = w.session.latest)
    (hcurrent : ∀ s ∈ w'.session.segment, s ∈ w.session.segment)
    (hpreparing : w'.session.preparing = none)
    (hnext : ∀ first ∈ w'.session.next, first ∈ w.session.next) : w'.Sound := by
  constructor
  case base_le => rw [hstream, hversion]; exact hs.base_le
  case versions => rw [hwritten, hstream, hversion]; exact hs.versions
  case certain =>
    intro s hmem
    exact (hsegments s hmem).elim (hs.certain s) fun h => (hempty s h).2
  case confirmed => exact hstoring.trans hs.confirmed
  case onlyStored =>
    intro h s hmem
    exact (hsegments s hmem).elim (hs.onlyStored (hstandard.symm.trans h) s)
      fun h => (hempty s h).1
  case onlyLogged => exact fun h => hstored.trans (hs.onlyLogged (hstandard.symm.trans h))
  case first =>
    intro s hmem record hrecord
    rcases hsegments s hmem with h | h
    · exact hs.first s h record hrecord
    · simp [(hempty s h).1] at hrecord
  case current => exact fun s h => hversion ▸ hs.current s (hcurrent s h)
  case preparing => simp [hpreparing]
  case next => exact fun first h => hversion ▸ hs.next first (hnext first h)
  case latest => rw [hwritten, hlatest, hstream]; exact hs.latest

theorem finishNext_moves (a : FinishAnswers) (hprepared : w.session.preparing = none) :
    Ends (finishNext a) w (fun _ w' => Moves w w') (fun _ w' => Kept w w') := by
  refine .bind (.get ?_)
  split
  · exact .pure (.refl w)
  · rename_i first hnext
    refine .bind (.modify (.bind (.await ?_ fun _ => ⟨rfl, rfl, rfl, rfl⟩)))
    intro available _
    split
    · refine .bind (.modify (.await ?_ fun _ => ⟨rfl, rfl, rfl, rfl⟩))
      intro _ _
      have hwritten : ((w.released ++ [Segment.opened first] ++
          w.session.segment.toList).flatMap Segment.records) ++ w.stored = w.written := by
        simp [World.written, World.segments, Segment.opened]
      refine ⟨⟨rfl, rfl, rfl, rfl⟩, fun hs => ?_, hwritten, rfl, id⟩
      refine hs.release [Segment.opened first] ?_ ?_ hwritten rfl rfl rfl rfl rfl rfl
        (fun _ h => h) hprepared (by simp)
      · intro s hmem
        rw [List.mem_singleton.mp hmem]
        exact ⟨rfl, rfl⟩
      · intro s hmem
        simp only [World.segments, List.mem_append] at hmem ⊢
        tauto
    · exact .pure (.assign w _ none _ _ _ _ (fun _ h => h) (by simp))

theorem finishCurrent_moves (archived : Answer Unit) (w : World) :
    Ends (finishCurrent archived) w (fun _ w' => Moves w w') (fun _ w' => Kept w w') := by
  refine .bind (.get ?_)
  split
  · refine .bind (.modify (.await ?_ fun _ => ⟨rfl, rfl, rfl, rfl⟩))
    exact fun _ _ => .assign w _ _ none _ _ _ (fun _ h => h) World.Sound.next
  · exact .pure (.refl w)

theorem finishRetired_moves (retired : Answer Unit) (w : World) :
    Ends (finishRetired retired) w (fun _ w' => Moves w w') (fun _ w' => Kept w w') := by
  refine .bind (.get ?_)
  split
  · refine .bind (.modify (.await ?_ fun _ => ⟨rfl, rfl, rfl, rfl⟩))
    exact fun _ _ => .assign w _ _ _ none _ _ (fun _ h => h) World.Sound.next
  · exact .pure (.refl w)

theorem copyLatest_moves (copied : Answer Unit) (w : World) :
    Ends (copyLatest copied) w (fun _ w' => Moves w w') (fun _ w' => Kept w w') := by
  refine .bind (.get ?_)
  split
  · exact .pure (.refl w)
  · refine .bind (.await ?_ fun _ => .refl w)
    exact fun _ _ => Ends.modify (.assign w _ _ _ _ _ _ (fun _ h => h) World.Sound.next)

theorem finishArchive_moves (a : FinishAnswers) (w : World) :
    Ends (finishArchive a) w
      (fun _ w' => Moves w w' ∧ w'.session.preparing = none) (fun _ w' => Kept w w') := by
  refine .bind ((installPrepared_moves a.prepared w).mono ?_ fun _ _ h => h)
  rintro _ w₁ ⟨h₁, hprepared⟩
  have kept : ∀ {w₂ w' : World}, Moves w₁ w₂ → Kept w₂ w' → Kept w w' :=
    fun h₂ h' => h₁.kept.trans (h₂.kept.trans h')
  refine .bind ((finishNext_moves a hprepared).mono ?_ fun _ _ h => h₁.kept.trans h)
  intro _ w₂ h₂
  refine .bind ((finishCurrent_moves a.archived w₂).mono ?_ fun _ _ h => kept h₂ h)
  intro _ w₃ h₃
  have h₃ := h₂.trans h₃
  refine .bind ((finishRetired_moves a.retired w₃).mono ?_ fun _ _ h => kept h₃ h)
  intro _ w₄ h₄
  have h₄ := h₃.trans h₄
  refine .bind (.get (.bind (.ensure ?_ fun _ => kept h₄ (.refl w₄))))
  intro _
  refine (copyLatest_moves a.copied w₄).mono ?_ fun _ _ h => kept h₄ h
  intro _ w₅ h₅
  have h₅ := h₄.trans h₅
  exact ⟨h₁.trans h₅, h₅.prepared hprepared⟩

theorem World.letGo_segments (w : World) : w.letGo.segments = w.segments := by
  simp [World.letGo, World.segments]

theorem World.letGo_written (w : World) : w.letGo.written = w.written := by
  rw [World.written, World.letGo_segments]
  rfl

theorem World.Sound.letGo (hs : w.Sound) (hprepared : w.session.preparing = none) :
    w.letGo.Sound := by
  refine hs.release [] (by simp) ?_ w.letGo_written rfl rfl rfl rfl rfl rfl
    (by simp [World.letGo]) hprepared (fun _ h => h)
  intro s hmem
  rw [World.letGo_segments] at hmem
  exact .inl hmem

/-- A call of `finish` leaves the log as it is, or the session refusing every call. -/
theorem finish_ends (a : FinishAnswers) (w : World) :
    Ends (finish a) w (fun _ w' => w.session.healthy = true ∧ Moves w w')
      (fun _ w' => w'.session.healthy = false) := by
  refine .bind (.get (.bind (.ensure ?_ fun h => h)))
  intro hhealthy
  refine .bind (.modify (.bind ((finishArchive_moves a _).mono ?_
    fun _ _ h => h.healthy)))
  rintro _ w₁ ⟨h₁, hprepared⟩
  have hcheckpoint : Ends (finishCheckpoint a.checkpointed) w₁ (fun _ w' => w' = w₁)
      (fun _ w' => w' = w₁) := by
    refine .bind (.get ?_)
    split
    · exact .pause rfl rfl
    · exact .pure rfl
  refine .bind (hcheckpoint.mono ?_ fun _ w' h => h ▸ h₁.kept.healthy)
  rintro _ _ rfl
  refine .modify ⟨hhealthy, ?_⟩
  exact {
    kept := ⟨h₁.kept.stream, h₁.kept.version, hhealthy.symm, h₁.kept.attempts⟩
    sound := fun hs => (h₁.sound (hs.flag false w.attempts)).letGo hprepared
    written := (World.letGo_written _).trans h₁.written
    latest := h₁.latest
    prepared := fun _ => hprepared }

/-- If the latest snapshot is one of this stream, it has the session's version. -/
def World.Own (codec : Codec) (w : World) : Prop :=
  ∀ object bytes reference, w.session.latest = some (object, bytes) →
    w.session.stream.snapshot codec bytes = .ok reference → reference.object = object →
    reference.version = w.session.version

/-- What `restored` keeps. -/
structure Adopts (codec : Codec) (w w' : World) : Prop where
  kept : Kept w w'
  sound : w.Sound → w'.Sound
  own : w.Own codec → w'.Own codec
  written : w'.written = w.written

/-- `restored` sets the latest snapshot only if nothing has been written, and to one of
the base version. -/
theorem restored_ends (codec : Codec) (scheduled : Bool) (object : String) (bytes : Bytes)
    (w : World) :
    Ends (restored codec scheduled object bytes) w
      (fun _ w' => Adopts codec w w') (fun _ w' => Adopts codec w w') := by
  have same : Adopts codec w w := ⟨.refl w, id, id, rfl⟩
  refine .bind (.get (.bind (.lift ?_ fun _ _ => same)))
  intro snapshot hsnapshot
  split
  · exact .pure same
  rename_i hfresh
  simp only [not_or, Decidable.not_not] at hfresh
  refine .bind (.lift ?_ fun _ _ => same)
  intro actor _
  refine .bind (.lift ?_ fun _ _ => same)
  intro own _
  split
  · exact .pure same
  have hset : Adopts codec w
      { w with session := { w.session with latest := some (object, bytes) } } := by
    refine ⟨⟨rfl, rfl, rfl, rfl⟩, fun hs => ?_, fun _ => ?_, rfl⟩
    · refine ⟨hs.base_le, hs.versions, hs.certain, hs.confirmed, hs.onlyStored, hs.onlyLogged,
        hs.first, hs.current, hs.preparing, hs.next, ?_⟩
      -- with a record in the log there would be a latest snapshot already
      intro record hrecord
      have hlatest := hs.latest record hrecord
      simp [hlatest] at hfresh
    · intro object' bytes' reference hlatest hreference _
      obtain ⟨-, hbase, decoded, hdecoded, hversion⟩ := reference_of_snapshot hreference
      cases hlatest
      rw [hsnapshot] at hdecoded
      cases hdecoded
      have hbase : w.session.stream.base < reference.version := hbase
      have hrestored : snapshot.version = w.session.stream.base := hfresh.2
      omega
  exact .bind (.modify (.pause hset hset))

end DurableActors.Ports.Rapid
