import DurableActors.Ports.StorageScopes

/-!
# Snapshot names, forwards and backwards

`validate_snapshot_object_name` reads the name of a snapshot against its actor and
version.  The name is the path of the actor, the nonce and the version between
separators that none of them contains, so the three are read off it, and the check
accepts exactly the names that `snapshot_object_name` makes.
-/

namespace DurableActors.Ports.StoragePaths

open Verified Verified.Checked

/-- `validate_object_name`. -/
def validateObjectName (name : String) : Checked Unit :=
  ensure (root.toList.isPrefixOf name.toList && name.utf8ByteSize ≤ 1024 &&
    !name.toList.any isControl) "actor state object name is invalid"

/-- `validate_snapshot_object_name`. -/
def validateSnapshotObjectName (sha256 : List UInt8 → Digest) (actor : ActorKey)
    (stateVersion : Nat) (name : String) : Checked Unit := do
  validateObjectName name
  let start ← snapshots sha256 actor
  let valid := match Text.split '/' ((Text.stripPrefix start name).getD "") with
    | [nonce, file] => nonce.utf8ByteSize = 32 && nonce.toList.all isHexDigit &&
        file == toString stateVersion ++ ".json"
    | _ => false
  ensure valid "actor state object name does not match its commit"

variable {sha256 : List UInt8 → Digest} {actor : ActorKey} {version : Nat} {nonce name : String}

/-! ## The parts of a name -/

/-- What `snapshot_object_name` accepts as a nonce. -/
def ValidNonce (nonce : String) : Prop :=
  nonce.utf8ByteSize = 32 ∧ ∀ c ∈ nonce.toList, isHexDigit c = true

theorem ValidNonce.not_mem (h : ValidNonce nonce) {c : Char} (hc : isHexDigit c = false) :
    c ∉ nonce.toList :=
  fun hmem => absurd (h.2 c hmem) (by rw [hc]; decide)

theorem snapshotObjectName_iff : snapshotObjectName sha256 actor version nonce = .ok name ↔
    actor.validate = .ok () ∧ 0 < version ∧ ValidNonce nonce ∧
      name = Area.snapshots.head sha256 actor ++
        (nonce ++ ("/" ++ (toString version ++ ".json"))) := by
  unfold snapshotObjectName ValidNonce
  simp only [bind_eq_ok, ensure_eq_ok, decide_eq_true_eq, Bool.and_eq_true, List.all_eq_true]
  constructor
  · rintro ⟨_, hvalid, _, hversion, _, hnonce, start, hstart, hname⟩
    rw [snapshots_eq hvalid] at hstart
    rw [← Except.ok.inj hstart] at hname
    exact ⟨hvalid, hversion, hnonce, (Except.ok.inj hname).symm⟩
  · rintro ⟨hvalid, hversion, hnonce, rfl⟩
    exact ⟨(), hvalid, (), hversion, (), hnonce, _, snapshots_eq hvalid, rfl⟩

theorem not_control_of_isHexDigit {c : Char} (h : isHexDigit c = true) : isControl c = false := by
  simp only [isHexDigit, Char.isDigit, Char.le_def, Bool.or_eq_true, Bool.and_eq_true,
    decide_eq_true_eq, UInt32.le_iff_toNat_le] at h
  have hrange : 48 ≤ c.val.toNat ∧ c.val.toNat ≤ 102 := by
    rcases h with (h | h) | h
    · exact ⟨h.1, h.2.trans (by decide)⟩
    · exact ⟨(by decide : 48 ≤ 'a'.val.toNat).trans h.1, h.2⟩
    · exact ⟨(by decide : 48 ≤ 'A'.val.toNat).trans h.1, h.2.trans (by decide)⟩
  simp only [isControl, Bool.or_eq_false_iff, Bool.and_eq_false_iff, decide_eq_false_iff_not,
    UInt32.lt_iff_toNat_lt, UInt32.le_iff_toNat_le, UInt32.toNat_ofNat]
  omega

/-- No character is a control character. -/
def Plain (s : String) : Prop := ∀ c ∈ s.toList, isControl c = false

instance (s : String) : Decidable (Plain s) :=
  List.decidableBAll (fun c => isControl c = false) s.toList

theorem Plain.append {s t : String} (hs : Plain s) (ht : Plain t) : Plain (s ++ t) := by
  intro c hc
  rw [String.toList_append, List.mem_append] at hc
  exact hc.elim (hs c) (ht c)

theorem plain_component (value : String) : Plain (component value) := by
  intro c hc
  have halphabet : Base64.alphabet.all (isControl · == false) = true := by decide +kernel
  by_contra hcontrol
  refine not_mem_component (fun hmem => hcontrol ?_) value hc
  exact eq_of_beq (List.all_eq_true.mp halphabet c hmem)

theorem plain_hex (width n : Nat) : Plain (Text.padded 16 width n) := by
  intro c hc
  obtain ⟨d, hd, rfl⟩ := Text.mem_padded (by decide) hc
  exact (by decide : ∀ d < 16, isControl (Nat.digitChar d) = false) d hd

theorem plain_toString (n : Nat) : Plain (toString n) := by
  intro c hc
  apply not_control_of_isHexDigit
  by_contra hhex
  have hdigit : c.isDigit = false := by
    by_contra hdigit
    exact hhex (by simp [isHexDigit, Bool.of_not_eq_false hdigit])
  exact Text.not_mem_toString hdigit n hc

theorem plain_name (h : ValidNonce nonce) : Plain (Area.snapshots.head sha256 actor ++
    (nonce ++ ("/" ++ (toString version ++ ".json")))) := by
  have hslash : Plain "/" := by decide
  rw [snapshots_head_append]
  refine .append (by decide) (.append (plain_hex _ _) (.append hslash ?_))
  refine .append (plain_component _) (.append hslash (.append (plain_component _) ?_))
  refine .append hslash (.append (plain_component _) (.append hslash ?_))
  refine .append (fun c hc => not_control_of_isHexDigit (h.2 c hc)) (.append hslash ?_)
  exact .append (plain_toString version) (by decide)

/-! ## Reading a name -/

theorem eq_of_split_eq {s a b : String} (h : Text.split '/' s = [a, b]) : s = a ++ ("/" ++ b) := by
  have hjoin : ['/'].intercalate (s.toList.splitOn '/') = s.toList := List.intercalate_splitOn '/'
  obtain ⟨x, y, hxy, rfl, rfl⟩ : ∃ x y, s.toList.splitOn '/' = [x, y] ∧
      String.ofList x = a ∧ String.ofList y = b := by
    unfold Text.split at h
    match hparts : s.toList.splitOn '/', h with
    | [x, y], h =>
      obtain ⟨hx, hy⟩ := List.cons.inj h
      exact ⟨x, y, rfl, hx, (List.cons.inj hy).1⟩
  rw [hxy] at hjoin
  rw [← String.toList_inj, ← hjoin]
  simp [List.intercalate]

theorem eq_append_of_stripPrefix {start s rest : String}
    (h : Text.stripPrefix start s = some rest) :
    s = start ++ rest := by
  obtain ⟨⟨tail, htail⟩, hrest⟩ := Option.ite_none_right_eq_some.mp h
  obtain rfl := Option.some.inj hrest
  rw [← String.toList_inj, String.toList_append, String.toList_ofList, ← htail, List.drop_left]

/-- **The check** accepts the names that are made, up to its limit. -/
theorem validateSnapshotObjectName_iff (hvalid : actor.validate = .ok ()) (hversion : 0 < version) :
    validateSnapshotObjectName sha256 actor version name = .ok () ↔
      (∃ nonce, snapshotObjectName sha256 actor version nonce = .ok name) ∧
        name.utf8ByteSize ≤ 1024 := by
  simp only [validateSnapshotObjectName, validateObjectName, bind_eq_ok, ensure_eq_ok,
    Bool.and_eq_true, decide_eq_true_eq, snapshots_eq hvalid, snapshotObjectName_iff]
  constructor
  · rintro ⟨_, ⟨⟨-, hlength⟩, -⟩, start, hstart, hparts⟩
    obtain rfl := Except.ok.inj hstart
    refine ⟨?_, hlength⟩
    split at hparts
    · rename_i nonce file hsplit
      simp only [Bool.and_eq_true, decide_eq_true_eq, List.all_eq_true, beq_iff_eq] at hparts
      obtain ⟨hnonce, rfl⟩ := hparts
      have hrest := eq_of_split_eq hsplit
      cases hstrip : Text.stripPrefix (Area.snapshots.head sha256 actor) name with
      | none =>
        have hone : Text.split '/' "" = [""] := by decide
        rw [hstrip, Option.getD_none, hone] at hsplit
        cases hsplit
      | some rest =>
        rw [hstrip, Option.getD_some] at hrest
        rw [eq_append_of_stripPrefix hstrip, hrest]
        exact ⟨nonce, hvalid, hversion, hnonce, rfl⟩
    · cases hparts
  · rintro ⟨⟨nonce, -, -, hnonce, rfl⟩, hlength⟩
    have hroot : root.toList.isPrefixOf (Area.snapshots.head sha256 actor ++
        (nonce ++ ("/" ++ (toString version ++ ".json")))).toList = true := by
      rw [snapshots_head_append, String.append_assoc, String.toList_append,
        List.isPrefixOf_iff_prefix]
      exact List.prefix_append _ _
    have hplain : ((Area.snapshots.head sha256 actor ++
        (nonce ++ ("/" ++ (toString version ++ ".json")))).toList.any isControl) = false :=
      List.any_eq_false.mpr fun c hc => by rw [plain_name hnonce c hc]; decide
    refine ⟨(), ⟨⟨hroot, hlength⟩, by rw [hplain]; rfl⟩, _, rfl, ?_⟩
    rw [Text.stripPrefix_append, Option.getD_some,
      Text.split_append rfl (hnonce.not_mem (by decide)),
      Text.split_of_not_mem (slash_not_mem_file version)]
    simpa [hnonce.1] using hnonce.2

/-- The path of an actor starts no path of another one. -/
theorem snapshots_isPrefix {a b : ActorKey}
    (h : (Area.snapshots.head sha256 a).toList <+: (Area.snapshots.head sha256 b).toList) :
    a = b := by
  rw [toList_head, toList_head] at h
  exact eq_of_actorPath_isPrefix separators_not_mem_alphabet.1
    ((List.prefix_append_right_inj _).mp h)

/-- A name is of one actor, nonce and version. -/
theorem snapshotObjectName_inj {a b : ActorKey} {v w : Nat} {nonce' : String}
    (ha : snapshotObjectName sha256 a v nonce = .ok name)
    (hb : snapshotObjectName sha256 b w nonce' = .ok name) : a = b ∧ nonce = nonce' ∧ v = w := by
  obtain ⟨-, -, hnonce, rfl⟩ := snapshotObjectName_iff.mp ha
  obtain ⟨-, -, hnonce', hname⟩ := snapshotObjectName_iff.mp hb
  have hstarts : ∀ (c : ActorKey) (rest : String), (Area.snapshots.head sha256 c).toList <+:
      (Area.snapshots.head sha256 c ++ rest).toList := by
    intro c rest
    rw [String.toList_append]
    exact List.prefix_append _ _
  have hb := hstarts b (nonce' ++ ("/" ++ (toString w ++ ".json")))
  rw [← hname] at hb
  obtain rfl : a = b := by
    rcases List.prefix_or_prefix_of_prefix (hstarts a _) hb with h | h
    · exact snapshots_isPrefix h
    · exact (snapshots_isPrefix h).symm
  have hrest := (String.append_right_inj _).mp hname
  have hparts := congrArg (Text.split '/') hrest
  rw [Text.split_append rfl (hnonce.not_mem (by decide)),
    Text.split_append rfl (hnonce'.not_mem (by decide)),
    Text.split_of_not_mem (slash_not_mem_file v),
    Text.split_of_not_mem (slash_not_mem_file w)] at hparts
  obtain ⟨hsame, hfile⟩ := List.cons.inj hparts
  exact ⟨rfl, hsame, Text.toString_inj ((String.append_left_inj _).mp (List.cons.inj hfile).1)⟩

/-- **Names are injective and invertible.** -/
theorem snapshot_names_invertible (sha256 : List UInt8 → Digest) :
    (∀ actor : ActorKey, actor.validate = .ok () → actorFromKey actor.storageKey = .ok actor) ∧
    (∀ actor version nonce, actor.validate = .ok () → 0 < version → ValidNonce nonce →
      ∃ name, snapshotObjectName sha256 actor version nonce = .ok name ∧
        actorFromSnapshot sha256 name = .ok actor) ∧
    (∀ a b v w nonce nonce' name, snapshotObjectName sha256 a v nonce = .ok name →
      snapshotObjectName sha256 b w nonce' = .ok name → a = b ∧ nonce = nonce' ∧ v = w) ∧
    (∀ actor version name, actor.validate = .ok () → 0 < version →
      (validateSnapshotObjectName sha256 actor version name = .ok () ↔
        (∃ nonce, snapshotObjectName sha256 actor version nonce = .ok name) ∧
          name.utf8ByteSize ≤ 1024)) ∧
    (∀ a b start start', snapshots sha256 a = .ok start → snapshots sha256 b = .ok start' →
      start.toList <+: start'.toList → a = b) ∧
    ∀ actor name, actorFromSnapshot sha256 name = .ok actor →
      ∃ start, snapshots sha256 actor = .ok start ∧ start.toList <+: name.toList := by
  refine ⟨fun _ => actorFromKey_storageKey, ?_, fun _ _ _ _ _ _ _ => snapshotObjectName_inj,
    fun _ _ _ => validateSnapshotObjectName_iff, ?_, ?_⟩
  · intro actor version nonce hvalid hversion hnonce
    refine ⟨_, snapshotObjectName_iff.mpr ⟨hvalid, hversion, hnonce, rfl⟩, ?_⟩
    exact actorFromSnapshot_below hvalid (hnonce.not_mem (by decide)) (slash_not_mem_file version)
  · intro a b start start' ha hb hprefix
    obtain ⟨_, hvalid, ha'⟩ := bind_eq_ok.mp ha
    obtain ⟨_, hvalid', hb'⟩ := bind_eq_ok.mp hb
    obtain rfl := Except.ok.inj ha'
    obtain rfl := Except.ok.inj hb'
    exact snapshots_isPrefix hprefix
  · intro actor name h
    obtain ⟨relative, -, h⟩ := bind_eq_ok.mp h
    split at h
    · obtain ⟨_, -, h⟩ := bind_eq_ok.mp h
      obtain ⟨_, -, h⟩ := bind_eq_ok.mp h
      obtain ⟨_, -, h⟩ := bind_eq_ok.mp h
      obtain ⟨_, -, h⟩ := bind_eq_ok.mp h
      obtain ⟨start, hstart, h⟩ := bind_eq_ok.mp h
      obtain ⟨_, hstarts, h⟩ := bind_eq_ok.mp h
      obtain rfl := Except.ok.inj h
      exact ⟨start, hstart, List.isPrefixOf_iff_prefix.mp (ensure_eq_ok.mp hstarts)⟩
    · cases h

end DurableActors.Ports.StoragePaths
