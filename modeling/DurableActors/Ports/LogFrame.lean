import DurableActors.Verified.LittleEndian
import DurableActors.Verified.Sha256

/-!
# Log frames

The record format of `bucket/rapid/frame.rs`: a header of 48 bytes (magic,
payload length, version, SHA-256 over the first sixteen header bytes and the
payload) followed by the payload.  `decode` reads whole frames off a byte
string, stops at an incomplete one, and refuses anything else.

The result the log rests on is `decode_short`: the bytes of a run of frames with
consecutive versions, followed by bytes too short for one more, decode to
exactly that run.
-/

namespace DurableActors.Ports.Log

open Verified.LittleEndian

abbrev Bytes := List UInt8

/-- `HEADER`. -/
def headerLength : Nat := 48

/-- `b"RLG1"`. -/
def magic : Bytes := [0x52, 0x4c, 0x47, 0x31]

/-- A digest function with the width of SHA-256. -/
structure Digest where
  hash : Bytes → Bytes
  length_hash : ∀ bytes, (hash bytes).length = 32

/-- The digest the source uses. -/
def sha256 : Digest := ⟨Verified.Sha256.hash, Verified.Sha256.length_hash⟩

/-- `Record`. -/
structure Record where
  version : Nat
  state : Bytes
deriving DecidableEq, Repr

/-- The values a frame can hold: a positive `u64` version and a payload whose
length fits a `u32`. -/
def Record.Encodable (record : Record) : Prop :=
  0 < record.version ∧ record.version < 2 ^ 64 ∧ record.state.length < 2 ^ 32

instance (record : Record) : Decidable record.Encodable :=
  inferInstanceAs (Decidable (_ ∧ _ ∧ _))

variable (digest : Digest)

/-- The sixteen header bytes under the digest. -/
def Record.prelude (record : Record) : Bytes :=
  magic ++ leBytes 4 record.state.length ++ leBytes 8 record.version

/-- The bytes of one frame. -/
def Record.frame (record : Record) : Bytes :=
  record.prelude ++ digest.hash (record.prelude ++ record.state) ++ record.state

/-- The length of a frame. -/
def Record.size (record : Record) : Nat := headerLength + record.state.length

/-- `MAX_FILE_BYTES`, what a spool takes. -/
def maxFileBytes : Nat := 2 * 1024 * 1024 * 1024

/-- `Record::encode`, which writes the frame through a spool. -/
def Record.encode (record : Record) : Except String Bytes :=
  if record.version = 0 then .error "invalid state version"
  else if 2 ^ 32 ≤ record.state.length then .error "record length overflow"
  else if maxFileBytes < record.size then .error "temporary storage object exceeds 2 GiB"
  else .ok (record.frame digest)

/-- `frame::length`: the length of the frame a header announces. -/
def frameLength (header : Bytes) : Except String Nat :=
  if headerLength ≤ header.length ∧ header.take 4 = magic then
    .ok (headerLength + fromLe ((header.drop 4).take 4))
  else .error "invalid record header"

/-- The loop of `frame::decode`, from the frame after version `previous`.
Every turn consumes at least a header, so the fuel given by `decode` never
runs out. -/
def decodeFrom : Nat → Option Nat → Bytes → Except String (List Record)
  | 0, _, _ => .ok []
  | fuel + 1, previous, bytes =>
    if bytes.length < headerLength then .ok []
    else
      match frameLength bytes with
      | .error error => .error error
      | .ok length =>
        if bytes.length < length then .ok []
        else
          let version := fromLe ((bytes.drop 8).take 8)
          let state := (bytes.take length).drop headerLength
          if version = 0 then .error "invalid state version"
          else if previous.any (fun p => p + 1 ≠ version) then
            .error "nonconsecutive state versions"
          else if digest.hash (bytes.take 16 ++ state) ≠
              (bytes.drop 16).take 32 then
            .error "corrupt log record"
          else
            match decodeFrom fuel (some version) (bytes.drop length) with
            | .error error => .error error
            | .ok records => .ok (⟨version, state⟩ :: records)

/-- `frame::decode`. -/
def decode (bytes : Bytes) : Except String (List Record) :=
  decodeFrom digest (bytes.length + 1) none bytes

/-- The bytes of a run of frames. -/
def encodeAll (records : List Record) : Bytes :=
  (records.map (Record.frame digest)).flatten

/-- The length of a run of frames: the offset after it. -/
def totalSize (records : List Record) : Nat := (records.map Record.size).sum

/-! ## Lengths -/

@[simp] theorem length_prelude (r : Record) : r.prelude.length = 16 := by
  simp [Record.prelude, magic]

@[simp] theorem length_frame (r : Record) : (r.frame digest).length = r.size := by
  simp [Record.frame, Record.size, digest.length_hash, headerLength]
  omega

theorem Record.size_pos (r : Record) : 0 < r.size := by
  show 0 < 48 + r.state.length
  omega

theorem length_encodeAll (rs : List Record) : (encodeAll digest rs).length = totalSize rs := by
  induction rs with
  | nil => rfl
  | cons r rs ih =>
    simp only [encodeAll, totalSize, List.map_cons, List.flatten_cons,
      List.length_append, length_frame, List.sum_cons] at ih ⊢
    rw [ih]

@[simp] theorem encodeAll_nil : encodeAll digest [] = [] := rfl

@[simp] theorem encodeAll_cons (r : Record) (rs : List Record) :
    encodeAll digest (r :: rs) = r.frame digest ++ encodeAll digest rs := rfl

theorem encodeAll_append (rs us : List Record) :
    encodeAll digest (rs ++ us) = encodeAll digest rs ++ encodeAll digest us := by
  simp [encodeAll]

theorem encodeAll_isPrefix {rs us : List Record} (h : rs <+: us) :
    encodeAll digest rs <+: encodeAll digest us := by
  obtain ⟨more, rfl⟩ := h
  rw [encodeAll_append]
  exact List.prefix_append _ _

@[simp] theorem totalSize_nil : totalSize [] = 0 := rfl

@[simp] theorem totalSize_cons (r : Record) (rs : List Record) :
    totalSize (r :: rs) = r.size + totalSize rs := rfl

theorem totalSize_append (rs us : List Record) :
    totalSize (rs ++ us) = totalSize rs + totalSize us := by
  simp [totalSize]

/-! ## Reading one frame -/

/-- Only the first eight bytes decide the announced length. -/
theorem frameLength_frame {r : Record} {bytes : Bytes}
    (hbytes : bytes.take 8 = (r.frame digest).take 8) (hlen : headerLength ≤ bytes.length)
    (hr : r.state.length < 2 ^ 32) : frameLength bytes = .ok r.size := by
  have hprelude : (r.frame digest).take 8 =
      magic ++ leBytes 4 r.state.length := by
    simp [Record.frame, Record.prelude, magic]
  have hmagic : bytes.take 4 = magic := by
    calc bytes.take 4 = (bytes.take 8).take 4 := by simp [List.take_take]
      _ = magic := by
        rw [hbytes, hprelude]
        rfl
  have hlength : (bytes.drop 4).take 4 = leBytes 4 r.state.length := by
    calc (bytes.drop 4).take 4 = (bytes.take 8).drop 4 := by
          rw [List.take_drop]
      _ = leBytes 4 r.state.length := by
        rw [hbytes, hprelude]
        rfl
  unfold frameLength
  rw [if_pos ⟨hlen, hmagic⟩, hlength, fromLe_leBytes 4 _ (by omega)]
  rfl

/-- One turn of the loop on a whole frame. -/
theorem decodeFrom_frame {r : Record} {previous : Option Nat} (hr : r.Encodable)
    (hprev : ∀ p, previous = some p → p + 1 = r.version) (fuel : Nat) (rest : Bytes) :
    decodeFrom digest (fuel + 1) previous (r.frame digest ++ rest) =
      match decodeFrom digest fuel (some r.version) rest with
      | .error error => .error error
      | .ok records => .ok (r :: records) := by
  obtain ⟨hpos, hver, hlen⟩ := hr
  have hsize : (r.frame digest).length = r.size := length_frame digest r
  have hheader : headerLength ≤ r.size := Nat.le_add_right _ _
  have hlong : ¬(r.frame digest ++ rest).length < headerLength := by
    rw [List.length_append, hsize]
    omega
  have hframe : frameLength (r.frame digest ++ rest) = .ok r.size := by
    apply frameLength_frame digest _ (by omega) hlen
    rw [List.take_append_of_le_length]
    rw [hsize]
    show 8 ≤ 48 + r.state.length
    omega
  have hwhole : ¬(r.frame digest ++ rest).length < r.size := by
    rw [List.length_append, hsize]
    omega
  have hversion : fromLe (((r.frame digest ++ rest).drop 8).take 8) =
      r.version := by
    have : ((r.frame digest ++ rest).drop 8).take 8 = leBytes 8 r.version := by
      simp [Record.frame, Record.prelude, magic]
    rw [this, fromLe_leBytes 8 _ (by omega)]
  have hstate : ((r.frame digest ++ rest).take r.size).drop headerLength =
      r.state := by
    rw [List.take_append_of_le_length hsize.ge, List.take_of_length_le hsize.le]
    show ((r.prelude ++ digest.hash (r.prelude ++ r.state)) ++ r.state).drop 48
      = r.state
    rw [List.drop_append_of_le_length (by simp [digest.length_hash])]
    simp [digest.length_hash]
  have hsixteen : (r.frame digest ++ rest).take 16 = r.prelude := by
    simp [Record.frame]
  have hhash : ((r.frame digest ++ rest).drop 16).take 32 =
      digest.hash (r.prelude ++ r.state) := by
    simp [Record.frame, digest.length_hash]
  have hdrop : (r.frame digest ++ rest).drop r.size = rest := by
    rw [← hsize, List.drop_left]
  have hconsecutive : previous.any (fun p => p + 1 ≠ r.version) = false := by
    cases previous with
    | none => rfl
    | some p => simp [hprev p rfl]
  simp only [decodeFrom, if_neg hlong, hframe, if_neg hwhole, hversion, hstate,
    if_neg hpos.ne', hconsecutive, hsixteen, hhash, ne_eq, not_true_eq_false,
    if_false, hdrop, Bool.false_eq_true]

/-- The bytes are too short for the frame they begin. -/
def TooShort (bytes : Bytes) : Prop :=
  bytes.length < headerLength ∨ ∃ n, frameLength bytes = .ok n ∧ bytes.length < n

/-- A proper prefix of a frame is too short for it. -/
theorem tooShort_torn {r : Record} (hr : r.state.length < 2 ^ 32) {torn : Bytes}
    (hpiece : torn <+: r.frame digest) (hshort : torn.length < r.size) : TooShort torn := by
  by_cases hlen : torn.length < headerLength
  · exact .inl hlen
  · have htake : torn.take 8 = (r.frame digest).take 8 := by
      obtain ⟨rest, hrest⟩ := hpiece
      rw [← hrest, List.take_append_of_le_length]
      have : headerLength = 48 := rfl
      omega
    exact .inr ⟨r.size, frameLength_frame digest htake (by omega) hr, hshort⟩

theorem decodeFrom_short {bytes : Bytes} (h : TooShort bytes) (fuel : Nat)
    (previous : Option Nat) : decodeFrom digest fuel previous bytes = .ok [] := by
  cases fuel with
  | zero => rfl
  | succ fuel =>
    by_cases hlen : bytes.length < headerLength
    · simp only [decodeFrom, if_pos hlen]
    · obtain ⟨n, hn, hlt⟩ := h.resolve_left hlen
      simp only [decodeFrom, if_neg hlen, hn, if_pos hlt]

/-! ## Reading a run of frames -/

/-- Versions that follow `previous` one by one. -/
def Consecutive : Option Nat → List Record → Prop
  | _, [] => True
  | previous, r :: rs =>
    (∀ p, previous = some p → p + 1 = r.version) ∧
      Consecutive (some r.version) rs

theorem Consecutive.take {previous : Option Nat} {rs : List Record}
    (h : Consecutive previous rs) (k : Nat) : Consecutive previous (rs.take k) := by
  induction rs generalizing previous k with
  | nil => simpa using h
  | cons r rs ih =>
    cases k with
    | zero => trivial
    | succ k => exact ⟨h.1, ih h.2 k⟩

/-- Consecutive frames decode, up to a rest that is no frame. -/
theorem decodeFrom_run {rs : List Record} (hrs : ∀ x ∈ rs, x.Encodable)
    {rest : Bytes} (hrest : TooShort rest) :
    ∀ (fuel : Nat) (previous : Option Nat), Consecutive previous rs → rs.length ≤ fuel →
      decodeFrom digest fuel previous (encodeAll digest rs ++ rest) = .ok rs := by
  induction rs with
  | nil =>
    intro fuel previous _ _
    exact decodeFrom_short digest hrest fuel previous
  | cons x rs ih =>
    intro fuel previous hcons hfuel
    obtain ⟨fuel, rfl⟩ : ∃ n, fuel = n + 1 :=
      ⟨fuel - 1, by simp only [List.length_cons] at hfuel; omega⟩
    rw [encodeAll_cons, List.append_assoc, decodeFrom_frame digest (hrs x (by simp)) hcons.1,
      ih (fun y hy => hrs y (by simp [hy])) fuel (some x.version) hcons.2
        (by simp only [List.length_cons] at hfuel; omega)]

/-- **A torn append is invisible**: whole frames with consecutive versions,
followed by bytes too short for another frame, decode to those records. -/
theorem decode_short {rs : List Record} (hrs : ∀ x ∈ rs, x.Encodable)
    (hcons : Consecutive none rs) {rest : Bytes} (hrest : TooShort rest) :
    decode digest (encodeAll digest rs ++ rest) = .ok rs := by
  apply decodeFrom_run digest hrs hrest _ _ hcons
  have hle : rs.length ≤ totalSize rs := by
    clear hcons hrs
    induction rs with
    | nil => exact Nat.zero_le _
    | cons x rs ih =>
      have := x.size_pos
      simp only [List.length_cons, totalSize_cons]
      omega
  rw [List.length_append, length_encodeAll]
  omega

theorem decode_encodeAll {rs : List Record} (hrs : ∀ x ∈ rs, x.Encodable)
    (hcons : Consecutive none rs) : decode digest (encodeAll digest rs) = .ok rs := by
  have hnil : TooShort [] := .inl (by decide)
  simpa only [List.append_nil] using decode_short digest hrs hcons hnil

/-- A prefix of the bytes of a run is some whole frames and a torn one. -/
theorem prefix_split {rs : List Record} {bytes : Bytes} (h : bytes <+: encodeAll digest rs) :
    ∃ k torn, k ≤ rs.length ∧ bytes = encodeAll digest (rs.take k) ++ torn ∧
      (k = rs.length ∧ torn = [] ∨
        ∃ r, rs[k]? = some r ∧ torn <+: r.frame digest ∧ torn.length < r.size) := by
  induction rs generalizing bytes with
  | nil =>
    rw [encodeAll_nil, List.prefix_nil] at h
    exact ⟨0, [], le_rfl, by simp [h], .inl ⟨rfl, rfl⟩⟩
  | cons r rs ih =>
    rw [encodeAll_cons] at h
    by_cases hshort : bytes.length < r.size
    · refine ⟨0, bytes, Nat.zero_le _, by simp, .inr ⟨r, rfl, ?_, hshort⟩⟩
      apply List.prefix_of_prefix_length_le h (List.prefix_append _ _)
      rw [length_frame]
      omega
    · -- the first frame is whole: peel it off
      have hframe : r.frame digest <+: bytes := by
        apply List.prefix_of_prefix_length_le (List.prefix_append _ _) h
        rw [length_frame]
        omega
      obtain ⟨rest, rfl⟩ := hframe
      obtain ⟨k, torn, hk, rfl, hcase⟩ := ih ((List.prefix_append_right_inj _).mp h)
      refine ⟨k + 1, torn, by simpa using hk, by simp [List.append_assoc], ?_⟩
      rcases hcase with ⟨rfl, rfl⟩ | ⟨x, hx, htorn, hlt⟩
      · exact .inl ⟨rfl, rfl⟩
      · exact .inr ⟨x, hx, htorn, hlt⟩

/-- A prefix of the bytes of a run decodes to its whole frames. -/
theorem decode_prefix {rs : List Record} (hrs : ∀ x ∈ rs, x.Encodable)
    (hcons : Consecutive none rs) {bytes : Bytes} (h : bytes <+: encodeAll digest rs) :
    ∃ k, k ≤ rs.length ∧ decode digest bytes = .ok (rs.take k) ∧
      totalSize (rs.take k) ≤ bytes.length ∧
      ∀ r, rs[k]? = some r → bytes.length < totalSize (rs.take k) + r.size := by
  obtain ⟨k, torn, hk, rfl, hcase⟩ := prefix_split digest h
  have hlen : (encodeAll digest (rs.take k) ++ torn).length =
      totalSize (rs.take k) + torn.length := by
    rw [List.length_append, length_encodeAll]
  refine ⟨k, hk, ?_, by rw [hlen]; exact Nat.le_add_right _ _, ?_⟩
  · refine decode_short digest (fun x hx => hrs x (List.mem_of_mem_take hx)) (hcons.take k) ?_
    rcases hcase with ⟨-, rfl⟩ | ⟨r, hr, htorn, hlt⟩
    · exact .inl (by decide)
    · exact tooShort_torn digest (hrs r (List.mem_of_getElem? hr)).2.2 htorn hlt
  · intro r hr
    rcases hcase with ⟨rfl, rfl⟩ | ⟨x, hx, -, hlt⟩
    · have := (List.getElem?_eq_some_iff.mp hr).1
      omega
    · rw [hr] at hx
      obtain rfl := Option.some.inj hx
      omega

end DurableActors.Ports.Log
