import DurableActors.Ports.LogFrame

/-!
# Frames and prefixes

The loop of `frame::decode` with its offset and its slices (`decodeLoop`), and
what it makes of any byte string: it ends without a panic, what it accepts is
the encoding of the records it returns followed by too little for one more
frame, and a prefix of what it accepts decodes to a prefix of the records.
-/

namespace DurableActors.Ports.Log

open Verified.LittleEndian

variable (digest : Digest) {bytes : Bytes} {rs : List Record}

/-! ## The loop -/

/-- `&bytes[start..stop]`, which panics out of bounds. -/
def slice (bytes : Bytes) (start stop : Nat) : Option Bytes :=
  if start ≤ stop ∧ stop ≤ bytes.length then some ((bytes.drop start).take (stop - start))
  else none

/-- The loop of `frame::decode`; `none` is a panic, or a loop that goes on. -/
def decodeLoop (bytes : Bytes) : Nat → Nat → List Record → Option (Except String (List Record))
  | 0, _, _ => none
  | fuel + 1, offset, records =>
    if bytes.length < offset then none
    else if bytes.length - offset < headerLength then some (.ok records)
    else
      (slice bytes offset (offset + headerLength)).bind fun header =>
        match frameLength header with
        | .error error => some (.error error)
        | .ok length =>
          if bytes.length < offset + length then some (.ok records)
          else
            (slice header 8 16).bind fun number =>
            (slice bytes (offset + headerLength) (offset + length)).bind fun state =>
            (slice header 0 16).bind fun prelude =>
            (slice header 16 48).bind fun sum =>
              if fromLe number = 0 then some (.error "invalid state version")
              else if (records.getLast?.map Record.version).any
                  (fun p => p + 1 ≠ fromLe number) then
                some (.error "nonconsecutive state versions")
              else if digest.hash (prelude ++ state) ≠ sum then
                some (.error "corrupt log record")
              else decodeLoop bytes fuel (offset + length) (records ++ [⟨fromLe number, state⟩])

theorem slice_eq {start stop : Nat} (h : start ≤ stop) (hle : stop ≤ bytes.length) :
    slice bytes start stop = some ((bytes.drop start).take (stop - start)) := if_pos ⟨h, hle⟩

/-- The header decides the length. -/
theorem frameLength_header (h : headerLength ≤ bytes.length) :
    frameLength (bytes.take headerLength) = frameLength bytes := by
  have hlen : (bytes.take headerLength).length = headerLength := by
    rw [List.length_take, Nat.min_eq_left h]
  have hmagic : (bytes.take headerLength).take 4 = bytes.take 4 := by
    rw [List.take_take]
    rfl
  have hnumber : ((bytes.take headerLength).drop 4).take 4 = (bytes.drop 4).take 4 := by
    rw [List.drop_take, List.take_take]
    rfl
  simp only [frameLength, hlen, hmagic, hnumber, h, le_refl]

theorem le_of_frameLength {n : Nat} (h : frameLength bytes = .ok n) : headerLength ≤ n := by
  unfold frameLength at h
  split at h
  · cases h
    exact Nat.le_add_right _ _
  · cases h

/-- The loop reads off the rest of the bytes what `decodeFrom` reads. -/
theorem decodeLoop_eq (bytes : Bytes) (fuel offset : Nat) (records : List Record)
    (hoffset : offset ≤ bytes.length) (hfuel : bytes.length - offset < fuel) :
    decodeLoop digest bytes fuel offset records =
      some (match decodeFrom digest fuel (records.getLast?.map Record.version)
          (bytes.drop offset) with
        | .error error => .error error
        | .ok rs => .ok (records ++ rs)) := by
  induction fuel generalizing offset records with
  | zero => omega
  | succ fuel ih =>
    have hrest : (bytes.drop offset).length = bytes.length - offset := List.length_drop
    unfold decodeLoop decodeFrom
    rw [if_neg (by omega), hrest]
    by_cases hshort : bytes.length - offset < headerLength
    · simp only [if_pos hshort, List.append_nil]
    have hheader : ((bytes.drop offset).take headerLength).length = 48 := by
      rw [List.length_take, Nat.min_eq_left (by omega)]
      rfl
    rw [if_neg hshort, if_neg hshort, slice_eq (Nat.le_add_right _ _) (by omega),
      Nat.add_sub_cancel_left, Option.bind_some, frameLength_header (by omega)]
    cases hlength : frameLength (bytes.drop offset) with
    | error error => rfl
    | ok length =>
      have hle := le_of_frameLength hlength
      dsimp only
      by_cases hend : bytes.length < offset + length
      · rw [if_pos hend, if_pos (by omega)]
        simp only [List.append_nil]
      -- every slice is within bounds and is what `decodeFrom` takes
      rw [if_neg hend, if_neg (by omega), slice_eq (by omega) (by omega),
        slice_eq (by omega) (by omega), slice_eq (by omega) (by omega),
        slice_eq (by omega) (by omega)]
      have hnumber : ((((bytes.drop offset).take headerLength).drop 8).take (16 - 8)) =
          ((bytes.drop offset).drop 8).take 8 := by
        rw [List.drop_take, List.take_take]
        rfl
      have hstate : (bytes.drop (offset + headerLength)).take
            (offset + length - (offset + headerLength)) =
          ((bytes.drop offset).take length).drop headerLength := by
        rw [List.drop_take, List.drop_drop, Nat.add_sub_add_left]
      have hprelude : (((bytes.drop offset).take headerLength).drop 0).take (16 - 0) =
          (bytes.drop offset).take 16 := by
        rw [List.drop_zero, List.take_take]
        rfl
      have hsum : (((bytes.drop offset).take headerLength).drop 16).take (48 - 16) =
          ((bytes.drop offset).drop 16).take 32 := by
        rw [List.drop_take, List.take_take]
        rfl
      simp only [Option.bind_some, hnumber, hstate, hprelude, hsum]
      split
      · rfl
      · split
        · rfl
        · split
          · rfl
          · have hpos : 0 < headerLength := by decide
            have hdrop : bytes.drop (offset + length) = (bytes.drop offset).drop length :=
              List.drop_drop.symm
            rw [ih _ _ (by omega) (by omega), List.getLast?_concat, hdrop, Option.map_some]
            cases decodeFrom digest fuel _ ((bytes.drop offset).drop length) with
            | error error => rfl
            | ok rs => simp only [List.append_assoc, List.singleton_append]

/-! ## What is accepted -/

/-- A frame whose checks pass is the frame of the record read from it. -/
theorem frame_of_checks {n : Nat} (hlength : frameLength bytes = .ok n) (hn : n ≤ bytes.length)
    (hsum : digest.hash (bytes.take 16 ++ (bytes.take n).drop headerLength) =
      (bytes.drop 16).take 32) :
    let r : Record := ⟨fromLe ((bytes.drop 8).take 8), (bytes.take n).drop headerLength⟩
    r.frame digest = bytes.take n ∧ r.version < 2 ^ 64 ∧ r.state.length < 2 ^ 32 := by
  intro r
  unfold frameLength at hlength
  split at hlength
  swap
  · cases hlength
  rename_i hheader
  cases hlength
  have h48 : 48 ≤ bytes.length := hheader.1
  have hnumber : ((bytes.drop 8).take 8).length = 8 := by
    rw [List.length_take, List.length_drop]
    omega
  have hcount : ((bytes.drop 4).take 4).length = 4 := by
    rw [List.length_take, List.length_drop]
    omega
  have hversion := fromLe_lt ((bytes.drop 8).take 8)
  have hsize := fromLe_lt ((bytes.drop 4).take 4)
  have hstate : r.state.length = fromLe ((bytes.drop 4).take 4) := by
    show ((bytes.take _).drop 48).length = _
    rw [List.length_drop, List.length_take, Nat.min_eq_left hn]
    exact Nat.add_sub_cancel_left _ _
  rw [hnumber] at hversion
  rw [hcount] at hsize
  have hprelude : r.prelude = bytes.take 16 := by
    have hlow := leBytes_fromLe ((bytes.drop 4).take 4)
    have hhigh := leBytes_fromLe ((bytes.drop 8).take 8)
    rw [hcount] at hlow
    rw [hnumber] at hhigh
    show magic ++ leBytes 4 r.state.length ++ leBytes 8 r.version = bytes.take (4 + 4 + 8)
    rw [hstate, hlow, List.take_add, List.take_add, hheader.2]
    exact congrArg _ hhigh
  refine ⟨?_, hversion, hstate ▸ hsize⟩
  unfold Record.frame
  rw [hprelude, hsum]
  have hhead : ∀ k, bytes.take 16 ++ (bytes.drop 16).take 32 =
      (bytes.take (headerLength + k)).take headerLength := by
    intro k
    rw [← List.take_add, List.take_take, Nat.min_eq_left (Nat.le_add_right _ _)]
    rfl
  rw [hhead]
  exact List.take_append_drop _ _

/-- What the loop accepts. -/
theorem decodeFrom_eq_ok {fuel : Nat} {previous : Option Nat} (hfuel : bytes.length < fuel)
    (h : decodeFrom digest fuel previous bytes = .ok rs) :
    (∀ r ∈ rs, r.Encodable) ∧ Consecutive previous rs ∧
      ∃ rest, bytes = encodeAll digest rs ++ rest ∧ TooShort rest := by
  revert h
  fun_induction decodeFrom digest fuel previous bytes generalizing rs with
  | case1 => omega
  | case2 _ _ bytes hshort =>
    rintro ⟨⟩
    exact ⟨by simp, trivial, bytes, rfl, .inl hshort⟩
  | case4 _ _ bytes _ n hlength hshort =>
    rintro ⟨⟩
    exact ⟨by simp, trivial, bytes, rfl, .inr ⟨n, hlength, hshort⟩⟩
  | case9 _ previous bytes _ n hlength hwhole version state hpos hprevious hsum records hrest =>
    rename_i ih
    rintro ⟨⟩
    have hle := le_of_frameLength hlength
    have hheader : 0 < headerLength := by decide
    obtain ⟨hframe, hversion, hstate⟩ :=
      frame_of_checks digest hlength (not_lt.mp hwhole) (not_not.mp hsum)
    obtain ⟨henc, hcons, rest, hbytes, hshort⟩ := ih (by rw [List.length_drop]; omega) hrest
    refine ⟨?_, ⟨?_, hcons⟩, rest, ?_, hshort⟩
    · exact List.forall_mem_cons.mpr ⟨⟨Nat.pos_of_ne_zero hpos, hversion, hstate⟩, henc⟩
    · rintro p rfl
      simpa using hprevious
    · rw [encodeAll_cons, hframe, List.append_assoc, ← hbytes, List.take_append_drop]
  | _ => rintro ⟨⟩

theorem decode_eq_ok (h : decode digest bytes = .ok rs) :
    (∀ r ∈ rs, r.Encodable) ∧ Consecutive none rs ∧
      ∃ rest, bytes = encodeAll digest rs ++ rest ∧ TooShort rest :=
  decodeFrom_eq_ok digest (Nat.lt_succ_self _) h

/-- Less of what is too short is too short. -/
theorem TooShort.of_prefix {rest : Bytes} (h : TooShort rest) (hbytes : bytes <+: rest) :
    TooShort bytes := by
  have hle := hbytes.length_le
  by_cases hlen : bytes.length < headerLength
  · exact .inl hlen
  · obtain ⟨n, hn, hlt⟩ := h.resolve_left (by omega)
    obtain ⟨more, rfl⟩ := hbytes
    rw [← frameLength_header (by omega), List.take_append_of_le_length (by omega),
      frameLength_header (by omega)] at hn
    exact .inr ⟨n, hn, by omega⟩

/-- A prefix of what is accepted decodes to a prefix of the records. -/
theorem decode_of_prefix {p : Bytes} (h : decode digest bytes = .ok rs) (hp : p <+: bytes) :
    ∃ k, decode digest p = .ok (rs.take k) := by
  obtain ⟨henc, hcons, rest, rfl, hshort⟩ := decode_eq_ok digest h
  by_cases hlen : p.length ≤ (encodeAll digest rs).length
  · obtain ⟨k, -, hk, -⟩ := decode_prefix digest henc hcons
      (List.prefix_of_prefix_length_le hp (List.prefix_append _ _) hlen)
    exact ⟨k, hk⟩
  · obtain ⟨torn, rfl⟩ := List.prefix_of_prefix_length_le (List.prefix_append _ _) hp
      (Nat.le_of_not_le hlen)
    refine ⟨rs.length, ?_⟩
    rw [List.take_length]
    exact decode_short digest henc hcons
      (hshort.of_prefix ((List.prefix_append_right_inj _).mp hp))

/-- Records whose frames a spool takes are encoded as their frames. -/
theorem encode_frames (h : ∀ r ∈ rs, r.Encodable) (hsize : ∀ r ∈ rs, r.size ≤ maxFileBytes) :
    rs.mapM (Record.encode digest) = .ok (rs.map (Record.frame digest)) := by
  induction rs with
  | nil => rfl
  | cons r rs ih =>
    obtain ⟨hr, hrs⟩ := List.forall_mem_cons.mp h
    obtain ⟨hle, hsizes⟩ := List.forall_mem_cons.mp hsize
    rw [List.mapM_cons, ih hrs hsizes, Record.encode, if_neg hr.1.ne',
      if_neg (not_le.mpr hr.2.2), if_neg (not_lt.mpr hle)]
    rfl

/-- A record of 2 GiB, which a frame can hold and a spool cannot. -/
def longRecord : Record := ⟨1, List.replicate maxFileBytes 0⟩

end DurableActors.Ports.Log
