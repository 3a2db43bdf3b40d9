import DurableActors.Ports.LogCheckpoint
import DurableActors.Ports.SqliteLineage

/-!
# The binary state format

`binary::decode` accepts nothing but what `binary::encode` writes: the magic,
the length of the JSON header, the header, and the data of the files that it
names, one after the other.  The header gives the length of the rest, so of two
objects of the format neither is a strict prefix of the other.
-/

namespace DurableActors.Ports.Sqlite

open Verified
open Verified.Checked
open Verified.LittleEndian
open Log (maxFileBytes)

variable {α : Type} {read : Bytes → Except String (α × List FileHeader)}

/-! ## What is written -/

/-- The header was written, and the header and the object keep to the limits. -/
def Fits (written : Except String Bytes) (files : List LtxFile) : Prop :=
  ∃ header, written = .ok header ∧ header.length < 2 ^ 32 ∧
    8 + header.length + (files.flatMap LtxFile.data).length ≤ maxFileBytes

theorem binaryEncode_of_fits {written : Except String Bytes} {files : List LtxFile}
    (h : Fits written files) : ∃ bytes, binaryEncode written files = .ok bytes := by
  obtain ⟨header, hwritten, hshort, htotal⟩ := h
  refine ⟨binaryMagic ++ leBytes 4 header.length ++ header ++ files.flatMap LtxFile.data, ?_⟩
  unfold binaryEncode
  refine bind_ok (parsed_eq_ok.mpr hwritten) ?_
  refine ensure_ok (decide_eq_true hshort) ?_
  refine ensure_ok (decide_eq_true ?_) rfl
  simp only [List.length_append, length_leBytes, binaryMagic, List.length_cons, List.length_nil]
  omega

/-! ## What is read -/

theorem slice_eq_ok {xs middle : List α} {start stop : Nat} (h : slice xs start stop = .ok middle) :
    xs.take stop = xs.take start ++ middle ∧ start + middle.length = stop := by
  unfold slice at h
  split at h
  · rename_i hbounds
    obtain rfl := Except.ok.inj h
    constructor
    · have hsplit := List.take_append_drop start (xs.take stop)
      rw [List.take_take, Nat.min_eq_left hbounds.1] at hsplit
      exact hsplit.symm
    · rw [List.length_drop, List.length_take]
      omega
  · cases h

/-- The loop over the headers returns files with these headers, whose data is the
payload up to where it stops. -/
theorem sliceFiles_eq_ok {payload : Bytes} {offset stop : Nat} {headers : List FileHeader}
    {files : List LtxFile} (h : sliceFiles payload offset headers = .ok (stop, files)) :
    files.map FileHeader.new = headers ∧
      payload.take stop = payload.take offset ++ files.flatMap LtxFile.data := by
  induction headers generalizing offset files with
  | nil =>
    obtain ⟨rfl, rfl⟩ := Prod.mk.inj (Except.ok.inj h)
    simp
  | cons header headers ih =>
    rw [sliceFiles] at h
    obtain ⟨middle, hmiddle, h⟩ := bind_eq_ok.mp h
    obtain ⟨data, hdata, h⟩ := bind_eq_ok.mp h
    obtain ⟨⟨stop', rest⟩, hrest, h⟩ := bind_eq_ok.mp h
    obtain ⟨rfl, rfl⟩ := Prod.mk.inj (Except.ok.inj h)
    obtain ⟨hadd, -⟩ := Option.filter_eq_some_iff.mp (ofOption_eq_ok.mp hmiddle)
    obtain ⟨hmiddle, -⟩ := checkedAdd_eq_some.mp hadd
    obtain ⟨hsplit, hlength⟩ := slice_eq_ok hdata
    obtain ⟨hheaders, htake⟩ := ih hrest
    have hbytes : data.length = header.bytes := by omega
    constructor
    · rw [List.map_cons, hheaders, FileHeader.new, hbytes]
    · rw [htake, hsplit, List.flatMap_cons, List.append_assoc]

/-- **Decoding is exact**: an accepted object consists of a header and the data of
the files that it names. -/
theorem binaryDecode_eq_ok {bytes : Bytes} {value : α} {files : List LtxFile}
    (h : binaryDecode read bytes = .ok (value, files)) :
    ∃ header, header.length < 2 ^ 32 ∧ read header = .ok (value, files.map FileHeader.new) ∧
      bytes = binaryMagic ++ leBytes 4 header.length ++ (header ++ files.flatMap LtxFile.data) := by
  unfold binaryDecode at h
  obtain ⟨_, hbinary, h⟩ := bind_eq_ok.mp h
  obtain ⟨hmagic, -⟩ := of_decide_eq_true (ensure_eq_ok.mp hbinary)
  obtain ⟨length, hlength, h⟩ := bind_eq_ok.mp h
  obtain ⟨start, hstart, h⟩ := bind_eq_ok.mp h
  obtain ⟨header, hheader, h⟩ := bind_eq_ok.mp h
  obtain ⟨⟨value', headers⟩, hread, h⟩ := bind_eq_ok.mp h
  obtain ⟨payload, hpayload, h⟩ := bind_eq_ok.mp h
  obtain ⟨⟨stop, files'⟩, hfiles, h⟩ := bind_eq_ok.mp h
  obtain ⟨_, hstop, h⟩ := bind_eq_ok.mp h
  obtain ⟨rfl, rfl⟩ := Prod.mk.inj (Except.ok.inj h)
  obtain rfl := of_decide_eq_true (ensure_eq_ok.mp hstop)
  obtain ⟨hadd, -⟩ := Option.filter_eq_some_iff.mp (ofOption_eq_ok.mp hstart)
  obtain ⟨rfl, -⟩ := checkedAdd_eq_some.mp hadd
  -- the four parts of the object
  obtain ⟨height, hfour⟩ := slice_eq_ok hlength
  obtain ⟨hfront, hcount⟩ := slice_eq_ok hheader
  obtain ⟨hall, -⟩ := slice_eq_ok hpayload
  obtain ⟨hheaders, hdata⟩ := sliceFiles_eq_ok hfiles
  have hfirst : bytes.take 4 = binaryMagic :=
    (List.prefix_iff_eq_take.mp (List.isPrefixOf_iff_prefix.mp hmagic)).symm
  have hfour : length.length = 4 := by omega
  have hcount : header.length = fromLe length := by omega
  refine ⟨header, ?_, hheaders ▸ parsed_eq_ok.mp hread, ?_⟩
  · have hbound := fromLe_lt length
    rw [hfour] at hbound
    omega
  · have hcode : leBytes 4 header.length = length := by
      rw [hcount, ← hfour]
      exact leBytes_fromLe length
    rw [List.take_length, List.take_zero, List.nil_append] at hdata
    rw [List.take_length, hfront, height, hfirst] at hall
    rw [hcode, ← hdata, hall, List.append_assoc _ header]

/-- **The format is self-delimiting**: of two accepted objects neither is a strict
prefix of the other. -/
theorem binaryDecode_isPrefix {bytes other : Bytes} {r r' : α × List LtxFile}
    (h : binaryDecode read bytes = .ok r) (h' : binaryDecode read other = .ok r')
    (hpre : bytes <+: other) : bytes = other := by
  obtain ⟨header, hshort, hread, rfl⟩ := binaryDecode_eq_ok h
  obtain ⟨header', hshort', hread', rfl⟩ := binaryDecode_eq_ok h'
  obtain ⟨rest, hrest⟩ := hpre
  -- the same eight bytes, so headers of the same length, so the same header
  rw [List.append_assoc] at hrest
  obtain ⟨hlengths, hrest⟩ := List.append_inj hrest (by simp)
  have hlengths : header.length = header'.length := by
    have hcode := congrArg fromLe (List.append_cancel_left hlengths)
    rwa [fromLe_leBytes 4 _ (by omega), fromLe_leBytes 4 _ (by omega)] at hcode
  rw [List.append_assoc] at hrest
  obtain ⟨rfl, hdata⟩ := List.append_inj hrest hlengths
  -- which says how much data follows
  rw [hread] at hread'
  obtain ⟨-, hheaders⟩ := Prod.mk.inj (Except.ok.inj hread')
  have hcount : ∀ files : List LtxFile, (files.flatMap LtxFile.data).length =
      ((files.map FileHeader.new).map FileHeader.bytes).sum := by
    intro files
    rw [List.length_flatMap, List.map_map]
    rfl
  have hlength := congrArg List.length hdata
  rw [List.length_append, hcount, hcount, hheaders] at hlength
  have hnil : rest = [] := List.eq_nil_of_length_eq_zero (by omega)
  rw [hnil, List.append_nil] at hdata
  rw [hdata]

/-! ## Objects -/

/-- No other object that starts like this one, or with it, is accepted. -/
def Delimits {β : Type} (decode : Bytes → Checked β) (bytes : Bytes) : Prop :=
  ∀ other, other <+: bytes ∨ bytes <+: other → (∃ r, decode other = .ok r) → other = bytes

theorem binaryDecode_delimits {bytes : Bytes} {r : α × List LtxFile}
    (h : binaryDecode read bytes = .ok r) : Delimits (binaryDecode read) bytes := by
  rintro other hor ⟨r', h'⟩
  rcases hor with hpre | hpre
  · exact binaryDecode_isPrefix h' h hpre
  · exact (binaryDecode_isPrefix h h' hpre).symm

/-- The JSON parsers reject what is shorter than the magic: no JSON text is empty or
starts with its first letter. -/
def Codec.RejectsMagic (codec : Codec) : Prop :=
  ∀ bytes, bytes <+: binaryMagic → bytes ≠ binaryMagic →
    (∀ s, codec.parseSnapshot bytes ≠ .ok s) ∧ ∀ c, codec.parseCheckpoint bytes ≠ .ok c

/-- A decoder that reads binary objects with `binary::decode` and the others with a
parser that rejects what is shorter than the magic. -/
theorem Delimits.lift {β γ : Type} {decode : Bytes → Checked γ} {bytes : Bytes}
    {r : α × List LtxFile} {f : α × List LtxFile → Checked β} {parse : Bytes → Except String β}
    (hbytes : isBinary bytes = true ∧ binaryDecode read bytes = .ok r)
    (hparse : ∀ other, other <+: binaryMagic → other ≠ binaryMagic → ∀ x, parse other ≠ .ok x)
    (hread : ∀ other c, decode other = .ok c → ∃ x,
      (if isBinary other = true then binaryDecode read other >>= f else parsed (parse other)) =
        .ok x) : Delimits decode bytes := by
  rintro other hor ⟨c, hother⟩
  obtain ⟨x, hx⟩ := hread other c hother
  split at hx
  · obtain ⟨r', hr', -⟩ := bind_eq_ok.mp hx
    exact binaryDecode_delimits hbytes.2 other hor ⟨r', hr'⟩
  · rename_i hnot
    have hmagic : binaryMagic <+: bytes := List.isPrefixOf_iff_prefix.mp hbytes.1
    have hlonger : ¬ binaryMagic <+: other := fun h => hnot (List.isPrefixOf_iff_prefix.mpr h)
    exfalso
    rcases hor with hpre | hpre
    · rcases List.prefix_or_prefix_of_prefix hpre hmagic with hless | hmore
      · exact hparse other hless (fun heq => hlonger (heq ▸ List.prefix_refl _)) x
          (parsed_eq_ok.mp hx)
      · exact hlonger hmore
    · exact hlonger (hmagic.trans hpre)

section

variable {serde : Serde} {bytes : Bytes}

theorem StateSnapshot.encode_delimits {s : StateSnapshot} (hjson : serde.toCodec.RejectsMagic)
    (hencode : s.encode serde = .ok bytes) :
    Delimits (StateSnapshot.decode serde.toCodec) bytes := by
  obtain ⟨_, -, hencode⟩ := bind_eq_ok.mp hencode
  have hread : ∀ other s', StateSnapshot.decode serde.toCodec other = .ok s' →
      ∃ x, StateSnapshot.read serde.toCodec other = .ok x := by
    intro other s' h
    obtain ⟨x, hx, -⟩ := bind_eq_ok.mp h
    exact ⟨x, hx⟩
  exact .lift (binaryDecode_encode (fun _ h => serde.read_snapshot h) hencode)
    (fun other hless hne => (hjson other hless hne).1) hread

theorem Checkpoint.encode_delimits {c : Checkpoint} (hjson : serde.toCodec.RejectsMagic)
    (hencode : c.encode serde = .ok bytes) (source : SnapshotRef) (txid : Nat) :
    Delimits (fun other => Checkpoint.decode serde.toCodec other source txid) bytes := by
  have hread : ∀ other s', Checkpoint.decode serde.toCodec other source txid = .ok s' →
      ∃ x, Checkpoint.read serde.toCodec other = .ok x := by
    intro other s' h
    obtain ⟨x, hx, -⟩ := bind_eq_ok.mp h
    exact ⟨x, hx⟩
  exact .lift (binaryDecode_encode (fun _ h => serde.read_checkpoint h) hencode)
    (fun other hless hne => (hjson other hless hne).2) hread

/-- **The binary format.**  What is written is read back and nothing that extends it
or that it extends is; so it is for snapshots and checkpoints that pass their checks,
and their decoders return nothing that does not. -/
theorem binary_format (hjson : serde.toCodec.RejectsMagic) :
    (∀ (write : α → List FileHeader → Except String Bytes)
        (read : Bytes → Except String (α × List FileHeader)), (∀ value headers header,
        write value headers = .ok header → read header = .ok (value, headers)) →
      ∀ value files, Fits (write value (files.map FileHeader.new)) files →
        ∃ bytes, binaryEncode (write value (files.map FileHeader.new)) files = .ok bytes ∧
          binaryDecode read bytes = .ok (value, files) ∧ Delimits (binaryDecode read) bytes) ∧
    (∀ s : StateSnapshot, s.validate = .ok () →
      Fits (serde.writeSnapshot s.bare (s.sqlite.files.map FileHeader.new)) s.sqlite.files →
      ∃ bytes, s.encode serde = .ok bytes ∧ StateSnapshot.decode serde.toCodec bytes = .ok s ∧
        Delimits (StateSnapshot.decode serde.toCodec) bytes) ∧
    (∀ c : Checkpoint, c.sqlite.validate c.source.version = .ok () → c.sqlite.parent = none →
      Fits (serde.writeCheckpoint { c with sqlite := { c.sqlite with files := [] } }
        (c.sqlite.files.map FileHeader.new)) c.sqlite.files →
      ∃ bytes, c.encode serde = .ok bytes ∧
        Checkpoint.decode serde.toCodec bytes c.source c.sqlite.txid = .ok c.sqlite ∧
        ∀ source txid,
          Delimits (fun other => Checkpoint.decode serde.toCodec other source txid) bytes) ∧
    (∀ bytes s, StateSnapshot.decode serde.toCodec bytes = .ok s → s.validate = .ok ()) ∧
    ∀ bytes source txid s, Checkpoint.decode serde.toCodec bytes source txid = .ok s →
      s.validate source.version = .ok () := by
  refine ⟨?_, ?_, ?_, ?_, ?_⟩
  · intro write read hread value files hfits
    obtain ⟨bytes, hencode⟩ := binaryEncode_of_fits hfits
    obtain ⟨-, hdecode⟩ := binaryDecode_encode (fun _ h => hread _ _ _ h) hencode
    exact ⟨bytes, hencode, hdecode, binaryDecode_delimits hdecode⟩
  · intro s hvalid hfits
    obtain ⟨bytes, hencode⟩ := binaryEncode_of_fits hfits
    have hencode : s.encode serde = .ok bytes := bind_ok hvalid hencode
    exact ⟨bytes, hencode, StateSnapshot.decode_encode hencode, s.encode_delimits hjson hencode⟩
  · intro c hvalid hparent hfits
    obtain ⟨bytes, hencode⟩ := binaryEncode_of_fits hfits
    exact ⟨bytes, hencode, Checkpoint.decode_encode hencode hvalid hparent,
      c.encode_delimits hjson hencode⟩
  · intro bytes s h
    obtain ⟨_, -, h⟩ := bind_eq_ok.mp h
    obtain ⟨_, hvalid, h⟩ := bind_eq_ok.mp h
    obtain rfl := Except.ok.inj h
    exact context_eq_ok.mp hvalid
  · intro bytes source txid s h
    exact SqliteSnapshot.validate_iff.mpr (Checkpoint.decode_valid h).1

end

theorem binary_format_first : ∃ bytes, firstSnapshot.encode cartSerde = .ok bytes ∧
    StateSnapshot.decode cartSerde.toCodec bytes = .ok firstSnapshot := by
  have hjson : cartSerde.toCodec.RejectsMagic := fun _ _ _ => ⟨nofun, nofun⟩
  obtain ⟨-, hsnapshots, -⟩ := binary_format (α := Unit) hjson
  obtain ⟨bytes, hencode, hdecode, -⟩ :=
    hsnapshots firstSnapshot (by decide) ⟨firstHeader, by decide +kernel, by decide +kernel,
      by decide +kernel⟩
  exact ⟨bytes, hencode, hdecode⟩

end DurableActors.Ports.Sqlite
