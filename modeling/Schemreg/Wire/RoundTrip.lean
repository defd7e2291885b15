import Schemreg.Wire.SchemaIdHeader

/-
  Round trips of the encoders of `src/wire.rs`.

  The array of a path of up to 512 segments reads back as the path, whatever follows it
  (`decodeIndexes_put`), and a longer one is refused (`decodeIndexes_put_long`). Both the
  frame and the header are the prefix of a key and such an array.
-/

namespace Schemreg.Wire

open Checked Leb128

variable {key : SchemaKey} {p : List UInt32} {rest payload : Bytes}

/-- The path that a message-index array stands for: the empty path is read as `[0]`. -/
def readAs (p : List UInt32) : List UInt32 := if p = [] then [0] else p

/-- The varint of one number. -/
def group (n : UInt32) : Bytes := writeVarint (zigzagEncode n)

theorem group_eq (n : UInt32) : group n = encode (2 * n.toNat) := by
  unfold group
  rw [writeVarint_eq, zigzagEncode_toNat]

theorem reads_group (n : UInt32) : Reads (group n) n := by
  have hn := n.toNat_lt
  rw [group_eq]
  refine ⟨varint_encode _, ?_, ?_⟩
  · have hword : (2 : Nat) ^ 33 < 128 ^ (9 + 1) := by decide
    have hfits : 2 * n.toNat < 128 ^ (9 + 1) := by omega
    exact length_encode_le hfits
  · rw [raw_of_lt] <;> rw [value_encode]
    omega

theorem reads_groups (p : List UInt32) : List.Forall₂ Reads (p.map group) p := by
  induction p with
  | nil => exact List.Forall₂.nil
  | cons n p ih => exact List.Forall₂.cons (reads_group n) ih

/-! ## The array -/

/-- The array of `[0]` and of the empty path. -/
theorem putMessageIndexes_default (h : p = [] ∨ p = [0]) :
    putMessageIndexes p = group 0 ∧ readAs p = [0] := by
  rcases h with rfl | rfl
  · exact ⟨by decide, rfl⟩
  · exact ⟨by decide, rfl⟩

theorem putMessageIndexes_of_ne (hnil : p ≠ []) (hzero : p ≠ [0]) :
    putMessageIndexes p = group (saturatingCount p) ++ (p.map group).flatten ∧ readAs p = p := by
  unfold putMessageIndexes readAs
  rw [if_neg (by simp [hnil, hzero]), if_neg hnil, List.flatMap_def]
  exact ⟨rfl, rfl⟩

theorem saturatingCount_toNat (h : p.length ≤ 512) : (saturatingCount p).toNat = p.length := by
  unfold saturatingCount
  rw [if_pos (by omega), UInt32.toNat_ofNat']
  omega

/-- The count saturates above the cap of the decoder. -/
theorem lt_saturatingCount (h : 512 < p.length) : 512 < (saturatingCount p).toNat := by
  unfold saturatingCount
  split
  · rw [UInt32.toNat_ofNat']
    omega
  · rw [UInt32.toNat_ofNat']
    omega

/-- The array of a path of up to 512 segments reads back, whatever follows it. -/
theorem decodeIndexes_put (h : p.length ≤ 512) (rest : Bytes) :
    decodeProtobufMessageIndexes (putMessageIndexes p ++ rest) =
      .ok (readAs p, (putMessageIndexes p).length) := by
  rw [decodeIndexes_eq_ok]
  by_cases hdefault : p = [] ∨ p = [0]
  · obtain ⟨hput, hread⟩ := putMessageIndexes_default hdefault
    rw [hput, hread]
    exact ⟨group 0, rest, 0, rfl, reads_group 0, Or.inl ⟨rfl, rfl, rfl⟩⟩
  · obtain ⟨hnil, hzero⟩ := not_or.mp hdefault
    obtain ⟨hput, hread⟩ := putMessageIndexes_of_ne hnil hzero
    have hcount := saturatingCount_toNat h
    have hne : saturatingCount p ≠ 0 := by
      intro hz
      rw [hz] at hcount
      exact hnil (List.length_eq_zero_iff.mp hcount.symm)
    rw [hput, hread]
    refine ⟨group (saturatingCount p), (p.map group).flatten ++ rest, saturatingCount p, ?_,
      reads_group _, Or.inr ⟨hne, by omega, p.map group, rest, reads_groups p, hcount.symm,
      rfl, ?_⟩⟩
    · rw [List.append_assoc]
    · rw [List.length_append]

/-- The array of a longer path is refused at its count. -/
theorem decodeIndexes_put_long (h : 512 < p.length) (rest : Bytes) :
    (decodeProtobufMessageIndexes (putMessageIndexes p ++ rest)).IsErr := by
  have hcount := lt_saturatingCount h
  have hlen : ∀ q : List UInt32, q.length ≤ 1 → p ≠ q := by
    rintro q hq rfl
    omega
  obtain ⟨hput, -⟩ := putMessageIndexes_of_ne (hlen [] (by simp)) (hlen [0] (by simp))
  have hreads := reads_group (saturatingCount p)
  rw [hput, List.append_assoc, decodeIndexes_group rfl hreads.1 hreads.2.1, hreads.zigzag,
    Outcome.bind_ok]
  have hzero : saturatingCount p ≠ 0 := by
    intro hz
    rw [hz] at hcount
    exact absurd hcount (by decide)
  have hbig : saturatingCount p > maxMessageIndexCount := UInt32.lt_iff_toNat_lt.mpr hcount
  unfold afterCount
  rw [if_neg hzero, if_pos hbig]
  exact ⟨_, rfl⟩

/-! ## Frames -/

/-- A record with its identifier in front: `encode_wire_format` without a path,
    `encode_protobuf_wire_format` with one. -/
def encodeFramed (key : SchemaKey) (path : Option (List UInt32)) (payload : Bytes) : Bytes :=
  match path with
  | none => encodeWireFormat key payload
  | some p => encodeProtobufWireFormat key p payload

/-- `decode_wire_format`, then `decode_protobuf_message_indexes` on what follows the prefix. -/
def decodeFramed (data : Bytes) : Decoding (SchemaKey × List UInt32 × Bytes) := do
  let (key, rest) ← decodeWireFormat data
  let (indexes, consumed) ← decodeProtobufMessageIndexes rest
  let payload ← sliceFrom rest consumed
  .ok (key, indexes, payload)

theorem decodeFramed_append (key : SchemaKey) (rest : Bytes) :
    decodeFramed (putPrefix key ++ rest) = (do
      let (indexes, consumed) ← decodeProtobufMessageIndexes rest
      let payload ← sliceFrom rest consumed
      .ok (key, indexes, payload)) := by
  unfold decodeFramed
  rw [decodeWireFormat_append, Outcome.bind_ok]

theorem decodeFramed_protobuf (h : p.length ≤ 512) :
    decodeFramed (encodeProtobufWireFormat key p payload) = .ok (key, readAs p, payload) := by
  unfold encodeProtobufWireFormat
  rw [List.append_assoc, decodeFramed_append, decodeIndexes_put h, Outcome.bind_ok]
  dsimp only
  rw [sliceFrom_of_le (by rw [List.length_append]; omega), List.drop_left]
  rfl

theorem decodeFramed_protobuf_long (h : 512 < p.length) :
    (decodeFramed (encodeProtobufWireFormat key p payload)).IsErr := by
  unfold encodeProtobufWireFormat
  rw [List.append_assoc, decodeFramed_append]
  obtain ⟨e, he⟩ := @decodeIndexes_put_long p h payload
  rw [he]
  exact ⟨e, rfl⟩

theorem putMessageIndexes_ne_nil (p : List UInt32) : putMessageIndexes p ≠ [] := by
  by_cases hdefault : p = [] ∨ p = [0]
  · rw [(putMessageIndexes_default hdefault).1]
    exact (reads_group 0).1.ne_nil
  · obtain ⟨hnil, hzero⟩ := not_or.mp hdefault
    rw [(putMessageIndexes_of_ne hnil hzero).1]
    exact fun h => (reads_group _).1.ne_nil (List.append_eq_nil_iff.mp h).1

/-- What `decode_schema_id_header` makes of a header with a path and more bytes. -/
theorem decodeHeader_put (h : p.length ≤ 512) (suffix : Bytes) :
    (suffix = [] → decodeSchemaIdHeader (encodeSchemaIdHeader key (some p) ++ suffix) =
      .ok (key, some (readAs p))) ∧
    (suffix ≠ [] → (decodeSchemaIdHeader (encodeSchemaIdHeader key (some p) ++ suffix)).IsErr) := by
  have hne : putMessageIndexes p ++ suffix ≠ [] := fun h =>
    putMessageIndexes_ne_nil p (List.append_eq_nil_iff.mp h).1
  have hdecode : decodeSchemaIdHeader (encodeSchemaIdHeader key (some p) ++ suffix) =
      afterPrefix key (putMessageIndexes p ++ suffix) := by
    show decodeSchemaIdHeader (putPrefix key ++ putMessageIndexes p ++ suffix) = _
    rw [List.append_assoc, decodeSchemaIdHeader_append, if_neg (by simpa using hne)]
  obtain ⟨hend, hmore⟩ := @afterPrefix_of_ok key _ _ _ (decodeIndexes_put h suffix)
  rw [hdecode]
  constructor
  · rintro rfl
    exact hend (by rw [List.append_nil])
  · intro hsuffix
    refine hmore ?_
    have := List.length_pos_of_ne_nil hsuffix
    rw [List.length_append]
    omega

/-- The identifier and the path are the same bytes in front of the payload and in a header. -/
theorem placements_agree (key : SchemaKey) (path : Option (List UInt32)) (payload : Bytes)
    (h : ∀ p, path = some p → p.length ≤ 512) :
    encodeFramed key path payload = encodeSchemaIdHeader key path ++ payload ∧
    decodeSchemaIdHeader (encodeSchemaIdHeader key path) = .ok (key, path.map readAs) ∧
    (∀ suffix, path ≠ none → suffix ≠ [] →
      (decodeSchemaIdHeader (encodeSchemaIdHeader key path ++ suffix)).IsErr) ∧
    (match path with
      | none => decodeWireFormat (encodeFramed key path payload) = .ok (key, payload)
      | some p => decodeFramed (encodeFramed key path payload) = .ok (key, readAs p, payload)) := by
  cases path with
  | none =>
    refine ⟨?_, ?_, ?_, ?_⟩
    · show putPrefix key ++ payload = putPrefix key ++ [] ++ payload
      rw [List.append_nil]
    · exact decodeSchemaIdHeader_append key []
    · intro suffix hpath
      exact absurd rfl hpath
    · exact decodeWireFormat_append key payload
  | some p =>
    have hlen := h p rfl
    refine ⟨rfl, ?_, ?_, ?_⟩
    · have hend := (@decodeHeader_put key p hlen []).1 rfl
      rwa [List.append_nil] at hend
    · intro suffix _ hsuffix
      exact (decodeHeader_put hlen suffix).2 hsuffix
    · exact decodeFramed_protobuf hlen

/-- The path `[1, 0]` behind a schema id. -/
theorem nested_path_in_both_places :
    encodeFramed (.id ⟨42⟩) (some [1, 0]) [0x0A] =
      encodeSchemaIdHeader (.id ⟨42⟩) (some [1, 0]) ++ [0x0A] ∧
    decodeSchemaIdHeader (encodeSchemaIdHeader (.id ⟨42⟩) (some [1, 0])) =
      .ok (.id ⟨42⟩, some [1, 0]) ∧
    (decodeSchemaIdHeader (encodeSchemaIdHeader (.id ⟨42⟩) (some [1, 0]) ++ [0x0A])).IsErr := by
  obtain ⟨hframe, hheader, hsuffix, -⟩ := placements_agree (.id ⟨42⟩) (some [1, 0]) [0x0A] (by
    intro p hp
    cases hp
    decide)
  exact ⟨hframe, hheader, hsuffix [0x0A] (by simp) (by simp)⟩

/-! ## The cap -/

/-- What the encoder writes is read back up to the cap of the decoder, and refused above. -/
theorem read_back_up_to_cap (key : SchemaKey) (p : List UInt32) (payload : Bytes) :
    (p.length ≤ 512 →
      decodeFramed (encodeProtobufWireFormat key p payload) = .ok (key, readAs p, payload)) ∧
    (512 < p.length → (decodeFramed (encodeProtobufWireFormat key p payload)).IsErr) :=
  ⟨decodeFramed_protobuf, decodeFramed_protobuf_long⟩

/-- A path of 513 segments is written, and refused. -/
theorem long_path_is_refused :
    ¬ ∀ (key : SchemaKey) (p : List UInt32) (payload : Bytes),
      decodeFramed (encodeProtobufWireFormat key p payload) = .ok (key, readAs p, payload) := by
  intro h
  have hlong : 512 < (List.replicate 513 (0 : UInt32)).length := by
    rw [List.length_replicate]
    decide
  have herr := @decodeFramed_protobuf_long (.id ⟨1⟩) (List.replicate 513 0) [] hlong
  exact herr.not_isOk ⟨_, h (.id ⟨1⟩) (List.replicate 513 0) []⟩

end Schemreg.Wire
