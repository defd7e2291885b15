import Schemreg.Glue.Model

/-
  The Glue header.

  `validate_glue_wire_header` accepts exactly the byte strings that start with the header of
  some version and compression (`validate_eq_ok`), and never panics.
-/

namespace Schemreg.Glue

open Checked

def GlueCompression.byte : GlueCompression → UInt8
  | .none => glueCompressionNoneByte
  | .zlib => glueCompressionZlibByte

/-- The 18 bytes in front of a payload. -/
def header (id : GlueSchemaVersionId) (compression : GlueCompression) : Bytes :=
  glueHeaderVersionByte :: compression.byte :: id.asBytes

variable {data rest rest' : Bytes} {id id' : GlueSchemaVersionId} {c c' : GlueCompression}

theorem length_header (id : GlueSchemaVersionId) (c : GlueCompression) :
    (header id c).length = glueHeaderSize := by
  show id.asBytes.length + 1 + 1 = 18
  rw [id.length_eq]
  rfl

theorem header_append_inj (h : header id c ++ rest = header id' c' ++ rest') :
    id = id' ∧ c = c' ∧ rest = rest' := by
  obtain ⟨-, htail⟩ := List.cons.inj h
  obtain ⟨hbyte, hbytes⟩ := List.cons.inj htail
  obtain ⟨hid, hrest⟩ := List.append_inj hbytes (id.length_eq.trans id'.length_eq.symm)
  have hc : c = c' := by
    revert hbyte
    cases c <;> cases c' <;> decide
  cases id
  cases id'
  cases hid
  exact ⟨rfl, hc, hrest⟩

/-- A buffer as long as a header, taken apart. -/
theorem two_bytes {data : Bytes} (h : glueHeaderSize ≤ data.length) : ∃ version byte bs,
    data = version :: byte :: bs ∧ uuidSize ≤ bs.length := by
  match data, h with
  | version :: byte :: bs, h =>
    refine ⟨version, byte, bs, rfl, ?_⟩
    have hlen : 18 ≤ bs.length + 1 + 1 := h
    show 16 ≤ bs.length
    omega

/-- The identifier in a header. -/
theorem uuid_bytes {version byte : UInt8} {bs : Bytes} (h : uuidSize ≤ bs.length) :
    ∃ hlen : (bs.take uuidSize).length = uuidSize,
      (slice (version :: byte :: bs) 2 glueHeaderSize : Decoding Bytes) = .ok (bs.take uuidSize) ∧
      (copyFromSlice uuidSize (bs.take uuidSize) : Decoding _) = .ok ⟨_, hlen⟩ :=
  @slice_copy SchemaRegError _ (version :: byte :: bs) 2 16 (by
    show 2 + 16 ≤ bs.length + 1 + 1
    have : 16 ≤ bs.length := h
    omega)

theorem validate_cons {version byte : UInt8} {bs : Bytes} (h : uuidSize ≤ bs.length) :
    ∃ hlen : (bs.take uuidSize).length = uuidSize,
      (version = glueHeaderVersionByte → byte = glueCompressionNoneByte →
        validateGlueWireHeader (version :: byte :: bs) = .ok (⟨bs.take uuidSize, hlen⟩, .none)) ∧
      (version = glueHeaderVersionByte → byte = glueCompressionZlibByte →
        validateGlueWireHeader (version :: byte :: bs) = .ok (⟨bs.take uuidSize, hlen⟩, .zlib)) ∧
      (version ≠ glueHeaderVersionByte ∨
          (byte ≠ glueCompressionNoneByte ∧ byte ≠ glueCompressionZlibByte) →
        (validateGlueWireHeader (version :: byte :: bs)).IsErr) := by
  obtain ⟨hlen, hslice, hcopy⟩ := @uuid_bytes version byte bs h
  have hlong : ¬ (version :: byte :: bs).length < glueHeaderSize := by
    show ¬ bs.length + 1 + 1 < 18
    have : 16 ≤ bs.length := h
    omega
  have hcomp : glueCompressionZlibByte ≠ glueCompressionNoneByte := by decide
  have hversion : (index (version :: byte :: bs) 0 : Decoding UInt8) = .ok version := rfl
  have hbyte : (index (version :: byte :: bs) 1 : Decoding UInt8) = .ok byte := rfl
  unfold validateGlueWireHeader
  rw [if_neg hlong, hversion, Outcome.bind_ok, hbyte]
  refine ⟨hlen, ?_, ?_, ?_⟩
  · rintro rfl rfl
    rw [if_neg (by simp), Outcome.bind_ok, if_pos rfl, Outcome.bind_ok]
    show (do let uuid ← slice _ 2 glueHeaderSize; _) = _
    rw [hslice, Outcome.bind_ok, hcopy]
    rfl
  · rintro rfl rfl
    rw [if_neg (by simp), Outcome.bind_ok, if_neg hcomp, if_pos rfl, Outcome.bind_ok]
    show (do let uuid ← slice _ 2 glueHeaderSize; _) = _
    rw [hslice, Outcome.bind_ok, hcopy]
    rfl
  · rintro hbad
    by_cases hv : version = glueHeaderVersionByte
    · obtain ⟨hnone, hzlib⟩ := hbad.resolve_left (fun hne => hne hv)
      rw [if_neg (by simpa using hv), Outcome.bind_ok, if_neg hnone, if_neg hzlib]
      exact ⟨_, rfl⟩
    · rw [if_pos hv]
      exact ⟨_, rfl⟩

/-- Every outcome of `validate_glue_wire_header`: the header of a version, or an error. -/
theorem validate_cases (data : Bytes) :
    (∃ id c rest, validateGlueWireHeader data = .ok (id, c) ∧ data = header id c ++ rest) ∨
      (validateGlueWireHeader data).IsErr := by
  rcases Nat.lt_or_ge data.length glueHeaderSize with hshort | hlong
  · refine Or.inr ?_
    unfold validateGlueWireHeader
    rw [if_pos hshort]
    exact ⟨_, rfl⟩
  · obtain ⟨version, byte, bs, rfl, hbs⟩ := two_bytes hlong
    obtain ⟨hlen, hnone, hzlib, herr⟩ := @validate_cons version byte bs hbs
    have hdata : ∀ c : GlueCompression, version = glueHeaderVersionByte → byte = c.byte →
        version :: byte :: bs = header ⟨bs.take uuidSize, hlen⟩ c ++ bs.drop uuidSize := by
      rintro c rfl rfl
      show _ = _ :: _ :: (bs.take uuidSize ++ bs.drop uuidSize)
      rw [List.take_append_drop]
    by_cases hv : version = glueHeaderVersionByte
    · by_cases h0 : byte = glueCompressionNoneByte
      · exact Or.inl ⟨_, _, _, hnone hv h0, hdata .none hv h0⟩
      · by_cases h5 : byte = glueCompressionZlibByte
        · exact Or.inl ⟨_, _, _, hzlib hv h5, hdata .zlib hv h5⟩
        · exact Or.inr (herr (Or.inr ⟨h0, h5⟩))
    · exact Or.inr (herr (Or.inl hv))

theorem validate_append (id : GlueSchemaVersionId) (c : GlueCompression) (rest : Bytes) :
    validateGlueWireHeader (header id c ++ rest) = .ok (id, c) := by
  have hbs : uuidSize ≤ (id.asBytes ++ rest).length := by
    rw [List.length_append, id.length_eq]
    omega
  have htake : (id.asBytes ++ rest).take uuidSize = id.asBytes := by
    rw [← id.length_eq, List.take_left]
  obtain ⟨hlen, hnone, hzlib, -⟩ :=
    @validate_cons glueHeaderVersionByte c.byte (id.asBytes ++ rest) hbs
  have hid : (⟨_, hlen⟩ : GlueSchemaVersionId) = id := by
    cases id
    simp only [GlueSchemaVersionId.mk.injEq]
    exact htake
  cases c with
  | none => exact (hnone rfl rfl).trans (by rw [hid])
  | zlib => exact (hzlib rfl rfl).trans (by rw [hid])

theorem validate_eq_ok : validateGlueWireHeader data = .ok (id, c) ↔
    ∃ rest, data = header id c ++ rest := by
  constructor
  · intro hok
    rcases validate_cases data with ⟨id', c', rest, hok', hdata⟩ | herr
    · rw [hok] at hok'
      cases hok'
      exact ⟨rest, hdata⟩
    · exact absurd ⟨_, hok⟩ herr.not_isOk
  · rintro ⟨rest, rfl⟩
    exact validate_append id c rest

/-! ## The payload -/

section Inflate

variable (zlibRead : Bytes → Nat → Except String Bytes)

/-- The payload that the bytes behind a header stand for. -/
def inflate (c : GlueCompression) (raw : Bytes) : Decoding Bytes :=
  match c with
  | .none => .ok raw
  | .zlib => decompressZlib zlibRead raw

theorem sliceFrom_header (id : GlueSchemaVersionId) (c : GlueCompression) (rest : Bytes) :
    (sliceFrom (header id c ++ rest) glueHeaderSize : Decoding Bytes) = .ok rest := by
  rw [← length_header id c, sliceFrom_of_le (by rw [List.length_append]; omega), List.drop_left]

theorem decodeGlue_append (id : GlueSchemaVersionId) (c : GlueCompression) (rest : Bytes) :
    decodeGlueWireFormatBytes zlibRead (header id c ++ rest) =
      (inflate zlibRead c rest >>= fun payload => .ok (id, payload)) := by
  unfold decodeGlueWireFormatBytes
  rw [validate_append, Outcome.bind_ok]
  dsimp only
  rw [sliceFrom_header, Outcome.bind_ok]
  cases c with
  | none => rfl
  | zlib => rfl

end Inflate

end Schemreg.Glue
