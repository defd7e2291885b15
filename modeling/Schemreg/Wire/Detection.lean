import Schemreg.Wire.Prefix
import Schemreg.Glue.Header

/-
  Detection of the wire format.

  A byte string starts with the prefix of a key, with the header of a Glue version, or with
  neither (`detectWireFormat_cases`); `detect_wire_format` says which. Its checks of the Glue
  header are its own, so the agreement with `validate_glue_wire_header` goes through the
  bytes that both accept.
-/

namespace Schemreg.Wire

open Checked Glue

variable {b : Bytes} {key : SchemaKey} {id : GlueSchemaVersionId} {c : GlueCompression} {off : Nat}

/-- No byte string starts with a prefix and with a Glue header. -/
theorem putPrefix_ne_header (key : SchemaKey) (rest : Bytes) (id : GlueSchemaVersionId)
    (c : GlueCompression) (rest' : Bytes) : putPrefix key ++ rest ≠ header id c ++ rest' := by
  have h0 : magicByteV0 ≠ glueHeaderVersionByte := by decide
  have h1 : magicByteV1 ≠ glueHeaderVersionByte := by decide
  intro h
  cases key with
  | id _ => exact h0 (List.cons.inj h).1
  | guid _ => exact h1 (List.cons.inj h).1

theorem decodeWirePrefix_isErr {first : UInt8} {bs : Bytes}
    (h : ¬ (first = magicByteV0 ∨ first = magicByteV1)) :
    (decodeWirePrefix (first :: bs)).IsErr := by
  rcases decodeWirePrefix_cases (first :: bs) with ⟨key, rest, -, hdata⟩ | herr
  · refine absurd ?_ h
    cases key with
    | id _ => exact Or.inl (List.cons.inj hdata).1
    | guid _ => exact Or.inr (List.cons.inj hdata).1
  · exact herr

theorem validate_isErr {first : UInt8} {bs : Bytes} (h : first ≠ glueHeaderVersionByte) :
    (validateGlueWireHeader (first :: bs)).IsErr := by
  rcases validate_cases (first :: bs) with ⟨id, c, rest, -, hdata⟩ | herr
  · exact absurd (List.cons.inj hdata).1 h
  · exact herr

theorem decodeWireFormat_isErr (h : (decodeWirePrefix b).IsErr) : (decodeWireFormat b).IsErr := by
  obtain ⟨e, he⟩ := h
  refine ⟨e, ?_⟩
  unfold decodeWireFormat
  rw [he]
  rfl

theorem glue_not_magic :
    ¬ (glueHeaderVersionByte = magicByteV0 ∨ glueHeaderVersionByte = magicByteV1) := by decide

/-- A buffer as long as a Glue header, in the detector. -/
theorem detect_glue_cons {byte : UInt8} {tail : Bytes} (h : uuidSize ≤ tail.length) :
    ∃ hlen : (tail.take uuidSize).length = uuidSize,
      detectWireFormat (glueHeaderVersionByte :: byte :: tail) =
        if byte = glueCompressionNoneByte then
          .ok (.glue ⟨tail.take uuidSize, hlen⟩ .none glueHeaderSize)
        else if byte = glueCompressionZlibByte then
          .ok (.glue ⟨tail.take uuidSize, hlen⟩ .zlib glueHeaderSize)
        else .ok .invalidGlue := by
  obtain ⟨hlen, hslice, hcopy⟩ := @uuid_bytes glueHeaderVersionByte byte tail h
  have hlong : ¬ (glueHeaderVersionByte :: byte :: tail).length < glueHeaderSize := by
    have : 16 ≤ tail.length := h
    show ¬ tail.length + 1 + 1 < 18
    omega
  have hbyte : (index (glueHeaderVersionByte :: byte :: tail) 1 : Decoding UInt8) = .ok byte := rfl
  -- the same identifier is cut out after either compression byte
  have hdetected : ∀ c : GlueCompression,
      (slice (glueHeaderVersionByte :: byte :: tail) 2 glueHeaderSize >>= fun uuid =>
        copyFromSlice uuidSize uuid >>= fun versionBytes =>
        .ok (.glue ⟨versionBytes.1, versionBytes.2⟩ c glueHeaderSize) :
          Decoding DetectedWireFormat) =
        .ok (.glue ⟨tail.take uuidSize, hlen⟩ c glueHeaderSize) := by
    intro c
    rw [hslice, Outcome.bind_ok, hcopy, Outcome.bind_ok]
  refine ⟨hlen, ?_⟩
  rw [← hdetected, ← hdetected]
  unfold detectWireFormat
  rw [List.head?_cons]
  dsimp only
  rw [if_neg glue_not_magic, if_pos rfl, if_neg hlong, hbyte, Outcome.bind_ok]
  rfl

/-- What the detector does with a buffer whose first byte is Glue's. -/
theorem detect_glue_cases (bs : Bytes) :
    (∃ id c rest, detectWireFormat (glueHeaderVersionByte :: bs) = .ok (.glue id c glueHeaderSize) ∧
      glueHeaderVersionByte :: bs = header id c ++ rest) ∨
    (detectWireFormat (glueHeaderVersionByte :: bs) = .ok .invalidGlue ∧
      (validateGlueWireHeader (glueHeaderVersionByte :: bs)).IsErr) := by
  rcases Nat.lt_or_ge (glueHeaderVersionByte :: bs).length glueHeaderSize with hshort | hlong
  · refine Or.inr ⟨?_, ?_⟩
    · unfold detectWireFormat
      rw [List.head?_cons]
      dsimp only
      rw [if_neg glue_not_magic, if_pos rfl, if_pos hshort]
    · unfold validateGlueWireHeader
      rw [if_pos hshort]
      exact ⟨_, rfl⟩
  · obtain ⟨version, byte, tail, heq, htail⟩ := two_bytes hlong
    obtain ⟨rfl, rfl⟩ := List.cons.inj heq
    obtain ⟨hlen, hdetect⟩ := @detect_glue_cons byte tail htail
    obtain ⟨-, -, -, herr⟩ := @validate_cons glueHeaderVersionByte byte tail htail
    have hdata : ∀ c : GlueCompression, byte = c.byte → glueHeaderVersionByte :: byte :: tail =
        header ⟨tail.take uuidSize, hlen⟩ c ++ tail.drop uuidSize := by
      rintro c rfl
      show _ = _ :: _ :: (tail.take uuidSize ++ tail.drop uuidSize)
      rw [List.take_append_drop]
    rw [hdetect]
    by_cases hnone : byte = glueCompressionNoneByte
    · rw [if_pos hnone]
      exact Or.inl ⟨_, .none, _, rfl, hdata .none hnone⟩
    · rw [if_neg hnone]
      by_cases hzlib : byte = glueCompressionZlibByte
      · rw [if_pos hzlib]
        exact Or.inl ⟨_, .zlib, _, rfl, hdata .zlib hzlib⟩
      · rw [if_neg hzlib]
        exact Or.inr ⟨rfl, herr (Or.inr ⟨hnone, hzlib⟩)⟩

/-- A buffer that neither decoder takes. -/
structure Rejected (b : Bytes) : Prop where
  detected : ∃ d, detectWireFormat b = .ok d ∧
    (d = .invalidConfluent ∨ d = .invalidGlue ∨ d = .unknown)
  confluent : (decodeWirePrefix b).IsErr
  glue : (validateGlueWireHeader b).IsErr

/-- Every outcome of `detect_wire_format`. -/
theorem detectWireFormat_cases (b : Bytes) :
    (∃ key rest, detectWireFormat b = .ok (.confluent key (putPrefix key).length) ∧
      b = putPrefix key ++ rest) ∨
    (∃ id c rest, detectWireFormat b = .ok (.glue id c glueHeaderSize) ∧
      b = header id c ++ rest) ∨
    Rejected b := by
  cases b with
  | nil => exact Or.inr (Or.inr ⟨⟨.unknown, rfl, by simp⟩, ⟨_, rfl⟩, ⟨_, rfl⟩⟩)
  | cons first bs =>
    by_cases hmagic : first = magicByteV0 ∨ first = magicByteV1
    · rcases decodeWirePrefix_cases (first :: bs) with ⟨key, rest, hok, hdata⟩ | herr
      · refine Or.inl ⟨key, rest, ?_, hdata⟩
        unfold detectWireFormat
        rw [List.head?_cons]
        dsimp only
        rw [if_pos hmagic, hok]
      · have hglue : first ≠ glueHeaderVersionByte := by
          rcases hmagic with rfl | rfl <;> decide
        refine Or.inr (Or.inr ⟨⟨.invalidConfluent, ?_, by simp⟩, herr, validate_isErr hglue⟩)
        obtain ⟨e, he⟩ := herr
        unfold detectWireFormat
        rw [List.head?_cons]
        dsimp only
        rw [if_pos hmagic, he]
    · have hstart := @decodeWirePrefix_isErr first bs hmagic
      by_cases hglue : first = glueHeaderVersionByte
      · subst hglue
        rcases detect_glue_cases bs with hok | ⟨hdetect, herr⟩
        · exact Or.inr (Or.inl hok)
        · exact Or.inr (Or.inr ⟨⟨.invalidGlue, hdetect, by simp⟩, hstart, herr⟩)
      · refine Or.inr (Or.inr ⟨⟨.unknown, ?_, by simp⟩, hstart, validate_isErr hglue⟩)
        unfold detectWireFormat
        rw [List.head?_cons]
        dsimp only
        rw [if_neg hmagic, if_neg hglue]

theorem detectWireFormat_safe (b : Bytes) : (detectWireFormat b).Safe := by
  rcases detectWireFormat_cases b with ⟨key, rest, hok, -⟩ | ⟨id, c, rest, hok, -⟩ | hrej
  · rw [hok]
    exact Outcome.safe_ok _
  · rw [hok]
    exact Outcome.safe_ok _
  · obtain ⟨d, hok, -⟩ := hrej.detected
    rw [hok]
    exact Outcome.safe_ok _

theorem detect_confluent_iff : detectWireFormat b = .ok (.confluent key off) ↔
    off = (putPrefix key).length ∧ ∃ rest, b = putPrefix key ++ rest := by
  constructor
  · intro hdetect
    rcases detectWireFormat_cases b with ⟨key', rest, hok, hdata⟩ | ⟨id, c, rest, hok, -⟩ | hrej
    · rw [hdetect] at hok
      cases hok
      exact ⟨rfl, rest, hdata⟩
    · rw [hdetect] at hok
      cases hok
    · obtain ⟨d, hok, hd⟩ := hrej.detected
      rw [hdetect] at hok
      cases hok
      simp at hd
  · rintro ⟨rfl, rest, rfl⟩
    rcases detectWireFormat_cases (putPrefix key ++ rest) with
      ⟨key', rest', hok, hdata⟩ | ⟨id, c, rest', -, hdata⟩ | hrej
    · obtain ⟨rfl, -⟩ := putPrefix_append_inj hdata
      exact hok
    · exact absurd hdata (putPrefix_ne_header key rest id c rest')
    · exact absurd ⟨_, decodeWirePrefix_append key rest⟩ hrej.confluent.not_isOk

theorem detect_glue_iff : detectWireFormat b = .ok (.glue id c off) ↔
    off = glueHeaderSize ∧ ∃ rest, b = header id c ++ rest := by
  constructor
  · intro hdetect
    rcases detectWireFormat_cases b with ⟨key', rest, hok, -⟩ | ⟨id', c', rest, hok, hdata⟩ | hrej
    · rw [hdetect] at hok
      cases hok
    · rw [hdetect] at hok
      cases hok
      exact ⟨rfl, rest, hdata⟩
    · obtain ⟨d, hok, hd⟩ := hrej.detected
      rw [hdetect] at hok
      cases hok
      simp at hd
  · rintro ⟨rfl, rest, rfl⟩
    rcases detectWireFormat_cases (header id c ++ rest) with
      ⟨key', rest', -, hdata⟩ | ⟨id', c', rest', hok, hdata⟩ | hrej
    · exact absurd hdata.symm (putPrefix_ne_header key' rest' id c rest)
    · obtain ⟨rfl, rfl, -⟩ := header_append_inj hdata
      exact hok
    · exact absurd ⟨_, validate_append id c rest⟩ hrej.glue.not_isOk

/-- A position and a payload that the Confluent decoder agrees with. -/
theorem decodeWireFormat_drop_iff :
    (off ≤ b.length ∧ decodeWireFormat b = .ok (key, b.drop off)) ↔
      off = (putPrefix key).length ∧ ∃ rest, b = putPrefix key ++ rest := by
  rw [decodeWireFormat_eq_ok]
  constructor
  · rintro ⟨hoff, hdata⟩
    have hlen := congrArg List.length hdata
    rw [List.length_append, List.length_drop] at hlen
    exact ⟨by omega, _, hdata⟩
  · rintro ⟨rfl, rest, rfl⟩
    rw [drop_putPrefix, List.length_append]
    exact ⟨by omega, rfl⟩

/-- `detect_wire_format` agrees with the two decoders. -/
theorem detect_agrees (zlibRead : Bytes → Nat → Except String Bytes) (b : Bytes) :
    (∀ key off, detectWireFormat b = .ok (.confluent key off) ↔
      off ≤ b.length ∧ decodeWireFormat b = .ok (key, b.drop off)) ∧
    (∀ id c off, detectWireFormat b = .ok (.glue id c off) ↔
      validateGlueWireHeader b = .ok (id, c) ∧ off = glueHeaderSize) ∧
    (∀ d, detectWireFormat b = .ok d → d = .invalidConfluent ∨ d = .invalidGlue ∨ d = .unknown →
      (decodeWireFormat b).IsErr ∧ (validateGlueWireHeader b).IsErr ∧
        (decodeGlueWireFormatBytes zlibRead b).IsErr) ∧
    ¬ ((decodeWireFormat b).IsOk ∧
      ((validateGlueWireHeader b).IsOk ∨ (decodeGlueWireFormatBytes zlibRead b).IsOk)) := by
  refine ⟨fun key off => ?_, fun id c off => ?_, fun d hd hrejects => ?_, ?_⟩
  · rw [detect_confluent_iff, decodeWireFormat_drop_iff]
  · rw [detect_glue_iff, validate_eq_ok, and_comm]
  · have hrej : Rejected b := by
      rcases detectWireFormat_cases b with ⟨key, rest, hok, -⟩ | ⟨id, c, rest, hok, -⟩ | hrej
      · rw [hok] at hd
        cases hd
        simp at hrejects
      · rw [hok] at hd
        cases hd
        simp at hrejects
      · exact hrej
    refine ⟨decodeWireFormat_isErr hrej.confluent, hrej.glue, ?_⟩
    obtain ⟨e, he⟩ := hrej.glue
    refine ⟨e, ?_⟩
    unfold decodeGlueWireFormatBytes
    rw [he]
    rfl
  · rintro ⟨⟨⟨key, payload⟩, hconfluent⟩, hglue⟩
    have hvalid : (validateGlueWireHeader b).IsOk := by
      rcases hglue with hvalid | ⟨decoded, hdecoded⟩
      · exact hvalid
      · obtain ⟨valid, hvalid, -⟩ := Outcome.bind_eq_ok.mp hdecoded
        exact ⟨valid, hvalid⟩
    obtain ⟨⟨id, c⟩, hvalid⟩ := hvalid
    obtain ⟨rest, hheader⟩ := validate_eq_ok.mp hvalid
    have hstart := decodeWireFormat_eq_ok.mp hconfluent
    exact putPrefix_ne_header key payload id c rest (hstart.symm.trans hheader)

end Schemreg.Wire
