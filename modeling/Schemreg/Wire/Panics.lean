import Schemreg.Wire.Detection
import Schemreg.Wire.SchemaIdHeader

/-
  Hostile input to the decoders of `src/wire.rs`.

  Every index, slice, shift and sum of the four decoders is in range on every byte string,
  but for one negation: `zigzag_decode_u32` puts the negative number that an odd varint
  stands for into its error, and the number of `u64::MAX` has no negation in `i64`. The
  decoders panic exactly where they come to such a varint.
-/

namespace Schemreg.Wire

open Checked

variable {b : Bytes}

/-- What the decoders promise for the byte string `b`. -/
structure DecodersSafe (b : Bytes) : Prop where
  wirePrefix : (decodeWirePrefix b).Safe
  messageIndexes : (decodeProtobufMessageIndexes b).Safe
  schemaIdHeader : (decodeSchemaIdHeader b).Safe
  detection : (detectWireFormat b).Safe
  prefixLen : ∀ key n, decodeWirePrefix b = .ok (key, n) → n ≤ b.length
  consumed : ∀ idx n, decodeProtobufMessageIndexes b = .ok (idx, n) → n ≤ b.length
  path : ∀ idx n, decodeProtobufMessageIndexes b = .ok (idx, n) →
    1 ≤ idx.length ∧ idx.length ≤ 512
  headerPath : ∀ key idx, decodeSchemaIdHeader b = .ok (key, some idx) →
    1 ≤ idx.length ∧ idx.length ≤ 512
  confluentOffset : ∀ key off, detectWireFormat b = .ok (.confluent key off) → off ≤ b.length
  glueOffset : ∀ id c off, detectWireFormat b = .ok (.glue id c off) → off ≤ b.length

theorem prefixLen_le {key : SchemaKey} {n : Nat} (h : decodeWirePrefix b = .ok (key, n)) :
    n ≤ b.length := by
  obtain ⟨rfl, rest, rfl⟩ := decodeWirePrefix_eq_ok.mp h
  rw [List.length_append]
  omega

theorem headerPath_bounds {key : SchemaKey} {idx : List UInt32}
    (h : decodeSchemaIdHeader b = .ok (key, some idx)) : 1 ≤ idx.length ∧ idx.length ≤ 512 := by
  obtain ⟨rest, -, ⟨-, hnone⟩ | ⟨-, idx', hpath, hidx⟩⟩ := decodeSchemaIdHeader_eq_ok.mp h
  · cases hnone
  · cases hpath
    exact (decodeIndexes_bounds hidx).2

/-- The four decoders keep their promise exactly where none comes to an extreme varint. -/
theorem decodersSafe_iff (b : Bytes) :
    DecodersSafe b ↔ ¬ (HasExtreme b ∨ HasExtremeAfterPrefix b) := by
  constructor
  · rintro hsafe (hext | hext)
    · exact decodeIndexes_safe.mp hsafe.messageIndexes hext
    · exact decodeSchemaIdHeader_safe.mp hsafe.schemaIdHeader hext
  · intro hnot
    obtain ⟨hindexes, hheader⟩ := not_or.mp hnot
    exact
      { wirePrefix := decodeWirePrefix_safe b
        messageIndexes := decodeIndexes_safe.mpr hindexes
        schemaIdHeader := decodeSchemaIdHeader_safe.mpr hheader
        detection := detectWireFormat_safe b
        prefixLen := fun _ _ hok => prefixLen_le hok
        consumed := fun _ _ hok => (decodeIndexes_bounds hok).1
        path := fun _ _ hok => (decodeIndexes_bounds hok).2
        headerPath := fun _ _ hok => headerPath_bounds hok
        confluentOffset := by
          intro key off hok
          obtain ⟨rfl, rest, rfl⟩ := detect_confluent_iff.mp hok
          rw [List.length_append]
          omega
        glueOffset := by
          intro id c off hok
          obtain ⟨rfl, rest, rfl⟩ := detect_glue_iff.mp hok
          rw [List.length_append, Glue.length_header]
          omega }

/-- Nine bytes `0xFF` and a byte `0x01`: the count is `u64::MAX`, and its error panics. -/
theorem extreme_count_panics : ¬ DecodersSafe (List.replicate 9 0xFF ++ [0x01]) := by
  have hpanic : decodeProtobufMessageIndexes (List.replicate 9 0xFF ++ [0x01]) =
      .panic .overflow := by decide +kernel
  intro hsafe
  exact hsafe.messageIndexes _ hpanic

end Schemreg.Wire
