import Schemreg.Wire.Prefix
import Schemreg.Wire.MessageIndexes

/-
  The value of a schema-id header.

  `decode_schema_id_header` accepts the prefix of a key alone, or with a message-index array
  that ends where the value ends (`decodeSchemaIdHeader_eq_ok`). It panics where its
  message-index decoder does (`decodeSchemaIdHeader_safe`).
-/

namespace Schemreg.Wire

open Checked

variable {key : SchemaKey} {rest : Bytes} {path : Option (List UInt32)}

/-- What follows the prefix in `decode_schema_id_header`. -/
def afterPrefix (key : SchemaKey) (rest : Bytes) :
    Decoding (SchemaKey × Option (List UInt32)) := do
  let (indexes, consumed) ← decodeProtobufMessageIndexes rest
  if consumed ≠ rest.length then do
    let trailing ← subUsize rest.length consumed
    .err (.wireFormat ("schema-id header has " ++ toString trailing ++
      " trailing byte(s) after the message-index array — the header must contain the " ++
      "identifier and nothing else"))
  else .ok (key, some indexes)

theorem decodeSchemaIdHeader_append (key : SchemaKey) (rest : Bytes) :
    decodeSchemaIdHeader (putPrefix key ++ rest) =
      if rest.isEmpty then .ok (key, none) else afterPrefix key rest := by
  unfold decodeSchemaIdHeader
  rw [decodeWirePrefix_append, Outcome.bind_ok]
  dsimp only
  rw [sliceFrom_putPrefix]
  rfl

/-- A value without the prefix of a key is refused. -/
theorem decodeSchemaIdHeader_cases (value : Bytes) :
    (∃ key rest, value = putPrefix key ++ rest) ∨ (decodeSchemaIdHeader value).IsErr := by
  rcases decodeWirePrefix_cases value with ⟨key, rest, -, hdata⟩ | ⟨e, herr⟩
  · exact Or.inl ⟨key, rest, hdata⟩
  · refine Or.inr ⟨e, ?_⟩
    unfold decodeSchemaIdHeader
    rw [herr]
    rfl

/-- The array, parsed to the end of the value or not. -/
theorem afterPrefix_of_ok {idx : List UInt32} {n : Nat}
    (h : decodeProtobufMessageIndexes rest = .ok (idx, n)) :
    (n = rest.length → afterPrefix key rest = .ok (key, some idx)) ∧
    (n ≠ rest.length → (afterPrefix key rest).IsErr) := by
  have hle := (decodeIndexes_bounds h).1
  unfold afterPrefix
  rw [h, Outcome.bind_ok]
  dsimp only
  constructor
  · intro hend
    rw [if_neg (not_not.mpr hend)]
  · intro hmore
    rw [if_pos hmore, subUsize_of_le hle]
    exact ⟨_, rfl⟩

theorem afterPrefix_eq_ok {key' : SchemaKey} : afterPrefix key rest = .ok (key', path) ↔
    key' = key ∧ ∃ idx, path = some idx ∧
      decodeProtobufMessageIndexes rest = .ok (idx, rest.length) := by
  constructor
  · intro hok
    obtain ⟨⟨idx, n⟩, hidx, -⟩ := Outcome.bind_eq_ok.mp hok
    obtain ⟨hend, hmore⟩ := @afterPrefix_of_ok key rest idx n hidx
    by_cases hn : n = rest.length
    · rw [hend hn] at hok
      cases hok
      exact ⟨rfl, idx, rfl, hn ▸ hidx⟩
    · exact absurd ⟨_, hok⟩ (hmore hn).not_isOk
  · rintro ⟨rfl, idx, rfl, hidx⟩
    exact (afterPrefix_of_ok hidx).1 rfl

theorem afterPrefix_safe : (afterPrefix key rest).Safe ↔ ¬ HasExtreme rest := by
  rw [← decodeIndexes_safe]
  constructor
  · intro hsafe
    exact (Outcome.safe_bind.mp hsafe).1
  · intro hsafe
    refine Outcome.safe_bind.mpr ⟨hsafe, ?_⟩
    rintro ⟨idx, n⟩ hidx
    have hle := (decodeIndexes_bounds hidx).1
    dsimp only
    split
    · rw [subUsize_of_le hle]
      exact Outcome.safe_err _
    · exact Outcome.safe_ok _

/-- `decode_schema_id_header` accepts a prefix alone, or a prefix and one whole array. -/
theorem decodeSchemaIdHeader_eq_ok {value : Bytes} :
    decodeSchemaIdHeader value = .ok (key, path) ↔
      ∃ rest, value = putPrefix key ++ rest ∧
        ((rest = [] ∧ path = none) ∨ (rest ≠ [] ∧ ∃ idx, path = some idx ∧
          decodeProtobufMessageIndexes rest = .ok (idx, rest.length))) := by
  constructor
  · intro hok
    rcases decodeSchemaIdHeader_cases value with ⟨key', rest, rfl⟩ | herr
    · rw [decodeSchemaIdHeader_append] at hok
      by_cases hnil : rest = []
      · subst hnil
        cases hok
        exact ⟨[], rfl, Or.inl ⟨rfl, rfl⟩⟩
      · rw [if_neg (by simpa using hnil)] at hok
        obtain ⟨rfl, hidx⟩ := afterPrefix_eq_ok.mp hok
        exact ⟨rest, rfl, Or.inr ⟨hnil, hidx⟩⟩
    · exact absurd ⟨_, hok⟩ herr.not_isOk
  · rintro ⟨rest, rfl, ⟨rfl, rfl⟩ | ⟨hnil, hidx⟩⟩
    · rw [decodeSchemaIdHeader_append]
      rfl
    · rw [decodeSchemaIdHeader_append, if_neg (by simpa using hnil)]
      exact afterPrefix_eq_ok.mpr ⟨rfl, hidx⟩

/-- The prefix of some key, followed by a message-index array with an extreme group. -/
def HasExtremeAfterPrefix (value : Bytes) : Prop :=
  ∃ key rest, value = putPrefix key ++ rest ∧ HasExtreme rest

theorem not_hasExtreme_nil : ¬ HasExtreme [] := id

theorem decodeSchemaIdHeader_safe {value : Bytes} :
    (decodeSchemaIdHeader value).Safe ↔ ¬ HasExtremeAfterPrefix value := by
  rcases decodeSchemaIdHeader_cases value with ⟨key, rest, rfl⟩ | herr
  · have hafter : HasExtremeAfterPrefix (putPrefix key ++ rest) ↔ HasExtreme rest := by
      constructor
      · rintro ⟨key', rest', hdata, hext⟩
        rwa [(putPrefix_append_inj hdata).2]
      · intro hext
        exact ⟨key, rest, rfl, hext⟩
    rw [hafter, decodeSchemaIdHeader_append]
    by_cases hnil : rest = []
    · subst hnil
      exact iff_of_true (Outcome.safe_ok _) not_hasExtreme_nil
    · rw [if_neg (by simpa using hnil), afterPrefix_safe]
  · obtain ⟨e, he⟩ := herr
    rw [he]
    refine iff_of_true (Outcome.safe_err _) ?_
    rintro ⟨key, rest, rfl, hext⟩
    have hnil : rest ≠ [] := fun hnil => not_hasExtreme_nil (hnil ▸ hext)
    rw [decodeSchemaIdHeader_append, if_neg (by simpa using hnil)] at he
    have hsafe := (@afterPrefix_safe key rest).mp (he ▸ Outcome.safe_err e)
    exact hsafe hext

end Schemreg.Wire
