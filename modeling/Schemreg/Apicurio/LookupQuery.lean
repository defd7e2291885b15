import Schemreg.Apicurio.PathSegments
import Schemreg.Lib.FormUrlencoded

/-
  What the query string of `lookup_schema_impl` asks for.

  The group and the artifact are written with the encoder of path segments, which leaves `&` and
  `+` as they are. A server that reads the query as a form sees the text up to the first `&`,
  with blanks for `+` (`value_read`), and so the caller's artifact exactly if neither the group
  nor the name has one of the two (`lookup_query_exact_iff`).
-/

namespace Schemreg.Apicurio

open Utf8 FormUrlencoded

/-- The query string of `lookup_schema_impl`. -/
def lookupQuery (schemaType : SchemaType) (id : ArtifactId) : String :=
  "canonical=false&artifactType=" ++ schemaType.asStr ++ "&groupId=" ++ percentEncode id.group ++
    "&artifactId=" ++ percentEncode id.artifact ++ "&limit=1"

/-- What the query is meant to ask for. -/
def lookupParameters (schemaType : SchemaType) (id : ArtifactId) :
    List (List UInt8 × List UInt8) :=
  [("canonical", "false"), ("artifactType", schemaType.asStr), ("groupId", id.group),
    ("artifactId", id.artifact), ("limit", "1")].map fun (name, value) =>
      (toUtf8 name, toUtf8 value)

/-- Some bytes of a path segment, encoded. -/
def encodeBytes (bytes : List UInt8) : List UInt8 :=
  (bytes.flatMap percentEncodeByte).flatMap String.utf8EncodeChar

theorem toUtf8_percentEncode (s : String) : toUtf8 (percentEncode s) = encodeBytes (toUtf8 s) := by
  show (percentEncode s).toList.flatMap String.utf8EncodeChar = _
  unfold percentEncode
  rw [String.toList_ofList]
  rfl

/-! ## One encoded byte -/

theorem upperHexDigit_safe : ∀ n < 16, UInt8.ofNat (upperHexDigit n).toNat ≠ 0x26 ∧
    UInt8.ofNat (upperHexDigit n).toNat ≠ 0x2B := by decide

/-- The byte as it is, or an escape without separators. The escape never stands for `&` or `+`,
    which are written as they are. -/
theorem encodeByte_cases (b : UInt8) :
    ((percentEncodeByte b).flatMap String.utf8EncodeChar = [b]) ∨
      (b ≠ 0x26 ∧ b ≠ 0x2B ∧ ∀ x ∈ (percentEncodeByte b).flatMap String.utf8EncodeChar,
        x ≠ 0x26 ∧ x ≠ 0x2B) := by
  have hascii := utf8_percentEncodeByte b
  unfold percentEncodeByte at hascii ⊢
  split
  · rename_i h
    rw [if_pos h] at hascii
    refine Or.inr ⟨?_, ?_, ?_⟩
    · rintro rfl
      exact absurd h (by decide)
    · rintro rfl
      exact absurd h (by decide)
    · obtain ⟨hhigh, hlow⟩ := nibbles_lt b
      rw [List.flatMap_cons, List.flatMap_cons, List.flatMap_cons, hascii _ (by simp),
        hascii _ (by simp), hascii _ (by simp)]
      intro x hx
      simp only [List.flatMap_nil, List.append_nil, List.cons_append, List.nil_append,
        List.mem_cons, List.not_mem_nil, or_false] at hx
      rcases hx with rfl | rfl | rfl
      · decide
      · exact upperHexDigit_safe _ hhigh
      · exact upperHexDigit_safe _ hlow
  · rename_i h
    rw [if_neg h] at hascii
    rw [List.flatMap_cons, hascii _ (by simp), toNat_ofNat_byte, UInt8.ofNat_toNat]
    exact Or.inl rfl

theorem encodeBytes_cons (b : UInt8) (bytes : List UInt8) : encodeBytes (b :: bytes) =
    (percentEncodeByte b).flatMap String.utf8EncodeChar ++ encodeBytes bytes := by
  unfold encodeBytes
  rw [List.flatMap_cons, List.flatMap_append]

/-- The encoder keeps the first `&` where it is. -/
theorem takeWhile_encodeBytes (bytes : List UInt8) :
    (encodeBytes bytes).takeWhile (· ≠ 0x26) = encodeBytes (bytes.takeWhile (· ≠ 0x26)) := by
  induction bytes with
  | nil => rfl
  | cons b bytes ih =>
    rw [encodeBytes_cons]
    by_cases hb : b = 0x26
    · subst hb
      rfl
    · have hfree : ∀ x ∈ (percentEncodeByte b).flatMap String.utf8EncodeChar,
          decide (x ≠ 0x26) = true := by
        intro x hx
        obtain hself | ⟨-, -, hsafe⟩ := encodeByte_cases b
        · rw [hself, List.mem_singleton] at hx
          simpa [hx] using hb
        · simpa using (hsafe x hx).1
      rw [List.takeWhile_append_of_pos hfree, ih, List.takeWhile_cons_of_pos (by simpa using hb),
        encodeBytes_cons]

theorem takeWhile_of_not_mem {bytes : List UInt8} (h : 0x26 ∉ bytes) :
    bytes.takeWhile (· ≠ 0x26) = bytes := by
  rw [List.takeWhile_eq_self_iff]
  intro b hb
  have hne : b ≠ 0x26 := fun heq => h (heq ▸ hb)
  simpa using hne

theorem ampersand_not_mem_encodeBytes {bytes : List UInt8} (h : 0x26 ∉ bytes) :
    0x26 ∉ encodeBytes bytes := by
  intro hmem
  have htake := takeWhile_encodeBytes bytes
  rw [takeWhile_of_not_mem h] at htake
  rw [← htake] at hmem
  exact absurd (List.mem_takeWhile_imp hmem) (by simp)

theorem plusToBlank_of_not_mem {bytes : List UInt8} (h : 0x2B ∉ bytes) :
    bytes.map plusToBlank = bytes := by
  conv => rhs; rw [← List.map_id bytes]
  refine List.map_congr_left ?_
  intro b hb
  exact if_neg fun heq : b = 0x2B => h (heq ▸ hb)

/-- What a form makes of encoded bytes: a blank for every `+`. -/
theorem decode_encodeBytes (bytes : List UInt8) :
    percentDecode ((encodeBytes bytes).map plusToBlank) = bytes.map plusToBlank := by
  induction bytes with
  | nil => rw [encodeBytes, List.flatMap_nil, List.flatMap_nil, List.map_nil, percentDecode]
  | cons b bytes ih =>
    rw [encodeBytes_cons, List.map_append, List.map_cons, ← ih]
    by_cases hplus : b = 0x2B
    · subst hplus
      exact percentDecode_cons_ne (by decide) _
    · have hself : plusToBlank b = b := if_neg hplus
      have hmap : ((percentEncodeByte b).flatMap String.utf8EncodeChar).map plusToBlank =
          (percentEncodeByte b).flatMap String.utf8EncodeChar := by
        obtain hone | ⟨-, -, hsafe⟩ := encodeByte_cases b
        · rw [hone, List.map_singleton, hself]
        · exact plusToBlank_of_not_mem fun hmem => (hsafe _ hmem).2 rfl
      rw [hmap, percentDecode_percentEncodeByte, hself]

/-! ## The query -/

/-- A form has the bytes back exactly if neither `&` nor `+` is one of them. -/
theorem value_read {bytes : List UInt8} :
    percentDecode (((encodeBytes bytes).takeWhile (· ≠ 0x26)).map plusToBlank) = bytes ↔
      0x26 ∉ bytes ∧ 0x2B ∉ bytes := by
  rw [takeWhile_encodeBytes, decode_encodeBytes]
  constructor
  · intro h
    have hlen := congrArg List.length h
    rw [List.length_map] at hlen
    have htake : bytes.takeWhile (· ≠ 0x26) = bytes :=
      (List.takeWhile_prefix _).eq_of_length hlen
    rw [htake] at h
    constructor
    · intro hmem
      rw [← htake] at hmem
      exact absurd (List.mem_takeWhile_imp hmem) (by simp)
    · intro hmem
      rw [← h, List.mem_map] at hmem
      obtain ⟨b, -, hb⟩ := hmem
      unfold plusToBlank at hb
      split at hb
      · cases hb
      · exact absurd hb (by assumption)
  · rintro ⟨hamp, hplus⟩
    rw [takeWhile_of_not_mem hamp, plusToBlank_of_not_mem hplus]

/-- A parameter of the query, with its value as it is written. -/
def parameter (name : String) (value : List UInt8) : List UInt8 := toUtf8 name ++ 0x3D :: value

/-- A text that a form reads as it is. -/
def Literal (s : String) : Prop :=
  0x3D ∉ toUtf8 s ∧ 0x26 ∉ toUtf8 s ∧ 0x2B ∉ toUtf8 s ∧ 0x25 ∉ toUtf8 s

instance (s : String) : Decidable (Literal s) := inferInstanceAs (Decidable (_ ∧ _ ∧ _ ∧ _))

theorem Literal.decode {s : String} (h : Literal s) :
    percentDecode ((toUtf8 s).map plusToBlank) = toUtf8 s := by
  rw [plusToBlank_of_not_mem h.2.2.1, percentDecode_of_plain h.2.2.2]

theorem Literal.of_all {s : String} (h : s.toList.all fun c => c ∉ ['=', '&', '+', '%']) :
    Literal s := by
  have hnot : ∀ c : Char, c.toNat < 0x80 → c ∈ ['=', '&', '+', '%'] →
      UInt8.ofNat c.toNat ∉ toUtf8 s := by
    intro c hascii hc hmem
    exact of_decide_eq_true (List.all_eq_true.mp h c ((mem_toUtf8 hascii).mp hmem)) hc
  exact ⟨hnot '=' (by decide) (by decide), hnot '&' (by decide) (by decide),
    hnot '+' (by decide) (by decide), hnot '%' (by decide) (by decide)⟩

theorem literal_asStr (schemaType : SchemaType) : Literal schemaType.asStr := by
  cases schemaType <;> exact Literal.of_all (by decide)

/-- What a form makes of a parameter, the value up to its first `&`, and of the rest. -/
theorem parse_parameter {name : String} (hname : Literal name) (value : List UInt8) :
    ∃ more, parse percentDecode (parameter name value) =
      (toUtf8 name, percentDecode ((value.takeWhile (· ≠ 0x26)).map plusToBlank)) :: more ∧
        (0x26 ∉ value → more = []) := by
  obtain ⟨more, hparse, hmore⟩ := parse_pair percentDecode hname.1 hname.2.1 value
  rw [hname.decode] at hparse
  exact ⟨more, hparse, hmore⟩

theorem parse_literal {name value : String} (hname : Literal name) (hvalue : Literal value) :
    parse percentDecode (parameter name (toUtf8 value)) = [(toUtf8 name, toUtf8 value)] := by
  obtain ⟨more, hparse, hmore⟩ := parse_parameter hname (toUtf8 value)
  rw [hparse, hmore hvalue.2.1, takeWhile_of_not_mem hvalue.2.1, hvalue.decode]

theorem lookupQuery_bytes (schemaType : SchemaType) (id : ArtifactId) :
    toUtf8 (lookupQuery schemaType id) =
      parameter "canonical" (toUtf8 "false") ++ 0x26 ::
        (parameter "artifactType" (toUtf8 schemaType.asStr) ++ 0x26 ::
          (parameter "groupId" (encodeBytes (toUtf8 id.group)) ++ 0x26 ::
            (parameter "artifactId" (encodeBytes (toUtf8 id.artifact)) ++ 0x26 ::
              parameter "limit" (toUtf8 "1")))) := by
  have htype : toUtf8 "canonical=false&artifactType=" =
      parameter "canonical" (toUtf8 "false") ++ 0x26 :: (toUtf8 "artifactType" ++ [0x3D]) := by
    decide +kernel
  have hgroup : toUtf8 "&groupId=" = 0x26 :: (toUtf8 "groupId" ++ [0x3D]) := by decide +kernel
  have hartifact : toUtf8 "&artifactId=" = 0x26 :: (toUtf8 "artifactId" ++ [0x3D]) := by
    decide +kernel
  have hlimit : toUtf8 "&limit=1" = 0x26 :: parameter "limit" (toUtf8 "1") := by decide +kernel
  unfold lookupQuery
  simp only [toUtf8_append, toUtf8_percentEncode, htype, hgroup, hartifact, hlimit]
  simp only [parameter, List.append_assoc, List.cons_append, List.nil_append]

/-- A text without the two characters that the encoder leaves to the form. -/
def FormSafe (s : String) : Prop := '&' ∉ s.toList ∧ '+' ∉ s.toList

theorem formSafe_iff (s : String) : FormSafe s ↔ 0x26 ∉ toUtf8 s ∧ 0x2B ∉ toUtf8 s := by
  have hamp := @mem_toUtf8 s '&' (by decide)
  have hplus := @mem_toUtf8 s '+' (by decide)
  unfold FormSafe
  rw [← hamp, ← hplus]
  rfl

/-- The expected parameters have the names of the artifact once each. -/
theorem mem_lookupParameters {schemaType : SchemaType} {id : ArtifactId} {value : List UInt8} :
    ((toUtf8 "groupId", value) ∈ lookupParameters schemaType id → value = toUtf8 id.group) ∧
    ((toUtf8 "artifactId", value) ∈ lookupParameters schemaType id →
      value = toUtf8 id.artifact) := by
  have hentry : ∀ name, (toUtf8 name, value) ∈ lookupParameters schemaType id → ∃ text,
      (name, text) ∈ [("canonical", "false"), ("artifactType", schemaType.asStr),
        ("groupId", id.group), ("artifactId", id.artifact), ("limit", "1")] ∧
      value = toUtf8 text := by
    intro name hmem
    obtain ⟨⟨name', text⟩, hentry, heq⟩ := List.mem_map.mp hmem
    obtain rfl : name' = name := toUtf8_injective (congrArg Prod.fst heq)
    exact ⟨text, hentry, (congrArg Prod.snd heq).symm⟩
  constructor
  · intro hmem
    obtain ⟨text, hlisted, rfl⟩ := hentry "groupId" hmem
    have htext : text = id.group := by simpa using hlisted
    rw [htext]
  · intro hmem
    obtain ⟨text, hlisted, rfl⟩ := hentry "artifactId" hmem
    have htext : text = id.artifact := by simpa using hlisted
    rw [htext]

/-- The query asks for the caller's artifact, and for nothing else, exactly if neither the group
    nor the name has a `&` or a `+`. -/
theorem lookup_query_exact_iff (schemaType : SchemaType) (id : ArtifactId) :
    (parse percentDecode (toUtf8 (lookupQuery schemaType id))).Perm
        (lookupParameters schemaType id) ↔
      FormSafe id.group ∧ FormSafe id.artifact := by
  have hcanonical : Literal "canonical" := Literal.of_all (by decide)
  have htype : Literal "artifactType" := Literal.of_all (by decide)
  have hgroup : Literal "groupId" := Literal.of_all (by decide)
  have hartifact : Literal "artifactId" := Literal.of_all (by decide)
  have hlimit : Literal "limit" := Literal.of_all (by decide)
  obtain ⟨moreGroup, hparseGroup, hgroupEnd⟩ :=
    parse_parameter hgroup (encodeBytes (toUtf8 id.group))
  obtain ⟨moreArtifact, hparseArtifact, hartifactEnd⟩ :=
    parse_parameter hartifact (encodeBytes (toUtf8 id.artifact))
  rw [lookupQuery_bytes, parse_append, parse_append, parse_append, parse_append,
    parse_literal hcanonical (Literal.of_all (by decide)),
    parse_literal htype (literal_asStr schemaType),
    parse_literal hlimit (Literal.of_all (by decide)), hparseGroup, hparseArtifact, formSafe_iff,
    formSafe_iff, ← value_read, ← value_read]
  constructor
  · intro hperm
    exact ⟨mem_lookupParameters.1 (hperm.subset (by simp)),
      mem_lookupParameters.2 (hperm.subset (by simp))⟩
  · rintro ⟨hg, ha⟩
    rw [hgroupEnd (ampersand_not_mem_encodeBytes (value_read.mp hg).1),
      hartifactEnd (ampersand_not_mem_encodeBytes (value_read.mp ha).1), hg, ha]
    exact List.Perm.refl _

/-- The subject `orders+value` is looked up as the artifact `orders value`. -/
theorem plus_in_name :
    ¬ ∀ (schemaType : SchemaType) (subject : String) (id : ArtifactId),
      artifactId subject = .ok id →
      (parse percentDecode (toUtf8 (lookupQuery schemaType id))).Perm
        (lookupParameters schemaType id) := by
  intro h
  have hid : artifactId "orders+value" = .ok ⟨"default", "orders+value"⟩ := by decide +kernel
  have hread : (toUtf8 "artifactId", toUtf8 "orders value") ∈
      parse percentDecode (toUtf8 (lookupQuery .avro ⟨"default", "orders+value"⟩)) := by
    decide +kernel
  have hmem := (h .avro "orders+value" _ hid).subset hread
  exact absurd (toUtf8_injective (mem_lookupParameters.2 hmem)) (by decide)

end Schemreg.Apicurio
