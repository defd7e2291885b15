import Schemreg.Apicurio.Identity
import Schemreg.Apicurio.LatestVersion

/-
  Version numbers, from what the server reports to the version that a request addresses.

  A version arrives as a JSON number or as a string. The number route takes what fits `i64` and
  keeps its lower 32 bits, the string route takes what fits `i32`; both feed a signed type whose
  negative values mean the latest version. A reported integer `k` goes through unaltered exactly
  if it is in `0..2^31` and written as `k` is printed, or else is outside `i64`, where both
  routes refuse it (`version_numbers_iff`).
-/

namespace Schemreg.Apicurio

/-- The integer that a JSON number is, as far as `serde_json` keeps it exactly. -/
def Number.integer : Number → Option Int
  | .posInt n => some n.toNat
  | .negInt n => some n.toInt
  | .float => none

/-- The integer that a text denotes: decimal digits behind an optional sign. -/
def integerOf (s : String) : Option Int :=
  match s.toList with
  | '-' :: cs => (digits cs).map fun n => -(n : Int)
  | '+' :: cs => (digits cs).map fun n => (n : Int)
  | cs => (digits cs).map fun n => (n : Int)

/-- The integer that a reported version is. -/
def reported : Value → Option Int
  | .string s => integerOf s
  | .number n => n.integer
  | .other => none

/-- The name of the version that the server reports. -/
def reportedName : Value → Option String
  | .string s => some s
  | .number n => n.integer.map toString
  | .other => none

/-- The versions that the client derives from a reported one. -/
inductive Derives (v : Value) : SchemaVersion → Prop where
  /-- `version_schema`. -/
  | version {metaData : VersionMetaData} {content : HttpResponse} {asked : String}
      {schema : Schema} {version : SchemaVersion} (hv : metaData.version = some v)
      (hschema : combine metaData content asked = .ok schema)
      (hversion : schema.version = some version) : Derives v version
  /-- `lookup_schema_impl`. -/
  | lookup {hit : VersionMetaData} {hits : List VersionMetaData} {asked text : String}
      {schemaType : SchemaType} {schema : Schema} {version : SchemaVersion}
      (hv : hit.version = some v)
      (hschema : schemaOfHit asked text schemaType (hit :: hits) = .ok (some schema))
      (hversion : schema.version = some version) : Derives v version
  /-- `list_versions`. -/
  | listed {version : SchemaVersion} (hversion : version ∈ versionsOf [some v]) :
      Derives v version

variable {v w : Value} {version : SchemaVersion} {k : Int}

/-- The three places derive what `parse_version` gives. -/
theorem derives_iff : Derives v version ↔ parseVersion v = some version := by
  have hlisted : versionsOf [some v] = (parseVersion v).toList := by
    unfold versionsOf
    rw [List.filterMap_cons, Option.bind_some]
    cases parseVersion v <;> rfl
  constructor
  · intro h
    cases h with
    | version hv hschema hversion =>
      rw [(combine_ok hschema).2.1, hv] at hversion
      exact hversion
    | lookup hv hschema hversion =>
      rw [(schemaOfHit_parts hschema).2, hv] at hversion
      exact hversion
    | listed hversion =>
      rw [hlisted] at hversion
      exact Option.mem_toList.mp hversion
  · intro h
    refine Derives.listed ?_
    rw [hlisted, h]
    exact List.mem_singleton_self _

/-! ## The two routes -/

theorem parseI32_eq (s : String) : parseI32 s = (integerOf s).bind fun k =>
    if -2147483648 ≤ k ∧ k ≤ 2147483647 then some (Int32.ofInt k) else none := by
  unfold parseI32 integerOf
  cases s.toList with
  | nil => rfl
  | cons c cs =>
    by_cases hminus : c = '-'
    · subst hminus
      rfl
    by_cases hplus : c = '+'
    · subst hplus
      rfl
    · simp only [List.cons.injEq, hminus, hplus, false_and, imp_self, implies_true]
      rfl

/-- The string route takes what fits `i32`. -/
theorem parse_string {s : String} (h : integerOf s = some k) : parseVersion (.string s) =
    if -2147483648 ≤ k ∧ k ≤ 2147483647 then some ⟨Int32.ofInt k⟩ else none := by
  show (parseI32 s).map SchemaVersion.mk = _
  rw [parseI32_eq, h, Option.bind_some]
  split <;> rfl

theorem int64_toInt32 (n : Int64) : n.toInt32 = Int32.ofInt n.toInt := by
  rw [← Int64.toInt32_ofInt, Int64.ofInt_toInt]

/-- The number route takes what fits `i64`. -/
theorem parse_number {n : Number} (h : n.integer = some k) : parseVersion (.number n) =
    if k < 2 ^ 63 then some ⟨Int32.ofInt k⟩ else none := by
  cases n with
  | posInt m =>
    cases h
    show (if m ≤ 0x7FFFFFFFFFFFFFFF then some m.toInt64 else none).map _ = _
    have hle : m ≤ 0x7FFFFFFFFFFFFFFF ↔ (m.toNat : Int) < 2 ^ 63 := by
      rw [UInt64.le_iff_toNat_le]
      show m.toNat ≤ 0x7FFFFFFFFFFFFFFF ↔ _
      omega
    by_cases hm : (m.toNat : Int) < 2 ^ 63
    · rw [if_pos (hle.mpr hm), if_pos hm]
      have hint : m.toInt64.toInt = m.toNat := by
        rw [← UInt64.ofNat_toNat (x := m), UInt64.toInt64_ofNat',
          Int64.toInt_ofNat_of_lt (by omega), UInt64.ofNat_toNat]
      rw [Option.map_some, int64_toInt32, hint]
    · rw [if_neg (fun h => hm (hle.mp h)), if_neg hm]
      rfl
  | negInt m =>
    cases h
    have hlt : m.toInt < 2 ^ 63 := m.toInt_lt
    rw [if_pos hlt, ← int64_toInt32]
    rfl
  | float => cases h

theorem number_range {n : Number} (h : n.integer = some k) : -2 ^ 63 ≤ k ∧ k < 2 ^ 64 := by
  cases n with
  | posInt m =>
    cases h
    have := m.toNat_lt
    omega
  | negInt m =>
    cases h
    have hlow : -2 ^ 63 ≤ m.toInt := m.le_toInt
    have hhigh : m.toInt < 2 ^ 63 := m.toInt_lt
    omega
  | float => cases h

/-- Every 64-bit integer has a number form. -/
theorem exists_number (hlow : -2 ^ 63 ≤ k) (hhigh : k < 2 ^ 63) :
    ∃ n : Number, n.integer = some k :=
  ⟨.negInt (Int64.ofInt k), by rw [Number.integer, Int64.toInt_ofInt_of_le hlow hhigh]⟩

/-- Within `i32` both routes keep the integer. -/
theorem parse_of_range (h : reported v = some k) (hlow : -2147483648 ≤ k) (hhigh : k < 2147483648) :
    parseVersion v = some ⟨Int32.ofInt k⟩ := by
  cases v with
  | string s => rw [parse_string h, if_pos ⟨hlow, by omega⟩]
  | number n => rw [parse_number h, if_pos (by omega)]
  | other => cases h

/-- Outside `i64` both routes refuse it. -/
theorem parse_outside (h : reported v = some k) (hout : k < -2 ^ 63 ∨ 2 ^ 63 ≤ k) :
    parseVersion v = none := by
  cases v with
  | string s => rw [parse_string h, if_neg (by omega)]
  | number n =>
    have := number_range h
    rw [parse_number h, if_neg (by omega)]
  | other => cases h

theorem parse_of_reported_none (h : reported v = none) : parseVersion v = none := by
  cases v with
  | string s =>
    have hnone : integerOf s = none := h
    show (parseI32 s).map SchemaVersion.mk = _
    rw [parseI32_eq, hnone]
    rfl
  | number n =>
    cases n with
    | posInt m => cases h
    | negInt m => cases h
    | float => rfl
  | other => rfl

/-! ## What a version addresses -/

/-- Deleting a version and getting it name the version `name` to the server. -/
def Addresses (version : SchemaVersion) (name : String) : Prop :=
  ∀ subject id, artifactId subject = .ok id →
    (∀ serde, ∃ next, deleteVersion serde subject version = .send (.deleteVersion id name) next) ∧
    ∀ client : ApicurioSchemaRegistry,
      client.getSchemaByVersion subject version = client.versionSchema id name subject

theorem addresses_iff {name : String} :
    Addresses version name ↔ versionExpression version = name := by
  have hsends : ∀ serde subject id, artifactId subject = .ok id →
      ∃ next, deleteVersion serde subject version =
        .send (.deleteVersion id (versionExpression version)) next := by
    intro serde subject id hid
    unfold deleteVersion
    rw [hid]
    exact ⟨_, rfl⟩
  constructor
  · intro h
    have hid : artifactId "orders" = .ok ⟨"default", "orders"⟩ := by decide +kernel
    have serde : OperationSerde := ⟨⟨fun _ => .error "", fun _ => none⟩, fun _ => .error "",
      fun _ => .error "", fun _ => .error "", fun _ => .error ""⟩
    obtain ⟨next, hnext⟩ := (h "orders" _ hid).1 serde
    obtain ⟨next', hnext'⟩ := hsends serde "orders" _ hid
    rw [hnext'] at hnext
    cases hnext
    rfl
  · rintro rfl subject id hid
    refine ⟨fun serde => hsends serde subject id hid, fun client => ?_⟩
    unfold ApicurioSchemaRegistry.getSchemaByVersion
    rw [hid]
    rfl

theorem expression_of_nonneg (hlow : 0 ≤ k) (hhigh : k < 2147483648) :
    versionExpression ⟨Int32.ofInt k⟩ = toString k := by
  have hint : (Int32.ofInt k).toInt = k := Int32.toInt_ofInt_of_le (by omega) hhigh
  unfold versionExpression
  dsimp only
  rw [hint, if_neg (by omega)]

theorem letter_not_mem_toString (k : Int) : 'b' ∉ (toString k).toList := by
  cases k with
  | ofNat n => exact not_mem_repr rfl n
  | negSucc n =>
    show 'b' ∉ ("-" ++ (n + 1).repr).toList
    rw [String.toList_append]
    intro h
    rcases List.mem_append.mp h with hminus | hdigits
    · exact absurd hminus (by decide)
    · exact not_mem_repr rfl _ hdigits

/-- No version that is reported as an integer has the name of the latest one. -/
theorem name_ne_latest (h : reported v = some k) :
    reportedName v ≠ some latestVersionExpression := by
  intro hname
  cases v with
  | string s =>
    cases hname
    have hnone : integerOf latestVersionExpression = none := by decide
    have hsome : integerOf latestVersionExpression = some k := h
    rw [hnone] at hsome
    cases hsome
  | number n =>
    have hinteger : n.integer = some k := h
    have hmap : n.integer.map toString = some latestVersionExpression := hname
    rw [hinteger] at hmap
    have hletter := letter_not_mem_toString k
    rw [Option.some.inj hmap] at hletter
    exact hletter (by decide)
  | other => cases h

/-! ## Unaltered numbers -/

/-- A global id is taken exactly if it fits the wire format, and is kept. -/
theorem globalId_eq_ok {globalId : Int64} {id : SchemaId} :
    globalIdToSchemaId globalId = .ok id ↔
      0 ≤ globalId.toInt ∧ globalId.toInt < 2 ^ 32 ∧ globalId.toInt = id.asU32.toNat := by
  constructor
  · intro h
    obtain ⟨hnonneg, hnat⟩ := toNat_of_globalId h
    have hlt := id.asU32.toNat_lt
    omega
  · rintro ⟨hlow, hhigh, hid⟩
    obtain ⟨id', hid'⟩ : ∃ id', globalIdToSchemaId globalId = .ok id' :=
      ⟨_, if_neg (by omega)⟩
    obtain ⟨-, hnat⟩ := toNat_of_globalId hid'
    have hsame : id' = id := by
      have hword : id'.asU32 = id.asU32 := UInt32.toNat_inj.mp (by omega)
      cases id'
      cases id
      cases hword
      rfl
    rw [hid', hsame]

/-- A reported version goes through the client unaltered. -/
structure Unaltered (v : Value) : Prop where
  equal : ∀ version, Derives v version → reported v = some version.asI32.toInt
  forms : ∀ w, reported v ≠ none → reported w = reported v →
    ∀ version, Derives w version ↔ Derives v version
  addresses : ∀ version, Derives v version →
    ∃ name, reportedName v = some name ∧ Addresses version name

/-- The number form of an integer of 64 bits is always taken, so an unaltered one fits a version
    and is written as its name. -/
theorem Unaltered.canonical (h : Unaltered v) (hk : reported v = some k) (hlow : -2 ^ 63 ≤ k)
    (hhigh : k < 2 ^ 63) : 0 ≤ k ∧ k < 2 ^ 31 ∧ reportedName v = some (toString k) := by
  obtain ⟨n, hn⟩ := @exists_number k (by omega) (by omega)
  have hnumber : parseVersion (.number n) = some ⟨Int32.ofInt k⟩ := by
    rw [parse_number hn, if_pos (by omega)]
  have hderives : Derives v ⟨Int32.ofInt k⟩ :=
    (h.forms (.number n) (by rw [hk]; simp) (by rw [hk]; exact hn) _).mp (derives_iff.mpr hnumber)
  have hsame : k = (Int32.ofInt k).toInt := Option.some.inj (hk.symm.trans (h.equal _ hderives))
  have hmin : -2 ^ 31 ≤ (Int32.ofInt k).toInt := Int32.le_toInt _
  have hmax : (Int32.ofInt k).toInt < 2 ^ 31 := Int32.toInt_lt _
  obtain ⟨name, hname, hexpression⟩ := h.addresses _ hderives
  rw [addresses_iff] at hexpression
  by_cases hneg : k < 0
  · have hlatest : name = latestVersionExpression := by
      rw [← hexpression]
      exact if_pos (by rw [← hsame]; exact hneg)
    exact absurd (by rw [hname, hlatest]) (name_ne_latest hk)
  · refine ⟨by omega, by omega, ?_⟩
    rw [hname, ← hexpression, expression_of_nonneg (by omega) (by omega)]

theorem unaltered_of_canonical (h : ∀ k, reported v = some k →
    (0 ≤ k ∧ k < 2 ^ 31 ∧ reportedName v = some (toString k)) ∨ k < -2 ^ 63 ∨ 2 ^ 63 ≤ k) :
    Unaltered v := by
  have hsome : ∀ version, Derives v version → ∃ k, reported v = some k ∧ 0 ≤ k ∧ k < 2 ^ 31 ∧
      reportedName v = some (toString k) ∧ version = ⟨Int32.ofInt k⟩ := by
    intro version hversion
    rw [derives_iff] at hversion
    cases hk : reported v with
    | none =>
      rw [parse_of_reported_none hk] at hversion
      cases hversion
    | some k =>
      obtain ⟨hlow, hhigh, hname⟩ | hout := h k hk
      · rw [parse_of_range hk (by omega) (by omega)] at hversion
        exact ⟨k, rfl, hlow, hhigh, hname, (Option.some.inj hversion).symm⟩
      · rw [parse_outside hk hout] at hversion
        cases hversion
  refine ⟨?_, ?_, ?_⟩
  · intro version hversion
    obtain ⟨k, hk, hlow, hhigh, -, rfl⟩ := hsome version hversion
    rw [hk]
    exact congrArg some (Int32.toInt_ofInt_of_le (by omega) hhigh).symm
  · intro w hne hw version
    obtain ⟨k, hk⟩ := Option.ne_none_iff_exists'.mp hne
    rw [hk] at hw
    rw [derives_iff, derives_iff]
    obtain ⟨hlow, hhigh, -⟩ | hout := h k hk
    · rw [parse_of_range hk (by omega) (by omega), parse_of_range hw (by omega) (by omega)]
    · rw [parse_outside hk hout, parse_outside hw hout]
  · intro version hversion
    obtain ⟨k, -, hlow, hhigh, hname, rfl⟩ := hsome version hversion
    exact ⟨toString k, hname, addresses_iff.mpr (expression_of_nonneg hlow (by omega))⟩

/-- A version number is unaltered exactly if the reported integer is a version number and is
    written as one, or is outside 64 bits. A global id is never altered. -/
theorem version_numbers_iff (v : Value) (globalId : Int64) (id : SchemaId) :
    (Unaltered v ↔ ∀ k, reported v = some k →
      (0 ≤ k ∧ k < 2 ^ 31 ∧ reportedName v = some (toString k)) ∨ k < -2 ^ 63 ∨ 2 ^ 63 ≤ k) ∧
    (globalIdToSchemaId globalId = .ok id ↔
      0 ≤ globalId.toInt ∧ globalId.toInt < 2 ^ 32 ∧ globalId.toInt = id.asU32.toNat) := by
  refine ⟨⟨?_, unaltered_of_canonical⟩, globalId_eq_ok⟩
  intro h k hk
  by_cases hout : k < -2 ^ 63 ∨ 2 ^ 63 ≤ k
  · exact Or.inr hout
  · exact Or.inl (h.canonical hk (by omega) (by omega))

/-- The number 4294967297 is taken for version 1. -/
theorem number_truncated : ¬ ∀ v, Unaltered v := by
  intro h
  have hversion : Derives (.number (.posInt 4294967297)) ⟨1⟩ := derives_iff.mpr (by decide)
  exact absurd ((h _).equal _ hversion) (by decide)

end Schemreg.Apicurio
