import Schemreg.Avro.Decoder

/-
  The name table that the Avro codec resolves references against.

  The codec reads the table once, from its start. So a schema has to come behind those that it
  refers to, no name may be defined by two of them, and the root has to be among them
  (`NameTable`). A schema can also be given in parsed form (`fromParsed`); which of two definitions
  are copies is then decided by `apache_avro`'s equality of schemas, a parameter here (`same`).

  Proved (`name_table_is_closed`): every set that the crate builds has such a table, except the
  one schema of a text without dependencies, which is left to the parser. No definition that was
  supplied for a reader schema is ignored.
-/

namespace Schemreg.Avro

open Lookup TopologicalOrder

variable {Rest Json : Type}

/-! ## Schemas that are already parsed -/

section Definitions

variable (api : Api Rest Json) (same : AvroSchema Rest → AvroSchema Rest → Bool)

/-- The loop of `from_parsed`. -/
def dedupeParsed (root : AvroSchema Rest) :
    List (AvroSchema Rest) → List (AvroSchema Rest) → List (AvroSchema Rest)
  | [], set => set
  | dep :: deps, set =>
      if !same dep root && !set.any (fun kept => same kept dep) then
        dedupeParsed root deps (set ++ [dep])
      else dedupeParsed root deps set

/-- `from_parsed`: build from schemas that are already parsed. -/
def ResolvedAvroSchema.fromParsed (root : AvroSchema Rest) (deps : List (AvroSchema Rest))
    (role : SchemaRole) : Result (ResolvedAvroSchema Rest) :=
  if deps.length > maxReferences then .error (dependsOnTooMany role deps.length)
  else
    let set := dedupeParsed same root deps []
    if set.isEmpty then
      let names := namesOf api root
      match names.refs.find? fun name => name ∉ names.defines with
      | some missing => .error (missingDefinition missing (nameOf api root) role)
      | none => .ok ⟨root, []⟩
    else do return ⟨root, ← orderSchemata api (set ++ [root]) role⟩

/-- A reader schema as the caller supplied it. -/
inductive ReaderSchemaInput (Rest : Type) where
  | json (schema : String)
  | parsed (schema : AvroSchema Rest)

/-- Definitions backing the reader schema's references. -/
inductive ReaderDependencies (Rest : Type) where
  | json (deps : List String)
  | parsed (deps : List (AvroSchema Rest))

def ReaderDependencies.isEmpty : ReaderDependencies Rest → Bool
  | .json deps => deps.isEmpty
  | .parsed deps => deps.isEmpty

def mixedReaderForms (setter : String) : SchemaRegError :=
  .config ("AvroSchemaDecoder: the reader schema and `" ++ setter ++ "` were given in different " ++
    "forms; supply both as JSON, or both already parsed")

def dependenciesWithoutSchema : SchemaRegError :=
  .config ("AvroSchemaDecoder: reader dependencies were supplied without a reader schema; they " ++
    "resolve that schema's references and do nothing on their own")

variable [DecidableEq Json]

/-- The reader schema of `AvroSchemaDecoderBuilder::build`. -/
def buildReader : Option (ReaderSchemaInput Rest) → ReaderDependencies Rest →
    Result (Option (ResolvedAvroSchema Rest))
  | some (.json schema), .json deps => do
      return some (← ResolvedAvroSchema.parse api schema deps .reader)
  | some (.parsed schema), .parsed deps => do
      return some (← ResolvedAvroSchema.fromParsed api same schema deps .reader)
  | some (.json schema), .parsed deps =>
      if !deps.isEmpty then .error (mixedReaderForms "reader_dependencies_parsed")
      else do return some (← ResolvedAvroSchema.parse api schema [] .reader)
  | some (.parsed schema), .json deps =>
      if !deps.isEmpty then .error (mixedReaderForms "reader_dependencies")
      else do return some (← ResolvedAvroSchema.fromParsed api same schema [] .reader)
  | none, deps => if !deps.isEmpty then .error dependenciesWithoutSchema else .ok none

end Definitions

/-! ## Tables in order -/

variable {api : Api Rest Json} {same : AvroSchema Rest → AvroSchema Rest → Bool}
  {role : SchemaRole} {root : AvroSchema Rest} {parsed table : List (AvroSchema Rest)}
  {self : ResolvedAvroSchema Rest}

/-- What a schema of the table refers to, and does not define, is the top-level name of an
    earlier one. -/
def InOrder (api : Api Rest Json) (table : List (AvroSchema Rest)) : Prop :=
  ∀ before schema after, table = before ++ schema :: after → ∀ name, Refers api schema name →
    ¬ Defines api schema name → ∃ earlier ∈ before, nameOf api earlier = some name

/-- The schemas of a table: the root is one of them, they are in order, and no name is defined by
    two of them. -/
structure NameTable (api : Api Rest Json) (resolved : ResolvedAvroSchema Rest) : Prop where
  root_mem : resolved.root ∈ resolved.codecSchemata
  inOrder : InOrder api resolved.codecSchemata
  once : DefinedOnce api resolved.codecSchemata

/-- Schemas taken in a topological order of their references are in order. -/
theorem inOrder_of_isOrder {order : List Nat} (hresolved : AllResolved api parsed)
    (h : IsOrder (List.range parsed.length) (CrossReference api parsed) order) :
    InOrder api (order.filterMap fun index => parsed[index]?) := by
  intro before schema after hsplit name hrefers hdefines
  obtain ⟨first, rest, rfl, hfirst, hrest⟩ := List.filterMap_eq_append_iff.mp hsplit
  obtain ⟨skipped, index, last, rfl, hskipped, hindex, -⟩ := List.filterMap_eq_cons_iff.mp hrest
  obtain ⟨j, definition, -, hj, hname⟩ := hresolved index schema name hindex hrefers hdefines
  have huses : CrossReference api parsed index j :=
    ⟨schema, definition, name, hindex, hj, hrefers, hdefines, hname⟩
  have hbefore : j ∈ first ++ skipped :=
    h.topological (first ++ skipped) index last (List.append_assoc ..).symm j huses
  refine ⟨definition, ?_, hname⟩
  rw [← hfirst]
  refine List.mem_filterMap.mpr ⟨j, ?_, hj⟩
  rcases List.mem_append.mp hbefore with hmem | hmem
  · exact hmem
  · rw [hskipped j hmem] at hj
    cases hj

theorem inOrder_of_ok (htop : QualifiesTopLevel api) {out : List (AvroSchema Rest)}
    (h : orderSchemata api parsed role = .ok out) : InOrder api out := by
  obtain ⟨⟨-, hresolved, -⟩, hsorted⟩ := orderable_of_ok htop h
  obtain ⟨order, rfl, hisOrder, -⟩ := hsorted.smallest
  exact inOrder_of_isOrder hresolved hisOrder

/-- The table that `order_schemata` makes of schemas the root is among. -/
theorem nameTable_of_ordered (htop : QualifiesTopLevel api)
    (h : orderSchemata api parsed role = .ok table) (hroot : root ∈ parsed) :
    NameTable api ⟨root, table⟩ := by
  obtain ⟨⟨honce, -, -⟩, hsorted⟩ := orderable_of_ok htop h
  have hmem : root ∈ table := hsorted.perm.mem_iff.mpr hroot
  have hcodec : (⟨root, table⟩ : ResolvedAvroSchema Rest).codecSchemata = table := by
    unfold ResolvedAvroSchema.codecSchemata
    rw [if_neg (by simpa using List.ne_nil_of_mem hmem)]
  refine ⟨?_, ?_, ?_⟩
  · rw [hcodec]
    exact hmem
  · rw [hcodec]
    exact inOrder_of_ok htop h
  · rw [hcodec]
    exact definedOnce_perm hsorted.perm.symm honce

/-- A root that defines everything it refers to is its own table. -/
theorem nameTable_of_selfContained
    (h : ∀ name, Refers api root name → Defines api root name) : NameTable api ⟨root, []⟩ := by
  refine ⟨List.mem_singleton_self _, ?_, ?_⟩
  · intro before schema after hsplit name hrefers hdefines
    have hsplit : [root] = before ++ schema :: after := hsplit
    obtain rfl : root = schema := by
      have hmem : schema ∈ [root] := by
        rw [hsplit]
        simp
      exact (List.mem_singleton.mp hmem).symm
    exact absurd (h name hrefers) hdefines
  · intro i j a b name hi hj _ _
    have hzero : ∀ {k : Nat} {c : AvroSchema Rest}, [root][k]? = some c → k = 0 := by
      intro k c hk
      obtain ⟨hlt, -⟩ := List.getElem?_eq_some_iff.mp hk
      exact Nat.lt_one_iff.mp hlt
    exact (hzero hi).trans (hzero hj).symm

/-- The schema is a text that the parser has accepted alone. -/
def ParsedAlone (api : Api Rest Json) (text : String) (resolved : ResolvedAvroSchema Rest) : Prop :=
  resolved.schemata = [] ∧ api.parseStr text = .ok resolved.root

theorem nameTable_of_parse [DecidableEq Json] (htop : QualifiesTopLevel api) {text : String}
    {deps : List String} (h : ResolvedAvroSchema.parse api text deps role = .ok self) :
    ParsedAlone api text self ∨ NameTable api self := by
  unfold ResolvedAvroSchema.parse at h
  split at h
  · cases h
  · obtain ⟨inputs, -, h⟩ := Result.bind_eq_ok.mp h
    unfold ResolvedAvroSchema.parseInputs at h
    split at h
    · split at h
      · cases h
      · rename_i schema hparse
        cases h
        exact Or.inl ⟨rfl, hparse⟩
    · split at h
      · cases h
      · split at h
        · cases h
        · rename_i schema hlast
          obtain ⟨table, htable, h⟩ := Result.bind_eq_ok.mp h
          cases h
          exact Or.inr (nameTable_of_ordered htop htable (List.mem_of_getLast? hlast))

/-! ## What is kept of parsed definitions -/

theorem subset_dedupeParsed {deps set : List (AvroSchema Rest)} :
    set ⊆ dedupeParsed same root deps set := by
  induction deps generalizing set with
  | nil => exact List.Subset.refl set
  | cons dep deps ih =>
    rw [dedupeParsed]
    split
    · exact List.Subset.trans (List.subset_append_left set [dep]) ih
    · exact ih

/-- Each definition is kept, or a copy of it is, or it is a copy of the root. -/
theorem kept_of_dedupeParsed (hrefl : ∀ a, same a a = true) {deps : List (AvroSchema Rest)}
    (set : List (AvroSchema Rest)) {dep : AvroSchema Rest} (hdep : dep ∈ deps) :
    same dep root = true ∨ ∃ kept ∈ dedupeParsed same root deps set, same kept dep = true := by
  induction deps generalizing set with
  | nil => cases hdep
  | cons first deps ih =>
    rcases List.mem_cons.mp hdep with rfl | hdep
    · rw [dedupeParsed]
      split
      · refine Or.inr ⟨dep, subset_dedupeParsed ?_, hrefl dep⟩
        exact List.mem_append_right _ (List.mem_singleton_self dep)
      · rename_i hcopy
        cases hroot : same dep root with
        | true => exact Or.inl rfl
        | false =>
          have hany : set.any (fun kept => same kept dep) = true := by simpa [hroot] using hcopy
          obtain ⟨kept, hkept, hsame⟩ := List.any_eq_true.mp hany
          exact Or.inr ⟨kept, subset_dedupeParsed hkept, hsame⟩
    · rw [dedupeParsed]
      split
      · exact ih _ hdep
      · exact ih _ hdep

theorem fromParsed_keeps (htop : QualifiesTopLevel api) (hrefl : ∀ a, same a a = true)
    {deps : List (AvroSchema Rest)}
    (h : ResolvedAvroSchema.fromParsed api same root deps role = .ok self) :
    NameTable api self ∧ self.root = root ∧
      ∀ dep ∈ deps, same dep root = true ∨ ∃ kept ∈ self.codecSchemata, same kept dep = true := by
  unfold ResolvedAvroSchema.fromParsed at h
  split at h
  · cases h
  · dsimp only at h
    split at h
    · rename_i hempty
      split at h
      · cases h
      · rename_i hnone
        cases h
        refine ⟨nameTable_of_selfContained fun name hrefers => ?_, rfl, fun dep hdep => ?_⟩
        · have hdefined := List.find?_eq_none.mp hnone name (mem_refs.mpr hrefers)
          exact mem_defines.mp (by simpa using hdefined)
        · rcases kept_of_dedupeParsed hrefl [] hdep with hroot | ⟨kept, hkept, -⟩
          · exact Or.inl hroot
          · rw [List.isEmpty_iff.mp hempty] at hkept
            cases hkept
    · obtain ⟨table, htable, h⟩ := Result.bind_eq_ok.mp h
      cases h
      have hroot : root ∈ dedupeParsed same root deps [] ++ [root] := by simp
      refine ⟨nameTable_of_ordered htop htable hroot, rfl, fun dep hdep => ?_⟩
      rcases kept_of_dedupeParsed hrefl [] hdep with hcopy | ⟨kept, hkept, hsame⟩
      · exact Or.inl hcopy
      · have hmem : kept ∈ table := (orderable_of_ok htop htable).2.perm.mem_iff.mpr
          (List.mem_append_left _ hkept)
        refine Or.inr ⟨kept, ?_, hsame⟩
        unfold ResolvedAvroSchema.codecSchemata
        rw [if_neg (by simpa using List.ne_nil_of_mem hmem)]
        exact hmem

/-! ## Every set that is built -/

/-- The schema and its dependencies are both JSON, or both parsed. -/
def SameForm : Option (ReaderSchemaInput Rest) → ReaderDependencies Rest → Prop
  | some (.json _), .json _ | some (.parsed _), .parsed _ => True
  | _, _ => False

/-- What an encoder, a decoder or a reader schema resolves references against is one text that the
    parser has accepted, or a table of schemas with the root: what one of them refers to and does
    not define is the name of an earlier one, and no name is defined by two. A reader schema
    comes from what was supplied as one; definitions that it cannot use are not accepted, and
    none of those that are parsed already is ignored. -/
theorem name_table_is_closed [DecidableEq Json] (htop : QualifiesTopLevel api)
    (hrefl : ∀ a, same a a = true) :
    (∀ text deps role self, ResolvedAvroSchema.parse api text deps role = .ok self →
      ParsedAlone api text self ∨ NameTable api self) ∧
    ∀ input deps reader, buildReader api same input deps = .ok reader →
      (reader = none ↔ input = none) ∧ (deps.isEmpty = false → SameForm input deps) ∧
      (∀ self, reader = some self →
        (∃ text, input = some (.json text) ∧ ParsedAlone api text self) ∨ NameTable api self) ∧
      ∀ root definitions self, input = some (.parsed root) → deps = .parsed definitions →
        reader = some self → self.root = root ∧ ∀ dep ∈ definitions,
          same dep root = true ∨ ∃ kept ∈ self.codecSchemata, same kept dep = true := by
  refine ⟨fun _ _ _ _ h => nameTable_of_parse htop h, fun input deps reader h => ?_⟩
  cases input with
  | none =>
    unfold buildReader at h
    dsimp only at h
    split at h
    · cases h
    · rename_i hempty
      cases h
      refine ⟨by simp, fun hsome => ?_, ?_, ?_⟩
      · rw [hsome] at hempty
        exact absurd rfl hempty
      · rintro self ⟨⟩
      · rintro root definitions self ⟨⟩
  | some input =>
    cases input with
    | json text =>
      have hbuilt : ∀ {ds self}, ResolvedAvroSchema.parse api text ds .reader = .ok self →
          (∃ t, (some (.json text) : Option (ReaderSchemaInput Rest)) = some (.json t) ∧
            ParsedAlone api t self) ∨ NameTable api self :=
        fun h => (nameTable_of_parse htop h).imp_left fun halone => ⟨text, rfl, halone⟩
      cases deps with
      | json ds =>
        obtain ⟨self, hself, h⟩ := Result.bind_eq_ok.mp h
        cases h
        refine ⟨by simp, fun _ => trivial, ?_, ?_⟩
        · rintro _ ⟨⟩
          exact hbuilt hself
        · rintro root definitions self ⟨⟩
      | parsed ds =>
        unfold buildReader at h
        dsimp only at h
        split at h
        · cases h
        · rename_i hempty
          obtain ⟨self, hself, h⟩ := Result.bind_eq_ok.mp h
          cases h
          refine ⟨by simp, fun hsome => ?_, ?_, ?_⟩
          · rw [show ds.isEmpty = false from hsome] at hempty
            exact absurd rfl hempty
          · rintro _ ⟨⟩
            exact hbuilt hself
          · rintro root definitions self ⟨⟩
    | parsed root =>
      have hbuilt : ∀ {ds self}, ResolvedAvroSchema.fromParsed api same root ds .reader = .ok self →
          NameTable api self ∧ self.root = root ∧ ∀ dep ∈ ds,
            same dep root = true ∨ ∃ kept ∈ self.codecSchemata, same kept dep = true :=
        fun h => fromParsed_keeps htop hrefl h
      cases deps with
      | json ds =>
        unfold buildReader at h
        dsimp only at h
        split at h
        · cases h
        · rename_i hempty
          obtain ⟨self, hself, h⟩ := Result.bind_eq_ok.mp h
          cases h
          refine ⟨by simp, fun hsome => ?_, ?_, ?_⟩
          · rw [show ds.isEmpty = false from hsome] at hempty
            exact absurd rfl hempty
          · rintro _ ⟨⟩
            exact Or.inr (hbuilt hself).1
          · rintro root definitions self - ⟨⟩
      | parsed ds =>
        obtain ⟨self, hself, h⟩ := Result.bind_eq_ok.mp h
        cases h
        obtain ⟨htable, hroot⟩ := hbuilt hself
        refine ⟨by simp, fun _ => trivial, ?_, ?_⟩
        · rintro _ ⟨⟩
          exact Or.inr htable
        · rintro _ _ _ ⟨⟩ ⟨⟩ ⟨⟩
          exact hroot

/-- Of the schemas of the example, two are equal if they have one name. -/
def sameName (a b : AvroSchema Unit) : Bool := nameOf qualifying a = nameOf qualifying b

/-- A reader schema whose dependency is supplied twice. -/
theorem customer_has_a_table : ∃ self,
    buildReader qualifying sameName (some (.parsed customer)) (.parsed [address, address]) =
      .ok (some self) ∧ NameTable qualifying self ∧ self.root = customer := by
  obtain ⟨self, hself⟩ : ∃ self,
      buildReader qualifying sameName (some (.parsed customer)) (.parsed [address, address]) =
        .ok (some self) := ⟨_, rfl⟩
  have hrefl : ∀ a, sameName a a = true := fun a => by simp [sameName]
  obtain ⟨-, -, htable, hroot⟩ :=
    (name_table_is_closed qualifiesTopLevel_qualifying hrefl).2 _ _ _ hself
  refine ⟨self, hself, ?_, (hroot _ _ self rfl rfl rfl).1⟩
  rcases htable self rfl with ⟨text, htext, -⟩ | htable
  · cases htext
  · exact htable

end Schemreg.Avro
