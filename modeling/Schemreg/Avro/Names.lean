import Schemreg.Avro.SchemaSet

/-
  The names of an Avro schema.

  `Mentions` says what a schema defines and what it refers to, with the namespace that encloses
  it. `walk_names` collects exactly that (`has_walkNames`), in sets without repetition.
-/

namespace Schemreg.Avro

variable {Rest Json : Type} {api : Api Rest Json} {enclosing : Option String}
  {schema : AvroSchema Rest} {name : String} {sets : NameSets}

section Sorted

variable {α : Type} [LinearOrder α] {x y : α} {set : List α}

theorem mem_insertSorted : y ∈ insertSorted x set ↔ y = x ∨ y ∈ set := by
  unfold insertSorted
  split
  · rename_i hx
    constructor
    · exact .inr
    · rintro (rfl | hy)
      · exact hx
      · exact hy
  · exact List.mem_orderedInsert _

theorem nodup_insertSorted (h : set.Nodup) : (insertSorted x set).Nodup := by
  unfold insertSorted
  split
  · exact h
  · rename_i hx
    exact (List.perm_orderedInsert _ x set).nodup_iff.mpr (List.nodup_cons.mpr ⟨hx, h⟩)

end Sorted

/-- What a schema does with a name. -/
inductive Mention where
  | defines (name : String)
  | refers (name : String)

/-- A schema that a namespace encloses mentions a name. The namespace of a record encloses its
    fields. -/
inductive Mentions (api : Api Rest Json) : Option String → AvroSchema Rest → Mention → Prop where
  | array {enclosing : Option String} {items rest mention}
      (h : Mentions api enclosing items mention) :
      Mentions api enclosing (.array items rest) mention
  | map {enclosing : Option String} {types rest mention}
      (h : Mentions api enclosing types mention) :
      Mentions api enclosing (.map types rest) mention
  | union {enclosing : Option String} {variants rest variant mention}
      (hmem : variant ∈ variants) (h : Mentions api enclosing variant mention) :
      Mentions api enclosing (.union variants rest) mention
  | enum {enclosing : Option String} {n : Name} {rest} :
      Mentions api enclosing (.enum n rest) (.defines (fullnameIn api n enclosing))
  | fixed {enclosing : Option String} {n : Name} {rest} :
      Mentions api enclosing (.fixed n rest) (.defines (fullnameIn api n enclosing))
  | record {enclosing : Option String} {n : Name} {fields rest} :
      Mentions api enclosing (.record n fields rest) (.defines (fullnameIn api n enclosing))
  | field {enclosing : Option String} {n : Name} {fields rest field mention}
      (hmem : field ∈ fields)
      (h : Mentions api (api.fullyQualifiedName n enclosing).space field mention) :
      Mentions api enclosing (.record n fields rest) mention
  | ref {enclosing : Option String} {n : Name} :
      Mentions api enclosing (.ref n) (.refers (fullnameIn api n enclosing))

/-- The schema defines the name. -/
abbrev Defines (api : Api Rest Json) (schema : AvroSchema Rest) (name : String) : Prop :=
  Mentions api none schema (.defines name)

/-- The schema refers to the name. -/
abbrev Refers (api : Api Rest Json) (schema : AvroSchema Rest) (name : String) : Prop :=
  Mentions api none schema (.refers name)

namespace NameSets

def Has (sets : NameSets) : Mention → Prop
  | .defines name => name ∈ sets.defines
  | .refers name => name ∈ sets.refs

theorem has_define {mention : Mention} :
    (sets.define name).Has mention ↔ mention = .defines name ∨ sets.Has mention := by
  cases mention with
  | defines other =>
    show other ∈ insertSorted name sets.defines ↔ _
    rw [mem_insertSorted, Mention.defines.injEq]
    rfl
  | refers other =>
    show other ∈ sets.refs ↔ _
    simp [Has]

theorem has_refer {mention : Mention} :
    (sets.refer name).Has mention ↔ mention = .refers name ∨ sets.Has mention := by
  cases mention with
  | defines other =>
    show other ∈ sets.defines ↔ _
    simp [Has]
  | refers other =>
    show other ∈ insertSorted name sets.refs ↔ _
    rw [mem_insertSorted, Mention.refers.injEq]
    rfl

end NameSets

mutual

/-- The walk adds what the schema mentions. -/
theorem has_walkNames {mention : Mention} : ∀ (schema : AvroSchema Rest)
    (enclosing : Option String) (sets : NameSets),
    (walkNames api schema enclosing sets).Has mention ↔
      Mentions api enclosing schema mention ∨ sets.Has mention
  | .array items rest, enclosing, sets => by
      rw [walkNames, has_walkNames items]
      refine or_congr_left ⟨.array, fun h => ?_⟩
      cases h
      assumption
  | .map types rest, enclosing, sets => by
      rw [walkNames, has_walkNames types]
      refine or_congr_left ⟨.map, fun h => ?_⟩
      cases h
      assumption
  | .union variants rest, enclosing, sets => by
      rw [walkNames, has_walkAll variants]
      refine or_congr_left ⟨fun ⟨variant, hmem, h⟩ => .union hmem h, fun h => ?_⟩
      cases h with
      | union hmem h => exact ⟨_, hmem, h⟩
  | .enum name rest, enclosing, sets => by
      rw [walkNames, NameSets.has_define]
      refine or_congr_left ⟨fun h => h ▸ .enum, fun h => ?_⟩
      cases h
      rfl
  | .fixed name rest, enclosing, sets => by
      rw [walkNames, NameSets.has_define]
      refine or_congr_left ⟨fun h => h ▸ .fixed, fun h => ?_⟩
      cases h
      rfl
  | .record name fields rest, enclosing, sets => by
      rw [walkNames, has_walkAll fields, NameSets.has_define, ← or_assoc]
      refine or_congr_left ⟨?_, fun h => ?_⟩
      · rintro (⟨field, hmem, h⟩ | rfl)
        · exact .field hmem h
        · exact .record
      · cases h with
        | record => exact .inr rfl
        | field hmem h => exact .inl ⟨_, hmem, h⟩
  | .ref name, enclosing, sets => by
      rw [walkNames, NameSets.has_refer]
      refine or_congr_left ⟨fun h => h ▸ .ref, fun h => ?_⟩
      cases h
      rfl
  | .other rest, enclosing, sets => by
      rw [walkNames]
      refine ⟨.inr, fun h => h.resolve_left fun h => ?_⟩
      cases h

theorem has_walkAll {mention : Mention} : ∀ (schemas : List (AvroSchema Rest))
    (enclosing : Option String) (sets : NameSets),
    (walkAll api schemas enclosing sets).Has mention ↔
      (∃ schema ∈ schemas, Mentions api enclosing schema mention) ∨ sets.Has mention
  | [], enclosing, sets => by
      rw [walkAll]
      simp
  | schema :: schemas, enclosing, sets => by
      rw [walkAll, has_walkAll schemas, has_walkNames schema, ← or_assoc]
      refine or_congr_left ?_
      simp [or_comm]

end

mutual

theorem nodup_walkNames : ∀ (schema : AvroSchema Rest) (enclosing : Option String)
    (sets : NameSets), sets.defines.Nodup → (walkNames api schema enclosing sets).defines.Nodup
  | .array items _, enclosing, sets, h => nodup_walkNames items enclosing sets h
  | .map types _, enclosing, sets, h => nodup_walkNames types enclosing sets h
  | .union variants _, enclosing, sets, h => nodup_walkAll variants enclosing sets h
  | .enum _ _, _, _, h => nodup_insertSorted h
  | .fixed _ _, _, _, h => nodup_insertSorted h
  | .record _ fields _, _, _, h => nodup_walkAll fields _ _ (nodup_insertSorted h)
  | .ref _, _, _, h => h
  | .other _, _, _, h => h

theorem nodup_walkAll : ∀ (schemas : List (AvroSchema Rest)) (enclosing : Option String)
    (sets : NameSets), sets.defines.Nodup → (walkAll api schemas enclosing sets).defines.Nodup
  | [], _, _, h => h
  | schema :: schemas, enclosing, sets, h =>
      nodup_walkAll schemas enclosing _ (nodup_walkNames schema enclosing sets h)

end

theorem mem_defines : name ∈ (namesOf api schema).defines ↔ Defines api schema name := by
  have h : (namesOf api schema).Has (.defines name) ↔ _ := has_walkNames schema none ⟨[], []⟩
  rw [show (NameSets.mk [] []).Has (.defines name) ↔ False from List.mem_nil_iff _, or_false] at h
  exact h

theorem mem_refs : name ∈ (namesOf api schema).refs ↔ Refers api schema name := by
  have h : (namesOf api schema).Has (.refers name) ↔ _ := has_walkNames schema none ⟨[], []⟩
  rw [show (NameSets.mk [] []).Has (.refers name) ↔ False from List.mem_nil_iff _, or_false] at h
  exact h

theorem nodup_defines : (namesOf api schema).defines.Nodup :=
  nodup_walkNames schema none _ List.nodup_nil

/-- Where nothing encloses a name, it is written with the namespace that it has. -/
def QualifiesTopLevel (api : Api Rest Json) : Prop :=
  ∀ name, api.fullname (api.fullyQualifiedName name none) none = api.fullname name name.space

/-- A schema defines its own name. -/
theorem defines_nameOf (htop : QualifiesTopLevel api) (h : nameOf api schema = some name) :
    Defines api schema name := by
  cases schema with
  | record n fields rest =>
    obtain rfl := Option.some.inj h
    rw [← htop n]
    exact .record
  | enum n rest =>
    obtain rfl := Option.some.inj h
    rw [← htop n]
    exact .enum
  | fixed n rest =>
    obtain rfl := Option.some.inj h
    rw [← htop n]
    exact .fixed
  | _ => cases h

end Schemreg.Avro
