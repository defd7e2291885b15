import Mathlib.Data.List.Sort
import Mathlib.Data.String.Basic
import Mathlib.Logic.Function.Basic
import Schemreg.Avro.Closure

/-
  `src/avro/schema_set.rs`: an Avro schema together with the schemas it references.

  What `apache_avro` and `serde_json` do is a parameter (`Api`): their parsers, how a name is
  qualified, and how a JSON value is read. `Rest` is what a schema carries besides its names
  and its parts. A `BTreeSet` is a sorted list, a `HashMap` an association list, the vectors
  that are indexed by schemas are functions, and the heap is a list.
-/

namespace Schemreg.Avro

/-- Which schema a set belongs to. -/
inductive SchemaRole where
  | writerLocal
  | writerRegistry
  | reader
  deriving DecidableEq, Repr

namespace SchemaRole

/-- How the schema is named in an error message. -/
def subject : SchemaRole → String
  | writerLocal | writerRegistry => "Avro schema"
  | reader => "Avro reader schema"

/-- What the caller has to do about a type nothing defines. -/
def remedy : SchemaRole → String
  | writerLocal => "pass its schema JSON to `AvroSchemaEncoderBuilder::dependencies`"
  | writerRegistry => "register it under a subject and name it in this schema's `references` " ++
      "list, so the decoder can fetch it"
  | reader => "pass its schema JSON to `AvroSchemaDecoderBuilder::reader_dependencies`"

end SchemaRole

/-- `apache_avro::schema::Name`, with its namespace. -/
structure Name where
  name : String
  space : Option String
  deriving DecidableEq, Repr

/-- `apache_avro::Schema`. -/
inductive AvroSchema (Rest : Type) where
  | array (items : AvroSchema Rest) (rest : Rest)
  | map (types : AvroSchema Rest) (rest : Rest)
  | union (variants : List (AvroSchema Rest)) (rest : Rest)
  | enum (name : Name) (rest : Rest)
  | fixed (name : Name) (rest : Rest)
  | record (name : Name) (fields : List (AvroSchema Rest)) (rest : Rest)
  | ref (name : Name)
  | other (rest : Rest)

/-- What the module uses of `apache_avro` and `serde_json`. `get` is `as_object` and then `get`. -/
structure Api (Rest Json : Type) where
  fullyQualifiedName : Name → Option String → Name
  fullname : Name → Option String → String
  parseStr : String → Except String (AvroSchema Rest)
  parseList : List String → Except String (List (AvroSchema Rest))
  fromStr : String → Except String Json
  get : Json → String → Option Json
  asStr : Json → Option String

variable {Rest Json : Type} (api : Api Rest Json)

/-! ## Name extraction -/

/-- `BTreeSet::insert`. -/
def insertSorted {α : Type} [LinearOrder α] (x : α) (set : List α) : List α :=
  if x ∈ set then set else set.orderedInsert (· ≤ ·) x

/-- The names a schema defines and the names it references. -/
structure NameSets where
  defines : List String
  refs : List String

namespace NameSets

def define (sets : NameSets) (name : String) : NameSets :=
  { sets with defines := insertSorted name sets.defines }

def refer (sets : NameSets) (name : String) : NameSets :=
  { sets with refs := insertSorted name sets.refs }

end NameSets

/-- `fullname`. -/
def fullnameIn (name : Name) (enclosing : Option String) : String :=
  api.fullname (api.fullyQualifiedName name enclosing) none

mutual

/-- `walk_names`: a record's namespace becomes the default for its fields. -/
def walkNames : AvroSchema Rest → Option String → NameSets → NameSets
  | .array items _, enclosing, sets => walkNames items enclosing sets
  | .map types _, enclosing, sets => walkNames types enclosing sets
  | .union variants _, enclosing, sets => walkAll variants enclosing sets
  | .enum name _, enclosing, sets => sets.define (fullnameIn api name enclosing)
  | .fixed name _, enclosing, sets => sets.define (fullnameIn api name enclosing)
  | .record name fields _, enclosing, sets =>
      walkAll fields (api.fullyQualifiedName name enclosing).space
        (sets.define (api.fullname (api.fullyQualifiedName name enclosing) none))
  | .ref name, enclosing, sets => sets.refer (fullnameIn api name enclosing)
  | .other _, _, sets => sets

/-- The loops of `walk_names`. -/
def walkAll : List (AvroSchema Rest) → Option String → NameSets → NameSets
  | [], _, sets => sets
  | schema :: schemas, enclosing, sets =>
      walkAll schemas enclosing (walkNames schema enclosing sets)

end

def namesOf (schema : AvroSchema Rest) : NameSets := walkNames api schema none ⟨[], []⟩

/-- The fully-qualified name of a named Avro type (record, enum, or fixed). -/
def nameOf : AvroSchema Rest → Option String
  | .record name _ _ => some (api.fullname name name.space)
  | .enum name _ => some (api.fullname name name.space)
  | .fixed name _ => some (api.fullname name name.space)
  | _ => none

/-! ## Errors -/

def missingDefinition (missing : String) (referencing : Option String) (role : SchemaRole) :
    SchemaRegError :=
  let by' := (referencing.map fun name => "`" ++ name ++ "` ").getD ""
  let typoHint :=
    if missing.toList.contains '.' then ""
    else " (if it was meant to be one of Avro's primitive types, check the spelling)"
  .config (role.subject ++ " " ++ by' ++ "references the type `" ++ missing ++
    "`, which nothing in the schema set defines; " ++ role.remedy ++ typoHint)

/-- A referenced type that exists, but only as part of another schema. -/
def nestedDefinition (missing : String) (definedInside : Option String) (role : SchemaRole) :
    SchemaRegError :=
  let inside := (definedInside.map fun name => "inside `" ++ name ++ "`").getD
    "inside another schema in the set"
  .config (role.subject ++ " references `" ++ missing ++ "`, which is defined " ++ inside ++
    " rather than as a schema of its own; Avro resolves a cross-schema reference only to " ++
    "another schema's top-level type, so give `" ++ missing ++
    "` a schema of its own or inline the definition where it is used")

def definedTwice (name : String) (role : SchemaRole) : SchemaRegError :=
  .config ("`" ++ name ++ "` is defined by more than one schema in the " ++ role.subject ++
    " set; Avro resolves a type name to exactly one definition, so drop the duplicate or " ++
    "rename one of them")

def circularReference (cycle : List String) : SchemaRegError :=
  .config ("circular reference between Avro schemas (" ++ String.intercalate ", " cycle ++
    "); Avro can encode a schema that refers to itself, but two schemas defined in separate " ++
    "subjects cannot refer to each other — inline one of the definitions in the other")

/-! ## Ordering -/

/-- One schema's definitions, as `definer` takes them in. -/
def insertDefines (role : SchemaRole) (index : Nat) :
    List String → List (String × Nat) → Result (List (String × Nat))
  | [], definer => .ok definer
  | name :: names, definer =>
      if (definer.lookup name).isSome then .error (definedTwice name role)
      else insertDefines role index names ((name, index) :: definer)

/-- name → the schema that defines it, for the schemas from an index on. -/
def definers (role : SchemaRole) :
    Nat → List NameSets → List (String × Nat) → Result (List (String × Nat))
  | _, [], definer => .ok definer
  | index, info :: infos, definer => do
      definers role (index + 1) infos (← insertDefines role index info.defines definer)

/-- The references between the schemas. -/
structure Graph where
  prerequisites : Nat → List Nat
  dependents : Nat → List Nat

namespace Graph

def empty : Graph := ⟨fun _ => [], fun _ => []⟩

/-- A reference of `index` to `definer`, which counts once. -/
def add (graph : Graph) (index definer : Nat) : Graph :=
  if definer ∈ graph.prerequisites index then graph
  else
    ⟨Function.update graph.prerequisites index (insertSorted definer (graph.prerequisites index)),
      Function.update graph.dependents definer (graph.dependents definer ++ [index])⟩

end Graph

section Ordering

variable (parsed : List (AvroSchema Rest)) (role : SchemaRole) (definer : List (String × Nat))

/-- The top-level name of a schema of the list. -/
def topName (index : Nat) : Option String := parsed[index]?.bind (nameOf api)

/-- The references of one schema. -/
def addRefs (index : Nat) (defines : List String) : List String → Graph → Result Graph
  | [], graph => .ok graph
  | name :: names, graph =>
      if name ∈ defines then addRefs index defines names graph
      else
        match definer.lookup name with
        | none => .error (missingDefinition name (topName api parsed index) role)
        | some definerIndex =>
            if topName api parsed definerIndex ≠ some name then
              .error (nestedDefinition name (topName api parsed definerIndex) role)
            else addRefs index defines names (graph.add index definerIndex)

/-- The references of the schemas from an index on. -/
def addAllRefs : Nat → List NameSets → Graph → Result Graph
  | _, [], graph => .ok graph
  | index, info :: infos, graph => do
      addAllRefs (index + 1) infos
        (← addRefs api parsed role definer index info.defines info.refs graph)

end Ordering

/-- The state of Kahn's algorithm. -/
structure Kahn where
  ready : List Nat
  remaining : Nat → Nat
  order : List Nat

namespace Kahn

def start (graph : Graph) (count : Nat) : Kahn :=
  ⟨(List.range count).filter fun index => (graph.prerequisites index).isEmpty,
    fun index => (graph.prerequisites index).length, []⟩

def release (kahn : Kahn) (dependent : Nat) : Kahn :=
  let remaining := Function.update kahn.remaining dependent (kahn.remaining dependent - 1)
  if remaining dependent = 0 then
    { kahn with remaining := remaining, ready := dependent :: kahn.ready }
  else { kahn with remaining := remaining }

/-- One turn of the loop, for the index that was popped. -/
def visit (graph : Graph) (kahn : Kahn) (index : Nat) : Kahn :=
  (graph.dependents index).foldl release
    { kahn with ready := kahn.ready.erase index, order := kahn.order ++ [index] }

/-- The loop, of at most so many turns. The lowest index goes first. -/
def loop (graph : Graph) : Nat → Kahn → Kahn
  | 0, kahn => kahn
  | turns + 1, kahn =>
      match kahn.ready.min? with
      | none => kahn
      | some index => loop graph turns (kahn.visit graph index)

end Kahn

/-- Take the slots in an order. -/
def takeSlots {α : Type} : List Nat → List (Option α) → List α
  | [], _ => []
  | index :: order, slots =>
      match slots[index]?.join with
      | some x => x :: takeSlots order (slots.set index none)
      | none => takeSlots order slots

/-- `order_schemata`: order `parsed` so every definition precedes the schemas referencing it. -/
def orderSchemata (parsed : List (AvroSchema Rest)) (role : SchemaRole) :
    Result (List (AvroSchema Rest)) := do
  let infos := parsed.map (namesOf api)
  let definer ← definers role 0 infos []
  let graph ← addAllRefs api parsed role definer 0 infos Graph.empty
  let kahn := Kahn.loop graph parsed.length (Kahn.start graph parsed.length)
  if kahn.order.length ≠ parsed.length then
    .error (circularReference
      (((List.range parsed.length).filter fun index => 0 < kahn.remaining index).filterMap
        (topName api parsed)))
  else .ok (takeSlots kahn.order (parsed.map some))

/-! ## Deduplication -/

/-- The fullname a top-level Avro schema declares. A `name` containing a dot carries its own
    namespace. -/
def topLevelFullname (json : Json) : Option String := do
  let name ← (← api.get json "name") |> api.asStr
  if name.toList.contains '.' then return name
  match (api.get json "namespace").bind api.asStr with
  | some space => if space.isEmpty then return name else return space ++ "." ++ name
  | none => return name

def invalidDependency (role : SchemaRole) (e : String) : SchemaRegError :=
  .config ("invalid schema among the " ++ role.subject ++ " dependencies: " ++ e)

def twoDefinitions (role : SchemaRole) (name : String) : SchemaRegError :=
  .config ("the " ++ role.subject ++ " was given two different definitions of `" ++ name ++
    "`; a type name resolves to one definition, so the set has to agree on it (a reference " ++
    "closure spanning two versions of the same subject does not)")

variable [DecidableEq Json]

/-- The loop of `dedupe_dependencies`. -/
def dedupeLoop (role : SchemaRole) :
    List String → List (String × Json) → List String → Result (List String)
  | [], _, kept => .ok kept
  | dep :: deps, seen, kept =>
      match api.fromStr dep with
      | .error e => .error (invalidDependency role e)
      | .ok json =>
          match topLevelFullname api json with
          | none => dedupeLoop role deps seen (kept ++ [dep])
          | some name =>
              match seen.lookup name with
              | some previous =>
                  if previous = json then dedupeLoop role deps seen kept
                  else .error (twoDefinitions role name)
              | none => dedupeLoop role deps ((name, json) :: seen) (kept ++ [dep])

/-- `dedupe_dependencies`: drop dependencies that repeat a definition already in the set. -/
def dedupeDependencies (root : String) (deps : List String) (role : SchemaRole) :
    Result (List String) :=
  match api.fromStr root with
  | .error e => .error (.config ("invalid " ++ role.subject ++ ": " ++ e))
  | .ok rootJson =>
      let seen :=
        match topLevelFullname api rootJson with
        | some name => [(name, rootJson)]
        | none => []
      dedupeLoop api role deps seen []

/-! ## Parsing -/

omit [DecidableEq Json] in
/-- `nested_owner`: which supplied schema defines `name`, but only as a type nested inside
    itself. -/
def nestedOwner (name : String) : List String → Option String
  | [] => none
  | dependency :: dependencies =>
      match api.parseStr dependency with
      | .error _ => nestedOwner name dependencies
      | .ok schema =>
          if nameOf api schema = some name then nestedOwner name dependencies
          else if name ∈ (namesOf api schema).defines then
            some ((nameOf api schema).getD "another supplied schema")
          else nestedOwner name dependencies

def unknownType : String := "Unknown primitive type: "

/-- `parse_failed`: translate the Avro parser's message for a name it could not resolve. -/
def parseFailed (message : String) (role : SchemaRole) (dependencies : List String) :
    SchemaRegError :=
  if unknownType.toList.isPrefixOf message.toList then
    let name := String.ofList (message.toList.drop unknownType.toList.length)
    match nestedOwner api name dependencies with
    | some owner => nestedDefinition name (some owner) role
    | none => missingDefinition name none role
  else if dependencies.isEmpty then .config ("invalid " ++ role.subject ++ ": " ++ message)
  else
    .config ("invalid " ++ role.subject ++ " (with " ++ toString dependencies.length ++
      " referenced schema(s)): " ++ message)

/-- A parsed Avro schema plus the referenced schemas it needs to be usable. -/
structure ResolvedAvroSchema (Rest : Type) where
  root : AvroSchema Rest
  schemata : List (AvroSchema Rest)

def dependsOnTooMany (role : SchemaRole) (count : Nat) : SchemaRegError :=
  .config (role.subject ++ " depends on " ++ toString count ++ " schemas, more than the " ++
    toString maxReferences ++ " supported")

namespace ResolvedAvroSchema

omit [DecidableEq Json] in
/-- `parse`, with the dependencies that are kept. The root goes last, so that it can be picked
    back out. -/
def parseInputs (schemaStr : String) (inputs : List String) (role : SchemaRole) :
    Result (ResolvedAvroSchema Rest) :=
  if inputs.isEmpty then
    match api.parseStr schemaStr with
    | .error e => .error (parseFailed api e role [])
    | .ok root => .ok ⟨root, []⟩
  else
    match api.parseList (inputs ++ [schemaStr]) with
    | .error e => .error (parseFailed api e role inputs)
    | .ok parsed =>
        match parsed.getLast? with
        | none => .error (.config "Avro schema list resolved to nothing")
        | some root => do return ⟨root, ← orderSchemata api parsed role⟩

/-- Parse a schema together with the schemas it depends on. -/
def parse (schemaStr : String) (deps : List String) (role : SchemaRole) :
    Result (ResolvedAvroSchema Rest) :=
  if deps.length > maxReferences then .error (dependsOnTooMany role deps.length)
  else
    (if deps.isEmpty then .ok [] else dedupeDependencies api schemaStr deps role) >>=
      fun inputs => parseInputs api schemaStr inputs role

end ResolvedAvroSchema

end Schemreg.Avro
