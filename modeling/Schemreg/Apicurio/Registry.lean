import Mathlib.Logic.Function.Basic
import Schemreg.Apicurio.Model
import Schemreg.Traits

/-
  The operations of the Apicurio client that act on a subject, and the registry that they
  talk to.

  As for Confluent, the registry is the state machine that the crate's documentation describes:
  an artifact is created if it does not exist, known content is found again, there is no soft
  deletion, and a rule is created by one request and updated by another.
-/

namespace Schemreg.Apicurio

open Retry

/-- `ArtifactReferenceJson`. -/
structure ArtifactReferenceJson where
  groupId : Option String
  artifactId : String
  version : String
  name : String
  deriving DecidableEq

/-- `VersionContentRequest`. -/
structure VersionContentRequest where
  content : String
  contentType : String
  references : List ArtifactReferenceJson
  deriving DecidableEq

/-- The owner of a compatibility rule: an artifact, or the whole registry. -/
abbrev RuleScope := Option ArtifactId

/-- The requests of the operations, by what their URL and body are made of. -/
inductive Request where
  | createArtifact (artifact : ArtifactId) (artifactType : String) (body : VersionContentRequest)
  | searchVersions (artifact : ArtifactId) (artifactType contentType content : String)
  | listVersions (artifact : ArtifactId) (offset : Nat)
  | deleteArtifact (artifact : ArtifactId)
  | deleteVersion (artifact : ArtifactId) (expression : String)
  | putRule (scope : RuleScope) (level : CompatibilityLevel)
  | postRule (scope : RuleScope) (level : CompatibilityLevel)

def pageSize : Nat := 500

/-! ## The registry -/

structure StoredVersion where
  globalId : Int64
  name : String
  content : VersionContentRequest
  deriving DecidableEq

/-- An artifact: its versions in order, how many there have been, and its rule. -/
structure Artifact where
  artifactType : String
  versions : List StoredVersion
  created : Nat
  rule : Option CompatibilityLevel

structure Registry where
  artifacts : ArtifactId → Option Artifact
  created : Nat
  rule : Option CompatibilityLevel

/-- What a registry decides by. -/
structure Policy where
  compatible : Option CompatibilityLevel → List VersionContentRequest → VersionContentRequest →
    Bool
  deletesVersions : Bool

inductive Answer where
  | created (globalId : Int64)
  | found (artifactType : String) (versions : List StoredVersion)
  | page (versions : List StoredVersion) (count : Nat)
  | rule (level : CompatibilityLevel)
  | noContent
  | refused (status : UInt16) (message : String)

def Answer.status : Answer → UInt16
  | .noContent => 204
  | .refused status _ => status
  | _ => 200

namespace Registry

def store (registry : Registry) (id : ArtifactId) (artifact : Option Artifact) : Registry :=
  { registry with artifacts := Function.update registry.artifacts id artifact }

/-- The artifact with the content as its next version. -/
def add (registry : Registry) (id : ArtifactId) (artifact : Artifact)
    (content : VersionContentRequest) : Answer × Registry :=
  let globalId := Int64.ofNat (registry.created + 1)
  let stored : StoredVersion := ⟨globalId, toString (artifact.created + 1), content⟩
  (.created globalId,
    { registry.store id (some { artifact with
        versions := artifact.versions ++ [stored]
        created := artifact.created + 1 }) with created := registry.created + 1 })

/-- `ifExists=FIND_OR_CREATE_VERSION`. -/
def createArtifact (policy : Policy) (registry : Registry) (id : ArtifactId)
    (artifactType : String) (content : VersionContentRequest) : Answer × Registry :=
  let artifact := (registry.artifacts id).getD ⟨artifactType, [], 0, none⟩
  match artifact.versions.find? fun v => v.content = content with
  | some stored => (.created stored.globalId, registry)
  | none =>
      if policy.compatible (artifact.rule.or registry.rule)
          (artifact.versions.map StoredVersion.content) content then
        registry.add id artifact content
      else (.refused 409 "Incompatible artifact", registry)

def searchVersions (registry : Registry) (id : ArtifactId)
    (artifactType contentType content : String) : Answer :=
  match registry.artifacts id with
  | some artifact =>
      if artifact.artifactType = artifactType then
        .found artifactType ((artifact.versions.filter fun v =>
          v.content = ⟨content, contentType, []⟩).take 1)
      else .found artifactType []
  | none => .refused 404 "No artifact found"

def listVersions (registry : Registry) (id : ArtifactId) (offset : Nat) : Answer :=
  match registry.artifacts id with
  | some artifact =>
      .page ((artifact.versions.drop offset).take pageSize) artifact.versions.length
  | none => .refused 404 "No artifact found"

def deleteArtifact (registry : Registry) (id : ArtifactId) : Answer × Registry :=
  match registry.artifacts id with
  | some _ => (.noContent, registry.store id none)
  | none => (.refused 404 "No artifact found", registry)

/-- The version that an expression stands for. -/
def versionOf (artifact : Artifact) (expression : String) : Option StoredVersion :=
  if expression = latestVersionExpression then artifact.versions.getLast?
  else artifact.versions.find? fun v => v.name = expression

/-- Version deletion is disabled by default. -/
def deleteVersion (policy : Policy) (registry : Registry) (id : ArtifactId)
    (expression : String) : Answer × Registry :=
  if policy.deletesVersions then
    match registry.artifacts id with
    | some artifact =>
        match versionOf artifact expression with
        | some stored =>
            (.noContent, registry.store id (some { artifact with
              versions := artifact.versions.filter fun v => v.name ≠ stored.name }))
        | none => (.refused 404 "No version found", registry)
    | none => (.refused 404 "No artifact found", registry)
  else (.refused 405 "Artifact version deletion operation is not enabled", registry)

/-- The rule of a scope, or `none` if there is no such artifact. -/
def ruleOf (registry : Registry) : RuleScope → Option (Option CompatibilityLevel)
  | none => some registry.rule
  | some id => (registry.artifacts id).map Artifact.rule

def setRule (registry : Registry) (level : CompatibilityLevel) : RuleScope → Registry
  | none => { registry with rule := some level }
  | some id => registry.store id ((registry.artifacts id).map fun a => { a with rule := some level })

/-- `PUT` updates a rule that exists. -/
def putRule (registry : Registry) (scope : RuleScope) (level : CompatibilityLevel) :
    Answer × Registry :=
  match registry.ruleOf scope with
  | some (some _) => (.rule level, registry.setRule level scope)
  | some none => (.refused 404 "No rule named 'COMPATIBILITY' was found", registry)
  | none => (.refused 404 "No artifact found", registry)

/-- `POST` creates a rule that does not. -/
def postRule (registry : Registry) (scope : RuleScope) (level : CompatibilityLevel) :
    Answer × Registry :=
  match registry.ruleOf scope with
  | some (some _) => (.refused 409 "A rule named 'COMPATIBILITY' already exists", registry)
  | some none => (.noContent, registry.setRule level scope)
  | none => (.refused 404 "No artifact found", registry)

theorem putRule_of_rule {registry : Registry} {scope : RuleScope} {old level : CompatibilityLevel}
    (h : registry.ruleOf scope = some (some old)) :
    registry.putRule scope level = (.rule level, registry.setRule level scope) := by
  unfold putRule
  rw [h]

theorem putRule_of_none {registry : Registry} {scope : RuleScope} {level : CompatibilityLevel}
    (h : registry.ruleOf scope = some none) : registry.putRule scope level =
      (.refused 404 "No rule named 'COMPATIBILITY' was found", registry) := by
  unfold putRule
  rw [h]

theorem postRule_of_rule {registry : Registry} {scope : RuleScope}
    {old level : CompatibilityLevel} (h : registry.ruleOf scope = some (some old)) :
    registry.postRule scope level =
      (.refused 409 "A rule named 'COMPATIBILITY' already exists", registry) := by
  unfold postRule
  rw [h]

theorem postRule_of_none {registry : Registry} {scope : RuleScope} {level : CompatibilityLevel}
    (h : registry.ruleOf scope = some none) :
    registry.postRule scope level = (.noContent, registry.setRule level scope) := by
  unfold postRule
  rw [h]

def apply (policy : Policy) (registry : Registry) : Request → Answer × Registry
  | .createArtifact id artifactType body => registry.createArtifact policy id artifactType body
  | .searchVersions id artifactType contentType content =>
      (registry.searchVersions id artifactType contentType content, registry)
  | .listVersions id offset => (registry.listVersions id offset, registry)
  | .deleteArtifact id => registry.deleteArtifact id
  | .deleteVersion id expression => registry.deleteVersion policy id expression
  | .putRule scope level => registry.putRule scope level
  | .postRule scope level => registry.postRule scope level

end Registry

/-- The registry behind its HTTP interface. -/
def serve (policy : Policy) (respond : Answer → HttpResponse) (req : Request)
    (registry : Registry) : HttpResponse × Registry :=
  let (answer, registry) := registry.apply policy req
  (respond answer, registry)

/-! ## The client -/

/-- `ArtifactVersionList`: the `version` of each entry, and the total number. -/
structure ArtifactVersionList where
  versions : List (Option Value)
  count : Option Int64

/-- `serde_json::from_slice` at the types that the operations decode. `VersionSearchResults`
    lists what `VersionMetaData` has. -/
structure OperationSerde extends Serde where
  createArtifactResponse : List UInt8 → Except String Int64
  versionSearchResults : List UInt8 → Except String (List VersionMetaData)
  artifactVersionList : List UInt8 → Except String ArtifactVersionList
  value : List UInt8 → Except String Unit

/-- `schema_content_type`. -/
def schemaContentType : SchemaType → String
  | .avro | .json => "application/json"
  | .protobuf => "application/x-protobuf"

def toReferenceJson (refs : List SchemaReference) : List ArtifactReferenceJson :=
  refs.map fun r =>
    let artifact := ArtifactId.fromSubject r.subject
    ⟨some artifact.group, artifact.artifact, toString r.version.asI32.toInt, r.name⟩

variable (serde : OperationSerde)

/-- `handle_json_response`, with the decoder of the expected type. -/
def handleJsonAs {T : Type} (decode : List UInt8 → Except String T) (resp : HttpResponse) :
    Result T :=
  if isSuccess resp.status then
    match decode resp.body with
    | .ok value => .ok value
    | .error e => .error (.invalidState ("failed to parse Apicurio response: " ++ e))
  else
    let msg := parseErrorBody serde.toSerde resp.body
    if resp.status = 401 ∨ resp.status = 403 then .error (.auth resp.status msg)
    else if resp.status = 404 then .error (.api 40401 msg)
    else if resp.status = 409 then .error (.api 40902 msg)
    else .error (.http resp.status msg)

/-- `post_no_content`, from the response on. -/
def postNoContent (resp : HttpResponse) : Result Unit :=
  if isSuccess resp.status then .ok ()
  else
    let msg := parseErrorBody serde.toSerde resp.body
    if resp.status = 401 ∨ resp.status = 403 then .error (.auth resp.status msg)
    else if resp.status = 404 then .error (.api 40401 msg)
    else if resp.status = 409 then .error (.api 40902 msg)
    else .error (.http resp.status msg)

/-- `delete_no_content`, from the response on. -/
def deleteNoContent (resp : HttpResponse) : Result Unit :=
  let msg := parseErrorBody serde.toSerde resp.body
  if resp.status = 404 then .error (.api 40401 msg)
  else if resp.status = 401 ∨ resp.status = 403 then .error (.auth resp.status msg)
  else if resp.status = 204 || isSuccess resp.status then .ok ()
  else .error (.http resp.status msg)

/-- What `lookup_schema_impl` makes of the results. -/
def schemaOfHit (subject schema : String) (schemaType : SchemaType) :
    List VersionMetaData → Result (Option Schema)
  | [] => .ok none
  | hit :: _ => do
      let schemaType ← match hit.artifactType with
        | some s => SchemaType.fromStr s
        | none => .ok schemaType
      let id ← globalIdToSchemaId hit.globalId
      return some ⟨some id, none, schemaType, schema, hit.version.bind parseVersion,
        some (resolvedSubject hit subject), []⟩

/-- `rule_scope`. -/
def ruleScope (subject : String) : Result RuleScope :=
  if subject.isEmpty then .ok none else (artifactId subject).map some

/-- The loop of `list_versions` from an offset on, of at most so many pages. What follows it is
    `next`. -/
def listVersions (artifact : ArtifactId) (next : Result (List SchemaVersion) → Requests Request) :
    Nat → Nat → List SchemaVersion → Requests Request
  | 0, _, _ => .done none
  | pages + 1, offset, versions =>
      .send (.listVersions artifact offset) fun answer =>
        match answer >>= handleJsonAs serde serde.artifactVersionList with
        | .error err => next (.error err)
        | .ok page =>
            let returned := page.versions.length
            if returned = 0 then next (.ok versions)
            else
              let versions := versions ++ page.versions.filterMap fun v => v.bind parseVersion
              let offset := offset + returned
              if returned < pageSize then next (.ok versions)
              else
                match page.count with
                | some total =>
                    if total.toInt ≤ offset then next (.ok versions)
                    else listVersions artifact next pages offset versions
                | none => listVersions artifact next pages offset versions

/-- `register_schema_impl`. -/
def registerSchema (subject schema : String) (schemaType : SchemaType)
    (references : List SchemaReference) : Requests Request :=
  match artifactId subject with
  | .error err => .done (some (.error err))
  | .ok artifact =>
      .send (.createArtifact artifact schemaType.asStr
        ⟨schema, schemaContentType schemaType, toReferenceJson references⟩) fun answer =>
          .done (some do
            let globalId ← handleJsonAs serde serde.createArtifactResponse (← answer)
            return .id (← globalIdToSchemaId globalId))

/-- `lookup_schema_impl`. -/
def lookupSchema (subject schema : String) (schemaType : SchemaType) : Requests Request :=
  match artifactId subject with
  | .error err => .done (some (.error err))
  | .ok artifact =>
      .send (.searchVersions artifact schemaType.asStr (schemaContentType schemaType) schema)
        fun answer => .done (some
          (match answer >>= handleJsonAs serde serde.versionSearchResults with
          | .ok found => (schemaOfHit subject schema schemaType found).map .found
          | .error e => if e.isNotFound then .ok (.found none) else .error e))

/-- `delete_subject`. The listing validates the subject as well, but its errors are no errors
    here. -/
def deleteSubject (pages : Nat) (subject : String) : Requests Request :=
  match artifactId subject with
  | .error err => .done (some (.error err))
  | .ok artifact =>
      listVersions serde artifact (fun versions =>
        .send (.deleteArtifact artifact) fun answer =>
          .done (some do
            deleteNoContent serde (← answer)
            return .versions (versions.toOption.getD []))) pages 0 []

/-- `delete_version`. -/
def deleteVersion (subject : String) (version : SchemaVersion) : Requests Request :=
  match artifactId subject with
  | .error err => .done (some (.error err))
  | .ok artifact =>
      .send (.deleteVersion artifact (versionExpression version)) fun answer =>
        .done (some do
          deleteNoContent serde (← answer)
          return .version version)

/-- `set_compatibility`: a rule that is not found is created. -/
def setCompatibility (subject : String) (level : CompatibilityLevel) : Requests Request :=
  match ruleScope subject with
  | .error err => .done (some (.error err))
  | .ok scope =>
      .send (.putRule scope level) fun answer =>
        match answer >>= handleJsonAs serde serde.value with
        | .ok _ => .done (some (.ok .unit))
        | .error e =>
            if e.isNotFound then
              .send (.postRule scope level) fun answer =>
                .done (some do
                  postNoContent serde (← answer)
                  return .unit)
            else .done (some (.error e))

/-- The requests of an operation. -/
def program (pages : Nat) : Operation → Requests Request
  | .registerSchema subject schema schemaType references =>
      registerSchema serde subject schema schemaType references
  | .lookupSchema subject schema schemaType _ => lookupSchema serde subject schema schemaType
  | .deleteSubject subject _ => deleteSubject serde pages subject
  | .deleteVersion subject version _ => deleteVersion serde subject version
  | .setCompatibility subject level => setCompatibility serde subject level

end Schemreg.Apicurio
