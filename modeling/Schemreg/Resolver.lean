import Schemreg.Lib.Dialogue
import Schemreg.Wire.Model

/-
  `src/resolver.rs`: from a subject to the identifier that an encoder frames with.

  `resolve_schema_key` awaits the registry once or twice. It is a `Program` over the calls of
  `SchemaRegistryClient` that it makes, because other calls run while it waits. `Resolved` lists
  the dialogues that end with a key.
-/

namespace Schemreg.Resolver

open Dialogue

/-- How an encoder turns a subject into an identifier. -/
inductive SchemaResolution where
  | autoRegister
  | lookupOnly
  | useLatestVersion
  deriving DecidableEq, Repr

def SchemaResolution.writesToRegistry : SchemaResolution → Bool
  | .autoRegister => true
  | .lookupOnly | .useLatestVersion => false

/-- Which wire-format version an encoder emits. -/
inductive Framing where
  | schemaId
  | schemaGuid
  deriving DecidableEq, Repr

/-- Whatever identifiers the registry reported for a subject. -/
structure ResolvedIdentity where
  id : Option SchemaId
  guid : Option SchemaGuid

/-- Pick the identifier this framing needs. -/
def Framing.select (framing : Framing) (resolved : ResolvedIdentity) (subject : String) :
    Result SchemaKey :=
  match framing with
  | .schemaId =>
      match resolved.id with
      | some id => .ok (.id id)
      | none => .error (.invalidState ("the registry reported no numeric schema ID for subject '" ++
          subject ++ "', which wire format v0 framing requires"))
  | .schemaGuid =>
      match resolved.guid with
      | some guid => .ok (.guid guid)
      | none => .error (.notSupported ("the registry reported no schema GUID for subject '" ++
          subject ++ "'. Wire format v1 framing needs Confluent Platform 8 or newer; " ++
          "use Framing::SchemaId against an older registry"))

/-- The identifiers that a framing puts on the wire. -/
def Framing.Takes : Framing → SchemaKey → Prop
  | .schemaId, .id _ | .schemaGuid, .guid _ => True
  | _, _ => False

/-- `subject_resolution_cancelled`. -/
def subjectResolutionCancelled (subject : String) : SchemaRegError :=
  .invalidState ("schema resolution cancelled before completion for subject '" ++ subject ++ "'")

/-! ## The dialogue with the registry -/

/-- The calls that a resolution makes. -/
inductive Call where
  | registerSchema (subject schema : String) (schemaType : SchemaType)
      (references : List SchemaReference)
  | lookupSchema (subject schema : String) (schemaType : SchemaType)
      (references : List SchemaReference)
  | getLatestSchema (subject : String)
  | getSchemaById (id : SchemaId)
  deriving DecidableEq

abbrev Call.Answer : Call → Type
  | .registerSchema .. => SchemaId
  | .lookupSchema .. => Option Schema
  | .getLatestSchema _ => Schema
  | .getSchemaById _ => Schema

abbrev Response (call : Call) : Type := Result call.Answer

abbrev Resolution := Program Call Response (Result SchemaKey)

abbrev Exchange := Dialogue.Exchange Call Response

/-- `call.await?`. -/
def await (call : Call) (next : call.Answer → Resolution) : Resolution :=
  .ask call fun
    | .ok answer => next answer
    | .error err => .done (.error err)

/-- v1 framing with no GUID reported: fetch the schema that the numeric ID names. -/
def learnGuid (framing : Framing) (subject : String) (resolved : ResolvedIdentity) : Resolution :=
  match framing, resolved.guid, resolved.id with
  | .schemaGuid, none, some id =>
      await (.getSchemaById id) fun schema =>
        .done (framing.select { resolved with guid := schema.guid } subject)
  | _, _, _ => .done (framing.select resolved subject)

def notRegistered (subject : String) : SchemaRegError :=
  .api ErrorCode.schemaNotFound ("subject '" ++ subject ++ "' has no registered version " ++
    "matching this encoder's schema, and SchemaResolution::LookupOnly forbids creating one. " ++
    "Register the schema out of band, or switch to SchemaResolution::AutoRegister")

/-- `resolve_schema_key`. -/
def resolveSchemaKey (resolution : SchemaResolution) (framing : Framing) (subject schema : String)
    (schemaType : SchemaType) (references : List SchemaReference) : Resolution :=
  match resolution with
  | .autoRegister =>
      await (.registerSchema subject schema schemaType references) fun id =>
        learnGuid framing subject ⟨some id, none⟩
  | .lookupOnly =>
      await (.lookupSchema subject schema schemaType references) fun
        | some found => learnGuid framing subject ⟨found.id, found.guid⟩
        | none => .done (.error (notRegistered subject))
  | .useLatestVersion =>
      await (.getLatestSchema subject) fun latest =>
        learnGuid framing subject ⟨latest.id, latest.guid⟩

/-! ## What a resolution comes to -/

/-- The key that a framing gets out of the reported identifiers, and what it takes. -/
inductive Learned (resolved : ResolvedIdentity) : Framing → List Exchange → SchemaKey → Prop where
  | id {id} (known : resolved.id = some id) : Learned resolved .schemaId [] (.id id)
  | guid {guid} (known : resolved.guid = some guid) : Learned resolved .schemaGuid [] (.guid guid)
  | fetched {id schema guid} (missing : resolved.guid = none) (known : resolved.id = some id)
      (reported : schema.guid = some guid) :
      Learned resolved .schemaGuid [⟨.getSchemaById id, .ok schema⟩] (.guid guid)

/-- The dialogues about a subject that end with a key. -/
inductive Resolved (framing : Framing) (subject schema : String) (schemaType : SchemaType)
    (references : List SchemaReference) :
    SchemaResolution → List Exchange → SchemaKey → Prop where
  | registered {id xs key} (learned : Learned ⟨some id, none⟩ framing xs key) :
      Resolved framing subject schema schemaType references .autoRegister
        (⟨.registerSchema subject schema schemaType references, .ok id⟩ :: xs) key
  | found {found xs key} (learned : Learned ⟨found.id, found.guid⟩ framing xs key) :
      Resolved framing subject schema schemaType references .lookupOnly
        (⟨.lookupSchema subject schema schemaType references, .ok (some found)⟩ :: xs) key
  | latest {latest xs key} (learned : Learned ⟨latest.id, latest.guid⟩ framing xs key) :
      Resolved framing subject schema schemaType references .useLatestVersion
        (⟨.getLatestSchema subject, .ok latest⟩ :: xs) key

variable {resolution : SchemaResolution} {framing : Framing} {subject schema : String}
  {schemaType : SchemaType} {references : List SchemaReference} {resolved : ResolvedIdentity}
  {xs : List Exchange} {key : SchemaKey}

theorem done_leads {result result' : Result SchemaKey}
    (h : Program.Leads (.done result : Resolution) xs (.done result')) :
    xs = [] ∧ result = result' := by
  cases h
  exact ⟨rfl, rfl⟩

/-- A call whose answer leads to a key was answered. -/
theorem await_leads {call : Call} {next : call.Answer → Resolution}
    (h : (await call next).Leads xs (.done (.ok key))) :
    ∃ answer rest, xs = ⟨call, .ok answer⟩ :: rest ∧
      (next answer).Leads rest (.done (.ok key)) := by
  cases h with
  | answer a rest =>
    cases a with
    | ok answer => exact ⟨answer, _, rfl, rest⟩
    | error err => cases (done_leads rest).2

theorem select_eq_ok : framing.select resolved subject = .ok key ↔
    (framing = .schemaId ∧ ∃ id, resolved.id = some id ∧ key = .id id) ∨
      (framing = .schemaGuid ∧ ∃ guid, resolved.guid = some guid ∧ key = .guid guid) := by
  obtain ⟨id, guid⟩ := resolved
  cases framing with
  | schemaId => cases id <;> simp [Framing.select, eq_comm]
  | schemaGuid => cases guid <;> simp [Framing.select, eq_comm]

theorem learned_of_select (h : framing.select resolved subject = .ok key) :
    Learned resolved framing [] key := by
  rcases select_eq_ok.mp h with ⟨rfl, id, known, rfl⟩ | ⟨rfl, guid, known, rfl⟩
  · exact .id known
  · exact .guid known

theorem learnGuid_cases (h : (learnGuid framing subject resolved).Leads xs (.done (.ok key))) :
    Learned resolved framing xs key := by
  unfold learnGuid at h
  split at h
  · rename_i id missing known
    obtain ⟨schema, rest, rfl, hrest⟩ := await_leads h
    obtain ⟨rfl, hselect⟩ := done_leads hrest
    rcases select_eq_ok.mp hselect with ⟨hframing, -⟩ | ⟨-, guid, reported, rfl⟩
    · cases hframing
    · exact .fetched missing known reported
  · obtain ⟨rfl, hselect⟩ := done_leads h
    exact learned_of_select hselect

/-- The inversion of `resolve_schema_key`. -/
theorem resolve_cases
    (h : (resolveSchemaKey resolution framing subject schema schemaType references).Leads xs
      (.done (.ok key))) :
    Resolved framing subject schema schemaType references resolution xs key := by
  cases resolution with
  | autoRegister =>
    obtain ⟨id, rest, rfl, hrest⟩ := await_leads h
    exact .registered (learnGuid_cases hrest)
  | lookupOnly =>
    obtain ⟨answer, rest, rfl, hrest⟩ := await_leads h
    cases answer with
    | some found => exact .found (learnGuid_cases hrest)
    | none => cases (done_leads hrest).2
  | useLatestVersion =>
    obtain ⟨latest, rest, rfl, hrest⟩ := await_leads h
    exact .latest (learnGuid_cases hrest)

theorem Learned.takes (h : Learned resolved framing xs key) : framing.Takes key := by
  cases h <;> trivial

/-- A resolution ends with a key of the kind that its framing puts on the wire. -/
theorem Resolved.takes
    (h : Resolved framing subject schema schemaType references resolution xs key) :
    framing.Takes key := by
  cases h with
  | registered learned | found learned | latest learned => exact learned.takes

/-- The calls that a resolution of the subject may make. -/
def Allowed (framing : Framing) (subject schema : String) (schemaType : SchemaType)
    (references : List SchemaReference) : SchemaResolution → Call → Prop
  | .autoRegister, .registerSchema subject' schema' schemaType' references' =>
      subject' = subject ∧ schema' = schema ∧ schemaType' = schemaType ∧ references' = references
  | .lookupOnly, .lookupSchema subject' schema' schemaType' references' =>
      subject' = subject ∧ schema' = schema ∧ schemaType' = schemaType ∧ references' = references
  | .useLatestVersion, .getLatestSchema subject' => subject' = subject
  | _, .getSchemaById _ => framing = .schemaGuid
  | _, _ => False

theorem await_asks {call : Call} {next : call.Answer → Resolution} {allowed : Call → Prop}
    (hcall : allowed call) (hnext : ∀ answer, (next answer).Asks allowed) :
    (await call next).Asks allowed := by
  refine ⟨hcall, fun answer => ?_⟩
  cases answer with
  | ok answer => exact hnext answer
  | error err => exact trivial

theorem learnGuid_asks {allowed : Call → Prop}
    (h : framing = .schemaGuid → ∀ id, allowed (.getSchemaById id)) :
    (learnGuid framing subject resolved).Asks allowed := by
  unfold learnGuid
  split
  · exact await_asks (h rfl _) fun _ => trivial
  · exact trivial

/-- A resolution asks about its own subject, and it registers only where it may. -/
theorem resolve_asks :
    (resolveSchemaKey resolution framing subject schema schemaType references).Asks
      (Allowed framing subject schema schemaType references resolution) := by
  cases resolution with
  | autoRegister =>
    exact await_asks ⟨rfl, rfl, rfl, rfl⟩ fun id => learnGuid_asks fun h _ => h
  | lookupOnly =>
    refine await_asks ⟨rfl, rfl, rfl, rfl⟩ fun answer => ?_
    cases answer with
    | some found => exact learnGuid_asks fun h _ => h
    | none => exact trivial
  | useLatestVersion =>
    have hcall : Allowed framing subject schema schemaType references .useLatestVersion
        (.getLatestSchema subject) := rfl
    exact await_asks hcall fun latest => learnGuid_asks fun h _ => h

/-- Only a mode that writes registers. -/
theorem writes_of_allowed {s t : String} {ty : SchemaType} {refs : List SchemaReference}
    (h : Allowed framing subject schema schemaType references resolution
      (.registerSchema s t ty refs)) : resolution.writesToRegistry = true := by
  cases resolution with
  | autoRegister => rfl
  | lookupOnly => cases h
  | useLatestVersion => cases h

end Schemreg.Resolver
