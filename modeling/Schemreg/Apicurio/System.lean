import Schemreg.Apicurio.Model
import Schemreg.Cache.Step

/-
  The cache over the Apicurio client, next to other clients that register versions.

  The registry is a list to which versions are only appended. A lookup by subject sends two
  GETs (`metaData`, then `content`), and registrations may land between them. `received` is
  the version whose metadata the first GET has returned; the client reads nothing of it but
  the metadata. Every request may fail with any error (`fail`); a server that has nothing to
  return is such a failure.
-/

namespace Schemreg.Apicurio

open Cache
open CacheInner (CallId)

/-- A registered version: its name, its metadata and its content, as it is and with its
    references inlined. -/
structure Registered where
  artifact : ArtifactId
  name : String
  metaData : VersionMetaData
  body : Bool → List UInt8

namespace Registered

/-- The answer of the content route. -/
def content (r : Registered) (dereference : Bool) : HttpResponse := ⟨200, [], r.body dereference⟩

/-- The answer of `/ids/globalIds/{id}`, which reports the artifact type. -/
def byGlobalId (r : Registered) (dereference : Bool) : HttpResponse :=
  ⟨200, (r.metaData.artifactType.map fun s => (hdrArtifactType, s)).toList, r.body dereference⟩

/-- The version has a global ID and a name that no other has had. -/
def isNew (r : Registered) (registry : List Registered) : Bool :=
  registry.all fun old =>
    old.metaData.globalId ≠ r.metaData.globalId ∧ ¬ (old.artifact = r.artifact ∧ old.name = r.name)

end Registered

/-- What a version expression stands for. -/
def resolve (registry : List Registered) (artifact : ArtifactId) (expression : String) :
    Option Registered :=
  if expression = latestVersionExpression then
    registry.reverse.find? fun r => r.artifact = artifact
  else registry.find? fun r => r.artifact = artifact ∧ r.name = expression

/-- The artifact and the version expression of a lookup by subject, and the subject. -/
def asked : Lookup → Option (ArtifactId × String × String)
  | .latest subject =>
      (artifactId subject).toOption.map fun artifact =>
        (artifact, latestVersionExpression, subject)
  | .byVersion subject version =>
      (artifactId subject).toOption.map fun artifact =>
        (artifact, versionExpression version, subject)
  | .byKey _ _ => none

/-- The ID that a call fetches. -/
def askedId : Phase → Option SchemaId
  | .looking .id id _ | .child _ id => some id
  | _ => none

structure System where
  cache : State
  registry : List Registered
  received : CallId → Option Registered

inductive SystemEvent where
  | cache (e : Event)
  | register (r : Registered)
  | metaData (c : CallId)
  | content (c : CallId)
  | globalId (c : CallId)
  | fail (c : CallId) (err : SchemaRegError)

namespace System

def init (maxEntries : Nat) : System := ⟨State.withMaxEntries maxEntries, [], fun _ => none⟩

/-- One step of the cache. -/
def cacheStep (s : System) (e : Event) : Option System :=
  (Cache.step s.cache e).map fun cache => { s with cache := cache }

/-- The answer to the first GET of a lookup by subject. -/
def metaDataGet (s : System) (c : CallId) : Option System :=
  match s.cache.calls c, s.received c with
  | .fetching request _, none =>
      match asked request with
      | some (artifact, expression, _) =>
          (resolve s.registry artifact expression).map fun r =>
            { s with received := Function.update s.received c (some r) }
      | none => none
  | _, _ => none

/-- The answer to the second GET, which completes the lookup. -/
def contentGet (dereference : Bool) (s : System) (c : CallId) : Option System :=
  match s.cache.calls c, s.received c with
  | .fetching request _, some r =>
      match asked request with
      | some (artifact, expression, subject) =>
          (resolve s.registry artifact expression).bind fun now =>
            s.cacheStep (.reply c (combine r.metaData (now.content dereference) subject))
      | none => none
  | _, _ => none

/-- The answer to the GET of a lookup by ID. -/
def globalIdGet (dereference : Bool) (s : System) (c : CallId) : Option System :=
  match askedId (s.cache.calls c) with
  | some id =>
      (s.registry.find? fun r => globalIdToSchemaId r.metaData.globalId = .ok id).bind fun r =>
        s.cacheStep (.reply c (schemaFromGlobalIdResponse (r.byGlobalId dereference) id))
  | none => none

end System

/-- One step of the system. A reply to the cache is the end of a request, and is no event of
    its own. -/
def step (dereference : Bool) (s : System) : SystemEvent → Option System
  | .cache (.reply _ _) => none
  | .cache e => s.cacheStep e
  | .register r => if r.isNew s.registry then some { s with registry := s.registry ++ [r] } else none
  | .metaData c => s.metaDataGet c
  | .content c => s.contentGet dereference c
  | .globalId c => s.globalIdGet dereference c
  | .fail c err => s.cacheStep (.reply c (.error err))

/-! ## The steps -/

/-- The steps of the system. -/
inductive Step (dereference : Bool) (s : System) : SystemEvent → System → Prop where
  | cache {e i} (silent : ∀ c r, e ≠ .reply c r) (inner : Cache.step s.cache e = some i) :
      Step dereference s (.cache e) { s with cache := i }
  | register {r} (new : r.isNew s.registry = true) :
      Step dereference s (.register r) { s with registry := s.registry ++ [r] }
  | metaData {c request gens artifact expression subject r}
      (phase : s.cache.calls c = .fetching request gens) (first : s.received c = none)
      (asks : asked request = some (artifact, expression, subject))
      (found : resolve s.registry artifact expression = some r) :
      Step dereference s (.metaData c) { s with received := Function.update s.received c (some r) }
  | content {c request gens artifact expression subject r now i}
      (phase : s.cache.calls c = .fetching request gens) (second : s.received c = some r)
      (asks : asked request = some (artifact, expression, subject))
      (found : resolve s.registry artifact expression = some now)
      (inner : Cache.step s.cache
        (.reply c (combine r.metaData (now.content dereference) subject)) = some i) :
      Step dereference s (.content c) { s with cache := i }
  | globalId {c id r i} (asks : askedId (s.cache.calls c) = some id) (found : r ∈ s.registry)
      (same : globalIdToSchemaId r.metaData.globalId = .ok id)
      (inner : Cache.step s.cache
        (.reply c (schemaFromGlobalIdResponse (r.byGlobalId dereference) id)) = some i) :
      Step dereference s (.globalId c) { s with cache := i }
  | fail {c err i} (inner : Cache.step s.cache (.reply c (.error err)) = some i) :
      Step dereference s (.fail c err) { s with cache := i }

theorem cacheStep_eq_some {s t : System} {e : Event} :
    s.cacheStep e = some t ↔ ∃ i, Cache.step s.cache e = some i ∧ { s with cache := i } = t := by
  simp [System.cacheStep, Option.map_eq_some_iff]

/-- The inversion of `step`. -/
theorem step_cases {dereference : Bool} {s t : System} {e : SystemEvent}
    (h : step dereference s e = some t) : Step dereference s e t := by
  cases e with
  | cache e =>
    have silent : ∀ c r, e ≠ .reply c r := by
      rintro c r rfl
      cases h
    have hstep : s.cacheStep e = some t := by
      cases e <;> first | exact h | cases h
    obtain ⟨i, inner, rfl⟩ := cacheStep_eq_some.mp hstep
    exact .cache silent inner
  | register r =>
    simp only [step] at h
    split at h
    · rename_i new
      cases h
      exact .register new
    · cases h
  | metaData c =>
    simp only [step, System.metaDataGet] at h
    split at h
    · rename_i phase first
      split at h
      · rename_i asks
        obtain ⟨r, found, rfl⟩ := Option.map_eq_some_iff.mp h
        exact .metaData phase first asks found
      · cases h
    · cases h
  | content c =>
    simp only [step, System.contentGet] at h
    split at h
    · rename_i phase second
      split at h
      · rename_i asks
        obtain ⟨now, found, h⟩ := Option.bind_eq_some_iff.mp h
        obtain ⟨i, inner, rfl⟩ := cacheStep_eq_some.mp h
        exact .content phase second asks found inner
      · cases h
    · cases h
  | globalId c =>
    simp only [step, System.globalIdGet] at h
    split at h
    · rename_i asks
      obtain ⟨r, found, h⟩ := Option.bind_eq_some_iff.mp h
      obtain ⟨i, inner, rfl⟩ := cacheStep_eq_some.mp h
      exact .globalId asks (List.mem_of_find?_eq_some found)
        (by simpa using List.find?_some found) inner
    · cases h
  | fail c err =>
    obtain ⟨i, inner, rfl⟩ := cacheStep_eq_some.mp h
    exact .fail inner

/-- A completed lookup is `version_schema` of a client whose two GETs have been answered so. -/
theorem versionSchema_eq {client : ApicurioSchemaRegistry} {artifact : ArtifactId}
    {expression subject : String} {metaData : VersionMetaData} {content : HttpResponse}
    (first : client.getJson (.version artifact expression) = .ok metaData)
    (second : client.getContent (.content artifact expression client.dereference) = .ok content) :
    client.versionSchema artifact expression subject = combine metaData content subject := by
  unfold ApicurioSchemaRegistry.versionSchema
  rw [first]
  show (client.getContent _).bind _ = _
  rw [second]
  rfl

end Schemreg.Apicurio
