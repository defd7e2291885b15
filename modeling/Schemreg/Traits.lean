import Schemreg.Http.Retry

/-
  `src/traits.rs`: operations of `SchemaRegistryClient`, under losses.

  The clients of both registries have them, and the cache forwards them. A client is given by
  the requests that it sends for an operation (`Program`); a result of `none` is an operation
  that has not returned.
-/

namespace Schemreg

open Retry HttpClient

inductive Operation where
  | registerSchema (subject schema : String) (schemaType : SchemaType)
      (references : List SchemaReference)
  | lookupSchema (subject schema : String) (schemaType : SchemaType)
      (references : List SchemaReference)
  | deleteSubject (subject : String) (permanent : Bool)
  | deleteVersion (subject : String) (version : SchemaVersion) (permanent : Bool)
  | setCompatibility (subject : String) (level : CompatibilityLevel)

/-- What the operations return. -/
inductive Returned where
  | id (id : SchemaId)
  | found (schema : Option Schema)
  | versions (versions : List SchemaVersion)
  | version (version : SchemaVersion)
  | unit
  deriving DecidableEq

/-- `CachedSchemaRegistry`: what a deletion does to the cache. -/
def dropDeleted {C : Type} (invalidateSubject : String → C → C) (op : Operation)
    (result : Option (Result Returned)) (cache : C) : C :=
  match op, result with
  | .deleteSubject subject _, some (.ok _) => invalidateSubject subject cache
  | .deleteVersion subject _ _, some (.ok _) => invalidateSubject subject cache
  | _, _ => cache

variable {Req σ : Type}

abbrev Requests (Req : Type) := Program Req HttpResponse SchemaRegError (Option (Result Returned))

abbrev Losses (Req : Type) := Program.Pattern Req HttpResponse SchemaRegError

section

variable (serve : Req → σ → HttpResponse × σ) (maxRetries : Nat) (op : Operation)
  (requests : Requests Req)

/-- The operation with its retries. -/
def perform (losses : Losses Req) (registry : σ) : Option (Result Returned) × σ :=
  requests.run (exchange serve maxRetries) losses registry

/-- The operation of `CachedSchemaRegistry`, with its cache. -/
def performCached {C : Type} (invalidateSubject : String → C → C) (losses : Losses Req)
    (registry : σ) (cache : C) : (Option (Result Returned) × σ) × C :=
  let run := perform serve maxRetries requests losses registry
  (run, dropDeleted invalidateSubject op run.1 cache)

/-- The caller, the registry and the cache see what one application does. -/
def TransparentRetries (losses : Losses Req) (registry : σ) : Prop :=
  ∀ (C : Type) (invalidateSubject : String → C → C) (cache : C),
    performCached serve maxRetries op requests invalidateSubject losses registry cache =
      performCached serve maxRetries op requests invalidateSubject Program.quiet registry cache

end

variable {serve : Req → σ → HttpResponse × σ} {maxRetries : Nat} {op : Operation}
  {requests : Requests Req} {losses : Losses Req} {registry : σ}

/-- The cache does what the result says. -/
theorem transparent_iff_perform :
    TransparentRetries serve maxRetries op requests losses registry ↔
      perform serve maxRetries requests losses registry =
        perform serve maxRetries requests Program.quiet registry := by
  constructor
  · intro h
    exact congrArg Prod.fst (h Unit (fun _ cache => cache) ())
  · intro h C invalidateSubject cache
    unfold performCached
    rw [h]

end Schemreg
