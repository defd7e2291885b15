import Schemreg.Types
import Schemreg.CacheInner.Step

/-
  `src/cache.rs`: `CachedSchemaRegistry` over any inner registry client.

  The two identifier caches are two `InMemoryCache`s, and a call of the wrapper runs their
  methods one after the other. A step is one step of one of the caches (`inner`, and the
  first section of a method in `advance`), one atomic load of a generation, an answer of the
  inner client (`reply`, `deleted`), or a dropped future.

  * `Ident` names the two caches: `cache`, keyed by the numeric ID, and `guid_cache`, keyed
    by the GUID. A wrapper call uses each of them for at most one method, under its own
    `CallId`.
  * The cached value is an `Arc<Schema>`. As a ghost it also names its `origin`, the call
    whose request to the inner client it answers. `requests` records, also as a ghost, the
    calls whose request has been sent. No step reads either of them.
  * `warm_cache` runs one `get_or_fetch` for every ID, at most 16 at a time; each is a call
    of its own, a `child`. When the future of `warm_cache` is dropped, its children are
    dropped in some order; that they may still move until their turn comes is more than the
    code allows.
-/

namespace Schemreg.Cache

open CacheInner (CallId)

/-- The two identifiers a schema can be cached under. -/
inductive Ident where
  | id
  | guid
  deriving DecidableEq, Repr

namespace Ident

abbrev Key : Ident → Type
  | .id => SchemaId
  | .guid => SchemaGuid

instance instDecidableEqKey : (x : Ident) → DecidableEq x.Key
  | .id => inferInstanceAs (DecidableEq SchemaId)
  | .guid => inferInstanceAs (DecidableEq SchemaGuid)

def other : Ident → Ident
  | .id => .guid
  | .guid => .id

end Ident

/-- The identifier of a kind that the registry reported for a schema. -/
def reported (schema : Schema) : (x : Ident) → Option x.Key
  | .id => schema.id
  | .guid => schema.guid

/-- An `Arc<Schema>` and the call whose request fetched it. -/
structure Fetched where
  schema : Schema
  origin : CallId
  deriving DecidableEq

/-- `Generations`: both caches' invalidation counters. -/
structure Generations where
  id : Nat
  guid : Nat
  deriving DecidableEq

def Generations.on (gens : Generations) : Ident → Nat
  | .id => gens.id
  | .guid => gens.guid

def schemaLookupCancelledError (id : SchemaId) : SchemaRegError :=
  .invalidState ("schema lookup cancelled before completion for id " ++ id.toString)

def guidLookupCancelledError (guid : SchemaGuid) : SchemaRegError :=
  .invalidState ("schema lookup cancelled before completion for guid " ++ guid.toString)

def lookupCancelledError : (x : Ident) → x.Key → SchemaRegError
  | .id => schemaLookupCancelledError
  | .guid => guidLookupCancelledError

def defaultMaxCacheEntries : Nat := 1000

def warmCacheConcurrency : Nat := 16

/-- The lookups: `get_schema_by_id` and `get_schema_by_guid` (`byKey`), `get_latest_schema`
    and `get_schema_by_version`. -/
inductive Lookup where
  | byKey (x : Ident) (key : x.Key)
  | latest (subject : String)
  | byVersion (subject : String) (version : SchemaVersion)

/-- The predicate of `invalidate_subject`: `s.subject.as_deref() == Some(subject)`. -/
def carries (subject : String) (v : Fetched) : Bool := v.schema.subject = some subject

/-- What an invalidation drops from the cache `x`. -/
inductive Drop (x : Ident) where
  | key (key : x.Key)
  | subject (subject : String)
  | all

/-- The method of the cache that drops it. -/
def Drop.op {x : Ident} : Drop x → CacheInner.Op x.Key Fetched
  | .key k => .invalidate k
  | .subject s => .invalidateMatching (carries s)
  | .all => .clear

/-- The invalidations: `invalidate` and `invalidate_guid` (`key`), `clear_cache` and
    `invalidate_all` (`all`), and `invalidate_subject`. -/
inductive Invalidation where
  | key (x : Ident) (key : x.Key)
  | all
  | subject (subject : String)

/-- What they drop, one cache after the other. -/
def Invalidation.drops : Invalidation → List ((x : Ident) × Drop x)
  | .key x k => [⟨x, .key k⟩]
  | .all => [⟨.id, .all⟩, ⟨.guid, .all⟩]
  | .subject s => [⟨.id, .subject s⟩, ⟨.guid, .subject s⟩]

/-- The methods of `CachedSchemaRegistry` that use the caches. -/
inductive Op where
  | lookup (request : Lookup)
  | invalidate (what : Invalidation)
  | delete (subject : String)
  | warm (ids : List SchemaId)

def getSchemaById (id : SchemaId) : Op := .lookup (.byKey .id id)

def getSchemaByGuid (guid : SchemaGuid) : Op := .lookup (.byKey .guid guid)

def getLatestSchema (subject : String) : Op := .lookup (.latest subject)

def getSchemaByVersion (subject : String) (version : SchemaVersion) : Op :=
  .lookup (.byVersion subject version)

def invalidate (id : SchemaId) : Op := .invalidate (.key .id id)

def invalidateGuid (guid : SchemaGuid) : Op := .invalidate (.key .guid guid)

def clearCache : Op := .invalidate .all

def invalidateAll : Op := clearCache

def invalidateSubject (subject : String) : Op := .invalidate (.subject subject)

/-- `delete_subject`. The cache sees the subject only; whether the deletion is permanent
    concerns the inner client. -/
def deleteSubject (subject : String) (_permanent : Bool) : Op := .delete subject

/-- `delete_version`: invalidation is by subject rather than by version. -/
def deleteVersion (subject : String) (_version : SchemaVersion) (_permanent : Bool) : Op :=
  .delete subject

def warmCache (ids : List SchemaId) : Op := .warm ids

/-- Where a call stands between two of its steps. -/
inductive Phase where
  | idle
  -- `generations()`: the two loads
  | sampling (request : Lookup)
  | sampledId (request : Lookup) (id : Nat)
  | sampled (request : Lookup) (gens : Generations)
  -- the fetch, coalesced or direct
  | looking (x : Ident) (key : x.Key) (gens : Generations)
  | fetching (request : Lookup) (gens : Generations)
  -- `index_by_id` and `index_by_guid`
  | indexing (request : Lookup) (schema : Fetched) (todo : List Ident) (gens : Generations)
  | inserting (request : Lookup) (schema : Fetched) (x : Ident) (todo : List Ident)
      (gens : Generations)
  | returned (request : Lookup) (result : Result Fetched)
  -- the invalidations
  | deleting (subject : String)
  | dropping (todo : List ((x : Ident) × Drop x))
  | running (x : Ident) (todo : List ((x : Ident) × Drop x))
  | failed (error : SchemaRegError)
  | finished
  -- `warm_cache`
  | warming (pending : List SchemaId) (running : List (CallId × SchemaId))
      (failures : List (SchemaId × SchemaRegError))
  | warmed (failures : List (SchemaId × SchemaRegError))
  | child (parent : CallId) (id : SchemaId)
  -- the future was dropped
  | dropped

/-- The wrapper, its two caches and the calls in progress. -/
structure State where
  side : (x : Ident) → CacheInner.State x.Key Fetched
  calls : CallId → Phase
  requests : List CallId

inductive Event where
  | begin (c : CallId) (op : Op)
  | advance (c : CallId)
  | inner (x : Ident) (c : CallId)
  | reply (c : CallId) (result : Result Schema)
  | deleted (c : CallId) (result : Result Unit)
  | drop (c : CallId)
  | spawn (c child : CallId) (id : SchemaId)
  | collect (c child : CallId)

namespace State

/-- `CachedSchemaRegistry::with_max_entries`. -/
def withMaxEntries (maxEntries : Nat) : State :=
  ⟨fun x => CacheInner.State.init (some (max maxEntries 1)) (lookupCancelledError x),
    fun _ => .idle, []⟩

/-- `CachedSchemaRegistry::new`. -/
def new : State := withMaxEntries defaultMaxCacheEntries

/-- Move call `c` to a phase. -/
def goto (s : State) (c : CallId) (phase : Phase) : State :=
  { s with calls := Function.update s.calls c phase }

/-- Replace the state of one cache. -/
def setSide (s : State) (x : Ident) (i : CacheInner.State x.Key Fetched) : State :=
  { s with side := Function.update s.side x i }

/-- Record that call `c` has sent its request to the inner client. -/
def request (s : State) (c : CallId) : State := { s with requests := c :: s.requests }

end State

/-- One step of the cache `x`. -/
def innerStep (s : State) (x : Ident) (e : CacheInner.Event x.Key Fetched) : Option State :=
  (CacheInner.step (s.side x) e).map (s.setSide x)

/-- The answer of the inner client as the cache sees it. -/
def fetchedBy (c : CallId) (result : Result Schema) : Result Fetched :=
  result.map fun schema => ⟨schema, c⟩

/-- Where a method starts. `warm_cache` deduplicates its IDs first. -/
def start : Op → Phase
  | .lookup request => .sampling request
  | .invalidate what => .dropping what.drops
  | .delete subject => .deleting subject
  | .warm ids => .warming ids.dedup [] []

/-- The next step of the wrapper's own code in call `c`. -/
def advance (s : State) (c : CallId) : Option State :=
  match s.calls c with
  | .sampling request => some (s.goto c (.sampledId request (s.side .id).generation))
  | .sampledId request id =>
      some (s.goto c (.sampled request ⟨id, (s.side .guid).generation⟩))
  | .sampled (.byKey x key) gens =>
      (innerStep s x (.begin c (.getOrFetch key))).map (·.goto c (.looking x key gens))
  | .sampled request gens => some ((s.request c).goto c (.fetching request gens))
  | .looking x key gens =>
      match (s.side x).calls c with
      | .returned _ (.ok schema) =>
          some (s.goto c (.indexing (.byKey x key) schema [x.other] gens))
      | .returned _ (.error err) => some (s.goto c (.returned (.byKey x key) (.error err)))
      | _ => none
  | .indexing request schema [] _ => some (s.goto c (.returned request (.ok schema)))
  | .indexing request schema (x :: todo) gens =>
      match reported schema.schema x with
      | some key =>
          (innerStep s x (.begin c (.insertIfCurrent key schema (gens.on x)))).map
            (·.goto c (.inserting request schema x todo gens))
      | none => some (s.goto c (.indexing request schema todo gens))
  | .inserting request schema x todo gens =>
      match (s.side x).calls c with
      | .finished => some (s.goto c (.indexing request schema todo gens))
      | _ => none
  | .dropping [] => some (s.goto c .finished)
  | .dropping (⟨x, what⟩ :: todo) =>
      (innerStep s x (.begin c what.op)).map (·.goto c (.running x todo))
  | .running x todo =>
      match (s.side x).calls c with
      | .finished => some (s.goto c (.dropping todo))
      | _ => none
  | .warming [] [] failures => some (s.goto c (.warmed failures))
  | _ => none

/-- The next section of call `c` in the cache `x`. A leader's fetch future starts when it is
    polled for the first time. -/
def runSection (s : State) (x : Ident) (c : CallId) : Option State :=
  match (s.side x).calls c with
  | .elected _ _ => (innerStep s x (.resume c)).map (·.request c)
  | _ => innerStep s x (.resume c)

/-- The inner client answers a fetch. -/
def reply (s : State) (c : CallId) (result : Result Schema) : Option State :=
  match s.calls c with
  | .looking x _ _ => innerStep s x (.reply c (fetchedBy c result))
  | .child _ _ => innerStep s .id (.reply c (fetchedBy c result))
  | .fetching request gens =>
      match fetchedBy c result with
      | .ok schema => some (s.goto c (.indexing request schema [.id, .guid] gens))
      | .error err => some (s.goto c (.returned request (.error err)))
  | _ => none

/-- Drop the future of an awaiting call. -/
def dropFuture (s : State) (c : CallId) : Option State :=
  match s.calls c with
  | .looking x _ _ => (innerStep s x (.drop c)).map (·.goto c .dropped)
  | .fetching _ _ | .deleting _ | .warming _ _ _ => some (s.goto c .dropped)
  | .child parent _ =>
      match s.calls parent with
      | .dropped => (innerStep s .id (.drop c)).map (·.goto c .dropped)
      | _ => none
  | _ => none

/-- `warm_cache` starts the fetch of one more ID. -/
def spawn (s : State) (c child : CallId) (id : SchemaId) : Option State :=
  match s.calls c, s.calls child with
  | .warming pending running failures, .idle =>
      if id ∈ pending ∧ running.length < warmCacheConcurrency then
        (innerStep s .id (.begin child (.getOrFetch id))).map fun t =>
          (t.goto child (.child c id)).goto c
            (.warming (pending.erase id) ((child, id) :: running) failures)
      else none
  | _, _ => none

/-- Only the failures of `warm_cache` are reported. -/
def addFailure (id : SchemaId) (result : Result Fetched)
    (failures : List (SchemaId × SchemaRegError)) : List (SchemaId × SchemaRegError) :=
  match result with
  | .ok _ => failures
  | .error err => failures ++ [(id, err)]

/-- `warm_cache` takes the result of a finished fetch. -/
def collect (s : State) (c child : CallId) : Option State :=
  match s.calls c, s.calls child, (s.side .id).calls child with
  | .warming pending running failures, .child _ id, .returned _ result =>
      if (child, id) ∈ running then
        some ((s.goto child .finished).goto c
          (.warming pending (running.erase (child, id)) (addFailure id result failures)))
      else none
  | _, _, _ => none

/-- One step of the wrapper. -/
def step (s : State) : Event → Option State
  | .begin c op =>
      match s.calls c with
      | .idle => some (s.goto c (start op))
      | _ => none
  | .advance c => advance s c
  | .inner x c => runSection s x c
  | .reply c result => reply s c result
  | .deleted c result =>
      match s.calls c with
      | .deleting subject =>
          match result with
          | .ok _ => some (s.goto c (.dropping (Invalidation.subject subject).drops))
          | .error err => some (s.goto c (.failed err))
      | _ => none
  | .drop c => dropFuture s c
  | .spawn c child id => spawn s c child id
  | .collect c child => collect s c child

end Schemreg.Cache
