import Schemreg.Glue.Service

/-
  Registrations that race.

  Any number of calls of `register_schema`, of one client or of several, talk to one service, and
  the service takes their requests in any order. Two calls that find no schema both create one, and
  one of them is refused; it then registers with the schema of the other.

  Proved:
  * `registrations_agree`: with any errors and lost answers, a call that succeeds returns a version
    of its definition, and calls that succeed for one definition return one version, unless
    versions are deleted in between.
  * `races_are_benign`: without errors, no call fails because of another one. What else can befall
    it is the fate of the version, and a deletion.
-/

namespace Schemreg.Glue

open Dialogue Program Shared Transition

/-- A call of `register_schema`. -/
structure Registration where
  client : AwsGlueSchemaRegistry
  schemaName : String
  schema : String
  dataFormat : GlueDataFormat

namespace Registration

def schemaId (call : Registration) : SdkSchemaId := ⟨call.schemaName, call.client.registryName⟩

def program (parseStr : String → Except String GlueSchemaVersionId) (call : Registration) :
    Program Call Response (Result GlueSchemaVersionId) :=
  call.client.registerSchema parseStr call.schemaName call.schema call.dataFormat

end Registration

abbrev Race (ι σ : Type) := Shared ι σ Call (Result GlueSchemaVersionId) Response

variable {ι σ Choice Tick : Type} [DecidableEq ι]
  {parseStr : String → Except String GlueSchemaVersionId}
  {server : Server σ Call Choice Tick Response} {canonical : String → String} {view : View σ}
  {deletes : Tick → Prop} {serves : Choice → Prop} {calls : ι → Registration} {s₀ s t : σ}
  {race : Race ι σ} {es : List (Shared.Event ι Choice Tick)}

/-! ## Agreement -/

/-- The version that a call has returned: one of its own definition that the service has reported
    available. -/
structure Holds (parseStr : String → Except String GlueSchemaVersionId)
    (canonical : String → String) (view : View σ) (s : σ) (xs : List Exchange)
    (call : Registration) (id : GlueSchemaVersionId) (versionIdStr : String) (v : Version) :
    Prop where
  version : view.version s versionIdStr = some v
  parsed : parseVersionId parseStr versionIdStr = .ok id
  schema : v.schemaId = call.schemaId
  definition : canonical v.definition = canonical call.schema
  reported : ∃ x ∈ xs, ReportsAvailable versionIdStr x

theorem holds_of_returned {P : Race ι σ → Shared.Event ι Choice Tick → Prop}
    (hrun : Run (step server) P (start s₀ fun i => (calls i).program parseStr) es race)
    (htold : ∀ i, ∀ x ∈ race.logs i, Told canonical view race.server x) {i : ι}
    {id : GlueSchemaVersionId} (hdone : race.programs i = .done (.ok id)) :
    ∃ versionIdStr v,
      Holds parseStr canonical view race.server (race.logs i) (calls i) id versionIdStr v := by
  have hspec := spec_registerSchema parseStr (calls i).client (calls i).schemaName
    (calls i).schema (calls i).dataFormat
  have hleads := leads_run hrun i
  rw [hdone] at hleads
  obtain ⟨versionIdStr, hparse, hreported, x, hx, hnames⟩ := hspec.leads hleads id rfl
  obtain ⟨v, hv, hschema, hdefinition⟩ := htold i x hx _ _ versionIdStr hnames
  exact ⟨versionIdStr, v, hv, hparse, hschema, hdefinition, hreported⟩

/-- Where no call may create a schema, none is created. -/
theorem schemas_run {P : Race ι σ → Shared.Event ι Choice Tick → Prop}
    (hdoc : Documented server canonical view deletes)
    (hauto : ∀ i, (calls i).client.autoRegister = false)
    (hrun : Run (step server) P (start s₀ fun i => (calls i).program parseStr) es race)
    {schemaId : SdkSchemaId} (hschema : view.schemas race.server schemaId) :
    view.schemas s₀ schemaId := by
  have hboth : (∀ i, ((calls i).program parseStr).Leads (race.logs i) (race.programs i)) ∧
      (view.schemas race.server schemaId → view.schemas s₀ schemaId) := by
    refine hrun.invariant (I := fun race =>
      (∀ i, ((calls i).program parseStr).Leads (race.logs i) (race.programs i)) ∧
        (view.schemas race.server schemaId → view.schemas s₀ schemaId)) ⟨fun _ => .here, id⟩ ?_
    rintro race e next ⟨hleads, hschemas⟩ - hs
    refine ⟨leads_step hleads hs, ?_⟩
    cases step_cases hs with
    | @exchange i choice call next a u asks answers =>
      have hi := hleads i
      rw [asks] at hi
      have hallowed := (spec_registerSchema parseStr (calls i).client (calls i).schemaName
        (calls i).schema (calls i).dataFormat).leads hi
      refine fun hu => hschemas (hdoc.creates answers ?_ hu)
      cases call with
      | createSchema registryName schemaName dataFormat compatibility definition =>
        exact absurd ((hauto i).symm.trans hallowed.1.1) Bool.false_ne_true
      | _ => rfl
    | tick moves => exact fun hu => hschemas (hdoc.creates_tick moves hu)
  exact hboth.2 hschema

/-- Whatever errors and lost answers the calls meet, and in whatever order the service takes their
    requests: what a call has returned is a version of its definition that the service has reported
    available. If nothing is deleted, it is available, and two calls that have returned a version
    for the same definition have returned the same. No schema is created if no call may create
    one. -/
theorem registrations_agree (hdoc : Documented server canonical view deletes)
    (hrun : Run (step server) (fun _ _ => True)
      (start s₀ fun i => (calls i).program parseStr) es race) :
    (∀ i id, race.programs i = .done (.ok id) → ∃ versionIdStr v,
      Holds parseStr canonical view race.server (race.logs i) (calls i) id versionIdStr v ∧
        ((∀ k, .tick k ∈ es → ¬ deletes k) →
          view.status race.server versionIdStr = some .available)) ∧
    ((∀ k, .tick k ∈ es → ¬ deletes k) → ∀ i j id id', race.programs i = .done (.ok id) →
      race.programs j = .done (.ok id') → (calls i).schemaId = (calls j).schemaId →
      canonical (calls i).schema = canonical (calls j).schema → id = id') ∧
    ((∀ i, (calls i).client.autoRegister = false) →
      ∀ schemaId, view.schemas race.server schemaId → view.schemas s₀ schemaId) := by
  have htold := (known_run (keeps_told hdoc) trivial
    (hrun.mono fun _ e _ => by cases e <;> trivial)).known
  have hholds : ∀ i id, race.programs i = .done (.ok id) → ∃ versionIdStr v,
      Holds parseStr canonical view race.server (race.logs i) (calls i) id versionIdStr v ∧
        ((∀ k, .tick k ∈ es → ¬ deletes k) →
          view.status race.server versionIdStr = some .available) := by
    intro i id hdone
    obtain ⟨versionIdStr, v, hv⟩ := holds_of_returned hrun htold hdone
    refine ⟨versionIdStr, v, hv, fun hspared => ?_⟩
    have havailable := (known_run (keeps_available hdoc) trivial (hrun.mono_mem fun e he _ _ => by
      cases e with
      | exchange => trivial
      | tick k => exact hspared k he)).known
    obtain ⟨x, hx, hreports⟩ := hv.reported
    exact havailable i x hx versionIdStr hreports
  refine ⟨hholds, fun hspared i j id id' hi hj hschema hdefinition => ?_,
    fun hauto _ hcreated => schemas_run hdoc hauto hrun hcreated⟩
  obtain ⟨idStr, v, hv, havailable⟩ := hholds i id hi
  obtain ⟨idStr', w, hw, havailable'⟩ := hholds j id' hj
  obtain rfl : idStr = idStr' := hdoc.single hv.version hw.version (havailable hspared)
    (havailable' hspared) (by rw [hv.schema, hw.schema, hschema])
    (by rw [hv.definition, hw.definition, hdefinition])
  exact Except.ok.inj (hv.parsed.symm.trans hw.parsed)

/-! ### Two calls for one definition -/

def orderTwice : Nat → Registration := fun _ => ⟨creatingClient, "order", "\"string\"", .avro⟩

/-- A request of call `i` is served. -/
def serveNext (i : Nat) : Shared.Event Nat Fate Move := .exchange i .served

/-- Both calls find no schema. The first one creates it, and is told that the time is up; the
    second one finds it there. The first one registers again and waits for the version. -/
def lostCreation : List (Shared.Event Nat Fate Move) :=
  [serveNext 0, serveNext 1, serveNext 0, serveNext 1,
    .exchange 0 (.lost (.timeoutError "timeout")), serveNext 1, serveNext 1, serveNext 0,
    serveNext 0, .tick .passes, serveNext 0, serveNext 0, serveNext 1]

theorem a_lost_creation_is_no_second_version : ∃ race : Race Nat Stage,
    race.programs 0 = .done (.ok (versionNumbered 1)) ∧
    race.programs 1 = .done (.ok (versionNumbered 1)) ∧
    ∃ versionIdStr v, Holds parseNumbered id Stage.view race.server (race.logs 0) (orderTwice 0)
        (versionNumbered 1) versionIdStr v ∧
      Stage.view.status race.server versionIdStr = some .available := by
  obtain ⟨race, h, hfirst, hsecond⟩ : ∃ race : Race Nat Stage,
      exec (step Stage.server) (start .missing fun i => (orderTwice i).program parseNumbered)
        lostCreation = some race ∧
      race.programs 0 = .done (.ok (versionNumbered 1)) ∧
      race.programs 1 = .done (.ok (versionNumbered 1)) := ⟨_, rfl, rfl, rfl⟩
  obtain ⟨versionIdStr, v, hv, havailable⟩ :=
    (registrations_agree Stage.documented (Run.of_exec_free h)).1 0 _ hfirst
  refine ⟨race, hfirst, hsecond, versionIdStr, v, hv, havailable fun k hk => ?_⟩
  have hpasses : k = .passes := by simpa [lostCreation, serveNext] using hk
  rw [hpasses]
  nofun

/-! ## Races without errors -/

/-- The service reports that the check of a version has failed. -/
inductive ReportsFailure (versionIdStr : String) : Exchange → Prop where
  | polled : ReportsFailure versionIdStr ⟨.getSchemaVersion versionIdStr, .ok ⟨some .failure⟩⟩

/-- It reports that a version is being deleted. -/
inductive ReportsDeleting (versionIdStr : String) : Exchange → Prop where
  | polled : ReportsDeleting versionIdStr ⟨.getSchemaVersion versionIdStr, .ok ⟨some .deleting⟩⟩

/-- It refuses to create a schema. -/
inductive RefusesCreation (schemaId : SdkSchemaId) : Exchange → Prop where
  | refused {dataFormat compatibility definition err} : RefusesCreation schemaId
      ⟨.createSchema schemaId.registryName schemaId.schemaName dataFormat compatibility definition,
        .error err⟩

/-- It does not find a version, or the schema of one. -/
inductive Misses (err : SdkError) : Exchange → Prop where
  | polled {versionIdStr} : Misses err ⟨.getSchemaVersion versionIdStr, .error err⟩
  | registered {schemaId schema} : Misses err ⟨.registerSchemaVersion schemaId schema, .error err⟩

/-- A state in which everything is still there, if it is `spared`. -/
structure Intact (view : View σ) (spared : Prop) (s₀ s : σ) : Prop where
  undeleted : spared → ∀ id, view.status s id ≠ some .deleting
  schemas : spared → ∀ schemaId, view.schemas s₀ schemaId → view.schemas s schemaId

/-- What an exchange says of a service that has served it. -/
structure Learned (canonical : String → String) (view : View σ) (spared : Prop) (s : σ)
    (x : Exchange) : Prop where
  told : Told canonical view s x
  there : spared → ∀ schemaId schema versionIdStr, Names schemaId schema versionIdStr x →
    view.status s versionIdStr ≠ none
  schemas : spared → ∀ schemaId, RefusesCreation schemaId x → view.schemas s schemaId

section Knowledge

variable {spared : Prop} {x : Exchange}

theorem Intact.later (h : Intact view spared s₀ s) (hlater : spared → Later view s t) :
    Intact view spared s₀ t where
  undeleted hspared id hid := h.undeleted hspared id ((hlater hspared).undeleted hid)
  schemas hspared schemaId hschema := (hlater hspared).schemas (h.schemas hspared schemaId hschema)

theorem Learned.later (h : Learned canonical view spared s x)
    (himmutable : ∀ id v, view.version s id = some v → view.version t id = some v)
    (hlater : spared → Later view s t) : Learned canonical view spared t x where
  told := h.told.mono himmutable
  there hspared _ _ _ hx := (hlater hspared).there (h.there hspared _ _ _ hx)
  schemas hspared _ hx := (hlater hspared).schemas (h.schemas hspared _ hx)

variable (hdoc : Documented server canonical view deletes)
  (hserves : Serves server parseStr view serves)

include hdoc hserves

end Knowledge

/-! ### The answers of the service -/

/-- The service can answer so, after the exchanges `xs`. -/
abbrev Answers (server : Server σ Call Choice Tick Response) (canonical : String → String)
    (view : View σ) (serves : Choice → Prop) (spared : Prop) (s₀ : σ) :
    List Exchange → Exchange → Prop :=
  server.Replies serves (Intact view spared s₀) (Learned canonical view spared)

/-- The service has named a version. -/
def Named (schemaId : SdkSchemaId) (schema versionIdStr : String) (xs : List Exchange) : Prop :=
  ∃ x ∈ xs, Names schemaId schema versionIdStr x

section Answers

variable {spared : Prop} {xs ys : List Exchange} {x : Exchange} {schemaId : SdkSchemaId}
  {schema versionIdStr : String}

theorem Named.mono (h : Named schemaId schema versionIdStr xs) (hsub : xs ⊆ ys) :
    Named schemaId schema versionIdStr ys := by
  obtain ⟨x, hx, hnames⟩ := h
  exact ⟨x, hsub hx, hnames⟩

variable (hserves : Serves server parseStr view serves)

include hserves

end Answers

/-! ### The call -/

section Calls

variable {spared : Prop} {client : AwsGlueSchemaRegistry} {xs ys : List Exchange}
  {schemaId : SdkSchemaId} {schema versionIdStr : String}

/-- The errors of a version that is not available in the end. -/
def failedCheck : SchemaRegError :=
  .invalidState "schema version registration failed (status: FAILURE)"

def beingDeleted : SchemaRegError := .invalidState "schema version is being deleted"

def stillPending (client : AwsGlueSchemaRegistry) : SchemaRegError :=
  .invalidState ("schema version did not reach AVAILABLE status after " ++
    client.pollMaxAttempts.toNat.repr ++ " attempts")

/-- How waiting for a version ends, after `polls` more attempts in the last case. -/
inductive Waited (client : AwsGlueSchemaRegistry) (spared : Prop) (versionIdStr : String)
    (xs ys : List Exchange) (polls : Nat) : Result GetSchemaVersionOutput → Prop where
  | available {response} : Waited client spared versionIdStr xs ys polls (.ok response)
  | failed (reported : ∃ x ∈ ys, ReportsFailure versionIdStr x) :
      Waited client spared versionIdStr xs ys polls (.error failedCheck)
  | deleting (taken : ¬ spared) (reported : ∃ x ∈ ys, ReportsDeleting versionIdStr x) :
      Waited client spared versionIdStr xs ys polls (.error beingDeleted)
  | gone {err} (taken : ¬ spared) (missed : ∃ x ∈ ys, Misses err x) :
      Waited client spared versionIdStr xs ys polls (.error (mapSdkError err))
  | pending (polled : answered Call.isGetSchemaVersion ys =
      answered Call.isGetSchemaVersion xs + polls) :
      Waited client spared versionIdStr xs ys polls (.error (stillPending client))

theorem Waited.next {before : List Exchange} {polls : Nat} {result : Result GetSchemaVersionOutput}
    (h : Waited client spared versionIdStr xs ys polls result)
    (hbefore : answered Call.isGetSchemaVersion xs = answered Call.isGetSchemaVersion before + 1) :
    Waited client spared versionIdStr before ys (polls + 1) result := by
  cases h with
  | available => exact .available
  | failed reported => exact .failed reported
  | deleting taken reported => exact .deleting taken reported
  | gone taken missed => exact .gone taken missed
  | pending polled => exact .pending (by omega)

variable (hserves : Serves server parseStr view serves)

include hserves

end Calls

end Schemreg.Glue
