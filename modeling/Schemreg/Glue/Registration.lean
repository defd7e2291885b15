import Schemreg.Glue.Client

/-
  What `register_schema` reports is available.

  The call is a dialogue with the service that any answer can end. `Allowed` says for each request
  what must have happened before it, and `Registered` what a result says about the answers. By
  `spec_registerSchema` the code keeps to both; its loop is `spec_poll`. The main result,
  `registerSchema_sound`, is about every execution, however far it has come.
-/

namespace Schemreg.Glue

open Dialogue Program

def Call.isRegisterSchemaVersion : Call → Bool
  | .registerSchemaVersion .. => true
  | _ => false

def Call.isCreateSchema : Call → Bool
  | .createSchema .. => true
  | _ => false

def Call.isGetSchemaVersion : Call → Bool
  | .getSchemaVersion _ => true
  | _ => false

/-- How many requests of a kind have been answered. -/
def answered (kind : Call → Bool) (xs : List Exchange) : Nat :=
  (xs.map Dialogue.Exchange.req).countP kind

/-- The service reports that a version is available: with its identifier, or when it is asked for
    this identifier. -/
inductive ReportsAvailable (versionIdStr : String) : Exchange → Prop where
  | byDefinition {schemaId schema} : ReportsAvailable versionIdStr
      ⟨.getSchemaByDefinition schemaId schema, .ok ⟨some versionIdStr, some .available⟩⟩
  | polled : ReportsAvailable versionIdStr
      ⟨.getSchemaVersion versionIdStr, .ok ⟨some .available⟩⟩

/-- The service names a version of the schema with a definition. -/
inductive Names (schemaId : SdkSchemaId) (schema versionIdStr : String) : Exchange → Prop where
  | byDefinition {status} : Names schemaId schema versionIdStr
      ⟨.getSchemaByDefinition schemaId schema, .ok ⟨some versionIdStr, status⟩⟩
  | registered : Names schemaId schema versionIdStr
      ⟨.registerSchemaVersion schemaId schema, .ok ⟨some versionIdStr⟩⟩
  | created {dataFormat compatibility} : Names schemaId schema versionIdStr
      ⟨.createSchema schemaId.registryName schemaId.schemaName dataFormat compatibility schema,
        .ok ⟨some versionIdStr⟩⟩

/-- A registration of the schema has failed. -/
def RegisterFailed (schemaId : SdkSchemaId) (schema : String) (xs : List Exchange) : Prop :=
  ∃ err, (⟨.registerSchemaVersion schemaId schema, .error err⟩ : Exchange) ∈ xs

variable {client : AwsGlueSchemaRegistry} {schemaId : SdkSchemaId} {schema schemaName : String}
  {parseStr : String → Except String GlueSchemaVersionId} {xs ys : List Exchange}
  {versionIdStr : String} {schemaVersionId : Option String} {kind : Call → Bool}

/-- When a request may be issued. -/
def Allowed (client : AwsGlueSchemaRegistry) (schemaId : SdkSchemaId) (schema : String)
    (xs : List Exchange) : Call → Prop
  | .getSchemaByDefinition .. | .sleep _ => True
  | .registerSchemaVersion .. => answered Call.isRegisterSchemaVersion xs < 2
  | .createSchema .. => client.autoRegister = true ∧ RegisterFailed schemaId schema xs ∧
      answered Call.isCreateSchema xs < 1
  | .getSchemaVersion _ => answered Call.isGetSchemaVersion xs < client.pollMaxAttempts.toNat

/-- A result is a version that the service has named for the schema and reported available. -/
def Registered (parseStr : String → Except String GlueSchemaVersionId) (schemaId : SdkSchemaId)
    (schema : String) (xs : List Exchange) (result : Result GlueSchemaVersionId) : Prop :=
  ∀ v, result = .ok v → ∃ versionIdStr, parseVersionId parseStr versionIdStr = .ok v ∧
    (∃ x ∈ xs, ReportsAvailable versionIdStr x) ∧ ∃ x ∈ xs, Names schemaId schema versionIdStr x

theorem registered_error {err : SchemaRegError} :
    Registered parseStr schemaId schema xs (.error err) := nofun

theorem answered_append : answered kind (xs ++ ys) = answered kind xs + answered kind ys := by
  unfold answered
  rw [List.map_append, List.countP_append]

/-! ## The loop -/

/-- An attempt is made only while fewer than the maximum were made. -/
theorem spec_poll {attempts : List Nat}
    (h : answered Call.isGetSchemaVersion xs + attempts.length ≤ client.pollMaxAttempts.toNat) :
    Spec (Allowed client schemaId schema)
      (fun ys result => ∀ response, result = .ok response →
        ∃ x ∈ ys, ReportsAvailable versionIdStr x) xs (client.poll versionIdStr attempts) := by
  induction attempts generalizing xs with
  | nil => exact nofun
  | cons attempt attempts ih =>
    rw [List.length_cons] at h
    unfold AwsGlueSchemaRegistry.poll
    rw [spec_bind, spec_send]
    refine ⟨?_, fun result => ?_⟩
    · show answered Call.isGetSchemaVersion xs < _
      omega
    cases result with
    | error err => exact nofun
    | ok response =>
      have hagain : answered Call.isGetSchemaVersion
          (xs ++ [⟨.getSchemaVersion versionIdStr, .ok response⟩]) =
            answered Call.isGetSchemaVersion xs + 1 := answered_append
      dsimp only
      split
      · rename_i havailable
        intro response' hresponse
        obtain ⟨status⟩ := response
        obtain rfl : status = some .available := havailable
        exact ⟨_, List.mem_append_right _ List.mem_cons_self, .polled⟩
      · exact nofun
      · exact nofun
      · split
        · rw [spec_bind, spec_send]
          refine ⟨trivial, fun _ => ih ?_⟩
          have hsleep : ∀ zs, answered Call.isGetSchemaVersion
              (zs ++ [⟨.sleep client.pollInterval, ()⟩]) = answered Call.isGetSchemaVersion zs :=
            fun _ => answered_append
          rw [hsleep, hagain]
          omega
        · refine ih ?_
          rw [hagain]
          omega

theorem spec_waitAndParseVersionId (h : answered Call.isGetSchemaVersion xs = 0) :
    Spec (Allowed client schemaId schema)
      (fun ys result => ∀ v, result = .ok v → parseVersionId parseStr versionIdStr = .ok v ∧
        ∃ x ∈ ys, ReportsAvailable versionIdStr x) xs
      (client.waitAndParseVersionId parseStr versionIdStr) := by
  have hrange : answered Call.isGetSchemaVersion xs +
      (List.range client.pollMaxAttempts.toNat).length ≤ client.pollMaxAttempts.toNat := by
    rw [h, List.length_range, Nat.zero_add]
  unfold AwsGlueSchemaRegistry.waitAndParseVersionId AwsGlueSchemaRegistry.waitForAvailable
  rw [spec_bind]
  refine (spec_poll hrange).mono fun ys result hresult => ?_
  cases result with
  | error err => exact nofun
  | ok response => exact fun v hv => ⟨hv, hresult response rfl⟩

theorem spec_waitForVersion (h : answered Call.isGetSchemaVersion xs = 0)
    (hnamed : ∀ versionIdStr, schemaVersionId = some versionIdStr →
      ∃ x ∈ xs, Names schemaId schema versionIdStr x) (missing : String) :
    Spec (Allowed client schemaId schema) (Registered parseStr schemaId schema) xs
      (client.waitForVersion parseStr missing schemaVersionId) := by
  unfold AwsGlueSchemaRegistry.waitForVersion
  cases schemaVersionId with
  | none => exact registered_error
  | some versionIdStr =>
    refine (spec_waitAndParseVersionId h).extends.mono fun ys result hresult v hv => ?_
    obtain ⟨hparse, havailable⟩ := hresult.1 v hv
    obtain ⟨x, hx, hnames⟩ := hnamed versionIdStr rfl
    exact ⟨versionIdStr, hparse, havailable, x, hresult.2.subset hx, hnames⟩

/-- The version that a registration names is waited for. -/
theorem spec_waitForRegistered (h : answered Call.isGetSchemaVersion xs = 0)
    (response : RegisterSchemaVersionOutput) (missing : String) :
    Spec (Allowed client schemaId schema) (Registered parseStr schemaId schema)
      (xs ++ [⟨.registerSchemaVersion schemaId schema, .ok response⟩])
      (client.waitForVersion parseStr missing response.schemaVersionId) := by
  refine spec_waitForVersion (answered_append.trans (by rw [h]; rfl)) (fun versionIdStr hid => ?_) _
  obtain ⟨_⟩ := response
  cases hid
  exact ⟨_, List.mem_append_right _ List.mem_cons_self, .registered⟩

/-! ## The call -/

theorem spec_registerSchema (parseStr : String → Except String GlueSchemaVersionId)
    (client : AwsGlueSchemaRegistry) (schemaName schema : String) (dataFormat : GlueDataFormat) :
    Spec (Allowed client ⟨schemaName, client.registryName⟩ schema)
      (Registered parseStr ⟨schemaName, client.registryName⟩ schema) []
      (client.registerSchema parseStr schemaName schema dataFormat) := by
  unfold AwsGlueSchemaRegistry.registerSchema
  dsimp only
  rw [spec_bind, spec_send]
  refine ⟨trivial, fun existing => ?_⟩
  split
  · -- the definition is registered and available
    intro v hv
    exact ⟨_, hv, ⟨_, List.mem_cons_self, .byDefinition⟩, _, List.mem_cons_self, .byDefinition⟩
  rw [spec_bind, spec_send]
  refine ⟨Nat.zero_lt_succ 1, fun registerResult => ?_⟩
  cases registerResult with
  | ok response => exact spec_waitForRegistered rfl response _
  | error registerErr =>
    dsimp only
    split
    · exact registered_error
    · rename_i hauto
      rw [spec_bind, spec_send]
      refine ⟨⟨by simpa using hauto, ⟨registerErr, by simp⟩, Nat.zero_lt_one⟩,
        fun createResult => ?_⟩
      cases createResult with
      | ok response =>
        refine spec_waitForVersion rfl (fun versionIdStr hid => ?_) _
        obtain ⟨_⟩ := response
        cases hid
        exact ⟨_, List.mem_append_right _ List.mem_cons_self, .created⟩
      | error createErr =>
        dsimp only
        rw [spec_bind, spec_send]
        refine ⟨Nat.one_lt_two, fun fallback => ?_⟩
        cases fallback with
        | error e => exact registered_error
        | ok response => exact spec_waitForRegistered rfl response _

/-- What a call has done and returned, as far as it has come. -/
structure Sound (parseStr : String → Except String GlueSchemaVersionId)
    (client : AwsGlueSchemaRegistry) (schemaName schema : String) (xs : List Exchange)
    (q : Program Call Response (Result GlueSchemaVersionId)) : Prop where
  result : ∀ v, q = .done (.ok v) → ∃ versionIdStr,
    parseVersionId parseStr versionIdStr = .ok v ∧ (∃ x ∈ xs, ReportsAvailable versionIdStr x) ∧
    ∃ x ∈ xs, Names ⟨schemaName, client.registryName⟩ schema versionIdStr x
  creates : ∀ i call, (issued xs q)[i]? = some call → call.isCreateSchema = true →
    client.autoRegister = true ∧
      RegisterFailed ⟨schemaName, client.registryName⟩ schema (xs.take i)
  createsOnce : (issued xs q).countP Call.isCreateSchema ≤ 1
  registersTwice : (issued xs q).countP Call.isRegisterSchemaVersion ≤ 2
  polls : (issued xs q).countP Call.isGetSchemaVersion ≤ client.pollMaxAttempts.toNat

/-- Whatever the service answers, a version that is returned was reported available under the
    identifier that names it, and no more is asked than is allowed. -/
theorem registerSchema_sound (parseStr : String → Except String GlueSchemaVersionId)
    (client : AwsGlueSchemaRegistry) (schemaName schema : String) (dataFormat : GlueDataFormat)
    {xs : List Exchange} {q : Program Call Response (Result GlueSchemaVersionId)}
    (hrun : (client.registerSchema parseStr schemaName schema dataFormat).Leads xs q) :
    Sound parseStr client schemaName schema xs q := by
  have hspec := spec_registerSchema parseStr client schemaName schema dataFormat
  refine ⟨?_, ?_, ?_, ?_, ?_⟩
  · rintro v rfl
    exact hspec.leads hrun v rfl
  · intro i call hcall hcreate
    have hallowed := hspec.issued_allowed hrun hcall
    cases call with
    | createSchema registryName name format compatibility definition =>
      exact ⟨hallowed.1, hallowed.2.1⟩
    | _ => cases hcreate
  · refine hspec.countP_issued_le (fun ys call hallowed hcall => ?_) hrun
    cases call with
    | createSchema registryName name format compatibility definition => exact hallowed.2.2
    | _ => cases hcall
  · refine hspec.countP_issued_le (fun ys call hallowed hcall => ?_) hrun
    cases call with
    | registerSchemaVersion id definition => exact hallowed
    | _ => cases hcall
  · refine hspec.countP_issued_le (fun ys call hallowed hcall => ?_) hrun
    cases call with
    | getSchemaVersion id => exact hallowed
    | _ => cases hcall

/-! ## A schema that is created -/

/-- The identifier that ends in the byte `n`. -/
def versionNumbered (n : UInt8) : GlueSchemaVersionId := ⟨List.replicate 15 0 ++ [n], rfl⟩

/-- `Uuid::parse_str` on the identifiers of one schema. -/
def parseNumbered (s : String) : Except String GlueSchemaVersionId :=
  if s = "00000000-0000-0000-0000-000000000001" then .ok (versionNumbered 1)
  else .error "invalid length: expected length 32 for simple format"

def creatingClient : AwsGlueSchemaRegistry := { AwsGlueSchemaRegistry.new "orders" with
  autoRegister := true }

def notFound : SdkError := .serviceError 400 (some "EntityNotFoundException") none

/-- The schema is new, and its first version is pending for a while. -/
def creation : List Exchange :=
  [⟨.getSchemaByDefinition ⟨"order", "orders"⟩ "\"string\"", .error notFound⟩,
    ⟨.registerSchemaVersion ⟨"order", "orders"⟩ "\"string\"", .error notFound⟩,
    ⟨.createSchema "orders" "order" .avro .backward "\"string\"",
      .ok ⟨some "00000000-0000-0000-0000-000000000001"⟩⟩,
    ⟨.getSchemaVersion "00000000-0000-0000-0000-000000000001", .ok ⟨some .pending⟩⟩,
    ⟨.sleep defaultPollInterval, ()⟩,
    ⟨.getSchemaVersion "00000000-0000-0000-0000-000000000001", .ok ⟨some .available⟩⟩]

theorem created_version_is_reported :
    (creatingClient.registerSchema parseNumbered "order" "\"string\"" .avro).Leads creation
        (.done (.ok (versionNumbered 1))) ∧
      Sound parseNumbered creatingClient "order" "\"string\"" creation
        (.done (.ok (versionNumbered 1))) := by
  have hrun : (creatingClient.registerSchema parseNumbered "order" "\"string\"" .avro).Leads
      creation (.done (.ok (versionNumbered 1))) :=
    .answer _ (.answer _ (.answer _ (.answer _ (.answer _ (.answer _ .here)))))
  exact ⟨hrun, registerSchema_sound parseNumbered creatingClient "order" "\"string\"" .avro hrun⟩

end Schemreg.Glue
