import Schemreg.Glue.Model
import Schemreg.Lib.DialogueRules
import Schemreg.RetryPolicy

/-
  `src/glue/client.rs` and `src/glue/error.rs`: registration through the AWS SDK.

  The SDK is code of another crate. A call of an operation is one request, however often the SDK
  sends it, and its answer is the output or an `SdkError`. Of the outputs the model has the fields
  that registration reads. A text that the SDK renders is a field of its error, and
  `parseStr` is `Uuid::parse_str`, with the text of its error.
-/

namespace Schemreg.Glue

open Dialogue Program

/-! ## Errors of the SDK -/

/-- `SdkError`, with the rendered text, and the metadata of what the service answered. -/
inductive SdkError where
  | constructionFailure (text : String)
  | timeoutError (text : String)
  | dispatchFailure (text : String)
  | responseError (text : String)
  | serviceError (status : UInt16) (code message : Option String)
  deriving DecidableEq, Repr

namespace Codes

def notFound : Int32 := 40401
def alreadyExists : Int32 := 40902
def invalidInput : Int32 := 42201

end Codes

def classifyServiceError (status : UInt16) (code message : String) : SchemaRegError :=
  let detail := code ++ ": " ++ message
  let byStatus : SchemaRegError :=
    if status = 401 ∨ status = 403 then .auth status detail
    else if status = 404 then .api Codes.notFound detail
    else if status = 409 then .api Codes.alreadyExists detail
    else .http status detail
  match code with
  | "AccessDeniedException" | "UnrecognizedClientException" | "InvalidSignatureException" =>
      .auth (if status = 0 then 403 else status) detail
  | "EntityNotFoundException" => .api Codes.notFound detail
  | "AlreadyExistsException" => .api Codes.alreadyExists detail
  | "InvalidInputException" =>
      if status = 404 then .api Codes.notFound detail else .api Codes.invalidInput detail
  | "SchemaVersionNotFoundException" =>
      if status = 404 then .api Codes.notFound detail else byStatus
  | "ThrottlingException" | "ThrottledException" | "RequestThrottledException"
  | "TooManyRequestsException" => .http 429 detail
  | "InternalServiceException" | "ServiceUnavailableException" | "InternalFailure" =>
      .http (if status < 500 then 503 else status) detail
  | _ => byStatus

def mapSdkError : SdkError → SchemaRegError
  | .constructionFailure text => .config ("failed to build the AWS Glue request: " ++ text)
  | .timeoutError text | .dispatchFailure text | .responseError text => .network text
  | .serviceError status code message =>
      classifyServiceError status (code.getD "UnknownServiceError")
        (message.getD "<no message returned by AWS Glue>")

/-! ## Operations of the service -/

/-- `aws_sdk_glue::types::SchemaVersionStatus`. -/
inductive SchemaVersionStatus where
  | available
  | deleting
  | failure
  | pending
  | unknown (value : String)
  deriving DecidableEq, Repr

/-- `aws_sdk_glue::types::DataFormat`. -/
inductive DataFormat where
  | avro
  | json
  | protobuf
  | unknown (value : String)
  deriving DecidableEq, Repr

/-- `aws_sdk_glue::types::Compatibility`. -/
inductive Compatibility where
  | backward
  | backwardAll
  | disabled
  | forward
  | forwardAll
  | full
  | fullAll
  | none
  | unknown (value : String)
  deriving DecidableEq, Repr

/-- `aws_sdk_glue::types::SchemaId`, as `register_schema` builds it. -/
structure SdkSchemaId where
  schemaName : String
  registryName : String
  deriving DecidableEq, Repr

structure GetSchemaByDefinitionOutput where
  schemaVersionId : Option String
  status : Option SchemaVersionStatus
  deriving DecidableEq, Repr

structure RegisterSchemaVersionOutput where
  schemaVersionId : Option String
  deriving DecidableEq, Repr

structure CreateSchemaOutput where
  schemaVersionId : Option String
  deriving DecidableEq, Repr

structure GetSchemaVersionOutput where
  status : Option SchemaVersionStatus
  deriving DecidableEq, Repr

/-- What the client waits for: an operation of the service, or a timer. -/
inductive Call where
  | getSchemaByDefinition (schemaId : SdkSchemaId) (schemaDefinition : String)
  | registerSchemaVersion (schemaId : SdkSchemaId) (schemaDefinition : String)
  | createSchema (registryName schemaName : String) (dataFormat : DataFormat)
      (compatibility : Compatibility) (schemaDefinition : String)
  | getSchemaVersion (schemaVersionId : String)
  | sleep (duration : Duration)
  deriving DecidableEq

abbrev Response : Call → Type
  | .getSchemaByDefinition .. => Except SdkError GetSchemaByDefinitionOutput
  | .registerSchemaVersion .. => Except SdkError RegisterSchemaVersionOutput
  | .createSchema .. => Except SdkError CreateSchemaOutput
  | .getSchemaVersion _ => Except SdkError GetSchemaVersionOutput
  | .sleep _ => Unit

abbrev Exchange := Dialogue.Exchange Call Response

/-! ## The client -/

def defaultPollMaxAttempts : UInt32 := 10

def defaultPollInterval : Duration := .fromSecs 3

structure AwsGlueSchemaRegistry where
  registryName : String
  autoRegister : Bool
  pollMaxAttempts : UInt32
  pollInterval : Duration
  deriving DecidableEq

/-- `AwsGlueSchemaRegistry::new`. -/
def AwsGlueSchemaRegistry.new (registryName : String) : AwsGlueSchemaRegistry :=
  ⟨registryName, false, defaultPollMaxAttempts, defaultPollInterval⟩

def toSdkDataFormat : GlueDataFormat → DataFormat
  | .avro => .avro
  | .json => .json
  | .protobuf => .protobuf

section Parse

variable (parseStr : String → Except String GlueSchemaVersionId)

/-- `FromStr`. -/
def GlueSchemaVersionId.fromStr (s : String) : Result GlueSchemaVersionId :=
  match parseStr s with
  | .ok id => .ok id
  | .error e => .error (.config ("invalid Glue schema version ID '" ++ s ++ "': " ++ e))

def parseVersionId (s : String) : Result GlueSchemaVersionId :=
  match GlueSchemaVersionId.fromStr parseStr s with
  | .ok id => .ok id
  | .error e => .error (.invalidState ("invalid schema version ID from registry: " ++ e.toString))

end Parse

namespace AwsGlueSchemaRegistry

variable (client : AwsGlueSchemaRegistry)

/-- The loop of `wait_for_available`, for the attempts that are left. -/
def poll (schemaVersionId : String) :
    List Nat → Program Call Response (Result GetSchemaVersionOutput)
  | [] => pure (.error (.invalidState ("schema version did not reach AVAILABLE status after " ++
      client.pollMaxAttempts.toNat.repr ++ " attempts")))
  | attempt :: attempts => do
      let result ← send (Call.getSchemaVersion schemaVersionId)
      match result with
      | .error err => pure (.error (mapSdkError err))
      | .ok response =>
        match response.status with
        | some .available => pure (.ok response)
        | some .failure =>
            pure (.error (.invalidState "schema version registration failed (status: FAILURE)"))
        | some .deleting => pure (.error (.invalidState "schema version is being deleted"))
        | _ =>
          -- `attempt < poll_max_attempts`, so that the sum fits `u32`
          if attempt + 1 < client.pollMaxAttempts.toNat then do
            let _ ← send (Call.sleep client.pollInterval)
            poll schemaVersionId attempts
          else poll schemaVersionId attempts

def waitForAvailable (schemaVersionId : String) :
    Program Call Response (Result GetSchemaVersionOutput) :=
  client.poll schemaVersionId (List.range client.pollMaxAttempts.toNat)

variable (parseStr : String → Except String GlueSchemaVersionId)

def waitAndParseVersionId (versionIdStr : String) :
    Program Call Response (Result GlueSchemaVersionId) := do
  let result ← client.waitForAvailable versionIdStr
  match result with
  | .error err => pure (.error err)
  | .ok _ => pure (parseVersionId parseStr versionIdStr)

/-- What `register_schema` does with the version of an answer, which may be missing. -/
def waitForVersion (missing : String) (schemaVersionId : Option String) :
    Program Call Response (Result GlueSchemaVersionId) :=
  match schemaVersionId with
  | none => pure (.error (.invalidState missing))
  | some versionIdStr => client.waitAndParseVersionId parseStr versionIdStr

def registerSchema (schemaName schema : String) (dataFormat : GlueDataFormat) :
    Program Call Response (Result GlueSchemaVersionId) := do
  let sdkFormat := toSdkDataFormat dataFormat
  let schemaId : SdkSchemaId := ⟨schemaName, client.registryName⟩
  -- check if the definition is already registered
  let existing ← send (Call.getSchemaByDefinition schemaId schema)
  match existing with
  | .ok ⟨some versionIdStr, some .available⟩ => pure (parseVersionId parseStr versionIdStr)
  | _ =>
    let registerResult ← send (Call.registerSchemaVersion schemaId schema)
    match registerResult with
    | .ok response =>
        client.waitForVersion parseStr "register response missing schema_version_id"
          response.schemaVersionId
    | .error registerErr =>
      if !client.autoRegister then pure (.error (mapSdkError registerErr))
      else
        -- the first version of the schema
        let createResult ← send
          (Call.createSchema client.registryName schemaName sdkFormat .backward schema)
        match createResult with
        | .ok response =>
            client.waitForVersion parseStr "create schema response missing schema_version_id"
              response.schemaVersionId
        | .error _ =>
          let fallback ← send (Call.registerSchemaVersion schemaId schema)
          match fallback with
          | .error e => pure (.error (mapSdkError e))
          | .ok response =>
              client.waitForVersion parseStr "register response missing schema_version_id"
                response.schemaVersionId

end AwsGlueSchemaRegistry

end Schemreg.Glue
