import Mathlib.Data.List.Infix
import Schemreg.Http

/-
  `src/confluent/mod.rs`: what the Confluent client makes of a response.

  The JSON decoders are a parameter (`Serde`).
-/

namespace Schemreg.Confluent

/-- `ErrorResponse`. -/
structure ErrorResponse where
  errorCode : Int32
  message : String
  deriving DecidableEq, Repr

/-- `SchemaBySubjectResponse`. -/
structure SchemaBySubjectResponse where
  id : SchemaId
  schema : String
  version : SchemaVersion
  subject : String
  schemaType : String
  references : Option (List SchemaReference)
  guid : Option SchemaGuid
  deriving DecidableEq

/-- `serde_json::from_slice` at the types that the client decodes. -/
structure Serde where
  errorResponse : List UInt8 → Option ErrorResponse
  registerSchemaResponse : List UInt8 → Except String SchemaId
  schemaBySubjectResponse : List UInt8 → Except String SchemaBySubjectResponse
  versions : List UInt8 → Except String (List SchemaVersion)
  version : List UInt8 → Except String Int32

def errorBodyPreviewLimit : Nat := 512

/-- What the preview of a body shows for a character. -/
def previewChar (c : Char) : String :=
  if c = '\n' then "\\n"
  else if c = '\r' then "\\r"
  else if c = '\t' then "\\t"
  else if c.toNat < 0x20 ∨ (0x7F ≤ c.toNat ∧ c.toNat < 0xA0) then "?"
  else String.singleton c

/-- The loop of `sanitized_error_body_preview`: what fits, and whether it was cut. -/
def previewLoop (preview : String) : List Char → String
  | [] => preview
  | c :: rest =>
      if preview.utf8ByteSize + (previewChar c).utf8ByteSize > errorBodyPreviewLimit then
        preview ++ "...[truncated]"
      else previewLoop (preview ++ previewChar c) rest

def sanitizedErrorBodyPreview (body : String) : String :=
  if body.isEmpty then "<empty>" else previewLoop "" body.toList

/-- Convert a non-2xx response into the most specific error variant available. -/
def responseError (serde : Serde) (status : UInt16) (body : List UInt8) : SchemaRegError :=
  if status = 401 ∨ status = 403 then
    .auth status (((serde.errorResponse body).map ErrorResponse.message).getD
      ("HTTP " ++ toString status.toNat))
  else
    match serde.errorResponse body with
    | some err => .api err.errorCode err.message
    | none => .http status (sanitizedErrorBodyPreview (Utf8.fromUtf8Lossy body))

def isSuccess (status : UInt16) : Bool := 200 ≤ status && status < 300

/-- `handle_response`, with the decoder of the expected type. -/
def handleResponse {T : Type} (serde : Serde) (decode : List UInt8 → Except String T)
    (resp : HttpResponse) : Result T :=
  if isSuccess resp.status then
    match resp.contentType with
    | some ct =>
        if "json".toList <:+: ct.toList then
          match decode resp.body with
          | .ok value => .ok value
          | .error e => .error (.invalidState ("failed to parse schema registry response: " ++ e))
        else
          .error (.http resp.status ("unexpected Content-Type '" ++ ct ++
            "' from schema registry (expected JSON)"))
    | none =>
        .error (.http resp.status
          "missing Content-Type header from schema registry (expected JSON)")
  else .error (responseError serde resp.status resp.body)

/-- A successful body carries no information. -/
def handleUnitResponse (serde : Serde) (resp : HttpResponse) : Result Unit :=
  if isSuccess resp.status then .ok () else .error (responseError serde resp.status resp.body)

end Schemreg.Confluent
