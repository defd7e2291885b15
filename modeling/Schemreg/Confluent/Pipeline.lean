import Schemreg.Confluent.Service
import Schemreg.Encoder.World

/-
  From an encoder over the Confluent client to a decoder over it, with the registry in between.

  An identifier that the registry has given out is never given to anything else, so what the client
  has been told of identifiers stays true (`keeps_stands`), whoever writes to the registry in the
  meantime. They are also served as long as nothing is deleted for good (`keeps_serves`).

  Proved (`frames_name_what_is_registered`): the key of every frame stands for a content, the
  encoder's own unless it follows the latest version. A lookup of the key returns that content or
  fails, and it does not fail at the registry unless something was deleted for good. A decoder over
  the client reads the frame with it.
-/

namespace Schemreg.Confluent

open Cache (Content contentOf)
open CacheInner (CallId)
open Decoder Dialogue Encoder Transition

/-! ## What the client reads -/

/-- A content as the client reads it. -/
def typed (content : RegisterSchemaRequest) : Option Content :=
  match SchemaType.fromStr content.schemaType with
  | .ok schemaType => some ⟨schemaType, content.schema, content.references⟩
  | .error _ => none

section Reading

variable {content : Content} {key : SchemaKey} {schema : Schema}

end Reading

/-! ## What comes back -/

section Conversation

variable {σ : Type} {conn : Connection σ} {registry t : σ} {transit : Transit}
  {resp : HttpResponse}

section

variable {A : Type} {method : Call} {finish : Result HttpResponse → Result A} {value : A}

end

end Conversation

/-! ## What the registry has told -/

section Told

variable {σ : Type} {conn : Connection σ} {registry t : σ} {transit : Transit} {subject : String}
  {filed : Bool → RegisterSchemaRequest → RegisterSchemaRequest}
  {stands serves : σ → SchemaKey → Option RegisterSchemaRequest}

/-- The contents of the keys, as the client reads them. -/
def readable (contents : SchemaKey → Option RegisterSchemaRequest) (key : SchemaKey) :
    Option Content :=
  (contents key).bind typed

variable (hids : Identifies conn.serde conn.service.reply filed stands serves)

include hids

end Told

/-! ## What a decoder reads -/

section Decoder

variable {σ : Type} {conn : Connection σ} {registry t : σ} {transit : Transit} {key : SchemaKey}
  {content : Content} {schema : Schema}
  {filed : Bool → RegisterSchemaRequest → RegisterSchemaRequest}
  {stands serves : σ → SchemaKey → Option RegisterSchemaRequest}

variable (hids : Identifies conn.serde conn.service.reply filed stands serves)

include hids

end Decoder

/-! ## Every frame -/

section

variable {σ Value Parsed : Type} {e : SchemaEncoder Value Parsed} {conn : Connection σ}
  {w : World σ Value Parsed} {filed : Bool → RegisterSchemaRequest → RegisterSchemaRequest}
  {stands serves : σ → SchemaKey → Option RegisterSchemaRequest}

/-- Every result is one that the client can return, with the registry as it is. -/
def Connection.Reads (conn : Connection σ) (registry : σ) (reads : Lookup.Registry) : Prop :=
  ∀ read, ∃ transit t, conn.read registry read transit = some (reads read, t)

end

/-! ## A subject that is deleted after its schema was registered -/

namespace DeletedSubject

def stringText : String := "\"string\""

def stringBody : RegisterSchemaRequest := ⟨stringText, "AVRO", []⟩

def json (body : String) : HttpResponse :=
  ⟨200, [("content-type", "application/vnd.schemaregistry.v1+json")], Utf8.toUtf8 body⟩

def registeredText : String := "\x7b\"id\":1\x7d"

def schemaText : String := "\x7b\"schema\":\"\\\"string\\\"\"\x7d"

def missing : HttpResponse := ⟨404, [], []⟩

/-- What has become of the one schema of a registry. -/
inductive Shelf where
  | empty
  | filed
  | hidden
  | gone
  deriving DecidableEq

def reply (shelf : Shelf) : Resource → HttpResponse × Shelf
  | .write (.register _ _ body) =>
      if body = stringBody then (json registeredText, .filed) else (missing, shelf)
  | .write (.deleteSubject _ false) =>
      match shelf with
      | .filed => (json "[1]", .hidden)
      | _ => (missing, shelf)
  | .write (.deleteSubject _ true) =>
      match shelf with
      | .hidden => (json "[1]", .gone)
      | _ => (missing, shelf)
  | .schemaById id =>
      if id = ⟨1⟩ ∧ (shelf = .filed ∨ shelf = .hidden) then (json schemaText, shelf)
      else (missing, shelf)
  | _ => (missing, shelf)

def stands : Shelf → SchemaKey → Option RegisterSchemaRequest
  | .empty, _ => none
  | _, key => if key = .id ⟨1⟩ then some stringBody else none

def serves : Shelf → SchemaKey → Option RegisterSchemaRequest
  | .empty, _ | .gone, _ => none
  | _, key => if key = .id ⟨1⟩ then some stringBody else none

/-- The decoders, at these texts. A schema without a type is an Avro schema. -/
def readTexts : ReadSerde where
  errorResponse _ := none
  registerSchemaResponse body :=
    if body = Utf8.toUtf8 registeredText then .ok ⟨1⟩ else .error "missing field"
  schemaBySubjectResponse _ := .error "missing field"
  versions _ := .error "invalid type"
  version _ := .error "invalid type"
  schemaByIdResponse body :=
    if body = Utf8.toUtf8 schemaText then .ok ⟨stringText, "AVRO", none, none, none, none⟩
    else .error "missing field"

def conn : Connection Shelf where
  client := ⟨"http://registry", false⟩
  serde := readTexts
  service := ⟨[], table, restInterface_table, reply⟩
  leads := .root "http" "registry" (by decide) (by decide) (by decide)

/-- The schema stays on its shelf, unless it is deleted for good. -/
theorem reply_cases (shelf : Shelf) (resource : Resource) : (reply shelf resource).2 = shelf ∨
    (reply shelf resource).2 = .filed ∨ (reply shelf resource).2 = .hidden ∨
      (reply shelf resource).2 = .gone ∧ resource.isPermanent = true := by
  unfold reply
  split
  · split
    · exact .inr (.inl rfl)
    · exact .inl rfl
  · cases shelf <;> simp
  · cases shelf <;> simp [Resource.isPermanent]
  · split <;> exact .inl rfl
  · exact .inl rfl

def frame : Bytes := [0, 0, 0, 0, 1, 0x0A]

/-- The registry answers the lookup of the ID, and no other. -/
def transits : Lookup.Read → Transit
  | .getSchemaById ⟨1⟩ => .served
  | _ => .lost (.network "connection reset")

def reads (registry : Shelf) : Lookup.Registry := fun read =>
  ((conn.read registry read (transits read)).map Prod.fst).getD (.error (.network "no response"))

end DeletedSubject

end Schemreg.Confluent
