import Schemreg.Lookup.Transparency
import Schemreg.Lib.DepthFirstDialogue
import Schemreg.Wire.Prefix

/-
  What the decoders ask a registry for.

  `src/traits.rs`: the lookups of `SchemaRegistryClient` by an identifier or by a version. They
  read what a registry never changes, so a registry is a function of them here.
-/

namespace Schemreg

/-- `Display`. -/
def SchemaKey.toString : SchemaKey → String
  | .id schemaId => "id " ++ schemaId.toString
  | .guid schemaGuid => "guid " ++ schemaGuid.toString

namespace Lookup

open Checked Dialogue Program Wire

/-- The lookups that a decoder makes. -/
inductive Read where
  | getSchemaById (id : SchemaId)
  | getSchemaByGuid (guid : SchemaGuid)
  | getSchemaByVersion (subject : String) (version : SchemaVersion)
  deriving DecidableEq

/-- Dialogues with a registry. -/
abbrev Reading (V : Type) : Type := Fetch Read (fun _ => Schema) V

/-- What a registry holds. -/
abbrev Registry : Type := Read → Result Schema

/-- The request of `get_schema_by_key`. -/
def Read.byKey : SchemaKey → Read
  | .id id => .getSchemaById id
  | .guid guid => .getSchemaByGuid guid

/-- `get_schema_by_key`. -/
def getSchemaByKey (key : SchemaKey) : Reading Schema := send (.byKey key)

/-- `get_schema_by_version`, for a reference. -/
def getReferenced (reference : SchemaReference) : Reading Schema :=
  send (.getSchemaByVersion reference.subject reference.version)

theorem strict_getSchemaByKey (key : SchemaKey) : Strict IsError (getSchemaByKey key) :=
  strict_send _

theorem strict_getReferenced (reference : SchemaReference) :
    Strict IsError (getReferenced reference) := strict_send _

namespace Registry

variable (registry : Registry)

def schemaByKey (key : SchemaKey) : Result Schema := registry (.byKey key)

def schemaByVersion (subject : String) (version : SchemaVersion) : Result Schema :=
  registry (.getSchemaByVersion subject version)

@[simp] theorem eval_getSchemaByKey (key : SchemaKey) :
    (getSchemaByKey key).eval registry = registry.schemaByKey key := rfl

@[simp] theorem eval_getReferenced (reference : SchemaReference) :
    (getReferenced reference).eval registry =
      registry.schemaByVersion reference.subject reference.version := rfl

end Registry

theorem decodeWireFormatBytes_safe (data : Bytes) : (decodeWireFormatBytes data).Safe := by
  rcases decodeWirePrefix_cases data with ⟨key, rest, hok, rfl⟩ | ⟨err, herr⟩
  · unfold decodeWireFormatBytes
    rw [hok, Outcome.bind_ok]
    dsimp only
    rw [sliceFrom_of_le (by rw [List.length_append]; exact Nat.le_add_right _ _)]
    exact Outcome.safe_ok _
  · unfold decodeWireFormatBytes
    rw [herr]
    exact Outcome.safe_err _

/-- `decode_wire_format_bytes`, whose slice is always in bounds. -/
def unframe (data : Bytes) : Result (SchemaKey × Bytes) :=
  (decodeWireFormatBytes data).result (decodeWireFormatBytes_safe data)

end Lookup

end Schemreg
