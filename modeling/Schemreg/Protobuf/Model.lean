import Schemreg.Wire.Model

/-
  `src/protobuf/mod.rs`: the index path of a message descriptor, and stripping the Confluent
  frame of a Protobuf message.

  The decoder's registry client is left out: `unframe` does not use it. Of a descriptor, which
  is a type of another crate, the path and the full name are read.
-/

namespace Schemreg.Protobuf

open Checked Wire

/-! ## Index paths -/

/-- Field number of `FileDescriptorProto.message_type`. -/
def fileMessageTypeField : Int32 := 4

/-- Field number of `DescriptorProto.nested_type`. -/
def nestedTypeField : Int32 := 3

/-- `MessageDescriptor`. -/
structure MessageDescriptor where
  path : List Int32
  fullName : String
  deriving DecidableEq

/-- `as_chunks::<2>().0`. -/
def asChunks : List Int32 → List (Int32 × Int32)
  | a :: b :: rest => (a, b) :: asChunks rest
  | _ => []

/-- `step_by(2)`. -/
def stepBy2 : List Int32 → List Int32
  | a :: _ :: rest => a :: stepBy2 rest
  | path => path

/-- The loop over the segments below the first one, each with its level. -/
def checkNested (fullName : String) : List ((Int32 × Int32) × Nat) → Decoding Unit
  | [] => .ok ()
  | (chunk, level) :: rest =>
    if chunk.1 ≠ nestedTypeField then
      .err (.config ("descriptor for '" ++ fullName ++ "' has a non-nested_type segment at level "
        ++ toString level ++ ": expected field " ++ toString nestedTypeField ++ ", got " ++
        toString chunk.1))
    else checkNested fullName rest

/-- `u32::try_from` of every position. -/
def positions (fullName : String) : List Int32 → Decoding (List UInt32)
  | [] => .ok []
  | position :: rest =>
    if position.toInt < 0 then
      .err (.config ("descriptor for '" ++ fullName ++ "' has a negative position " ++
        toString position ++ " in its path"))
    else do
      let tail ← positions fullName rest
      .ok (position.toUInt32 :: tail)

/-- `message_index_path_from`. -/
def messageIndexPathFrom (path : List Int32) (fullName : String) : Decoding (List UInt32) :=
  if path.length < 2 ∨ path.length % 2 ≠ 0 then
    .err (.config ("descriptor for '" ++ fullName ++ "' has an unexpected path " ++
      toString path ++ "; expected an alternating message_type/nested_type chain"))
  else do
    let field ← index path 0
    if field ≠ fileMessageTypeField then
      .err (.config ("descriptor for '" ++ fullName ++ "' does not start at " ++
        "FileDescriptorProto.message_type (field " ++ toString fileMessageTypeField ++
        "); got field " ++ toString field))
    else do
      let () ← checkNested fullName ((asChunks path).zipIdx.drop 1)
      positions fullName (stepBy2 (path.drop 1))

def messageIndexPath (descriptor : MessageDescriptor) : Decoding (List UInt32) :=
  messageIndexPathFrom descriptor.path descriptor.fullName

/-! ## Frames -/

/-- `UnframedProtobuf`. -/
structure UnframedProtobuf where
  key : SchemaKey
  messageIndexes : List UInt32
  payload : Bytes
  deriving DecidableEq

/-- `ProtobufSchemaDecoder`. -/
structure ProtobufSchemaDecoder where
  expectedIndexes : Option (List UInt32)
  expectedName : Option String

namespace ProtobufSchemaDecoder

/-- A decoder without an expected descriptor. -/
def new : ProtobufSchemaDecoder := ⟨none, none⟩

/-- Reject messages whose message-index path does not match `descriptor`. -/
def withExpectedDescriptor (self : ProtobufSchemaDecoder) (descriptor : MessageDescriptor) :
    Decoding ProtobufSchemaDecoder := do
  let indexes ← messageIndexPath descriptor
  .ok { self with expectedIndexes := some indexes, expectedName := some descriptor.fullName }

/-- The error for a message of another type than the expected one. -/
def mismatch (self : ProtobufSchemaDecoder) (messageIndexes expected : List UInt32) :
    SchemaRegError :=
  .wireFormat ("Protobuf message-index " ++ toString messageIndexes ++
    " does not match the expected type" ++
    (match self.expectedName with
      | some n => " '" ++ n ++ "'"
      | none => "") ++
    " with index " ++ toString expected ++ " — the payload is a different message type")

/-- Strip the Confluent header and message-index without decoding. -/
def unframe (self : ProtobufSchemaDecoder) (data : Bytes) : Decoding UnframedProtobuf := do
  let (key, afterPrefix) ← decodeWireFormatBytes data
  let (messageIndexes, offset) ← decodeProtobufMessageIndexes afterPrefix
  let unframed : Decoding UnframedProtobuf := do
    let payload ← sliceFrom afterPrefix offset
    .ok ⟨key, messageIndexes, payload⟩
  match self.expectedIndexes with
  | some expected =>
    if messageIndexes ≠ expected then .err (self.mismatch messageIndexes expected) else unframed
  | none => unframed

end ProtobufSchemaDecoder

end Schemreg.Protobuf
