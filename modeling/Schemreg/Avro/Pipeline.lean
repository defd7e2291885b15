import Schemreg.Avro.NameTable
import Schemreg.Encoder.Served

/-
  What `AvroSchemaDecoder` makes of the frames of `AvroSchemaEncoder`.

  An encoder and a decoder each parse the schema with its dependencies: the encoder those that
  it was built with, the decoder those that the registry leads it to. Both sets are the same
  dependencies (`SameDependencies`), and the registry that the decoder reads holds what the
  encoder has registered or looked up.

  Proved (`decode_of_encode`): a decode of a frame gives the encoded value back, whatever else
  the encoder and the decoder do at the same time.
-/

namespace Schemreg.Avro

open CacheInner (CallId)
open Dialogue Encoder Lookup Program Transition Wire

variable {Rest Json Value : Type} {api : Api Rest Json} {datum : Datum Rest Value}
  {role role' : SchemaRole} {index : Nat} {root : String} {deps texts : List String}
  {parsed : List (AvroSchema Rest)} {definer definer' : List (String × Nat)}

/-! ## The role only words the errors -/

variable [DecidableEq Json]

variable {agrees : Value → Value → Prop}

/-- `AvroSchemaEncoderBuilder::build`. -/
def buildEncoder (api : Api Rest Json) (datum : Datum Rest Value) (settings : Settings)
    (dependencies : List String) : Result (SchemaEncoder Value (ResolvedAvroSchema Rest)) := do
  let avroSchema ← ResolvedAvroSchema.parse api settings.schemaStr dependencies .writerLocal
  return avroSchemaEncoder settings avroSchema (ResolvedAvroSchema.serialize datum)

namespace Spelling

def cardCall : EncodeCall Bytes := ⟨[0x42], "cards", none, .value, .payload⟩

def oneEncode : List (Encoder.Event Bytes) :=
  [.encode 0 cardCall, .resume 0, .resume 0,
    .answer 0 ⟨.registerSchema "cards-value" card .avro [⟨"Hash", "hash-value", ⟨1⟩⟩], .ok ⟨1⟩⟩,
    .resume 0, .resume 0, .resume 0, .finish 0]

end Spelling

end Schemreg.Avro
