import Schemreg.Error
import Schemreg.Lib.Checked

/-
  `src/glue/mod.rs`: the 18-byte header of the Glue wire format, its encoder and its
  decoders.

  A byte string is a list of bytes. Inflating is code of another crate: `zlibRead data limit`
  is what `ZlibDecoder::new(data).take(limit).read_to_end` returns, the bytes or the text of
  its error. It is a parameter, and so is deflating: `zlibWrite payload` is what `write_all`
  and `finish` of a `ZlibEncoder` return. The crate is modelled with its `glue` feature.
-/

namespace Schemreg

open Checked

/-- A byte string. -/
abbrev Bytes := List UInt8

/-- A run of the crate's code. -/
abbrev Decoding (α : Type) := Outcome SchemaRegError α

/-- A format placeholder with two uppercase hexadecimal digits. -/
def hex02 (b : UInt8) : String :=
  String.ofList [(Nat.digitChar (b.toNat / 16)).toUpper, (Nat.digitChar (b.toNat % 16)).toUpper]

namespace Glue

def glueHeaderVersionByte : UInt8 := 0x03
def glueCompressionNoneByte : UInt8 := 0x00
def glueCompressionZlibByte : UInt8 := 0x05
def glueHeaderSize : Nat := 18
def uuidSize : Nat := 16

/-- Maximum decompressed size (128 MiB) to protect against decompression bombs. -/
def maxDecompressedSize : Nat := 128 * 1024 * 1024

/-- `GlueSchemaVersionId(uuid::Uuid)`: the 16 big-endian bytes. -/
structure GlueSchemaVersionId where
  asBytes : Bytes
  length_eq : asBytes.length = uuidSize
  deriving DecidableEq

inductive GlueCompression where
  | none
  | zlib
  deriving DecidableEq, Repr

inductive GlueDataFormat where
  | avro
  | json
  | protobuf
  deriving DecidableEq, Repr

/-- `GlueSchema`. -/
structure GlueSchema where
  schemaVersionId : GlueSchemaVersionId
  dataFormat : GlueDataFormat
  schemaDefinition : String
  schemaArn : Option String
  versionNumber : Option Int64
  deriving DecidableEq

def validateGlueWireHeader (data : Bytes) : Decoding (GlueSchemaVersionId × GlueCompression) :=
  if data.length < glueHeaderSize then
    .err (.wireFormat ("Glue wire format data too short: expected at least " ++
      toString glueHeaderSize ++ " bytes, got " ++ toString data.length))
  else do
    let version ← index data 0
    if version ≠ glueHeaderVersionByte then
      .err (.wireFormat ("invalid Glue wire format header version byte: expected 0x" ++
        hex02 glueHeaderVersionByte ++ ", got 0x" ++ hex02 version))
    else do
      let other ← index data 1
      let compression ←
        if other = glueCompressionNoneByte then .ok GlueCompression.none
        else if other = glueCompressionZlibByte then .ok GlueCompression.zlib
        else .err (.wireFormat ("unknown Glue wire format compression byte: 0x" ++ hex02 other))
      let uuid ← slice data 2 glueHeaderSize
      let uuidBytes ← copyFromSlice uuidSize uuid
      .ok (⟨uuidBytes.1, uuidBytes.2⟩, compression)

section Deflate

variable (zlibWrite : Bytes → Except String Bytes)

def compressZlib (data : Bytes) : Decoding Bytes :=
  match zlibWrite data with
  | .error e => .err (.wireFormat ("ZLIB compression failed: " ++ e))
  | .ok compressed => .ok compressed

def encodeGlueWireFormat (schemaVersionId : GlueSchemaVersionId) (payload : Bytes)
    (compression : GlueCompression) : Decoding Bytes := do
  let (compressionByte, payloadBytes) ← match compression with
    | .none => .ok (glueCompressionNoneByte, payload)
    | .zlib => do
      let compressed ← compressZlib zlibWrite payload
      .ok (glueCompressionZlibByte, compressed)
  .ok (glueHeaderVersionByte :: compressionByte :: (schemaVersionId.asBytes ++ payloadBytes))

end Deflate

/-- `Cow<'_, [u8]>`. -/
inductive Cow where
  | borrowed (bytes : Bytes)
  | owned (bytes : Bytes)
  deriving DecidableEq, Repr

/-- The bytes, whoever owns them. -/
def Cow.bytes : Cow → Bytes
  | .borrowed bytes => bytes
  | .owned bytes => bytes

section Inflate

variable (zlibRead : Bytes → Nat → Except String Bytes)

def decompressZlib (data : Bytes) : Decoding Bytes :=
  match zlibRead data (maxDecompressedSize + 1) with
  | .error e => .err (.wireFormat ("ZLIB decompression failed: " ++ e))
  | .ok decompressed =>
    if decompressed.length > maxDecompressedSize then
      .err (.wireFormat ("ZLIB decompressed size " ++ toString decompressed.length ++
        " exceeds maximum " ++ toString maxDecompressedSize ++
        " bytes (possible decompression bomb)"))
    else .ok decompressed

def decodeGlueWireFormat (data : Bytes) : Decoding (GlueSchemaVersionId × Bytes) := do
  let (schemaVersionId, compression) ← validateGlueWireHeader data
  let raw ← sliceFrom data glueHeaderSize
  let payload ← match compression with
    | .none => .ok raw
    | .zlib => decompressZlib zlibRead raw
  .ok (schemaVersionId, payload)

def decodeGlueWireFormatBorrowed (data : Bytes) : Decoding (GlueSchemaVersionId × Cow) := do
  let (schemaVersionId, compression) ← validateGlueWireHeader data
  let raw ← sliceFrom data glueHeaderSize
  let payload ← match compression with
    | .none => .ok (.borrowed raw)
    | .zlib => do
      let decompressed ← decompressZlib zlibRead raw
      .ok (Cow.owned decompressed)
  .ok (schemaVersionId, payload)

def decodeGlueWireFormatBytes (data : Bytes) : Decoding (GlueSchemaVersionId × Bytes) := do
  let (schemaVersionId, compression) ← validateGlueWireHeader data
  let raw ← sliceFrom data glueHeaderSize
  match compression with
  | .none => .ok (schemaVersionId, raw)
  | .zlib => do
    let payload ← decompressZlib zlibRead raw
    .ok (schemaVersionId, payload)

end Inflate

end Glue

end Schemreg
