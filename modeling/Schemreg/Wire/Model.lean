import Schemreg.Types
import Schemreg.Glue.Model

/-
  `src/wire.rs`: the Confluent prefix, the Protobuf message-index array, the schema-id header
  and the detection of the format.

  The encoders return byte strings; what they reserve in advance (`with_capacity`) is left
  out. The decoders run in `Outcome`, with every index, slice, shift and sum of the source
  as a checked operation. `u64` and `u32` values are machine words; positions (`usize`) and
  the shift amount (`u32`) are natural numbers behind checked sums.

  `write_varint` and `read_varint` are loops over the 7-bit groups of a `u64`, of which there
  are at most `maxGroups`. Their recursion counts the groups that are left; the lemmas show
  that it never runs out.
-/

namespace Schemreg

/-- `SchemaKey`: how a framed message names its schema. -/
inductive SchemaKey where
  | id (id : SchemaId)
  | guid (guid : SchemaGuid)
  deriving DecidableEq

namespace Wire

open Checked Glue

def uuidBytes : Nat := 16
def magicByteV0 : UInt8 := 0x00
def magicByteV1 : UInt8 := 0x01
def prefixLenV0 : Nat := 1 + 4
def prefixLenV1 : Nat := 1 + uuidBytes

/-- Maximum number of path segments in a Protobuf message-index array. -/
def maxMessageIndexCount : UInt32 := 512

/-- The canonical encoding of the message-index array `[0]`. -/
def protobufDefaultIndex : Bytes := [0x00]

/-- How many 7-bit groups a `u64` has. -/
def maxGroups : Nat := 10

/-! ## Varints -/

/-- `write_varint`. -/
def writeVarintLoop : Nat → UInt64 → Bytes
  | 0, _ => []
  | groups + 1, value =>
    let byte := (value &&& 0x7F).toUInt8
    let value := value >>> 7
    if value = 0 then [byte] else (byte ||| 0x80) :: writeVarintLoop groups value

def writeVarint (value : UInt64) : Bytes := writeVarintLoop maxGroups value

/-- ZigZag-encode a non-negative value. -/
def zigzagEncode (n : UInt32) : UInt64 := n.toUInt64 <<< 1

/-- ZigZag-decode a raw varint that must represent a non-negative value. -/
def zigzagDecodeU32 (raw : UInt64) : Decoding UInt32 :=
  if raw &&& 1 = 1 then do
    let next ← addU64 (raw >>> 1) 1
    let negative ← negI64 next.toInt64
    .err (.wireFormat ("Protobuf message-index value ZigZag-decodes to the negative number " ++
      toString negative ++ " — the frame is not Confluent Protobuf-framed, or was produced by " ++
      "a non-conforming serializer"))
  else
    let value := raw >>> 1
    if value.toNat < 2 ^ 32 then .ok value.toUInt32
    else .err (.wireFormat ("Protobuf message-index value " ++ toString value ++
      " overflows the 32-bit range"))

def truncatedVarint : SchemaRegError :=
  .wireFormat "truncated varint in Protobuf message-index"

def varintOverflow : SchemaRegError :=
  .wireFormat "varint overflow in Protobuf message-index"

/-- The loop of `read_varint`. -/
def readVarintLoop (data : Bytes) (offset : Nat) :
    Nat → UInt64 → Nat → Nat → Decoding (UInt64 × Nat)
  | 0, _, _, _ => .panic .overflow
  | groups + 1, result, shift, pos =>
    if pos ≥ data.length then .err truncatedVarint
    else do
      let byte ← index data pos
      let pos ← advance data pos 1
      let group ← shlU64 (byte.toUInt64 &&& 0x7F) shift
      let result := result ||| group
      if byte.toUInt64 &&& 0x80 = 0 then do
        let consumed ← subUsize pos offset
        .ok (result, consumed)
      else do
        let shift ← addU32 shift 7
        if shift ≥ 64 then .err varintOverflow
        else readVarintLoop data offset groups result shift pos

/-- Decode one unsigned LEB-128 varint from `data` starting at `offset`. -/
def readVarint (data : Bytes) (offset : Nat) : Decoding (UInt64 × Nat) :=
  readVarintLoop data offset maxGroups 0 0 offset

/-! ## The prefix -/

/-- `u32::to_be_bytes`. -/
def toBeBytes (n : UInt32) : Bytes :=
  [UInt8.ofNat (n.toNat / 2 ^ 24), UInt8.ofNat (n.toNat / 2 ^ 16), UInt8.ofNat (n.toNat / 2 ^ 8),
    UInt8.ofNat n.toNat]

/-- `u32::from_be_bytes`. -/
def fromBeBytes (a b c d : UInt8) : UInt32 :=
  UInt32.ofNat (a.toNat * 2 ^ 24 + b.toNat * 2 ^ 16 + c.toNat * 2 ^ 8 + d.toNat)

/-- The magic byte and identifier for `key`. -/
def putPrefix : SchemaKey → Bytes
  | .id id => magicByteV0 :: toBeBytes id.asU32
  | .guid guid => magicByteV1 :: guid.asBytes

/-- Read the magic byte and identifier at the start of `data`. -/
def decodeWirePrefix (data : Bytes) : Decoding (SchemaKey × Nat) :=
  match data.head? with
  | none => .err (.wireFormat "wire format data is empty: expected a magic byte")
  | some magic =>
    if magic = magicByteV0 then
      if data.length < prefixLenV0 then
        .err (.wireFormat ("wire format v0 data too short: expected at least " ++
          toString prefixLenV0 ++ " bytes, got " ++ toString data.length))
      else do
        let a ← index data 1
        let b ← index data 2
        let c ← index data 3
        let d ← index data 4
        .ok (.id ⟨fromBeBytes a b c d⟩, prefixLenV0)
    else if magic = magicByteV1 then
      if data.length < prefixLenV1 then
        .err (.wireFormat ("wire format v1 data too short: expected at least " ++
          toString prefixLenV1 ++ " bytes, got " ++ toString data.length))
      else do
        let bytes ← slice data 1 prefixLenV1
        let guid ← copyFromSlice uuidBytes bytes
        .ok (.guid ⟨guid.1, guid.2⟩, prefixLenV1)
    else
      .err (.wireFormat ("invalid wire format magic byte: expected 0x" ++ hex02 magicByteV0 ++
        " (schema ID) or 0x" ++ hex02 magicByteV1 ++ " (schema GUID), got 0x" ++ hex02 magic))

def encodeWireFormat (key : SchemaKey) (payload : Bytes) : Bytes := putPrefix key ++ payload

def decodeWireFormat (data : Bytes) : Decoding (SchemaKey × Bytes) := do
  let (key, prefixLen) ← decodeWirePrefix data
  let payload ← sliceFrom data prefixLen
  .ok (key, payload)

def decodeWireFormatBytes (data : Bytes) : Decoding (SchemaKey × Bytes) := do
  let (key, prefixLen) ← decodeWirePrefix data
  let payload ← sliceFrom data prefixLen
  .ok (key, payload)

/-! ## The message-index array -/

/-- The element count as a `u32`, saturating rather than wrapping. -/
def saturatingCount (msgIndexes : List UInt32) : UInt32 :=
  if msgIndexes.length < 2 ^ 32 then UInt32.ofNat msgIndexes.length else UInt32.ofNat (2 ^ 32 - 1)

/-- `put_message_indexes`. -/
def putMessageIndexes (msgIndexes : List UInt32) : Bytes :=
  if msgIndexes.isEmpty || msgIndexes = [0] then protobufDefaultIndex
  else writeVarint (zigzagEncode (saturatingCount msgIndexes)) ++
    msgIndexes.flatMap fun idx => writeVarint (zigzagEncode idx)

def encodeProtobufWireFormat (key : SchemaKey) (msgIndexes : List UInt32) (payload : Bytes) :
    Bytes :=
  putPrefix key ++ putMessageIndexes msgIndexes ++ payload

/-- The loop of `decode_protobuf_message_indexes` over the path segments. -/
def readIndexes (afterPrefix : Bytes) : Nat → Nat → List UInt32 → Decoding (List UInt32 × Nat)
  | 0, offset, indexes => .ok (indexes, offset)
  | count + 1, offset, indexes => do
    let (raw, c) ← readVarint afterPrefix offset
    let offset ← advance afterPrefix offset c
    let segment ← zigzagDecodeU32 raw
    readIndexes afterPrefix count offset (indexes ++ [segment])

/-- Strip and parse the Protobuf message-index array. -/
def decodeProtobufMessageIndexes (afterPrefix : Bytes) : Decoding (List UInt32 × Nat) := do
  let (rawCount, consumed) ← readVarint afterPrefix 0
  let count ← zigzagDecodeU32 rawCount
  if count = 0 then .ok ([0], consumed)
  else if count > maxMessageIndexCount then
    .err (.wireFormat ("Protobuf message-index count " ++ toString count ++
      " exceeds the maximum of " ++ toString maxMessageIndexCount))
  else readIndexes afterPrefix count.toNat consumed []

/-! ## The schema-id header -/

def encodeSchemaIdHeader (key : SchemaKey) (msgIndexes : Option (List UInt32)) : Bytes :=
  putPrefix key ++
    match msgIndexes with
    | some indexes => putMessageIndexes indexes
    | none => []

def decodeSchemaIdHeader (value : Bytes) : Decoding (SchemaKey × Option (List UInt32)) := do
  let (key, prefixLen) ← decodeWirePrefix value
  let rest ← sliceFrom value prefixLen
  if rest.isEmpty then .ok (key, none)
  else do
    let (indexes, consumed) ← decodeProtobufMessageIndexes rest
    if consumed ≠ rest.length then do
      let trailing ← subUsize rest.length consumed
      .err (.wireFormat ("schema-id header has " ++ toString trailing ++
        " trailing byte(s) after the message-index array — the header must contain the " ++
        "identifier and nothing else"))
    else .ok (key, some indexes)

def keySchemaIdHeader : String := "__key_schema_id"
def valueSchemaIdHeader : String := "__value_schema_id"

def schemaIdHeaderName : EncodeTarget → String
  | .key => keySchemaIdHeader
  | .value => valueSchemaIdHeader

/-- `HeaderFramed`: a record whose identifier travels in a Kafka header. -/
structure HeaderFramed where
  headerName : String
  headerValue : Bytes
  payload : Bytes
  deriving DecidableEq

/-- `HeaderFramed::new`. -/
def HeaderFramed.new (target : EncodeTarget) (schema : SchemaKey)
    (msgIndexes : Option (List UInt32)) (payload : Bytes) : HeaderFramed :=
  ⟨schemaIdHeaderName target, encodeSchemaIdHeader schema msgIndexes, payload⟩

/-! ## Auto-detection -/

/-- Outcome of `detect_wire_format`. -/
inductive DetectedWireFormat where
  | confluent (key : SchemaKey) (payloadOffset : Nat)
  | glue (versionId : GlueSchemaVersionId) (compression : GlueCompression) (payloadOffset : Nat)
  | invalidConfluent
  | invalidGlue
  | unknown
  deriving DecidableEq

/-- Detect which wire format a buffer uses, from its first byte. -/
def detectWireFormat (data : Bytes) : Decoding DetectedWireFormat :=
  match data.head? with
  | none => .ok .unknown
  | some first =>
    if first = magicByteV0 ∨ first = magicByteV1 then
      match decodeWirePrefix data with
      | .ok (key, payloadOffset) => .ok (.confluent key payloadOffset)
      | .err _ => .ok .invalidConfluent
      | .panic p => .panic p
    else if first = glueHeaderVersionByte then
      if data.length < glueHeaderSize then .ok .invalidGlue
      else do
        let byte ← index data 1
        let detected (compression : GlueCompression) : Decoding DetectedWireFormat := do
          let uuid ← slice data 2 glueHeaderSize
          let versionBytes ← copyFromSlice uuidBytes uuid
          .ok (.glue ⟨versionBytes.1, versionBytes.2⟩ compression glueHeaderSize)
        if byte = glueCompressionNoneByte then detected .none
        else if byte = glueCompressionZlibByte then detected .zlib
        else .ok .invalidGlue
    else .ok .unknown

end Wire

end Schemreg
