import Schemreg.Glue.Header

/-
  Glue framing and its three decoders.

  The decoders read one header check and differ in who owns the payload. Each of them is the
  same function of the bytes behind the header (`decode_append`, `borrowed_append`,
  `decodeGlue_append`), so they agree on every byte string (`decoders_agree`). What the
  encoder writes they read back, provided that inflating undoes deflating
  (`Glue.framing_round_trip`).
-/

namespace Schemreg.Glue

open Checked

variable {data rest payload : Bytes} {id : GlueSchemaVersionId} {c : GlueCompression}

section Inflate

variable (zlibRead : Bytes → Nat → Except String Bytes)

theorem decode_append (id : GlueSchemaVersionId) (c : GlueCompression) (rest : Bytes) :
    decodeGlueWireFormat zlibRead (header id c ++ rest) =
      (inflate zlibRead c rest >>= fun payload => .ok (id, payload)) := by
  unfold decodeGlueWireFormat
  rw [validate_append, Outcome.bind_ok]
  dsimp only
  rw [sliceFrom_header, Outcome.bind_ok]
  cases c with
  | none => rfl
  | zlib => rfl

/-- The `Cow` that the borrowing decoder wraps a payload in. -/
def cow : GlueCompression → Bytes → Cow
  | .none => .borrowed
  | .zlib => .owned

@[simp] theorem bytes_cow (c : GlueCompression) (payload : Bytes) :
    (cow c payload).bytes = payload := by
  cases c <;> rfl

theorem borrowed_append (id : GlueSchemaVersionId) (c : GlueCompression) (rest : Bytes) :
    decodeGlueWireFormatBorrowed zlibRead (header id c ++ rest) =
      (inflate zlibRead c rest >>= fun payload => .ok (id, cow c payload)) := by
  unfold decodeGlueWireFormatBorrowed
  rw [validate_append, Outcome.bind_ok]
  dsimp only
  rw [sliceFrom_header, Outcome.bind_ok]
  cases c with
  | none => rfl
  | zlib =>
    show (decompressZlib zlibRead rest >>= fun raw => _) =
      (decompressZlib zlibRead rest >>= fun payload => _)
    cases decompressZlib zlibRead rest <;> rfl

/-- Each decoder hands on the error of the header check. -/
theorem decoders_err {e : SchemaRegError} (h : validateGlueWireHeader data = .err e) :
    decodeGlueWireFormat zlibRead data = .err e ∧
      decodeGlueWireFormatBorrowed zlibRead data = .err e ∧
      decodeGlueWireFormatBytes zlibRead data = .err e := by
  unfold decodeGlueWireFormat decodeGlueWireFormatBorrowed decodeGlueWireFormatBytes
  rw [h]
  exact ⟨rfl, rfl, rfl⟩

theorem inflate_safe (c : GlueCompression) (rest : Bytes) :
    (∃ payload, inflate zlibRead c rest = .ok payload) ∨
      ∃ e, inflate zlibRead c rest = .err e := by
  cases c with
  | none => exact Or.inl ⟨rest, rfl⟩
  | zlib =>
    unfold inflate decompressZlib
    dsimp only
    split
    · exact Or.inr ⟨_, rfl⟩
    · split
      · exact Or.inr ⟨_, rfl⟩
      · exact Or.inl ⟨_, rfl⟩

/-- The three decoders return the payload of one frame. -/
def AllDecode (data : Bytes) (id : GlueSchemaVersionId) (payload : Bytes) : Prop :=
  decodeGlueWireFormat zlibRead data = .ok (id, payload) ∧
    (∃ borrowed, decodeGlueWireFormatBorrowed zlibRead data = .ok (id, borrowed) ∧
      borrowed.bytes = payload) ∧
    decodeGlueWireFormatBytes zlibRead data = .ok (id, payload)

/-- The three decoders return the same error. -/
def AllFail (data : Bytes) : Prop :=
  ∃ e, decodeGlueWireFormat zlibRead data = .err e ∧
    decodeGlueWireFormatBorrowed zlibRead data = .err e ∧
    decodeGlueWireFormatBytes zlibRead data = .err e

theorem allDecode_of_inflate (h : inflate zlibRead c rest = .ok payload) :
    AllDecode zlibRead (header id c ++ rest) id payload := by
  refine ⟨?_, ⟨cow c payload, ?_, bytes_cow c payload⟩, ?_⟩
  · rw [decode_append, h, Outcome.bind_ok]
  · rw [borrowed_append, h, Outcome.bind_ok]
  · rw [decodeGlue_append, h, Outcome.bind_ok]

/-- On every byte string the decoders fail with one error or return one payload. -/
theorem decoders_agree (data : Bytes) :
    AllFail zlibRead data ∨ ∃ id payload, AllDecode zlibRead data id payload := by
  obtain ⟨id, c, rest, -, rfl⟩ | ⟨e, herr⟩ := validate_cases data
  · obtain ⟨payload, hok⟩ | ⟨e, herr⟩ := inflate_safe zlibRead c rest
    · exact Or.inr ⟨id, payload, allDecode_of_inflate zlibRead hok⟩
    · refine Or.inl ⟨e, ?_, ?_, ?_⟩
      · rw [decode_append, herr, Outcome.bind_err]
      · rw [borrowed_append, herr, Outcome.bind_err]
      · rw [decodeGlue_append, herr, Outcome.bind_err]
  · exact Or.inl ⟨e, decoders_err zlibRead herr⟩

/-- Inflating what was deflated, up to the limit that the decoder reads to. -/
theorem inflate_compressed (hread : ∀ limit, zlibRead rest limit = .ok (payload.take limit))
    (hlen : payload.length ≤ maxDecompressedSize) :
    decompressZlib zlibRead rest = .ok payload := by
  unfold decompressZlib
  rw [hread, List.take_of_length_le (by omega)]
  dsimp only
  rw [if_neg (by omega)]

end Inflate

/-! ## Encoding -/

section Deflate

variable (zlibWrite : Bytes → Except String Bytes)

theorem encode_none (id : GlueSchemaVersionId) (payload : Bytes) :
    encodeGlueWireFormat zlibWrite id payload .none = .ok (header id .none ++ payload) := rfl

/-- A compressed frame is the header and what the compressor wrote. -/
theorem encode_zlib_eq_ok : encodeGlueWireFormat zlibWrite id payload .zlib = .ok data ↔
    ∃ compressed, zlibWrite payload = .ok compressed ∧ data = header id .zlib ++ compressed := by
  unfold encodeGlueWireFormat compressZlib
  dsimp only
  cases zlibWrite payload with
  | error e =>
    constructor
    · intro h
      cases h
    · rintro ⟨_, h, _⟩
      cases h
  | ok compressed =>
    constructor
    · intro h
      cases h
      exact ⟨compressed, rfl, rfl⟩
    · rintro ⟨_, h, rfl⟩
      cases h
      rfl

end Deflate

/-- Only an uncompressed frame has the byte of no compression, and it holds its payload. -/
theorem uncompressed_of_byte {zlibRead : Bytes → Nat → Except String Bytes}
    (hbyte : data[1]? = some glueCompressionNoneByte)
    (hok : decodeGlueWireFormat zlibRead data = .ok (id, payload)) :
    data = header id .none ++ payload := by
  obtain ⟨id', c, rest, -, rfl⟩ | ⟨e, herr⟩ := validate_cases data
  · cases c with
    | none =>
      rw [decode_append] at hok
      cases hok
      rfl
    | zlib =>
      have hzlib : some glueCompressionZlibByte = some glueCompressionNoneByte := hbyte
      exact absurd hzlib (by decide)
  · rw [(decoders_err zlibRead herr).1] at hok
    cases hok

/-- Framing and the three decoders, over any compressor whose output inflates to its input. -/
theorem framing_round_trip (zlibWrite : Bytes → Except String Bytes)
    (zlibRead : Bytes → Nat → Except String Bytes)
    (hinflate : ∀ payload compressed, zlibWrite payload = .ok compressed →
      ∀ limit, zlibRead compressed limit = .ok (payload.take limit)) :
    (∀ id payload c,
      ((c = .zlib → ∃ compressed, zlibWrite payload = .ok compressed) →
        (encodeGlueWireFormat zlibWrite id payload c).IsOk) ∧
      ((c = .zlib → payload.length ≤ maxDecompressedSize) →
        ∀ data, encodeGlueWireFormat zlibWrite id payload c = .ok data →
          AllDecode zlibRead data id payload)) ∧
    ∀ data, (AllFail zlibRead data ∨ ∃ id payload, AllDecode zlibRead data id payload) ∧
      ∀ id payload, AllDecode zlibRead data id payload →
        data[1]? = some glueCompressionNoneByte →
        encodeGlueWireFormat zlibWrite id payload .none = .ok data := by
  refine ⟨?_, ?_⟩
  · intro id payload c
    cases c with
    | none =>
      refine ⟨fun _ => ⟨_, encode_none zlibWrite id payload⟩, fun _ data hdata => ?_⟩
      rw [encode_none] at hdata
      cases hdata
      exact allDecode_of_inflate zlibRead rfl
    | zlib =>
      constructor
      · intro hwrites
        obtain ⟨compressed, hwrite⟩ := hwrites rfl
        exact ⟨_, (encode_zlib_eq_ok zlibWrite).mpr ⟨compressed, hwrite, rfl⟩⟩
      · intro hlen data hdata
        obtain ⟨compressed, hwrite, rfl⟩ := (encode_zlib_eq_ok zlibWrite).mp hdata
        exact allDecode_of_inflate zlibRead
          (inflate_compressed zlibRead (hinflate _ _ hwrite) (hlen rfl))
  · intro data
    refine ⟨decoders_agree zlibRead data, ?_⟩
    intro id payload hdecode hbyte
    rw [uncompressed_of_byte hbyte hdecode.1]
    exact encode_none zlibWrite id payload

/-- The zlib stream of the bytes 1 and 2. -/
def oneTwo : Bytes := [0x78, 0x9C, 0x63, 0x64, 0x02, 0x00, 0x00, 0x06, 0x00, 0x04]

/-- The payload 1, 2 behind an identifier, compressed. -/
theorem one_two_round_trip :
    AllDecode (fun data limit => if data = oneTwo then .ok ([1, 2].take limit) else
        .error "corrupt deflate stream")
      (header ⟨List.replicate 16 7, rfl⟩ .zlib ++ oneTwo) ⟨List.replicate 16 7, rfl⟩ [1, 2] :=
  ((framing_round_trip (fun payload => if payload = [1, 2] then .ok oneTwo else .error "")
    (fun data limit => if data = oneTwo then .ok ([1, 2].take limit) else
      .error "corrupt deflate stream")
    (fun payload compressed h limit => by
      split at h
      · rename_i hpayload
        cases h
        rw [hpayload]
        rfl
      · cases h)).1 ⟨List.replicate 16 7, rfl⟩ [1, 2] .zlib).2 (fun _ => by decide) _ rfl

end Schemreg.Glue
