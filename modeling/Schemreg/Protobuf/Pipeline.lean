import Schemreg.Encoder.Delivery
import Schemreg.Protobuf.DescriptorPath

/-
  What `ProtobufSchemaDecoder` makes of the frames of `ProtobufSchemaEncoder`.

  The encoder derives its message indexes from a descriptor, and a decoder that expects a
  descriptor compares them with those that it has derived itself. What `prost` does with the
  payload is a parameter.

  * `message_of_encode`: over every run of an encoder, its frames decode to the messages for whoever
    expects the encoder's descriptor or none, and to an error for whoever expects another one.
-/

namespace Schemreg.Protobuf

open CacheInner (CallId)
open Checked Encoder Lookup Transition Wire

variable {M : Type}

/-! ## The decoder -/

namespace ProtobufSchemaDecoder

variable (self : ProtobufSchemaDecoder)

/-- `decode::<M>`, where `decodeMessage` is `M::decode`. -/
def decode (decodeMessage : Bytes → Except String M) (data : Bytes) : Decoding M := do
  let unframed ← self.unframe data
  Outcome.ofExcept ((decodeMessage unframed.payload).mapError fun e =>
    .wireFormat ("Protobuf deserialization failed: " ++ e))

/-- `schema_for`. -/
def schemaFor (registry : Lookup.Registry) (data : Bytes) : Decoding Schema := do
  let unframed ← self.unframe data
  Outcome.ofExcept (registry.schemaByKey unframed.key)

end ProtobufSchemaDecoder

/-- `ProtobufSchemaEncoderBuilder::build`. -/
def buildEncoder (settings : Settings) (descriptor : MessageDescriptor)
    (messageIndexes : Option (List UInt32)) (encodeToVec : M → Bytes) :
    Decoding (SchemaEncoder M Unit) := do
  let indexes ← (match messageIndexes with
    | some explicit => .ok explicit
    | none => messageIndexPath descriptor : Decoding (List UInt32))
  .ok (protobufSchemaEncoder settings indexes encodeToVec)

/-! ## Frames -/

variable {key : SchemaKey} {payload : Bytes} {p q : MessageDescriptor} {v w : List UInt32}
  {self decoder : ProtobufSchemaDecoder}

/-- A path arrives as it is read, and is compared so. -/
theorem unframe_written (hlen : v.length ≤ 512) :
    self.unframe (encodeProtobufWireFormat key v payload) =
      match self.expectedIndexes with
      | some w =>
        if readAs v ≠ w then .err (self.mismatch (readAs v) w) else .ok ⟨key, readAs v, payload⟩
      | none => .ok ⟨key, readAs v, payload⟩ := by
  have hstart : decodeWireFormatBytes (encodeProtobufWireFormat key v payload) =
      .ok (key, putMessageIndexes v ++ payload) := by
    unfold encodeProtobufWireFormat
    rw [List.append_assoc]
    exact decodeWireFormat_append key _
  have hpayload : (sliceFrom (putMessageIndexes v ++ payload) (putMessageIndexes v).length :
      Decoding Bytes) = .ok payload := by
    rw [sliceFrom_of_le (by rw [List.length_append]; omega), List.drop_left]
  unfold ProtobufSchemaDecoder.unframe
  rw [hstart, Outcome.bind_ok]
  dsimp only
  rw [decodeIndexes_put hlen, Outcome.bind_ok]
  dsimp only
  rw [hpayload]
  rfl

/-- The path of a descriptor is the path of no other one. -/
theorem messageIndexPath_eq_iff (hp : messageIndexPath p = .ok v) :
    messageIndexPath q = .ok v ↔ p.path = q.path := by
  constructor
  · exact fun hq => pathFrom_inj hp hq
  · intro hpath
    obtain ⟨i, is, hchain, hpositions, hv⟩ := pathFrom_eq_ok.mp hp
    exact pathFrom_eq_ok.mpr ⟨i, is, hpath.symm.trans hchain, hpositions, hv⟩

theorem decode_expected {decodeMessage : Bytes → Except String M} {message : M}
    (hlen : v.length ≤ 512) (hexpected : ∀ w, self.expectedIndexes = some w → readAs v = w)
    (hprost : decodeMessage payload = .ok message) :
    self.decode decodeMessage (encodeProtobufWireFormat key v payload) = .ok message := by
  have hunframe : self.unframe (encodeProtobufWireFormat key v payload) =
      .ok ⟨key, readAs v, payload⟩ := by
    rw [unframe_written hlen]
    cases h : self.expectedIndexes with
    | none => rfl
    | some w => exact if_neg (not_not_intro (hexpected w h))
  unfold ProtobufSchemaDecoder.decode
  rw [hunframe, Outcome.bind_ok, hprost]
  rfl

theorem decode_unexpected {decodeMessage : Bytes → Except String M} (hlen : v.length ≤ 512)
    (hexpected : self.expectedIndexes = some w) (hother : readAs v ≠ w) :
    (self.decode decodeMessage (encodeProtobufWireFormat key v payload)).IsErr := by
  unfold ProtobufSchemaDecoder.decode
  rw [unframe_written hlen, hexpected]
  dsimp only
  rw [if_pos hother]
  exact ⟨_, rfl⟩

theorem messageIndexes_of_build {settings : Settings} {override : Option (List UInt32)}
    {encodeToVec : M → Bytes} {e : SchemaEncoder M Unit}
    (h : buildEncoder settings p override encodeToVec = .ok e) : ∃ path,
      e = protobufSchemaEncoder settings path encodeToVec ∧
        (override = none → messageIndexPath p = .ok path) := by
  obtain ⟨path, hpath, he⟩ := Outcome.bind_eq_ok.mp h
  refine ⟨path, (Outcome.ok.inj he).symm, ?_⟩
  rintro rfl
  exact hpath

/-- The frames of an encoder, in every run, for a decoder of any descriptor and any type of
    messages. Whoever expects the path that the encoder writes gets the message; without an override
    that is the path of the encoder's descriptor, and of no other. Whoever expects another path gets
    an error, whatever the payload would have decoded to. And the schema behind the frame is the
    encoder's own. -/
theorem message_of_encode {settings : Settings} {override : Option (List UInt32)}
    {encodeToVec : M → Bytes} {decodeMessage : Bytes → Except String M} {e : SchemaEncoder M Unit}
    {holds : Cache.Registry} {registry : Lookup.Registry}
    (hbuild : buildEncoder settings p override encodeToVec = .ok e) (hfits : PathFits e)
    (hmode : settings.resolution ≠ .useLatestVersion) (hserves : Serves registry holds)
    {maxSubjects : Nat} {es : List (Encoder.Event M)} {s : Encoder.State M Unit}
    (hrun : Run (Encoder.step e) (Answers holds) (.init maxSubjects) es s) {c : CallId}
    {call : EncodeCall M} {data : Bytes}
    (hprost : decodeMessage (encodeToVec call.value) = .ok call.value)
    (hframe : s.calls c = .encoded call (.ok (.framed data))) :
    (ProtobufSchemaDecoder.new.decode decodeMessage data = .ok call.value ∧
      ∃ schema, ProtobufSchemaDecoder.new.schemaFor registry data = .ok schema ∧
        Cache.contentOf schema = e.content) ∧
    ∃ path, e.messageIndexes = some path ∧
      ∀ (self decoder : ProtobufSchemaDecoder) (q : MessageDescriptor),
        self.withExpectedDescriptor q = .ok decoder →
        (messageIndexPath q = .ok (readAs path) →
          decoder.decode decodeMessage data = .ok call.value) ∧
        (messageIndexPath q ≠ .ok (readAs path) → ∀ (M' : Type)
          (decodeOther : Bytes → Except String M'), (decoder.decode decodeOther data).IsErr) ∧
        (override = none → (messageIndexPath q = .ok (readAs path) ↔ p.path = q.path)) := by
  obtain ⟨path, rfl, hpath⟩ := messageIndexes_of_build hbuild
  obtain ⟨key, schema, hfinish, hschema, htype, htext, hreferences⟩ :=
    served_of_frame hmode hserves hrun hframe
  have hlen := hfits path rfl
  obtain ⟨raw, hraw, hdata⟩ := framed_of_finish hfinish
  obtain rfl : encodeToVec call.value = raw := Except.ok.inj hraw
  have hdata : data = encodeProtobufWireFormat key path (encodeToVec call.value) :=
    hdata.trans (List.append_assoc _ _ _).symm
  rw [hdata]
  refine ⟨⟨decode_expected hlen nofun hprost, schema, ?_, ?_⟩, path, rfl, ?_⟩
  · unfold ProtobufSchemaDecoder.schemaFor
    rw [unframe_written hlen]
    show Outcome.ofExcept (registry.schemaByKey key) = _
    rw [hschema]
    rfl
  · unfold Cache.contentOf SchemaEncoder.content
    rw [htype, htext, hreferences]
  · intro self decoder q hdecoder
    obtain ⟨w, hw, rfl⟩ := withExpectedDescriptor_eq_ok.mp hdecoder
    refine ⟨fun hq => ?_, fun hq M' decodeOther => ?_, fun hnone => ?_⟩
    · have hread : readAs path = w := Outcome.ok.inj (hq.symm.trans hw)
      refine decode_expected hlen (fun w' hw' => ?_) hprost
      exact hread.trans (Option.some.inj hw')
    · refine decode_unexpected hlen rfl fun hread => hq ?_
      rw [hread]
      exact hw
    · have hp := hpath hnone
      obtain ⟨-, hne⟩ := length_of_pathFrom hp
      have hread : readAs path = path := if_neg hne
      rw [hread]
      exact messageIndexPath_eq_iff hp

open Line in
/-- A line that is nested in an invoice is a line, and no invoice. -/
theorem a_line_is_no_invoice :
    (⟨some [1, 0], some "Invoice.Line"⟩ : ProtobufSchemaDecoder).decode Except.ok lineFrame =
      .ok [0x0A] ∧
    ∀ (M : Type) (decodeMessage : Bytes → Except String M),
      ((⟨some [1], some "Invoice"⟩ : ProtobufSchemaDecoder).decode decodeMessage
        lineFrame).IsErr := by
  obtain ⟨s, hrun, hframe⟩ := oneEncode_run
  have hbuild : buildEncoder lineEncoder.toSettings ⟨[4, 1, 3, 0], "Invoice.Line"⟩ none id =
      .ok lineEncoder := rfl
  have hprost : (Except.ok : Bytes → Except String Bytes) (id lineCall.value) =
      .ok lineCall.value := rfl
  have hmode : lineEncoder.resolution ≠ .useLatestVersion := by decide
  obtain ⟨-, path, hpath, hdecoded⟩ := message_of_encode hbuild pathFits_lineEncoder hmode
    serves_lines hrun hprost hframe
  obtain rfl : [1, 0] = path := Option.some.inj hpath
  have hline := hdecoded .new ⟨some [1, 0], some "Invoice.Line"⟩ ⟨[4, 1, 3, 0], "Invoice.Line"⟩ rfl
  have hinvoice := hdecoded .new ⟨some [1], some "Invoice"⟩ ⟨[4, 1], "Invoice"⟩ rfl
  exact ⟨hline.1 rfl, hinvoice.2.1 (by decide)⟩

end Schemreg.Protobuf
