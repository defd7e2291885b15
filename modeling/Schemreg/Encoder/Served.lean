import Schemreg.Encoder.Keys
import Schemreg.Lookup.Reads

/-
  From the frames of an encoder to what a decoder is served for them.

  A decoder reads a registry that serves, under each identifier, what the identifier stands for
  (`Serves`). The key in a frame of an encoder that registers or looks up its schema stands for
  that schema (`standsFor_of_resolved`). So a decoder gets the encoder's own schema for it
  (`served_of_frame`), whatever else the encoder has done. Behind the key come the message
  indexes, if there are any, and what the encoder has serialised (`framed_of_finish`).
-/

namespace Schemreg.Encoder

open CacheInner (CallId)
open Lookup (unframe)
open Transition Wire

variable {Value Parsed : Type} {e : SchemaEncoder Value Parsed} {s : State Value Parsed}
  {holds : Cache.Registry} {registry : Lookup.Registry} {call : EncodeCall Value}

/-- The registry that a decoder reads serves what an identifier stands for. -/
def Serves (registry : Lookup.Registry) (holds : Cache.Registry) : Prop :=
  ∀ key content, getSchemaByKey holds key = some content →
    ∃ schema, registry.schemaByKey key = .ok schema ∧ Cache.contentOf schema = content

/-- Unless an encoder follows the latest version, its keys stand for its own schema. -/
theorem content_of_resolved (hmode : e.resolution ≠ .useLatestVersion) {maxEntries : Nat}
    {es : List (Event Value)}
    (hrun : Run (step e) (Answers holds) (State.init maxEntries) es s) {subject : String}
    {key : SchemaKey} (hresolved : ResolvedFor e s subject key) :
    getSchemaByKey holds key = some e.content := by
  obtain ⟨-, hstands⟩ := resolvedFor_run hrun hresolved
  unfold StandsFor at hstands
  cases hresolution : e.resolution with
  | autoRegister | lookupOnly =>
    rw [hresolution] at hstands
    exact hstands
  | useLatestVersion => exact absurd hresolution hmode

/-- For each frame of an encoder that does not follow the latest version, the decoder is served
    the encoder's own schema. -/
theorem served_of_frame (hmode : e.resolution ≠ .useLatestVersion) (hserves : Serves registry holds)
    {maxEntries : Nat} {es : List (Event Value)}
    (hrun : Run (step e) (Answers holds) (State.init maxEntries) es s) {c : CallId} {frame : Frame}
    (hframe : s.calls c = .encoded call (.ok frame)) :
    ∃ key schema, e.finish call (e.entry key) = .ok frame ∧
      registry.schemaByKey key = .ok schema ∧ schema.schemaType = e.schemaType ∧
        schema.schema = e.schemaStr ∧ schema.references = e.references := by
  obtain ⟨subject, key, -, hresolved, hfinish⟩ := (sound_run hrun).encoded c call _ hframe
  obtain ⟨schema, hschema, heq⟩ := hserves key _ (content_of_resolved hmode hrun hresolved)
  unfold Cache.contentOf SchemaEncoder.content at heq
  injection heq with htype htext hreferences
  exact ⟨key, schema, hfinish, hschema, htype, htext, hreferences⟩

/-- A frame in the payload is the key, the message indexes and what was serialised. -/
theorem framed_of_finish {entry : EncoderEntry Parsed} {data : Bytes}
    (h : e.finish call entry = .ok (.framed data)) :
    ∃ raw, e.serialise entry.parsed call.value = .ok raw ∧
      data = putPrefix entry.key ++ ((e.messageIndexes.map putMessageIndexes).getD [] ++ raw) := by
  obtain ⟨raw, hraw, h⟩ := Result.bind_eq_ok.mp h
  refine ⟨raw, hraw, ?_⟩
  cases hplacement : call.placement with
  | payload =>
    rw [hplacement] at h
    obtain rfl := Frame.framed.inj (Except.ok.inj h)
    unfold SchemaEncoder.framePayload
    cases e.messageIndexes with
    | some indexes => exact List.append_assoc _ _ _
    | none => rfl
  | header =>
    rw [hplacement] at h
    cases h

theorem unframe_append (key : SchemaKey) (rest : Bytes) :
    unframe (putPrefix key ++ rest) = .ok (key, rest) :=
  Checked.Outcome.result_eq_ok.mpr (decodeWireFormat_append key rest)

end Schemreg.Encoder
