import Schemreg.Glue.Registration
import Schemreg.Lib.SharedServer

/-
  The Glue service, as registration relies on it.

  The service is not part of the crate, and a parameter: a server whose states are seen through a
  `View`. `Documented` says what is documented of it. An identifier belongs to one version, for
  good; an answer tells what there is; a definition has one available version; and nothing goes away
  unless it is deleted. A move of the server by itself is the end of a check, or a deletion by
  somebody else.

  Proved: what the service has told its clients stays true (`keeps_told`), and what it has reported
  available is available as long as nothing is deleted (`keeps_available`). A service with one
  version is as documented (`Stage.documented`, `Stage.serves`).
-/

namespace Schemreg.Glue

open Dialogue Program

/-- What an identifier belongs to. -/
structure Version where
  schemaId : SdkSchemaId
  definition : String
  deriving DecidableEq

/-- What there is in a state of the service. A version has no status before it is stored, and none
    when it is gone. -/
structure View (σ : Type) where
  version : σ → String → Option Version
  status : σ → String → Option SchemaVersionStatus
  schemas : σ → SdkSchemaId → Prop

section Service

variable {σ Choice Tick : Type}

/-- Nothing has been taken away. -/
structure Later (view : View σ) (s t : σ) : Prop where
  available {id : String} (h : view.status s id = some .available) :
    view.status t id = some .available
  there {id : String} (h : view.status s id ≠ none) : view.status t id ≠ none
  undeleted {id : String} (h : view.status t id = some .deleting) :
    view.status s id = some .deleting
  schemas {schemaId : SdkSchemaId} (h : view.schemas s schemaId) : view.schemas t schemaId

/-- What is documented of the service, whether it serves a request or its caller is told of an
    error. A definition is known by its canonical form. -/
structure Documented (server : Server σ Call Choice Tick Response) (canonical : String → String)
    (view : View σ) (deletes : Tick → Prop) : Prop where
  /-- An identifier is one version's. -/
  immutable {s : σ} {call : Call} {choice : Choice} {a : Response call} {t : σ}
    (h : server.answer s call choice = some (a, t)) {id : String} {v : Version}
    (hv : view.version s id = some v) : view.version t id = some v
  immutable_tick {s : σ} {k : Tick} {t : σ} (h : server.tick s k = some t) {id : String}
    {v : Version} (hv : view.version s id = some v) : view.version t id = some v
  /-- Only a deletion takes something away. -/
  later {s : σ} {call : Call} {choice : Choice} {a : Response call} {t : σ}
    (h : server.answer s call choice = some (a, t)) : Later view s t
  later_tick {s : σ} {k : Tick} {t : σ} (hk : ¬ deletes k) (h : server.tick s k = some t) :
    Later view s t
  /-- A version that is named for a definition has it, and is there. -/
  named {s : σ} {call : Call} {choice : Choice} {a : Response call} {t : σ}
    (h : server.answer s call choice = some (a, t)) {schemaId : SdkSchemaId}
    {schema versionIdStr : String} (hx : Names schemaId schema versionIdStr ⟨call, a⟩) :
    (∃ v, view.version t versionIdStr = some v ∧ v.schemaId = schemaId ∧
      canonical v.definition = canonical schema) ∧ view.status t versionIdStr ≠ none
  available {s : σ} {call : Call} {choice : Choice} {a : Response call} {t : σ}
    (h : server.answer s call choice = some (a, t)) {versionIdStr : String}
    (hx : ReportsAvailable versionIdStr ⟨call, a⟩) : view.status t versionIdStr = some .available
  /-- A definition has one available version. -/
  single {s : σ} {id id' : String} {v w : Version} (hv : view.version s id = some v)
    (hw : view.version s id' = some w) (hid : view.status s id = some .available)
    (hid' : view.status s id' = some .available) (hschema : v.schemaId = w.schemaId)
    (hdefinition : canonical v.definition = canonical w.definition) : id = id'
  /-- A schema is created on request. -/
  creates {s : σ} {call : Call} {choice : Choice} {a : Response call} {t : σ}
    (h : server.answer s call choice = some (a, t)) (hcall : call.isCreateSchema = false)
    {schemaId : SdkSchemaId} (hschema : view.schemas t schemaId) : view.schemas s schemaId
  creates_tick {s : σ} {k : Tick} {t : σ} (h : server.tick s k = some t)
    {schemaId : SdkSchemaId} (hschema : view.schemas t schemaId) : view.schemas s schemaId

/-- The identifier of a version can be read. -/
def Readable (parseStr : String → Except String GlueSchemaVersionId) (versionIdStr : String) :
    Prop :=
  ∃ id, parseVersionId parseStr versionIdStr = .ok id

/-- What is documented of the requests that are served. -/
structure Serves (server : Server σ Call Choice Tick Response)
    (parseStr : String → Except String GlueSchemaVersionId) (view : View σ)
    (serves : Choice → Prop) : Prop where
  readable {s : σ} {call : Call} {choice : Choice} {a : Response call} {t : σ}
    (h : server.answer s call choice = some (a, t)) {schemaId : SdkSchemaId}
    {schema versionIdStr : String} (hx : Names schemaId schema versionIdStr ⟨call, a⟩) :
    Readable parseStr versionIdStr
  /-- A version is registered where the schema exists. -/
  registers {s : σ} {choice : Choice} (hchoice : serves choice) {schemaId : SdkSchemaId}
    {schema : String} {a : Response (.registerSchemaVersion schemaId schema)} {t : σ}
    (h : server.answer s (.registerSchemaVersion schemaId schema) choice = some (a, t)) :
    (∃ id, a = .ok ⟨some id⟩) ∨ (∃ err, a = .error err) ∧ ¬ view.schemas s schemaId
  /-- A schema is created where there is none. -/
  creates {s : σ} {choice : Choice} (hchoice : serves choice) {registryName schemaName : String}
    {dataFormat : DataFormat} {compatibility : Compatibility} {schema : String}
    {a : Response (.createSchema registryName schemaName dataFormat compatibility schema)} {t : σ}
    (h : server.answer s (.createSchema registryName schemaName dataFormat compatibility schema)
      choice = some (a, t)) :
    (∃ id, a = .ok ⟨some id⟩) ∨ (∃ err, a = .error err) ∧ view.schemas s ⟨schemaName, registryName⟩
  /-- A version is reported with its status as long as it is there. -/
  polls {s : σ} {choice : Choice} (hchoice : serves choice) {id : String}
    {a : Response (.getSchemaVersion id)} {t : σ}
    (h : server.answer s (.getSchemaVersion id) choice = some (a, t)) :
    (∃ status, a = .ok ⟨some status⟩ ∧ view.status s id = some status) ∨
      (∃ err, a = .error err) ∧ view.status s id = none

variable {server : Server σ Call Choice Tick Response} {canonical : String → String}
  {view : View σ} {deletes : Tick → Prop}

/-! ## What the clients are told -/

/-- What an exchange says of the versions, for good. -/
def Told (canonical : String → String) (view : View σ) (s : σ) (x : Exchange) : Prop :=
  ∀ schemaId schema versionIdStr, Names schemaId schema versionIdStr x →
    ∃ v, view.version s versionIdStr = some v ∧ v.schemaId = schemaId ∧
      canonical v.definition = canonical schema

/-- What it says of a version that is available. -/
def ToldAvailable (view : View σ) (s : σ) (x : Exchange) : Prop :=
  ∀ versionIdStr, ReportsAvailable versionIdStr x → view.status s versionIdStr = some .available

theorem Told.mono {s t : σ} {x : Exchange} (h : Told canonical view s x)
    (himmutable : ∀ id v, view.version s id = some v → view.version t id = some v) :
    Told canonical view t x := by
  intro schemaId schema versionIdStr hx
  obtain ⟨v, hv, hown⟩ := h schemaId schema versionIdStr hx
  exact ⟨v, himmutable _ _ hv, hown⟩

variable (hdoc : Documented server canonical view deletes)

include hdoc

/-- What was told of the versions stays true. -/
theorem keeps_told : Keeps server (fun _ => True) (fun _ => True) (fun _ => True)
    (Told canonical view) where
  answer _ _ h := ⟨trivial, fun _ _ _ hx => (hdoc.named h hx).1,
    fun _ htold => htold.mono fun _ _ => hdoc.immutable h⟩
  tick _ _ h := ⟨trivial, fun _ htold => htold.mono fun _ _ => hdoc.immutable_tick h⟩

/-- What was reported available is available, as long as nothing is deleted. -/
theorem keeps_available : Keeps server (fun _ => True) (fun k => ¬ deletes k) (fun _ => True)
    (ToldAvailable view) where
  answer _ _ h := ⟨trivial, fun _ hx => hdoc.available h hx,
    fun _ htold _ hx => (hdoc.later h).available (htold _ hx)⟩
  tick _ hk h := ⟨trivial, fun _ htold _ hx => (hdoc.later_tick hk h).available (htold _ hx)⟩

end Service

/-! ## A service with one version -/

/-- What there is of one schema and its only version. -/
inductive Stage where
  | missing
  | pending
  | available
  | deleting
  deriving DecidableEq

/-- What becomes of a request: it is served, or its caller is told of an error, whether it has been
    applied or not. -/
inductive Fate where
  | served
  | failed (err : SdkError)
  | lost (err : SdkError)

/-- The check of the version ends, or it is deleted. -/
inductive Move where
  | passes
  | deletes
  deriving DecidableEq

def orderVersion : Version := ⟨⟨"order", "orders"⟩, "\"string\""⟩

def versionText : String := "00000000-0000-0000-0000-000000000001"

def alreadyExists : SdkError := .serviceError 400 (some "AlreadyExistsException") none

namespace Stage

def status : Stage → Option SchemaVersionStatus
  | missing => none
  | pending => some .pending
  | available => some .available
  | deleting => some .deleting

def view : View Stage where
  version _ id := if id = versionText then some orderVersion else none
  status s id := if id = versionText then s.status else none
  schemas s schemaId := s ≠ missing ∧ schemaId = orderVersion.schemaId

/-- The answers to the requests about this version. There are no others. -/
def serve (s : Stage) : (call : Call) → Option (Response call × Stage)
  | .getSchemaByDefinition schemaId schema =>
      if ⟨schemaId, schema⟩ = orderVersion then
        match s.status with
        | some status => some (.ok ⟨some versionText, some status⟩, s)
        | none => some (.error notFound, s)
      else none
  | .registerSchemaVersion schemaId schema =>
      if ⟨schemaId, schema⟩ = orderVersion then
        if s = missing then some (.error notFound, s) else some (.ok ⟨some versionText⟩, s)
      else none
  | .createSchema registryName schemaName _ _ schema =>
      if ⟨⟨schemaName, registryName⟩, schema⟩ = orderVersion then
        if s = missing then some (.ok ⟨some versionText⟩, pending)
        else some (.error alreadyExists, s)
      else none
  | .getSchemaVersion id =>
      match view.status s id with
      | some status => some (.ok ⟨some status⟩, s)
      | none => some (.error notFound, s)
  | .sleep _ => some ((), s)

/-- An answer that is an error. A timer has none. -/
def refuse (err : SdkError) : (call : Call) → Option (Response call)
  | .getSchemaByDefinition .. => some (.error err)
  | .registerSchemaVersion .. => some (.error err)
  | .createSchema .. => some (.error err)
  | .getSchemaVersion _ => some (.error err)
  | .sleep _ => none

def server : Server Stage Call Fate Move Response where
  answer s call
    | .served => s.serve call
    | .failed err => (refuse err call).map fun a => (a, s)
    | .lost err => (s.serve call).bind fun served => (refuse err call).map fun a => (a, served.2)
  tick
    | pending, .passes => some available
    | available, .deletes => some deleting
    | _, _ => none

/-- What an answer does, and what it says. -/
structure Serving (s : Stage) (call : Call) (a : Response call) (t : Stage) : Prop where
  moves : t = s ∨ s = missing ∧ t = pending ∧ call.isCreateSchema = true
  names {schemaId : SdkSchemaId} {schema id : String} (h : Names schemaId schema id ⟨call, a⟩) :
    ⟨schemaId, schema⟩ = orderVersion ∧ id = versionText ∧ t ≠ missing
  reports {id : String} (h : ReportsAvailable id ⟨call, a⟩) : view.status t id = some .available

variable {s t : Stage} {call : Call} {a : Response call} {fate : Fate}

theorem there_of_ne (h : s ≠ missing) : view.status s versionText ≠ none := by
  cases s
  · exact absurd rfl h
  all_goals nofun

theorem serving_of_refuse {err : SdkError} (h : refuse err call = some a)
    (hmoves : t = s ∨ s = missing ∧ t = pending ∧ call.isCreateSchema = true) :
    Serving s call a t := by
  cases call with
  | sleep duration => cases h
  | _ =>
    obtain rfl := Option.some.inj h
    exact ⟨hmoves, nofun, nofun⟩

theorem serving_of_serve (h : s.serve call = some (a, t)) : Serving s call a t := by
  cases call with
  | getSchemaByDefinition schemaId schema =>
    simp only [serve] at h
    split at h
    · rename_i howner
      split at h
      · rename_i hstatus
        cases h
        refine ⟨.inl rfl, fun hnames => ?_, fun hreports => ?_⟩
        · cases hnames
          exact ⟨howner, rfl, fun hmissing => by cases hmissing ▸ hstatus⟩
        · cases hreports
          exact hstatus
      · cases h
        exact ⟨.inl rfl, nofun, nofun⟩
    · cases h
  | registerSchemaVersion schemaId schema =>
    simp only [serve] at h
    split at h
    · rename_i howner
      split at h
      · cases h
        exact ⟨.inl rfl, nofun, nofun⟩
      · rename_i hthere
        cases h
        refine ⟨.inl rfl, fun hnames => ?_, nofun⟩
        cases hnames
        exact ⟨howner, rfl, hthere⟩
    · cases h
  | createSchema registryName schemaName dataFormat compatibility schema =>
    simp only [serve] at h
    split at h
    · rename_i howner
      split at h
      · rename_i hmissing
        cases h
        refine ⟨.inr ⟨hmissing, rfl, rfl⟩, fun hnames => ?_, nofun⟩
        cases hnames
        exact ⟨howner, rfl, nofun⟩
      · cases h
        exact ⟨.inl rfl, nofun, nofun⟩
    · cases h
  | getSchemaVersion id =>
    simp only [serve] at h
    split at h
    · rename_i hstatus
      cases h
      refine ⟨.inl rfl, nofun, fun hreports => ?_⟩
      cases hreports
      exact hstatus
    · cases h
      exact ⟨.inl rfl, nofun, nofun⟩
  | sleep duration =>
    cases h
    exact ⟨.inl rfl, nofun, nofun⟩

theorem serving (h : server.answer s call fate = some (a, t)) : Serving s call a t := by
  cases fate with
  | served => exact serving_of_serve h
  | failed err =>
    obtain ⟨a, ha, hat⟩ := Option.map_eq_some_iff.mp h
    cases hat
    exact serving_of_refuse ha (.inl rfl)
  | lost err =>
    obtain ⟨⟨a', t'⟩, hserve, hrefuse⟩ := Option.bind_eq_some_iff.mp h
    obtain ⟨a, ha, hat⟩ := Option.map_eq_some_iff.mp hrefuse
    cases hat
    exact serving_of_refuse ha (serving_of_serve hserve).moves

theorem later (h : t = s ∨ s = missing ∧ t = pending ∨ s = pending ∧ t = available) :
    Later view s t := by
  rcases h with rfl | ⟨rfl, rfl⟩ | ⟨rfl, rfl⟩
  · exact ⟨id, id, id, id⟩
  all_goals
    constructor <;> simp +contextual [view, status]

theorem documented : Documented server id view (· = .deletes) where
  immutable _ _ _ hv := hv
  immutable_tick _ _ _ hv := hv
  later h := later ((serving h).moves.imp_right fun hmoves => .inl ⟨hmoves.1, hmoves.2.1⟩)
  later_tick := by
    intro s k t hk h
    cases s <;> cases k <;> cases h
    · exact later (.inr (.inr ⟨rfl, rfl⟩))
    · exact absurd rfl hk
  named := by
    intro s call choice a t h schemaId schema versionIdStr hx
    obtain ⟨howner, rfl, hthere⟩ := (serving h).names hx
    refine ⟨⟨orderVersion, rfl, ?_⟩, ?_⟩
    · exact ⟨congrArg Version.schemaId howner.symm, congrArg Version.definition howner.symm⟩
    · exact there_of_ne hthere
  available h _ hx := (serving h).reports hx
  single := by
    intro s id id' v w hv hw _ _ _ _
    simp only [view, Option.ite_none_right_eq_some] at hv hw
    exact hv.1.trans hw.1.symm
  creates h hcall := by
    rcases (serving h).moves with rfl | ⟨-, -, hcreates⟩
    · exact id
    · exact absurd (hcall.symm.trans hcreates) Bool.false_ne_true
  creates_tick := by
    intro s k t h schemaId hschema
    cases s <;> cases k <;> cases h <;> exact ⟨nofun, hschema.2⟩

theorem serves : Serves server parseNumbered view (· = .served) where
  readable := by
    intro s call choice a t h schemaId schema versionIdStr hx
    obtain ⟨-, rfl, -⟩ := (serving h).names hx
    exact ⟨versionNumbered 1, rfl⟩
  registers := by
    rintro s _ rfl schemaId schema a t h
    simp only [server, serve] at h
    split at h
    · split at h
      · rename_i hmissing
        cases h
        exact .inr ⟨⟨_, rfl⟩, fun hschema => hschema.1 hmissing⟩
      · cases h
        exact .inl ⟨_, rfl⟩
    · cases h
  creates := by
    rintro s _ rfl registryName schemaName dataFormat compatibility schema a t h
    simp only [server, serve] at h
    split at h
    · rename_i howner
      split at h
      · cases h
        exact .inl ⟨_, rfl⟩
      · rename_i hthere
        cases h
        exact .inr ⟨⟨_, rfl⟩, hthere, congrArg Version.schemaId howner⟩
    · cases h
  polls := by
    rintro s _ rfl id a t h
    simp only [server, serve] at h
    split at h
    · rename_i hstatus
      cases h
      exact .inl ⟨_, rfl, hstatus⟩
    · rename_i hstatus
      cases h
      exact .inr ⟨⟨_, rfl⟩, hstatus⟩

end Stage


end Schemreg.Glue
