import Schemreg.Apicurio.Retries
import Schemreg.Confluent.Retries

/-
  Retries are not transparent.

  Both clients retry a request whose answer was lost, and some requests work only once: the
  deletions, and with Apicurio the creation of a rule. When the registry has applied such a
  request and the answer is lost, the next attempt is refused. The caller is told that the
  operation failed, and `CachedSchemaRegistry` keeps what it should drop.

  Proved: `retries_transparent_iff`, for every operation of both clients.
-/

namespace Schemreg

open Retry HttpClient

/-- Retries are transparent exactly where every lost answer is one to a request that the
    registry may apply again. -/
theorem retries_transparent_iff (maxRetries : Nat) (op : Operation) :
    (∀ (policy : Confluent.Policy) (respond : Confluent.Answer → HttpResponse)
      (serde : Confluent.Serde) (normalize : Bool) (losses : Losses Confluent.Request)
      (registry : Confluent.Registry),
      (∀ answer, (respond answer).status = answer.status) →
      (∀ req t, Confluent.requestOf normalize op = .ok req →
        Repeats (Confluent.serve policy respond) req registry t →
        Confluent.Renders serde respond (t.apply policy req).1) →
      (∀ req, WithinBudget maxRetries (losses req)) →
      (TransparentRetries (Confluent.serve policy respond) maxRetries op
          (Confluent.program serde normalize op) losses registry ↔
        ∀ req, Confluent.requestOf normalize op = .ok req → SomeApplied (losses req) →
          ¬ Confluent.Deletes registry req)) ∧
    ∀ (policy : Apicurio.Policy) (respond : Apicurio.Answer → HttpResponse)
      (serde : Apicurio.OperationSerde) (pages : Nat) (losses : Losses Apicurio.Request)
      (registry : Apicurio.Registry),
      (∀ answer, (respond answer).status = answer.status) →
      (∀ req, WithinBudget maxRetries (losses req)) →
      (perform (Apicurio.serve policy respond) maxRetries (Apicurio.program serde pages op)
        Program.quiet registry).1 ≠ none →
      (TransparentRetries (Apicurio.serve policy respond) maxRetries op
          (Apicurio.program serde pages op) losses registry ↔
        ∀ req, Apicurio.onceRequest op = some req → SomeApplied (losses req) →
          ¬ Apicurio.Once policy registry req) := by
  constructor
  · intro policy respond serde normalize losses registry hstatus hrenders hbudget
    exact Confluent.transparent_iff hstatus hrenders hbudget
  · intro policy respond serde pages losses registry hstatus hbudget hreturns
    exact Apicurio.transparent_iff hstatus hbudget hreturns

/-! ## A subject that is deleted -/

namespace Confluent

/-- A registry of one subject. -/
def oneSubject : Registry where
  subjects subject :=
    if subject = "orders-value" then [⟨⟨1⟩, 1, ⟨"string", "AVRO", []⟩, false⟩] else []
  ids := [(⟨"string", "AVRO", []⟩, ⟨1⟩)]
  config _ := none

def lenient : Policy := ⟨id, fun _ _ _ => true⟩

/-- The answers to the deletion of the subject, as JSON. -/
def respondJson (answer : Answer) : HttpResponse :=
  ⟨answer.status, [("content-type", "application/vnd.schemaregistry.v1+json")],
    match answer with
    | .versions _ => Utf8.toUtf8 "[1]"
    | _ => Utf8.toUtf8 ("\x7b\"error_code\":40404," ++
        "\"message\":\"Subject 'orders-value' was soft deleted.\"\x7d")⟩

def softDeleted : ErrorResponse := ⟨40404, "Subject 'orders-value' was soft deleted."⟩

def readJson : Serde where
  errorResponse body :=
    if body = (respondJson (.refused 404 softDeleted)).body then some softDeleted else none
  registerSchemaResponse _ := .error "invalid type"
  schemaBySubjectResponse _ := .error "invalid type"
  versions body := if body = Utf8.toUtf8 "[1]" then .ok [⟨1⟩] else .error "invalid type"
  version _ := .error "invalid type"

/-- The first answer to a deletion of a subject is lost. -/
def lostDeletion (applied : Bool) : Losses Request
  | .deleteSubject _ _ => [⟨applied, .ok ⟨503, [], []⟩⟩]
  | _ => []

theorem withinBudget_lostDeletion (applied : Bool) (req : Request) :
    WithinBudget 3 (lostDeletion applied req) := by
  cases req with
  | deleteSubject subject permanent =>
    refine ⟨Nat.le_add_left 1 2, fun loss hloss => ?_⟩
    cases List.mem_singleton.mp hloss
    rfl
  | _ => exact withinBudget_nil

/-- The registry has deleted the subject, the caller is told that it failed, and the cache keeps
    its entries. -/
theorem lost_deletion_is_reported_as_failed :
    (∀ req, WithinBudget 3 (lostDeletion true req)) ∧
      (∀ losses ∈ [Program.quiet, lostDeletion true],
        (perform (serve lenient respondJson) 3
            (program readJson false (.deleteSubject "orders-value" false)) losses oneSubject).2 =
          (oneSubject.deleteSubject "orders-value" false).2) ∧
      (perform (serve lenient respondJson) 3
          (program readJson false (.deleteSubject "orders-value" false)) Program.quiet
          oneSubject).1 = some (.ok (.versions [⟨1⟩])) ∧
      (perform (serve lenient respondJson) 3
          (program readJson false (.deleteSubject "orders-value" false)) (lostDeletion true)
          oneSubject).1 = some (.error (.api 40404 "Subject 'orders-value' was soft deleted.")) ∧
      ¬ TransparentRetries (serve lenient respondJson) 3 (.deleteSubject "orders-value" false)
        (program readJson false (.deleteSubject "orders-value" false)) (lostDeletion true)
        oneSubject := by
  have hquiet : (perform (serve lenient respondJson) 3
      (program readJson false (.deleteSubject "orders-value" false)) Program.quiet
      oneSubject).1 = some (.ok (.versions [⟨1⟩])) := by decide +kernel
  have hlossy : (perform (serve lenient respondJson) 3
      (program readJson false (.deleteSubject "orders-value" false)) (lostDeletion true)
      oneSubject).1 = some (.error (.api 40404 "Subject 'orders-value' was soft deleted.")) := by
    decide +kernel
  refine ⟨withinBudget_lostDeletion true, ?_, hquiet, hlossy, fun htransparent => ?_⟩
  · intro losses hlosses
    rcases List.mem_pair.mp hlosses with rfl | rfl
    · rfl
    · rfl
  · have hcache := congrArg Prod.snd (htransparent Bool (fun _ _ => false) true)
    unfold performCached at hcache
    dsimp only at hcache
    rw [hquiet, hlossy] at hcache
    cases hcache

/-- The states that deletions of the subject lead to. -/
theorem repeats_deleteSubject {t : Registry}
    (h : Repeats (serve lenient respondJson) (.deleteSubject "orders-value" false) oneSubject t) :
    t = oneSubject ∨ t = (oneSubject.deleteSubject "orders-value" false).2 := by
  induction h with
  | here => exact .inl rfl
  | again _ ih =>
    rcases ih with rfl | rfl
    · exact .inr rfl
    · exact .inr rfl

theorem renders_respondJson {answer : Answer}
    (h : answer = .versions [1] ∨ answer = .refused 404 softDeleted) :
    Renders readJson respondJson answer where
  json := by
    refine ⟨"application/vnd.schemaregistry.v1+json", ?_, by decide +kernel⟩
    rcases h with rfl | rfl <;> decide +kernel
  versions vs hvs := by
    rcases h with rfl | rfl
    · cases hvs
      show (if Utf8.toUtf8 "[1]" = Utf8.toUtf8 "[1]" then _ else Except.error "invalid type") = _
      exact if_pos rfl
    · cases hvs
  version v hv := by
    rcases h with rfl | rfl <;> cases hv
  error status err herr := by
    rcases h with rfl | rfl
    · cases herr
    · cases herr
      show (if (respondJson (.refused 404 softDeleted)).body =
        (respondJson (.refused 404 softDeleted)).body then _ else none) = _
      exact if_pos rfl

end Confluent

namespace Apicurio

/-- A registry of one artifact with a rule. -/
def oneArtifact : Registry where
  artifacts id :=
    if id = (⟨"default", "orders-value"⟩ : ArtifactId) then some ⟨"AVRO", [], 0, some .backward⟩
    else none
  created := 0
  rule := none

def lenient : Policy := ⟨fun _ _ _ => true, true⟩

/-- The answers, as JSON. -/
def respondJson (answer : Answer) : HttpResponse :=
  ⟨answer.status, [("content-type", "application/json")],
    match answer with
    | .rule level => Utf8.toUtf8 ("\x7b\"ruleType\":\"COMPATIBILITY\",\"config\":\"" ++
        level.asStr ++ "\"\x7d")
    | _ => []⟩

def readJson : OperationSerde where
  versionMetaData _ := .error "invalid type"
  apicurioError _ := none
  createArtifactResponse _ := .error "invalid type"
  versionSearchResults _ := .error "invalid type"
  artifactVersionList _ := .error "invalid type"
  value body := if body = [] then .error "EOF while parsing a value" else .ok ()

/-- The answer to an update of a rule is lost. -/
def lostUpdate : Losses Request
  | .putRule _ _ => [⟨true, .error (.network "connection reset")⟩]
  | _ => []

theorem withinBudget_lostUpdate (req : Request) : WithinBudget 3 (lostUpdate req) := by
  cases req with
  | putRule scope level =>
    refine ⟨Nat.le_add_left 1 2, fun loss hloss => ?_⟩
    cases List.mem_singleton.mp hloss
    trivial
  | _ => exact withinBudget_nil

end Apicurio

/-- A deletion that has not reached the registry, and an update of a rule that has. -/
theorem some_losses_are_transparent :
    TransparentRetries (Confluent.serve Confluent.lenient Confluent.respondJson) 3
        (.deleteSubject "orders-value" false)
        (Confluent.program Confluent.readJson false (.deleteSubject "orders-value" false))
        (Confluent.lostDeletion false) Confluent.oneSubject ∧
      TransparentRetries (Apicurio.serve Apicurio.lenient Apicurio.respondJson) 3
        (.setCompatibility "orders-value" .full)
        (Apicurio.program Apicurio.readJson 1 (.setCompatibility "orders-value" .full))
        Apicurio.lostUpdate Apicurio.oneArtifact := by
  constructor
  · refine ((retries_transparent_iff 3 (.deleteSubject "orders-value" false)).1 Confluent.lenient
      Confluent.respondJson Confluent.readJson false _ _ (fun _ => rfl) ?_
      (Confluent.withinBudget_lostDeletion false)).mpr ?_
    · intro req t hreq hrepeats
      cases hreq
      apply Confluent.renders_respondJson
      rcases Confluent.repeats_deleteSubject hrepeats with rfl | rfl
      · exact .inl rfl
      · exact .inr rfl
    · rintro req hreq ⟨loss, hloss, happlied⟩
      cases hreq
      cases List.mem_singleton.mp hloss
      cases happlied
  · refine ((retries_transparent_iff 3 (.setCompatibility "orders-value" .full)).2
      Apicurio.lenient Apicurio.respondJson Apicurio.readJson 1 _ _ (fun _ => rfl)
      Apicurio.withinBudget_lostUpdate ?_).mpr ?_
    · have hdone : (perform (Apicurio.serve Apicurio.lenient Apicurio.respondJson) 3
          (Apicurio.program Apicurio.readJson 1 (.setCompatibility "orders-value" .full))
          Program.quiet Apicurio.oneArtifact).1 = some (.ok .unit) := by decide +kernel
      rw [hdone]
      exact nofun
    · rintro req hreq ⟨loss, hloss, -⟩
      cases hreq
      cases hloss

end Schemreg
