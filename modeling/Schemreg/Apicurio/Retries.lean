import Schemreg.Apicurio.Registry

/-
  Retries against an Apicurio registry.

  Three requests work only once: the deletion of an artifact, the deletion of a version, and the
  creation of a rule. The others find what an earlier attempt has done. The deletion of the
  latest version is the case where the result is the same and the registry is not.

  Proved: `transparent_iff`, for each operation, registry and pattern of losses.
-/

namespace Schemreg.Apicurio

open Retry HttpClient

variable {policy : Policy} {respond : Answer → HttpResponse} {serde : OperationSerde}
  {maxRetries pages : Nat} {req : Request} {registry s t : Registry} {op : Operation}
  {id : ArtifactId} {expression subject : String} {scope : RuleScope} {level : CompatibilityLevel}

/-! ## Requests that work once -/

/-- The request of an operation that may work only once. -/
def onceRequest : Operation → Option Request
  | .deleteSubject subject _ => (artifactId subject).toOption.map .deleteArtifact
  | .deleteVersion subject version _ =>
      (artifactId subject).toOption.map fun id => .deleteVersion id (versionExpression version)
  | .setCompatibility subject level =>
      (ruleScope subject).toOption.map fun scope => .postRule scope level
  | _ => none

/-- There is something for the request to delete, or to create. -/
def Once (policy : Policy) (registry : Registry) : Request → Prop
  | .deleteArtifact id => registry.artifacts id ≠ none
  | .deleteVersion id expression => policy.deletesVersions = true ∧
      ∃ artifact, registry.artifacts id = some artifact ∧
        Registry.versionOf artifact expression ≠ none
  | .postRule scope _ => registry.ruleOf scope = some none
  | _ => False

theorem createArtifact_repeatable {artifactType : String} {content : VersionContentRequest} :
    (registry.createArtifact policy id artifactType content).2.createArtifact policy id artifactType
        content = registry.createArtifact policy id artifactType content := by
  cases hfind : ((registry.artifacts id).getD ⟨artifactType, [], 0, none⟩).versions.find?
      fun v => v.content = content with
  | some stored =>
    have hsame : registry.createArtifact policy id artifactType content =
        (.created stored.globalId, registry) := by
      simp only [Registry.createArtifact, hfind]
    rw [hsame, hsame]
  | none =>
    by_cases hcompatible : policy.compatible
        (((registry.artifacts id).getD ⟨artifactType, [], 0, none⟩).rule.or registry.rule)
        (((registry.artifacts id).getD ⟨artifactType, [], 0, none⟩).versions.map
          StoredVersion.content) content = true
    · have hadd : registry.createArtifact policy id artifactType content =
          registry.add id ((registry.artifacts id).getD ⟨artifactType, [], 0, none⟩) content := by
        simp only [Registry.createArtifact, hfind]
        exact if_pos hcompatible
      rw [hadd]
      unfold Registry.createArtifact
      simp only [Registry.add, Registry.store, Function.update_self, Option.getD_some]
      rw [List.find?_append, hfind]
      simp
    · have hrefused : registry.createArtifact policy id artifactType content =
          (.refused 409 "Incompatible artifact", registry) := by
        simp only [Registry.createArtifact, hfind]
        exact if_neg hcompatible
      rw [hrefused, hrefused]

theorem ruleOf_setRule (h : registry.ruleOf scope ≠ none) :
    (registry.setRule level scope).ruleOf scope = some (some level) := by
  cases scope with
  | none => rfl
  | some id =>
    unfold Registry.ruleOf Registry.setRule Registry.store
    dsimp only
    rw [Function.update_self]
    cases hid : registry.artifacts id with
    | none =>
      have hnone : registry.ruleOf (some id) = none := congrArg (Option.map Artifact.rule) hid
      exact absurd hnone h
    | some artifact => rfl

theorem setRule_setRule :
    (registry.setRule level scope).setRule level scope = registry.setRule level scope := by
  cases scope with
  | none => rfl
  | some id =>
    unfold Registry.setRule Registry.store
    dsimp only
    rw [Function.update_self, Function.update_idem]
    cases registry.artifacts id <;> rfl

theorem putRule_repeatable :
    (registry.putRule scope level).2.putRule scope level = registry.putRule scope level := by
  cases hrule : registry.ruleOf scope with
  | none => simp only [Registry.putRule, hrule]
  | some rule =>
    cases rule with
    | none => rw [Registry.putRule_of_none hrule, Registry.putRule_of_none hrule]
    | some old =>
      have hafter : (registry.setRule level scope).ruleOf scope = some (some level) :=
        ruleOf_setRule (by rw [hrule]; exact nofun)
      rw [Registry.putRule_of_rule hrule, Registry.putRule_of_rule hafter, setRule_setRule]

/-- An update of a rule leaves nothing to create where there was nothing. -/
theorem putRule_ruleOf (h : registry.ruleOf scope ≠ some none) :
    (registry.putRule scope level).2.ruleOf scope ≠ some none := by
  unfold Registry.putRule
  split
  · rename_i hrule
    dsimp only
    rw [ruleOf_setRule (by rw [hrule]; exact nofun)]
    exact nofun
  · exact h
  · exact h

/-- Unless it works once, a request does the same when it is applied again. -/
theorem repeatable_of_not_once (h : ¬ Once policy registry req) :
    Repeatable (serve policy respond) req registry := by
  cases req with
  | createArtifact id artifactType body =>
    unfold Repeatable serve Registry.apply
    dsimp only
    rw [createArtifact_repeatable]
  | searchVersions id artifactType contentType content => exact repeatable_of_unchanged rfl
  | listVersions id offset => exact repeatable_of_unchanged rfl
  | deleteArtifact id =>
    have hid : registry.artifacts id = none := not_not.mp h
    apply repeatable_of_unchanged
    simp only [serve, Registry.apply, Registry.deleteArtifact, hid]
  | deleteVersion id expression =>
    apply repeatable_of_unchanged
    simp only [serve, Registry.apply, Registry.deleteVersion]
    split
    · rename_i henabled
      split
      · rename_i artifact hid
        split
        · rename_i stored hstored
          refine absurd ⟨henabled, artifact, hid, ?_⟩ h
          rw [hstored]
          exact nofun
        · rfl
      · rfl
    · rfl
  | putRule scope level =>
    unfold Repeatable serve Registry.apply
    dsimp only
    rw [putRule_repeatable]
  | postRule scope level =>
    apply repeatable_of_unchanged
    simp only [serve, Registry.apply, Registry.postRule]
    split
    · rfl
    · exact absurd ‹_› h
    · rfl

/-! ## A lost answer -/

section Lost

variable {losses : List (Loss (Result HttpResponse))}

/-- The artifact is gone after a deletion that was applied. -/
theorem lost_deleteArtifact (hsome : SomeApplied losses) :
    (afterLosses (serve policy respond) (.deleteArtifact id) losses registry).artifacts id =
      none := by
  have hgone : ∀ t : Registry, (t.deleteArtifact id).2.artifacts id = none := by
    intro t
    unfold Registry.deleteArtifact
    split
    · exact Function.update_self ..
    · assumption
  exact afterLosses_of_some (P := fun t : Registry => t.artifacts id = none) hsome
    (hgone registry) fun t _ => hgone t

/-- The rule is there after a creation that was applied. -/
theorem lost_postRule (hsome : SomeApplied losses) (h : Once policy registry (.postRule scope level)) :
    (afterLosses (serve policy respond) (.postRule scope level) losses registry).ruleOf scope =
      some (some level) := by
  have hfirst : (registry.postRule scope level).2.ruleOf scope = some (some level) := by
    have hrule : registry.ruleOf scope = some none := h
    rw [Registry.postRule_of_none hrule]
    exact ruleOf_setRule (by rw [hrule]; exact nofun)
  refine afterLosses_of_some (P := fun t : Registry => t.ruleOf scope = some (some level)) hsome
    hfirst fun t ht => ?_
  show (t.postRule scope level).2.ruleOf scope = _
  rw [Registry.postRule_of_rule ht]
  exact ht

end Lost

/-- No answer of the registry warrants a retry. -/
theorem answer_not_retryable :
    isRetryableStatus (registry.apply policy req).1.status = false := by
  cases req with
  | createArtifact id artifactType body =>
    show isRetryableStatus (registry.createArtifact policy id artifactType body).1.status = false
    unfold Registry.createArtifact
    dsimp only
    split
    · rfl
    · split <;> rfl
  | searchVersions id artifactType contentType content =>
    show isRetryableStatus (registry.searchVersions id _ _ _).status = false
    unfold Registry.searchVersions
    split
    · split <;> rfl
    · rfl
  | listVersions id offset =>
    show isRetryableStatus (registry.listVersions id offset).status = false
    unfold Registry.listVersions
    split <;> rfl
  | deleteArtifact id =>
    show isRetryableStatus (registry.deleteArtifact id).1.status = false
    unfold Registry.deleteArtifact
    split <;> rfl
  | deleteVersion id expression =>
    show isRetryableStatus (registry.deleteVersion policy id expression).1.status = false
    unfold Registry.deleteVersion
    split
    · split
      · split <;> rfl
      · rfl
    · rfl
  | putRule scope level =>
    show isRetryableStatus (registry.putRule scope level).1.status = false
    unfold Registry.putRule
    split <;> rfl
  | postRule scope level =>
    show isRetryableStatus (registry.postRule scope level).1.status = false
    unfold Registry.postRule
    split <;> rfl

/-- How many versions there are of an artifact. -/
def Registry.size (registry : Registry) (id : ArtifactId) : Nat :=
  ((registry.artifacts id).map fun artifact => artifact.versions.length).getD 0

/-- What a deletion of a version can do: nothing, or leave fewer versions. -/
theorem deleteVersion_cases (policy : Policy) (registry : Registry) (id : ArtifactId)
    (expression : String) :
    (∃ status message, (status = 404 ∨ status = 405) ∧
        registry.deleteVersion policy id expression = (.refused status message, registry)) ∨
      ∃ after, registry.deleteVersion policy id expression = (.noContent, after) ∧
        after.size id < registry.size id := by
  unfold Registry.deleteVersion
  split
  · cases hid : registry.artifacts id with
    | none => exact .inl ⟨404, _, .inl rfl, rfl⟩
    | some artifact =>
      dsimp only
      cases hstored : Registry.versionOf artifact expression with
      | none => exact .inl ⟨404, _, .inl rfl, rfl⟩
      | some stored =>
        refine .inr ⟨_, rfl, ?_⟩
        have hmem : stored ∈ artifact.versions := by
          unfold Registry.versionOf at hstored
          split at hstored
          · exact List.mem_of_getLast? hstored
          · exact List.mem_of_find?_eq_some hstored
        simp only [Registry.size, Registry.store, Function.update_self, Option.map_some,
          Option.getD_some, hid]
        exact List.length_filter_lt_length_iff_exists.mpr ⟨stored, hmem, by simp⟩
  · exact .inl ⟨405, _, .inr rfl, rfl⟩

theorem deleteVersion_of_once (h : Once policy registry (.deleteVersion id expression)) :
    ∃ after, registry.deleteVersion policy id expression = (.noContent, after) ∧
      after.size id < registry.size id := by
  obtain ⟨henabled, artifact, hid, hstored⟩ := h
  rcases deleteVersion_cases policy registry id expression with ⟨status, message, -, h⟩ | h
  · obtain ⟨stored, hstored⟩ := Option.ne_none_iff_exists'.mp hstored
    simp [Registry.deleteVersion, henabled, hid, hstored] at h
  · exact h

/-- An update of a rule is answered as if nothing were lost. -/
theorem run_putRule {maxRetries : Nat} {losses : Losses Request}
    {next : Result HttpResponse → Requests Request}
    (hanswers : Program.Answers (serve policy respond) (exchange (serve policy respond) maxRetries)
      losses) :
    (Program.send (.putRule scope level) next).run
        (exchange (serve policy respond) maxRetries) losses registry =
      (next (.ok (respond (registry.putRule scope level).1))).run
        (exchange (serve policy respond) maxRetries) losses (registry.putRule scope level).2 :=
  Program.run_send hanswers fun _ => repeatable_of_not_once not_false

section Transparency

variable (hstatus : ∀ answer, (respond answer).status = answer.status)
include hstatus

/-! ## What the client makes of the answers -/

theorem deleteNoContent_noContent : deleteNoContent serde (respond .noContent) = .ok () := by
  unfold deleteNoContent
  rw [hstatus]
  rfl

theorem deleteNoContent_refused {status : UInt16} {message : String}
    (h : status = 404 ∨ status = 405) :
    ∃ err, deleteNoContent serde (respond (.refused status message)) = .error err := by
  unfold deleteNoContent
  rw [hstatus]
  rcases h with rfl | rfl
  · exact ⟨_, rfl⟩
  · exact ⟨_, rfl⟩

theorem postNoContent_noContent : postNoContent serde (respond .noContent) = .ok () := by
  unfold postNoContent
  rw [hstatus]
  rfl

theorem postNoContent_conflict {message : String} :
    ∃ err, postNoContent serde (respond (.refused 409 message)) = .error err := by
  unfold postNoContent
  rw [hstatus]
  exact ⟨_, rfl⟩

theorem handleJsonAs_notFound {T : Type} {decode : List UInt8 → Except String T}
    {message : String} :
    ∃ msg, handleJsonAs serde decode (respond (.refused 404 message)) =
      .error (.api 40401 msg) := by
  unfold handleJsonAs
  rw [hstatus]
  exact ⟨_, rfl⟩

/-! ## Transparency -/

theorem answers (policy : Policy) {losses : Losses Request}
    (hbudget : ∀ req, WithinBudget maxRetries (losses req)) :
    Program.Answers (serve policy respond) (exchange (serve policy respond) maxRetries) losses := by
  refine answers_exchange (fun req t => ?_) hbudget
  show isRetryableStatus (respond (t.apply policy req).1).status = false
  rw [hstatus, answer_not_retryable]

theorem answers_quiet (policy : Policy) (maxRetries : Nat) :
    Program.Answers (serve policy respond) (exchange (serve policy respond) maxRetries)
      Program.quiet :=
  answers hstatus policy fun _ => withinBudget_nil

omit hstatus in
/-- A listing ends in the same way whatever is lost, and leaves the registry as it is. -/
theorem run_listVersions (policy : Policy) (respond : Answer → HttpResponse) (maxRetries : Nat)
    (registry : Registry) (next : Result (List SchemaVersion) → Requests Request)
    (offset : Nat) (versions : List SchemaVersion) :
    ∃ listed : Option (Result (List SchemaVersion)), ∀ losses : Losses Request,
      Program.Answers (serve policy respond) (exchange (serve policy respond) maxRetries) losses →
      (listVersions serde id next pages offset versions).run
          (exchange (serve policy respond) maxRetries) losses registry =
        match listed with
        | none => (none, registry)
        | some listed =>
            (next listed).run (exchange (serve policy respond) maxRetries) losses registry := by
  induction pages generalizing offset versions with
  | zero => exact ⟨none, fun losses _ => rfl⟩
  | succ pages ih =>
    have hsend : ∀ {next : Result HttpResponse → Requests Request} (losses : Losses Request),
        Program.Answers (serve policy respond) (exchange (serve policy respond) maxRetries) losses →
        (Program.send (.listVersions id offset) next).run
            (exchange (serve policy respond) maxRetries) losses registry =
          (next (.ok (respond (registry.listVersions id offset)))).run
            (exchange (serve policy respond) maxRetries) losses registry :=
      fun losses hanswers => Program.run_send hanswers fun _ => repeatable_of_not_once not_false
    have hbind : (Except.ok (respond (registry.listVersions id offset)) >>=
        handleJsonAs serde serde.artifactVersionList) =
          handleJsonAs serde serde.artifactVersionList
            (respond (registry.listVersions id offset)) := rfl
    unfold listVersions
    cases hpage : handleJsonAs serde serde.artifactVersionList
        (respond (registry.listVersions id offset)) with
    | error err =>
      refine ⟨some (.error err), fun losses hanswers => ?_⟩
      rw [hsend losses hanswers, hbind, hpage]
    | ok page =>
      by_cases hempty : page.versions.length = 0
      · refine ⟨some (.ok versions), fun losses hanswers => ?_⟩
        rw [hsend losses hanswers, hbind, hpage]
        dsimp only
        rw [if_pos hempty]
      by_cases hshort : page.versions.length < pageSize
      · refine ⟨some (.ok (versions ++ page.versions.filterMap fun v => v.bind parseVersion)),
          fun losses hanswers => ?_⟩
        rw [hsend losses hanswers, hbind, hpage]
        dsimp only
        rw [if_neg hempty, if_pos hshort]
      obtain ⟨listed, hlisted⟩ := ih (offset + page.versions.length)
        (versions ++ page.versions.filterMap fun v => v.bind parseVersion)
      cases hcount : page.count with
      | none =>
        refine ⟨listed, fun losses hanswers => ?_⟩
        rw [hsend losses hanswers, hbind, hpage]
        dsimp only
        rw [if_neg hempty, if_neg hshort, hcount]
        exact hlisted losses hanswers
      | some total =>
        by_cases hlast : total.toInt ≤ (offset + page.versions.length : Nat)
        · refine ⟨some (.ok (versions ++ page.versions.filterMap fun v => v.bind parseVersion)),
            fun losses hanswers => ?_⟩
          rw [hsend losses hanswers, hbind, hpage]
          dsimp only
          rw [if_neg hempty, if_neg hshort, hcount]
          dsimp only
          rw [if_pos hlast]
        · refine ⟨listed, fun losses hanswers => ?_⟩
          rw [hsend losses hanswers, hbind, hpage]
          dsimp only
          rw [if_neg hempty, if_neg hshort, hcount]
          dsimp only
          rw [if_neg hlast]
          exact hlisted losses hanswers

/-- Losses do not show where no request that works once has been applied and lost. -/
theorem perform_eq {losses : Losses Request}
    (hbudget : ∀ req, WithinBudget maxRetries (losses req))
    (hspared : ∀ req, onceRequest op = some req → SomeApplied (losses req) →
      ¬ Once policy registry req) :
    perform (serve policy respond) maxRetries (program serde pages op) losses registry =
      perform (serve policy respond) maxRetries (program serde pages op) Program.quiet registry := by
  have hlossy := answers hstatus policy hbudget
  have hquiet := answers_quiet hstatus policy maxRetries
  have hlast : ∀ {req : Request} {next : Result HttpResponse → Requests Request} {s : Registry},
      (SomeApplied (losses req) → ¬ Once policy s req) →
      (∀ answer, ∃ result, next answer = .done result) →
      (Program.send req next).run (exchange (serve policy respond) maxRetries) losses s =
        (Program.send req next).run (exchange (serve policy respond) maxRetries) Program.quiet s := by
    intro req next s hreq hdone
    refine Program.run_eq hlossy hquiet
      ⟨fun hsome => repeatable_of_not_once (hreq hsome), ?_⟩
    obtain ⟨result, hresult⟩ := hdone (.ok (serve policy respond req s).1)
    rw [hresult]
    exact trivial
  cases op with
  | registerSchema subject schema schemaType references =>
    show (registerSchema serde subject schema schemaType references).run _ _ _ =
      (registerSchema serde subject schema schemaType references).run _ _ _
    unfold registerSchema
    cases artifactId subject with
    | error err => rfl
    | ok id => exact hlast (fun _ => not_false) fun _ => ⟨_, rfl⟩
  | lookupSchema subject schema schemaType references =>
    show (lookupSchema serde subject schema schemaType).run _ _ _ =
      (lookupSchema serde subject schema schemaType).run _ _ _
    unfold lookupSchema
    cases artifactId subject with
    | error err => rfl
    | ok id => exact hlast (fun _ => not_false) fun _ => ⟨_, rfl⟩
  | deleteSubject subject permanent =>
    have honce : onceRequest (.deleteSubject subject permanent) =
      (artifactId subject).toOption.map .deleteArtifact := rfl
    show (deleteSubject serde pages subject).run _ _ _ = (deleteSubject serde pages subject).run _ _ _
    unfold deleteSubject
    cases hid : artifactId subject with
    | error err => rfl
    | ok id =>
      rw [hid] at honce
      dsimp only
      generalize hnext : (fun versions : Result (List SchemaVersion) =>
        (Program.send (.deleteArtifact id) _ : Requests Request)) = next
      obtain ⟨listed, hlisted⟩ := run_listVersions policy respond maxRetries registry next 0 []
      rw [hlisted losses hlossy, hlisted Program.quiet hquiet]
      subst hnext
      cases listed with
      | none => rfl
      | some listed => exact hlast (hspared _ honce) fun _ => ⟨_, rfl⟩
  | deleteVersion subject version permanent =>
    have honce : onceRequest (.deleteVersion subject version permanent) =
      (artifactId subject).toOption.map fun id => .deleteVersion id (versionExpression version) := rfl
    show (deleteVersion serde subject version).run _ _ _ =
      (deleteVersion serde subject version).run _ _ _
    unfold deleteVersion
    cases hid : artifactId subject with
    | error err => rfl
    | ok id =>
      rw [hid] at honce
      exact hlast (hspared _ honce) fun _ => ⟨_, rfl⟩
  | setCompatibility subject level =>
    have honce : onceRequest (.setCompatibility subject level) =
      (ruleScope subject).toOption.map fun scope => .postRule scope level := rfl
    show (setCompatibility serde subject level).run _ _ _ =
      (setCompatibility serde subject level).run _ _ _
    unfold setCompatibility
    cases hscope : ruleScope subject with
    | error err => rfl
    | ok scope =>
      rw [hscope] at honce
      dsimp only
      rw [run_putRule hlossy, run_putRule hquiet]
      split
      · rfl
      · split
        · exact hlast (fun hsome => putRule_ruleOf (hspared _ honce hsome)) fun _ => ⟨_, rfl⟩
        · rfl

/-- A lost deletion of an artifact is reported as one that found nothing. -/
theorem deleteSubject_ne {losses : Losses Request} (hid : artifactId subject = .ok id)
    (hbudget : ∀ req, WithinBudget maxRetries (losses req))
    (hreturns : (perform (serve policy respond) maxRetries (deleteSubject serde pages subject)
      Program.quiet registry).1 ≠ none)
    (hsome : SomeApplied (losses (.deleteArtifact id)))
    (honce : Once policy registry (.deleteArtifact id)) :
    (perform (serve policy respond) maxRetries (deleteSubject serde pages subject) losses
        registry).1 ≠
      (perform (serve policy respond) maxRetries (deleteSubject serde pages subject) Program.quiet
        registry).1 := by
  have hlossy := answers hstatus policy hbudget
  have hquiet := answers_quiet hstatus policy maxRetries
  have hgone : (afterLosses (serve policy respond) (.deleteArtifact id)
      (losses (.deleteArtifact id)) registry).artifacts id = none := lost_deleteArtifact hsome
  generalize hafter : afterLosses (serve policy respond) (.deleteArtifact id)
    (losses (.deleteArtifact id)) registry = t at hgone
  have hlost : (serve policy respond (.deleteArtifact id) t).1 =
      respond (.refused 404 "No artifact found") := by
    simp only [serve, Registry.apply, Registry.deleteArtifact, hgone]
  have hfirst : (serve policy respond (.deleteArtifact id) registry).1 = respond .noContent := by
    obtain ⟨artifact, hartifact⟩ := Option.ne_none_iff_exists'.mp honce
    simp only [serve, Registry.apply, Registry.deleteArtifact, hartifact]
  obtain ⟨err, herr⟩ : ∃ err, deleteNoContent serde
      (respond (.refused 404 "No artifact found")) = .error err :=
    deleteNoContent_refused hstatus (.inl rfl)
  unfold perform deleteSubject at hreturns ⊢
  rw [hid] at hreturns ⊢
  dsimp only at hreturns ⊢
  generalize hnext : (fun versions : Result (List SchemaVersion) =>
    (Program.send (.deleteArtifact id) _ : Requests Request)) = next at hreturns ⊢
  obtain ⟨listed, hlisted⟩ := run_listVersions policy respond maxRetries registry next 0 []
  rw [hlisted Program.quiet hquiet] at hreturns ⊢
  rw [hlisted losses hlossy]
  cases listed with
  | none => exact absurd rfl hreturns
  | some listed =>
    subst hnext
    dsimp only
    rw [Program.run_send_done hlossy, Program.run_send_done hquiet, hafter, hlost]
    show some (deleteNoContent serde _ >>= _) ≠
      some (deleteNoContent serde (serve policy respond (.deleteArtifact id) registry).1 >>= _)
    rw [hfirst, herr, deleteNoContent_noContent hstatus]
    exact nofun

/-- A lost deletion of a version finds nothing, or deletes one more. -/
theorem deleteVersion_ne {losses : Losses Request} {version : SchemaVersion}
    (hid : artifactId subject = .ok id) (hbudget : ∀ req, WithinBudget maxRetries (losses req))
    (hsome : SomeApplied (losses (.deleteVersion id (versionExpression version))))
    (honce : Once policy registry (.deleteVersion id (versionExpression version))) :
    perform (serve policy respond) maxRetries (deleteVersion serde subject version) losses
        registry ≠
      perform (serve policy respond) maxRetries (deleteVersion serde subject version) Program.quiet
        registry := by
  have hlossy := answers hstatus policy hbudget
  have hquiet := answers_quiet hstatus policy maxRetries
  obtain ⟨first, hfirst, -⟩ := deleteVersion_of_once honce
  have hfewer : (afterLosses (serve policy respond)
      (.deleteVersion id (versionExpression version))
      (losses (.deleteVersion id (versionExpression version))) registry).size id ≤
        first.size id := by
    refine afterLosses_of_some (P := fun t : Registry => t.size id ≤ first.size id) hsome ?_ ?_
    · show (registry.deleteVersion policy id (versionExpression version)).2.size id ≤ _
      rw [hfirst]
    · intro t ht
      show (t.deleteVersion policy id (versionExpression version)).2.size id ≤ _
      rcases deleteVersion_cases policy t id (versionExpression version) with
        ⟨status, message, -, h⟩ | ⟨after, h, hlt⟩
      · rw [h]
        exact ht
      · rw [h]
        exact le_trans hlt.le ht
  generalize hafter : afterLosses (serve policy respond)
    (.deleteVersion id (versionExpression version)) _ registry = t at hfewer
  unfold perform deleteVersion
  rw [hid]
  dsimp only
  rw [Program.run_send_done hlossy, Program.run_send_done hquiet, hafter]
  intro hsame
  obtain ⟨hresult, hstate⟩ := Prod.mk.inj hsame
  replace hresult : (deleteNoContent serde
        (respond (t.deleteVersion policy id (versionExpression version)).1) >>=
          fun _ => (.ok (.version version) : Result Returned)) =
      (deleteNoContent serde
        (respond (registry.deleteVersion policy id (versionExpression version)).1) >>=
          fun _ => .ok (.version version)) := Option.some.inj hresult
  replace hstate : (t.deleteVersion policy id (versionExpression version)).2 =
    (registry.deleteVersion policy id (versionExpression version)).2 := hstate
  rw [hfirst] at hresult hstate
  rcases deleteVersion_cases policy t id (versionExpression version) with
    ⟨status, message, hrefused, h⟩ | ⟨last, h, hlt⟩
  · obtain ⟨err, herr⟩ : ∃ err, deleteNoContent serde (respond (.refused status message)) =
      .error err := deleteNoContent_refused hstatus hrefused
    rw [h, herr, deleteNoContent_noContent hstatus] at hresult
    cases hresult
  · rw [h] at hstate
    have hsize : last.size id = first.size id := congrArg (·.size id) hstate
    omega

/-- A lost creation of a rule is reported as a conflict. -/
theorem setCompatibility_ne {losses : Losses Request} (hscope : ruleScope subject = .ok scope)
    (hbudget : ∀ req, WithinBudget maxRetries (losses req))
    (hsome : SomeApplied (losses (.postRule scope level)))
    (honce : Once policy registry (.postRule scope level)) :
    (perform (serve policy respond) maxRetries (setCompatibility serde subject level) losses
        registry).1 ≠
      (perform (serve policy respond) maxRetries (setCompatibility serde subject level)
        Program.quiet registry).1 := by
  have hlossy := answers hstatus policy hbudget
  have hquiet := answers_quiet hstatus policy maxRetries
  have hrule : registry.ruleOf scope = some none := honce
  obtain ⟨msg, hmsg⟩ : ∃ msg, handleJsonAs serde serde.value
      (respond (.refused 404 "No rule named 'COMPATIBILITY' was found")) =
        .error (.api 40401 msg) := handleJsonAs_notFound hstatus
  obtain ⟨err, herr⟩ : ∃ err, postNoContent serde
      (respond (.refused 409 "A rule named 'COMPATIBILITY' already exists")) = .error err :=
    postNoContent_conflict hstatus
  have hthere : (afterLosses (serve policy respond) (.postRule scope level)
      (losses (.postRule scope level)) registry).ruleOf scope = some (some level) :=
    lost_postRule hsome honce
  generalize hafter : afterLosses (serve policy respond) (.postRule scope level)
    (losses (.postRule scope level)) registry = t at hthere
  have hlost : (serve policy respond (.postRule scope level) t).1 =
      respond (.refused 409 "A rule named 'COMPATIBILITY' already exists") := by
    simp only [serve, Registry.apply, Registry.postRule_of_rule hthere]
  have hfirst : (serve policy respond (.postRule scope level) registry).1 =
      respond .noContent := by
    simp only [serve, Registry.apply, Registry.postRule_of_none hrule]
  have hbind : (Except.ok (respond (.refused 404 "No rule named 'COMPATIBILITY' was found")) >>=
      handleJsonAs serde serde.value) = .error (.api 40401 msg) := hmsg
  have hnotFound : (SchemaRegError.api 40401 msg).isNotFound = true := rfl
  unfold perform setCompatibility
  rw [hscope]
  dsimp only
  rw [run_putRule hlossy, run_putRule hquiet, Registry.putRule_of_none hrule, hbind]
  dsimp only
  rw [if_pos hnotFound, Program.run_send_done hlossy, Program.run_send_done hquiet, hafter, hlost]
  show some (postNoContent serde _ >>= _) ≠
    some (postNoContent serde (serve policy respond (.postRule scope level) registry).1 >>= _)
  rw [hfirst, herr, postNoContent_noContent hstatus]
  exact nofun

/-- Retries are transparent exactly where no answer to a request that works once is lost. -/
theorem transparent_iff {losses : Losses Request}
    (hbudget : ∀ req, WithinBudget maxRetries (losses req))
    (hreturns : (perform (serve policy respond) maxRetries (program serde pages op) Program.quiet
      registry).1 ≠ none) :
    TransparentRetries (serve policy respond) maxRetries op (program serde pages op) losses
        registry ↔
      ∀ req, onceRequest op = some req → SomeApplied (losses req) →
        ¬ Once policy registry req := by
  have hok : ∀ {α : Type} {x : Result α} {a : α}, x.toOption = some a → x = .ok a := by
    intro α x a h
    cases x with
    | ok b => exact congrArg Except.ok (Option.some.inj h)
    | error err => cases h
  rw [transparent_iff_perform]
  constructor
  · intro hsame req hreq hsome honce
    cases op with
    | registerSchema subject schema schemaType references => cases hreq
    | lookupSchema subject schema schemaType references => cases hreq
    | deleteSubject subject permanent =>
      obtain ⟨id, hid, rfl⟩ := Option.map_eq_some_iff.mp hreq
      exact deleteSubject_ne hstatus (hok hid) hbudget hreturns hsome honce
        (congrArg Prod.fst hsame)
    | deleteVersion subject version permanent =>
      obtain ⟨id, hid, rfl⟩ := Option.map_eq_some_iff.mp hreq
      exact deleteVersion_ne hstatus (hok hid) hbudget hsome honce hsame
    | setCompatibility subject level =>
      obtain ⟨scope, hscope, rfl⟩ := Option.map_eq_some_iff.mp hreq
      exact setCompatibility_ne hstatus (hok hscope) hbudget hsome honce (congrArg Prod.fst hsame)
  · exact perform_eq hstatus hbudget

end Transparency

end Schemreg.Apicurio
