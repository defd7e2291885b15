import Schemreg.Confluent.Registry

/-
  Retries against a Confluent registry.

  A deletion is the only request that is not repeatable: where it deletes something, applying it
  once more is refused, or deletes another version when it names `latest`. So losing the answer
  to an applied deletion shows, and the caller is told that it failed.

  Proved: `transparent_iff`, for each operation, registry and list of losses.
-/

namespace Schemreg.Confluent

open Retry HttpClient

variable {policy : Policy} {respond : Answer → HttpResponse} {serde : Serde} {normalize : Bool}
  {maxRetries : Nat} {req : Request} {registry : Registry} {op : Operation}
  {losses : List (Loss (Result HttpResponse))} {subject : String} {permanent : Bool}
  {named : Option Int32}

/-! ## What the registry renders -/

def Answer.status : Answer → UInt16
  | .refused status _ => status
  | _ => 200

/-- The client's decoders read what the registry has rendered. -/
structure Renders (serde : Serde) (respond : Answer → HttpResponse) (answer : Answer) : Prop where
  json : ∃ ct, (respond answer).contentType = some ct ∧ "json".toList <:+: ct.toList
  versions : ∀ vs, answer = .versions vs →
    serde.versions (respond answer).body = .ok (vs.map SchemaVersion.mk)
  version : ∀ v, answer = .version v → serde.version (respond answer).body = .ok v
  error : ∀ status err, answer = .refused status err →
    serde.errorResponse (respond answer).body = some err

/-! ## Deletions -/

/-- The request is a deletion, and there is something that it deletes. -/
def Deletes (registry : Registry) : Request → Prop
  | .deleteSubject subject false => live (registry.subjects subject) ≠ []
  | .deleteSubject subject true =>
      registry.subjects subject ≠ [] ∧ live (registry.subjects subject) = []
  | .deleteVersion subject named permanent =>
      ∃ version, named.or (latest (registry.subjects subject)) = some version ∧
        ∃ entry ∈ registry.subjects subject, entry.version = version ∧
          (permanent = true ↔
            live ((registry.subjects subject).filter fun v => v.version = version) = [])
  | _ => False

/-! ## Repeatable requests -/

theorem live_eq_nil {versions : List Stored} :
    live versions = [] ↔ ∀ v ∈ versions, v.deleted = true := by
  unfold live
  rw [List.filter_eq_nil_iff]
  simp

theorem register_repeatable {content : RegisterSchemaRequest} :
    (registry.register policy subject content).2.register policy subject content =
      registry.register policy subject content := by
  cases hfind : registry.find subject content with
  | some stored =>
    have hsame : registry.register policy subject content = (.registered stored.id, registry) := by
      unfold Registry.register
      rw [hfind]
    rw [hsame, hsame]
  | none =>
    by_cases hcompatible : policy.compatible
        ((registry.config (some subject)).or (registry.config none))
        ((live (registry.subjects subject)).map Stored.content) content = true
    · have hadd : registry.register policy subject content =
          (.registered (registry.idOf content), registry.add subject content) := by
        unfold Registry.register
        rw [hfind]
        exact if_pos hcompatible
      have hagain : (registry.add subject content).find subject content =
          some ⟨registry.idOf content, nextVersion (registry.subjects subject), content, false⟩ := by
        unfold Registry.find at hfind ⊢
        simp only [Registry.add, Registry.store, Function.update_self, live,
          List.filter_append] at hfind ⊢
        rw [List.find?_append, hfind]
        simp
      rw [hadd]
      unfold Registry.register
      rw [hagain]
    · have hrefused : registry.register policy subject content = (.refused 409
          ⟨409, "Schema being registered is incompatible with an earlier schema"⟩, registry) := by
        unfold Registry.register
        rw [hfind]
        exact if_neg hcompatible
      rw [hrefused, hrefused]

/-- A deletion of a subject that deletes nothing is refused. -/
theorem deleteSubject_refused (h : ¬ Deletes registry (.deleteSubject subject permanent)) :
    ∃ err, registry.deleteSubject subject permanent = (.refused 404 err, registry) := by
  unfold Registry.deleteSubject notFound
  by_cases hnone : registry.subjects subject = []
  · rw [if_pos hnone]
    exact ⟨_, rfl⟩
  · rw [if_neg hnone]
    cases permanent with
    | true =>
      have hlive : live (registry.subjects subject) ≠ [] := fun hlive => h ⟨hnone, hlive⟩
      rw [if_pos rfl, if_neg hlive]
      exact ⟨_, rfl⟩
    | false =>
      have hlive : live (registry.subjects subject) = [] := not_not.mp h
      rw [if_neg Bool.false_ne_true, if_pos hlive]
      exact ⟨_, rfl⟩

/-- A deletion of a subject that deletes something lists it, and leaves nothing to delete. -/
theorem deleteSubject_deletes (h : Deletes registry (.deleteSubject subject permanent)) :
    (∃ vs, (registry.deleteSubject subject permanent).1 = .versions vs) ∧
      ¬ Deletes (registry.deleteSubject subject permanent).2 (.deleteSubject subject permanent) := by
  cases permanent with
  | true =>
    have hdelete : registry.deleteSubject subject true =
        (.versions ((registry.subjects subject).map Stored.version), registry.store subject []) := by
      unfold Registry.deleteSubject
      rw [if_neg h.1, if_pos rfl, if_pos h.2]
    rw [hdelete]
    refine ⟨⟨_, rfl⟩, fun hagain => hagain.1 ?_⟩
    exact Function.update_self ..
  | false =>
    have hnone : registry.subjects subject ≠ [] := by
      intro hnil
      apply h
      rw [hnil]
      rfl
    have hdelete : registry.deleteSubject subject false =
        (.versions ((live (registry.subjects subject)).map Stored.version),
          registry.store subject
            ((registry.subjects subject).map fun v => { v with deleted := true })) := by
      unfold Registry.deleteSubject
      rw [if_neg hnone, if_neg Bool.false_ne_true, if_neg h]
    rw [hdelete]
    refine ⟨⟨_, rfl⟩, fun hagain => hagain ?_⟩
    simp only [Registry.store, Function.update_self]
    rw [live_eq_nil]
    intro v hv
    obtain ⟨_, -, rfl⟩ := List.mem_map.mp hv
    rfl

/-- The version is past this stage of its deletion. -/
def Gone (permanent : Bool) (version : Int32) (versions : List Stored) : Prop :=
  ∀ v ∈ versions, v.version = version → permanent = false ∧ v.deleted = true

/-- What a deletion of a version leaves of the subject. -/
def dropVersion (permanent : Bool) (version : Int32) (versions : List Stored) : List Stored :=
  if permanent then versions.filter fun v => v.version ≠ version
  else versions.map fun v => if v.version = version then { v with deleted := true } else v

theorem gone_dropVersion {version : Int32} {versions : List Stored} :
    Gone permanent version (dropVersion permanent version versions) := by
  intro v hv hversion
  cases permanent with
  | true =>
    have hkept := (List.mem_filter.mp hv).2
    simp [hversion] at hkept
  | false =>
    obtain ⟨u, -, rfl⟩ := List.mem_map.mp hv
    by_cases hu : u.version = version
    · simp [hu]
    · rw [if_neg hu] at hversion
      exact absurd hversion hu

theorem Gone.dropVersion {version other : Int32} {versions : List Stored}
    (h : Gone permanent version versions) :
    Gone permanent version (dropVersion permanent other versions) := by
  intro v hv hversion
  cases permanent with
  | true => exact h v (List.mem_filter.mp hv).1 hversion
  | false =>
    obtain ⟨u, hu, rfl⟩ := List.mem_map.mp hv
    by_cases hother : u.version = other
    · simp [hother]
    · rw [if_neg hother] at hversion ⊢
      exact h u hu hversion

/-- A deletion of a version that deletes nothing is refused. -/
theorem deleteVersion_refused (h : ¬ Deletes registry (.deleteVersion subject named permanent)) :
    ∃ err, registry.deleteVersion subject named permanent = (.refused 404 err, registry) := by
  unfold Registry.deleteVersion notFound
  by_cases hnone : registry.subjects subject = []
  · rw [if_pos hnone]
    exact ⟨_, rfl⟩
  rw [if_neg hnone]
  cases hversion : named.or (latest (registry.subjects subject)) with
  | none => exact ⟨_, rfl⟩
  | some version =>
    dsimp only
    by_cases hentries : ((registry.subjects subject).filter fun v => v.version = version) = []
    · rw [if_pos hentries]
      exact ⟨_, rfl⟩
    rw [if_neg hentries]
    obtain ⟨entry, hentry⟩ := List.exists_mem_of_ne_nil _ hentries
    obtain ⟨hmem, hof⟩ := List.mem_filter.mp hentry
    have hstage : ¬ (permanent = true ↔
        live ((registry.subjects subject).filter fun v => v.version = version) = []) :=
      fun hstage => h ⟨version, hversion, entry, hmem, of_decide_eq_true hof, hstage⟩
    cases permanent with
    | true =>
      rw [if_pos rfl, if_neg fun hlive => hstage ⟨fun _ => hlive, fun _ => rfl⟩]
      exact ⟨_, rfl⟩
    | false =>
      have hlive : live ((registry.subjects subject).filter fun v => v.version = version) = [] := by
        by_contra hlive
        exact hstage ⟨fun hfalse => absurd hfalse Bool.false_ne_true, fun hnil => absurd hnil hlive⟩
      rw [if_neg Bool.false_ne_true, if_pos hlive]
      exact ⟨_, rfl⟩

/-- A deletion of a version that deletes something names it. -/
theorem deleteVersion_deletes {version : Int32}
    (hversion : named.or (latest (registry.subjects subject)) = some version)
    (hentry : ∃ entry ∈ registry.subjects subject, entry.version = version)
    (hstage : permanent = true ↔
      live ((registry.subjects subject).filter fun v => v.version = version) = []) :
    registry.deleteVersion subject named permanent =
      (.version version,
        registry.store subject (dropVersion permanent version (registry.subjects subject))) := by
  obtain ⟨entry, hmem, hof⟩ := hentry
  have hnone : registry.subjects subject ≠ [] := List.ne_nil_of_mem hmem
  have hentries : ((registry.subjects subject).filter fun v => v.version = version) ≠ [] :=
    List.ne_nil_of_mem (List.mem_filter.mpr ⟨hmem, decide_eq_true hof⟩)
  unfold Registry.deleteVersion dropVersion
  rw [if_neg hnone, hversion]
  dsimp only
  rw [if_neg hentries]
  cases permanent with
  | true => rw [if_pos rfl, if_pos (hstage.mp rfl), if_pos rfl]
  | false =>
    have hlive : live ((registry.subjects subject).filter fun v => v.version = version) ≠ [] :=
      fun hlive => absurd (hstage.mpr hlive) Bool.false_ne_true
    rw [if_neg Bool.false_ne_true, if_neg hlive, if_neg Bool.false_ne_true]

/-- What a deletion of a version can do: nothing, or drop a version that is not gone. -/
theorem deleteVersion_cases (registry : Registry) (subject : String) (named : Option Int32)
    (permanent : Bool) :
    (∃ err, registry.deleteVersion subject named permanent = (.refused 404 err, registry)) ∨
      ∃ version, ¬ Gone permanent version (registry.subjects subject) ∧
        registry.deleteVersion subject named permanent = (.version version,
          registry.store subject (dropVersion permanent version (registry.subjects subject))) := by
  by_cases h : Deletes registry (.deleteVersion subject named permanent)
  · obtain ⟨version, hversion, entry, hmem, hof, hstage⟩ := h
    refine .inr ⟨version, fun hgone => ?_,
      deleteVersion_deletes hversion ⟨entry, hmem, hof⟩ hstage⟩
    have hlive : live ((registry.subjects subject).filter fun v => v.version = version) = [] := by
      rw [live_eq_nil]
      intro v hv
      obtain ⟨hv, hvof⟩ := List.mem_filter.mp hv
      exact (hgone v hv (of_decide_eq_true hvof)).2
    have hsoft := (hgone entry hmem hof).1
    rw [hstage.mpr hlive] at hsoft
    cases hsoft
  · exact .inl (deleteVersion_refused h)

/-! ## A lost deletion -/

theorem repeatable_of_not_deletes (h : ¬ Deletes registry req) :
    Repeatable (serve policy respond) req registry := by
  cases req with
  | register subject normalize body =>
    unfold Repeatable serve Registry.apply
    dsimp only
    rw [register_repeatable]
  | lookup subject normalize body => exact repeatable_of_unchanged rfl
  | deleteSubject subject permanent =>
    obtain ⟨err, hrefused⟩ := deleteSubject_refused h
    apply repeatable_of_unchanged
    unfold serve Registry.apply
    dsimp only
    rw [hrefused]
  | deleteVersion subject named permanent =>
    obtain ⟨err, hrefused⟩ := deleteVersion_refused h
    apply repeatable_of_unchanged
    unfold serve Registry.apply
    dsimp only
    rw [hrefused]
  | putConfig subject level =>
    unfold Repeatable serve Registry.apply
    dsimp only
    rw [Function.update_idem]

/-- After a deletion that was applied, another application answers something else. -/
theorem lost_deletion (h : Deletes registry req) (hsome : SomeApplied losses) :
    ((afterLosses (serve policy respond) req losses registry).apply policy req).1 ≠
      (registry.apply policy req).1 := by
  cases req with
  | deleteSubject subject permanent =>
    obtain ⟨⟨vs, hvs⟩, hgone⟩ := deleteSubject_deletes h
    have hafter : ¬ Deletes (afterLosses (serve policy respond)
        (.deleteSubject subject permanent) losses registry)
        (.deleteSubject subject permanent) := by
      refine afterLosses_of_some
        (P := fun t => ¬ Deletes t (.deleteSubject subject permanent)) hsome hgone ?_
      intro t ht
      obtain ⟨err, hrefused⟩ := deleteSubject_refused ht
      show ¬ Deletes (t.deleteSubject subject permanent).2 _
      rw [hrefused]
      exact ht
    obtain ⟨err, hrefused⟩ := deleteSubject_refused hafter
    show (Registry.deleteSubject _ subject permanent).1 ≠
      (registry.deleteSubject subject permanent).1
    rw [hrefused, hvs]
    exact fun heq => nomatch heq
  | deleteVersion subject named permanent =>
    obtain ⟨version, hversion, entry, hmem, hof, hstage⟩ := h
    have hdelete := deleteVersion_deletes hversion ⟨entry, hmem, hof⟩ hstage
    have hafter : Gone permanent version ((afterLosses (serve policy respond)
        (.deleteVersion subject named permanent) losses registry).subjects subject) := by
      refine afterLosses_of_some
        (P := fun t : Registry => Gone permanent version (t.subjects subject)) hsome ?_ ?_
      · show Gone permanent version ((registry.deleteVersion subject named permanent).2.subjects _)
        rw [hdelete]
        simp only [Registry.store, Function.update_self]
        exact gone_dropVersion
      · intro t ht
        show Gone permanent version ((t.deleteVersion subject named permanent).2.subjects subject)
        rcases deleteVersion_cases t subject named permanent with ⟨err, ht'⟩ | ⟨other, -, ht'⟩
        · rw [ht']
          exact ht
        · rw [ht']
          simp only [Registry.store, Function.update_self]
          exact ht.dropVersion
    show (Registry.deleteVersion _ subject named permanent).1 ≠
      (registry.deleteVersion subject named permanent).1
    rw [hdelete]
    rcases deleteVersion_cases (afterLosses (serve policy respond)
      (.deleteVersion subject named permanent) losses registry) subject named permanent with
      ⟨err, hlast⟩ | ⟨other, hother, hlast⟩
    · rw [hlast]
      exact fun heq => nomatch heq
    · rw [hlast]
      intro heq
      cases heq
      exact hother hafter
  | register subject normalize body => exact h.elim
  | lookup subject normalize body => exact h.elim
  | putConfig subject level => exact h.elim

/-! ## Outcomes -/

/-- No answer of the registry warrants a retry. -/
theorem answer_not_retryable :
    isRetryableStatus (registry.apply policy req).1.status = false := by
  cases req with
  | register subject normalize body =>
    show isRetryableStatus (registry.register policy subject _).1.status = false
    unfold Registry.register
    split
    · rfl
    · dsimp only
      split <;> rfl
  | lookup subject normalize body =>
    show isRetryableStatus (registry.lookup subject _).status = false
    unfold Registry.lookup
    split
    · rfl
    · split <;> rfl
  | deleteSubject subject permanent =>
    show isRetryableStatus (registry.deleteSubject subject permanent).1.status = false
    by_cases h : Deletes registry (.deleteSubject subject permanent)
    · obtain ⟨⟨vs, hvs⟩, -⟩ := deleteSubject_deletes h
      rw [hvs]
      rfl
    · obtain ⟨err, hrefused⟩ := deleteSubject_refused h
      rw [hrefused]
      rfl
  | deleteVersion subject named permanent =>
    show isRetryableStatus (registry.deleteVersion subject named permanent).1.status = false
    rcases deleteVersion_cases registry subject named permanent with ⟨err, h⟩ | ⟨version, -, h⟩
    · rw [h]
      rfl
    · rw [h]
      rfl
  | putConfig subject level => rfl

theorem handleResponse_rendered {T : Type} {decode : List UInt8 → Except String T} {value : T}
    {answer : Answer} (h : Renders serde respond answer)
    (hstatus : (respond answer).status = 200) (hdecode : decode (respond answer).body = .ok value) :
    handleResponse serde decode (respond answer) = .ok value := by
  obtain ⟨ct, hct, hjson⟩ := h.json
  unfold handleResponse
  rw [hstatus, hct, hdecode, if_pos (show isSuccess 200 = true by decide)]
  exact if_pos hjson

theorem handleResponse_refused {T : Type} {decode : List UInt8 → Except String T}
    {err : ErrorResponse} (h : Renders serde respond (.refused 404 err))
    (hstatus : (respond (.refused 404 err)).status = 404) :
    handleResponse serde decode (respond (.refused 404 err)) =
      .error (.api err.errorCode err.message) := by
  unfold handleResponse responseError
  rw [hstatus, h.error 404 err rfl]
  rfl

/-- Only the deletions of the client delete. -/
theorem operation_of_deletes (hreq : requestOf normalize op = .ok req)
    (h : Deletes registry req) :
    (∃ subject permanent, op = .deleteSubject subject permanent ∧
        req = .deleteSubject subject permanent) ∨
      ∃ subject version permanent, op = .deleteVersion subject version permanent ∧
        req = .deleteVersion subject (versionPathSegment version) permanent := by
  cases op with
  | registerSchema subject schema schemaType references =>
    obtain ⟨_, _, hreq⟩ := Result.bind_eq_ok.mp hreq
    cases hreq
    exact h.elim
  | lookupSchema subject schema schemaType references =>
    obtain ⟨_, _, hreq⟩ := Result.bind_eq_ok.mp hreq
    cases hreq
    exact h.elim
  | deleteSubject subject permanent =>
    obtain ⟨_, _, hreq⟩ := Result.bind_eq_ok.mp hreq
    cases hreq
    exact .inl ⟨subject, permanent, rfl, rfl⟩
  | deleteVersion subject version permanent =>
    obtain ⟨_, _, hreq⟩ := Result.bind_eq_ok.mp hreq
    cases hreq
    exact .inr ⟨subject, version, permanent, rfl, rfl⟩
  | setCompatibility subject level =>
    simp only [requestOf] at hreq
    split at hreq
    · cases hreq
      exact h.elim
    · obtain ⟨_, _, hreq⟩ := Result.bind_eq_ok.mp hreq
      cases hreq
      exact h.elim

section Outcomes

variable (hstatus : ∀ answer, (respond answer).status = answer.status)
include hstatus

theorem outcomeOf_versions {vs : List Int32} (h : Renders serde respond (.versions vs)) :
    outcomeOf serde (respond (.versions vs)) (.deleteSubject subject permanent) =
      .ok (.versions (vs.map SchemaVersion.mk)) := by
  show (handleResponse serde serde.versions _ >>= _) = _
  rw [handleResponse_rendered h (hstatus _) (h.versions vs rfl)]
  rfl

theorem outcomeOf_version {v : Int32} {version : SchemaVersion}
    (h : Renders serde respond (.version v)) :
    outcomeOf serde (respond (.version v)) (.deleteVersion subject version permanent) =
      .ok (.version ⟨v⟩) := by
  show (handleResponse serde serde.version _ >>= _) = _
  rw [handleResponse_rendered h (hstatus _) (h.version v rfl)]
  rfl

theorem outcomeOf_deleteSubject_refused {err : ErrorResponse}
    (h : Renders serde respond (.refused 404 err)) :
    outcomeOf serde (respond (.refused 404 err)) (.deleteSubject subject permanent) =
      .error (.api err.errorCode err.message) := by
  show (handleResponse serde serde.versions _ >>= _) = _
  rw [handleResponse_refused h (hstatus _)]
  rfl

theorem outcomeOf_deleteVersion_refused {err : ErrorResponse} {version : SchemaVersion}
    (h : Renders serde respond (.refused 404 err)) :
    outcomeOf serde (respond (.refused 404 err)) (.deleteVersion subject version permanent) =
      .error (.api err.errorCode err.message) := by
  show (handleResponse serde serde.version _ >>= _) = _
  rw [handleResponse_refused h (hstatus _)]
  rfl

/-- The caller of a lost deletion sees another result. -/
theorem lost_outcome {t : Registry} (hreq : requestOf normalize op = .ok req)
    (h : Deletes registry req) (hfirst : Renders serde respond (registry.apply policy req).1)
    (hlast : Renders serde respond (t.apply policy req).1)
    (hne : (t.apply policy req).1 ≠ (registry.apply policy req).1) :
    outcomeOf serde (respond (t.apply policy req).1) op ≠
      outcomeOf serde (respond (registry.apply policy req).1) op := by
  rcases operation_of_deletes hreq h with ⟨subject, permanent, rfl, rfl⟩ |
    ⟨subject, version, permanent, rfl, rfl⟩
  · obtain ⟨⟨vs, hvs⟩, -⟩ := deleteSubject_deletes h
    unfold Registry.apply at hfirst hlast hne ⊢
    dsimp only at hfirst hlast hne ⊢
    rw [hvs] at hfirst hne ⊢
    rw [outcomeOf_versions hstatus hfirst]
    by_cases hagain : Deletes t (.deleteSubject subject permanent)
    · obtain ⟨⟨ws, hws⟩, -⟩ := deleteSubject_deletes hagain
      rw [hws] at hlast hne ⊢
      rw [outcomeOf_versions hstatus hlast]
      intro heq
      have hmap : ws.map SchemaVersion.mk = vs.map SchemaVersion.mk :=
        Returned.versions.inj (Except.ok.inj heq)
      have hinj : Function.Injective SchemaVersion.mk := fun _ _ h => SchemaVersion.mk.inj h
      exact hne (congrArg Answer.versions (List.map_injective_iff.mpr hinj hmap))
    · obtain ⟨err, hrefused⟩ := deleteSubject_refused hagain
      rw [hrefused] at hlast ⊢
      rw [outcomeOf_deleteSubject_refused hstatus hlast]
      exact fun heq => nomatch heq
  · obtain ⟨v, hv, entry, hmem, hof, hstage⟩ := h
    unfold Registry.apply at hfirst hlast hne ⊢
    dsimp only at hfirst hlast hne ⊢
    rw [deleteVersion_deletes hv ⟨entry, hmem, hof⟩ hstage] at hfirst hne ⊢
    rw [outcomeOf_version hstatus hfirst]
    rcases deleteVersion_cases t subject (versionPathSegment version) permanent with
      ⟨err, hrefused⟩ | ⟨w, -, hw⟩
    · rw [hrefused] at hlast ⊢
      rw [outcomeOf_deleteVersion_refused hstatus hlast]
      exact fun heq => nomatch heq
    · rw [hw] at hlast hne ⊢
      rw [outcomeOf_version hstatus hlast]
      intro heq
      cases heq
      exact hne rfl

end Outcomes

/-! ## Transparency -/

/-- Where nothing is lost there is nothing to tell apart. -/
theorem transparent_iff {losses : Losses Request}
    (hstatus : ∀ answer, (respond answer).status = answer.status)
    (hrenders : ∀ req t, requestOf normalize op = .ok req →
      Repeats (serve policy respond) req registry t →
      Renders serde respond (t.apply policy req).1)
    (hbudget : ∀ req, WithinBudget maxRetries (losses req)) :
    TransparentRetries (serve policy respond) maxRetries op (program serde normalize op) losses
        registry ↔
      ∀ req, requestOf normalize op = .ok req → SomeApplied (losses req) →
        ¬ Deletes registry req := by
  have hanswers : ∀ req t, isRetryableStatus (serve policy respond req t).1.status = false := by
    intro req t
    show isRetryableStatus (respond (t.apply policy req).1).status = false
    rw [hstatus, answer_not_retryable]
  have hlossy := answers_exchange hanswers hbudget
  have hquiet : Program.Answers (serve policy respond) (exchange (serve policy respond) maxRetries)
      Program.quiet := answers_exchange hanswers fun _ => withinBudget_nil
  rw [transparent_iff_perform]
  constructor
  · intro htransparent req hreq hsome hdeletes
    have hperform : ∀ {pattern : Losses Request}, Program.Answers (serve policy respond)
        (exchange (serve policy respond) maxRetries) pattern →
        (perform (serve policy respond) maxRetries (program serde normalize op) pattern
          registry).1 = some (outcomeOf serde (respond ((afterLosses (serve policy respond) req
            (pattern req) registry).apply policy req).1) op) := by
      intro pattern hanswers
      unfold perform program
      rw [hreq]
      dsimp only
      rw [Program.run, hanswers]
      rfl
    have hsame := congrArg Prod.fst htransparent
    rw [hperform hlossy, hperform hquiet] at hsame
    exact lost_outcome hstatus hreq hdeletes (hrenders req registry hreq .here)
      (hrenders req _ hreq repeats_afterLosses) (lost_deletion hdeletes hsome)
      (Option.some.inj hsame)
  · intro hspared
    refine Program.run_eq hlossy hquiet ?_
    unfold program
    cases hreq : requestOf normalize op with
    | error err => exact trivial
    | ok req => exact ⟨fun hsome => repeatable_of_not_deletes (hspared req hreq hsome), trivial⟩

end Schemreg.Confluent
