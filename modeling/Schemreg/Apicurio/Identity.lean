import Schemreg.Apicurio.Deletion
import Schemreg.Apicurio.Pagination

/-
  What the subjects that the client builds say about artifacts.

  Each of the three places that build a subject for an artifact of the server spells it
  `{group}/{artifact}` (`Builds.eq_toSubject`). `from_subject` splits at the first `/`, so the
  artifact comes back exactly if its group has none (`ArtifactId.fromSubject_toSubject`). A group
  with a `/` is read as another artifact, which may exist, and which a deletion then addresses.
-/

namespace Schemreg.Apicurio

open Retry

/-- `delete_artifact`. -/
def deleteArtifact (serde : OperationSerde) (subject : String) : Requests Request :=
  match artifactId subject with
  | .error err => .done (some (.error err))
  | .ok artifact =>
      .send (.deleteArtifact artifact) fun answer =>
        .done (some do
          deleteNoContent serde (← answer)
          return .unit)

/-- The subjects that the client builds for an artifact that the server reports. -/
inductive Builds : ArtifactId → String → Prop where
  /-- `list_subjects`. -/
  | listed (a : SearchedArtifact) : Builds a.id (listedSubject a)
  /-- `version_schema`. -/
  | version {metaData : VersionMetaData} {content : HttpResponse}
      {asked group name subject : String} {schema : Schema} (hgroup : metaData.groupId = some group)
      (hname : metaData.artifactId = some name)
      (hschema : combine metaData content asked = .ok schema)
      (hsubject : schema.subject = some subject) : Builds ⟨group, name⟩ subject
  /-- `lookup_schema_impl`. -/
  | lookup {hit : VersionMetaData} {hits : List VersionMetaData}
      {asked text group name subject : String} {schemaType : SchemaType} {schema : Schema}
      (hgroup : hit.groupId = some group) (hname : hit.artifactId = some name)
      (hschema : schemaOfHit asked text schemaType (hit :: hits) = .ok (some schema))
      (hsubject : schema.subject = some subject) : Builds ⟨group, name⟩ subject

variable {id other : ArtifactId} {subject : String}

/-- What `lookup_schema_impl` takes from a hit. -/
theorem schemaOfHit_parts {hit : VersionMetaData} {hits : List VersionMetaData}
    {asked text : String} {schemaType : SchemaType} {schema : Schema}
    (h : schemaOfHit asked text schemaType (hit :: hits) = .ok (some schema)) :
    schema.subject = some (resolvedSubject hit asked) ∧
      schema.version = hit.version.bind parseVersion := by
  unfold schemaOfHit at h
  dsimp only at h
  split at h
  · obtain ⟨_, _, h⟩ := Result.bind_eq_ok.mp h
    obtain ⟨_, _, h⟩ := Result.bind_eq_ok.mp h
    cases h
    exact ⟨rfl, rfl⟩
  · obtain ⟨_, _, h⟩ := Result.bind_eq_ok.mp h
    obtain ⟨_, _, h⟩ := Result.bind_eq_ok.mp h
    cases h
    exact ⟨rfl, rfl⟩

theorem resolvedSubject_of_reported {metaData : VersionMetaData} {asked group name : String}
    (hgroup : metaData.groupId = some group) (hname : metaData.artifactId = some name) :
    resolvedSubject metaData asked = (⟨group, name⟩ : ArtifactId).toSubject := by
  rw [resolvedSubject, hgroup, hname]
  rfl

/-- The three places spell an artifact in one way. -/
theorem Builds.eq_toSubject (h : Builds id subject) : subject = id.toSubject := by
  cases h with
  | listed a => rfl
  | version hgroup hname hschema hsubject =>
    rw [(combine_ok hschema).2.2.2.2, resolvedSubject_of_reported hgroup hname] at hsubject
    exact (Option.some.inj hsubject).symm
  | lookup hgroup hname hschema hsubject =>
    rw [(schemaOfHit_parts hschema).1, resolvedSubject_of_reported hgroup hname] at hsubject
    exact (Option.some.inj hsubject).symm

theorem builds_toSubject (id : ArtifactId) : Builds id id.toSubject :=
  Builds.listed ⟨id.artifact, some id.group⟩

/-- The subject is one that `artifact_id` takes. -/
def Accepted (subject : String) : Prop := ∃ id, artifactId subject = .ok id

/-- An accepted subject is read as its artifact exactly if the group has no `/`. -/
theorem artifactId_toSubject (h : artifactId id.toSubject = .ok other) :
    other = id ↔ '/' ∉ id.group.toList := by
  rw [fromSubject_of_artifactId h, ArtifactId.fromSubject_toSubject]

theorem deleteArtifact_sends {serde : OperationSerde} {req : Request}
    {next : Except SchemaRegError HttpResponse → Requests Request}
    (h : deleteArtifact serde subject = .send req next) :
    ∃ id, artifactId subject = .ok id ∧ req = .deleteArtifact id := by
  unfold deleteArtifact at h
  split at h
  · cases h
  · rename_i artifact hid
    cases h
    exact ⟨artifact, hid, rfl⟩

/-- Subjects identify the artifacts of a registry. -/
structure Identified (serde : OperationSerde) (Reported : ArtifactId → Prop) : Prop where
  parses : ∀ id, Reported id → ∀ subject, Builds id subject → ∀ other,
    artifactId subject = .ok other → other = id
  distinct : ∀ id other, Reported id → Reported other → ∀ subject, Builds id subject →
    Builds other subject → Accepted subject → id = other
  addressed : ∀ id, Reported id → ∀ subject, Builds id subject → ∀ req next,
    deleteArtifact serde subject = .send req next → req = .deleteArtifact id

/-- Subjects identify the reported artifacts exactly if no group has a `/`, but for the artifacts
    whose subjects are refused anyway. -/
theorem identified_iff (serde : OperationSerde) (Reported : ArtifactId → Prop) :
    Identified serde Reported ↔
      ∀ id, Reported id → Accepted id.toSubject → '/' ∉ id.group.toList := by
  constructor
  · rintro ⟨hparses, -, -⟩ id hid ⟨other, hother⟩
    exact (artifactId_toSubject hother).mp
      (hparses id hid id.toSubject (builds_toSubject id) other hother)
  · intro hgroups
    have hparses : ∀ id, Reported id → ∀ subject, Builds id subject → ∀ other,
        artifactId subject = .ok other → other = id := by
      intro id hid subject hbuilds other hother
      rw [hbuilds.eq_toSubject] at hother
      exact (artifactId_toSubject hother).mpr (hgroups id hid ⟨other, hother⟩)
    refine ⟨hparses, ?_, ?_⟩
    · rintro id other hid hreported subject hbuilds hbuilds' ⟨parsed, hparsed⟩
      rw [← hparses id hid subject hbuilds parsed hparsed,
        ← hparses other hreported subject hbuilds' parsed hparsed]
    · intro id hid subject hbuilds req next hsend
      obtain ⟨parsed, hparsed, rfl⟩ := deleteArtifact_sends hsend
      rw [hparses id hid subject hbuilds parsed hparsed]

/-- The artifact `c` of the group `a/b` is listed as `a/b/c`, which is the artifact `b/c` of the
    group `a`. -/
theorem slash_in_group :
    ¬ ∀ (serde : OperationSerde) (Reported : ArtifactId → Prop),
      (∀ id, Reported id → id.group ≠ "") → Identified serde Reported := by
  intro h
  have hidentified := h ⟨⟨fun _ => .error "", fun _ => none⟩, fun _ => .error "",
    fun _ => .error "", fun _ => .error "", fun _ => .error ""⟩ (fun id => id = ⟨"a/b", "c"⟩)
    (by rintro id rfl; decide)
  have hparsed : artifactId "a/b/c" = .ok ⟨"a", "b/c"⟩ := by decide +kernel
  have hlisted : Builds ⟨"a/b", "c"⟩ "a/b/c" := Builds.listed ⟨"c", some "a/b"⟩
  have heq := hidentified.parses ⟨"a/b", "c"⟩ rfl "a/b/c" hlisted ⟨"a", "b/c"⟩ hparsed
  exact absurd heq (by decide)

end Schemreg.Apicurio
