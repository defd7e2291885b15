import Schemreg.Apicurio.Model
import Schemreg.Http.PathSegment

/-
  Apicurio spells a subject as two path segments, the group and the artifact. `artifact_id`
  validates each on its own after the split, so each stays in its segment.
-/

namespace Schemreg.Apicurio

theorem artifactId_components {subject : String} {id : ArtifactId}
    (h : artifactId subject = .ok id) : (id.group ≠ "" ∧ validateSubject id.group = .ok ()) ∧
      id.artifact ≠ "" ∧ validateSubject id.artifact = .ok () := by
  unfold artifactId at h
  obtain ⟨_, _, h⟩ := Result.bind_eq_ok.mp h
  dsimp only at h
  split at h
  · cases h
  · rename_i hempty
    obtain ⟨_, hgroup, h⟩ := Result.bind_eq_ok.mp h
    obtain ⟨_, hartifact, h⟩ := Result.bind_eq_ok.mp h
    obtain rfl := Except.ok.inj h
    simp only [Bool.or_eq_true, String.isEmpty_iff, not_or] at hempty
    exact ⟨⟨hempty.1, hgroup⟩, hempty.2, hartifact⟩

/-- No accepted subject leaves its path segment, and no component of an accepted Apicurio
    subject does. -/
theorem subjects_stay :
    (∀ subject, validateSubject subject = .ok () → StaysInSegment subject) ∧
    ∀ subject id, artifactId subject = .ok id →
      (id.group ≠ "" ∧ StaysInSegment id.group) ∧
        id.artifact ≠ "" ∧ StaysInSegment id.artifact := by
  constructor
  · exact fun subject => validateSubject_stays
  · intro subject id h
    obtain ⟨⟨hgroup, hvalidGroup⟩, hartifact, hvalidArtifact⟩ := artifactId_components h
    exact ⟨⟨hgroup, validateSubject_stays hvalidGroup⟩, hartifact,
      validateSubject_stays hvalidArtifact⟩

/-- An escaped dot in a name, and a slash after the group. -/
theorem escaped_dots_stay :
    StaysInSegment "com%2eexample" ∧ StaysInSegment "billing" ∧ StaysInSegment "v1/com%2eexample" := by
  have hid : artifactId "billing/v1/com%2eexample" = .ok ⟨"billing", "v1/com%2eexample"⟩ := by
    decide +kernel
  obtain ⟨⟨-, hgroup⟩, -, hartifact⟩ := subjects_stay.2 _ _ hid
  exact ⟨subjects_stay.1 "com%2eexample" (by decide +kernel), hgroup, hartifact⟩

end Schemreg.Apicurio
