import Mathlib.Data.List.TakeWhile
import Schemreg.Error

/-
  `src/types.rs`: identifiers, schemas and artifacts.

  `Arc<str>` is a `String`; a GUID is its 16 bytes in wire order.
-/

namespace Schemreg

/-- `SchemaId(u32)`. -/
structure SchemaId where
  asU32 : UInt32
  deriving DecidableEq, Repr

/-- `SchemaGuid(uuid::Uuid)`: the 16 big-endian bytes. -/
structure SchemaGuid where
  asBytes : List UInt8
  length_eq : asBytes.length = 16
  deriving DecidableEq

/-- `SchemaVersion(i32)`. -/
structure SchemaVersion where
  asI32 : Int32
  deriving DecidableEq, Repr

inductive SchemaType where
  | avro
  | protobuf
  | json
  deriving DecidableEq, Repr

/-- `str::eq_ignore_ascii_case`. -/
def eqIgnoreAsciiCase (s t : String) : Bool := s.toList.map Char.toLower = t.toList.map Char.toLower

/-- `FromStr`. -/
def SchemaType.fromStr (s : String) : Result SchemaType :=
  if eqIgnoreAsciiCase s "AVRO" then .ok .avro
  else if eqIgnoreAsciiCase s "PROTOBUF" then .ok .protobuf
  else if eqIgnoreAsciiCase s "JSON" then .ok .json
  else .error (.config ("unknown schema type: '" ++ s ++ "'"))

def SchemaType.asStr : SchemaType → String
  | .avro => "AVRO"
  | .protobuf => "PROTOBUF"
  | .json => "JSON"

/-- `CompatibilityLevel`. -/
inductive CompatibilityLevel where
  | backward
  | backwardTransitive
  | forward
  | forwardTransitive
  | full
  | fullTransitive
  | none
  deriving DecidableEq, Repr

def CompatibilityLevel.asStr : CompatibilityLevel → String
  | .backward => "BACKWARD"
  | .backwardTransitive => "BACKWARD_TRANSITIVE"
  | .forward => "FORWARD"
  | .forwardTransitive => "FORWARD_TRANSITIVE"
  | .full => "FULL"
  | .fullTransitive => "FULL_TRANSITIVE"
  | .none => "NONE"

/-- `SchemaReference`. -/
structure SchemaReference where
  name : String
  subject : String
  version : SchemaVersion
  deriving DecidableEq, Repr

theorem SchemaReference.target_inj {r r' : SchemaReference}
    (h : (r.subject, r.version.asI32) = (r'.subject, r'.version.asI32)) :
    r.subject = r'.subject ∧ r.version = r'.version := by
  obtain ⟨hsubject, hversion⟩ := Prod.mk.inj h
  refine ⟨hsubject, ?_⟩
  cases hr : r.version
  cases hr' : r'.version
  rw [hr, hr'] at hversion
  exact congrArg SchemaVersion.mk hversion

/-- `Schema`. The identifiers, the subject and the version are there when the registry
    reported them. -/
structure Schema where
  id : Option SchemaId
  guid : Option SchemaGuid
  schemaType : SchemaType
  schema : String
  version : Option SchemaVersion
  subject : Option String
  references : List SchemaReference
  deriving DecidableEq

/-- `EncodeTarget`: a record's key or its value. -/
inductive EncodeTarget where
  | key
  | value
  deriving DecidableEq, Repr

/-- `Display`. -/
def EncodeTarget.toString : EncodeTarget → String
  | .key => "key"
  | .value => "value"

namespace SchemaId

/-- `Display`. -/
def toString (id : SchemaId) : String := id.asU32.toNat.repr

end SchemaId

namespace SchemaGuid

def hexByte (b : UInt8) : List Char :=
  [Nat.digitChar (b.toNat / 16), Nat.digitChar (b.toNat % 16)]

/-- `Display`: the canonical hyphenated lowercase form of the UUID. -/
def toString (guid : SchemaGuid) : String :=
  let part (start len : Nat) : List Char := ((guid.asBytes.drop start).take len).flatMap hexByte
  String.ofList (part 0 4 ++ ['-'] ++ part 4 2 ++ ['-'] ++ part 6 2 ++ ['-'] ++ part 8 2 ++ ['-'] ++
    part 10 6)

end SchemaGuid

/-- `ArtifactId`: an artifact of Apicurio's group and artifact address space. -/
structure ArtifactId where
  group : String
  artifact : String
  deriving DecidableEq, Repr

/-- `str::split_once`. -/
def splitOnce (s : String) (separator : Char) : Option (String × String) :=
  match s.toList.dropWhile (· ≠ separator) with
  | [] => none
  | _ :: after =>
      some (String.ofList (s.toList.takeWhile (· ≠ separator)), String.ofList after)

/-- The part before the first separator has none. -/
theorem not_mem_of_splitOnce {s before after : String} {separator : Char}
    (h : splitOnce s separator = some (before, after)) : separator ∉ before.toList := by
  unfold splitOnce at h
  split at h
  · cases h
  · cases h
    rw [String.toList_ofList]
    intro hmem
    exact absurd (List.mem_takeWhile_imp hmem) (by simp)

/-- A text is split where its first part ends, if that part has no separator. -/
theorem splitOnce_append {s before after : String} {separator : Char}
    (hs : s.toList = before.toList ++ separator :: after.toList)
    (h : separator ∉ before.toList) : splitOnce s separator = some (before, after) := by
  have hall : ∀ c ∈ before.toList, (decide (c ≠ separator)) = true := by
    intro c hc
    have hne : c ≠ separator := fun heq => h (heq ▸ hc)
    simpa using hne
  unfold splitOnce
  rw [hs, List.dropWhile_append_of_pos hall, List.takeWhile_append_of_pos hall]
  simp

theorem splitOnce_eq_some {s : String} {separator : Char} (h : separator ∈ s.toList) :
    ∃ before after, splitOnce s separator = some (before, after) ∧
      s.toList = before.toList ++ separator :: after.toList := by
  have hsplit := List.takeWhile_append_dropWhile (p := fun c => decide (c ≠ separator))
    (l := s.toList)
  unfold splitOnce
  cases hdrop : s.toList.dropWhile (· ≠ separator) with
  | nil =>
    rw [List.dropWhile_eq_nil_iff] at hdrop
    have := hdrop separator h
    simp at this
  | cons c after =>
    have hc : c = separator := by
      have hhead := List.head?_dropWhile_not (fun c => decide (c ≠ separator)) s.toList
      rw [hdrop] at hhead
      simpa using hhead
    rw [hdrop, hc] at hsplit
    exact ⟨_, _, rfl, by rw [String.toList_ofList, String.toList_ofList]; exact hsplit.symm⟩

namespace ArtifactId

/-- `default_group`. -/
def defaultGroup (artifact : String) : ArtifactId := ⟨"default", artifact⟩

def fromSubject (subject : String) : ArtifactId :=
  match splitOnce subject '/' with
  | some (group, artifact) => ⟨group, artifact⟩
  | none => defaultGroup subject

def toSubject (id : ArtifactId) : String := id.group ++ "/" ++ id.artifact

/-- A subject that names its group is spelled the same from its parts. -/
theorem toSubject_fromSubject {subject : String} (h : '/' ∈ subject.toList) :
    (fromSubject subject).toSubject = subject := by
  obtain ⟨group, artifact, hsplit, hlist⟩ := splitOnce_eq_some h
  unfold fromSubject toSubject
  rw [hsplit, ← String.toList_inj, hlist]
  simp [String.toList_append]

/-- An artifact's subject is read as the artifact exactly if its group has no separator. -/
theorem fromSubject_toSubject {id : ArtifactId} :
    fromSubject id.toSubject = id ↔ '/' ∉ id.group.toList := by
  have hlist : id.toSubject.toList = id.group.toList ++ '/' :: id.artifact.toList := by
    simp [toSubject, String.toList_append]
  constructor
  · intro h
    obtain ⟨before, after, hsplit, -⟩ := splitOnce_eq_some
      (by rw [hlist]; simp : '/' ∈ id.toSubject.toList)
    unfold fromSubject at h
    rw [hsplit] at h
    rw [← h]
    exact not_mem_of_splitOnce hsplit
  · intro h
    unfold fromSubject
    rw [splitOnce_append hlist h]

/-- Whatever an artifact's subject is, it names the group. -/
theorem slash_mem_toSubject (id : ArtifactId) : '/' ∈ id.toSubject.toList := by
  simp [toSubject, String.toList_append]

end ArtifactId

end Schemreg
