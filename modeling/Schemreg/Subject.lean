import Schemreg.Types

/-
  `src/subject.rs`: the subject of a record.

  A custom strategy is the function that it wraps; two of them are never compared.
-/

namespace Schemreg

/-- `SubjectNameStrategy`. -/
inductive SubjectNameStrategy where
  | topicName
  | recordName
  | topicRecordName
  | apicurioGroupRecordName (groupId : String)
  | custom (f : String → Option String → EncodeTarget → Result String)

namespace SubjectNameStrategy

/-- The record name, for a strategy that needs one. -/
def requireName (strategy : String) : Option String → Result String
  | some name => .ok name
  | none => .error (.config (strategy ++ " strategy requires a record name"))

def subjectName (strategy : SubjectNameStrategy) (topic : String) (recordName : Option String)
    (target : EncodeTarget) : Result String :=
  match strategy with
  | .topicName => .ok (topic ++ "-" ++ target.toString)
  | .recordName => requireName "RecordName" recordName
  | .topicRecordName => do
      let name ← requireName "TopicRecordName" recordName
      .ok (topic ++ "-" ++ name)
  | .apicurioGroupRecordName groupId => do
      let name ← requireName "ApicurioGroupRecordName" recordName
      .ok (groupId ++ "/" ++ name)
  | .custom f => f topic recordName target

end SubjectNameStrategy

end Schemreg
