/-
  `src/error.rs`: the crate's error type.

  The source error of a transport failure is kept as its rendered text, which is all the
  modelled code can observe of it. Status codes are natural numbers below `2^16`, error
  codes are the `i32` of the registry's JSON error body.
-/

namespace Schemreg

/-- `SchemaRegError`. -/
inductive SchemaRegError where
  | network (source : String)
  | auth (status : UInt16) (message : String)
  | api (errorCode : Int32) (message : String)
  | http (status : UInt16) (message : String)
  | config (message : String)
  | wireFormat (message : String)
  | invalidState (message : String)
  | notSupported (message : String)
  deriving DecidableEq, Repr

/-! ## Error codes -/

namespace ErrorCode

def subjectNotFound : Int32 := 40401

def versionNotFound : Int32 := 40402

def schemaNotFound : Int32 := 40403

def subjectSoftDeleted : Int32 := 40404

def subjectNotSoftDeleted : Int32 := 40405

def versionSoftDeleted : Int32 := 40406

def versionNotSoftDeleted : Int32 := 40407

/-- `SERVER_ERROR_RANGE.contains`. -/
def inServerErrorRange (code : Int32) : Bool := 50000 ≤ code && code ≤ 50999

end ErrorCode

namespace SchemaRegError

/-- The subject, version, or schema does not exist. -/
def isNotFound : SchemaRegError → Bool
  | api code _ => code = ErrorCode.subjectNotFound || code = ErrorCode.versionNotFound ||
      code = ErrorCode.schemaNotFound
  | http status _ => status = 404
  | _ => false

/-- The error is likely transient and safe to retry. -/
def isRetryable : SchemaRegError → Bool
  | network _ => true
  | http status _ => status = 429 || (500 ≤ status && status < 600)
  | api code _ => ErrorCode.inServerErrorRange code
  | _ => false

/-- `Display`. -/
def toString : SchemaRegError → String
  | network source => "network error: " ++ source
  | auth status message => "authentication error: HTTP " ++ status.toNat.repr ++ " — " ++ message
  | api errorCode message => "registry API error " ++ errorCode.toInt.repr ++ ": " ++ message
  | http _ message => "HTTP error: " ++ message
  | config message => "configuration error: " ++ message
  | wireFormat message => "wire format error: " ++ message
  | invalidState message => "invalid state: " ++ message
  | notSupported message => "not supported: " ++ message

end SchemaRegError

/-- The crate's `Result` alias. -/
abbrev Result (α : Type) := Except SchemaRegError α

theorem Result.bind_eq_ok {α β : Type} {x : Result α} {f : α → Result β} {b : β} :
    x >>= f = .ok b ↔ ∃ a, x = .ok a ∧ f a = .ok b := by
  constructor
  · intro h
    cases x with
    | ok a => exact ⟨a, rfl, h⟩
    | error err => cases h
  · rintro ⟨a, rfl, h⟩
    exact h

end Schemreg
