import Schemreg.Confluent.Model

/-
  Whether the error of a response is retryable.

  The retry loop looks at the status. `is_retryable` looks at the error that `response_error`
  makes of the response, and there the status is gone as soon as the body is a JSON error
  body: what counts is its error code.

  Proved:
  * `retryability_iff`: the two agree on a response exactly when its body is not a JSON error
    body, or has a server-side error code just when the status is transient.
  * `throttled_with_json_body`: they need not agree.
-/

namespace Schemreg.Confluent

variable {serde : Serde} {status : UInt16} {body : List UInt8}

/-- The statuses of transient failures: 429, and 500 to 599. -/
def Transient (status : UInt16) : Prop := status = 429 ∨ (500 ≤ status ∧ status ≤ 599)

theorem isRetryableStatus_iff : isRetryableStatus status = true ↔ Transient status := by
  have hbound : status < 600 ↔ status ≤ 599 := by
    rw [UInt16.lt_iff_toNat_lt, UInt16.le_iff_toNat_le]
    exact Nat.lt_succ_iff
  simp [isRetryableStatus, Transient, hbound]

theorem isRetryable_http {message : String} :
    (SchemaRegError.http status message).isRetryable = true ↔ Transient status :=
  isRetryableStatus_iff

/-- What `response_error` makes of a response that is not about credentials. -/
theorem responseError_cases (serde : Serde) (body : List UInt8)
    (notAuth : status ≠ 401 ∧ status ≠ 403) :
    (∃ err, serde.errorResponse body = some err ∧
      responseError serde status body = .api err.errorCode err.message) ∨
    (serde.errorResponse body = none ∧
      ∃ message, responseError serde status body = .http status message) := by
  have hauth : ¬ (status = 401 ∨ status = 403) := by
    rintro (h | h)
    · exact notAuth.1 h
    · exact notAuth.2 h
  unfold responseError
  rw [if_neg hauth]
  cases hbody : serde.errorResponse body with
  | some err => exact Or.inl ⟨err, rfl, rfl⟩
  | none => exact Or.inr ⟨rfl, _, rfl⟩

/-- When the error of a response is retryable just when the retry loop would have retried
    it. -/
theorem retryability_iff (serde : Serde) (status : UInt16) (body : List UInt8)
    (notAuth : status ≠ 401 ∧ status ≠ 403) :
    (((responseError serde status body).isRetryable = true ↔ Transient status) ∧
      (isRetryableStatus status = true ↔ Transient status)) ↔
    ∀ err, serde.errorResponse body = some err →
      (ErrorCode.inServerErrorRange err.errorCode = true ↔ Transient status) := by
  rw [and_iff_left isRetryableStatus_iff]
  rcases responseError_cases serde body notAuth with
    ⟨err, hbody, herr⟩ | ⟨hbody, message, herr⟩
  · rw [herr, hbody]
    constructor
    · intro h other hother
      rw [← Option.some.inj hother]
      exact h
    · intro h
      exact h err rfl
  · rw [herr, hbody]
    constructor
    · intro _ err herr
      cases herr
    · intro _
      exact isRetryable_http

/-! ## Two JSON error bodies -/

/-- The JSON text of a failed store. -/
def storeFailedBody : List UInt8 :=
  Utf8.toUtf8 "\x7b\"error_code\":50001,\"message\":\"Error in the backend data store\"\x7d"

/-- The JSON text of a rate limit. -/
def throttledBody : List UInt8 :=
  Utf8.toUtf8 "\x7b\"error_code\":42901,\"message\":\"Too many requests\"\x7d"

/-- A decoder that reads these two bodies. -/
def twoBodies : Serde where
  errorResponse body :=
    if body = storeFailedBody then some ⟨50001, "Error in the backend data store"⟩
    else if body = throttledBody then some ⟨42901, "Too many requests"⟩
    else none
  registerSchemaResponse _ := .error "expected value"
  schemaBySubjectResponse _ := .error "expected value"
  versions _ := .error "expected value"
  version _ := .error "expected value"

/-- A 500 with a server-side error code is retryable. -/
theorem store_failure_is_retryable :
    ((responseError twoBodies 500 storeFailedBody).isRetryable = true ↔ Transient 500) ∧
      (isRetryableStatus 500 = true ↔ Transient 500) := by
  refine (retryability_iff twoBodies 500 storeFailedBody (by decide)).mpr ?_
  intro err herr
  obtain rfl : (⟨50001, "Error in the backend data store"⟩ : ErrorResponse) = err :=
    Option.some.inj herr
  exact ⟨fun _ => Or.inr (by decide), fun _ => by decide⟩

/-- A 429 with a JSON error body is retried by the loop, and its error is not retryable. -/
theorem throttled_with_json_body :
    ¬ ∀ (serde : Serde) (status : UInt16) (body : List UInt8), isSuccess status = false →
      status ≠ 401 ∧ status ≠ 403 →
      ((responseError serde status body).isRetryable = true ↔ Transient status) ∧
        (isRetryableStatus status = true ↔ Transient status) := by
  intro h
  have hthrottled : (responseError twoBodies 429 throttledBody).isRetryable = false := by
    decide +kernel
  have hlaw := (h twoBodies 429 throttledBody rfl (by decide)).1.mpr (Or.inl rfl)
  rw [hthrottled] at hlaw
  cases hlaw

end Schemreg.Confluent
