import Schemreg.Http
import Schemreg.RetryPolicy

/-
  Which attempts `request` follows with another one.

  The loop goes on after every error, transient or not (`Retried`). What is permanent comes out
  of `request_once` as an error that `is_retryable` calls permanent: a method that is none, a
  request body or a response over its limit (`permanent_iff`). So the loop tells transient from
  permanent outcomes exactly in the runs that meet no such attempt while retries are left
  (`retries_exactly_transient_iff`).

  An attempt is what the transport does in it (`Transport`). Which methods there are is decided
  by another crate: `validMethod` is whether `Method::from_bytes` accepts.
-/

namespace Schemreg.HttpClient

/-- Hard cap on response body size (16 MiB). -/
def maxBodyBytes : Nat := 16 * 1024 * 1024

/-- Hard cap on request body size (4 MiB). -/
def maxRequestBodyBytes : Nat := 4 * 1024 * 1024

/-- What the transport does with a request that is sent: it fails, or there is a response, whose
    body arrives in chunks until it ends or breaks off. -/
inductive Transport where
  | failed (source : String)
  | answered (status : UInt16) (headers : List (String × String)) (contentLength : Option UInt64)
      (chunks : List (List UInt8)) (broken : Option String)
  deriving DecidableEq

/-- The loop that reads a response body. -/
def readBody (broken : Option String) : List (List UInt8) → List UInt8 → Nat → Result (List UInt8)
  | [], buf, _ =>
    match broken with
    | some source => .error (.network source)
    | none => .ok buf
  | bytes :: chunks, buf, total =>
    let total := total + bytes.length
    if total > maxBodyBytes then
      .error (.invalidState ("response body exceeds the " ++ maxBodyBytes.repr ++ "-byte limit"))
    else readBody broken chunks (buf ++ bytes) total

section

variable (validMethod : String → Bool) (method : String) (body : Option (List UInt8))

/-- A body that is over the limit. -/
def requestBodyTooLong : Bool :=
  match body with
  | some b => b.length > maxRequestBodyBytes
  | none => false

/-- `request_once`. -/
def requestOnce (transport : Transport) : Result HttpResponse :=
  if !validMethod method then .error (.config ("invalid HTTP method: " ++ method))
  else if requestBodyTooLong body then
    .error (.config ("request body (" ++ (body.getD []).length.repr ++ " bytes) exceeds the " ++
      maxRequestBodyBytes.repr ++ "-byte limit"))
  else
    match transport with
    | .failed source => .error (.network source)
    | .answered status headers contentLength chunks broken =>
      match contentLength.filter fun len => len.toNat > maxBodyBytes with
      | some len => .error (.invalidState ("response Content-Length (" ++ len.toNat.repr ++
          " bytes) exceeds the " ++ maxBodyBytes.repr ++ "-byte limit"))
      | none => do
        let buf ← readBody broken chunks [] 0
        return ⟨status, headers, buf⟩

/-- The outcomes of an attempt that `is_retryable` and the retryable statuses call transient. -/
def Transient : Result HttpResponse → Prop
  | .ok resp => isRetryableStatus resp.status = true
  | .error e => e.isRetryable = true

/-- The outcomes that the loop goes on after. -/
def Retried : Result HttpResponse → Prop
  | .ok resp => isRetryableStatus resp.status = true
  | .error _ => True

/-- A response whose length, declared or read, is over the limit. -/
def Transport.TooLong : Transport → Prop
  | .failed _ => False
  | .answered _ _ contentLength chunks _ =>
    (∃ len, contentLength = some len ∧ maxBodyBytes < len.toNat) ∨
      maxBodyBytes < chunks.flatten.length

/-- The attempt fails for good. -/
def Permanent (transport : Transport) : Prop :=
  validMethod method = false ∨ requestBodyTooLong body = true ∨ transport.TooLong

/-- The attempts of one request, one after another: the state counts those that were made. -/
def attempts (transport : Nat → Transport) (made : Nat) : Result HttpResponse × Nat :=
  (requestOnce validMethod method body (transport made), made + 1)

end

variable {validMethod : String → Bool} {method : String} {body : Option (List UInt8)}
  {transport : Nat → Transport} {outcome : Nat → Result HttpResponse} {broken : Option String}

theorem Transient.retried {x : Result HttpResponse} (h : Transient x) : Retried x := by
  cases x with
  | ok resp => exact h
  | error e => trivial

/-- A retried outcome that is not transient is an error that is not retryable. -/
theorem retried_not_transient {x : Result HttpResponse} :
    Retried x ∧ ¬ Transient x ↔ ∃ e, x = .error e ∧ e.isRetryable = false := by
  cases x with
  | ok resp =>
    constructor
    · rintro ⟨hretried, hnot⟩
      exact absurd hretried hnot
    · rintro ⟨e, he, -⟩
      cases he
  | error e =>
    constructor
    · rintro ⟨-, hnot⟩
      exact ⟨e, rfl, by simpa [Transient] using hnot⟩
    · rintro ⟨e', he, hperm⟩
      cases he
      exact ⟨trivial, by simp [Transient, hperm]⟩

/-! ## One attempt -/

/-- A body is refused once what was read is over the limit. Other than that it is read, or the
    network fails. -/
theorem readBody_cases (chunks : List (List UInt8)) (buf : List UInt8) (total : Nat)
    (h : total ≤ maxBodyBytes) :
    (maxBodyBytes < total + chunks.flatten.length →
      ∃ text, readBody broken chunks buf total = .error (.invalidState text)) ∧
    (total + chunks.flatten.length ≤ maxBodyBytes →
      (∃ source, readBody broken chunks buf total = .error (.network source)) ∨
        ∃ bytes, readBody broken chunks buf total = .ok bytes) := by
  induction chunks generalizing buf total with
  | nil =>
    constructor
    · intro hlong
      simp only [List.flatten_nil, List.length_nil] at hlong
      omega
    · intro _
      unfold readBody
      cases broken with
      | some source => exact Or.inl ⟨source, rfl⟩
      | none => exact Or.inr ⟨buf, rfl⟩
  | cons bytes chunks ih =>
    rw [List.flatten_cons, List.length_append, readBody]
    by_cases hover : total + bytes.length > maxBodyBytes
    · rw [if_pos hover]
      exact ⟨fun _ => ⟨_, rfl⟩, fun hle => by omega⟩
    · rw [if_neg hover]
      obtain ⟨hlong, hshort⟩ := ih (buf ++ bytes) (total + bytes.length) (by omega)
      exact ⟨fun hgt => hlong (by omega), fun hle => hshort (by omega)⟩

/-- What comes of an answered request. -/
theorem answered_permanent (status : UInt16) (headers : List (String × String))
    (contentLength : Option UInt64) (chunks : List (List UInt8)) (broken : Option String) :
    (∃ e, requestOnce (fun _ => true) method none
        (.answered status headers contentLength chunks broken) = .error e ∧
      e.isRetryable = false) ↔
      (Transport.answered status headers contentLength chunks broken).TooLong := by
  obtain ⟨hlong, hshort⟩ := @readBody_cases broken chunks [] 0 (Nat.zero_le _)
  rw [Nat.zero_add] at hlong hshort
  unfold requestOnce Transport.TooLong
  dsimp only
  rw [if_neg (by decide), if_neg (by decide)]
  cases hlen : contentLength.filter fun len => len.toNat > maxBodyBytes with
  | some len =>
    obtain ⟨rfl, hover⟩ : contentLength = some len ∧ maxBodyBytes < len.toNat := by
      simpa [Option.filter_eq_some_iff] using hlen
    exact ⟨fun _ => Or.inl ⟨len, rfl, hover⟩, fun _ => ⟨_, rfl, rfl⟩⟩
  | none =>
    have hdeclared : ¬ ∃ len, contentLength = some len ∧ maxBodyBytes < len.toNat := by
      rintro ⟨len, rfl, hover⟩
      simp [Option.filter, hover] at hlen
    dsimp only
    by_cases hread : maxBodyBytes < chunks.flatten.length
    · obtain ⟨text, htext⟩ := hlong hread
      rw [htext]
      exact ⟨fun _ => Or.inr hread, fun _ => ⟨_, rfl, rfl⟩⟩
    · refine ⟨?_, fun h => absurd h (not_or.mpr ⟨hdeclared, hread⟩)⟩
      rintro ⟨e, he, hperm⟩
      obtain ⟨source, hsource⟩ | ⟨bytes, hbytes⟩ := hshort (Nat.not_lt.mp hread)
      · rw [hsource] at he
        cases he
        cases hperm
      · rw [hbytes] at he
        cases he

/-- A request that is not sent is a permanent failure. -/
theorem requestOnce_unsent (t : Transport)
    (h : validMethod method = false ∨ requestBodyTooLong body = true) :
    ∃ text, requestOnce validMethod method body t = .error (.config text) := by
  unfold requestOnce
  cases hmethod : validMethod method with
  | false => exact ⟨_, rfl⟩
  | true =>
    rw [hmethod] at h
    rw [h.resolve_left (by decide)]
    exact ⟨_, rfl⟩

/-- The errors of an attempt that are not retryable are the permanent failures. -/
theorem permanent_iff (t : Transport) :
    (∃ e, requestOnce validMethod method body t = .error e ∧ e.isRetryable = false) ↔
      Permanent validMethod method body t := by
  by_cases hunsent : validMethod method = false ∨ requestBodyTooLong body = true
  · obtain ⟨text, htext⟩ := @requestOnce_unsent validMethod method body t hunsent
    exact ⟨fun _ => hunsent.elim Or.inl fun h => Or.inr (Or.inl h), fun _ => ⟨_, htext, rfl⟩⟩
  · obtain ⟨hmethod, hbody⟩ := not_or.mp hunsent
    have hsent : requestOnce validMethod method body t =
        requestOnce (fun _ => true) method none t := by
      unfold requestOnce
      rw [Bool.eq_true_of_not_eq_false hmethod, Bool.eq_false_of_not_eq_true hbody]
      rfl
    have hpermanent : Permanent validMethod method body t ↔ t.TooLong :=
      ⟨fun h => (h.resolve_left hmethod).resolve_left hbody, fun h => Or.inr (Or.inr h)⟩
    rw [hsent, hpermanent]
    cases t with
    | failed source =>
      constructor
      · rintro ⟨e, he, hperm⟩
        cases he
        cases hperm
      · exact fun h => h.elim
    | answered status headers contentLength chunks broken => exact answered_permanent ..

/-! ## The loop -/

/-- The loop ends at the first outcome that is not retried, or at the last attempt. The
    induction is on the retries that are left. -/
theorem request_run (outcome : Nat → Result HttpResponse) (retries n : Nat) :
    ∃ k, k ≤ retries ∧
      request (fun made => (outcome made, made + 1)) retries n = (outcome (n + k), n + k + 1) ∧
      (∀ i, i < k → Retried (outcome (n + i))) ∧ (k < retries → ¬ Retried (outcome (n + k))) := by
  induction retries generalizing n with
  | zero => exact ⟨0, Nat.le_refl 0, rfl, fun i h => by omega, fun h => by omega⟩
  | succ retries ih =>
    have hagain : Retried (outcome n) →
        request (fun made => (outcome made, made + 1)) (retries + 1) n =
          request (fun made => (outcome made, made + 1)) retries (n + 1) := by
      intro h
      rw [request]
      cases hx : outcome n with
      | ok resp =>
        rw [hx] at h
        exact if_pos h
      | error e => rfl
    by_cases hretried : Retried (outcome n)
    · obtain ⟨k, hk, hrun, hbefore, hlast⟩ := ih (n + 1)
      have hadd : ∀ i, n + 1 + i = n + (i + 1) := fun i => by omega
      rw [hagain hretried]
      rw [hadd] at hrun hlast
      refine ⟨k + 1, by omega, hrun, ?_, fun h => hlast (by omega)⟩
      intro i hi
      cases i with
      | zero => exact hretried
      | succ i =>
        rw [← hadd]
        exact hbefore i (by omega)
    · refine ⟨0, Nat.zero_le _, ?_, fun i h => by omega, fun _ => hretried⟩
      rw [request]
      cases hx : outcome n with
      | ok resp =>
        rw [hx] at hretried
        exact if_neg hretried
      | error e =>
        rw [hx] at hretried
        exact absurd trivial hretried

/-- Another attempt follows an outcome exactly if it is transient and retries are left, and the
    last outcome is returned. -/
def RetriesExactlyTransient (policy : RetryPolicy) (outcome : Nat → Result HttpResponse)
    (run : Result HttpResponse × Nat) : Prop :=
  ∃ k, k ≤ policy.maxRetries.toNat ∧ run = (outcome k, k + 1) ∧
    (∀ i, i < k → Transient (outcome i)) ∧
    (k < policy.maxRetries.toNat → ¬ Transient (outcome k))

/-- The loop does so exactly in the runs that meet no permanent failure while retries are left. -/
theorem retries_exactly_transient_iff (validMethod : String → Bool) (method : String)
    (body : Option (List UInt8)) (policy : RetryPolicy) (transport : Nat → Transport) :
    RetriesExactlyTransient policy (fun i => requestOnce validMethod method body (transport i))
        (request (attempts validMethod method body transport) policy.maxRetries.toNat 0) ↔
      ∀ i, i < policy.maxRetries.toNat →
        (∀ j, j < i → Transient (requestOnce validMethod method body (transport j))) →
        ¬ Permanent validMethod method body (transport i) := by
  have hperm : ∀ i, Permanent validMethod method body (transport i) ↔
      Retried (requestOnce validMethod method body (transport i)) ∧
        ¬ Transient (requestOnce validMethod method body (transport i)) := fun i => by
    rw [retried_not_transient, permanent_iff]
  obtain ⟨k, hk, hrun, hbefore, hlast⟩ := request_run
    (fun i => requestOnce validMethod method body (transport i)) policy.maxRetries.toNat 0
  simp only [Nat.zero_add] at hrun hbefore hlast
  have hrun' : request (attempts validMethod method body transport) policy.maxRetries.toNat 0 =
      (requestOnce validMethod method body (transport k), k + 1) := hrun
  rw [hrun']
  constructor
  · rintro ⟨k', -, hpair, htransient, -⟩ i hi hall hpermanent
    obtain rfl : k = k' := Nat.succ.inj (congrArg Prod.snd hpair)
    obtain ⟨hretried, hnot⟩ := (hperm i).mp hpermanent
    rcases Nat.lt_trichotomy i k with hlt | rfl | hgt
    · exact hnot (htransient i hlt)
    · exact hlast hi hretried
    · exact hlast (by omega) (hall k hgt).retried
  · intro hno
    have htransient : ∀ i, i < k →
        Transient (requestOnce validMethod method body (transport i)) := by
      intro i
      induction i using Nat.strong_induction_on with
      | _ i ih =>
        intro hi
        refine not_not.mp fun hnot => hno i (by omega) (fun j hj => ih j hj (by omega)) ?_
        exact (hperm i).mpr ⟨hbefore i hi, hnot⟩
    exact ⟨k, hk, rfl, htransient, fun hlt h => hlast hlt h.retried⟩

/-- A server whose responses declare one byte more than the limit is asked four times. -/
theorem oversized_response_retried :
    ¬ ∀ (validMethod : String → Bool) (method : String) (body : Option (List UInt8))
      (policy : RetryPolicy) (transport : Nat → Transport),
      RetriesExactlyTransient policy (fun i => requestOnce validMethod method body (transport i))
        (request (attempts validMethod method body transport) policy.maxRetries.toNat 0) := by
  intro h
  obtain ⟨k, -, hrun, htransient, -⟩ := h (fun m => m = "GET") "GET" none .new
    (fun _ => .answered 200 [] (some 16777217) [] none)
  have hfour : k + 1 = 4 := (congrArg Prod.snd hrun).symm
  have hfirst := htransient 0 (by omega)
  cases hfirst

end Schemreg.HttpClient
