import Mathlib.Algebra.Order.BigOperators.Group.List
import Schemreg.Http.Attempts
import Schemreg.Http.RetryAfter
import Schemreg.Lib.Run
import Schemreg.Lib.Semaphore

/-
  `src/http.rs`: `HttpClient::request` as many requests at a time make it.

  A request asks for a permit where a ceiling was configured, and then alternates between
  attempts and sleeps until an outcome is returned. Every place where it waits (for the permit,
  for the transport, for its timer) is a step of its own, and the future of the request can be
  dropped at each of them, which gives the permit back. `Event.outcome` carries what
  `request_once` returned, the clock and the random draw.

  * `in_flight_within_ceiling`: the requests that are between their first attempt and their
    end, sleeping ones included, are never more than the ceiling; no permit gets lost, whoever
    is dropped; and a request waits for a permit only while all of them are taken.
  * `interleaved_request_is_the_loop`: what else goes on at the client makes no difference to a
    request. It returns what the retry loop makes of its own outcomes, and it has slept what the
    policy says, which is bounded.

  The semaphore is `tokio::sync::Semaphore`, which is documented to be fair. `log` records the
  outcomes of each request and the delays after them; it is a ghost.
-/

namespace Schemreg.HttpClient

open Checked Permits Transition

abbrev RequestId := Nat

/-- Where a request stands between two of its steps. -/
inductive Phase where
  | idle
  | queued
  | attempting (attempt : UInt32)
  | sleeping (attempt : UInt32) (delay : Duration)
  | returned (result : Result HttpResponse)
  | dropped

/-- An outcome, and the delay that another attempt waited for after it. -/
structure Attempt where
  outcome : Result HttpResponse
  delay : Option Duration

/-- The permits, where there are any, and the requests in progress. -/
structure State where
  concurrency : Option (Semaphore RequestId)
  calls : RequestId → Phase
  log : RequestId → List Attempt

inductive Event where
  | request (c : RequestId)
  | acquire (c : RequestId)
  | outcome (c : RequestId) (result : Result HttpResponse) (now : Int64) (draw : UInt64)
  | wake (c : RequestId)
  | drop (c : RequestId)

/-- `retry_after_ms` of a response. -/
def retryAfterMs (now : Int64) (resp : HttpResponse) : Option UInt64 :=
  if isRetryableStatus resp.status then
    (resp.header "retry-after").bind fun value =>
      match RetryAfter.parseRetryAfterMs now value with
      | .ok ms => some ms
      | _ => none
  else none

/-- The delay before the next attempt, or `none` where the outcome is returned. -/
def delayAfter (policy : RetryPolicy) (now : Int64) (draw : UInt64) (attempt : UInt32) :
    Result HttpResponse → Outcome Empty (Option Duration)
  | .ok resp =>
      if isRetryableStatus resp.status && attempt < policy.maxRetries then do
        let delay ← policy.delayFor draw attempt (retryAfterMs now resp)
        return some delay
      else .ok none
  | .error _ =>
      if attempt < policy.maxRetries then do
        let delay ← policy.delayFor draw attempt none
        return some delay
      else .ok none

namespace State

/-- `with_config`: a ceiling of 0 is none. -/
def init (maxConcurrentRequests : Option Nat) : State :=
  ⟨(maxConcurrentRequests.filter fun n => n > 0).map Semaphore.new, fun _ => .idle, fun _ => []⟩

variable (s : State)

/-- Move request `c` to a phase. -/
def goto (c : RequestId) (phase : Phase) : State :=
  { s with calls := Function.update s.calls c phase }

def withConcurrency (concurrency : Option (Semaphore RequestId)) : State :=
  { s with concurrency := concurrency }

/-- Record an attempt of request `c`. -/
def record (c : RequestId) (attempt : Attempt) : State :=
  { s with log := Function.update s.log c (s.log c ++ [attempt]) }

/-- The permit of a request goes out of scope. -/
def giveBack : State := s.withConcurrency (s.concurrency.map Semaphore.release)

@[simp] theorem goto_concurrency (c : RequestId) (phase : Phase) :
    (s.goto c phase).concurrency = s.concurrency := rfl
@[simp] theorem goto_log (c : RequestId) (phase : Phase) : (s.goto c phase).log = s.log := rfl
@[simp] theorem goto_calls (c d : RequestId) (phase : Phase) :
    (s.goto c phase).calls d = if d = c then phase else s.calls d := by
  simp [goto, Function.update_apply]

@[simp] theorem withConcurrency_concurrency (concurrency : Option (Semaphore RequestId)) :
    (s.withConcurrency concurrency).concurrency = concurrency := rfl
@[simp] theorem withConcurrency_log (concurrency : Option (Semaphore RequestId)) :
    (s.withConcurrency concurrency).log = s.log := rfl
@[simp] theorem withConcurrency_calls (concurrency : Option (Semaphore RequestId)) :
    (s.withConcurrency concurrency).calls = s.calls := rfl

@[simp] theorem record_concurrency (c : RequestId) (attempt : Attempt) :
    (s.record c attempt).concurrency = s.concurrency := rfl
@[simp] theorem record_calls (c : RequestId) (attempt : Attempt) :
    (s.record c attempt).calls = s.calls := rfl
@[simp] theorem record_log (c d : RequestId) (attempt : Attempt) :
    (s.record c attempt).log d = if d = c then s.log c ++ [attempt] else s.log d := by
  simp [record, Function.update_apply]

@[simp] theorem giveBack_concurrency :
    s.giveBack.concurrency = s.concurrency.map Semaphore.release := rfl
@[simp] theorem giveBack_log : s.giveBack.log = s.log := rfl
@[simp] theorem giveBack_calls : s.giveBack.calls = s.calls := rfl

end State

/-- `request` up to its permit. -/
def ask (s : State) (c : RequestId) : State :=
  match s.concurrency with
  | some sem => (s.withConcurrency (some (sem.enqueue c))).goto c .queued
  | none => s.goto c (.attempting 0)

/-- The future of a request goes away. -/
def dropRequest (s : State) (c : RequestId) : Option State :=
  match s.calls c with
  | .queued => some ((s.withConcurrency (s.concurrency.map (·.leave c))).goto c .dropped)
  | .attempting _ | .sleeping _ _ => some (s.giveBack.goto c .dropped)
  | _ => none

/-- One step of the client. -/
def step (policy : RetryPolicy) (s : State) : Event → Option State
  | .request c =>
      match s.calls c with
      | .idle => some (ask s c)
      | _ => none
  | .acquire c =>
      match s.calls c, s.concurrency with
      | .queued, some sem =>
          (sem.acquire c).map fun sem => (s.withConcurrency (some sem)).goto c (.attempting 0)
      | _, _ => none
  | .outcome c result now draw =>
      match s.calls c with
      | .attempting attempt =>
          match delayAfter policy now draw attempt result with
          | .ok (some delay) =>
              some ((s.record c ⟨result, some delay⟩).goto c (.sleeping attempt delay))
          | .ok none => some ((s.record c ⟨result, none⟩).giveBack.goto c (.returned result))
          | _ => none
      | _ => none
  | .wake c =>
      match s.calls c with
      | .sleeping attempt _ => some (s.goto c (.attempting (attempt + 1)))
      | _ => none
  | .drop c => dropRequest s c

/-! ## What one step can do -/

inductive Step (policy : RetryPolicy) (s : State) : Event → State → Prop where
  | enqueue {c sem} (idle : s.calls c = .idle) (limited : s.concurrency = some sem) :
      Step policy s (.request c) ((s.withConcurrency (some (sem.enqueue c))).goto c .queued)
  | begin {c} (idle : s.calls c = .idle) (unlimited : s.concurrency = none) :
      Step policy s (.request c) (s.goto c (.attempting 0))
  | acquire {c sem sem'} (phase : s.calls c = .queued) (limited : s.concurrency = some sem)
      (taken : sem.acquire c = some sem') :
      Step policy s (.acquire c) ((s.withConcurrency (some sem')).goto c (.attempting 0))
  | retry {c attempt result now draw delay} (phase : s.calls c = .attempting attempt)
      (after : delayAfter policy now draw attempt result = .ok (some delay)) :
      Step policy s (.outcome c result now draw)
        ((s.record c ⟨result, some delay⟩).goto c (.sleeping attempt delay))
  | finish {c attempt result now draw} (phase : s.calls c = .attempting attempt)
      (after : delayAfter policy now draw attempt result = .ok none) :
      Step policy s (.outcome c result now draw)
        ((s.record c ⟨result, none⟩).giveBack.goto c (.returned result))
  | wake {c attempt delay} (phase : s.calls c = .sleeping attempt delay) :
      Step policy s (.wake c) (s.goto c (.attempting (attempt + 1)))
  | leave {c} (phase : s.calls c = .queued) :
      Step policy s (.drop c)
        ((s.withConcurrency (s.concurrency.map (·.leave c))).goto c .dropped)
  | dropAttempt {c attempt} (phase : s.calls c = .attempting attempt) :
      Step policy s (.drop c) (s.giveBack.goto c .dropped)
  | dropSleep {c attempt delay} (phase : s.calls c = .sleeping attempt delay) :
      Step policy s (.drop c) (s.giveBack.goto c .dropped)

variable {policy : RetryPolicy} {s t : State} {e : Event}

theorem step_cases (h : step policy s e = some t) : Step policy s e t := by
  cases e with
  | request c =>
    cases phase : s.calls c with
    | idle =>
      simp only [step, phase, ask, Option.some.injEq] at h
      subst h
      cases limited : s.concurrency with
      | none => exact .begin phase limited
      | some sem => exact .enqueue phase limited
    | _ => simp [step, phase] at h
  | acquire c =>
    cases phase : s.calls c with
    | queued =>
      cases limited : s.concurrency with
      | none => simp [step, phase, limited] at h
      | some sem =>
        simp only [step, phase, limited, Option.map_eq_some_iff] at h
        obtain ⟨sem', taken, rfl⟩ := h
        exact .acquire phase limited taken
    | _ => simp [step, phase] at h
  | outcome c result now draw =>
    cases phase : s.calls c with
    | attempting attempt =>
      simp only [step, phase] at h
      split at h
      · rename_i delay after
        obtain rfl := Option.some.inj h
        exact .retry phase after
      · rename_i after
        obtain rfl := Option.some.inj h
        exact .finish phase after
      · cases h
    | _ => simp [step, phase] at h
  | wake c =>
    cases phase : s.calls c with
    | sleeping attempt delay =>
      simp only [step, phase, Option.some.injEq] at h
      subst h
      exact .wake phase
    | _ => simp [step, phase] at h
  | drop c =>
    cases phase : s.calls c with
    | queued =>
      simp only [step, dropRequest, phase, Option.some.injEq] at h
      subst h
      exact .leave phase
    | attempting attempt =>
      simp only [step, dropRequest, phase, Option.some.injEq] at h
      subst h
      exact .dropAttempt phase
    | sleeping attempt delay =>
      simp only [step, dropRequest, phase, Option.some.injEq] at h
      subst h
      exact .dropSleep phase
    | _ => simp [step, dropRequest, phase] at h

/-- The request that an event belongs to. -/
def Event.call : Event → RequestId
  | .request c | .acquire c | .outcome c _ _ _ | .wake c | .drop c => c

theorem calls_other (hs : step policy s e = some t) {d : RequestId} (hd : d ≠ e.call) :
    t.calls d = s.calls d := by
  cases step_cases hs <;> simp_all [Event.call]

theorem log_other (hs : step policy s e = some t) {d : RequestId} (hd : d ≠ e.call) :
    t.log d = s.log d := by
  cases step_cases hs <;> simp_all [Event.call]

/-! ## The ceiling -/

/-- The request is between its first attempt and its end. -/
def Phase.inFlight : Phase → Prop
  | .attempting _ | .sleeping _ _ => True
  | _ => False

/-- The request has come to its end. -/
def Phase.ended : Phase → Prop
  | .returned _ | .dropped => True
  | _ => False

/-- The permits are those of the requests in flight and the free ones. -/
def Limited (n : Nat) (s : State) : Prop :=
  ∃ sem, s.concurrency = some sem ∧
    Balanced n sem (fun c => (s.calls c).inFlight) (fun c => s.calls c = .queued)

theorem limited_init {n : Nat} (hn : 0 < n) : Limited n (State.init (some n)) := by
  refine ⟨Semaphore.new n, ?_, balanced_new (fun c h => h) fun c h => by cases h⟩
  simp [State.init, hn]

/-- A request in flight gives its permit back. -/
theorem limited_release {n : Nat} {c : RequestId} {phase : Phase} (h : Limited n s)
    (hcalls : t.calls = Function.update s.calls c phase)
    (hsem : t.concurrency = s.concurrency.map Semaphore.release)
    (hflight : (s.calls c).inFlight) (hended : phase.ended) : Limited n t := by
  obtain ⟨sem, hsome, hbalanced⟩ := h
  refine ⟨sem.release, by rw [hsem, hsome]; rfl, hbalanced.release hflight ?_ ?_⟩
  · intro d
    rw [hcalls, Function.update_apply]
    by_cases hd : d = c
    · cases phase <;> simp_all [Phase.inFlight, Phase.ended]
    · simp [hd]
  · intro d
    rw [hcalls, Function.update_apply]
    by_cases hd : d = c
    · subst hd
      cases hphase : s.calls d <;> cases phase <;> simp_all [Phase.inFlight, Phase.ended]
    · simp [hd]

theorem limited_step {n : Nat} (h : Limited n s) (hs : step policy s e = some t) : Limited n t := by
  have hold := h
  obtain ⟨sem, hsome, hbalanced⟩ := h
  cases step_cases hs with
  | @enqueue c sem' idle limited =>
    obtain rfl := Option.some.inj (hsome.symm.trans limited)
    refine ⟨sem.enqueue c, rfl, hbalanced.enqueue (by simp [idle]) ?_ ?_⟩
    · intro d
      by_cases hd : d = c <;> simp [hd, idle, Phase.inFlight]
    · intro d
      by_cases hd : d = c <;> simp [hd]
  | begin idle unlimited => rw [unlimited] at hsome; cases hsome
  | @acquire c sem' sem'' phase limited taken =>
    obtain rfl := Option.some.inj (hsome.symm.trans limited)
    refine ⟨sem'', rfl, hbalanced.acquire taken (by simp [phase, Phase.inFlight]) ?_ ?_⟩
    · intro d
      by_cases hd : d = c <;> simp [hd, Phase.inFlight]
    · intro d
      by_cases hd : d = c <;> simp [hd]
  | @retry c attempt result now draw delay phase after =>
    refine ⟨sem, hsome, hbalanced.congr ?_ ?_⟩
    · intro d
      by_cases hd : d = c <;> simp [hd, phase, Phase.inFlight]
    · intro d
      by_cases hd : d = c <;> simp [hd, phase]
  | @wake c attempt delay phase =>
    refine ⟨sem, hsome, hbalanced.congr ?_ ?_⟩
    · intro d
      by_cases hd : d = c <;> simp [hd, phase, Phase.inFlight]
    · intro d
      by_cases hd : d = c <;> simp [hd, phase]
  | finish phase after =>
    exact limited_release hold rfl rfl (by simp [phase, Phase.inFlight]) trivial
  | @leave c phase =>
    refine ⟨sem.leave c, by simp [hsome], hbalanced.leave ?_ ?_⟩
    · intro d
      by_cases hd : d = c <;> simp [hd, phase, Phase.inFlight]
    · intro d
      by_cases hd : d = c <;> simp [hd]
  | dropAttempt phase | dropSleep phase =>
    exact limited_release hold rfl rfl (by simp [phase, Phase.inFlight]) trivial

/-- A request keeps its permit from its first attempt to its end. -/
theorem inFlight_step {c : RequestId} (h : (s.calls c).inFlight) (hs : step policy s e = some t) :
    (t.calls c).inFlight ∨ (t.calls c).ended := by
  by_cases own : c = e.call
  · subst own
    cases step_cases hs <;> simp_all [Event.call, Phase.inFlight, Phase.ended]
  · exact Or.inl (by rwa [calls_other hs own])

/-- With a ceiling, in every reachable state: the requests in flight are no more than the
    ceiling; they and the free permits are exactly the ceiling; a request in flight stays in
    flight, through its retries and sleeps, until it returns or is dropped; and where a request
    waits for a permit, some other one is in flight or the first in the queue can take one. -/
theorem in_flight_within_ceiling {n : Nat} (hn : 0 < n)
    (hreach : Reachable (step policy) (State.init (some n)) s) :
    (∀ B : Finset RequestId, (∀ c ∈ B, (s.calls c).inFlight) → B.card ≤ n) ∧
    (∃ (sem : Semaphore RequestId) (holders : Finset RequestId), s.concurrency = some sem ∧
      (∀ c, c ∈ holders ↔ (s.calls c).inFlight) ∧ holders.card + sem.available = n) ∧
    (∀ c e t, (s.calls c).inFlight → step policy s e = some t →
      (t.calls c).inFlight ∨ (t.calls c).ended) ∧
    (∀ c, s.calls c = .queued → (∃ d, (s.calls d).inFlight) ∨
      ∃ d t, s.calls d = .queued ∧ step policy s (.acquire d) = some t) := by
  obtain ⟨es, hrun⟩ := hreach
  obtain ⟨sem, hsome, hbalanced⟩ : Limited n s :=
    hrun.invariant (limited_init hn) fun _ _ _ hx _ hs => limited_step hx hs
  refine ⟨hbalanced.card_le, ?_, fun c e t h hs => inFlight_step h hs, fun c hc => ?_⟩
  · obtain ⟨holders, hmem, hcard⟩ := hbalanced.permits
    exact ⟨sem, holders, hsome, hmem, hcard⟩
  · rcases hbalanced.enabled hn hc with hflight | ⟨d, sem', hqueued, taken⟩
    · exact Or.inl hflight
    · have hs : step policy s (.acquire d) =
          some ((s.withConcurrency (some sem')).goto d (.attempting 0)) := by
        simp only [step, hqueued, hsome, taken, Option.map_some]
      exact Or.inr ⟨d, _, hqueued, hs⟩

/-- Under a ceiling of one, a request that sleeps before its second attempt keeps another one
    waiting. -/
theorem a_sleeping_request_keeps_its_permit : ∃ s : State,
    s.calls 0 = .sleeping 0 (.fromMillis 100) ∧ s.calls 1 = .queued ∧
      ∀ B : Finset RequestId, (∀ c ∈ B, (s.calls c).inFlight) → B.card ≤ 1 := by
  obtain ⟨s, h, hsleeping, hqueued⟩ : ∃ s,
      exec (step { RetryPolicy.new with jitter := false }) (State.init (some 1))
        [.request 0, .acquire 0, .request 1, .outcome 0 (.error (.network "")) 0 0] = some s ∧
      s.calls 0 = .sleeping 0 (.fromMillis 100) ∧ s.calls 1 = .queued := ⟨_, rfl, rfl, rfl⟩
  exact ⟨s, hsleeping, hqueued, (in_flight_within_ceiling (by decide) (Reachable.of_exec h)).1⟩

/-! ## One request among others -/

theorem delayAfter_some {now : Int64} {draw : UInt64} {attempt : UInt32}
    {result : Result HttpResponse} {delay : Duration}
    (h : delayAfter policy now draw attempt result = .ok (some delay)) :
    Retried result ∧ attempt.toNat < policy.maxRetries.toNat ∧
      delay.asNanos ≤ policy.maxBackoff.asNanos := by
  have hbounded : ∀ retryAfterMs, policy.delayFor draw attempt retryAfterMs = .ok delay →
      delay.asNanos ≤ policy.maxBackoff.asNanos := by
    intro retryAfterMs hdelay
    obtain ⟨delay', hok, hle, -⟩ := policy.delayFor_exact.1 draw attempt retryAfterMs
    rw [hok] at hdelay
    cases hdelay
    exact hle
  cases result with
  | ok resp =>
    simp only [delayAfter] at h
    split at h
    · rename_i hagain
      obtain ⟨hstatus, hleft⟩ := Bool.and_eq_true_iff.mp hagain
      obtain ⟨delay', hdelay, hsome⟩ := Outcome.bind_eq_ok.mp h
      cases hsome
      exact ⟨hstatus, UInt32.lt_iff_toNat_lt.mp (of_decide_eq_true hleft), hbounded _ hdelay⟩
    · cases h
  | error err =>
    simp only [delayAfter] at h
    split at h
    · rename_i hleft
      obtain ⟨delay', hdelay, hsome⟩ := Outcome.bind_eq_ok.mp h
      cases hsome
      exact ⟨trivial, UInt32.lt_iff_toNat_lt.mp hleft, hbounded _ hdelay⟩
    · cases h

theorem delayAfter_none {now : Int64} {draw : UInt64} {attempt : UInt32}
    {result : Result HttpResponse} (h : delayAfter policy now draw attempt result = .ok none)
    (hleft : attempt.toNat < policy.maxRetries.toNat) : ¬ Retried result := by
  have hleft' : attempt < policy.maxRetries := UInt32.lt_iff_toNat_lt.mpr hleft
  cases result with
  | ok resp =>
    simp only [delayAfter] at h
    split at h
    · obtain ⟨delay, -, hsome⟩ := Outcome.bind_eq_ok.mp h
      cases hsome
    · rename_i hlast
      intro hstatus
      exact hlast (Bool.and_eq_true_iff.mpr ⟨hstatus, decide_eq_true hleft'⟩)
  | error err =>
    simp only [delayAfter, if_pos hleft'] at h
    obtain ⟨delay, -, hsome⟩ := Outcome.bind_eq_ok.mp h
    cases hsome

/-- An attempt that another one followed, after the delay that the policy gives. -/
def Attempt.Repeated (policy : RetryPolicy) (attempt : Nat) (a : Attempt) : Prop :=
  ∃ (n : UInt32) (now : Int64) (draw : UInt64) (delay : Duration), n.toNat = attempt ∧
    a.delay = some delay ∧ delayAfter policy now draw n a.outcome = .ok (some delay)

/-- The log of a request that was repeated `k` times and has slept every time. -/
structure Traced (policy : RetryPolicy) (log : List Attempt) (k : Nat) : Prop where
  length : log.length = k
  repeated : ∀ i (a : Attempt), log[i]? = some a → a.Repeated policy i

theorem Traced.nil : Traced policy [] 0 := ⟨rfl, fun i a h => by simp at h⟩

theorem Traced.snoc {log : List Attempt} {n : UInt32} {now : Int64} {draw : UInt64}
    {result : Result HttpResponse} {delay : Duration} (h : Traced policy log n.toNat)
    (after : delayAfter policy now draw n result = .ok (some delay)) :
    Traced policy (log ++ [⟨result, some delay⟩]) (n.toNat + 1) := by
  refine ⟨by rw [List.length_append, h.length]; rfl, fun i a hi => ?_⟩
  rcases Nat.lt_or_ge i log.length with hlt | hge
  · rw [List.getElem?_append_left hlt] at hi
    exact h.repeated i a hi
  · rw [List.getElem?_append_right hge, List.getElem?_singleton] at hi
    split at hi
    · cases hi
      exact ⟨n, now, draw, delay, by have := h.length; omega, rfl, after⟩
    · cases hi

/-- Only the attempts before the last retry are repeated. -/
theorem Traced.le {log : List Attempt} {k : Nat} (h : Traced policy log k) :
    k ≤ policy.maxRetries.toNat := by
  cases k with
  | zero => exact Nat.zero_le _
  | succ k =>
    have hlt : k < log.length := by rw [h.length]; exact Nat.lt_succ_self k
    obtain ⟨n, now, draw, delay, hn, -, after⟩ := h.repeated k _ (List.getElem?_eq_getElem hlt)
    have := (delayAfter_some after).2.1
    omega

/-- The log of a request that stands in a phase. -/
def LogOf (policy : RetryPolicy) (log : List Attempt) : Phase → Prop
  | .idle | .queued => log = []
  | .attempting n => Traced policy log n.toNat
  | .sleeping n _ => Traced policy log (n.toNat + 1)
  | .returned r => ∃ before, log = before ++ [⟨r, none⟩] ∧ Traced policy before before.length ∧
      (before.length < policy.maxRetries.toNat → ¬ Retried r)
  | .dropped => ∃ k, Traced policy log k

theorem logOf_step (h : ∀ c, LogOf policy (s.log c) (s.calls c)) (hs : step policy s e = some t)
    (c : RequestId) : LogOf policy (t.log c) (t.calls c) := by
  by_cases own : c = e.call
  · subst own
    have hc := h e.call
    cases step_cases hs with
    | enqueue idle _ =>
      rw [Event.call, idle] at hc
      simpa [Event.call, LogOf] using hc
    | @begin c idle _ =>
      rw [Event.call, idle] at hc
      have hnil : s.log c = [] := hc
      simpa [Event.call, LogOf, hnil] using Traced.nil
    | @acquire c _ _ phase _ _ =>
      rw [Event.call, phase] at hc
      have hnil : s.log c = [] := hc
      simpa [Event.call, LogOf, hnil] using Traced.nil
    | retry phase after =>
      rw [Event.call, phase] at hc
      simpa [Event.call, LogOf] using Traced.snoc hc after
    | @finish c n _ _ _ phase after =>
      rw [Event.call, phase] at hc
      have hc : Traced policy (s.log c) n.toNat := hc
      simp only [Event.call, State.goto_log, State.goto_calls, State.giveBack_log,
        State.record_log, if_true]
      exact ⟨_, rfl, by rwa [hc.length], by rw [hc.length]; exact delayAfter_none after⟩
    | @wake c n _ phase =>
      rw [Event.call, phase] at hc
      have hc : Traced policy (s.log c) (n.toNat + 1) := hc
      have hnext : (n + 1).toNat = n.toNat + 1 := by
        have hlt := policy.maxRetries.toNat_lt
        have hle := hc.le
        rw [UInt32.toNat_add, UInt32.toNat_one, Nat.mod_eq_of_lt (by omega)]
      simpa [Event.call, LogOf, hnext] using hc
    | @leave c phase =>
      rw [Event.call, phase] at hc
      have hnil : s.log c = [] := hc
      simpa [Event.call, LogOf, hnil] using ⟨0, Traced.nil⟩
    | dropAttempt phase | dropSleep phase =>
      rw [Event.call, phase] at hc
      simpa [Event.call, LogOf] using ⟨_, hc⟩
  · rw [calls_other hs own, log_other hs own]
    exact h c

/-- The outcome of an attempt in a log. -/
def outcomeAt (log : List Attempt) (attempt : Nat) : Result HttpResponse :=
  (log[attempt]?.map Attempt.outcome).getD (.error (.network ""))

/-- How long a request has slept, in nanoseconds. -/
def slept (log : List Attempt) : Nat :=
  (log.map fun a => (a.delay.map Duration.asNanos).getD 0).sum

theorem Traced.outcomeAt {log : List Attempt} {k i : Nat} (h : Traced policy log k) (hi : i < k)
    (rest : List Attempt) : ∃ a, log[i]? = some a ∧ outcomeAt (log ++ rest) i = a.outcome := by
  have hlt : i < log.length := by rw [h.length]; exact hi
  refine ⟨log[i], List.getElem?_eq_getElem hlt, ?_⟩
  simp [HttpClient.outcomeAt, List.getElem?_append_left hlt, List.getElem?_eq_getElem hlt]

theorem Traced.slept_le {log : List Attempt} {k : Nat} (h : Traced policy log k) :
    slept log ≤ k * policy.maxBackoff.asNanos := by
  have hle : ∀ n ∈ log.map (fun a => (a.delay.map Duration.asNanos).getD 0),
      n ≤ policy.maxBackoff.asNanos := by
    intro n hn
    obtain ⟨a, ha, rfl⟩ := List.mem_map.mp hn
    obtain ⟨i, hi⟩ := List.mem_iff_getElem?.mp ha
    obtain ⟨_, _, _, delay, -, hdelay, after⟩ := h.repeated i a hi
    rw [hdelay]
    exact (delayAfter_some after).2.2
  have := List.sum_le_card_nsmul _ _ hle
  rwa [List.length_map, h.length] at this

/-- In every run of the client, whatever its other requests do and whichever of them are
    dropped: a request makes at most one attempt more than there are retries and sleeps at most
    the longest delay for each retry. One that has returned has returned what the retry loop
    makes of the outcomes of its own attempts, and after each of the attempts before the last it
    has slept what the policy says. -/
theorem interleaved_request_is_the_loop {limit : Option Nat}
    (hreach : Reachable (step policy) (State.init limit) s) (c : RequestId) :
    (s.log c).length ≤ policy.maxRetries.toNat + 1 ∧
    slept (s.log c) ≤ policy.maxRetries.toNat * policy.maxBackoff.asNanos ∧
    ∀ r, s.calls c = .returned r → ∃ k, (s.log c).length = k + 1 ∧
      HttpClient.request (fun made => (outcomeAt (s.log c) made, made + 1))
        policy.maxRetries.toNat 0 = (r, k + 1) ∧
      ∀ i (a : Attempt), i < k → (s.log c)[i]? = some a → a.Repeated policy i := by
  obtain ⟨es, hrun⟩ := hreach
  have hlog : ∀ c, LogOf policy (s.log c) (s.calls c) := hrun.invariant (fun _ => rfl)
    fun _ _ _ hx _ hs => logOf_step hx hs
  have hc := hlog c
  have hsleeps : ∀ {log k}, Traced policy log k →
      slept log ≤ policy.maxRetries.toNat * policy.maxBackoff.asNanos := fun h =>
    Nat.le_trans h.slept_le (Nat.mul_le_mul_right _ h.le)
  have htraced : ∀ {k}, Traced policy (s.log c) k →
      (s.log c).length ≤ policy.maxRetries.toNat + 1 ∧
      slept (s.log c) ≤ policy.maxRetries.toNat * policy.maxBackoff.asNanos := by
    intro k h
    have := h.length
    have := h.le
    exact ⟨by omega, hsleeps h⟩
  cases hphase : s.calls c with
  | idle | queued =>
    rw [hphase] at hc
    have hnil : Traced policy (s.log c) 0 := by rw [show s.log c = [] from hc]; exact Traced.nil
    exact ⟨(htraced hnil).1, (htraced hnil).2, fun r h => by cases h⟩
  | attempting n | sleeping n _ =>
    rw [hphase] at hc
    exact ⟨(htraced hc).1, (htraced hc).2, fun r h => by cases h⟩
  | dropped =>
    rw [hphase] at hc
    obtain ⟨k, hk⟩ := hc
    exact ⟨(htraced hk).1, (htraced hk).2, fun r h => by cases h⟩
  | returned r =>
    rw [hphase] at hc
    obtain ⟨before, heq, hbefore, hlast⟩ := hc
    have hle := hbefore.le
    rw [heq]
    refine ⟨by simpa using hle, by simpa [slept] using hsleeps hbefore, fun r' h => ?_⟩
    cases h
    refine ⟨before.length, by simp, ?_, ?_⟩
    · obtain ⟨k, hk, hrun, hretried, hend⟩ :=
        request_run (outcomeAt (before ++ [⟨r, none⟩])) policy.maxRetries.toNat 0
      simp only [Nat.zero_add] at hrun hretried hend
      have hr : outcomeAt (before ++ [⟨r, none⟩]) before.length = r := by simp [outcomeAt]
      -- the loop stops neither before the request did nor after it
      have heq : k = before.length := by
        rcases Nat.lt_trichotomy k before.length with hlt | heq | hgt
        · obtain ⟨a, ha, hout⟩ := hbefore.outcomeAt hlt [⟨r, none⟩]
          obtain ⟨_, _, _, _, -, -, after⟩ := hbefore.repeated k a ha
          rw [hout] at hend
          exact absurd (delayAfter_some after).1 (hend (by omega))
        · exact heq
        · have := hretried before.length hgt
          rw [hr] at this
          exact absurd this (hlast (by omega))
      rw [hrun, heq, hr]
    · intro i a hi ha
      rw [List.getElem?_append_left hi] at ha
      exact hbefore.repeated i a ha

/-- A request that is answered at its second attempt, while another one is dropped. -/
theorem a_retried_request_among_others : ∃ s : State,
    s.calls 0 = .returned (.ok ⟨200, [], []⟩) ∧ s.calls 1 matches .dropped ∧
      HttpClient.request (fun made => (outcomeAt (s.log 0) made, made + 1)) 3 0 =
        (.ok ⟨200, [], []⟩, 2) := by
  obtain ⟨s, h, hreturned, hlength, hdropped⟩ : ∃ s,
      exec (step { RetryPolicy.new with jitter := false }) (State.init (some 1))
        [.request 0, .acquire 0, .request 1, .outcome 0 (.error (.network "")) 0 0, .drop 1,
          .wake 0, .outcome 0 (.ok ⟨200, [], []⟩) 0 0] = some s ∧
      s.calls 0 = .returned (.ok ⟨200, [], []⟩) ∧ (s.log 0).length = 2 ∧
      s.calls 1 matches .dropped := ⟨_, rfl, rfl, rfl, rfl⟩
  obtain ⟨-, -, hloop⟩ := interleaved_request_is_the_loop (Reachable.of_exec h) 0
  obtain ⟨k, hk, hrun, -⟩ := hloop _ hreturned
  obtain rfl : k = 1 := by omega
  exact ⟨s, hreturned, hdropped, hrun⟩

end Schemreg.HttpClient
