import Schemreg.Lookup.Model

/-
  A call that shares its fetch returns what it would have fetched.

  The fetches of a component are answered as an oracle says, or not at all. Everything that the
  cache stores or hands out under a key then comes from a completed dialogue for that key
  (`Comes`), which is an invariant of every run, whatever is dropped, evicted or cleared in it.

  * `ok_of_run`: a call that succeeds has the result of `direct`, even if requests fail.
  * `result_of_run`: if no request fails, every result is that of `direct`, or the error of a
    fetch that was cancelled. Without a drop, an invalidation or a clear there are none of these.
-/

namespace Schemreg.Lookup

open CacheInner (CallId Keyed Failing Addressed Uncancelled)
open Dialogue Program Transition

variable {Arg K V Out Req : Type} {R : Req → Type} {comp : Component Arg K V Out Req R}
  {s t : State Arg K V Out Req R} {e : Event Arg K Req R} {P : Exchange Req R → Prop}
  {cancels : Prop}

/-- A dialogue for the key, all of it meeting `P`, ends with the result; or its fetch was
    cancelled. -/
def Comes (comp : Component Arg K V Out Req R) (P : Exchange Req R → Prop) (cancels : Prop)
    (key : K) (result : Result V) : Prop :=
  (∃ xs, (∀ x ∈ xs, P x) ∧ (comp.fetch key).Leads xs (.done result)) ∨
    (cancels ∧ result = .error (comp.cancelled key))

/-- What a call can return. -/
def Returns (comp : Component Arg K V Out Req R) (P : Exchange Req R → Prop) (cancels : Prop)
    (arg : Arg) (result : Result Out) : Prop :=
  comp.route arg = .done result ∨ ∃ key finish r, comp.route arg = .lookup key finish ∧
    Comes comp P cancels key r ∧ result = r.bind finish

/-- Somebody drops a future, or invalidates. -/
def Event.disturbs : Event Arg K Req R → Prop
  | .invalidate _ _ | .clear _ | .drop _ => True
  | _ => False

/-- Answers meet `P`, and nothing is cancelled unless that is allowed. -/
structure Allowed (P : Exchange Req R → Prop) (cancels : Prop) (_ : State Arg K V Out Req R)
    (e : Event Arg K Req R) : Prop where
  answers : ∀ c x, e = .answer c x → P x
  disturbs : e.disturbs → cancels

variable [DecidableEq K]

/-! ## The invariant -/

structure Sound (comp : Component Arg K V Out Req R) (P : Exchange Req R → Prop) (cancels : Prop)
    (s : State Arg K V Out Req R) : Prop where
  addressed : Addressed s.cache
  error : s.cache.cache.makeCancelledError = comp.cancelled
  uncancelled : ¬ cancels → Uncancelled s.cache
  pending : ∀ c fetch, s.pending c = some fetch → ∃ key token xs,
    s.cache.calls c = .fetching key token ∧ (∀ x ∈ xs, P x) ∧ (comp.fetch key).Leads xs fetch
  keyed : Keyed (fun key v => Comes comp P cancels key (.ok v)) s.cache
  failing : Failing (fun key err => Comes comp P cancels key (.error err)) s.cache
  lookups : ∀ c arg, s.calls c = .looking arg → ∃ key finish,
    comp.route arg = .lookup key finish ∧ (s.cache.calls c).getting key
  returned : ∀ c arg result, s.calls c = .returned arg result →
    Returns comp P cancels arg result

theorem sound_init (maxEntries : Nat) : Sound comp P cancels (State.init comp maxEntries) where
  addressed := CacheInner.addressed_init _ _
  error := rfl
  uncancelled _ := CacheInner.uncancelled_init _ _
  pending c fetch h := by cases h
  keyed := CacheInner.keyed_init _ _
  failing := CacheInner.failing_init _ _
  lookups c arg h := by cases h
  returned c arg result h := by cases h

variable [DecidableEq Req]

/-- The reply to a fetch is the end of its dialogue. -/
theorem comes_of_reply (h : Sound comp P cancels s) (allowed : Allowed P cancels s e)
    {ie : CacheInner.Event K V} (issued : Issued comp s e ie) {c : CallId} {key : K} {token : Nat}
    {r : Result V} (he : ie = .reply c r) (hfetching : s.cache.calls c = .fetching key token) :
    Comes comp P cancels key r := by
  cases issued with
  | @reply c' x fetch result pending last =>
    obtain ⟨rfl, rfl⟩ : c' = c ∧ result = r := by simpa using he
    obtain ⟨key', token', xs, hfetching', hxs, hleads⟩ := h.pending c' fetch pending
    obtain ⟨rfl, rfl⟩ : key = key' ∧ token = token' := by
      rw [hfetching] at hfetching'
      simpa using hfetching'
    refine Or.inl ⟨xs ++ [x], ?_, hleads.resume last⟩
    intro y hy
    rcases List.mem_append.mp hy with hy | hy
    · exact hxs y hy
    · rw [List.mem_singleton.mp hy]
      exact allowed.answers c' x rfl
  | _ => cases he

theorem entersRight (h : Sound comp P cancels s) (allowed : Allowed P cancels s e)
    {ie : CacheInner.Event K V} (issued : Issued comp s e ie) :
    CacheInner.EntersRight (fun key v => Comes comp P cancels key (.ok v)) s.cache ie where
  replies _ _ _ _ he hfetching := comes_of_reply h allowed issued he hfetching
  inserts c k v g he := by cases issued <;> cases he

theorem failsFor (h : Sound comp P cancels s) (allowed : Allowed P cancels s e)
    {ie : CacheInner.Event K V} (issued : Issued comp s e ie) :
    CacheInner.FailsFor (fun key err => Comes comp P cancels key (.error err)) s.cache ie where
  replies _ _ _ _ he hfetching := comes_of_reply h allowed issued he hfetching
  cancels c k w ws hc := by
    by_cases hcancels : cancels
    · rw [h.error]
      exact Or.inr ⟨hcancels, rfl⟩
    · exact absurd hc (h.uncancelled hcancels).not_notifying

theorem uncancelled_step (h : Sound comp P cancels s) (allowed : Allowed P cancels s e)
    (hs : step comp s e = some t) (hcancels : ¬ cancels) : Uncancelled t.cache := by
  have hold := h.uncancelled hcancels
  have calm : ¬ e.disturbs := fun hd => hcancels (allowed.disturbs hd)
  rcases cache_step hs with heq | ⟨ie, inner, issued⟩
  · rwa [heq]
  · refine CacheInner.uncancelled_step hold ?_ inner
    cases issued with
    | look | resume | reply => trivial
    | invalidate | clear | drop => exact (calm trivial).elim

theorem pending_step (h : Sound comp P cancels s) (allowed : Allowed P cancels s e)
    (hs : step comp s e = some t) {d : CallId} {fetch : Fetch Req R V}
    (hd : t.pending d = some fetch) : ∃ key token xs,
      t.cache.calls d = .fetching key token ∧ (∀ x ∈ xs, P x) ∧
        (comp.fetch key).Leads xs fetch := by
  have kept : ∀ {ie : CacheInner.Event K V} {i : CacheInner.State K V}, s.pending d = some fetch →
      CacheInner.step s.cache ie = some i → (∀ r, ie ≠ .reply d r) → ie ≠ .drop d →
      ∃ key token xs, i.calls d = .fetching key token ∧ (∀ x ∈ xs, P x) ∧
        (comp.fetch key).Leads xs fetch := by
    intro ie i hold inner hreply hdrop
    obtain ⟨key, token, xs, hfetching, hrest⟩ := h.pending d fetch hold
    exact ⟨key, token, xs, CacheInner.fetching_stays hfetching inner hreply hdrop, hrest⟩
  cases step_cases hs with
  | look _ _ inner => exact kept hd inner nofun nofun
  | invalidate _ inner => exact kept hd inner nofun nofun
  | clear _ inner => exact kept hd inner nofun nofun
  | resume _ inner => exact kept hd inner nofun nofun
  | answerNow | finish => exact h.pending d fetch hd
  | @fetch c key token i phase inner =>
    rw [State.wait_pending] at hd
    by_cases hdc : d = c
    · subst hdc
      rw [if_pos rfl] at hd
      obtain rfl := Option.some.inj hd
      exact ⟨key, token, [], CacheInner.polled_step phase inner, nofun, .here⟩
    · rw [if_neg hdc] at hd
      exact kept hd inner nofun nofun
  | @fetched c x waiting result i pending last inner =>
    rw [State.wait_pending] at hd
    by_cases hdc : d = c
    · rw [if_pos hdc] at hd
      cases hd
    · rw [if_neg hdc] at hd
      refine kept hd inner ?_ nofun
      intro r heq
      cases heq
      exact hdc rfl
  | @ask c x waiting next pending more =>
    rw [State.wait_pending] at hd
    by_cases hdc : d = c
    · subst hdc
      rw [if_pos rfl] at hd
      obtain rfl := Option.some.inj hd
      obtain ⟨key, token, xs, hfetching, hxs, hleads⟩ := h.pending d waiting pending
      refine ⟨key, token, xs ++ [x], hfetching, ?_, hleads.resume more⟩
      intro y hy
      rcases List.mem_append.mp hy with hy | hy
      · exact hxs y hy
      · rw [List.mem_singleton.mp hy]
        exact allowed.answers d x rfl
    · rw [if_neg hdc] at hd
      exact h.pending d fetch hd
  | @drop c i inner =>
    rw [State.goto_pending, State.wait_pending] at hd
    by_cases hdc : d = c
    · rw [if_pos hdc] at hd
      cases hd
    · rw [if_neg hdc] at hd
      refine kept hd inner nofun ?_
      intro heq
      cases heq
      exact hdc rfl

theorem lookups_step (h : Sound comp P cancels s) (hs : step comp s e = some t) {d : CallId}
    {arg : Arg} (hd : t.calls d = .looking arg) : ∃ key finish,
      comp.route arg = .lookup key finish ∧ (t.cache.calls d).getting key := by
  have kept : ∀ {ie : CacheInner.Event K V} {i : CacheInner.State K V},
      s.calls d = .looking arg → CacheInner.step s.cache ie = some i → ie ≠ .drop d →
      ∃ key finish, comp.route arg = .lookup key finish ∧ (i.calls d).getting key := by
    intro ie i hold inner hdrop
    obtain ⟨key, finish, route, hgetting⟩ := h.lookups d arg hold
    exact ⟨key, finish, route, CacheInner.getting_step hgetting inner hdrop⟩
  cases step_cases hs with
  | @look c arg' key finish i idle route inner =>
    rw [State.goto_calls] at hd
    split at hd
    · rename_i hdc
      subst hdc
      cases hd
      exact ⟨key, finish, route, CacheInner.getting_of_begin inner⟩
    · exact kept hd inner nofun
  | invalidate _ inner =>
    rw [State.goto_calls] at hd
    split at hd
    · cases hd
    · exact kept hd inner nofun
  | clear _ inner =>
    rw [State.goto_calls] at hd
    split at hd
    · cases hd
    · exact kept hd inner nofun
  | fetch _ inner | resume _ inner | fetched _ _ inner => exact kept hd inner nofun
  | ask => exact h.lookups d arg hd
  | @drop c i inner =>
    rw [State.goto_calls] at hd
    split at hd
    · cases hd
    · rename_i hdc
      refine kept hd inner ?_
      intro heq
      cases heq
      exact hdc rfl
  | answerNow | finish =>
    rw [State.goto_calls] at hd
    split at hd
    · cases hd
    · exact h.lookups d arg hd

omit [DecidableEq Req] in
/-- What the cache returns under a key comes from a fetch for it. -/
theorem comes_of_returned (h : Sound comp P cancels s) {c : CallId} {key : K} {r : Result V}
    (hreturned : s.cache.calls c = .returned key r) : Comes comp P cancels key r := by
  cases r with
  | ok v => exact h.keyed.returned c key v hreturned
  | error err => exact h.failing.returned c key err hreturned

theorem returned_step (h : Sound comp P cancels s) (hs : step comp s e = some t) {d : CallId}
    {arg : Arg} {result : Result Out} (hd : t.calls d = .returned arg result) :
    Returns comp P cancels arg result := by
  cases step_cases hs with
  | @answerNow c arg' result' idle route =>
    rw [State.goto_calls] at hd
    split at hd
    · cases hd
      exact Or.inl route
    · exact h.returned d arg result hd
  | @finish c arg' key finish k r phase route returned =>
    rw [State.goto_calls] at hd
    split at hd
    · cases hd
      obtain ⟨key', finish', route', hgetting⟩ := h.lookups c arg phase
      obtain rfl : key' = key := by
        rw [route] at route'
        cases route'
        rfl
      rw [returned] at hgetting
      obtain rfl : k = key' := hgetting
      exact Or.inr ⟨k, finish, r, route, comes_of_returned h returned, rfl⟩
    · exact h.returned d arg result hd
  | look | invalidate | clear | drop =>
    rw [State.goto_calls] at hd
    split at hd
    · cases hd
    · exact h.returned d arg result hd
  | _ => exact h.returned d arg result hd

theorem sound_step (h : Sound comp P cancels s) (allowed : Allowed P cancels s e)
    (hs : step comp s e = some t) : Sound comp P cancels t where
  addressed := by
    rcases cache_step hs with heq | ⟨ie, inner, _⟩
    · rw [heq]
      exact h.addressed
    · exact CacheInner.addressed_step h.addressed inner
  error := by
    rcases cache_step hs with heq | ⟨ie, inner, _⟩
    · rw [heq]
      exact h.error
    · rw [CacheInner.cancelledError_step inner]
      exact h.error
  uncancelled := uncancelled_step h allowed hs
  pending _ _ := pending_step h allowed hs
  keyed := by
    rcases cache_step hs with heq | ⟨ie, inner, issued⟩
    · rw [heq]
      exact h.keyed
    · exact CacheInner.keyed_step h.keyed h.addressed (entersRight h allowed issued) inner
  failing := by
    rcases cache_step hs with heq | ⟨ie, inner, issued⟩
    · rw [heq]
      exact h.failing
    · exact CacheInner.failing_step h.failing h.addressed (failsFor h allowed issued) inner
  lookups _ _ := lookups_step h hs
  returned _ _ _ := returned_step h hs

/-! ## Every run -/

/-- A run from an empty cache, whose answers meet `P`, with cancellations only where they are
    allowed. -/
abbrev Component.Runs (comp : Component Arg K V Out Req R) (P : Exchange Req R → Prop)
    (cancels : Prop) (maxEntries : Nat) (es : List (Event Arg K Req R))
    (s : State Arg K V Out Req R) : Prop :=
  Run (step comp) (Allowed P cancels) (State.init comp maxEntries) es s

variable {oracle : ∀ req, Result (R req)} {maxEntries : Nat} {es : List (Event Arg K Req R)}

theorem sound_run (hrun : comp.Runs P cancels maxEntries es s) : Sound comp P cancels s :=
  hrun.invariant (sound_init maxEntries) fun _ _ _ h allowed hs => sound_step h allowed hs

/-- The fetches of a component stop at the first request that fails. -/
def Component.StopsAtFailures (comp : Component Arg K V Out Req R) : Prop :=
  ∀ key, Strict IsError (comp.fetch key)

theorem ok_of_run (hstrict : comp.StopsAtFailures)
    (hrun : comp.Runs (AnsweredOrFailed oracle) True maxEntries es s)
    {c : CallId} {arg : Arg} {out : Out} (h : s.calls c = .returned arg (.ok out)) :
    comp.direct oracle arg = .ok out := by
  unfold Component.direct
  rcases (sound_run hrun).returned c arg _ h with route | ⟨key, finish, r, route, hcomes, hr⟩
  · rw [route]
  · rw [route]
    rcases hcomes with ⟨xs, hxs, hleads⟩ | ⟨-, rfl⟩
    · rcases (hstrict key).result_of_leads hleads hxs with ⟨err, rfl⟩ | heval
      · cases hr
      · dsimp only
        rw [heval, hr]
    · cases hr

theorem result_of_run (hrun : comp.Runs (AnsweredBy oracle) cancels maxEntries es s)
    {c : CallId} {arg : Arg} {result : Result Out} (h : s.calls c = .returned arg result) :
    result = comp.direct oracle arg ∨
      (cancels ∧ ∃ key finish, comp.route arg = .lookup key finish ∧
        result = .error (comp.cancelled key)) := by
  unfold Component.direct
  rcases (sound_run hrun).returned c arg _ h with route | ⟨key, finish, r, route, hcomes, hr⟩
  · rw [route]
    exact Or.inl rfl
  · rcases hcomes with ⟨xs, hxs, hleads⟩ | ⟨hcancels, rfl⟩
    · have heval : (comp.fetch key).eval oracle = r := (hleads.eval_eq hxs).symm
      rw [route]
      dsimp only
      rw [heval]
      exact Or.inl hr
    · exact Or.inr ⟨hcancels, key, finish, route, hr⟩

end Schemreg.Lookup
