import Schemreg.Cache.Cancelled

/-
  An identifier that was dropped is fetched again.

  After `invalidate(id)` or `invalidate_guid(guid)` has returned, a lookup of the same key
  that begins is answered from a fetch that was sent after the invalidation began: by an
  entry that is newer than the invalidation, by the leader it joins, or by its own fetch.
  The exception is a lookup by the other identifier in between. Its entry was not dropped,
  so the lookup hits, and what it hits is indexed under the dropped key again, under a
  generation that was sampled after the invalidation.
-/

namespace Schemreg.Cache

open CacheInner (CallId TokensApart GenerationsApart Fresh Clean)
open Transition

variable {s t : State} {e : Event} {c i : CallId} {x : Ident} {key : x.Key}
  {old : CallId → Prop}

/-- How far the invalidation `i` of `key` has come. -/
structure Forgetting (x : Ident) (key : x.Key) (i : CallId) (old : CallId → Prop) (s : State) :
    Prop where
  consistent : Consistent s
  sent : ∀ c, old c → c ∈ s.requests
  stage : s.calls i = .dropping [⟨x, .key key⟩] ∨
    (Barred x i old (· = key) (fun v => old v.origin) s ∧
      (∃ N, Cancels x i old (· = key) N s) ∧
      (s.calls i = .running x [] ∨
        (s.methods i x = .finished ∧ (s.calls i = .dropping [] ∨ s.calls i = .finished))))

/-- Once it has removed the entry, the invalidation stays where it is. -/
theorem barred_forgetting {N : Nat} (hc : Consistent s)
    (barred : Barred x i old (· = key) (fun v => old v.origin) s)
    (cancels : Cancels x i old (· = key) N s) (guard : NoneReturns x i old (· = key) s e)
    (hs : step s e = some t) :
    Barred x i old (· = key) (fun v => old v.origin) t ∧ ∃ N, Cancels x i old (· = key) N t := by
  have passes := cancels.nonePasses hc guard.tokens guard.generations guard.removes
  exact ⟨barred_step barred (fun _ hv => hv) passes (guard.crosses barred.begun) hs,
    N, cancels_step cancels hs⟩

theorem forgetting_step (h : Forgetting x key i old s) (guard : NoneReturns x i old (· = key) s e)
    (hs : step s e = some t) : Forgetting x key i old t := by
  have hc := h.consistent
  refine ⟨consistent_step hc hs, fun c hold => requests_mono hs (h.sent c hold), ?_⟩
  rcases h.stage with hd | ⟨barred, ⟨N, cancels⟩, hstage⟩
  · rcases dropping_step hd hs with hd' | ⟨hnil, _⟩ |
        ⟨y, what, rest, heq, hrun, hbump, _, hcalls⟩
    · exact Or.inl hd'
    · cases hnil
    · cases heq
      have hpre : ∀ c, old c → ¬ (s.calls c).pre := fun c hold => (hc.sent c (h.sent c hold)).1
      have hwhat : Drop.removes (· = key) (fun v => old v.origin) (.key key : Drop x) :=
        fun _ hk => hk
      refine Or.inr ⟨barred_of_bump hc hpre hwhat hrun hbump hcalls, ?_, Or.inl hrun⟩
      exact ⟨_, cancels_of_bump hc h.sent (Or.inl ⟨key, rfl, fun _ hk => hk⟩) hbump hs⟩
  · obtain ⟨barred', cancels'⟩ := barred_forgetting hc barred cancels guard hs
    exact Or.inr ⟨barred', cancels', last_step hstage hs⟩

/-- The key is forgotten: the cache holds nothing old under it. -/
theorem Forgetting.clean (h : Forgetting x key i old s) (hf : s.calls i = .finished) :
    s.methods i x = .finished ∧ Clean (· = key) (fun v => old v.origin) (s.side x) := by
  rcases h.stage with hd | ⟨barred, _, hrun | ⟨hfin, _⟩⟩
  · rw [hf] at hd
    cases hd
  · rw [hf] at hrun
    cases hrun
  · exact ⟨hfin, barred.sweep.clean hfin⟩

/-- A lookup `c` of the forgotten key. -/
structure Refetching (x : Ident) (key : x.Key) (i c : CallId) (old : CallId → Prop) (s : State) :
    Prop where
  forgetting : Forgetting x key i old s
  finished : s.calls i = .finished
  notOld : ¬ old c
  fresh : Fresh (· = c) (· = key) (fun v => old v.origin) (s.side x)

theorem refetching_step (h : Refetching x key i c old s)
    (guard : NoneReturns x i old (· = key) s e) (hs : step s e = some t) :
    Refetching x key i c old t where
  forgetting := forgetting_step h.forgetting guard hs
  finished := finished_step h.finished hs
  notOld := h.notOld
  fresh := by
    obtain ⟨_, hclean⟩ := h.forgetting.clean h.finished
    rcases side_step hs x with heq | ⟨ie, hinner, issued⟩
    · rw [heq]
      exact h.fresh
    · refine CacheInner.fresh_step h.fresh hclean (h.forgetting.consistent.addressed x) ?_ hinner
      -- what `c` fetches itself carries its own name
      intro d k token v he _ hd _ hv
      subst he hd
      obtain ⟨answer, k', _, hr, _⟩ := issued_reply issued
      rw [(fetchedBy_ok hr.symm).2] at hv
      exact h.notOld hv

/-- The lookup begins after the invalidation has returned. -/
theorem refetching_of_begin {request : Lookup} (h : Forgetting x key i old s)
    (hf : s.calls i = .finished) (guard : NoneReturns x i old (· = key) s (.begin c (.lookup request)))
    (hs : step s (.begin c (.lookup request)) = some t) : Refetching x key i c old t := by
  have hc := h.consistent
  have hidle : s.calls c = .idle := by
    cases step_cases hs with
    | begin phase => exact phase
  have hside : t.side = s.side := by
    cases step_cases hs with
    | begin phase => rfl
  have hmethod : (s.side x).calls c = .idle := (hc.linked c).quiet (by rw [hidle]; trivial) x
  refine ⟨forgetting_step h guard hs, finished_step hf hs, ?_, ?_⟩
  · intro hold
    exact (hc.sent c (h.sent c hold)).1 (by rw [hidle]; trivial)
  · rw [hside]
    refine CacheInner.fresh_of_idle (hc.addressed x) ?_
    rintro d rfl
    exact hmethod

theorem noneReturns_begin {op : Op} : NoneReturns x i old (· = key) s (.begin c op) where
  tokens _ issued := by cases issued
  generations _ issued := by cases issued
  removes _ issued := by cases issued
  crosses _ _ _ _ _ _ he := by cases he

/-- An explicitly dropped identifier is fetched again. Let `invalidate(id)` or
    `invalidate_guid(guid)` begin in `s₀` and return in `s₂`. If a lookup of the same key
    begins there and returns a schema, then its fetch was sent after the invalidation began,
    provided that no step lets an older schema return to the cache. -/
theorem dropped_is_refetched {maxEntries : Nat} {s₀ s₁ s₂ s₃ s₄ : State} {es₁ es₂ : List Event}
    {v : Fetched}
    (hreach : Reachable step (State.withMaxEntries maxEntries) s₀)
    (hinvalidate : step s₀ (.begin i (.invalidate (.key x key))) = some s₁)
    (hrun₁ : Run step (NoneReturns x i (· ∈ s₀.requests) (· = key)) s₁ es₁ s₂)
    (hreturned : s₂.calls i = .finished)
    (hlookup : step s₂ (.begin c (.lookup (.byKey x key))) = some s₃)
    (hrun₂ : Run step (NoneReturns x i (· ∈ s₀.requests) (· = key)) s₃ es₂ s₄)
    (hresult : s₄.calls c = .returned (.byKey x key) (.ok v)) :
    v.origin ∈ s₄.requests ∧ v.origin ∉ s₀.requests := by
  have hstart : Forgetting x key i (· ∈ s₀.requests) s₁ := by
    refine ⟨consistent_step (consistent_reachable hreach) hinvalidate,
      fun c hold => requests_mono hinvalidate hold, Or.inl ?_⟩
    cases step_cases hinvalidate with
    | begin phase => simp [start, Invalidation.drops]
  have hforget : Forgetting x key i (· ∈ s₀.requests) s₂ :=
    hrun₁.invariant hstart fun _ _ _ h guard hs => forgetting_step h guard hs
  have hbegun := refetching_of_begin hforget hreturned noneReturns_begin hlookup
  have hend : Refetching x key i c (· ∈ s₀.requests) s₄ :=
    hrun₂.invariant hbegun fun _ _ _ h guard hs => refetching_step h guard hs
  have hc := hend.forgetting.consistent
  have hhanded : (s₄.calls c).handed = some (.byKey x key, v) := by
    rw [hresult]
    rfl
  have hinner : (s₄.side x).calls c = .returned key (.ok v) := hc.handed c x key v hhanded
  exact ⟨hc.requested.handed c _ v hhanded, hend.fresh.returned c key v rfl hinner rfl⟩

/-! ## A lookup between the invalidation and the next read -/

def zeroGuid : SchemaGuid := ⟨List.replicate 16 0, rfl⟩

/-- A schema that is reported with its ID only. -/
def idSchema : Schema := ⟨some ⟨7⟩, none, .avro, "\"string\"", none, none, []⟩

/-- The same schema, reported with both identifiers. -/
def bothSchema : Schema := { idSchema with guid := some zeroGuid }

/-- The steps of `invalidate(id)` in call `c`. -/
def invalidateSteps (c : CallId) : List Event :=
  [.advance c, .inner .id c, .inner .id c, .inner .id c, .advance c, .advance c]

/-- The steps of `get_schema_by_id` or `get_schema_by_guid` in call `c`, when it misses and the
    inner client answers with a schema that has no other identifier. -/
def fetchSteps (x : Ident) (c : CallId) (schema : Schema) : List Event :=
  [.advance c, .advance c, .advance c, .inner x c, .inner x c, .reply c (.ok schema), .inner x c,
    .inner x c, .inner x c, .advance c, .advance c, .advance c]

/-- An entry is fetched, dropped and fetched again. -/
theorem invalidated_id_is_refetched :
    ∃ (s₀ s₄ : State) (v : Fetched), 0 ∈ s₀.requests ∧
      s₄.calls 2 = .returned (.byKey .id ⟨7⟩) (.ok v) ∧
      v.origin ∈ s₄.requests ∧ v.origin ∉ s₀.requests := by
  obtain ⟨s₀, h₀, s₁, s₂, s₃, s₄, hinvalidate, h₁, hlookup, h₂, hreq, hreturned, hresult, hu₂, hu₄,
      hp₁, hp₂⟩ :
      ∃ s₀, exec step State.new (.begin 0 (getSchemaById ⟨7⟩) :: fetchSteps .id 0 idSchema) =
          some s₀ ∧
      ∃ s₁ s₂ s₃ s₄, step s₀ (.begin 1 (invalidate ⟨7⟩)) = some s₁ ∧
        exec step s₁ (invalidateSteps 1) = some s₂ ∧
        step s₂ (.begin 2 (getSchemaById ⟨7⟩)) = some s₃ ∧
        exec step s₃ (fetchSteps .id 2 idSchema) = some s₄ ∧
        s₀.requests = [0] ∧ s₂.calls 1 = .finished ∧
        s₄.calls 2 = .returned (.byKey .id ⟨7⟩) (.ok ⟨idSchema, 2⟩) ∧
        Unwrapped s₂ ∧ Unwrapped s₄ ∧
        passes step (quiet .id s₀.requests) s₁ (invalidateSteps 1) = true ∧
        passes step (quiet .id s₀.requests) s₃ (fetchSteps .id 2 idSchema) = true :=
    ⟨_, rfl, _, _, _, _, rfl, rfl, rfl, rfl, rfl, rfl, rfl, fun x => by cases x <;> decide +kernel,
      fun x => by cases x <;> decide +kernel, by decide +kernel, by decide +kernel⟩
  have hreach := Reachable.of_exec h₀
  have hc₁ := consistent_step (consistent_reachable hreach) hinvalidate
  have hrun₁ := Run.of_passes h₁ hp₁
  have hc₂ : Consistent s₂ := hrun₁.invariant hc₁ fun _ _ _ h _ hs => consistent_step h hs
  have hc₃ := consistent_step hc₂ hlookup
  have hguard₁ : Run step (NoneReturns .id 1 (· ∈ s₀.requests) (· = (⟨7⟩ : SchemaId))) s₁
      (invalidateSteps 1) s₂ := run_noneReturns hc₁ hrun₁ hu₂
  have hguard₂ : Run step (NoneReturns .id 1 (· ∈ s₀.requests) (· = (⟨7⟩ : SchemaId))) s₃
      (fetchSteps .id 2 idSchema) s₄ := run_noneReturns hc₃ (Run.of_passes h₂ hp₂) hu₄
  exact ⟨s₀, s₄, ⟨idSchema, 2⟩, by simp [hreq], hresult,
    dropped_is_refetched hreach hinvalidate hguard₁ hreturned hlookup hguard₂ hresult⟩

/-- A lookup by the GUID, which was not invalidated, hits and indexes its schema under the ID
    again: the next `get_schema_by_id` is answered by the entry that was dropped. The calls
    run one after the other, and no other `get_schema_by_id` comes in between. -/
theorem invalidated_id_is_served_again :
    ¬ ∀ (x : Ident) (key : x.Key) (i c : CallId) (s₀ s₁ s₂ s₃ s₄ : State) (es₁ es₂ : List Event)
        (v : Fetched),
      Reachable step State.new s₀ →
      step s₀ (.begin i (.invalidate (.key x key))) = some s₁ →
      Run step (fun _ _ => True) s₁ es₁ s₂ →
      s₂.calls i = .finished →
      (∀ d, .begin d (.lookup (.byKey x key)) ∉ es₁) →
      step s₂ (.begin c (.lookup (.byKey x key))) = some s₃ →
      Run step (fun _ _ => True) s₃ es₂ s₄ →
      s₄.calls c = .returned (.byKey x key) (.ok v) →
      v.origin ∉ s₀.requests := by
  intro h
  obtain ⟨s₀, h₀, s₁, s₂, s₃, s₄, hinvalidate, h₁, hlookup, h₂, hreq, hreturned, hresult⟩ :
      ∃ s₀, exec step State.new [.begin 0 (getSchemaByGuid zeroGuid), .advance 0, .advance 0,
        .advance 0, .inner .guid 0, .inner .guid 0, .reply 0 (.ok bothSchema), .inner .guid 0,
        .inner .guid 0, .inner .guid 0, .advance 0, .advance 0, .inner .id 0, .inner .id 0,
        .advance 0, .advance 0] = some s₀ ∧
      ∃ s₁ s₂ s₃ s₄, step s₀ (.begin 1 (invalidate ⟨7⟩)) = some s₁ ∧
        exec step s₁ (invalidateSteps 1 ++ [.begin 2 (getSchemaByGuid zeroGuid), .advance 2,
          .advance 2, .advance 2, .advance 2, .advance 2, .inner .id 2, .inner .id 2, .advance 2,
          .advance 2]) = some s₂ ∧
        step s₂ (.begin 3 (getSchemaById ⟨7⟩)) = some s₃ ∧
        exec step s₃ [.advance 3, .advance 3, .advance 3, .advance 3, .advance 3, .inner .guid 3,
          .inner .guid 3, .advance 3, .advance 3] = some s₄ ∧
        s₀.requests = [0] ∧ s₂.calls 1 = .finished ∧
        s₄.calls 3 = .returned (.byKey .id ⟨7⟩) (.ok ⟨bothSchema, 0⟩) :=
    ⟨_, rfl, _, _, _, _, rfl, rfl, rfl, rfl, rfl, rfl, rfl⟩
  refine h .id ⟨7⟩ 1 3 s₀ s₁ s₂ s₃ s₄ _ _ ⟨bothSchema, 0⟩ (Reachable.of_exec h₀) hinvalidate
    (Run.of_exec_free h₁) hreturned ?_ hlookup (Run.of_exec_free h₂) hresult (by simp [hreq])
  intro d hd
  simp [invalidateSteps, getSchemaByGuid] at hd

end Schemreg.Cache
