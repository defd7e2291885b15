import Schemreg.Cache.Refetch
import Schemreg.Cache.TwoCaches

/-
  Deleting a subject as a barrier across both caches.

  `delete_subject`, `delete_version` and `invalidate_subject` drop what carries the subject.
  `invalidate_matching` cancels the fetches of the keys it has found stored, so their leaders
  claim nothing any more (`Deleting`). It cancels no others: a fetch that is in flight for a key
  that is not stored goes on, claims its slot, and stores a schema that carries the deleted
  subject.
-/

namespace Schemreg.Cache

open CacheInner (CallId TokensApart GenerationsApart ClaimsClean RemovesClear FindsStored)
open Transition

variable {s t : State} {e : Event} {i : CallId}

/-- The operations that drop what carries the subject. -/
def Op.dropsSubject (subject : String) (op : Op) : Prop :=
  (∃ permanent, op = deleteSubject subject permanent) ∨
    (∃ version permanent, op = deleteVersion subject version permanent) ∨
      op = invalidateSubject subject

/-- A schema that carries the subject and was fetched for one of the calls. -/
def FetchedFor (subject : String) (calls : List CallId) (v : Fetched) : Prop :=
  v.origin ∈ calls ∧ v.schema.subject = some subject

/-- No stale schema gets past the invalidation `i` of a subject. When it removes the entries of a
    cache, the keys `found` are among them, and no leader is between its claim and its write.
    Later no leader claims its slot with a stale schema, unless its key is one of those and its
    fetch has been cancelled. No lookup by GUID brings one over to the cache of the IDs once that
    is being invalidated. -/
structure NonePassesSubject (i : CallId) (found : (x : Ident) → x.Key → Prop)
    (stale : Fetched → Prop) (s : State) (e : Event) : Prop where
  tokens : ∀ x, (∃ k, found x k) → On x TokensApart s e
  generations : ∀ x, On x GenerationsApart s e
  removes : ∀ x, On x (RemovesClear i (fun _ => True) stale) s e
  finds : ∀ x, On x (FindsStored i (found x)) s e
  claims : ∀ x, (s.methods i x).removed (fun _ => True) stale →
    On x (ClaimsClean (fun k => found x k → ∃ ks, s.methods i x = .matched ks) stale) s e
  crosses : s.methods i .id ≠ .idle → CrossesOutdated .id (fun _ => True) stale s e

/-- The call `i` drops what carries the subject, and where it has begun to it cancels the fetches
    for the keys that it has found. -/
structure Deleting (i : CallId) (subject : String) (old : CallId → Prop) (stale : Fetched → Prop)
    (found : (x : Ident) → x.Key → Prop) (s : State) : Prop where
  sweeping : Sweeping i (fun _ => .subject subject) old stale s
  sent : ∀ c, old c → c ∈ s.requests
  cancels : ∀ x, s.methods i x = .idle ∨ ∃ N, CancelsFound x i old (found x) stale N s

section

variable {subject : String} {old : CallId → Prop} {stale : Fetched → Prop}
  {found : (x : Ident) → x.Key → Prop}

theorem Deleting.nonePasses (h : Deleting i subject old stale found s)
    (origin : ∀ v, stale v → old v.origin) (guard : NonePassesSubject i found stale s e) :
    NonePassesBoth i stale s e where
  passes x :=
    { apart := guard.generations x
      removes := guard.removes x
      claims := by
        intro removed
        rcases h.cancels x with hidle | ⟨N, hcancels⟩
        · exact absurd hidle removed.1
        · exact hcancels.claimsClean h.sweeping.consistent origin (guard.tokens x) removed
            (guard.claims x removed) }
  crosses := guard.crosses

theorem deleting_keeps (h : Deleting i subject old stale found s)
    (origin : ∀ v, stale v → old v.origin) (hsubject : ∀ v, stale v → carries subject v = true)
    (guard : NonePassesSubject i found stale s e) (hs : step s e = some t) :
    Deleting i subject old stale found t where
  sweeping := sweeping_step h.sweeping (fun _ => hsubject) origin (h.nonePasses origin guard) hs
  sent c hold := requests_mono hs (h.sent c hold)
  cancels := h.sweeping.begun_step (C := fun x N s => CancelsFound x i old (found x) stale N s)
    h.cancels (fun x _ hcancels => cancelsFound_step hcancels (guard.finds x) hs)
    (fun _ hbump => ⟨_, cancelsFound_of_bump h.sweeping.consistent h.sent hsubject hbump hs⟩) hs

end

/-- Deleting a subject is a barrier across both caches. Let the deletion or the invalidation
    of the subject begin in `s₀`. Whenever it has returned, neither cache holds a schema that
    carries the subject and whose fetch was sent before it began, provided that no step has
    let one get past it. -/
theorem subject_barrier {maxEntries : Nat} {s₀ s₁ : State} {op : Op} {subject : String}
    {found : (x : Ident) → x.Key → Prop} {es : List Event} {x : Ident} {key : x.Key}
    {entry : CacheInner.Entry Fetched}
    (hreach : Reachable step (State.withMaxEntries maxEntries) s₀)
    (hop : op.dropsSubject subject) (hbegin : step s₀ (.begin i op) = some s₁)
    (hrun : Run step (NonePassesSubject i found (FetchedFor subject s₀.requests)) s₁ es t)
    (hreturned : t.calls i = .finished)
    (hstored : (t.side x).lookup key = some entry) :
    ¬ (entry.value.origin ∈ s₀.requests ∧ entry.value.schema.subject = some subject) := by
  have hc := consistent_reachable hreach
  have hc₁ := consistent_step hc hbegin
  have hsent : ∀ c, c ∈ s₀.requests → c ∈ s₁.requests := fun c => requests_mono hbegin
  have hphase : s₁.calls i = start op := by
    cases step_cases hbegin with
    | begin phase => simp
  have hmethods : ∀ x, s₁.methods i x = .idle := by
    cases step_cases hbegin with
    | begin phase => exact (hc.linked i).quiet (by rw [phase]; trivial)
  have hstage : Stage i (fun _ => .subject subject) (· ∈ s₀.requests)
      (FetchedFor subject s₀.requests) s₁ := by
    rcases hop with ⟨permanent, rfl⟩ | ⟨version, permanent, rfl⟩ | rfl
    · exact .deleting subject hphase rfl
    · exact .deleting subject hphase rfl
    · exact .waiting hphase
  have hstart : Deleting i subject (· ∈ s₀.requests) (FetchedFor subject s₀.requests) found s₁ :=
    ⟨⟨hc₁, fun c hold => (hc₁.sent c (hsent c hold)).1, hstage⟩, hsent,
      fun x => Or.inl (hmethods x)⟩
  have hcarries : ∀ v, FetchedFor subject s₀.requests v → carries subject v = true := by
    intro v hv
    simpa [carries] using hv.2
  have hend : Deleting i subject (· ∈ s₀.requests) (FetchedFor subject s₀.requests) found t :=
    hrun.invariant hstart fun _ _ _ h guard hs =>
      deleting_keeps h (fun _ hv => hv.1) hcarries guard hs
  exact (hend.sweeping.clean hreturned x).stored key entry trivial hstored

/-! ## A fetch in flight -/

/-- A schema that the inner client reports with its subject. -/
def ordersSchema : Schema := { idSchema with subject := some "orders" }

/-- The steps of `get_latest_schema` in call `c`, when the inner client answers with a schema
    that has no GUID. -/
def latestSteps (c : CallId) (schema : Schema) : List Event :=
  [.advance c, .advance c, .advance c, .reply c (.ok schema), .advance c, .inner .id c,
    .inner .id c, .advance c, .advance c, .advance c]

/-- The steps of `delete_subject` in call `c`, when no schema with the subject has a GUID. -/
def deleteSteps (c : CallId) : List Event :=
  [.deleted c (.ok ()), .advance c, .inner .id c, .inner .id c, .inner .id c, .advance c,
    .advance c, .inner .guid c, .advance c, .advance c]

/-- The schemas with these IDs are found if the step removes the entries of the cache of the IDs. -/
def findsIds (ids : List SchemaId) (s : State) : Event → Bool
  | .inner .id c =>
      match (s.side .id).calls c with
      | .matching p => ids.all fun id => id ∈ (s.side .id).cache.store.doomed p
      | _ => true
  | _ => true

/-- None of the calls gets past the invalidation of a subject in this step. -/
def quietBoth (ids : List SchemaId) (calls : List CallId) (s : State) (e : Event) : Bool :=
  quiet .id calls s e && settled .guid calls s e && findsIds ids s e

/-- The IDs, and no GUID. -/
def foundIds (ids : List SchemaId) : (x : Ident) → x.Key → Prop
  | .id, id => id ∈ ids
  | .guid, _ => False

theorem nonePassesSubject_of_quiet {ids : List SchemaId} {calls : List CallId} {subject : String}
    (hc : Consistent s) (hu : Unwrapped s) (h : quietBoth ids calls s e = true) :
    NonePassesSubject i (foundIds ids) (FetchedFor subject calls) s e := by
  obtain ⟨hcalls, hfinds⟩ := Bool.and_eq_true_iff.mp h
  obtain ⟨hquiet, hguid⟩ := Bool.and_eq_true_iff.mp hcalls
  obtain ⟨hid, hstay⟩ := Bool.and_eq_true_iff.mp hquiet
  have hstale : ∀ v, FetchedFor subject calls v → v.origin ∈ calls := fun _ hv => hv.1
  have hsettled : ∀ x, settled x calls s e = true := fun x => by cases x <;> assumption
  refine ⟨fun _ _ => hu.tokens hc, fun _ => hu.generations hc,
    fun x => removesClear_of_settled hc (hsettled x) hstale, fun x => ?_,
    fun x _ => claimsClean_of_settled hc (hsettled x) hstale,
    fun _ => crossesOutdated_of_staysIn hstay⟩
  intro ie issued p he hmatching k hk
  subst he
  cases x with
  | id =>
    cases issued with
    | inner =>
      unfold findsIds at hfinds
      dsimp only at hfinds
      rw [hmatching] at hfinds
      simpa using List.all_eq_true.mp hfinds k hk
  | guid => exact hk.elim

/-- The latest schema of a subject is stored, the subject is deleted and registered again:
    what is stored is the later fetch. -/
theorem deleted_subject_is_newer :
    ∃ (s₀ t : State) (entry : CacheInner.Entry Fetched),
      (s₀.side .id).lookup (⟨7⟩ : SchemaId) = some ⟨⟨ordersSchema, 0⟩, 0⟩ ∧
      (t.side .id).lookup (⟨7⟩ : SchemaId) = some entry ∧
      ¬ (entry.value.origin ∈ s₀.requests ∧ entry.value.schema.subject = some "orders") := by
  obtain ⟨s₀, h₀, s₁, t, hdelete, h₁, hold, hreturned, hstored, hu, hp⟩ :
      ∃ s₀, exec step State.new (.begin 0 (getLatestSchema "orders") ::
          latestSteps 0 ordersSchema) = some s₀ ∧
      ∃ s₁ t, step s₀ (.begin 1 (deleteSubject "orders" false)) = some s₁ ∧
        exec step s₁ (deleteSteps 1 ++ .begin 2 (getLatestSchema "orders") ::
          latestSteps 2 ordersSchema) = some t ∧
        (s₀.side .id).lookup (⟨7⟩ : SchemaId) = some ⟨⟨ordersSchema, 0⟩, 0⟩ ∧
        t.calls 1 = .finished ∧
        (t.side .id).lookup (⟨7⟩ : SchemaId) = some ⟨⟨ordersSchema, 2⟩, 2⟩ ∧ Unwrapped t ∧
        passes step (quietBoth [⟨7⟩] s₀.requests) s₁ (deleteSteps 1 ++
          .begin 2 (getLatestSchema "orders") :: latestSteps 2 ordersSchema) = true :=
    ⟨_, rfl, _, _, rfl, rfl, by decide +kernel, rfl, by decide +kernel,
      fun x => by cases x <;> decide +kernel, by decide +kernel⟩
  have hreach := Reachable.of_exec h₀
  have hc₁ := consistent_step (consistent_reachable hreach) hdelete
  have hguard : Run step (NonePassesSubject 1 (foundIds [⟨7⟩]) (FetchedFor "orders" s₀.requests))
      s₁ _ t :=
    run_unwrapped hc₁ (Run.of_passes h₁ hp) hu fun _ _ hc hu hq =>
      nonePassesSubject_of_quiet hc hu hq
  exact ⟨s₀, t, ⟨⟨ordersSchema, 2⟩, 2⟩, hold, hstored,
    subject_barrier hreach (Or.inl ⟨false, rfl⟩) hdelete hguard hreturned hstored⟩

/-- A fetch by ID is in flight while the subject is deleted. The ID is not stored, so the
    deletion finds nothing to cancel, and the answer is stored with the deleted subject. -/
theorem deleted_subject_is_stored :
    ¬ ∀ (s₀ s₁ t : State) (op : Op) (subject : String) (i : CallId) (es : List Event) (x : Ident)
        (key : x.Key) (entry : CacheInner.Entry Fetched),
      Reachable step State.new s₀ →
      op.dropsSubject subject →
      step s₀ (.begin i op) = some s₁ →
      Run step (fun _ _ => True) s₁ es t →
      t.calls i = .finished →
      (t.side x).lookup key = some entry →
      ¬ (entry.value.origin ∈ s₀.requests ∧ entry.value.schema.subject = some subject) := by
  intro h
  obtain ⟨s₀, h₀, s₁, t, hdelete, h₁, hreq, hreturned, hstored⟩ :
      ∃ s₀, exec step State.new [.begin 0 (getSchemaById ⟨7⟩), .advance 0, .advance 0,
        .advance 0, .inner .id 0, .inner .id 0] = some s₀ ∧
      ∃ s₁ t, step s₀ (.begin 1 (deleteSubject "orders" false)) = some s₁ ∧
        exec step s₁ [.deleted 1 (.ok ()), .advance 1, .inner .id 1, .advance 1, .advance 1,
          .inner .guid 1, .advance 1, .advance 1, .reply 0 (.ok ordersSchema), .inner .id 0,
          .inner .id 0] = some t ∧
        s₀.requests = [0] ∧ t.calls 1 = .finished ∧
        (t.side .id).lookup (⟨7⟩ : SchemaId) = some ⟨⟨ordersSchema, 0⟩, 0⟩ :=
    ⟨_, rfl, _, _, rfl, rfl, rfl, rfl, by decide +kernel⟩
  exact h s₀ s₁ t (deleteSubject "orders" false) "orders" 1 _ .id ⟨7⟩ ⟨⟨ordersSchema, 0⟩, 0⟩
    (Reachable.of_exec h₀) (Or.inl ⟨false, rfl⟩) hdelete (Run.of_exec_free h₁) hreturned hstored
    ⟨by simp [hreq], rfl⟩

end Schemreg.Cache
