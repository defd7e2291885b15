import Schemreg.Cache.TwoCaches

/-
  What the lookups by subject leave in the caches, and what a deletion takes away.

  A lookup by subject writes the schema that it returns, and nothing else (`Written`). Once
  it has returned it writes no more, so the section of a later deletion that removes what
  carries the subject removes its entries too, if what it returned carries the subject
  (`deletion_forgets`). This holds in every run, sequential or not.
-/

namespace Schemreg.Cache

open CacheInner (CallId Wrote)
open Transition

variable {s t : State} {e : Event} {c i : CallId} {x : Ident} {subject : String}

/-! ## What a call answers -/

/-- The lookup that a call answers. -/
def Phase.request : Phase → Option Lookup
  | .sampling request | .sampledId request _ | .sampled request _ | .fetching request _
  | .indexing request _ _ _ | .inserting request _ _ _ _ | .returned request _ => some request
  | .looking x key _ => some (.byKey x key)
  | _ => none

/-- The lookup is for the latest schema of the subject, or for one of its versions. -/
def Lookup.bySubject (subject : String) : Lookup → Prop
  | .latest name | .byVersion name _ => name = subject
  | .byKey _ _ => False

theorem Lookup.direct_of_bySubject {request : Lookup} (h : request.bySubject subject) :
    request.direct := by
  rintro x key rfl
  exact h

/-- The lookup whose answer a call waits for. -/
def Phase.awaits : Phase → Option Lookup
  | .fetching request _ => some request
  | .looking x key _ => some (.byKey x key)
  | .child _ id => some (.byKey .id id)
  | _ => none

theorem Phase.request_of_handed {phase : Phase} {request : Lookup} {v : Fetched}
    (h : phase.handed = some (request, v)) : phase.request = some request := by
  cases phase with
  | returned request' result =>
    cases result with
    | ok v' =>
      cases h
      rfl
    | error err => cases h
  | indexing | inserting =>
    cases h
    rfl
  | _ => cases h

theorem request_step (hs : step s e = some t) {request : Lookup}
    (h : (t.calls c).request = some request) :
    (s.calls c).request = some request ∨ (s.calls c = .idle ∧ t.side = s.side) := by
  refine phase_before (P := fun p => p.request = some request) hs h
    fun p q hp hmoves hrequest => ?_
  cases hmoves with
  | begin sides => exact Or.inr ⟨hp, sides⟩
  | run | ran | dropped | deletedOk | deletedError | spawns | spawned | collects | collected
  | warmed | dropLooking | dropFetching | dropDeleting | dropWarming | dropChild => cases hrequest
  | _ => exact Or.inl hrequest

/-- What a call has in hand it keeps. -/
theorem handed_kept (hs : step s e = some t) {request : Lookup} {v : Fetched}
    (h : (s.calls c).handed = some (request, v)) : (t.calls c).handed = some (request, v) := by
  refine phase_kept (P := fun p => p.handed = some (request, v)) hs h
    fun p q _ hmoves hhanded => ?_
  cases hmoves with
  | index | skip | inserted | indexed => exact hhanded
  | _ => cases hhanded

theorem returned_kept (hs : step s e = some t) {request : Lookup} {result : Result Fetched}
    (h : s.calls c = .returned request result) : t.calls c = .returned request result := by
  refine phase_kept (P := fun p => p = .returned request result) hs h fun p q _ hmoves hp => ?_
  subst hp
  cases hmoves

/-- A call waits for the insertion that it has begun. -/
theorem inserting_kept (hs : step s e = some t) {request : Lookup} {v : Fetched}
    {todo : List Ident} {gens : Generations} (h : s.calls c = .inserting request v x todo gens)
    (running : (s.side x).calls c ≠ .finished) : t.calls c = .inserting request v x todo gens := by
  refine phase_kept (P := fun p => p = .inserting request v x todo gens) hs h
    fun p q _ hmoves hp => ?_
  cases hmoves with
  | inserted inner =>
    cases hp
    exact absurd inner running
  | _ => cases hp

/-- When the wrapper begins an insertion, it waits for it. -/
theorem insert_begins {k : x.Key} {v : Fetched} {g : Nat}
    (issued : Issued s e x (.begin c (.insertIfCurrent k v g))) (hs : step s e = some t) :
    ∃ request todo gens, t.calls c = .inserting request v x todo gens := by
  generalize hie : CacheInner.Event.begin c (.insertIfCurrent k v g) = ie at issued
  cases issued with
  | @index d request v' y todo gens key phase known =>
    cases hie
    refine ⟨request, todo, gens, ?_⟩
    unfold step advance at hs
    simp only [phase, known] at hs
    obtain ⟨i, _, rfl⟩ := innerStep_map_eq_some.mp hs
    simp
  | @run d y what todo phase =>
    cases what <;> cases hie
  | _ => cases hie

/-- A cache is looked up for an identifier, or for a child of `warm_cache`. -/
theorem lookup_begins {key : x.Key} (issued : Issued s e x (.begin c (.getOrFetch key))) :
    (∃ gens, s.calls c = .sampled (.byKey x key) gens) ∨ s.calls c = .idle := by
  generalize hie : CacheInner.Event.begin c (.getOrFetch key) = ie at issued
  cases issued with
  | look phase =>
    cases hie
    exact Or.inl ⟨_, phase⟩
  | spawn phase idle =>
    cases hie
    exact Or.inr idle
  | @run _ _ what _ phase => cases what <;> cases hie
  | _ => cases hie

/-! ## What a call writes -/

/-- An insertion is of what its call has in hand, a lookup by subject leads no fetch, and an
    entry that it has written is what it has in hand. -/
structure Written (s : State) : Prop where
  inserting : ∀ x c k v g, (s.side x).calls c = .inserting k v g →
    ∃ request todo gens, s.calls c = .inserting request v x todo gens
  checked : ∀ x c k v b, (s.side x).calls c = .checked k v b →
    ∃ request todo gens, s.calls c = .inserting request v x todo gens
  alone : ∀ c request, (s.calls c).request = some request → request.direct →
    ∀ x key, ¬ (s.methods c x).getting key
  stored : ∀ x k entry request, (s.side x).lookup k = some entry →
    (s.calls entry.writer).request = some request → request.direct →
      (s.calls entry.writer).handed = some (request, entry.value)

/-- What is known of a reachable state about its entries and their writers. -/
structure Kept (s : State) : Prop where
  consistent : Consistent s
  wrote : ∀ x, Wrote (s.side x)
  written : Written s

theorem written_init (maxEntries : Nat) : Written (State.withMaxEntries maxEntries) where
  inserting _ _ _ _ _ h := by cases h
  checked _ _ _ _ _ h := by cases h
  alone _ _ h := by cases h
  stored _ _ _ _ h := by cases h

/-- The writer of an entry is no longer idle. -/
theorem Kept.writer (h : Kept s) {key : x.Key} {entry : CacheInner.Entry Fetched}
    (hlook : (s.side x).lookup key = some entry) : s.calls entry.writer ≠ .idle := by
  intro hidle
  have hquiet := (h.consistent.linked entry.writer).quiet (by rw [hidle]; trivial) x
  have hwrote := h.wrote x key entry hlook
  rw [State.methods] at hquiet
  rw [hquiet] at hwrote
  exact hwrote

theorem alone_step (h : Kept s) (hs : step s e = some t) {request : Lookup}
    (hrequest : (t.calls c).request = some request) (direct : request.direct) (key : x.Key) :
    ¬ (t.methods c x).getting key := by
  intro hget
  rcases request_step hs hrequest with hreq | ⟨hidle, hside⟩
  · rcases side_step hs x with heq | ⟨ie, hinner, issued⟩
    · rw [State.methods, heq] at hget
      exact h.written.alone c request hreq direct x key hget
    · rcases CacheInner.getting_back hinner hget with hold | rfl
      · exact h.written.alone c request hreq direct x key hold
      · rcases lookup_begins issued with ⟨gens, phase⟩ | idle
        · rw [phase] at hreq
          cases hreq
          exact direct x key rfl
        · rw [idle] at hreq
          cases hreq
  · have hquiet := (h.consistent.linked c).quiet (by rw [hidle]; trivial) x
    rw [State.methods, hside] at hget
    rw [State.methods] at hquiet
    rw [hquiet] at hget
    exact hget

theorem written_step (h : Kept s) (hs : step s e = some t) : Written t where
  inserting x c k v g hc := by
    have stays : (s.side x).calls c = .inserting k v g →
        ∃ request todo gens, t.calls c = .inserting request v x todo gens := by
      intro hold
      obtain ⟨request, todo, gens, hp⟩ := h.written.inserting x c k v g hold
      exact ⟨request, todo, gens, inserting_kept hs hp (by rw [hold]; simp)⟩
    rcases side_step hs x with heq | ⟨ie, hinner, issued⟩
    · rw [heq] at hc
      exact stays hc
    · rcases CacheInner.inserting_step hinner hc with hold | ⟨rfl, _⟩
      · exact stays hold
      · -- the wrapper has begun to insert what it has to index
        exact insert_begins issued hs
  checked x c k v b hc := by
    have stays : (s.side x).calls c ≠ .finished →
        (∃ request todo gens, s.calls c = .inserting request v x todo gens) →
          ∃ request todo gens, t.calls c = .inserting request v x todo gens := by
      rintro hrunning ⟨request, todo, gens, hp⟩
      exact ⟨request, todo, gens, inserting_kept hs hp hrunning⟩
    rcases side_step hs x with heq | ⟨ie, hinner, _⟩
    · rw [heq] at hc
      exact stays (by rw [hc]; simp) (h.written.checked x c k v b hc)
    · rcases CacheInner.checked_step hinner hc with hold | ⟨g, _, hins, _⟩
      · exact stays (by rw [hold]; simp) (h.written.checked x c k v b hold)
      · exact stays (by rw [hins]; simp) (h.written.inserting x c k v g hins)
  alone c request hrequest direct x key := alone_step h hs hrequest direct key
  stored x k entry request hlook hrequest direct := by
    have kept : (s.side x).lookup k = some entry →
        (t.calls entry.writer).handed = some (request, entry.value) := by
      intro hold
      rcases request_step hs hrequest with hreq | ⟨hidle, _⟩
      · exact handed_kept hs (h.written.stored x k entry request hold hreq direct)
      · exact absurd hidle (h.writer hold)
    rcases side_step hs x with heq | ⟨ie, hinner, issued⟩
    · rw [heq] at hlook
      exact kept hlook
    · rcases CacheInner.lookup_step hinner hlook with hold | ⟨ws, rfl, hclaimed, _⟩ | ⟨_, hchecked⟩
      · exact kept hold
      · -- a leader writes, which is not a lookup by subject
        have hget : ((s.side x).calls entry.writer).getting k := by
          rw [hclaimed]
          rfl
        exact absurd (CacheInner.getting_step hget hinner (by simp))
          (alone_step h hs hrequest direct k)
      · obtain ⟨request', todo, gens, hp⟩ := h.written.checked x _ k entry.value true hchecked
        have hhanded := handed_kept hs (by rw [hp]; rfl :
          (s.calls entry.writer).handed = some (request', entry.value))
        have hreq := Phase.request_of_handed hhanded
        rw [hrequest] at hreq
        cases hreq
        exact hhanded

theorem kept_init (maxEntries : Nat) : Kept (State.withMaxEntries maxEntries) where
  consistent := consistent_init maxEntries
  wrote _ := CacheInner.wrote_init _ _
  written := written_init maxEntries

theorem kept_step (h : Kept s) (hs : step s e = some t) : Kept t where
  consistent := consistent_step h.consistent hs
  wrote x := by
    rcases side_step hs x with heq | ⟨ie, hinner, _⟩
    · rw [heq]
      exact h.wrote x
    · exact CacheInner.wrote_step (h.wrote x) hinner
  written := written_step h hs

theorem kept_reachable {maxEntries : Nat}
    (h : Reachable step (State.withMaxEntries maxEntries) s) : Kept s := by
  obtain ⟨es, hrun⟩ := h
  exact hrun.invariant (kept_init maxEntries) fun _ _ _ hx _ hs => kept_step hx hs

/-! ## What a deletion takes away -/

/-- No entry of the cache was written by the call. -/
def Gone (c : CallId) (x : Ident) (s : State) : Prop :=
  ∀ key entry, (s.side x).lookup key = some entry → entry.writer ≠ c

/-- A call that has returned writes no more. -/
theorem gone_step {request : Lookup} {result : Result Fetched} (h : Gone c x s) (kept : Kept s)
    (hc : s.calls c = .returned request result) (direct : request.direct)
    (hs : step s e = some t) : Gone c x t := by
  intro key entry hlook
  rcases side_step hs x with heq | ⟨ie, hinner, _⟩
  · rw [heq] at hlook
    exact h key entry hlook
  · rcases CacheInner.lookup_step hinner hlook with hold | ⟨ws, _, hclaimed, _⟩ | ⟨_, hchecked⟩
    · exact h key entry hold
    · rintro rfl
      refine kept.written.alone entry.writer request (by rw [hc]; rfl) direct x key ?_
      rw [State.methods, hclaimed]
      rfl
    · rintro rfl
      obtain ⟨_, _, _, hp⟩ := kept.written.checked x _ key entry.value true hchecked
      rw [hc] at hp
      cases hp

/-- The deletion has yet to remove what carries the subject from the cache `x`, or has ended
    without removing anything. -/
def Phase.ahead (subject : String) (inner : (x : Ident) → CacheInner.Phase x.Key Fetched)
    (x : Ident) : Phase → Prop
  | .deleting name => name = subject
  | .dropping todo => ⟨x, .subject subject⟩ ∈ todo
  | .running y todo =>
      ⟨x, .subject subject⟩ ∈ todo ∨ (y = x ∧ inner x = .matching (carries subject))
  | .failed _ | .dropped => True
  | _ => False

theorem Phase.ahead_of_ended {phase : Phase} {inner : (x : Ident) → CacheInner.Phase x.Key Fetched}
    (h : phase.ended) : phase.ahead subject inner x := by
  cases phase with
  | failed | dropped => trivial
  | _ => cases h

theorem running_ahead {y : Ident} {todo : List ((x : Ident) × Drop x)}
    (hp : s.calls i = .running y todo)
    (h : ⟨x, .subject subject⟩ ∈ todo ∨ (y = x ∧ s.methods i x = .matching (carries subject)))
    (hs : step s e = some t) :
    (t.calls i).ahead subject (t.methods i) x ∨
      ∀ key entry, (t.side x).lookup key = some entry → carries subject entry.value = false := by
  rcases h with hmem | ⟨rfl, hmatching⟩
  · rcases running_step hp hs with hp' | ⟨hp', _⟩
    · exact Or.inl (by rw [hp']; exact Or.inl hmem)
    · exact Or.inl (by rw [hp']; exact hmem)
  · rcases running_step hp hs with hp' | ⟨_, hfin, _⟩
    · rcases side_step hs y with heq | ⟨ie, hinner, _⟩
      · refine Or.inl ?_
        rw [hp']
        refine Or.inr ⟨rfl, ?_⟩
        rw [State.methods, heq]
        exact hmatching
      · rcases CacheInner.matching_step hmatching hinner with hold | ⟨_, hrest, _⟩
        · exact Or.inl (by rw [hp']; exact Or.inr ⟨rfl, hold⟩)
        · exact Or.inr hrest
    · rw [State.methods, hfin] at hmatching
      cases hmatching

/-- The deletion keeps the cache ahead of it until the section that removes has run. -/
theorem ahead_step (h : (s.calls i).ahead subject (s.methods i) x) (hs : step s e = some t) :
    (t.calls i).ahead subject (t.methods i) x ∨
      ∀ key entry, (t.side x).lookup key = some entry → carries subject entry.value = false := by
  cases hp : s.calls i with
  | deleting name =>
    have hname : name = subject := by simpa [hp, Phase.ahead] using h
    subst hname
    rcases deleting_step hp hs with hd | hd | hended
    · exact Or.inl (by rw [hd]; rfl)
    · refine Or.inl ?_
      rw [hd]
      cases x <;> simp [Phase.ahead, Invalidation.drops]
    · exact Or.inl (Phase.ahead_of_ended hended)
  | dropping todo =>
    have hmem : ⟨x, .subject subject⟩ ∈ todo := by simpa [hp, Phase.ahead] using h
    rcases dropping_step hp hs with hd | ⟨hnil, _⟩ | ⟨y, what, rest, heq, hrun, hbump, _⟩
    · exact Or.inl (by rw [hd]; exact hmem)
    · rw [hnil] at hmem
      cases hmem
    · rw [heq] at hmem
      rcases List.mem_cons.mp hmem with hhead | hrest
      · cases hhead
        refine Or.inl ?_
        rw [hrun]
        refine Or.inr ⟨rfl, ?_⟩
        exact (CacheInner.matching_of_begin hbump).1
      · exact Or.inl (by rw [hrun]; exact Or.inl hrest)
  | running y todo =>
    rw [hp] at h
    exact running_ahead hp h hs
  | failed err =>
    exact Or.inl (Phase.ahead_of_ended (ended_step (by rw [hp]; trivial) hs))
  | dropped => exact Or.inl (Phase.ahead_of_ended (ended_step (by rw [hp]; trivial) hs))
  | _ =>
    rw [hp] at h
    cases h

/-- A deletion forgets what a lookup by subject has returned with that subject: when it has
    returned, neither cache holds an entry that the lookup has written. -/
theorem deletion_forgets {s₀ s₁ : State} {request : Lookup} {v : Fetched} {es : List Event}
    {P : State → Event → Prop} (kept : Kept s₀) (hc : s₀.calls c = .returned request (.ok v))
    (direct : request.direct) (hv : carries subject v = true)
    (hbegin : step s₀ (.begin i (.delete subject)) = some s₁) (hrun : Run step P s₁ es t)
    (hreturned : t.calls i = .finished) : Gone c x t := by
  have hstart : Kept s₁ ∧ s₁.calls c = .returned request (.ok v) ∧
      ((s₁.calls i).ahead subject (s₁.methods i) x ∨ Gone c x s₁) := by
    refine ⟨kept_step kept hbegin, returned_kept hbegin hc, Or.inl ?_⟩
    cases step_cases hbegin with
    | begin phase => simp [start, Phase.ahead]
  have hend := Run.invariant
    (I := fun s => Kept s ∧ s.calls c = .returned request (.ok v) ∧
      ((s.calls i).ahead subject (s.methods i) x ∨ Gone c x s)) hrun hstart ?_
  · obtain ⟨_, _, hahead | hgone⟩ := hend
    · rw [hreturned] at hahead
      cases hahead
    · exact hgone
  · rintro s e t ⟨hk, hret, hstage⟩ _ hs
    have hk' := kept_step hk hs
    have hret' := returned_kept hs hret
    refine ⟨hk', hret', ?_⟩
    rcases hstage with hahead | hgone
    · rcases ahead_step hahead hs with hahead' | hclean
      · exact Or.inl hahead'
      · -- what the call has written is what it has returned, and it carries the subject
        refine Or.inr fun key entry hlook => ?_
        rintro rfl
        have hhanded := hk'.written.stored x key entry request hlook (by rw [hret']; rfl) direct
        rw [hret'] at hhanded
        cases hhanded
        have := hclean key entry hlook
        rw [hv] at this
        cases this
    · exact Or.inr (gone_step hgone hk hret direct hs)

end Schemreg.Cache
