import Schemreg.CacheInner.Effects

/-
  Single flight: one fetch per key.

  The runs considered are those the guarantee is about: only `get_or_fetch` is called, no
  leader is dropped, no fetch fails and nothing is evicted (`Undisturbed`). In such a run a
  key is covered from the first election on: its leader's slot is registered, or the leader
  is about to write the store, or the store holds an entry (`Covered`). A role section finds
  the slot or the entry, but not the leader in between: it re-checks the store and the
  in-flight map, and the leader is in neither (`elected_twice`). `single_flight` is the law
  for the runs in which no role section comes at that moment.
-/

namespace Schemreg.CacheInner

open Wrapping Transition

variable {K V : Type} [DecidableEq K] {s t : State K V} {e : Event K V}

/-- No invalidation, no `insert_if_current`, no dropped leader, no failed fetch and no
    eviction. -/
structure Undisturbed (s : State K V) (e : Event K V) : Prop where
  begins : ∀ c op, e = .begin c op → ∃ key, op = .getOrFetch key
  drops : ∀ c, e = .drop c → ∃ key, s.calls c = .waiting key
  replies : ∀ c r, e = .reply c r → ∃ v, r = .ok v
  stores : ∀ c key v ws, e = .resume c → s.calls c = .claimed key v ws →
    s.cache.store.hasRoom s.cache.maxEntries key = true

/-- No role section for `k` runs while a leader of `k` is between the section that claims
    its slot and the section that writes the store. -/
def NoLateElection (s : State K V) (e : Event K V) : Prop :=
  ∀ c k, e = .resume c → s.calls c = .missed k → ∀ l v ws, s.calls l ≠ .claimed k v ws

/-- A phase of `get_or_fetch` in an undisturbed run. -/
def Phase.coalescing : Phase K V → Prop
  | .idle | .missed _ | .waiting _ | .elected _ _ | .fetching _ _ | .claimed _ _ _
  | .returned _ _ | .finished => True
  | .fetched _ _ r | .answering _ r _ => ∃ v, r = .ok v
  | _ => False

/-- Leader `l` holds the slot of `k`, or is about to write the store, or the store holds an
    entry. -/
def Covered (s : State K V) (k : K) (l : CallId) (token : Nat) : Prop :=
  ((s.calls l).leads = some (k, token) ∧
      ∃ entry, s.registered k = some entry ∧ entry.token = token) ∨
    (∃ v ws, s.calls l = .claimed k v ws) ∨
    (∃ entry, s.lookup k = some entry)

structure SingleFlight (s : State K V) : Prop where
  tokens : Tokens s
  phases : ∀ c, (s.calls c).coalescing
  unique : ∀ k l l' token token', s.roles l = some (.leader k token) →
    s.roles l' = some (.leader k token') → l = l'
  covered : ∀ k l token, s.roles l = some (.leader k token) → Covered s k l token

theorem singleFlight_init (maxEntries : Option Nat) (err : K → SchemaRegError) :
    SingleFlight (State.init maxEntries err : State K V) where
  tokens := tokens_init maxEntries err
  phases _ := trivial
  unique _ _ _ _ _ h := by cases h
  covered _ _ _ h := by cases h

/-! ## Steps that leave a leader where it is -/

/-- A step that keeps the slots, the entries and the leader's phase keeps it covered. -/
theorem Covered.frame {k : K} {l : CallId} {token : Nat} (h : Covered s k l token)
    (registered : ∀ entry, s.registered k = some entry →
      ∃ entry', t.registered k = some entry' ∧ entry'.token = entry.token)
    (lookup : ∀ entry, s.lookup k = some entry → t.lookup k = some entry)
    (leads : (s.calls l).leads = some (k, token) → (t.calls l).leads = some (k, token))
    (claimed : ∀ v ws, s.calls l = .claimed k v ws →
      t.calls l = .claimed k v ws ∨ ∃ entry, t.lookup k = some entry) : Covered t k l token := by
  rcases h with ⟨hl, entry, hreg, htok⟩ | ⟨v, ws, hc⟩ | ⟨entry, hs⟩
  · obtain ⟨entry', hreg', htok'⟩ := registered entry hreg
    exact Or.inl ⟨leads hl, entry', hreg', htok'.trans htok⟩
  · rcases claimed v ws hc with hc' | hs
    · exact Or.inr (Or.inl ⟨v, ws, hc'⟩)
    · exact Or.inr (Or.inr hs)
  · exact Or.inr (Or.inr ⟨entry, lookup entry hs⟩)

/-- A step of another call, which keeps the slots' tokens and the store. -/
theorem Covered.unmoved {k : K} {l : CallId} {token : Nat} (h : Covered s k l token)
    (registered : ∀ entry, s.registered k = some entry →
      ∃ entry', t.registered k = some entry' ∧ entry'.token = entry.token)
    (lookup : t.lookup k = s.lookup k) (calls : t.calls l = s.calls l) : Covered t k l token := by
  refine h.frame registered ?_ ?_ ?_
  · exact fun entry hs => lookup.trans hs
  · intro hl
    rwa [calls]
  · exact fun v ws hc => Or.inl (calls.trans hc)

/-- A step of a call that neither leads nor has claimed, which touches neither the slots
    nor the store. -/
theorem Covered.goto {k : K} {l : CallId} {token : Nat} (h : Covered s k l token) {c : CallId}
    (phase : Phase K V) (lead : (s.calls c).leads = none)
    (claimed : ∀ v ws, s.calls c ≠ .claimed k v ws) : Covered (s.goto c phase) k l token := by
  refine h.frame ?_ ?_ ?_ ?_
  · exact fun entry hreg => ⟨entry, hreg, rfl⟩
  · exact fun entry hs => hs
  · intro hl
    have hlc : l ≠ c := by
      intro hlc
      rw [hlc, lead] at hl
      cases hl
    simpa [hlc] using hl
  · intro v ws hc
    have hlc : l ≠ c := fun hlc => claimed v ws (hlc ▸ hc)
    exact Or.inl (by simpa [hlc] using hc)

/-- A leader that moves on and still leads. -/
theorem Covered.advance {k : K} {l : CallId} {token : Nat} (h : Covered s k l token) {c : CallId}
    (phase : Phase K V) (lead : (s.calls c).leads = phase.leads)
    (claimed : ∀ v ws, s.calls c ≠ .claimed k v ws) : Covered (s.goto c phase) k l token := by
  refine h.frame ?_ ?_ ?_ ?_
  · exact fun entry hreg => ⟨entry, hreg, rfl⟩
  · exact fun entry hs => hs
  · intro hl
    by_cases hlc : l = c
    · subst hlc
      simpa [← lead] using hl
    · simpa [hlc] using hl
  · intro v ws hc
    have hlc : l ≠ c := fun hlc => claimed v ws (hlc ▸ hc)
    exact Or.inl (by simpa [hlc] using hc)

/-! ## One step -/

theorem phases_step (h : SingleFlight s) (guard : Undisturbed s e) (hs : step s e = some t) :
    ∀ c, (t.calls c).coalescing := by
  intro c
  have before := h.phases e.call
  by_cases hc : c = e.call
  · subst hc
    cases step_cases hs with
    | reply phase =>
      obtain ⟨v, rfl⟩ := guard.replies _ _ rfl
      simp [Event.call, Phase.coalescing]
    | beginInvalidate => obtain ⟨_, hop⟩ := guard.begins _ _ rfl; cases hop
    | beginMatching => obtain ⟨_, hop⟩ := guard.begins _ _ rfl; cases hop
    | beginClear => obtain ⟨_, hop⟩ := guard.begins _ _ rfl; cases hop
    | beginInsert => obtain ⟨_, hop⟩ := guard.begins _ _ rfl; cases hop
    | dropLeader phase => obtain ⟨_, hw⟩ := guard.drops _ rfl; rw [phase] at hw; cases hw
    | dropSuperseded phase => obtain ⟨_, hw⟩ := guard.drops _ rfl; rw [phase] at hw; cases hw
    | _ => simp_all [Event.call, Phase.coalescing]
  · rw [calls_other hs hc]
    exact h.phases c

/-- The role section is the only one that makes a leader; it does so when nobody leads a
    fetch for the key. -/
theorem unique_step (h : SingleFlight s) (late : NoLateElection s e) (hs : step s e = some t) :
    ∀ k l l' token token', t.roles l = some (.leader k token) →
      t.roles l' = some (.leader k token') → l = l' := by
  intro k l l' token token' hl hl'
  cases step_cases hs with
  | @join c key entry phase free absent inFlight =>
    have hlc : l ≠ c := by rintro rfl; simp at hl
    have hlc' : l' ≠ c := by rintro rfl; simp at hl'
    exact h.unique k l l' token token' (by simpa [hlc] using hl) (by simpa [hlc'] using hl')
  | @elect c key phase free absent inFlight =>
    -- nobody leads a fetch for `key` yet: it would be covered
    have nobody : ∀ d tok, s.roles d ≠ some (.leader key tok) := by
      intro d tok hd
      rcases h.covered key d tok hd with ⟨_, entry, hreg, _⟩ | ⟨v, ws, hc⟩ | ⟨entry, hst⟩
      · rw [inFlight] at hreg; cases hreg
      · exact late c key rfl phase d v ws hc
      · rw [absent] at hst; cases hst
    by_cases hlc : l = c <;> by_cases hlc' : l' = c
    · rw [hlc, hlc']
    · have hkey : key = k := by
        rw [hlc] at hl
        exact (by simpa using hl : _ ∧ _).1
      exact absurd (by simpa [hlc', hkey] using hl') (nobody l' token')
    · have hkey : key = k := by
        rw [hlc'] at hl'
        exact (by simpa using hl' : _ ∧ _).1
      exact absurd (by simpa [hlc, hkey] using hl) (nobody l token)
    · exact h.unique k l l' token token' (by simpa [hlc] using hl) (by simpa [hlc'] using hl')
  | _ => exact h.unique k l l' token token' hl hl'

/-- A claim turns the leader's slot into a pending write, and leaves the slots of the other
    keys alone. -/
theorem covered_claim (h : SingleFlight s) {c l : CallId} {key k : K} {token token' : Nat} {v : V}
    {entry : InFlight} (phase : s.calls c = .fetched key token (.ok v))
    (role : s.roles l = some (.leader k token')) :
    Covered ((s.withInFlight (s.cache.inFlight.erase key)).goto c (.claimed key v entry.waiters))
      k l token' := by
  have hrole : s.roles c = some (.leader key token) := h.tokens.role phase
  by_cases hlc : l = c
  · subst hlc
    have hkey : key = k ∧ token = token' := by
      rw [hrole] at role
      simpa using role
    obtain ⟨rfl, rfl⟩ := hkey
    exact Or.inr (Or.inl ⟨v, entry.waiters, by simp⟩)
  · have hkey : k ≠ key := fun hk => hlc (h.unique k l c token' token role (hk ▸ hrole))
    refine (h.covered k l token' role).unmoved ?_ rfl (by simp [hlc])
    intro entry' hreg
    refine ⟨entry', ?_, rfl⟩
    have hne : AList.lookup k (s.cache.inFlight.erase key) = AList.lookup k s.cache.inFlight :=
      AList.lookup_erase_ne hkey
    exact hne.trans hreg

/-- A store write with room for its entry covers its key and keeps the other entries. -/
theorem covered_store {c l : CallId} {key k : K} {token : Nat} {v : V} {ws : List CallId}
    (h : Covered s k l token) (phase : s.calls c = .claimed key v ws)
    (room : s.cache.store.hasRoom s.cache.maxEntries key = true) :
    Covered ((s.withStore (s.cache.store.insertLocked s.cache.maxEntries key v c)).goto c
      (.answering key (.ok v) ws)) k l token := by
  have hlook : ∀ k', ((s.withStore (s.cache.store.insertLocked s.cache.maxEntries key v c)).goto c
      (.answering key (.ok v) ws)).lookup k' =
        if k' = key then some ⟨v, c⟩ else s.lookup k' := by
    intro k'
    exact Store.lookup_insertLocked_of_room room k'
  by_cases hk : k = key
  · exact Or.inr (Or.inr ⟨⟨v, c⟩, by rw [hlook, if_pos hk]⟩)
  · refine h.frame ?_ ?_ ?_ ?_
    · exact fun entry hreg => ⟨entry, hreg, rfl⟩
    · exact fun entry hs => by rw [hlook, if_neg hk]; exact hs
    · intro hl
      have hlc : l ≠ c := by
        intro hlc
        rw [hlc, phase] at hl
        cases hl
      simpa [hlc] using hl
    · intro v' ws' hc
      have hlc : l ≠ c := by
        intro hlc
        rw [hlc, phase] at hc
        cases hc
        exact hk rfl
      exact Or.inl (by simpa [hlc] using hc)

theorem covered_step (h : SingleFlight s) (guard : Undisturbed s e) (hs : step s e = some t) :
    ∀ k l token, t.roles l = some (.leader k token) → Covered t k l token := by
  intro k l token hl
  have before : s.roles l = some (.leader k token) → Covered s k l token := h.covered k l token
  have phases := h.phases e.call
  cases step_cases hs with
  | hit idle => exact (before hl).goto _ (by rw [idle]; rfl) (by rw [idle]; nofun)
  | miss idle => exact (before hl).goto _ (by rw [idle]; rfl) (by rw [idle]; nofun)
  | recheckHit phase => exact (before hl).goto _ (by rw [phase]; rfl) (by rw [phase]; nofun)
  | wake phase => exact (before hl).goto _ (by rw [phase]; rfl) (by rw [phase]; nofun)
  | answer phase => exact (before hl).goto _ (by rw [phase]; rfl) (by rw [phase]; nofun)
  | answered phase => exact (before hl).goto _ (by rw [phase]; rfl) (by rw [phase]; nofun)
  | dropWaiter phase => exact (before hl).goto _ (by rw [phase]; rfl) (by rw [phase]; nofun)
  | fetch phase => exact (before hl).advance _ (by rw [phase]; rfl) (by rw [phase]; nofun)
  | reply phase => exact (before hl).advance _ (by rw [phase]; rfl) (by rw [phase]; nofun)
  | @join c key entry phase free absent inFlight =>
    have hlc : l ≠ c := by rintro rfl; simp at hl
    refine (before (by simpa [hlc] using hl)).unmoved ?_ rfl (by simp [hlc])
    intro entry' hreg
    by_cases hk : k = key
    · subst hk
      rw [inFlight] at hreg
      refine ⟨{ entry with waiters := entry.waiters ++ [c] }, ?_, ?_⟩
      · simp [State.registered, State.withInFlight]
      · show entry.token = entry'.token
        rw [Option.some.inj hreg]
    · refine ⟨entry', ?_, rfl⟩
      have hins := registered_insert s key k
        { entry with waiters := entry.waiters ++ [c] }
      rw [if_neg hk] at hins
      exact hins.trans hreg
  | @elect c key phase free absent inFlight =>
    by_cases hlc : l = c
    · subst hlc
      have hkey : key = k ∧ s.cache.nextToken + 1 = token := by simpa using hl
      obtain ⟨rfl, rfl⟩ := hkey
      refine Or.inl ⟨by simp [Phase.leads], ⟨s.cache.nextToken + 1, []⟩, ?_, rfl⟩
      simp [State.registered]
    · refine (before (by simpa [hlc] using hl)).unmoved ?_ rfl (by simp [hlc])
      intro entry' hreg
      have hk : k ≠ key := by
        rintro rfl
        rw [inFlight] at hreg
        cases hreg
      refine ⟨entry', ?_, rfl⟩
      have hins := registered_insert s key k ⟨s.cache.nextToken + 1, []⟩
      rw [if_neg hk] at hins
      exact hins.trans hreg
  | claimOk phase inFlight same => exact covered_claim h phase hl
  | @claimError c key token' err entry phase inFlight same =>
    rw [Event.call, phase] at phases
    obtain ⟨v, hv⟩ := phases
    cases hv
  | @superseded c key token' r phase other =>
    by_cases hlc : l = c
    · -- its slot is still there, unless the store holds an entry
      subst hlc
      have hrole : s.roles l = some (.leader key token') := h.tokens.role phase
      have hkey : key = k ∧ token' = token := by
        have hl' : s.roles l = some (.leader k token) := hl
        rw [hrole] at hl'
        simpa using hl'
      obtain ⟨rfl, rfl⟩ := hkey
      rcases before hl with ⟨_, entry, hreg, htok⟩ | ⟨v, ws, hc⟩ | hstored
      · exact absurd (by rw [htok]) (other entry hreg)
      · rw [phase] at hc; cases hc
      · exact Or.inr (Or.inr hstored)
    · exact (before hl).unmoved (fun entry hreg => ⟨entry, hreg, rfl⟩) rfl (by simp [hlc])
  | @keep c key v ws entry phase free stored =>
    refine (before hl).frame ?_ ?_ ?_ ?_
    · exact fun entry hreg => ⟨entry, hreg, rfl⟩
    · exact fun _ hs => hs
    · intro hlead
      have hlc : l ≠ c := by
        rintro rfl
        rw [phase] at hlead
        cases hlead
      simpa [hlc] using hlead
    · intro v' ws' hc
      by_cases hlc : l = c
      · subst hlc
        rw [phase] at hc
        cases hc
        exact Or.inr ⟨entry, stored⟩
      · exact Or.inl (by simpa [hlc] using hc)
  | @store c key v ws phase free absent =>
    exact covered_store (before hl) phase (guard.stores c key v ws rfl phase)
  | beginInvalidate => obtain ⟨_, hop⟩ := guard.begins _ _ rfl; cases hop
  | beginMatching => obtain ⟨_, hop⟩ := guard.begins _ _ rfl; cases hop
  | beginClear => obtain ⟨_, hop⟩ := guard.begins _ _ rfl; cases hop
  | beginInsert => obtain ⟨_, hop⟩ := guard.begins _ _ rfl; cases hop
  | dropLeader phase => obtain ⟨_, hw⟩ := guard.drops _ rfl; rw [phase] at hw; cases hw
  | dropSuperseded phase => obtain ⟨_, hw⟩ := guard.drops _ rfl; rw [phase] at hw; cases hw
  | _ =>
    -- the other sections belong to calls that do not occur
    simp_all [Event.call, Phase.coalescing]

theorem singleFlight_step (h : SingleFlight s) (guard : Undisturbed s e ∧ NoLateElection s e)
    (hs : step s e = some t) : SingleFlight t where
  tokens := tokens_step h.tokens hs
  phases := phases_step h guard.1 hs
  unique := unique_step h guard.2 hs
  covered := covered_step h guard.1 hs

/-! ## The law -/

theorem undisturbed_begin (c : CallId) (key : K) : Undisturbed s (.begin c (.getOrFetch key)) where
  begins c' op h := by cases h; exact ⟨key, rfl⟩
  drops c' h := by cases h
  replies c' r h := by cases h
  stores c' k v ws h := by cases h

theorem undisturbed_reply (c : CallId) (v : V) : Undisturbed s (.reply c (.ok v)) where
  begins c' op h := by cases h
  drops c' h := by cases h
  replies c' r h := by cases h; exact ⟨v, rfl⟩
  stores c' k v ws h := by cases h

/-- A section other than a store write disturbs nothing. -/
theorem undisturbed_resume {c : CallId} (h : ∀ key v ws, s.calls c ≠ .claimed key v ws) :
    Undisturbed s (.resume c) where
  begins c' op h := by cases h
  drops c' h := by cases h
  replies c' r h := by cases h
  stores c' k v ws he hc := by cases he; exact absurd hc (h k v ws)

/-- `get_or_fetch` starts at most one fetch for a key over the whole run. -/
theorem single_flight {maxEntries : Option Nat} {err : K → SchemaRegError}
    {es : List (Event K V)} {k : K} {l l' : CallId}
    (hrun : Run step (fun x e => Undisturbed x e ∧ NoLateElection x e)
      (State.init maxEntries err) es s)
    (hstarted : s.fetchStarted l k) (hstarted' : s.fetchStarted l' k) : l = l' := by
  have hinv : SingleFlight s :=
    hrun.invariant (singleFlight_init maxEntries err) fun _ _ _ hx guard hs =>
      singleFlight_step hx guard hs
  obtain ⟨token, hrole, _⟩ := hstarted
  obtain ⟨token', hrole', _⟩ := hstarted'
  exact hinv.unique k l l' token token' hrole hrole'

/-- A caller that comes while the leader still holds its slot joins it: call 0 leads, call 1
    waits, and call 0 is the only one whose fetch has started. -/
theorem single_flight_two_callers :
    ∃ s : State Nat Nat, s.fetchStarted 0 7 ∧ s.calls 1 = .waiting 7 ∧
      ∀ l, s.fetchStarted l 7 → l = 0 := by
  obtain ⟨s₁, s₂, s₃, s₄, s, h₁, h₂, h₃, h₄, h₅, hp₁, hp₂, hp₄, htok₁, htok₄, hrole₄, hcall₄, hrole,
      hcall, hwait⟩ : ∃ s₁ s₂ s₃ s₄ s : State Nat Nat,
      step (State.init (some 1000) fun _ => .invalidState "cancelled")
        (.begin 0 (.getOrFetch 7)) = some s₁ ∧
      step s₁ (.resume 0) = some s₂ ∧ step s₂ (.resume 0) = some s₃ ∧
      step s₃ (.begin 1 (.getOrFetch 7)) = some s₄ ∧ step s₄ (.resume 1) = some s ∧
      s₁.calls 0 = .missed 7 ∧ s₂.calls 0 = .elected 7 1 ∧ s₄.calls 1 = .missed 7 ∧
      s₁.cache.nextToken = 0 ∧ s₄.cache.nextToken = 1 ∧
      s₄.roles 0 = some (.leader 7 1) ∧ s₄.calls 0 = .fetching 7 1 ∧
      s.roles 0 = some (.leader 7 1) ∧ s.calls 0 = .fetching 7 1 ∧ s.calls 1 = .waiting 7 :=
    ⟨_, _, _, _, _, rfl, rfl, rfl, rfl, rfl, rfl, rfl, rfl, rfl, rfl, by decide, rfl, by decide,
      rfl, rfl⟩
  have htokens₁ := tokens_step (tokens_init _ _) h₁
  have htokens₄ := tokens_step (tokens_step (tokens_step htokens₁ h₂) h₃) h₄
  have first : NoLateElection s₁ (.resume 0) := by
    intro c k _ _ l v ws hclaimed
    obtain ⟨token, hl⟩ := htokens₁.role hclaimed
    have := htokens₁.issued l k token hl
    omega
  have second : NoLateElection s₄ (.resume 1) := by
    intro c k _ _ l v ws hclaimed
    obtain ⟨token, hl⟩ := htokens₄.role hclaimed
    have hzero := htokens₄.only htok₄ hrole₄ hl
    rw [hzero, hcall₄] at hclaimed
    cases hclaimed
  have hrun : Run step (fun x e => Undisturbed x e ∧ NoLateElection x e)
      (State.init (some 1000) fun _ => .invalidState "cancelled")
      [.begin 0 (.getOrFetch 7), .resume 0, .resume 0, .begin 1 (.getOrFetch 7), .resume 1] s :=
    Run.cons ⟨undisturbed_begin 0 7, fun _ _ he => by cases he⟩ h₁ <|
    Run.cons ⟨undisturbed_resume (by rw [hp₁]; nofun), first⟩ h₂ <|
    Run.cons ⟨undisturbed_resume (by rw [hp₂]; nofun),
      fun c k he hm => by cases he; rw [hp₂] at hm; cases hm⟩ h₃ <|
    Run.cons ⟨undisturbed_begin 1 7, fun _ _ he => by cases he⟩ h₄ <|
    Run.one ⟨undisturbed_resume (by rw [hp₄]; nofun), second⟩ h₅
  have hzero : s.fetchStarted 0 7 := ⟨1, hrole, by rw [hcall]; nofun⟩
  exact ⟨s, hzero, hwait, fun l hl => single_flight hrun hl hzero⟩

/-- The law does not hold of every undisturbed run: a caller whose role section comes after
    the claim of the first leader and before its store write starts the fetch again. -/
theorem elected_twice :
    ¬ ∀ (es : List (Event Nat Nat)) (s : State Nat Nat) (k l l' : Nat),
      Run step Undisturbed (State.init (some 1000) fun _ => .invalidState "cancelled") es s →
      s.fetchStarted l k → s.fetchStarted l' k → l = l' := by
  intro h
  obtain ⟨s₁, s₂, s₃, s₄, s₅, s₆, s₇, s, h₁, h₂, h₃, h₄, h₅, h₆, h₇, h₈, hp₁, hp₂, hp₄, hp₆, hp₇,
      hrole, hrole', hcall, hcall'⟩ : ∃ s₁ s₂ s₃ s₄ s₅ s₆ s₇ s : State Nat Nat,
      step (State.init (some 1000) fun _ => .invalidState "cancelled")
        (.begin 0 (.getOrFetch 7)) = some s₁ ∧
      step s₁ (.resume 0) = some s₂ ∧ step s₂ (.resume 0) = some s₃ ∧
      step s₃ (.reply 0 (.ok 1)) = some s₄ ∧ step s₄ (.resume 0) = some s₅ ∧
      step s₅ (.begin 1 (.getOrFetch 7)) = some s₆ ∧ step s₆ (.resume 1) = some s₇ ∧
      step s₇ (.resume 1) = some s ∧
      s₁.calls 0 = .missed 7 ∧ s₂.calls 0 = .elected 7 1 ∧ s₄.calls 0 = .fetched 7 1 (.ok 1) ∧
      s₆.calls 1 = .missed 7 ∧ s₇.calls 1 = .elected 7 2 ∧
      s.roles 0 = some (.leader 7 1) ∧ s.roles 1 = some (.leader 7 2) ∧
      s.calls 0 = .claimed 7 1 [] ∧ s.calls 1 = .fetching 7 2 :=
    ⟨_, _, _, _, _, _, _, _, rfl, rfl, rfl, rfl, rfl, rfl, rfl, rfl, rfl, rfl, rfl, rfl, rfl,
      by decide, by decide, rfl, rfl⟩
  have hrun : Run step Undisturbed (State.init (some 1000) fun _ => .invalidState "cancelled")
      [.begin 0 (.getOrFetch 7), .resume 0, .resume 0, .reply 0 (.ok 1), .resume 0,
        .begin 1 (.getOrFetch 7), .resume 1, .resume 1] s :=
    Run.cons (undisturbed_begin 0 7) h₁ <| Run.cons (undisturbed_resume (by rw [hp₁]; nofun)) h₂ <|
    Run.cons (undisturbed_resume (by rw [hp₂]; nofun)) h₃ <| Run.cons (undisturbed_reply 0 1) h₄ <|
    Run.cons (undisturbed_resume (by rw [hp₄]; nofun)) h₅ <| Run.cons (undisturbed_begin 1 7) h₆ <|
    Run.cons (undisturbed_resume (by rw [hp₆]; nofun)) h₇ <|
    Run.one (undisturbed_resume (by rw [hp₇]; nofun)) h₈
  have hsame := h _ s 7 0 1 hrun ⟨1, hrole, by rw [hcall]; nofun⟩ ⟨2, hrole', by rw [hcall']; nofun⟩
  cases hsame

end Schemreg.CacheInner
