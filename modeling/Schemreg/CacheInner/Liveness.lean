import Schemreg.CacheInner.Waiters
import Schemreg.CacheInner.Bookkeeping
import Schemreg.Lib.Ranking

/-
  Every call of the cache comes to its end.

  * No livelock. `Phase.work` is the number of steps that a call has left at most, with one for
    every waiter in its hands; a waiter in a slot counts there. Every step but `begin` pays one
    unit of it, so the cache takes no more than seven steps for each call
    (`steps_within_seven_per_call`), however the calls interleave, and whether fetches succeed,
    fail or are dropped.
  * No deadlock. A waiter that has no answer yet is in a slot, whose leader is alive, or in the
    hands of a call that still runs; the store's lock is held only by a call that can go on. So
    the cache never waits for anything but a fetch that its caller has supplied
    (`only_fetches_are_awaited`).

  A token that wraps around does no harm here: a slot that is taken by a stranger is still taken
  by a call that answers its waiters.
-/

namespace Schemreg.CacheInner

open Wrapping Transition

variable {K V : Type} [DecidableEq K] {s t : State K V} {e : Event K V}

/-! ## The work that is left -/

/-- The steps that a call in this phase takes at most, apart from those for waiters that are
    still in a slot. -/
def Phase.work : Phase K V → Nat
  | .idle | .returned _ _ | .finished => 0
  | .missed _ => 6
  | .waiting _ => 1
  | .elected _ _ => 5
  | .fetching _ _ => 4
  | .fetched _ _ _ => 3
  | .claimed _ _ waiters => waiters.length + 2
  | .answering _ _ waiters => waiters.length + 1
  | .invalidating _ | .matching _ | .clearing => 3
  | .matched _ | .inserting _ _ _ => 2
  | .invalidated _ waiters => waiters.length + 2
  | .drained cancelled => cancelled.length + 2
  | .notifying cancelled => cancelled.length + 1
  | .checked _ _ _ => 1

/-- The waiters in all slots. -/
def queued (inFlight : AList fun _ : K => InFlight) : Nat :=
  (inFlight.entries.map fun slot => slot.2.waiters.length).sum

/-- What a call brings with it: its own start, and what it has to do after that. -/
def Event.credit : Event K V → Nat
  | .begin _ (.getOrFetch _) => 7
  | .begin _ (.invalidate _) | .begin _ (.invalidateMatching _) | .begin _ .clear => 4
  | .begin _ (.insertIfCurrent _ _ _) => 3
  | .resume _ | .reply _ _ | .drop _ => 0

/-! ## The waiters in the slots -/

variable {inFlight : AList fun _ : K => InFlight} {key : K} {entry : InFlight}

theorem queued_erase (h : inFlight.lookup key = some entry) :
    queued (inFlight.erase key) + entry.waiters.length = queued inFlight := by
  have hkey : key ∈ inFlight.entries.keys := by
    have hmem : key ∈ inFlight := AList.lookup_isSome.mp (by rw [h]; rfl)
    exact hmem
  obtain ⟨found, before, after, hbefore, hsplit, herase⟩ := List.exists_of_kerase hkey
  have hfound : entry = found := by
    have hlookup : inFlight.entries.dlookup key = some found := by
      rw [hsplit, List.dlookup_append, List.dlookup_eq_none.mpr hbefore]
      simp
    exact Option.some.inj (h.symm.trans hlookup)
  subst hfound
  have hwhole : queued inFlight = ((before ++ ⟨key, entry⟩ :: after).map
      fun slot : Sigma fun _ : K => InFlight => slot.2.waiters.length).sum := by
    rw [← hsplit]
    rfl
  have hrest : queued (inFlight.erase key) = ((before ++ after).map
      fun slot : Sigma fun _ : K => InFlight => slot.2.waiters.length).sum := by
    rw [← herase]
    rfl
  rw [hwhole, hrest]
  simp only [List.map_append, List.map_cons, List.sum_append, List.sum_cons]
  omega

theorem erase_of_absent (h : inFlight.lookup key = none) : inFlight.erase key = inFlight := by
  have hkey : key ∉ inFlight.entries.keys := AList.lookup_eq_none.mp h
  exact AList.ext (List.kerase_of_notMem_keys hkey)

theorem queued_insert (inFlight : AList fun _ : K => InFlight) (key : K) (entry : InFlight) :
    queued (inFlight.insert key entry) = entry.waiters.length + queued (inFlight.erase key) := rfl

theorem queued_cancelKeys (keys : List K) (inFlight : AList fun _ : K => InFlight) :
    (InMemoryCache.cancelKeys keys inFlight).2.length +
      queued (InMemoryCache.cancelKeys keys inFlight).1 = queued inFlight := by
  induction keys generalizing inFlight with
  | nil => simp [InMemoryCache.cancelKeys]
  | cons key keys ih =>
    unfold InMemoryCache.cancelKeys
    split
    · rename_i entry hentry
      have hrest := ih (inFlight.erase key)
      have herase := queued_erase hentry
      simp only [List.length_append, List.length_map]
      omega
    · exact ih inFlight

omit [DecidableEq K] in
theorem length_drainInFlight (s : State K V) :
    s.cache.drainInFlight.2.length = queued s.cache.inFlight := by
  simp [InMemoryCache.drainInFlight, queued, List.length_flatMap]

/-! ## Every step is paid for -/

/-- A waiter moves from its slot into the hands of the call that takes the slot. -/
theorem queued_take (h : s.registered key = some entry) :
    queued (s.cache.inFlight.erase key) + entry.waiters.length = queued s.cache.inFlight :=
  queued_erase h

theorem queued_remove (s : State K V) (key : K) :
    queued (s.cache.inFlight.erase key) +
      (((s.registered key).map InFlight.waiters).getD []).length = queued s.cache.inFlight := by
  cases h : s.registered key with
  | none => simp [erase_of_absent h]
  | some entry => simpa using queued_take h

theorem pays_step (hs : step s e = some t) :
    (t.calls e.call).work + queued t.cache.inFlight + 1 ≤
      (s.calls e.call).work + queued s.cache.inFlight + e.credit := by
  cases step_cases hs with
  | @join c key entry phase free absent inFlight =>
    have htake := queued_take inFlight
    have hinsert := queued_insert s.cache.inFlight key
      { entry with waiters := entry.waiters ++ [c] }
    have hlength : (entry.waiters ++ [c]).length = entry.waiters.length + 1 := List.length_append
    rw [hlength] at hinsert
    simp [Event.call, Event.credit, Phase.work, phase, State.withInFlight]
    omega
  | @elect c key phase free absent inFlight =>
    have hinsert := queued_insert s.cache.inFlight key ⟨s.cache.nextToken + 1, []⟩
    rw [erase_of_absent inFlight, List.length_nil] at hinsert
    simp [Event.call, Event.credit, Phase.work, phase]
    omega
  | claimOk phase inFlight | claimError phase inFlight | dropLeader phase inFlight =>
    have htake := queued_take inFlight
    simp [Event.call, Event.credit, Phase.work, phase, State.withInFlight]
    omega
  | @invalidateInFlight c key phase =>
    have hremove := queued_remove s key
    simp [Event.call, Event.credit, Phase.work, phase, State.withInFlight]
    omega
  | @matchInFlight c removed phase =>
    have hcancel := queued_cancelKeys removed s.cache.inFlight
    simp [Event.call, Event.credit, Phase.work, phase, State.withInFlight]
    omega
  | @clearInFlight c phase =>
    have hdrain := length_drainInFlight s
    have hempty : queued (∅ : AList fun _ : K => InFlight) = 0 := rfl
    simp [Event.call, Event.credit, Phase.work, phase, State.withInFlight, hempty]
    omega
  | _ =>
    simp_all [Event.call, Event.credit, Phase.work, State.withStore, InMemoryCache.bump] <;> omega

/-- The steps of a run are at most the credit of the calls that it has begun. -/
theorem length_le_credit {P : State K V → Event K V → Prop} {maxEntries : Option Nat}
    {err : K → SchemaRegError} {es : List (Event K V)}
    (hrun : Run step P (State.init maxEntries err) es s) :
    es.length + work (fun s c => (s.calls c).work) (parties Event.call es) s +
      queued s.cache.inFlight ≤ (es.map Event.credit).sum := by
  have hle := hrun.length_le_credit (fun s c => (s.calls c).work)
    (fun s => queued s.cache.inFlight) Event.call Event.credit
    (fun _ => rfl)
    (fun x e y hs d hd => by rw [calls_other hs hd])
    (fun x e y _ hs => pays_step hs)
  have hempty : queued (State.init maxEntries err : State K V).cache.inFlight = 0 := rfl
  rwa [hempty, Nat.zero_add] at hle

/-- The event begins a call. -/
def Event.begins : Event K V → Bool
  | .begin _ _ => true
  | _ => false

/-- The event begins no call and drops none. -/
def Event.continues : Event K V → Bool
  | .resume _ | .reply _ _ => true
  | _ => false

omit [DecidableEq K] in
theorem credit_le (e : Event K V) : e.credit ≤ if e.begins then 7 else 0 := by
  cases e with
  | begin c op => cases op <;> simp [Event.credit, Event.begins]
  | resume c | reply c r | drop c => simp [Event.credit]

omit [DecidableEq K] in
theorem sum_credit_le (es : List (Event K V)) :
    (es.map Event.credit).sum ≤ 7 * es.countP Event.begins := by
  induction es with
  | nil => simp
  | cons e es ih =>
    have hle := credit_le e
    rw [List.map_cons, List.sum_cons, List.countP_cons]
    split at hle
    · rename_i hcontinues
      rw [if_pos hcontinues]
      omega
    · rename_i hcontinues
      rw [if_neg hcontinues]
      omega

/-- In every run of the cache, whatever its calls, their interleaving and the ends of their
    fetches, the number of steps is at most seven for each call that has begun. -/
theorem steps_within_seven_per_call {maxEntries : Option Nat} {err : K → SchemaRegError}
    {es : List (Event K V)} (hrun : Run step (fun _ _ => True) (State.init maxEntries err) es s) :
    es.length ≤ 7 * es.countP Event.begins := by
  have hle := length_le_credit hrun
  have hcredit := sum_credit_le es
  omega

/-- One call that misses, leads and stores. -/
def oneFetch : List (Event Nat Nat) :=
  [.begin 0 (.getOrFetch 1), .resume 0, .resume 0, .reply 0 (.ok 5), .resume 0, .resume 0, .resume 0]

/-- A call that leads takes all of its seven steps. -/
theorem one_fetch_takes_seven : ∃ s : State Nat Nat, s.calls 0 = .returned 1 (.ok 5) ∧
    oneFetch.countP Event.begins = 1 ∧ oneFetch.length = 7 ∧
      oneFetch.length ≤ 7 * oneFetch.countP Event.begins := by
  obtain ⟨s, h, hreturned⟩ : ∃ s, exec step (State.init none fun _ => .invalidState "") oneFetch =
      some s ∧ s.calls 0 = .returned 1 (.ok 5) := ⟨_, rfl, rfl⟩
  exact ⟨s, hreturned, rfl, rfl, steps_within_seven_per_call (Run.of_exec_free h)⟩

/-! ## What a call waits for -/

/-- The lock is held by a call that is about to insert. -/
def Released (s : State K V) : Prop :=
  ∀ c, s.writer = some c → ∃ k v b, s.calls c = .checked k v b

omit [DecidableEq K] in
theorem released_init (maxEntries : Option Nat) (err : K → SchemaRegError) :
    Released (State.init maxEntries err : State K V) := by
  intro c h
  cases h

theorem released_step (h : Released s) (hs : step s e = some t) : Released t := by
  intro c hc
  by_cases held : s.writer = some c
  · obtain ⟨k, v, b, phase⟩ := h c held
    by_cases own : c = e.call
    · subst own
      cases step_cases hs with
      | insert | skip => simp at hc
      | _ => simp_all [Event.call]
    · exact ⟨k, v, b, by rw [calls_other hs own, phase]⟩
  · cases step_cases hs with
    | @check d k v g phase free =>
      have heq : d = c := by simpa using hc
      subst heq
      exact ⟨k, v, decide (u64 s.generation = u64 g), by simp⟩
    | insert phase | skip phase => simp at hc
    | _ => exact absurd hc held

/-- A call that waits is held somewhere. -/
def Held (s : State K V) : Prop :=
  ∀ w key token, s.roles w = some (.waiter key token) → ∃ o, w ∈ place s o

theorem held_init (maxEntries : Option Nat) (err : K → SchemaRegError) :
    Held (State.init maxEntries err : State K V) := by
  intro w key token h
  cases h

theorem held_reaches (h : Held s) (hs : step s e = some t) : Held t := by
  intro w key token role
  rcases waiter_step hs role with hold | hjoined
  · obtain ⟨o, ho⟩ := h w key token hold
    exact held_step (moved_step hs) ho
  · exact ⟨.slot key, hjoined⟩

/-- The call has not returned yet. -/
def Phase.running : Phase K V → Prop
  | .idle | .returned _ _ | .finished => False
  | _ => True

/-- The call waits for a fetch that the caller has supplied. -/
def Phase.awaitsFetch : Phase K V → Prop
  | .fetching _ _ => True
  | _ => False

/-- The call waits for an answer to its own waiter. -/
def Phase.awaitsAnswer : Phase K V → Prop
  | .waiting _ => True
  | _ => False

/-- Where the lock is free, a call that waits for nobody runs its next section. -/
theorem resume_enabled {c : CallId} (free : s.writer = none) (running : (s.calls c).running)
    (fetch : ¬ (s.calls c).awaitsFetch) (answer : ¬ (s.calls c).awaitsAnswer) :
    ∃ t, step s (.resume c) = some t := by
  cases phase : s.calls c with
  | idle | returned | finished => simp [phase, Phase.running] at running
  | fetching => simp [phase, Phase.awaitsFetch] at fetch
  | waiting => simp [phase, Phase.awaitsAnswer] at answer
  | answering key outcome waiters => cases waiters <;> simp [step, resume, phase]
  | notifying cancelled => cases cancelled <;> simp [step, resume, phase]
  | _ => simp [step, resume, phase, whenUnlocked, free]

/-- What the reachable states have in common, as far as waiting is concerned. -/
structure Awake (s : State K V) : Prop where
  tokens : Tokens s
  released : Released s
  held : Held s

theorem awake_reachable {maxEntries : Option Nat} {err : K → SchemaRegError}
    (hreach : Reachable step (State.init maxEntries err) s) : Awake s := by
  obtain ⟨es, hrun⟩ := hreach
  refine hrun.invariant ⟨tokens_init maxEntries err, released_init maxEntries err,
    held_init maxEntries err⟩ ?_
  intro x e y hx _ hs
  exact ⟨tokens_step hx.tokens hs, released_step hx.released hs, held_reaches hx.held hs⟩

/-- The call that holds the lock goes on. -/
theorem Awake.holder_goes_on (h : Awake s) {c : CallId} (held : s.writer = some c) :
    ∃ t, step s (.resume c) = some t := by
  obtain ⟨k, v, b, phase⟩ := h.released c held
  simp [step, resume, phase]

/-- A call that is on its own goes on, or the one that holds the lock does. -/
theorem Awake.goes_on (h : Awake s) {c : CallId} (running : (s.calls c).running)
    (fetch : ¬ (s.calls c).awaitsFetch) (answer : ¬ (s.calls c).awaitsAnswer) :
    ∃ d t, step s (.resume d) = some t := by
  cases hlock : s.writer with
  | none => exact ⟨c, resume_enabled hlock running fetch answer⟩
  | some d => exact ⟨d, h.holder_goes_on hlock⟩

/-- A waiter that is not answered depends on a call that runs and does not wait for an
    answer itself. -/
theorem Awake.supplier (h : Awake s) {c : CallId} {key : K} (phase : s.calls c = .waiting key)
    (unanswered : s.answers c = []) :
    ∃ d, (s.calls d).running ∧ ¬ (s.calls d).awaitsAnswer := by
  obtain ⟨token, role⟩ : ∃ token, s.roles c = some (.waiter key token) := by
    have hrole := h.tokens.phase c
    rw [phase] at hrole
    exact hrole
  obtain ⟨o, ho⟩ := h.held c key token role
  cases o with
  | slot k =>
    obtain ⟨entry, inFlight, -⟩ := mem_slot.mp ho
    obtain ⟨l, leads⟩ := h.tokens.live k entry inFlight
    refine ⟨l, ?_⟩
    cases hl : s.calls l <;> simp_all [Phase.leads, Phase.running, Phase.awaitsAnswer]
  | call d =>
    refine ⟨d, ?_⟩
    cases hd : s.calls d <;>
      simp_all [place, Phase.hands, Phase.holds, Phase.running, Phase.awaitsAnswer]
  | channel w =>
    obtain rfl := mem_channel ho
    simp [place, unanswered] at ho

/-- Nobody waits in vain. -/
theorem Awake.progress (h : Awake s) {c : CallId} (running : (s.calls c).running) :
    ∃ d, (s.calls d).awaitsFetch ∨ ∃ t, step s (.resume d) = some t := by
  have alone : ∀ d, (s.calls d).running → ¬ (s.calls d).awaitsAnswer →
      ∃ d, (s.calls d).awaitsFetch ∨ ∃ t, step s (.resume d) = some t := by
    intro d hrunning hanswer
    by_cases hfetch : (s.calls d).awaitsFetch
    · exact ⟨d, Or.inl hfetch⟩
    · obtain ⟨d', t, hs⟩ := h.goes_on hrunning hfetch hanswer
      exact ⟨d', Or.inr ⟨t, hs⟩⟩
  by_cases answer : (s.calls c).awaitsAnswer
  · cases phase : s.calls c with
    | waiting key =>
      cases answers : s.answers c with
      | nil =>
        obtain ⟨d, hrunning, hanswer⟩ := h.supplier phase answers
        exact alone d hrunning hanswer
      | cons r rs => exact ⟨c, Or.inr (by simp [step, resume, phase, answers])⟩
    | _ => simp [phase, Phase.awaitsAnswer] at answer
  · exact alone c running answer

/-- A running system has a step that begins no call and drops none. -/
theorem Awake.step_enabled (h : Awake s) {c : CallId} (running : (s.calls c).running) :
    ∃ e t, Event.continues e = true ∧ e.credit = 0 ∧ step s e = some t := by
  obtain ⟨d, hfetch | ⟨t, hs⟩⟩ := h.progress running
  · cases phase : s.calls d with
    | fetching key token =>
      refine ⟨.reply d (.error (s.cache.makeCancelledError key)),
        s.goto d (.fetched key token (.error (s.cache.makeCancelledError key))), rfl, rfl, ?_⟩
      simp [step, phase]
    | _ => simp [phase, Phase.awaitsFetch] at hfetch
  · exact ⟨.resume d, t, rfl, rfl, hs⟩

/-- A run can be continued, without new calls and without drops, until no call is running. -/
theorem Awake.completes {maxEntries : Option Nat} {err : K → SchemaRegError} (n : Nat)
    {es : List (Event K V)} (hrun : Run step (fun _ _ => True) (State.init maxEntries err) es s)
    (hn : (es.map Event.credit).sum ≤ es.length + n) :
    ∃ es' t, Run step (fun _ e => e.continues = true) s es' t ∧ ∀ c, ¬ (t.calls c).running := by
  induction n generalizing es s with
  | zero =>
    refine ⟨[], s, Run.nil, fun c running => ?_⟩
    obtain ⟨e, t, -, hcredit, hs⟩ := (awake_reachable hrun.reachable).step_enabled running
    have hle := length_le_credit (hrun.snoc trivial hs)
    simp [hcredit] at hle
    omega
  | succ n ih =>
    by_cases hall : ∀ c, ¬ (s.calls c).running
    · exact ⟨[], s, Run.nil, hall⟩
    · obtain ⟨c, running⟩ := not_forall_not.mp hall
      obtain ⟨e, t, hcontinues, hcredit, hs⟩ := (awake_reachable hrun.reachable).step_enabled running
      obtain ⟨es', u, hrest, hdone⟩ := ih (hrun.snoc trivial hs) (by simp [hcredit]; omega)
      exact ⟨e :: es', u, Run.cons hcontinues hs hrest, hdone⟩

/-- In every reachable state a call that is running waits, in the end, for nothing but a fetch
    of the caller: some fetch is outstanding, or some call can run its next section. And every
    run can be continued, without new calls and without dropping one, to a state in which all
    calls have returned. -/
theorem only_fetches_are_awaited {maxEntries : Option Nat} {err : K → SchemaRegError}
    (hreach : Reachable step (State.init maxEntries err) s) :
    (∀ c, (s.calls c).running →
      ∃ d, (s.calls d).awaitsFetch ∨ ∃ t, step s (.resume d) = some t) ∧
    ∃ es t, Run step (fun _ e => e.continues = true) s es t ∧ ∀ c, ¬ (t.calls c).running := by
  refine ⟨fun c running => (awake_reachable hreach).progress running, ?_⟩
  obtain ⟨es, hrun⟩ := hreach
  exact Awake.completes ((es.map Event.credit).sum) hrun (by omega)

/-- A call that waits for another one's fetch comes to its end. -/
theorem a_waiter_is_woken : ∃ s : State Nat Nat, s.calls 1 = .waiting 1 ∧ s.answers 1 = [] ∧
    ∃ es t, Run step (fun _ e => e.continues = true) s es t ∧ ∀ c, ¬ (t.calls c).running := by
  obtain ⟨s, h, hwaiting, hanswers⟩ : ∃ s, exec step (State.init none fun _ => .invalidState "")
      [.begin 0 (.getOrFetch 1), .begin 1 (.getOrFetch 1), .resume 0, .resume 1, .resume 0] =
        some s ∧ s.calls 1 = (.waiting 1 : Phase Nat Nat) ∧ s.answers 1 = [] := ⟨_, rfl, rfl, rfl⟩
  exact ⟨s, hwaiting, hanswers, (only_fetches_are_awaited (Reachable.of_exec h)).2⟩

end Schemreg.CacheInner
