import Schemreg.CacheInner.Invalidation

/-
  `insert_if_current` and the invalidation generation.

  The generation is sampled before a fetch and compared after it, inside the store's lock.
  An invalidation that begins after the sample has moved the counter, so the comparison
  fails, unless it came before the bump. Then the insertion comes before the section of the
  invalidation that removes the entry, because the comparison and the insertion hold the
  lock which that section takes. `insert_never_resurrects` is the law for any order of
  bump, check, insertion and removal.

  The counter is a `u64`: after exactly `2^64` invalidations the old sample looks current
  again (`generation_wraps`), so the law assumes that fewer have begun when the insertion
  compares (`ChecksInTime`).
-/

namespace Schemreg.CacheInner

open Wrapping Transition

variable {K V : Type} [DecidableEq K] {s t : State K V} {e : Event K V} {c i : CallId} {k : K}
  {v : V} {g : Nat}

/-- Fewer than `2^64` invalidations have begun since the sample `g`, when call `c` compares
    it. -/
def ChecksInTime (c : CallId) (g : Nat) (s : State K V) (e : Event K V) : Prop :=
  ∀ k v, e = .resume c → s.calls c = .inserting k v g → s.generation < g + 2 ^ 64

theorem generation_run {P : State K V → Event K V → Prop} {es : List (Event K V)}
    (hrun : Run step P s es t) : s.generation ≤ t.generation :=
  hrun.invariant (Nat.le_refl _) fun _ _ _ h _ hs => Nat.le_trans h (generation_step hs)

/-! ## Who wrote the entries -/

/-- Every entry was written by a call that has begun. -/
def Written (s : State K V) : Prop :=
  ∀ k entry, s.lookup k = some entry → s.calls entry.writer ≠ .idle

theorem written_step (h : Written s) (hs : step s e = some t) : Written t := by
  intro k entry hk
  refine begun_step ?_ hs
  rcases lookup_step hs hk with hold | ⟨ws, _, phase, _⟩ | ⟨_, phase⟩
  · exact h k entry hold
  · rw [phase]; nofun
  · rw [phase]; nofun

theorem written_reachable {maxEntries : Option Nat} {err : K → SchemaRegError}
    (h : Reachable step (State.init maxEntries err) s) : Written s := by
  obtain ⟨es, hrun⟩ := h
  refine hrun.invariant ?_ fun _ _ _ hx _ hs => written_step hx hs
  intro k entry hk
  cases hk

theorem locked_reachable {maxEntries : Option Nat} {err : K → SchemaRegError}
    (h : Reachable step (State.init maxEntries err) s) : Locked s := by
  obtain ⟨es, hrun⟩ := h
  exact hrun.invariant (locked_init maxEntries err) fun _ _ _ hx _ hs => locked_step hx hs

/-! ## The inserting call -/

/-- Where `insert_if_current(k, v, g)` stands. -/
def Inserting (c : CallId) (k : K) (v : V) (g : Nat) (s : State K V) : Prop :=
  s.calls c = .inserting k v g ∨ (∃ b, s.calls c = .checked k v b) ∨ s.calls c = .finished

theorem inserting_stays (h : Inserting c k v g s) (hs : step s e = some t) :
    Inserting c k v g t := by
  by_cases hc : c = e.call
  · subst hc
    rcases h with h | ⟨b, h⟩ | h
    all_goals cases step_cases hs <;> simp_all [Event.call, Inserting]
  · unfold Inserting
    rwa [calls_other hs hc]

/-- An entry that the call writes under `k` holds `v`. -/
theorem value_step (phase : Inserting c k v g s)
    (h : ∀ entry, s.lookup k = some entry → entry.writer = c → entry.value = v)
    (hs : step s e = some t) :
    ∀ entry, t.lookup k = some entry → entry.writer = c → entry.value = v := by
  intro entry hk hw
  rcases lookup_step hs hk with hold | ⟨ws, _, hc, _⟩ | ⟨_, hc⟩
  · exact h entry hold hw
  · rw [hw] at hc
    rcases phase with hp | ⟨b, hp⟩ | hp <;> rw [hp] at hc <;> cases hc
  · rw [hw] at hc
    rcases phase with hp | ⟨b, hp⟩ | hp <;> rw [hp] at hc <;> cases hc
    rfl

/-- The sample is out of date, the call has not passed its check, and nothing of its is
    stored under `k`. -/
structure Skipping (c : CallId) (k : K) (v : V) (g : Nat) (s : State K V) : Prop where
  newer : g < s.generation
  phase : s.calls c = .inserting k v g ∨ s.calls c = .checked k v false ∨ s.calls c = .finished
  absent : ∀ entry, s.lookup k = some entry → entry.writer ≠ c

/-- A call whose sample is out of date fails its check and skips the insertion. -/
theorem skipping_step (h : Skipping c k v g s) (guard : ChecksInTime c g s e)
    (hs : step s e = some t) : Skipping c k v g t := by
  refine ⟨Nat.lt_of_lt_of_le h.newer (generation_step hs), ?_, ?_⟩
  · by_cases hc : c = e.call
    · subst hc
      rcases h.phase with hp | hp | hp
      · cases step_cases hs with
        | @check c k' v' g' phase free =>
          have heq : k' = k ∧ v' = v ∧ g' = g := by simpa [Event.call, phase] using hp
          obtain ⟨rfl, rfl, rfl⟩ := heq
          have hlt := guard k' v' rfl phase
          have hnewer := h.newer
          have hne : u64 s.generation ≠ u64 g' := by
            intro hu
            have := u64_inj (Nat.le_of_lt hnewer) hlt hu.symm
            omega
          exact Or.inr (Or.inl (by simp [Event.call, hne]))
        | _ => simp_all [Event.call]
      · cases step_cases hs <;> simp_all [Event.call]
      · exact Or.inr (Or.inr (finished_step hp hs))
    · rw [calls_other hs hc]
      exact h.phase
  · intro entry hk hw
    rcases lookup_step hs hk with hold | ⟨ws, _, hc, _⟩ | ⟨_, hc⟩
    · exact h.absent entry hold hw
    · rw [hw] at hc
      rcases h.phase with hp | hp | hp <;> rw [hp] at hc <;> cases hc
    · rw [hw] at hc
      rcases h.phase with hp | hp | hp <;> rw [hp] at hc <;> cases hc

/-! ## The invalidating call -/

/-- The operations that drop `v` from under `k`. -/
def Op.drops (k : K) (v : V) (op : Op K V) : Prop :=
  op = .invalidate k ∨ op = .clear ∨ ∃ p, op = .invalidateMatching p ∧ p v = true

omit [DecidableEq K] in
theorem Op.drops.removes {op : Op K V} (h : op.drops k v) : op.removes (· = k) (· = v) := by
  rcases h with rfl | rfl | ⟨p, rfl, hp⟩
  · exact Or.inl (Or.inl ⟨k, rfl, fun _ hk => hk⟩)
  · exact Or.inl (Or.inr rfl)
  · refine Or.inr ⟨p, rfl, ?_⟩
    intro v' hv
    rw [hv, hp]

/-- An insertion and an invalidation that began after the sample. -/
structure Dropping (i c : CallId) (k : K) (v : V) (g : Nat) (s : State K V) : Prop where
  locked : Locked s
  newer : g < s.generation
  phase : Inserting c k v g s
  value : ∀ entry, s.lookup k = some entry → entry.writer = c → entry.value = v
  stage : (s.calls i).pending (· = k) (· = v) ∨ Skipping c k v g s

theorem dropping_step (h : Dropping i c k v g s) (guard : ChecksInTime c g s e)
    (hs : step s e = some t) : Dropping i c k v g t := by
  have newer := Nat.lt_of_lt_of_le h.newer (generation_step hs)
  have value := value_step h.phase h.value hs
  refine ⟨locked_step h.locked hs, newer, inserting_stays h.phase hs, value, ?_⟩
  rcases h.stage with hpend | hskip
  · rcases pending_step hpend hs with hpend' | ⟨free, he, _, hrest⟩
    · exact Or.inl hpend'
    · -- the lock is free, so the call is not between its check and its insertion
      refine Or.inr ⟨newer, ?_, fun entry hk hw => hrest k entry rfl hk (value entry hk hw)⟩
      rcases inserting_stays h.phase hs with hp | ⟨b, hp⟩ | hp
      · exact Or.inl hp
      · rcases checked_step hs hp with hstay | ⟨g', he', hins, _⟩
        · have := h.locked c k v b hstay
          rw [free] at this
          cases this
        · -- the removal is a step of the invalidation, not of the insertion
          have hci : i = c := by rw [he] at he'; exact (by simpa using he')
          subst hci
          rw [hins] at hpend
          rcases hpend with hx | hx | ⟨p, hx, _⟩ <;> cases hx
      · exact Or.inr (Or.inr hp)
  · exact Or.inr (skipping_step hskip guard hs)

/-- `insert_if_current` never resurrects an invalidated value. Let `g` be the generation in
    `s₀`. If after `s₀` an invalidation that drops `v` from under `k` begins and returns, and
    `insert_if_current(k, v, g)` begins, in any order, then nothing which that insertion
    stored is in the store under `k`, whether it has finished or not. -/
theorem insert_never_resurrects {maxEntries : Option Nat} {err : K → SchemaRegError}
    {s₀ : State K V} {op : Op K V} {es : List (Event K V)}
    (hreach : Reachable step (State.init maxEntries err) s₀)
    (hrun : Run step (ChecksInTime c s₀.generation) s₀ es s)
    (hinsert : .begin c (.insertIfCurrent k v s₀.generation) ∈ es)
    (hop : op.drops k v) (hbegin : .begin i op ∈ es)
    (hreturned : s.calls i = .finished) :
    ∀ entry, s.lookup k = some entry → entry.writer ≠ c := by
  obtain ⟨es₁, x, y, es₂, rfl, hrun₁, _, hins, hrun₂⟩ := hrun.split hinsert
  have hx := hreach.trans hrun₁.reachable
  -- the insertion starts with nothing of its own in the store
  have hstart : y.calls c = .inserting k v s₀.generation ∧ y.generation = x.generation ∧
      ∀ k' entry, y.lookup k' = some entry → entry.writer ≠ c := by
    cases step_cases hins with
    | beginInsert idle =>
      refine ⟨by simp, rfl, ?_⟩
      intro k' entry hk hw
      exact written_reachable hx k' entry hk (hw ▸ idle)
  obtain ⟨hphase, hgen, habsent⟩ := hstart
  have hle := generation_run hrun₁
  rcases List.mem_append.mp hbegin with hb | hb
  · -- the bump came before the insertion began
    obtain ⟨_, x', y', _, rfl, hrun₃, _, hbump, hrun₄⟩ := hrun₁.split hb
    have hle₃ := generation_run hrun₃
    have hle₄ := generation_run hrun₄
    obtain ⟨_, hsucc⟩ := pending_of_begin hop.removes hbump
    have hskip : Skipping c k v s₀.generation y :=
      ⟨by omega, Or.inl hphase, fun entry hk => habsent k entry hk⟩
    exact (hrun₂.invariant hskip fun _ _ _ h guard hs => skipping_step h guard hs).absent
  · rcases List.mem_cons.mp hb with heq | hb
    · cases heq
      rcases hop with h | h | ⟨_, h, _⟩ <;> cases h
    · -- the bump comes after the insertion began
      obtain ⟨_, x', y', _, rfl, hrun₃, _, hbump, hrun₄⟩ := hrun₂.split hb
      have hbefore : Inserting c k v s₀.generation x' ∧
          ∀ entry, x'.lookup k = some entry → entry.writer = c → entry.value = v :=
        hrun₃.invariant
          (I := fun z => Inserting c k v s₀.generation z ∧
            ∀ entry, z.lookup k = some entry → entry.writer = c → entry.value = v)
          ⟨Or.inl hphase, fun entry hk hw => absurd hw (habsent k entry hk)⟩
          fun _ _ _ h _ hs => ⟨inserting_stays h.1 hs, value_step h.1 h.2 hs⟩
      have hy' := ((hx.tail hins).trans hrun₃.reachable).tail hbump
      obtain ⟨hpend, hsucc⟩ := pending_of_begin hop.removes hbump
      have hle₃ := generation_run hrun₃
      have hdrop : Dropping i c k v s₀.generation y' :=
        ⟨locked_reachable hy', by omega, inserting_stays hbefore.1 hbump,
          value_step hbefore.1 hbefore.2 hbump, Or.inl hpend⟩
      have hend := hrun₄.invariant hdrop fun _ _ _ h guard hs => dropping_step h guard hs
      rcases hend.stage with hp | hskip
      · rw [hreturned] at hp
        rcases hp with h | h | ⟨_, h, _⟩ <;> cases h
      · exact hskip.absent

/-- A run that ends with fewer than `2^64` invalidations since the sample compares in time. -/
theorem run_checksInTime {P : State K V → Event K V → Prop} {es : List (Event K V)}
    (hrun : Run step P s es t) (hlt : t.generation < g + 2 ^ 64) :
    Run step (ChecksInTime c g) s es t := by
  induction hrun with
  | nil => exact Run.nil
  | snoc run _ last ih =>
    have hle := generation_step last
    exact Run.snoc (ih (by omega)) (fun _ _ _ _ => by omega) last

/-- A fetch sampled generation 0, an invalidation came and went, and the insertion after it is
    skipped: nothing is stored. -/
theorem insert_skipped_after_invalidate :
    ∃ s : State Nat Nat, s.calls 0 = .finished ∧ s.calls 1 = .finished ∧
      ∀ entry, s.lookup 7 = some entry → entry.writer ≠ 0 := by
  obtain ⟨s, hexec, hfin, hret, hgen⟩ : ∃ s : State Nat Nat,
      exec step (State.init (some 1000) fun _ => .invalidState "cancelled")
        [.begin 1 (.invalidate 7), .resume 1, .resume 1, .resume 1,
          .begin 0 (.insertIfCurrent 7 1 0), .resume 0, .resume 0] = some s ∧
      s.calls 0 = .finished ∧ s.calls 1 = .finished ∧ s.generation = 1 :=
    ⟨_, rfl, rfl, rfl, rfl⟩
  have hrun := Run.of_exec_free hexec
  have htime := run_checksInTime (c := 0) (g := 0) hrun (by rw [hgen]; decide)
  exact ⟨s, hfin, hret, insert_never_resurrects (v := 1) Reachable.refl htime (by
    simp [State.init, State.generation, InMemoryCache.new]) (Or.inl rfl) (by simp) hret⟩

/-- Invalidations that only begin move the generation and nothing else. -/
theorem clears_begin (n : Nat) : ∀ (m : Nat) (s : State Nat Nat), (∀ j, m ≤ j → s.calls j = .idle) →
    ∃ es t, Run step (fun _ _ => True) s es t ∧ t.generation = s.generation + n ∧
      t.writer = s.writer ∧ t.cache.store = s.cache.store ∧
      t.cache.maxEntries = s.cache.maxEntries ∧ ∀ j, j < m → t.calls j = s.calls j := by
  induction n with
  | zero => exact fun m s _ => ⟨[], s, Run.nil, rfl, rfl, rfl, rfl, fun _ _ => rfl⟩
  | succ n ih =>
    intro m s hidle
    have hfirst : step s (.begin m .clear) =
        some ({ s with cache := s.cache.bump }.goto m .clearing) := by
      simp [step, start, hidle m (Nat.le_refl m)]
    obtain ⟨es, t, hrun, hgen, hwriter, hstore, hmax, hcalls⟩ :=
      ih (m + 1) ({ s with cache := s.cache.bump }.goto m .clearing) (by
        intro j hj
        have hne : j ≠ m := by omega
        simp [hne, hidle j (by omega)])
    refine ⟨_, t, Run.cons trivial hfirst hrun, ?_, hwriter, hstore, hmax, ?_⟩
    · rw [hgen]
      simp only [State.generation, State.goto_cache, InMemoryCache.bump]
      omega
    · intro j hj
      have hne : j ≠ m := by omega
      rw [hcalls j (by omega)]
      simp [hne]

/-- After `2^64` invalidations the counter is back at the sample, and the insertion that the
    first of them should have stopped goes through. -/
theorem generation_wraps :
    ¬ ∀ (s₀ s : State Nat Nat) (c i k v : Nat) (op : Op Nat Nat) (es : List (Event Nat Nat)),
      Reachable step (State.init (some 1000) fun _ => .invalidState "cancelled") s₀ →
      Run step (fun _ _ => True) s₀ es s →
      .begin c (.insertIfCurrent k v s₀.generation) ∈ es →
      op.drops k v → .begin i op ∈ es →
      s.calls i = .finished → s.calls c = .finished →
      ∀ entry, s.lookup k = some entry → entry.writer ≠ c := by
  intro h
  obtain ⟨s₁, hexec, hidle, hret, hgen, hwriter, hroom, hmax⟩ : ∃ s₁ : State Nat Nat,
      exec step (State.init (some 1000) fun _ => .invalidState "cancelled")
        [.begin 1 (.invalidate 7), .resume 1, .resume 1, .resume 1] = some s₁ ∧
      s₁.calls 0 = .idle ∧ s₁.calls 1 = .finished ∧ s₁.generation = 1 ∧ s₁.writer = none ∧
      s₁.cache.store.hasRoom (some 1000) 7 = true ∧ s₁.cache.maxEntries = some 1000 :=
    ⟨_, rfl, rfl, rfl, rfl, rfl, by decide, rfl⟩
  have hrun₁ := Run.of_exec_free hexec
  have hothers : ∀ j, 2 ≤ j → s₁.calls j = .idle := by
    intro j hj
    refine calls_run hrun₁ ?_
    intro e he
    simp only [List.mem_cons, List.not_mem_nil, or_false] at he
    rcases he with rfl | rfl | rfl | rfl <;>
      exact Nat.ne_of_lt (Nat.lt_of_lt_of_le (by decide) hj)
  obtain ⟨es, s₂, hrun₂, hgen₂, hwriter₂, hstore₂, hmax₂, hcalls₂⟩ := clears_begin (2 ^ 64 - 1) 2 s₁ hothers
  have hwrap : u64 s₂.generation = u64 0 := by
    rw [hgen₂, hgen]
    exact u64_period 0
  -- the insertion of call 0, against the sample 0
  have h₃ : step s₂ (.begin 0 (.insertIfCurrent 7 1 0)) = some (s₂.goto 0 (.inserting 7 1 0)) := by
    simp [step, start, hcalls₂ 0 (by omega), hidle]
  have h₄ : step (s₂.goto 0 (.inserting 7 1 0)) (.resume 0) =
      some ({ s₂.goto 0 (.inserting 7 1 0) with writer := some 0 }.goto 0 (.checked 7 1 true)) := by
    have hfree : s₂.writer = none := hwriter₂.trans hwriter
    have hsame : u64 (s₂.goto 0 (.inserting 7 1 0)).generation = u64 0 := hwrap
    simp [step, resume, whenUnlocked, hfree, hsame]
  let s₄ := { s₂.goto 0 (.inserting 7 1 0) with writer := some 0 }.goto 0 (.checked 7 1 true)
  have h₅ : step s₄ (.resume 0) = some
      ({ s₄.withStore (s₂.cache.store.insertLocked s₂.cache.maxEntries 7 1 0) with
        writer := none }.goto 0 .finished) := by
    simp [s₄, step, resume, InMemoryCache.insert, State.withStore]
  have hstored : (s₂.cache.store.insertLocked s₂.cache.maxEntries 7 1 0).lookup 7 =
      some ⟨1, 0⟩ := by
    rw [Store.lookup_insertLocked_of_room (by rw [hstore₂, hmax₂, hmax]; exact hroom), if_pos rfl]
  have hrun :=
    (hrun₁.trans hrun₂).trans (Run.cons trivial h₃ (Run.cons trivial h₄ (Run.one trivial h₅)))
  have hret₅ : s₂.calls 1 = .finished := (hcalls₂ 1 (by omega)).trans hret
  exact h _ _ 0 1 7 1 (.invalidate 7) _ Reachable.refl hrun
    (by simp [State.init, State.generation, InMemoryCache.new]) (Or.inl rfl) (by simp)
    (by simp [s₄, hret₅]) (by simp) ⟨1, 0⟩ hstored rfl
end Schemreg.CacheInner
