import Schemreg.CacheInner.Invalidation

/-
  The invalidation barrier of `get_or_fetch`.

  An invalidation that runs while a fetch is in flight removes the leader's slot. From
  then on nothing is registered under the key with the leader's token (`Lost`), so the
  leader cannot claim a slot any more, and it never reaches the section that writes the
  store. What the barrier does not cover is a leader that has already claimed its slot and
  has not written the store yet: the invalidation finds neither a slot nor an entry, and
  the write comes after it (`invalidation_undone`). `invalidation_barrier` is the law for
  the runs in which no such leader is left when the invalidation returns.

  Tokens are compared as `u64`s. `TokensApart` says that a comparison is not fooled by the
  counter's wraparound; up to `2^64` leaders this is so (`run_tokensApart`).
-/

namespace Schemreg.CacheInner

open Wrapping Transition

variable {K V : Type} [DecidableEq K] {s t : State K V} {e : Event K V} {i : CallId} {k : K}

/-! ## Comparing tokens -/

/-- The key and the token that the next section of a call compares with the slot. -/
def comparesToken (s : State K V) : Event K V → Option (K × Nat)
  | .resume c =>
      match s.calls c with
      | .fetched key token _ => some (key, token)
      | _ => none
  | .drop c =>
      match s.calls c with
      | .fetching key token => some (key, token)
      | _ => none
  | _ => none

/-- A slot that looks like the leader's own is its own. -/
def TokensApart (s : State K V) (e : Event K V) : Prop :=
  ∀ key token entry, comparesToken s e = some (key, token) → s.registered key = some entry →
    u64 entry.token = u64 token → entry.token = token

omit [DecidableEq K] in
theorem comparesToken_leads {key : K} {token : Nat}
    (h : comparesToken s e = some (key, token)) : (s.calls e.call).leads = some (key, token) := by
  unfold comparesToken at h
  split at h
  · split at h
    · rename_i phase
      simp only [Event.call, phase, Phase.leads]
      exact h
    · cases h
  · split at h
    · rename_i phase
      simp only [Event.call, phase, Phase.leads]
      exact h
    · cases h
  · cases h

/-- Up to `2^64` leaders, no two tokens look the same. -/
theorem tokensApart_of_le (hk : Tokens s) (hle : s.cache.nextToken ≤ 2 ^ 64) : TokensApart s e := by
  intro key token entry hcmp hreg hu
  have hlead := (hk.phase e.call).of_leads (comparesToken_leads hcmp)
  obtain ⟨d, hd⟩ := hk.live key entry hreg
  have hrole := (hk.phase d).of_leads hd
  have := hk.issued _ _ _ hlead
  have := hk.issued _ _ _ hrole
  rw [u64_eq_iff] at hu
  omega

/-- A run that ends with at most `2^64` leaders compares tokens faithfully. -/
theorem run_tokensApart {P : State K V → Event K V → Prop} {es : List (Event K V)}
    (hk : Tokens s) (hrun : Run step P s es t) (hle : t.cache.nextToken ≤ 2 ^ 64) :
    Run step (fun x e => TokensApart x e ∧ P x e) s es t := by
  induction hrun with
  | nil => exact Run.nil
  | snoc run guard last ih =>
    have hle' := Nat.le_trans (nextToken_step last) hle
    exact Run.snoc (ih hle') ⟨tokensApart_of_le (tokens_run hk run) hle', guard⟩ last

/-! ## A leader that lost its slot -/

/-- Nothing is registered under `key` with this token. -/
def Lost (s : State K V) (key : K) (token : Nat) : Prop :=
  ∀ entry, s.registered key = some entry → entry.token ≠ token

/-- A slot that is gone does not come back: new leaders get new tokens. -/
theorem lost_step {key : K} {token : Nat} (h : Lost s key token) (hle : token ≤ s.cache.nextToken)
    (hs : step s e = some t) : Lost t key token := by
  intro entry hreg htok
  rcases registered_step hs hreg with ⟨entry₀, hreg₀, htok₀⟩ | ⟨_, _, _, _, _, _, hnew, _⟩
  · exact h entry₀ hreg₀ (htok₀.trans htok)
  · omega

/-- A leader without a slot claims nothing. -/
theorem claimed_of_lost {l : CallId} {key : K} {token : Nat} {v : V} {ws : List CallId}
    (hk : Tokens s) (role : s.roles l = some (.leader key token)) (lost : Lost s key token)
    (apart : TokensApart s e) (hs : step s e = some t) (h : t.calls l = .claimed key v ws) :
    s.calls l = .claimed key v ws := by
  rcases claimed_step hs h with hstay | ⟨token', entry, rfl, phase, hreg, hu, _⟩
  · exact hstay
  · have hrole : s.roles l = some (.leader key token') := hk.role phase
    have htok : token' = token := by
      rw [role] at hrole
      simpa using hrole.symm
    subst htok
    exact absurd (apart key token' entry (by simp [comparesToken, phase]) hreg hu) (lost entry hreg)

/-! ## The barrier -/

/-- When call `i` returns, none of the leaders `old` of `k` is between the section that
    claims its slot and the section that writes the store. -/
def ReturnsClear (old : CallId → Prop) (i : CallId) (k : K) (s : State K V) (e : Event K V) :
    Prop :=
  e = .resume i → s.calls i = .notifying [] → ∀ l, old l → ∀ v ws, s.calls l ≠ .claimed k v ws

/-- How far the invalidation `i` of `k` has come, and what it has made of leader `l`. -/
structure Barring (i l : CallId) (k : K) (token : Nat) (s : State K V) : Prop where
  tokens : Tokens s
  role : s.roles l = some (.leader k token)
  progress : (s.calls i).cancelling (· = k) ∨
    (((s.calls i).removing (· = k) ∨ ∃ ws, s.calls i = .notifying ws) ∧ Lost s k token) ∨
    (s.calls i = .finished ∧ Lost s k token ∧ ∀ v ws, s.calls l ≠ .claimed k v ws)

theorem barring_step {l : CallId} {token : Nat} {old : CallId → Prop} (h : Barring i l k token s)
    (hold : old l) (guard : TokensApart s e ∧ ReturnsClear old i k s e) (hs : step s e = some t) :
    Barring i l k token t := by
  have hle := (h.tokens.issued _ _ _ h.role).2
  refine ⟨tokens_step h.tokens hs, roles_step h.tokens hs h.role, ?_⟩
  rcases h.progress with hc | ⟨hr | ⟨ws, hn⟩, lost⟩ | ⟨hf, lost, hl⟩
  · rcases cancelling_step hc hs with hc' | ⟨hr', hnone⟩
    · exact Or.inl hc'
    · refine Or.inr (Or.inl ⟨Or.inl hr', ?_⟩)
      intro entry hreg
      rw [hnone k rfl] at hreg
      cases hreg
  · have lost' := lost_step lost hle hs
    rcases removing_step hr hs with hr' | ⟨hn', _⟩
    · exact Or.inr (Or.inl ⟨Or.inl hr', lost'⟩)
    · exact Or.inr (Or.inl ⟨Or.inr hn', lost'⟩)
  · have lost' := lost_step lost hle hs
    rcases notifying_step hn hs with hn' | ⟨hf', he, hlast⟩
    · exact Or.inr (Or.inl ⟨Or.inr hn', lost'⟩)
    · refine Or.inr (Or.inr ⟨hf', lost', ?_⟩)
      intro v ws' hclaimed
      have := claimed_of_lost h.tokens h.role lost guard.1 hs hclaimed
      exact guard.2 he hlast l hold v ws' this
  · refine Or.inr (Or.inr ⟨finished_step hf hs, lost_step lost hle hs, ?_⟩)
    intro v ws hclaimed
    exact hl v ws (claimed_of_lost h.tokens h.role lost guard.1 hs hclaimed)

/-- The invalidation barrier. Once `invalidate(k)` or `clear()` has returned, no leader
    whose fetch had started before puts an entry under `k`: what is stored under `k` by
    such a leader was stored before the step. -/
theorem invalidation_barrier {maxEntries : Option Nat} {err : K → SchemaRegError}
    {s₀ s₁ : State K V} {op : Op K V} {l : CallId} {es : List (Event K V)} {entry : Entry V}
    (hreach : Reachable step (State.init maxEntries err) s₀)
    (hop : op = .invalidate k ∨ op = .clear)
    (hbegin : step s₀ (.begin i op) = some s₁)
    (hrun : Run step (fun x e => TokensApart x e ∧
      ReturnsClear (fun l => s₀.fetchStarted l k) i k x e) s₁ es s)
    (hreturned : s.calls i = .finished)
    (hstarted : s₀.fetchStarted l k)
    (hlast : step s e = some t)
    (hput : t.lookup k = some entry) (hwriter : entry.writer = l) :
    s.lookup k = some entry := by
  have htokens := tokens_reachable hreach
  obtain ⟨token, hrole, _⟩ := id hstarted
  have hcovers : op.covers (· = k) := by
    rcases hop with rfl | rfl
    · exact Or.inl ⟨k, rfl, fun _ hk => hk⟩
    · exact Or.inr rfl
  obtain ⟨hcancel, hroles, _, _⟩ := cancelling_of_begin hcovers hbegin
  have hstart : Barring i l k token s₁ :=
    ⟨tokens_step htokens hbegin, by rw [hroles]; exact hrole, Or.inl hcancel⟩
  have hend : Barring i l k token s :=
    hrun.invariant hstart fun x e y hx guard hs => barring_step hx hstarted guard hs
  have hclear : ∀ v ws, s.calls l ≠ .claimed k v ws := by
    rcases hend.progress with hc | ⟨hr | ⟨ws, hn⟩, _⟩ | ⟨_, _, hl⟩
    · rw [hreturned] at hc; cases hc
    · rw [hreturned] at hr; cases hr
    · rw [hreturned] at hn; cases hn
    · exact hl
  rcases lookup_step hlast hput with hstored | ⟨ws, _, hclaimed, _, _⟩ | ⟨_, hchecked⟩
  · exact hstored
  · rw [hwriter] at hclaimed
    exact absurd hclaimed (hclear _ _)
  · -- an `insert_if_current` call leads no fetch
    rw [hwriter] at hchecked
    have hnone : s.roles l = none := hend.tokens.role hchecked
    rw [hend.role] at hnone
    cases hnone

/-- A leader that claimed its slot before the invalidation and wrote the store before it
    returned: its entry is there already, and no later step of the leader puts it again. -/
theorem invalidation_barrier_late_store :
    ∃ s t : State Nat Nat, step s (.resume 0) = some t ∧ t.lookup 7 = some ⟨1, 0⟩ ∧
      s.lookup 7 = some ⟨1, 0⟩ := by
  obtain ⟨s₀, h₀, s₁, s₂, s₃, s₄, s, t, hbegin, h₁, h₂, h₃, h₄, hlast, hrole, hclaimed, hp₁, hp₂,
      hcalls, hfin, htok₀, htok, hput⟩ :
      ∃ s₀ : State Nat Nat, exec step (State.init (some 1000) fun _ => .invalidState "cancelled")
        [.begin 0 (.getOrFetch 7), .resume 0, .resume 0, .reply 0 (.ok 1), .resume 0] = some s₀ ∧
      ∃ s₁ s₂ s₃ s₄ s t, step s₀ (.begin 1 (.invalidate 7)) = some s₁ ∧
        step s₁ (.resume 1) = some s₂ ∧ step s₂ (.resume 1) = some s₃ ∧
        step s₃ (.resume 0) = some s₄ ∧ step s₄ (.resume 1) = some s ∧
        step s (.resume 0) = some t ∧
        s₀.roles 0 = some (.leader 7 1) ∧ s₀.calls 0 = .claimed 7 1 [] ∧
        s₁.calls 1 = .invalidating 7 ∧ s₂.calls 1 = .invalidated 7 [] ∧
        s₄.calls 0 = .answering 7 (.ok 1) [] ∧
        s.calls 1 = .finished ∧ s₀.cache.nextToken = 1 ∧ s.cache.nextToken = 1 ∧ t.lookup 7 = some ⟨1, 0⟩ :=
    ⟨_, rfl, _, _, _, _, _, _, rfl, rfl, rfl, rfl, rfl, rfl, by decide, rfl, rfl, rfl, rfl, rfl,
      rfl, rfl, by decide⟩
  have hstarted : s₀.fetchStarted 0 7 := ⟨1, hrole, by rw [hclaimed]; nofun⟩
  have hreach := Reachable.of_exec h₀
  have htokens := tokens_reachable hreach
  have hrun : Run step (ReturnsClear (fun l => s₀.fetchStarted l 7) 1 7) s₁
      [.resume 1, .resume 1, .resume 0, .resume 1] s := by
    refine Run.cons ?_ h₁ (Run.cons ?_ h₂ (Run.cons ?_ h₃ (Run.one ?_ h₄)))
    · intro _ hn
      rw [hp₁] at hn
      cases hn
    · intro _ hn
      rw [hp₂] at hn
      cases hn
    · intro he
      cases he
    · -- the only leader so far is call 0, and it has written the store
      intro _ _ l hl v ws hclaim
      obtain ⟨token, hl, _⟩ := hl
      have hzero := htokens.only htok₀ hrole hl
      rw [hzero, hcalls] at hclaim
      cases hclaim
  have hapart := run_tokensApart (tokens_step htokens hbegin) hrun (by rw [htok]; decide)
  exact ⟨s, t, hlast, hput, invalidation_barrier hreach (Or.inl rfl) hbegin hapart hfin hstarted
    hlast hput rfl⟩

/-- A leader that has claimed its slot before the invalidation writes the store after it:
    the invalidation returned, and the fetch that started before it is stored. -/
theorem invalidation_undone :
    ¬ ∀ (s₀ s₁ s t : State Nat Nat) (op : Op Nat Nat) (i l k : Nat) (es : List (Event Nat Nat))
        (e : Event Nat Nat) (entry : Entry Nat),
      Reachable step (State.init (some 1000) fun _ => .invalidState "cancelled") s₀ →
      op = .invalidate k ∨ op = .clear →
      step s₀ (.begin i op) = some s₁ →
      Run step (fun _ _ => True) s₁ es s →
      s.calls i = .finished →
      s₀.fetchStarted l k →
      step s e = some t →
      t.lookup k = some entry → entry.writer = l → s.lookup k = some entry := by
  intro h
  obtain ⟨s₀, h₀, hs₀⟩ : ∃ s₀ : State Nat Nat,
      exec step (State.init (some 1000) fun _ => .invalidState "cancelled")
        [.begin 0 (.getOrFetch 7), .resume 0, .resume 0, .reply 0 (.ok 1), .resume 0] = some s₀ ∧
      ∃ s₁ s t, step s₀ (.begin 1 (.invalidate 7)) = some s₁ ∧
        exec step s₁ [.resume 1, .resume 1, .resume 1] = some s ∧
        step s (.resume 0) = some t ∧
        s₀.roles 0 = some (.leader 7 1) ∧ s₀.calls 0 = .claimed 7 1 [] ∧
        s.calls 1 = .finished ∧ s.lookup 7 = none ∧ t.lookup 7 = some ⟨1, 0⟩ :=
    ⟨_, rfl, _, _, _, rfl, rfl, rfl, by decide, rfl, rfl, by decide, by decide⟩
  obtain ⟨s₁, s, t, hbegin, hrun, hlast, hrole, hclaimed, hfin, habsent, hput⟩ := hs₀
  have hstarted : s₀.fetchStarted 0 7 := ⟨1, hrole, by rw [hclaimed]; nofun⟩
  have hstored := h s₀ s₁ s t (.invalidate 7) 1 0 7 _ _ ⟨1, 0⟩ (Reachable.of_exec h₀)
    (Or.inl rfl) hbegin (Run.of_exec_free hrun) hfin hstarted hlast hput rfl
  rw [habsent] at hstored
  cases hstored

end Schemreg.CacheInner
