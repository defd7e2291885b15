import Schemreg.Cache.Cancelled

/-
  An invalidation that goes through both caches.

  `clear_cache` and `invalidate_subject` clean the cache of the IDs first and the cache of
  the GUIDs after it (`Sweeping`). When the second method bumps its generation, the first
  cache is clean. A lookup by ID that samples after that bump has not looked into it yet, so
  it finds nothing stale there, and a lookup that sampled before carries an old generation
  (`Crossed`): nothing stale is brought over into the cache of the GUIDs. There is no such
  argument for the other direction. Between the two methods the cache of the GUIDs still
  holds what is stale, and a lookup by GUID may sample a current generation of the IDs.
-/

namespace Schemreg.Cache

open CacheInner (CallId Fresh Clean)
open Transition

variable {s t : State} {e : Event} {c i : CallId} {stale : Fetched → Prop} {old : CallId → Prop}

/-! ## From the IDs to the GUIDs -/

/-- The calls `F` have not looked into the clean cache of the IDs too early; the others have
    sampled a generation of the GUIDs that is out of date. -/
structure Crossed (F : CallId → Prop) (old : CallId → Prop) (stale : Fetched → Prop) (s : State) :
    Prop where
  notOld : ∀ c, F c → ¬ old c
  settled : ∀ c, ¬ F c → ¬ (s.calls c).pre ∧
    ∀ gens, (s.calls c).gens = some gens → gens.on .guid < (s.side .guid).generation
  fresh : Fresh F (fun _ => True) stale (s.side .id)

theorem crossed_step {F : CallId → Prop} (h : Crossed F old stale s)
    (origin : ∀ v, stale v → old v.origin) (clean : Clean (fun _ => True) stale (s.side .id))
    (addressed : CacheInner.Addressed (s.side .id)) (hs : step s e = some t) :
    Crossed F old stale t where
  notOld := h.notOld
  settled c hF := old_step (h.settled c hF) hs
  fresh := by
    rcases side_step hs .id with heq | ⟨ie, hinner, issued⟩
    · rw [heq]
      exact h.fresh
    · refine CacheInner.fresh_step h.fresh clean addressed ?_ hinner
      intro c k token v he _ hF _ hv
      subst he
      obtain ⟨answer, key, _, hr, _⟩ := issued_reply issued
      have hold := origin v hv
      rw [(fetchedBy_ok hr.symm).2] at hold
      exact h.notOld c hF hold

/-- So nothing stale is brought over. -/
theorem Crossed.crosses {F : CallId → Prop} (h : Crossed F old stale s) :
    CrossesOutdated .guid (fun _ => True) stale s e := by
  intro c key gens k v _ hphase hret hv
  by_cases hF : F c
  · exact absurd hv.1 (h.fresh.returned c k v hF hret trivial)
  · exact (h.settled c hF).2 gens (by rw [hphase]; rfl)

/-- The bump of the second method. -/
theorem crossed_of_bump {what : Drop .guid} {todo : List ((x : Ident) × Drop x)}
    (hc : Consistent s) (hold : ∀ c, old c → ¬ (s.calls c).pre)
    (hwhat : what.removes (fun _ => True) stale) (hi : t.calls i = .running .guid todo)
    (hbump : CacheInner.step (s.side .guid) (.begin i what.op) = some (t.side .guid))
    (hside : t.side .id = s.side .id) (hcalls : ∀ c, c ≠ i → t.calls c = s.calls c)
    (hs : step s e = some t) : Crossed (fun c => (s.calls c).pre) old stale t where
  notOld c hpre hco := hold c hco hpre
  settled c hpre := by
    obtain ⟨_, hgen⟩ := CacheInner.pending_of_begin (Drop.removes_op hwhat) hbump
    refine ⟨pre_step hpre hs, fun gens hgens => ?_⟩
    by_cases hci : c = i
    · rw [hci, hi] at hgens
      cases hgens
    · rw [hcalls c hci] at hgens
      have := hc.sampled.both c gens hgens .guid
      omega
  fresh := by
    rw [hside]
    exact CacheInner.fresh_of_idle (hc.addressed .id) fun c hpre => (hc.linked c).quiet hpre .id

/-! ## The whole invalidation -/

/-- A call that has ended without invalidating anything. -/
def Phase.ended : Phase → Prop
  | .failed _ | .dropped => True
  | _ => False

theorem ended_step (h : (s.calls i).ended) (hs : step s e = some t) : (t.calls i).ended := by
  refine phase_kept (P := Phase.ended) hs h fun p q _ hmoves hended => ?_
  cases hmoves <;> cases hended

/-- A deletion waits for the answer of the inner client. -/
theorem deleting_step {subject : String} (h : s.calls i = .deleting subject)
    (hs : step s e = some t) :
    t.calls i = .deleting subject ∨ t.calls i = .dropping (Invalidation.subject subject).drops ∨
      (t.calls i).ended := by
  rcases step_moves hs i with heq | ⟨p, q, hp, hq, hmoves⟩
  · rw [heq]
    exact Or.inl h
  · rw [h] at hp
    rw [hq]
    cases hmoves with
    | deletedOk =>
      cases hp
      exact Or.inr (Or.inl rfl)
    | deletedError | dropDeleting => exact Or.inr (Or.inr trivial)
    | _ => cases hp

/-- Where the invalidation stands, and what it has made of the caches. -/
inductive Stage (i : CallId) (what : (x : Ident) → Drop x) (old : CallId → Prop)
    (stale : Fetched → Prop) (s : State) : Prop where
  | ended (phase : (s.calls i).ended)
  | deleting (subject : String) (phase : s.calls i = .deleting subject)
      (drops : what = fun _ => .subject subject)
  | waiting (phase : s.calls i = .dropping [⟨.id, what .id⟩, ⟨.guid, what .guid⟩])
  | first (barred : Barred .id i old (fun _ => True) stale s)
      (phase : s.calls i = .running .id [⟨.guid, what .guid⟩] ∨
        (s.methods i .id = .finished ∧ s.calls i = .dropping [⟨.guid, what .guid⟩]))
  | second (F : CallId → Prop) (barred : ∀ x, Barred x i old (fun _ => True) stale s)
      (finished : s.methods i .id = .finished) (crossed : Crossed F old stale s)
      (phase : s.calls i = .running .guid [] ∨
        (s.methods i .guid = .finished ∧ (s.calls i = .dropping [] ∨ s.calls i = .finished)))

structure Sweeping (i : CallId) (what : (x : Ident) → Drop x) (old : CallId → Prop)
    (stale : Fetched → Prop) (s : State) : Prop where
  consistent : Consistent s
  begun : ∀ c, old c → ¬ (s.calls c).pre
  stage : Stage i what old stale s

/-- No stale schema gets past the invalidation on either cache, and no lookup by GUID brings
    one over to the cache of the IDs once that has been invalidated. -/
structure NonePassesBoth (i : CallId) (stale : Fetched → Prop) (s : State) (e : Event) : Prop where
  passes : ∀ x, NonePasses x i (fun _ => True) stale s e
  crosses : s.methods i .id ≠ .idle → CrossesOutdated .id (fun _ => True) stale s e

theorem stage_first {what : (x : Ident) → Drop x} (h : Sweeping i what old stale s)
    (hwhat : (what .guid).removes (fun _ => True) stale)
    (barred' : Barred .id i old (fun _ => True) stale t)
    (phase : s.calls i = .running .id [⟨.guid, what .guid⟩] ∨
      (s.methods i .id = .finished ∧ s.calls i = .dropping [⟨.guid, what .guid⟩]))
    (hs : step s e = some t) : Stage i what old stale t := by
  rcases phase with hrun | ⟨hfin, hd⟩
  · rcases running_step hrun hs with hrun' | ⟨hd, hfin, hside⟩
    · exact .first barred' (Or.inl hrun')
    · refine .first barred' (Or.inr ⟨?_, hd⟩)
      rw [State.methods, hside]
      exact hfin
  · have hfin' := methods_finished hfin hs
    rcases dropping_step hd hs with hd' | ⟨hnil, _⟩ | ⟨y, w, rest, heq, hrun, hbump, hside, hcalls⟩
    · exact .first barred' (Or.inr ⟨hfin', hd'⟩)
    · cases hnil
    · cases heq
      -- the cache of the IDs is clean, and the second method bumps its generation
      have hguid := barred_of_bump h.consistent h.begun hwhat hrun hbump hcalls
      refine .second _ ?_ hfin' (crossed_of_bump h.consistent h.begun hwhat hrun hbump
        (hside .id (by decide)) hcalls hs) (Or.inl hrun)
      intro x
      cases x with
      | id => exact barred'
      | guid => exact hguid

theorem stage_second {what : (x : Ident) → Drop x} {F : CallId → Prop}
    (h : Sweeping i what old stale s) (origin : ∀ v, stale v → old v.origin)
    (guard : NonePassesBoth i stale s e)
    (barred : ∀ x, Barred x i old (fun _ => True) stale s) (finished : s.methods i .id = .finished)
    (crossed : Crossed F old stale s)
    (phase : s.calls i = .running .guid [] ∨
      (s.methods i .guid = .finished ∧ (s.calls i = .dropping [] ∨ s.calls i = .finished)))
    (hs : step s e = some t) : Stage i what old stale t := by
  have barred' : ∀ x, Barred x i old (fun _ => True) stale t := by
    intro x
    cases x with
    | id =>
      exact barred_step (barred .id) origin (guard.passes .id) (guard.crosses (barred .id).begun) hs
    | guid => exact barred_step (barred .guid) origin (guard.passes .guid) crossed.crosses hs
  have crossed' := crossed_step crossed origin ((barred .id).sweep.clean finished)
    (h.consistent.addressed .id) hs
  exact .second F barred' (methods_finished finished hs) crossed' (last_step phase hs)

theorem sweeping_step {what : (x : Ident) → Drop x} (h : Sweeping i what old stale s)
    (hwhat : ∀ x, (what x).removes (fun _ => True) stale) (origin : ∀ v, stale v → old v.origin)
    (guard : NonePassesBoth i stale s e) (hs : step s e = some t) : Sweeping i what old stale t := by
  refine ⟨consistent_step h.consistent hs, fun c hold => pre_step (h.begun c hold) hs, ?_⟩
  cases h.stage with
  | ended phase => exact .ended (ended_step phase hs)
  | deleting subject phase drops =>
    rcases deleting_step phase hs with hd | hd | hended
    · exact .deleting subject hd drops
    · refine .waiting ?_
      rw [hd, drops]
      rfl
    · exact .ended hended
  | waiting phase =>
    rcases dropping_step phase hs with hd' | ⟨hnil, _⟩ | ⟨y, w, rest, heq, hrun, hbump, _, hcalls⟩
    · exact .waiting hd'
    · cases hnil
    · cases heq
      exact .first (barred_of_bump h.consistent h.begun (hwhat .id) hrun hbump hcalls) (Or.inl hrun)
  | first barred phase =>
    have barred' := barred_step barred origin (guard.passes .id) (guard.crosses barred.begun) hs
    exact stage_first h (hwhat .guid) barred' phase hs
  | second F barred finished crossed phase =>
    exact stage_second h origin guard barred finished crossed phase hs

/-- The phases of the invalidation: what is left to do is to drop. -/
def Phase.follows (what : (x : Ident) → Drop x) : Phase → Prop
  | .dropping todo | .running _ todo => ∀ d ∈ todo, d.2 = what d.1
  | .deleting _ | .failed _ | .dropped | .finished => True
  | _ => False

theorem Stage.follows {what : (x : Ident) → Drop x} (h : Stage i what old stale s) :
    (s.calls i).follows what := by
  cases h with
  | ended phase => cases hp : s.calls i <;> rw [hp] at phase <;> cases phase <;> trivial
  | deleting subject phase drops =>
    rw [phase]
    trivial
  | waiting phase =>
    rw [phase]
    simp [Phase.follows]
  | first barred phase =>
    rcases phase with phase | ⟨_, phase⟩ <;> rw [phase] <;> simp [Phase.follows]
  | second F barred finished crossed phase =>
    rcases phase with phase | ⟨_, phase | phase⟩ <;> rw [phase] <;> simp [Phase.follows]

/-- What the invalidation begins on a cache is the method that drops. -/
theorem Sweeping.op_eq {what : (x : Ident) → Drop x} (h : Sweeping i what old stale s) {x : Ident}
    {op : CacheInner.Op x.Key Fetched} (issued : Issued s e x (.begin i op)) :
    op = (what x).op := by
  have hfollows := h.stage.follows
  rcases issued_begin issued with ⟨_, _, hpre⟩ | ⟨_, _, _, _, _, _, hindex, _⟩ |
    ⟨w, todo, rfl, hdrop⟩
  · cases hp : s.calls i <;> rw [hp] at hpre hfollows <;> cases hpre <;> cases hfollows
  · rw [hindex] at hfollows
    cases hfollows
  · rw [hdrop] at hfollows
    exact congrArg Drop.op (hfollows ⟨x, w⟩ List.mem_cons_self)

/-- What a method brings about with its bump, and every step keeps, holds on each cache that the
    invalidation has come to. -/
theorem Sweeping.begun_step {what : (x : Ident) → Drop x} (h : Sweeping i what old stale s)
    {C : Ident → Nat → State → Prop} (hC : ∀ x, s.methods i x = .idle ∨ ∃ N, C x N s)
    (kept : ∀ x N, C x N s → C x N t)
    (bump : ∀ x, CacheInner.step (s.side x) (.begin i (what x).op) = some (t.side x) →
      ∃ N, C x N t) (hs : step s e = some t) (x : Ident) :
    t.methods i x = .idle ∨ ∃ N, C x N t := by
  rcases hC x with hidle | ⟨N, hN⟩
  · rcases side_step hs x with heq | ⟨ie, hinner, issued⟩
    · refine Or.inl ?_
      rw [State.methods, heq]
      exact hidle
    · by_cases hbegin : ∃ op, ie = .begin i op
      · obtain ⟨op, rfl⟩ := hbegin
        rw [h.op_eq issued] at hinner
        exact Or.inr (bump x hinner)
      · exact Or.inl (CacheInner.idle_step hidle hinner fun op hop => hbegin ⟨op, hop⟩)
  · exact Or.inr ⟨N, kept x N hN⟩

/-- When the invalidation has returned, both caches are clean. -/
theorem Sweeping.clean {what : (x : Ident) → Drop x} (h : Sweeping i what old stale s)
    (hf : s.calls i = .finished) (x : Ident) : Clean (fun _ => True) stale (s.side x) := by
  cases h.stage with
  | ended phase =>
    rw [hf] at phase
    cases phase
  | deleting subject phase drops =>
    rw [hf] at phase
    cases phase
  | waiting phase =>
    rw [hf] at phase
    cases phase
  | first barred phase =>
    rcases phase with hrun | ⟨_, hd⟩
    · rw [hf] at hrun
      cases hrun
    · rw [hf] at hd
      cases hd
  | second F barred finished crossed phase =>
    cases x with
    | id => exact (barred .id).sweep.clean finished
    | guid =>
      rcases phase with hrun | ⟨hfin, _⟩
      · rw [hf] at hrun
        cases hrun
      · exact (barred .guid).sweep.clean hfin

end Schemreg.Cache
