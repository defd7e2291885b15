import Schemreg.Cache.Step
import Schemreg.CacheInner.Clean

/-
  The wrapper's calls and their methods on the caches.

  `Link phase inner c` says what the phase of a wrapper call says about the methods it runs
  on the two caches: which of them it has not begun, which lookup it is in, and that it does
  not start another fetch. It is a statement about one call, so a step only has to be
  followed for the calls it moves (`linked_step`).
-/

namespace Schemreg.Cache

open CacheInner (CallId)
open Transition

variable {s t : State} {e : Event}

/-- What call `c` does on each cache. -/
def State.methods (s : State) (c : CallId) (x : Ident) : CacheInner.Phase x.Key Fetched :=
  (s.side x).calls c

/-- The call may still begin a lookup. -/
def Phase.pre : Phase → Prop
  | .idle | .sampling _ | .sampledId _ _ | .sampled _ _ => True
  | _ => False

/-- A call that has something to index has begun no insertion for what is left to do. What it
    found by an identifier goes into the other cache; what it fetched by subject is its own. -/
structure ToIndex (inner : (x : Ident) → CacheInner.Phase x.Key Fetched) (c : CallId)
    (request : Lookup) (v : Fetched) (todo : List Ident) : Prop where
  once : todo.Nodup
  idle : ∀ y ∈ todo, inner y = .idle
  byKey : ∀ x key, request = .byKey x key → inner x ≠ .idle ∧ ∀ y ∈ todo, y = x.other
  own : request.direct → v.origin = c

/-- What the phase of call `c` says about its methods. -/
def Link (phase : Phase) (inner : (x : Ident) → CacheInner.Phase x.Key Fetched) (c : CallId) :
    Prop :=
  (∀ x, (inner x).sending → (∃ key gens, phase = .looking x key gens) ∨
    (x = .id ∧ ∃ parent id, phase = .child parent id)) ∧
  match phase with
  | .idle | .sampling _ | .sampledId _ _ | .sampled _ _ | .deleting _ | .warming _ _ _
  | .warmed _ | .failed _ => ∀ x, inner x = .idle
  | .fetching request _ => request.direct ∧ ∀ x, inner x = .idle
  | .looking x key _ => (inner x).getting key ∧ inner x.other = .idle
  | .child _ id => (inner .id).getting id ∧ inner .guid = .idle
  | .indexing request v todo _ => ToIndex inner c request v todo
  | .inserting request v x todo _ => x ∉ todo ∧ ToIndex inner c request v todo
  | .returned _ _ | .dropping _ | .running _ _ | .finished | .dropped => True

/-- A link survives what the methods of the call do on their own. -/
theorem Link.mono {phase : Phase} {inner inner' : (x : Ident) → CacheInner.Phase x.Key Fetched}
    {c : CallId} (h : Link phase inner c) (idle : ∀ x, inner x = .idle → inner' x = .idle)
    (begun : ∀ x, inner x ≠ .idle → inner' x ≠ .idle)
    (getting : ∀ x key, (inner x).getting key → (inner' x).getting key)
    (sending : ∀ x, ¬ (inner x).sending → ¬ (inner' x).sending) : Link phase inner' c := by
  obtain ⟨hs, hl⟩ := h
  have toIndex : ∀ {request v todo}, ToIndex inner c request v todo →
      ToIndex inner' c request v todo := fun h =>
    ⟨h.once, fun y hy => idle y (h.idle y hy),
      fun x key hr => ⟨begun x (h.byKey x key hr).1, (h.byKey x key hr).2⟩, h.own⟩
  refine ⟨fun x hx => hs x (Classical.byContradiction fun hn => sending x hn hx), ?_⟩
  cases phase with
  | looking x key gens => exact ⟨getting x key hl.1, idle _ hl.2⟩
  | child parent id => exact ⟨getting .id id hl.1, idle _ hl.2⟩
  | indexing request v todo gens => exact toIndex hl
  | inserting request v x todo gens => exact ⟨hl.1, toIndex hl.2⟩
  | fetching request gens => exact ⟨hl.1, fun x => idle x (hl.2 x)⟩
  | returned | dropping | running | finished | dropped => trivial
  | _ => exact fun x => idle x (hl x)

/-- A call that runs nothing can be anywhere that asks for nothing more. -/
theorem not_sending_of_idle {x : Ident} {phase : CacheInner.Phase x.Key Fetched}
    (h : phase = .idle) : ¬ phase.sending := by
  rw [h]
  exact id

theorem Link.quiet {phase : Phase} {inner : (x : Ident) → CacheInner.Phase x.Key Fetched}
    {c : CallId} (h : Link phase inner c) (hp : phase.pre) : ∀ x, inner x = .idle := by
  cases phase with
  | idle | sampling | sampledId | sampled => exact h.2
  | _ => cases hp

/-! ## The calls that a step moves -/

/-- The call that takes a step. -/
def Event.call : Event → CallId
  | .begin c _ | .advance c | .inner _ c | .reply c _ | .deleted c _ | .drop c | .spawn c _ _
  | .collect c _ => c

/-- The calls that a step moves: the one that takes it, and for `warm_cache` also a child. -/
def Event.movers : Event → List CallId
  | .spawn c child _ | .collect c child => [c, child]
  | e => [e.call]

theorem issued_call {x : Ident} {ie : CacheInner.Event x.Key Fetched} (h : Issued s e x ie) :
    ie.call ∈ e.movers := by
  cases h <;> simp [CacheInner.Event.call, Event.movers, Event.call]

theorem calls_other (hs : step s e = some t) {d : CallId} (hd : d ∉ e.movers) :
    t.calls d = s.calls d := by
  cases step_cases hs <;> simp_all [Event.movers, Event.call]

theorem methods_other (hs : step s e = some t) {d : CallId} (hd : d ∉ e.movers) :
    t.methods d = s.methods d := by
  funext x
  unfold State.methods
  rcases side_step hs x with heq | ⟨ie, hinner, issued⟩
  · rw [heq]
  · refine CacheInner.calls_other hinner ?_
    intro h
    exact hd (h ▸ issued_call issued)

/-! ## One step -/

theorem methods_setSide_self (x : Ident) (i : CacheInner.State x.Key Fetched) (c : CallId) :
    (s.setSide x i).methods c x = i.calls c := by
  simp [State.methods]

theorem methods_setSide_ne {x y : Ident} (i : CacheInner.State x.Key Fetched) (c : CallId)
    (h : y ≠ x) : (s.setSide x i).methods c y = s.methods c y := by
  simp [State.methods, s.setSide_ne i h]

theorem other_ne (x : Ident) : x.other ≠ x := by
  cases x <;> decide

theorem eq_or_other (x y : Ident) : y = x ∨ y = x.other := by
  cases x <;> cases y <;> decide

/-- A call that is not in a lookup has nothing to send. -/
theorem Link.calm {phase : Phase} {inner : (x : Ident) → CacheInner.Phase x.Key Fetched}
    {c : CallId} (h : Link phase inner c) (looking : ∀ x key gens, phase ≠ .looking x key gens)
    (child : ∀ parent id, phase ≠ .child parent id) : ∀ x, ¬ (inner x).sending := by
  intro x hx
  rcases h.1 x hx with ⟨key, gens, hp⟩ | ⟨_, parent, id, hp⟩
  · exact looking x key gens hp
  · exact child parent id hp

theorem calm_setSide {x : Ident} {ie : CacheInner.Event x.Key Fetched}
    {i : CacheInner.State x.Key Fetched} {c : CallId} (h : ∀ y, ¬ (s.methods c y).sending)
    (inner : CacheInner.step (s.side x) ie = some i)
    (hbegin : ∀ key, ie ≠ .begin c (.getOrFetch key)) :
    ∀ y, ¬ ((s.setSide x i).methods c y).sending := by
  intro y
  by_cases hyx : y = x
  · subst hyx
    rw [methods_setSide_self]
    exact CacheInner.sending_step (h y) inner hbegin
  · rw [methods_setSide_ne i c hyx]
    exact h y

/-- A step of one cache that does not begin a method of `c` and does not drop its future. -/
theorem link_inner {x : Ident} {ie : CacheInner.Event x.Key Fetched}
    {i : CacheInner.State x.Key Fetched} {phase : Phase} {c : CallId}
    (h : Link phase (s.methods c) c) (inner : CacheInner.step (s.side x) ie = some i)
    (hbegin : ∀ op, ie ≠ .begin c op) (hdrop : ie ≠ .drop c) :
    Link phase ((s.setSide x i).methods c) c := by
  refine h.mono ?_ ?_ ?_ ?_
  · intro y hy
    by_cases hyx : y = x
    · subst hyx
      rw [methods_setSide_self]
      exact CacheInner.idle_step hy inner hbegin
    · rwa [methods_setSide_ne i c hyx]
  · intro y hy
    by_cases hyx : y = x
    · subst hyx
      rw [methods_setSide_self]
      exact CacheInner.begun_step hy inner
    · rwa [methods_setSide_ne i c hyx]
  · intro y key hy
    by_cases hyx : y = x
    · subst hyx
      rw [methods_setSide_self]
      exact CacheInner.getting_step hy inner hdrop
    · rwa [methods_setSide_ne i c hyx]
  · intro y hy
    by_cases hyx : y = x
    · subst hyx
      rw [methods_setSide_self]
      exact CacheInner.sending_step hy inner fun key => hbegin _
    · rwa [methods_setSide_ne i c hyx]

/-- A lookup that begins is in the cache it looks in, and in no other. -/
theorem link_look {x : Ident} {key : x.Key} {i : CacheInner.State x.Key Fetched} {c : CallId}
    {gens : Generations} (quiet : ∀ y, s.methods c y = .idle)
    (inner : CacheInner.step (s.side x) (.begin c (.getOrFetch key)) = some i) :
    Link (.looking x key gens) ((s.setSide x i).methods c) c := by
  have hother : (s.setSide x i).methods c x.other = .idle := by
    rw [methods_setSide_ne i c (other_ne x)]
    exact quiet _
  refine ⟨fun y hy => ?_, ?_, hother⟩
  · rcases eq_or_other x y with rfl | rfl
    · exact Or.inl ⟨key, gens, rfl⟩
    · exact absurd hy (not_sending_of_idle hother)
  · rw [methods_setSide_self]
    exact CacheInner.getting_of_begin inner

theorem link_spawned {id : SchemaId} {i : CacheInner.State Ident.id.Key Fetched}
    {c parent : CallId} (quiet : ∀ y, s.methods c y = .idle)
    (inner : CacheInner.step (s.side .id) (.begin c (.getOrFetch id)) = some i) :
    Link (.child parent id) ((s.setSide .id i).methods c) c := by
  have hother : (s.setSide .id i).methods c .guid = .idle := by
    rw [methods_setSide_ne i c (by decide)]
    exact quiet _
  refine ⟨fun y hy => ?_, ?_, hother⟩
  · cases y with
    | id => exact Or.inr ⟨rfl, parent, id, rfl⟩
    | guid => exact absurd hy (not_sending_of_idle hother)
  · rw [methods_setSide_self]
    exact CacheInner.getting_of_begin inner

theorem link_index {x : Ident} {key : x.Key} {i : CacheInner.State x.Key Fetched} {c : CallId}
    {request : Lookup} {v : Fetched} {todo : List Ident} {gens : Generations} {g : Nat}
    (h : Link (.indexing request v (x :: todo) gens) (s.methods c) c)
    (inner : CacheInner.step (s.side x) (.begin c (.insertIfCurrent key v g)) = some i) :
    Link (.inserting request v x todo gens) ((s.setSide x i).methods c) c := by
  have hx := List.nodup_cons.mp h.2.once
  have hcalm := h.calm (by nofun) (by nofun)
  refine ⟨fun y hy => absurd hy (calm_setSide hcalm inner (by nofun) y), hx.1, hx.2, ?_, ?_, h.2.own⟩
  · intro y hy
    have hyx : y ≠ x := fun heq => hx.1 (heq ▸ hy)
    rw [methods_setSide_ne i c hyx]
    exact h.2.idle y (List.mem_cons_of_mem _ hy)
  · intro z k hr
    obtain ⟨hz, htodo⟩ := h.2.byKey z k hr
    refine ⟨?_, fun y hy => htodo y (List.mem_cons_of_mem _ hy)⟩
    by_cases hzx : z = x
    · subst hzx
      exact absurd (h.2.idle z List.mem_cons_self) hz
    · rwa [methods_setSide_ne i c hzx]

/-- A call that asks for nothing more. -/
theorem link_done {phase : Phase} {inner : (x : Ident) → CacheInner.Phase x.Key Fetched}
    {c : CallId} (calm : ∀ x, ¬ (inner x).sending)
    (done : (∃ request r, phase = .returned request r) ∨ (∃ todo, phase = .dropping todo) ∨
      (∃ x todo, phase = .running x todo) ∨ phase = .finished ∨ phase = .dropped) :
    Link phase inner c := by
  refine ⟨fun x hx => absurd hx (calm x), ?_⟩
  rcases done with ⟨request, r, rfl⟩ | ⟨todo, rfl⟩ | ⟨x, todo, rfl⟩ | rfl | rfl <;> trivial

theorem calm_of_idle {inner : (x : Ident) → CacheInner.Phase x.Key Fetched}
    (h : ∀ x, inner x = .idle) : ∀ x, ¬ (inner x).sending :=
  fun x => not_sending_of_idle (h x)

/-- A lookup that has ended in the cache has nothing to send. -/
theorem calm_of_looking {inner : (x : Ident) → CacheInner.Phase x.Key Fetched} {x : Ident}
    (hx : ¬ (inner x).sending) (hother : inner x.other = .idle) : ∀ y, ¬ (inner y).sending := by
  intro y
  rcases eq_or_other x y with rfl | rfl
  · exact hx
  · exact not_sending_of_idle hother

/-- The wrapper's calls are linked to their methods. -/
def Linked (s : State) : Prop := ∀ c, Link (s.calls c) (s.methods c) c

theorem linked_init (maxEntries : Nat) : Linked (State.withMaxEntries maxEntries) :=
  fun _ => ⟨fun _ hx => absurd hx (not_sending_of_idle rfl), fun _ => rfl⟩

/-- A call that moves from a phase to another one. -/
theorem link_goto {u : State} {c : CallId} {p q : Phase} (h : Linked s) (phase : s.calls c = p)
    (moved : Link p (s.methods c) c → Link q (u.methods c) c) :
    Link ((u.goto c q).calls c) ((u.goto c q).methods c) c := by
  have link := h c
  rw [phase] at link
  rw [State.goto_calls, if_pos rfl]
  exact moved link

/-- A step keeps the link of the call that takes it. -/
theorem link_call (h : Linked s) (hs : step s e = some t) :
    Link (t.calls e.call) (t.methods e.call) e.call := by
  cases step_cases hs with
  | @begin c op phase =>
    refine link_goto h phase fun link => ?_
    have quiet := link.quiet trivial
    have calm := calm_of_idle quiet
    cases op with
    | invalidate what => exact link_done calm (Or.inr (Or.inl ⟨_, rfl⟩))
    | _ => exact ⟨fun x hx => absurd hx (calm x), quiet⟩
  | @sampleId c request phase =>
    refine link_goto h phase fun link => ?_
    exact ⟨fun x hx => absurd hx (calm_of_idle link.2 x), link.2⟩
  | @sampleGuid c request g phase =>
    refine link_goto h phase fun link => ?_
    exact ⟨fun x hx => absurd hx (calm_of_idle link.2 x), link.2⟩
  | @look c x key gens i phase inner =>
    refine link_goto h phase fun link => ?_
    exact link_look link.2 inner
  | @send c request gens phase direct =>
    refine link_goto h phase fun link => ?_
    exact ⟨fun x hx => absurd hx (calm_of_idle link.2 x), direct, link.2⟩
  | @found c x key gens k v phase inner =>
    refine link_goto h phase fun link => ?_
    have hx : ¬ (s.methods c x).sending := by rw [State.methods, inner]; exact id
    refine ⟨fun y hy => absurd hy (calm_of_looking hx link.2.2 y), by simp, ?_, ?_, ?_⟩
    · intro y hy
      have hyx : y = x.other := by simpa using hy
      rw [hyx]
      exact link.2.2
    · intro z k' hr
      cases hr
      refine ⟨by show s.methods c x ≠ .idle; rw [State.methods, inner]; nofun, ?_⟩
      intro y hy
      simpa using hy
    · intro direct
      exact absurd rfl (direct x key)
  | @notFound c x key gens k err phase inner =>
    refine link_goto h phase fun link => ?_
    have hx : ¬ (s.methods c x).sending := by rw [State.methods, inner]; exact id
    exact link_done (calm_of_looking hx link.2.2) (Or.inl ⟨_, _, rfl⟩)
  | @index c request v x todo gens key i phase known inner =>
    refine link_goto h phase fun link => ?_
    exact link_index link inner
  | @skip c request v x todo gens phase absent =>
    refine link_goto h phase fun link => ?_
    refine ⟨fun y hy => absurd hy (link.calm (by nofun) (by nofun) y), ?_, ?_, ?_, link.2.own⟩
    · exact (List.nodup_cons.mp link.2.once).2
    · exact fun y hy => link.2.idle y (List.mem_cons_of_mem _ hy)
    · intro z k hr
      obtain ⟨hz, htodo⟩ := link.2.byKey z k hr
      exact ⟨hz, fun y hy => htodo y (List.mem_cons_of_mem _ hy)⟩
  | @inserted c request v x todo gens phase inner =>
    refine link_goto h phase fun link => ?_
    exact ⟨fun y hy => absurd hy (link.calm (by nofun) (by nofun) y), link.2.2⟩
  | @indexed c request v gens phase =>
    refine link_goto h phase fun link => ?_
    exact link_done (link.calm (by nofun) (by nofun)) (Or.inl ⟨_, _, rfl⟩)
  | @run c x what todo i phase inner =>
    refine link_goto h phase fun link => ?_
    have hop : ∀ key, CacheInner.Event.begin c what.op ≠ .begin c (.getOrFetch key) := by
      intro key heq
      cases what <;> simp [Drop.op] at heq
    exact link_done (calm_setSide (link.calm (by nofun) (by nofun)) inner hop)
      (Or.inr (Or.inr (Or.inl ⟨_, _, rfl⟩)))
  | @ran c x todo phase inner =>
    refine link_goto h phase fun link => ?_
    exact link_done (link.calm (by nofun) (by nofun)) (Or.inr (Or.inl ⟨_, rfl⟩))
  | @dropped c phase =>
    refine link_goto h phase fun link => ?_
    exact link_done (link.calm (by nofun) (by nofun)) (Or.inr (Or.inr (Or.inr (Or.inl rfl))))
  | @deletedOk c subject u phase =>
    refine link_goto h phase fun link => ?_
    exact link_done (calm_of_idle link.2) (Or.inr (Or.inl ⟨_, rfl⟩))
  | @deletedError c subject err phase =>
    refine link_goto h phase fun link => ?_
    exact ⟨fun x hx => absurd hx (calm_of_idle link.2 x), link.2⟩
  | @inner x c i inner sent =>
    exact link_inner (h c) inner (by nofun) (by nofun)
  | @sendLeader x c k token i elected inner =>
    exact link_inner (h c) inner (by nofun) (by nofun)
  | @replyLooking c x key gens r i phase inner =>
    exact link_inner (h c) inner (by nofun) (by nofun)
  | @replyChild c parent id r i phase inner =>
    exact link_inner (h c) inner (by nofun) (by nofun)
  | @replyOk c request gens schema phase =>
    refine link_goto h phase fun link => ?_
    refine ⟨fun y hy => absurd hy (calm_of_idle link.2.2 y), by decide, fun y _ => link.2.2 y, ?_, ?_⟩
    · intro x key hr
      exact absurd hr (link.2.1 x key)
    · exact fun _ => rfl
  | @replyError c request gens err phase =>
    refine link_goto h phase fun link => ?_
    exact link_done (calm_of_idle link.2.2) (Or.inl ⟨_, _, rfl⟩)
  | @dropLooking c x key gens i phase inner =>
    refine link_goto h phase fun link => ?_
    refine link_done (calm_of_looking (x := x) ?_ ?_) (Or.inr (Or.inr (Or.inr (Or.inr rfl))))
    · show ¬ ((s.setSide x i).methods c x).sending
      rw [methods_setSide_self]
      exact CacheInner.not_sending_of_drop inner
    · show (s.setSide x i).methods c x.other = .idle
      rw [methods_setSide_ne i c (other_ne x)]
      exact link.2.2
  | @dropFetching c request gens phase =>
    refine link_goto h phase fun link => ?_
    exact link_done (calm_of_idle link.2.2) (Or.inr (Or.inr (Or.inr (Or.inr rfl))))
  | @dropDeleting c subject phase =>
    refine link_goto h phase fun link => ?_
    exact link_done (calm_of_idle link.2) (Or.inr (Or.inr (Or.inr (Or.inr rfl))))
  | @dropWarming c pending running failures phase =>
    refine link_goto h phase fun link => ?_
    exact link_done (calm_of_idle link.2) (Or.inr (Or.inr (Or.inr (Or.inr rfl))))
  | @dropChild c parent id i phase inner =>
    refine link_goto h phase fun link => ?_
    refine link_done (calm_of_looking (x := .id) ?_ ?_) (Or.inr (Or.inr (Or.inr (Or.inr rfl))))
    · show ¬ ((s.setSide .id i).methods c .id).sending
      rw [methods_setSide_self]
      exact CacheInner.not_sending_of_drop inner
    · show (s.setSide .id i).methods c .guid = .idle
      rw [methods_setSide_ne i c (by decide)]
      exact link.2.2
  | @spawn c child id pending running failures i phase idle inner =>
    have hne : c ≠ child := by
      intro heq
      rw [heq, idle] at phase
      cases phase
    refine link_goto h phase fun link => ?_
    have hstay := link_inner link inner (by simpa using Ne.symm hne) (by nofun)
    exact ⟨fun x hx => absurd hx (calm_of_idle hstay.2 x), hstay.2⟩
  | @collect c child id parent pending running failures k result phase isChild inner =>
    refine link_goto h phase fun link => ?_
    exact ⟨fun x hx => absurd hx (calm_of_idle link.2 x), link.2⟩
  | @warmed c failures phase =>
    refine link_goto h phase fun link => ?_
    exact ⟨fun x hx => absurd hx (calm_of_idle link.2 x), link.2⟩

/-- A step of `warm_cache` keeps the link of the child it starts or collects. -/
theorem link_child (h : Linked s) (hs : step s e = some t) {c : CallId} (hc : c ∈ e.movers)
    (hcall : c ≠ e.call) : Link (t.calls c) (t.methods c) c := by
  have link := h c
  cases step_cases hs with
  | @spawn d child id pending running failures i phase idle inner =>
    have hchild : c = child := by
      have : c = d ∨ c = child := by simpa [Event.movers] using hc
      exact this.resolve_left hcall
    subst hchild
    rw [idle] at link
    have hcd : c ≠ d := hcall
    simp only [State.goto_calls, if_neg hcd, if_true]
    exact link_spawned link.2 inner
  | @collect d child id parent pending running failures k result phase isChild inner =>
    have hchild : c = child := by
      have : c = d ∨ c = child := by simpa [Event.movers] using hc
      exact this.resolve_left hcall
    subst hchild
    rw [isChild] at link
    have hcd : c ≠ d := hcall
    have hx : ¬ (s.methods c .id).sending := by
      rw [State.methods, inner]
      exact fun hsend => hsend
    simp only [State.goto_calls, if_neg hcd, if_true]
    exact link_done (calm_of_looking hx link.2.2) (Or.inr (Or.inr (Or.inr (Or.inl rfl))))
  | _ => exact absurd (by simpa [Event.movers] using hc) hcall

theorem linked_step (h : Linked s) (hs : step s e = some t) : Linked t := by
  intro c
  by_cases hc : c ∈ e.movers
  · by_cases hcall : c = e.call
    · rw [hcall]
      exact link_call h hs
    · exact link_child h hs hc hcall
  · rw [calls_other hs hc, methods_other hs hc]
    exact h c

end Schemreg.Cache
