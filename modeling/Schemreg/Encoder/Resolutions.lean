import Schemreg.Encoder.Step

/-
  Every key comes from a resolution of its own subject.

  The registered leader of a subject runs the dialogue of `resolve_schema_key` with the
  registry (`Sound.pending`), and what it ends with enters the cache under that subject. So
  everything that the cache stores, hands to a waiter or returns under a subject is the entry
  of a completed dialogue about that subject (`ResolvedFor`), whatever ran in between.
-/

namespace Schemreg.Encoder

open CacheInner (CallId Keyed Addressed)
open Dialogue Resolver Transition

variable {Value Parsed : Type} {e : SchemaEncoder Value Parsed} {s t : State Value Parsed}
  {ev : Event Value} {subject : String} {key : SchemaKey}

/-- Some call has led a fetch for the subject, and its dialogue with the registry takes
    `resolve_schema_key` to the key. -/
def ResolvedFor (e : SchemaEncoder Value Parsed) (s : State Value Parsed) (subject : String)
    (key : SchemaKey) : Prop :=
  ∃ l token, s.cache.roles l = some (.leader subject token) ∧
    (e.resolveSubject subject).Leads (s.dialogue l) (.done (.ok key))

/-- The entry carries a key of its subject, and the encoder's own schema. -/
def RightEntry (e : SchemaEncoder Value Parsed) (s : State Value Parsed) (subject : String)
    (entry : EncoderEntry Parsed) : Prop :=
  ResolvedFor e s subject entry.key ∧ entry = e.entry entry.key

/-- The calls that a resolution of the subject may make. -/
def SchemaEncoder.Asks (e : SchemaEncoder Value Parsed) (subject : String) (call : Call) : Prop :=
  Allowed e.framing subject e.schemaStr e.schemaType e.references e.resolution call

structure Sound (e : SchemaEncoder Value Parsed) (s : State Value Parsed) : Prop where
  addressed : Addressed s.cache
  started : ∀ c, s.dialogue c ≠ [] → ∃ subject, s.cache.fetchStarted c subject
  pending : ∀ c resolution, s.pending c = some resolution → ∃ subject token,
    s.cache.calls c = .fetching subject token ∧
      (e.resolveSubject subject).Leads (s.dialogue c) resolution
  asked : ∀ c call, (c, call) ∈ s.sent → ∃ subject token,
    s.cache.roles c = some (.leader subject token) ∧ e.Asks subject call
  keyed : Keyed (RightEntry e s) s.cache
  lookups : ∀ c call, s.calls c = .resolving call → ∃ subject,
    e.subjectFor call = .ok subject ∧ (s.cache.calls c).getting subject
  encoded : ∀ c call frame, s.calls c = .encoded call (.ok frame) → ∃ subject key,
    e.subjectFor call = .ok subject ∧ ResolvedFor e s subject key ∧
      e.finish call (e.entry key) = .ok frame

theorem sound_init (maxEntries : Nat) : Sound e (State.init maxEntries) where
  addressed := CacheInner.addressed_init _ _
  started c h := absurd rfl h
  pending c resolution h := by cases h
  asked c call h := by cases h
  keyed := CacheInner.keyed_init _ _
  lookups c call h := by cases h
  encoded c call frame h := by cases h

/-! ## What a step keeps -/

theorem roles_step (h : Sound e s) (hs : step e s ev = some t) {c : CallId}
    {role : CacheInner.Role String} (hrole : s.cache.roles c = some role) :
    t.cache.roles c = some role := by
  rcases cache_step hs with heq | ⟨ie, inner, _⟩
  · rwa [heq]
  · exact CacheInner.roles_step h.addressed.tokens inner hrole

/-- The role of a call that waits for the registry. -/
theorem Sound.leads (h : Sound e s) {c : CallId} {resolution : Resolution}
    (hpending : s.pending c = some resolution) : ∃ subject token,
    s.cache.roles c = some (.leader subject token) ∧
      (e.resolveSubject subject).Leads (s.dialogue c) resolution := by
  obtain ⟨subject, token, hfetching, hleads⟩ := h.pending c resolution hpending
  exact ⟨subject, token, h.addressed.tokens.role hfetching, hleads⟩

/-- A completed dialogue is not continued. -/
theorem resolvedFor_step (h : Sound e s) (hs : step e s ev = some t)
    (hres : ResolvedFor e s subject key) : ResolvedFor e t subject key := by
  obtain ⟨l, token, hrole, hleads⟩ := hres
  refine ⟨l, token, roles_step h hs hrole, ?_⟩
  rcases dialogue_step hs l with hsame | ⟨x, resolution, _, hpending, hresume, _⟩
  · rwa [hsame]
  · obtain ⟨subject', token', hrole', hleads'⟩ := h.leads hpending
    have hsubject : subject' = subject ∧ token' = token := by
      rw [hrole] at hrole'
      simpa [eq_comm] using hrole'
    rw [hsubject.1] at hleads'
    rw [hleads'.unique hleads] at hresume
    cases hresume

theorem rightEntry_step (h : Sound e s) (hs : step e s ev = some t) {entry : EncoderEntry Parsed}
    (hright : RightEntry e s subject entry) : RightEntry e t subject entry :=
  ⟨resolvedFor_step h hs hright.1, hright.2⟩

/-- The last answer of a resolution completes its dialogue. -/
theorem resolvedFor_of_last (h : Sound e s) {c : CallId} {x : Exchange} {resolution : Resolution}
    (hs : step e s (.answer c x) = some t) (hpending : s.pending c = some resolution)
    (hlast : resolution.resume x = some (.done (.ok key))) :
    ∃ subject token, s.cache.calls c = .fetching subject token ∧ ResolvedFor e t subject key := by
  obtain ⟨subject, token, hfetching, hleads⟩ := h.pending c resolution hpending
  have hrole : s.cache.roles c = some (.leader subject token) := h.addressed.tokens.role hfetching
  refine ⟨subject, token, hfetching, c, token, roles_step h hs hrole, ?_⟩
  have hgrows : t.dialogue c = s.dialogue c ++ [x] := by
    cases step_cases hs with
    | resolved => exact (s.dialogue_append c c x rfl).trans (if_pos rfl)
    | ask => exact (s.dialogue_append c c x rfl).trans (if_pos rfl)
  rw [hgrows]
  exact hleads.resume hlast

theorem entersRight (h : Sound e s) (hs : step e s ev = some t)
    {ie : CacheInner.Event String (EncoderEntry Parsed)} (issued : Issued e s ev ie) :
    CacheInner.EntersRight (RightEntry e t) s.cache ie where
  replies c k token v he hfetching := by
    cases issued with
    | @reply c' x resolution result pending last =>
      have heq : c' = c ∧ result.map e.entry = .ok v := by simpa using he
      obtain ⟨rfl, hv⟩ := heq
      cases result with
      | error err => cases hv
      | ok key =>
        obtain rfl : e.entry key = v := Except.ok.inj hv
        obtain ⟨subject, token', hfetching', hres⟩ := resolvedFor_of_last h hs pending last
        have hk : k = subject ∧ token = token' := by
          rw [hfetching] at hfetching'
          simpa using hfetching'
        rw [hk.1]
        exact ⟨hres, rfl⟩
    | _ => cases he
  inserts c k v g he := by
    cases issued <;> cases he

/-! ## The parts of the invariant -/

theorem started_step (h : Sound e s) (hs : step e s ev = some t) {c : CallId}
    (hne : t.dialogue c ≠ []) : ∃ subject, t.cache.fetchStarted c subject := by
  have hstarted : ∃ subject, s.cache.fetchStarted c subject := by
    rcases dialogue_step hs c with hsame | ⟨x, resolution, _, hpending, _⟩
    · rw [hsame] at hne
      exact h.started c hne
    · obtain ⟨subject, token, hfetching, _⟩ := h.pending c resolution hpending
      exact ⟨subject, token, h.addressed.tokens.role hfetching, by rw [hfetching]; nofun⟩
  obtain ⟨subject, token, hrole, hphase⟩ := hstarted
  refine ⟨subject, token, roles_step h hs hrole, ?_⟩
  rcases cache_step hs with heq | ⟨ie, inner, _⟩
  · rwa [heq]
  · intro helected
    rcases CacheInner.elected_step inner helected with hold | hmissed
    · exact hphase hold
    · have hnone : s.cache.roles c = none := h.addressed.tokens.role hmissed
      rw [hrole] at hnone
      cases hnone

/-- A fetch ends with its answer or with its drop. -/
theorem fetching_stays {d : CallId} {k : String} {token : Nat}
    {i j : CacheInner.State String (EncoderEntry Parsed)}
    {ie : CacheInner.Event String (EncoderEntry Parsed)} (hd : i.calls d = .fetching k token)
    (inner : CacheInner.step i ie = some j) (hreply : ∀ r, ie ≠ .reply d r)
    (hdrop : ie ≠ .drop d) : j.calls d = .fetching k token := by
  by_cases hcall : d = ie.call
  · subst hcall
    cases CacheInner.step_cases inner <;> simp_all [CacheInner.Event.call]
  · rw [CacheInner.calls_other inner hcall, hd]

/-- A leader that has not been polled has asked nothing. -/
theorem dialogue_of_elected (h : Sound e s) {c : CallId} {token : Nat}
    (hphase : s.cache.calls c = .elected subject token) : s.dialogue c = [] := by
  by_contra hne
  obtain ⟨subject', token', hrole', hother⟩ := h.started c hne
  have hrole : s.cache.roles c = some (.leader subject token) := h.addressed.tokens.role hphase
  rw [hrole] at hrole'
  obtain ⟨rfl, rfl⟩ : subject = subject' ∧ token = token' := by simpa using hrole'
  exact hother hphase

theorem pending_step (h : Sound e s) (hs : step e s ev = some t) {d : CallId}
    {resolution : Resolution} (hd : t.pending d = some resolution) : ∃ subject token,
      t.cache.calls d = .fetching subject token ∧
        (e.resolveSubject subject).Leads (t.dialogue d) resolution := by
  cases step_cases hs with
  | encode idle names inner =>
    obtain ⟨subject, token, hfetching, hleads⟩ := h.pending d resolution hd
    exact ⟨subject, token, fetching_stays hfetching inner nofun nofun, hleads⟩
  | refuse idle names => exact h.pending d resolution hd
  | invalidate idle inner =>
    obtain ⟨subject, token, hfetching, hleads⟩ := h.pending d resolution hd
    exact ⟨subject, token, fetching_stays hfetching inner nofun nofun, hleads⟩
  | @fetch c subject token i phase inner =>
    rw [State.wait_pending] at hd
    by_cases hdc : d = c
    · subst hdc
      rw [if_pos rfl] at hd
      obtain rfl := Option.some.inj hd
      refine ⟨subject, token, CacheInner.polled_step phase inner, ?_⟩
      have hnil : s.dialogue d = [] := dialogue_of_elected h phase
      show (e.resolveSubject subject).Leads (s.dialogue d) _
      rw [hnil]
      exact .here
    · rw [if_neg hdc] at hd
      obtain ⟨subject', token', hfetching, hleads⟩ := h.pending d resolution hd
      exact ⟨subject', token', fetching_stays hfetching inner nofun nofun, hleads⟩
  | resume other inner =>
    obtain ⟨subject, token, hfetching, hleads⟩ := h.pending d resolution hd
    exact ⟨subject, token, fetching_stays hfetching inner nofun nofun, hleads⟩
  | @resolved c x waiting result i pending last inner =>
    rw [State.settle_pending] at hd
    by_cases hdc : d = c
    · rw [if_pos hdc] at hd
      cases hd
    · rw [if_neg hdc] at hd
      obtain ⟨subject, token, hfetching, hleads⟩ := h.pending d resolution hd
      refine ⟨subject, token, fetching_stays hfetching inner ?_ nofun, ?_⟩
      · intro r heq
        cases heq
        exact hdc rfl
      · rw [s.dialogue_append c d x rfl, if_neg hdc]
        exact hleads
  | @ask c x waiting next pending more =>
    rw [State.wait_pending] at hd
    by_cases hdc : d = c
    · subst hdc
      rw [if_pos rfl] at hd
      obtain rfl := Option.some.inj hd
      obtain ⟨subject, token, hfetching, hleads⟩ := h.pending d waiting pending
      refine ⟨subject, token, hfetching, ?_⟩
      rw [s.dialogue_append d d x rfl, if_pos rfl]
      exact hleads.resume more
    · rw [if_neg hdc] at hd
      obtain ⟨subject, token, hfetching, hleads⟩ := h.pending d resolution hd
      refine ⟨subject, token, hfetching, ?_⟩
      rw [s.dialogue_append c d x rfl, if_neg hdc]
      exact hleads
  | @drop c i inner =>
    rw [State.goto_pending, State.settle_pending] at hd
    by_cases hdc : d = c
    · rw [if_pos hdc] at hd
      cases hd
    · rw [if_neg hdc] at hd
      obtain ⟨subject, token, hfetching, hleads⟩ := h.pending d resolution hd
      refine ⟨subject, token, fetching_stays hfetching inner nofun ?_, hleads⟩
      intro heq
      cases heq
      exact hdc rfl
  | finish phase returned => exact h.pending d resolution hd

theorem mem_wait_sent {c d : CallId} {call : Call} {resolution : Resolution}
    (hmem : (d, call) ∈ (s.wait c resolution).sent) :
    (d, call) ∈ s.sent ∨ (d = c ∧ resolution.waiting = some call) := by
  rcases List.mem_append.mp hmem with hold | hnew
  · exact Or.inl hold
  · refine Or.inr ?_
    cases hwaiting : resolution.waiting with
    | none =>
      rw [hwaiting] at hnew
      cases hnew
    | some asked =>
      rw [hwaiting] at hnew
      obtain ⟨rfl, rfl⟩ : d = c ∧ call = asked := by simpa using hnew
      exact ⟨rfl, rfl⟩

theorem asked_step (h : Sound e s) (hs : step e s ev = some t) {d : CallId} {call : Call}
    (hmem : (d, call) ∈ t.sent) : ∃ subject token,
      t.cache.roles d = some (.leader subject token) ∧ e.Asks subject call := by
  have hold : (d, call) ∈ s.sent → ∃ subject token,
      t.cache.roles d = some (.leader subject token) ∧ e.Asks subject call := by
    intro hmem
    obtain ⟨subject, token, hrole, hasks⟩ := h.asked d call hmem
    exact ⟨subject, token, roles_step h hs hrole, hasks⟩
  cases step_cases hs with
  | @fetch c subject token i phase inner =>
    rcases mem_wait_sent hmem with hmem | ⟨rfl, hwaiting⟩
    · exact hold hmem
    · exact ⟨subject, token, roles_step h hs (h.addressed.tokens.role phase),
        resolve_asks.waiting hwaiting⟩
  | @ask c x resolution next pending more =>
    rcases mem_wait_sent hmem with hmem | ⟨rfl, hwaiting⟩
    · exact hold hmem
    · obtain ⟨subject, token, hrole, hleads⟩ := h.leads pending
      refine ⟨subject, token, roles_step h hs hrole, ?_⟩
      exact (resolve_asks.leads (hleads.resume more)).waiting hwaiting
  | _ => exact hold hmem

theorem lookups_step (h : Sound e s) (hs : step e s ev = some t) {d : CallId}
    {call : EncodeCall Value} (hd : t.calls d = .resolving call) : ∃ subject,
      e.subjectFor call = .ok subject ∧ (t.cache.calls d).getting subject := by
  have hold : s.calls d = .resolving call → ev ≠ .drop d → ∃ subject,
      e.subjectFor call = .ok subject ∧ (t.cache.calls d).getting subject := by
    intro hd hdrop
    obtain ⟨subject, names, hgetting⟩ := h.lookups d call hd
    refine ⟨subject, names, ?_⟩
    rcases cache_step hs with heq | ⟨ie, inner, issued⟩
    · rwa [heq]
    · refine CacheInner.getting_step hgetting inner ?_
      rintro rfl
      cases issued
      exact hdrop rfl
  cases step_cases hs with
  | @encode c call' subject i idle names inner =>
    rw [State.goto_calls] at hd
    by_cases hdc : d = c
    · subst hdc
      rw [if_pos rfl] at hd
      cases hd
      exact ⟨subject, names, CacheInner.getting_of_begin inner⟩
    · rw [if_neg hdc] at hd
      exact hold hd nofun
  | @refuse c call' err idle names =>
    rw [State.goto_calls] at hd
    split at hd
    · cases hd
    · exact hold hd nofun
  | @invalidate c subject i idle inner =>
    rw [State.goto_calls] at hd
    split at hd
    · cases hd
    · exact hold hd nofun
  | @drop c i inner =>
    rw [State.goto_calls] at hd
    split at hd
    · cases hd
    · rename_i hdc
      refine hold hd ?_
      intro heq
      cases heq
      exact hdc rfl
  | @finish c call' subject result phase returned =>
    rw [State.goto_calls] at hd
    split at hd
    · cases hd
    · exact hold hd nofun
  | _ => exact hold hd nofun

theorem finished_encode (h : Sound e s) {c : CallId} {call : EncodeCall Value}
    {k : String} {result : Result (EncoderEntry Parsed)} {frame : Frame}
    (hphase : s.calls c = .resolving call) (hreturned : s.cache.calls c = .returned k result)
    (hframe : result.bind (e.finish call) = .ok frame) : ∃ subject key,
      e.subjectFor call = .ok subject ∧ ResolvedFor e s subject key ∧
        e.finish call (e.entry key) = .ok frame := by
  obtain ⟨subject, names, hgetting⟩ := h.lookups c call hphase
  rw [hreturned] at hgetting
  have hk : k = subject := hgetting
  obtain ⟨entry, rfl, hfinish⟩ := Result.bind_eq_ok.mp hframe
  obtain ⟨hres, hentry⟩ := h.keyed.returned c k entry hreturned
  rw [hk] at hres
  rw [hentry] at hfinish
  exact ⟨subject, entry.key, names, hres, hfinish⟩

theorem encoded_step (h : Sound e s) (hs : step e s ev = some t) {d : CallId}
    {call : EncodeCall Value} {frame : Frame} (hd : t.calls d = .encoded call (.ok frame)) :
    ∃ subject key, e.subjectFor call = .ok subject ∧ ResolvedFor e t subject key ∧
      e.finish call (e.entry key) = .ok frame := by
  have hold : (∃ subject key, e.subjectFor call = .ok subject ∧ ResolvedFor e s subject key ∧
      e.finish call (e.entry key) = .ok frame) → ∃ subject key,
        e.subjectFor call = .ok subject ∧ ResolvedFor e t subject key ∧
          e.finish call (e.entry key) = .ok frame := by
    rintro ⟨subject, key, names, hres, hfinish⟩
    exact ⟨subject, key, names, resolvedFor_step h hs hres, hfinish⟩
  cases step_cases hs with
  | @finish c call' subject result phase returned =>
    rw [State.goto_calls] at hd
    split at hd
    · rename_i hdc
      subst hdc
      simp only [Phase.encoded.injEq] at hd
      obtain ⟨rfl, hframe⟩ := hd
      exact hold (finished_encode h phase returned hframe)
    · exact hold (h.encoded d call frame hd)
  | encode | refuse | invalidate | drop =>
    rw [State.goto_calls] at hd
    split at hd
    · cases hd
    · exact hold (h.encoded d call frame hd)
  | _ => exact hold (h.encoded d call frame hd)

theorem sound_step (h : Sound e s) (hs : step e s ev = some t) : Sound e t where
  addressed := by
    rcases cache_step hs with heq | ⟨ie, inner, _⟩
    · rw [heq]
      exact h.addressed
    · exact CacheInner.addressed_step h.addressed inner
  started _ := started_step h hs
  pending _ _ := pending_step h hs
  asked _ _ := asked_step h hs
  keyed := by
    have later : Keyed (RightEntry e t) s.cache :=
      h.keyed.mono fun _ _ hright => rightEntry_step h hs hright
    rcases cache_step hs with heq | ⟨ie, inner, issued⟩
    · rw [heq]
      exact later
    · exact CacheInner.keyed_step later h.addressed (entersRight h hs issued) inner
  lookups _ _ := lookups_step h hs
  encoded _ _ _ := encoded_step h hs

theorem sound_run {P : State Value Parsed → Event Value → Prop} {maxEntries : Nat}
    {es : List (Event Value)} (hrun : Run (step e) P (State.init maxEntries) es s) : Sound e s :=
  hrun.invariant (sound_init maxEntries) fun _ _ _ h _ hs => sound_step h hs

end Schemreg.Encoder
