import Schemreg.CacheInner.Barrier
import Schemreg.Lib.Ownership

/-
  Who holds the waiters.

  A waiter is owned by exactly one place at any time: the slot it joined, the call that has
  taken it out of a slot and is about to answer it, or its own channel once the answer has
  been sent. `place` lists what each owner holds, `Moved` says how a step moves waiters
  between owners, and the ownership rules give that no waiter is lost and none is held
  twice.
-/

namespace Schemreg.CacheInner

open Wrapping Transition Ownership

variable {K V : Type} [DecidableEq K] {s t : State K V} {e : Event K V}

/-! ## Who holds the waiters -/

/-- The waiters a call has taken and not answered yet, each with the key it waits for. -/
def Phase.holds : Phase K V → List (K × CallId)
  | .claimed key _ waiters => waiters.map fun w => (key, w)
  | .answering key _ waiters => waiters.map fun w => (key, w)
  | .invalidated key waiters => waiters.map fun w => (key, w)
  | .drained cancelled => cancelled
  | .notifying cancelled => cancelled
  | _ => []

def Phase.hands (phase : Phase K V) : List CallId := phase.holds.map Prod.snd

inductive Owner (K : Type) where
  | slot (key : K)
  | call (c : CallId)
  | channel (w : CallId)

/-- What each owner holds. A channel holds its waiter once for every answer sent on it. -/
def place (s : State K V) : Owner K → List CallId
  | .slot key => ((s.registered key).map InFlight.waiters).getD []
  | .call c => (s.calls c).hands
  | .channel w => (s.answers w).map fun _ => w

theorem mem_slot {key : K} {w : CallId} :
    w ∈ place s (.slot key) ↔ ∃ entry, s.registered key = some entry ∧ w ∈ entry.waiters := by
  unfold place
  cases h : s.registered key <;> simp [h]

theorem mem_channel {w w' : CallId} (h : w' ∈ place s (.channel w)) : w' = w := by
  unfold place at h
  simp only [List.mem_map] at h
  obtain ⟨_, _, rfl⟩ := h
  rfl

omit [DecidableEq K] in
theorem map_snd_pair (key : K) (ws : List CallId) :
    (ws.map fun w => (key, w)).map Prod.snd = ws := by
  simp [Function.comp_def]

/-- How a step moves waiters. -/
inductive Moved (s t : State K V) : Prop where
  | same (all : ∀ o, place t o = place s o)
  | join (c : CallId) (key : K) (phase : s.calls c = .missed key)
      (gets : place t (.slot key) = place s (.slot key) ++ [c])
      (rest : ∀ o, o ≠ .slot key → place t o = place s o)
  | take (c : CallId) (gone : K → Prop) (none : place s (.call c) = [])
      (emptied : ∀ key, gone key → place t (.slot key) = [])
      (left : ∀ key, ¬ gone key → place t (.slot key) = place s (.slot key))
      (taken : ∀ w, w ∈ place t (.call c) ↔ ∃ key, gone key ∧ w ∈ place s (.slot key))
      (once : Exclusive (place s) → (place t (.call c)).Nodup)
      (calls : ∀ d, d ≠ c → place t (.call d) = place s (.call d))
      (channels : ∀ w, place t (.channel w) = place s (.channel w))
  | send (c w : CallId) (gives : place s (.call c) = w :: place t (.call c))
      (gets : place t (.channel w) = place s (.channel w) ++ [w])
      (rest : ∀ o, o ≠ .call c → o ≠ .channel w → place t o = place s o)

/-- A section that leaves slots and channels alone, of a call that holds the same waiters
    before and after it. -/
theorem Moved.goto {u : State K V} (c : CallId) (phase : Phase K V)
    (registered : u.registered = s.registered) (answers : u.answers = s.answers)
    (calls : u.calls = s.calls) (hands : phase.hands = (s.calls c).hands) :
    Moved s (u.goto c phase) := by
  refine Moved.same fun o => ?_
  cases o with
  | slot key => simp [place, registered]
  | call d =>
    by_cases hd : d = c
    · subst hd; simp [place, hands]
    · simp [place, calls, hd]
  | channel w => simp [place, answers]

/-- A section that takes one slot out of the in-flight map and keeps its waiters. -/
theorem Moved.takeSlot {c : CallId} {key : K} (phase : Phase K V)
    (empty : (s.calls c).hands = [])
    (holds : phase.holds =
      (((s.registered key).map InFlight.waiters).getD []).map fun w => (key, w)) :
    Moved s ((s.withInFlight (s.cache.inFlight.erase key)).goto c phase) := by
  have hands : phase.hands = place s (.slot key) := by
    unfold Phase.hands
    rw [holds, map_snd_pair]
    rfl
  refine Moved.take c (fun k => k = key) empty ?_ ?_ ?_ ?_ ?_ ?_
  · rintro k rfl
    simp [place, State.registered, State.withInFlight]
  · intro k hk
    simp [place, State.registered, State.withInFlight, AList.lookup_erase_ne hk]
  · intro w
    have : place ((s.withInFlight (s.cache.inFlight.erase key)).goto c phase) (.call c) =
        place s (.slot key) := by simp [place, hands]
    simp [this]
  · intro h
    have : place ((s.withInFlight (s.cache.inFlight.erase key)).goto c phase) (.call c) =
        place s (.slot key) := by simp [place, hands]
    rw [this]
    exact h.once _
  · intro d hd
    simp [place, hd]
  · intro w
    rfl

/-- A section that sends one answer. -/
theorem Moved.sendOne {c w : CallId} {r : Result V} (phase : Phase K V)
    (hands : (s.calls c).hands = w :: phase.hands) : Moved s ((s.send w r).goto c phase) := by
  refine Moved.send c w ?_ ?_ ?_
  · simp [place, hands]
  · simp [place]
  · intro o hc hw
    cases o with
    | slot key => rfl
    | call d =>
      have hd : d ≠ c := fun h => hc (by rw [h])
      simp [place, hd]
    | channel w' =>
      have hw' : w' ≠ w := fun h => hw (by rw [h])
      simp [place, hw']

/-! ## The sections that take many slots -/

theorem mem_cancelKeys {keys : List K} {inFlight : AList fun _ : K => InFlight} {k : K}
    {w : CallId} : (k, w) ∈ (InMemoryCache.cancelKeys keys inFlight).2 ↔
      k ∈ keys ∧ ∃ entry, inFlight.lookup k = some entry ∧ w ∈ entry.waiters := by
  induction keys generalizing inFlight with
  | nil => simp [InMemoryCache.cancelKeys]
  | cons key keys ih =>
    unfold InMemoryCache.cancelKeys
    split
    · rename_i entry hentry
      simp only [List.mem_append, List.mem_map, Prod.mk.injEq, ih, List.mem_cons]
      by_cases hk : k = key
      · subst hk
        simp [hentry]
      · simp [hk, Ne.symm hk, AList.lookup_erase_ne hk]
    · rename_i hnone
      rw [ih]
      by_cases hk : k = key
      · subst hk
        simp [hnone]
      · simp [hk]

theorem nodup_cancelKeys {keys : List K} {inFlight : AList fun _ : K => InFlight}
    (once : ∀ k entry, inFlight.lookup k = some entry → entry.waiters.Nodup)
    (unique : ∀ k k' entry entry' w, inFlight.lookup k = some entry →
      inFlight.lookup k' = some entry' → w ∈ entry.waiters → w ∈ entry'.waiters → k = k') :
    ((InMemoryCache.cancelKeys keys inFlight).2.map Prod.snd).Nodup := by
  induction keys generalizing inFlight with
  | nil => simp [InMemoryCache.cancelKeys]
  | cons key keys ih =>
    unfold InMemoryCache.cancelKeys
    split
    · rename_i entry hentry
      have hsub : ∀ k entry', (inFlight.erase key).lookup k = some entry' →
          k ≠ key ∧ inFlight.lookup k = some entry' := by
        intro k entry' hk
        by_cases hkey : k = key
        · subst hkey
          simp at hk
        · exact ⟨hkey, by rwa [AList.lookup_erase_ne hkey] at hk⟩
      have hrest := @ih (inFlight.erase key)
        (fun k entry' hk => once k entry' (hsub k entry' hk).2)
        (fun k k' e₁ e₂ w h₁ h₂ => unique k k' e₁ e₂ w (hsub k e₁ h₁).2 (hsub k' e₂ h₂).2)
      rw [List.map_append, map_snd_pair]
      refine List.Nodup.append (once key entry hentry) hrest ?_
      intro w hw hw'
      simp only [List.mem_map, Prod.exists, exists_eq_right] at hw'
      obtain ⟨k, hk⟩ := hw'
      obtain ⟨_, entry', hentry', hmem⟩ := mem_cancelKeys.mp hk
      obtain ⟨hne, hlook⟩ := hsub k entry' hentry'
      exact hne (unique k key entry' entry w hlook hentry hmem hw)
    · exact ih once unique

theorem mem_drainInFlight {k : K} {w : CallId} :
    (k, w) ∈ s.cache.drainInFlight.2 ↔
      ∃ entry, s.registered k = some entry ∧ w ∈ entry.waiters := by
  unfold InMemoryCache.drainInFlight State.registered
  simp only [List.mem_flatMap, List.mem_map, Prod.mk.injEq, Sigma.exists]
  constructor
  · rintro ⟨k', entry, hmem, w', hw, rfl, rfl⟩
    exact ⟨entry, AList.mem_lookup_iff.mpr hmem, hw⟩
  · rintro ⟨entry, hlook, hw⟩
    exact ⟨k, entry, AList.mem_lookup_iff.mp hlook, w, hw, rfl, rfl⟩

theorem nodup_drainInFlight (h : Exclusive (place s)) :
    (s.cache.drainInFlight.2.map Prod.snd).Nodup := by
  have hslot : ∀ x ∈ s.cache.inFlight.entries, s.registered x.1 = some x.2 :=
    fun x hx => AList.mem_lookup_iff.mpr hx
  unfold InMemoryCache.drainInFlight
  simp only [List.map_flatMap, map_snd_pair]
  refine List.nodup_flatMap.mpr ⟨?_, ?_⟩
  · intro x hx
    have := h.once (.slot x.1)
    simpa [place, hslot x hx] using this
  · refine List.Pairwise.imp_of_mem ?_ (List.nodupKeys_iff_pairwise.mp s.cache.inFlight.nodupKeys)
    intro x y hx hy hne w hwx hwy
    have hpx : w ∈ place s (.slot x.1) := mem_slot.mpr ⟨x.2, hslot x hx, hwx⟩
    have hpy : w ∈ place s (.slot y.1) := mem_slot.mpr ⟨y.2, hslot y hy, hwy⟩
    have := h.unique _ _ w hpx hpy
    exact hne (by simpa using this)

theorem moved_matchInFlight {c : CallId} {removed : List K}
    (phase : s.calls c = .matched removed) :
    Moved s ((s.withInFlight (InMemoryCache.cancelKeys removed s.cache.inFlight).1).goto c
      (.notifying (InMemoryCache.cancelKeys removed s.cache.inFlight).2)) := by
  refine Moved.take c (fun k => k ∈ removed) (by simp [place, phase, Phase.hands, Phase.holds])
    ?_ ?_ ?_ ?_ ?_ ?_
  · intro k hk
    have := lookup_cancelKeys removed s.cache.inFlight k
    simp [place, State.registered, State.withInFlight, this, hk]
  · intro k hk
    have := lookup_cancelKeys removed s.cache.inFlight k
    simp [place, State.registered, State.withInFlight, this, hk]
  · intro w
    simp only [mem_slot]
    simp only [place, State.goto_calls, if_true, Phase.hands, Phase.holds, List.mem_map,
      Prod.exists, exists_eq_right, mem_cancelKeys]
    rfl
  · intro h
    simp only [place, State.goto_calls, if_true, Phase.hands, Phase.holds]
    refine nodup_cancelKeys ?_ ?_
    · intro k entry hk
      have hreg : s.registered k = some entry := hk
      have := h.once (.slot k)
      simpa [place, hreg] using this
    · intro k k' entry entry' w hk hk' hw hw'
      have := h.unique (.slot k) (.slot k') w (mem_slot.mpr ⟨entry, hk, hw⟩)
        (mem_slot.mpr ⟨entry', hk', hw'⟩)
      simpa using this
  · intro d hd
    simp [place, hd]
  · intro w
    rfl

theorem moved_clearInFlight {c : CallId} (phase : s.calls c = .clearing) :
    Moved s ((s.withInFlight ∅).goto c (.drained s.cache.drainInFlight.2)) := by
  refine Moved.take c (fun _ => True) (by simp [place, phase, Phase.hands, Phase.holds])
    ?_ ?_ ?_ ?_ ?_ ?_
  · intro k _
    simp [place, registered_empty]
  · intro k hk
    exact absurd trivial hk
  · intro w
    simp only [mem_slot]
    simp only [place, State.goto_calls, if_true, Phase.hands, Phase.holds, List.mem_map,
      Prod.exists, exists_eq_right, mem_drainInFlight, true_and]
  · intro h
    simp only [place, State.goto_calls, if_true, Phase.hands, Phase.holds]
    exact nodup_drainInFlight h
  · intro d hd
    simp [place, hd]
  · intro w
    rfl

/-- How each step moves waiters. -/
theorem moved_step (hs : step s e = some t) : Moved s t := by
  cases step_cases hs with
  | hit idle => exact .goto _ _ rfl rfl rfl (by rw [idle]; rfl)
  | miss idle => exact .goto _ _ rfl rfl rfl (by rw [idle]; rfl)
  | recheckHit phase => exact .goto _ _ rfl rfl rfl (by rw [phase]; rfl)
  | @join c key entry phase free absent inFlight =>
    refine .join c key phase ?_ ?_
    · simp [place, State.registered, State.withInFlight]
      rw [show AList.lookup key s.cache.inFlight = some entry from inFlight]
      rfl
    · intro o ho
      cases o with
      | slot k =>
        have hk : k ≠ key := fun h => ho (by rw [h])
        simp [place, State.registered, State.withInFlight, AList.lookup_insert_ne hk]
      | call d =>
        by_cases hd : d = c
        · subst hd; simp [place, phase, Phase.hands, Phase.holds]
        · simp [place, hd]
      | channel w => rfl
  | @elect c key phase free absent inFlight =>
    refine .same fun o => ?_
    cases o with
    | slot k =>
      by_cases hk : k = key
      · subst hk
        simp [place, State.registered]
        rw [show AList.lookup k s.cache.inFlight = none from inFlight]
        rfl
      · simp [place, State.registered, AList.lookup_insert_ne hk]
    | call d =>
      by_cases hd : d = c
      · subst hd; simp [place, phase, Phase.hands, Phase.holds]
      · simp [place, hd]
    | channel w => rfl
  | wake phase => exact .goto _ _ rfl rfl rfl (by rw [phase]; rfl)
  | fetch phase => exact .goto _ _ rfl rfl rfl (by rw [phase]; rfl)
  | reply phase => exact .goto _ _ rfl rfl rfl (by rw [phase]; rfl)
  | claimOk phase inFlight => exact .takeSlot _ (by rw [phase]; rfl) (by rw [inFlight]; rfl)
  | claimError phase inFlight => exact .takeSlot _ (by rw [phase]; rfl) (by rw [inFlight]; rfl)
  | superseded phase => exact .goto _ _ rfl rfl rfl (by rw [phase]; rfl)
  | keep phase => exact .goto _ _ rfl rfl rfl (by rw [phase]; rfl)
  | store phase => exact .goto _ _ rfl rfl rfl (by rw [phase]; rfl)
  | answer phase => exact .sendOne _ (by rw [phase]; rfl)
  | answered phase => exact .goto _ _ rfl rfl rfl (by rw [phase]; rfl)
  | dropLeader phase inFlight => exact .takeSlot _ (by rw [phase]; rfl) (by rw [inFlight]; rfl)
  | dropSuperseded phase => exact .goto _ _ rfl rfl rfl (by rw [phase]; rfl)
  | dropWaiter phase => exact .goto _ _ rfl rfl rfl (by rw [phase]; rfl)
  | beginInvalidate idle => exact .goto _ _ rfl rfl rfl (by rw [idle]; rfl)
  | beginMatching idle => exact .goto _ _ rfl rfl rfl (by rw [idle]; rfl)
  | beginClear idle => exact .goto _ _ rfl rfl rfl (by rw [idle]; rfl)
  | invalidateInFlight phase => exact .takeSlot _ (by rw [phase]; rfl) rfl
  | @invalidateStore c key ws phase free =>
    refine .goto _ _ rfl rfl rfl ?_
    rw [phase]
    rfl
  | matchNothing phase => exact .goto _ _ rfl rfl rfl (by rw [phase]; rfl)
  | matchStore phase => exact .goto _ _ rfl rfl rfl (by rw [phase]; rfl)
  | matchInFlight phase => exact moved_matchInFlight phase
  | clearInFlight phase => exact moved_clearInFlight phase
  | clearStore phase => exact .goto _ _ rfl rfl rfl (by rw [phase]; rfl)
  | notify phase => exact .sendOne _ (by rw [phase]; rfl)
  | notified phase => exact .goto _ _ rfl rfl rfl (by rw [phase]; rfl)
  | beginInsert idle => exact .goto _ _ rfl rfl rfl (by rw [idle]; rfl)
  | check phase => exact .goto _ _ rfl rfl rfl (by rw [phase]; rfl)
  | insert phase => exact .goto _ _ rfl rfl rfl (by rw [phase]; rfl)
  | skip phase => exact .goto _ _ rfl rfl rfl (by rw [phase]; rfl)

/-! ## Nobody is lost, nobody is held twice -/

/-- What is held before a step is held after it. -/
theorem held_step (h : Moved s t) {w : CallId} {o : Owner K} (hw : w ∈ place s o) :
    ∃ o', w ∈ place t o' := by
  cases h with
  | same all => exact ⟨o, by rw [all]; exact hw⟩
  | join c key phase gets rest =>
    by_cases ho : o = .slot key
    · subst ho
      exact ⟨.slot key, by rw [gets]; exact List.mem_append_left _ hw⟩
    · exact ⟨o, by rw [rest o ho]; exact hw⟩
  | take c gone none emptied left taken once calls channels =>
    cases o with
    | slot key =>
      by_cases hg : gone key
      · exact ⟨.call c, (taken w).mpr ⟨key, hg, hw⟩⟩
      · exact ⟨.slot key, by rw [left key hg]; exact hw⟩
    | call d =>
      have hd : d ≠ c := by
        rintro rfl
        rw [none] at hw
        cases hw
      exact ⟨.call d, by rw [calls d hd]; exact hw⟩
    | channel w' => exact ⟨.channel w', by rw [channels]; exact hw⟩
  | send c w' gives gets rest =>
    by_cases hc : o = .call c
    · subst hc
      rw [gives] at hw
      rcases List.mem_cons.mp hw with rfl | hw
      · exact ⟨.channel w, by rw [gets]; simp⟩
      · exact ⟨.call c, hw⟩
    · by_cases hch : o = .channel w'
      · subst hch
        exact ⟨.channel w', by rw [gets]; exact List.mem_append_left _ hw⟩
      · exact ⟨o, by rw [rest o hc hch]; exact hw⟩

/-- A step that moves waiters keeps the ownership exclusive. A new waiter is one that
    nobody holds yet. -/
theorem exclusive_step (h : Exclusive (place s)) (hm : Moved s t)
    (fresh : ∀ c key, s.calls c = .missed key → ∀ o, c ∉ place s o) : Exclusive (place t) := by
  cases hm with
  | same all => exact (funext all : place t = place s) ▸ h
  | join c key phase gets rest =>
    exact h.acquire (.slot key) c (fresh c key phase) gets rest
  | take c gone none emptied left taken once calls channels =>
    refine h.transfer (fun o _ => ∀ key, o = .slot key → ¬ gone key) (.call c) ?_ ?_
    · intro o
      cases o with
      | slot key =>
        by_cases hg : gone key
        · rw [emptied key hg]; exact List.nodup_nil
        · rw [left key hg]; exact h.once _
      | call d =>
        by_cases hd : d = c
        · subst hd; exact once h
        · rw [calls d hd]; exact h.once _
      | channel w => rw [channels]; exact h.once _
    · intro o a ha
      cases o with
      | slot key =>
        by_cases hg : gone key
        · rw [emptied key hg] at ha
          cases ha
        · refine Or.inl ⟨left key hg ▸ ha, ?_⟩
          intro k hk
          cases hk
          exact hg
      | call d =>
        by_cases hd : d = c
        · subst hd
          obtain ⟨key, hg, hmem⟩ := (taken a).mp ha
          exact Or.inr ⟨rfl, .slot key, hmem, fun hkept => hkept key rfl hg⟩
        · exact Or.inl ⟨calls d hd ▸ ha, fun key hk => by cases hk⟩
      | channel w => exact Or.inl ⟨channels w ▸ ha, fun key hk => by cases hk⟩
  | send c w gives gets rest =>
    have hmem : w ∈ place s (.call c) := by rw [gives]; simp
    have hnodup : (w :: place t (.call c)).Nodup := gives ▸ h.once (.call c)
    refine h.transfer (fun o a => ¬ (o = .call c ∧ a = w)) (.channel w) ?_ ?_
    · intro o
      by_cases hc : o = .call c
      · subst hc; exact (List.nodup_cons.mp hnodup).2
      · by_cases hch : o = .channel w
        · subst hch
          rw [gets]
          refine List.Nodup.append (h.once _) (by simp) ?_
          intro a ha haw
          have heq : a = w := by simpa using haw
          subst heq
          have := h.unique _ _ a ha hmem
          cases this
        · rw [rest o hc hch]; exact h.once _
    · intro o a ha
      by_cases hc : o = .call c
      · subst hc
        have hne : a ≠ w := by
          rintro rfl
          exact (List.nodup_cons.mp hnodup).1 ha
        refine Or.inl ⟨?_, fun hk => hne hk.2⟩
        rw [gives]
        exact List.mem_cons_of_mem _ ha
      · by_cases hch : o = .channel w
        · subst hch
          rw [gets] at ha
          rcases List.mem_append.mp ha with ha | ha
          · exact Or.inl ⟨ha, fun hk => hc hk.1⟩
          · have heq : a = w := by simpa using ha
            subst heq
            exact Or.inr ⟨rfl, .call c, hmem, fun hkept => hkept ⟨rfl, rfl⟩⟩
        · exact Or.inl ⟨rest o hc hch ▸ ha, fun hk => hc hk.1⟩

end Schemreg.CacheInner
