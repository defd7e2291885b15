import Schemreg.Cache.Requests

/-
  What the answers of the inner client vouch for.

  `truth x key schema` says that the schema is what the identifier stands for. If it is true
  of every answer, for the identifier that was asked for and for those that the schema
  reports, then it is true of every schema in either cache, in flight, or on its way to a
  caller.
-/

namespace Schemreg.Cache

open CacheInner (CallId Keyed)
open Transition

variable {s t : State} {e : Event} {truth truth' : (x : Ident) → x.Key → Schema → Prop}

/-- The identifiers that the schema reports are its own. -/
def Vouches (truth : (x : Ident) → x.Key → Schema → Prop) (schema : Schema) : Prop :=
  ∀ x key, reported schema x = some key → truth x key schema

/-- An answer is true of what was asked for and of what it reports. -/
def AnswersTrue (truth : (x : Ident) → x.Key → Schema → Prop) (s : State) (e : Event) : Prop :=
  ∀ c schema, e = .reply c (.ok schema) → Vouches truth schema ∧
    ∀ x key, (s.calls c).asks = some ⟨x, key⟩ → truth x key schema

structure Vouched (truth : (x : Ident) → x.Key → Schema → Prop) (s : State) : Prop where
  consistent : Consistent s
  cached : ∀ x, Keyed (fun key v => truth x key v.schema ∧ Vouches truth v.schema) (s.side x)
  handed : ∀ c request v, (s.calls c).handed = some (request, v) → Vouches truth v.schema

theorem vouched_init (maxEntries : Nat) : Vouched truth (State.withMaxEntries maxEntries) where
  consistent := consistent_init maxEntries
  cached _ := CacheInner.keyed_init _ _
  handed _ _ _ h := by cases h

theorem Vouched.mono (h : Vouched truth s)
    (weaker : ∀ x key schema, truth x key schema → truth' x key schema) : Vouched truth' s where
  consistent := h.consistent
  cached x := (h.cached x).mono fun key v hv =>
    ⟨weaker x key v.schema hv.1, fun y k hk => weaker y k v.schema (hv.2 y k hk)⟩
  handed c request v hc := fun y k hk => weaker y k v.schema (h.handed c request v hc y k hk)

/-- What enters a cache in a step is right for its key. -/
theorem Vouched.entersRight (h : Vouched truth s) (answers : AnswersTrue truth s e) {x : Ident}
    {ie : CacheInner.Event x.Key Fetched} (issued : Issued s e x ie) :
    CacheInner.EntersRight (fun key v => truth x key v.schema ∧ Vouches truth v.schema)
      (s.side x) ie where
  replies c k token v he hfetching := by
    subst he
    obtain ⟨answer, key, rfl, hr, hasks⟩ := issued_reply issued
    rw [(fetchedBy_ok hr.symm).1] at answers
    obtain ⟨vouches, holds⟩ := answers c v.schema rfl
    -- the leader fetches the key that its call asks for
    have hget := (h.consistent.linked.asks hasks).1
    rw [State.methods, hfetching] at hget
    have hkey : k = key := hget
    rw [hkey]
    exact ⟨holds x key hasks, vouches⟩
  inserts c k v g he := by
    subst he
    obtain ⟨request, todo, gens, -, hphase, hknown⟩ := issued_insertIfCurrent issued
    have vouches := h.handed c request v (by rw [hphase]; rfl)
    exact ⟨vouches x k hknown, vouches⟩

theorem vouched_step (h : Vouched truth s) (answers : AnswersTrue truth s e)
    (hs : step s e = some t) : Vouched truth t where
  consistent := consistent_step h.consistent hs
  cached x := by
    rcases side_step hs x with heq | ⟨ie, hinner, issued⟩
    · rw [heq]
      exact h.cached x
    · exact CacheInner.keyed_step (h.cached x) (h.consistent.addressed x)
        (h.entersRight answers issued) hinner
  handed c request v hc := by
    rcases handed_step hs hc with hold | ⟨x, key, gens, k, _, _, _, hret⟩ |
        ⟨gens, schema, he, _, rfl⟩
    · exact h.handed c request v hold
    · exact ((h.cached x).returned c k v hret).2
    · exact (answers c schema he).1

end Schemreg.Cache
