import Schemreg.Types
import Schemreg.Lib.DepthFirstWalk

/-
  `src/avro/mod.rs`: the walk that collects the schemas which an Avro schema references.

  The walk follows the references depth first, visits each pair of a subject and a version
  once, and collects a text when it leaves the pair. The registry is a parameter: what it
  answers for a subject and a version. No pair is requested twice, so a registry that
  changes its answers is such a function as well.

  Proved (`closure_bounded_exact`): the walk requests no pair twice and fewer than 288
  pairs. One that succeeds collects one text for each pair that can be reached, each behind
  the texts of the pairs it references, except those that are still open. A graph that is
  small, shallow and answered is collected.
-/

namespace Schemreg.Avro

open DepthFirst

/-- Maximum number of referenced schemas resolved for a single root schema. -/
def maxReferences : Nat := 256

/-- Maximum depth the reference resolver will follow. -/
def maxReferenceDepth : Nat := 32

/-- The `marker` of a reference, as `visited` records it. -/
def marker (reference : SchemaReference) : String × Int32 :=
  (reference.subject, reference.version.asI32)

def nestTooDeep : SchemaRegError :=
  .config ("Avro schema references nest deeper than " ++ toString maxReferenceDepth ++
    " levels; the registry likely contains a reference cycle")

def pullsInTooMany : SchemaRegError :=
  .config ("Avro schema pulls in more than " ++ toString maxReferences ++ " referenced schemas")

/-- A walk over the references, with the texts it collects. -/
abbrev Walk := DepthFirst.Walk (String × Int32) (List String)

section Graph

variable (getSchemaByVersion : String → SchemaVersion → Result Schema)

/-- What the registry answers for a reference. -/
def fetchReference (reference : SchemaReference) : Result Schema :=
  getSchemaByVersion reference.subject reference.version

/-- The cap, as it is checked before a request. -/
def checkRoom (out : List String) : Result Unit :=
  if out.length ≥ maxReferences then .error pullsInTooMany else .ok ()

/-- `out.push`. -/
def push (_ : SchemaReference) (referenced : Schema) (out : List String) : Result (List String) :=
  .ok (out ++ [referenced.schema])

/-- `collect_reference_closure`: fetch every schema transitively referenced by `references`,
    depth first. `levels` is what is left of the depth: `MAX_REFERENCE_DEPTH - depth`. -/
def collectReferenceClosure (levels : Nat) (references : List SchemaReference) (walk : Walk) :
    Result Unit × Walk :=
  DepthFirst.walk marker (fetchReference getSchemaByVersion) Schema.references checkRoom push
    nestTooDeep levels references walk

/-- The walk of `get_avro_schema`: with nothing visited and nothing collected. -/
def referenceClosure (references : List SchemaReference) : Result Unit × Walk :=
  collectReferenceClosure getSchemaByVersion maxReferenceDepth references ⟨[], [], []⟩

/-- A reference in the given list, or in that of a schema that can be reached. -/
abbrev InClosure (root : List SchemaReference) (reference : SchemaReference) : Prop :=
  Reached (fetchReference getSchemaByVersion) Schema.references root reference

/-- Every request of the graph is answered, at most 256 pairs can be reached, and a chain of
    distinct pairs, each referenced by the one before, is shorter than 32. -/
abbrev SmallGraph (root : List SchemaReference) : Prop :=
  Bounded marker (fetchReference getSchemaByVersion) Schema.references root maxReferences
    maxReferenceDepth

/-- The pair was requested before that of `r` and its text comes after that of `r`, and its
    schema leads back to `r`: it is an ancestor of `r` on a reference cycle. -/
abbrev StillOpen (after : List (SchemaReference × Schema)) (requested : List (String × Int32))
    (r : SchemaReference) (pair : String × Int32) : Prop :=
  Open marker (fetchReference getSchemaByVersion) Schema.references after requested r pair

/-- What a walk has collected: the texts of `firsts`, in this order. -/
structure Collects (root : List SchemaReference) (walk : Walk)
    (firsts : List (SchemaReference × Schema)) : Prop where
  texts : walk.out = firsts.map fun first => first.2.schema
  answers : ∀ first ∈ firsts, getSchemaByVersion first.1.subject first.1.version = .ok first.2
  once : (firsts.map fun first => marker first.1).Nodup
  reachable : ∀ pair, pair ∈ firsts.map (fun first => marker first.1) ↔
    ∃ r, InClosure getSchemaByVersion root r ∧ marker r = pair
  ordered : ∀ before r s after, firsts = before ++ (r, s) :: after → ∀ c ∈ s.references,
    (∃ b ∈ before, marker b.1 = marker c) ∨ marker c = marker r ∨
      StillOpen getSchemaByVersion after walk.requested r (marker c)

end Graph

variable {getSchemaByVersion : String → SchemaVersion → Result Schema}
  {references : List SchemaReference} {walk : Walk} {result : Result Unit}

theorem fetchReference_marker {r r' : SchemaReference} (h : marker r = marker r') :
    fetchReference getSchemaByVersion r = fetchReference getSchemaByVersion r' := by
  obtain ⟨hsubject, hversion⟩ := SchemaReference.target_inj h
  unfold fetchReference
  rw [hsubject, hversion]

theorem checkRoom_eq_ok {out : List String} : checkRoom out = .ok () ↔ out.length < maxReferences := by
  unfold checkRoom
  split
  · rename_i hfull
    exact ⟨fun h => (by cases h), fun h => absurd hfull (Nat.not_le.mpr h)⟩
  · rename_i hroom
    exact ⟨fun _ => Nat.not_le.mp hroom, fun _ => rfl⟩

theorem length_push {r : SchemaReference} {s : Schema} {out out' : List String}
    (h : push r s out = .ok out') : out'.length = out.length + 1 := by
  rw [← Except.ok.inj h, List.length_append, List.length_singleton]

theorem collect_push (firsts : List (SchemaReference × Schema)) (out : List String) :
    collect push firsts out = .ok (out ++ firsts.map fun first => first.2.schema) := by
  induction firsts generalizing out with
  | nil => exact congrArg Except.ok (List.append_nil out).symm
  | cons first firsts ih =>
    obtain ⟨r, s⟩ := first
    rw [collect_cons]
    show collect push firsts (out ++ [s.schema]) = _
    rw [ih, List.map_cons, List.append_assoc]
    rfl

/-- The walk of `get_avro_schema`, as a course. -/
abbrev ClosureCourse (getSchemaByVersion : String → SchemaVersion → Result Schema)
    (references : List SchemaReference) (result : Result Unit) (walk : Walk) : Prop :=
  Course marker (fetchReference getSchemaByVersion) Schema.references checkRoom push nestTooDeep
    maxReferenceDepth references ⟨[], [], []⟩ result walk

theorem referenceClosure_course (references : List SchemaReference) :
    ClosureCourse getSchemaByVersion references (referenceClosure getSchemaByVersion references).1
      (referenceClosure getSchemaByVersion references).2 :=
  walk_course maxReferenceDepth references ⟨[], [], []⟩

theorem requested_nodup (h : ClosureCourse getSchemaByVersion references result walk) :
    walk.requested.Nodup :=
  (h.nodup List.nodup_nil).sublist (h.requested_prefix rfl).1.sublist

/-- Before the last request there was room, and at most one pair is open on each level. -/
theorem requests_bounded (h : ClosureCourse getSchemaByVersion references result walk) :
    walk.requested.length < maxReferences + maxReferenceDepth := by
  have hbound := h.requests_lt List.length (p := 0) length_push checkRoom_eq_ok.mp rfl
  have hcap : 0 < maxReferences + maxReferenceDepth := by decide
  rcases hbound with hnone | hlt
  · exact Nat.lt_of_le_of_lt hnone hcap
  · exact hlt

/-- A walk that succeeds collects along the depth-first order. -/
theorem collects_of_ok (h : ClosureCourse getSchemaByVersion references (.ok ()) walk) :
    ∃ firsts, Collects getSchemaByVersion references walk firsts := by
  obtain ⟨firsts, horder, hout⟩ := walk_ok h.walk_eq
  have hrequested := (h.requested_prefix rfl).2 rfl
  refine ⟨firsts, ?_, ?_, horder.nodup_firsts, ?_, ?_⟩
  · rw [collect_push] at hout
    exact (Except.ok.inj hout).symm
  · exact fun first hfirst => (horder.found first hfirst).1
  · intro pair
    constructor
    · intro hpair
      obtain ⟨first, hfirst, hmarker⟩ := List.mem_map.mp hpair
      exact ⟨first.1, horder.reached (fun e he => Reached.root he) first hfirst, hmarker⟩
    · rintro ⟨r, hr, rfl⟩
      obtain ⟨first, hfirst, hmarker⟩ := horder.complete (fun _ _ => fetchReference_marker) hr
      exact List.mem_map.mpr ⟨first, hfirst, hmarker⟩
  · intro before r s after hsplit c hc
    rw [hrequested]
    exact (horder.settled before r s after hsplit c hc).resolve_left (by simp)

/-- A small graph is collected. -/
theorem ok_of_smallGraph (hgraph : SmallGraph getSchemaByVersion references)
    (h : ClosureCourse getSchemaByVersion references result walk) : result = .ok () := by
  have hpath : Path marker (fetchReference getSchemaByVersion) Schema.references references []
      (⟨[], [], []⟩ : Walk) :=
    ⟨Chain.nil, List.nodup_nil, fun e he => (by cases he)⟩
  have hwithin : Within marker (fetchReference getSchemaByVersion) Schema.references references
      List.length 0 (⟨[], [], []⟩ : Walk) :=
    ⟨List.nodup_nil, fun n hn => (by cases hn), Nat.le_refl 0⟩
  exact (h.succeeds hgraph (fun _ => checkRoom_eq_ok.mpr)
    (fun r s out => ⟨out ++ [s.schema], rfl, length_push (r := r) (s := s) rfl⟩) hpath rfl
    (fun e he => Chain.root he) hwithin).1

/-- The walk of an Avro reference closure is bounded, and it is exact when it succeeds. -/
theorem closure_bounded_exact (getSchemaByVersion : String → SchemaVersion → Result Schema)
    (references : List SchemaReference) :
    let run := referenceClosure getSchemaByVersion references
    run.2.requested.Nodup ∧
      run.2.requested.length < maxReferences + maxReferenceDepth ∧
      (run.1 = .ok () → ∃ firsts, Collects getSchemaByVersion references run.2 firsts) ∧
      (SmallGraph getSchemaByVersion references → run.1 = .ok ()) := by
  intro run
  have hcourse : ClosureCourse getSchemaByVersion references run.1 run.2 :=
    referenceClosure_course references
  refine ⟨requested_nodup hcourse, requests_bounded hcourse, ?_, ?_⟩
  · intro hok
    rw [hok] at hcourse
    exact collects_of_ok hcourse
  · intro hgraph
    exact ok_of_smallGraph hgraph hcourse

end Schemreg.Avro
