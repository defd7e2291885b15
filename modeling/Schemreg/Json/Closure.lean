import Schemreg.Json.ReferenceSet

/-
  What `collect_reference_closure` leaves in the set.

  The walk visits each target (a subject and a version) once and inserts its document under
  the name of the reference that reached it first. Further references to the target are
  skipped together with their names. `Order` is the depth-first order by itself: it lists
  the references that reach a target first, in the order in which the walk leaves them.

  Proved:
  * `closure_answers_iff`: every reference of the graph is answered with the document of its
    target exactly when those that reach a target again under another name are.
  * `alias_is_not_answered`: they need not be.
-/

namespace Schemreg.Json

open Index DepthFirst

variable {Value : Type}

section Graph

variable (fromStr : String → Except String Value)
  (getSchemaByVersion : String → SchemaVersion → Result Schema)

/-- What the registry answers for the target of a reference. -/
def fetchReference (reference : SchemaReference) : Result Schema :=
  getSchemaByVersion reference.subject reference.version

/-- The document of a reference's target. -/
def document (reference : SchemaReference) : Option Value :=
  match fetchReference getSchemaByVersion reference with
  | .ok schema => (fromStr schema.schema).toOption
  | .error _ => none

/-- A reference in the list of the root, or in that of a schema that can be reached. -/
abbrev InClosure (root : List SchemaReference) (reference : SchemaReference) : Prop :=
  Reached (fetchReference getSchemaByVersion) Schema.references root reference

/-- The references that reach a target first, each with the schema there, in the order in
    which a depth-first walk leaves them. -/
abbrev FirstReferences (root : List SchemaReference)
    (firsts : List (SchemaReference × Schema)) (visited : List (String × Int32)) : Prop :=
  Order target (fetchReference getSchemaByVersion) Schema.references root [] firsts visited

/-- The document that the first references have for a name: that of the first one under the
    name, or else of the first one under the name's final segment. -/
def resolves (firsts : List (SchemaReference × Schema)) (name : String) : Option (Result Value) :=
  resolution (fun first => first.1.name) (fun first => parseReferenced fromStr first.1 first.2)
    firsts name

end Graph

variable [DecidableEq Value] {fromStr : String → Except String Value}
  {getSchemaByVersion : String → SchemaVersion → Result Schema} {root : List SchemaReference}
  {set : ReferenceSet Value} {firsts : List (SchemaReference × Schema)}
  {visited : List (String × Int32)} {r : SchemaReference}

omit [DecidableEq Value] in
theorem parseReferenced_eq_ok {schema : Schema} {doc : Value} :
    parseReferenced fromStr r schema = .ok doc ↔ fromStr schema.schema = .ok doc := by
  unfold parseReferenced
  cases fromStr schema.schema <;> simp [Except.mapError]

omit [DecidableEq Value] in
theorem document_eq_some {schema : Schema} {doc : Value}
    (hfetch : fetchReference getSchemaByVersion r = .ok schema) :
    document fromStr getSchemaByVersion r = some doc ↔ fromStr schema.schema = .ok doc := by
  unfold document
  rw [hfetch]
  cases hparse : fromStr schema.schema <;> simp [hparse, Except.toOption]

/-- Two references with one target fetch the same schema. -/
theorem fetchReference_target {r r' : SchemaReference} (h : target r = target r') :
    fetchReference getSchemaByVersion r = fetchReference getSchemaByVersion r' := by
  obtain ⟨hsubject, hversion⟩ := SchemaReference.target_inj h
  unfold fetchReference
  rw [hsubject, hversion]

/-- A walk that succeeds inserts the documents of the first references. -/
theorem referenceClosure_load (h : referenceClosure fromStr getSchemaByVersion root = .ok set)
    (hfirst : FirstReferences getSchemaByVersion root firsts visited) :
    load (fun first => first.1.name) (fun first => parseReferenced fromStr first.1 first.2)
      firsts = .ok set := by
  unfold referenceClosure at h
  split at h
  · rename_i walk hwalk
    obtain ⟨other, horder, hcollect⟩ := walk_ok hwalk
    obtain ⟨rfl, -⟩ := hfirst.unique horder
    rw [← Except.ok.inj h]
    exact hcollect
  · cases h

/-- When every reference of the graph is answered with the document of its target: those
    that reach a target again under another name than it was first reached under have to
    resolve, by that name, to the document of the target. -/
theorem closure_answers_iff (h : referenceClosure fromStr getSchemaByVersion root = .ok set)
    (hfirst : FirstReferences getSchemaByVersion root firsts visited) :
    (∀ r, InClosure getSchemaByVersion root r →
      ∃ doc, document fromStr getSchemaByVersion r = some doc ∧ set.lookup r.name = some doc) ↔
    (∀ r, InClosure getSchemaByVersion root r →
      ∀ first ∈ firsts, target first.1 = target r → first.1.name ≠ r.name →
        ∃ doc, document fromStr getSchemaByVersion r = some doc ∧
          resolves fromStr firsts r.name = some (.ok doc)) := by
  have hload := referenceClosure_load h hfirst
  have hset := load_indexes hload
  obtain ⟨hparsed, -, hagreed⟩ := load_ok_iff.mp ⟨set, hload⟩
  have hlook : ∀ n doc, set.lookup n = some doc ↔ resolves fromStr firsts n = some (.ok doc) := by
    intro n doc
    unfold resolves
    rw [← hset.lookup]
    simp
  constructor
  · intro hall r hr first _ _ _
    obtain ⟨doc, hdoc, hanswer⟩ := hall r hr
    exact ⟨doc, hdoc, (hlook r.name doc).mp hanswer⟩
  · intro hcond r hr
    obtain ⟨first, hmem, htarget⟩ := hfirst.complete (fun _ _ => fetchReference_target) hr
    by_cases hname : first.1.name = r.name
    · -- the reference that inserted the document has the same name
      obtain ⟨doc, hdoc⟩ := hparsed first hmem
      have hfetch : fetchReference getSchemaByVersion r = .ok first.2 := by
        rw [← fetchReference_target htarget]
        exact (hfirst.found first hmem).1
      refine ⟨doc, (document_eq_some hfetch).mpr (parseReferenced_eq_ok.mp hdoc), ?_⟩
      have hown := hagreed.resolution hmem
      rw [hdoc] at hown
      exact (hlook r.name doc).mpr (hname ▸ hown)
    · obtain ⟨doc, hdoc, hresolves⟩ := hcond r hr first hmem htarget hname
      exact ⟨doc, hdoc, (hlook r.name doc).mpr hresolves⟩

/-! ## A diamond, and an alias -/

/-- A reference to the address and one to the city. -/
def addressReference : SchemaReference := ⟨"address.json", "address-value", ⟨1⟩⟩

def cityReference : SchemaReference := ⟨"city.json", "city-value", ⟨1⟩⟩

/-- A registry with two subjects; the address refers to the city. -/
def twoSubjects (subject : String) (_ : SchemaVersion) : Result Schema :=
  if subject = "address-value" then
    .ok ⟨none, none, .json, "the address", none, none, [cityReference]⟩
  else if subject = "city-value" then .ok ⟨none, none, .json, "the city", none, none, []⟩
  else .error (.api 40401 "no such subject")

theorem inClosure_diamond {r : SchemaReference}
    (h : InClosure twoSubjects [addressReference, cityReference] r) :
    r = addressReference ∨ r = cityReference := by
  induction h with
  | root mem => simpa using mem
  | child _ found mem ih =>
    rcases ih with rfl | rfl
    · cases found
      exact Or.inr (by simpa using mem)
    · cases found
      cases mem

/-- The city is reached by the root and by the address, under one name. -/
theorem diamond_is_answered : ∃ set, referenceClosure Except.ok twoSubjects
      [addressReference, cityReference] = .ok set ∧ set.lookup "city.json" = some "the city" := by
  obtain ⟨set, hset⟩ : ∃ set, referenceClosure Except.ok twoSubjects
      [addressReference, cityReference] = .ok set := ⟨_, rfl⟩
  have hfirst : FirstReferences twoSubjects [addressReference, cityReference]
      ([(cityReference, ⟨none, none, .json, "the city", none, none, []⟩)] ++
        (addressReference, ⟨none, none, .json, "the address", none, none, [cityReference]⟩) :: [])
      [target addressReference, target cityReference] :=
    Order.visit (by simp) rfl
      (Order.leaf (by decide +kernel) rfl rfl Order.nil)
      (Order.seen (by simp) Order.nil)
  have hall := (closure_answers_iff hset hfirst).mpr ?_
  · obtain ⟨doc, hdoc, hlook⟩ := hall cityReference (Reached.root (by simp))
    refine ⟨set, hset, ?_⟩
    rw [← hdoc] at hlook
    exact hlook
  · intro r hr first hmem htarget hname
    have hcases : first.1 = cityReference ∨ first.1 = addressReference := by
      rcases List.mem_append.mp hmem with hm | hm
      · exact Or.inl (by rw [List.mem_singleton.mp hm])
      · exact Or.inr (by rw [List.mem_singleton.mp hm])
    have hdiffer : target addressReference ≠ target cityReference := by decide +kernel
    rcases inClosure_diamond hr with rfl | rfl
    · rcases hcases with heq | heq
      · exact absurd (heq ▸ htarget).symm hdiffer
      · exact absurd (congrArg SchemaReference.name heq) hname
    · rcases hcases with heq | heq
      · exact absurd (congrArg SchemaReference.name heq) hname
      · exact absurd (heq ▸ htarget) hdiffer

/-- The root names the city twice. The second name is skipped with the second visit. -/
theorem alias_is_not_answered :
    ¬ ∀ (fromStr : String → Except String String)
        (getSchemaByVersion : String → SchemaVersion → Result Schema)
        (root : List SchemaReference) (set : ReferenceSet String),
      referenceClosure fromStr getSchemaByVersion root = .ok set →
      ∀ r, InClosure getSchemaByVersion root r →
        ∃ doc, document fromStr getSchemaByVersion r = some doc ∧ set.lookup r.name = some doc := by
  intro h
  obtain ⟨set, hset, hlook⟩ : ∃ set, referenceClosure Except.ok twoSubjects
      [cityReference, ⟨"town.json", "city-value", ⟨1⟩⟩] = .ok set ∧
      set.lookup "town.json" = none := ⟨_, rfl, by decide +kernel⟩
  obtain ⟨doc, -, hdoc⟩ := h Except.ok twoSubjects _ set hset ⟨"town.json", "city-value", ⟨1⟩⟩
    (Reached.root (by simp))
  rw [hlook] at hdoc
  cases hdoc

end Schemreg.Json
