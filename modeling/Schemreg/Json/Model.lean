import Mathlib.Data.List.AList
import Schemreg.Types
import Schemreg.Lib.DepthFirst

/-
  `src/json/mod.rs`: the set of referenced schemas, and the walk that collects it.

  `Value` is a parsed JSON document, and `fromStr` is `serde_json::from_str` with the text of
  its error; both are parameters. The `HashMap<String, Value>` of a set is an association
  list without duplicate keys. The registry is a parameter of the walk: what it answers for
  a subject and a version.
-/

namespace Schemreg.Json

/-- Maximum depth the reference resolver will follow. -/
def maxReferenceDepth : Nat := 32

/-- Maximum number of referenced schemas resolved for a single root schema. -/
def maxReferences : Nat := 256

/-- `str::rsplit_once`. -/
def rsplitOnce (s : String) (separator : Char) : Option (String × String) :=
  match s.toList.reverse.dropWhile (· ≠ separator) with
  | [] => none
  | _ :: before =>
      some (String.ofList before.reverse,
        String.ofList (s.toList.reverse.takeWhile (· ≠ separator)).reverse)

/-- The part of `s` after the last `/`, if there is one. -/
def lastSegment (s : String) : Option String := (rsplitOnce s '/').map fun (_, tail) => tail

variable {Value : Type}

/-- The referenced schemas a root schema needs, indexed by the `$ref` strings that can reach
    them. -/
structure ReferenceSet (Value : Type) where
  byKey : AList fun _ : String => Value

namespace ReferenceSet

/-- `ReferenceSet::default`. -/
def empty : ReferenceSet Value := ⟨∅⟩

def len (set : ReferenceSet Value) : Nat := set.byKey.keys.length

/-- `by_key.entry(key).or_insert(schema)`. -/
def orInsert (byKey : AList fun _ : String => Value) (key : String) (schema : Value) :
    AList fun _ : String => Value :=
  match byKey.lookup key with
  | some _ => byKey
  | none => byKey.insert key schema

/-- Index `schema` under `name`'s final path segment. The first document stays. -/
def indexTail (byKey : AList fun _ : String => Value) (name : String) (schema : Value) :
    AList fun _ : String => Value :=
  match lastSegment name with
  | some tail => if tail ≠ name then orInsert byKey tail schema else byKey
  | none => byKey

def tooMany : SchemaRegError :=
  .config ("JSON Schema pulls in more than " ++ toString maxReferences ++ " referenced schemas")

def twoDocuments (name : String) : SchemaRegError :=
  .config ("two different documents were supplied for the JSON Schema reference '" ++ name ++
    "'; a `$ref` resolves to one document, so the set must agree on it (a reference closure " ++
    "spanning two versions of the same subject does not)")

/-- Index `schema` under `name` and under `name`'s final path segment. -/
def insert [DecidableEq Value] (set : ReferenceSet Value) (name : String) (schema : Value) :
    Result (ReferenceSet Value) :=
  if set.len ≥ maxReferences * 2 then .error tooMany
  else
    let byKey := indexTail set.byKey name schema
    match byKey.lookup name with
    | some existing => if existing ≠ schema then .error (twoDocuments name) else .ok ⟨byKey⟩
    | none => .ok ⟨byKey.insert name schema⟩

def lookup (set : ReferenceSet Value) (uri : String) : Option Value :=
  (set.byKey.lookup uri).orElse fun _ => (lastSegment uri).bind fun tail => set.byKey.lookup tail

end ReferenceSet

variable [DecidableEq Value]

/-- The insertions of a list of names and documents into an empty set. -/
def insertAll (deps : List (String × Value)) : Result (ReferenceSet Value) :=
  deps.foldlM (fun set dep => set.insert dep.1 dep.2) ReferenceSet.empty

section Parsing

variable (fromStr : String → Except String Value)

/-- The parse of one dependency in `reference_set_from_pairs`. -/
def parseDependency (dep : String × String) : Result Value :=
  (fromStr dep.2).mapError fun e =>
    .config ("invalid JSON Schema for referenced schema '" ++ dep.1 ++ "': " ++ e)

/-- Parse each `(name, schema JSON)` pair into a `ReferenceSet`. -/
def referenceSetFromPairs (deps : List (String × String)) : Result (ReferenceSet Value) :=
  deps.foldlM (fun set dep => do
    let value ← parseDependency fromStr dep
    set.insert dep.1 value) ReferenceSet.empty

/-- The parse of one fetched schema in `collect_reference_closure`. -/
def parseReferenced (reference : SchemaReference) (referenced : Schema) : Result Value :=
  (fromStr referenced.schema).mapError fun e =>
    .config ("referenced schema '" ++ reference.name ++ "' (subject '" ++ reference.subject ++
      "') is not valid JSON: " ++ e)

/-- The target of a reference, as `visited` records it. -/
def target (reference : SchemaReference) : String × Int32 :=
  (reference.subject, reference.version.asI32)

def nestTooDeep : SchemaRegError :=
  .config ("JSON Schema references nest deeper than " ++ toString maxReferenceDepth ++
    " levels; the registry likely contains a reference cycle")

/-- A walk over the references, with the set it collects. -/
abbrev Walk (Value : Type) := DepthFirst.Walk (String × Int32) (ReferenceSet Value)

/-- `collect_reference_closure`: fetch every schema transitively referenced by `references`,
    depth first. `levels` is what is left of the depth: `MAX_REFERENCE_DEPTH - depth`. -/
def collectReferenceClosure (getSchemaByVersion : String → SchemaVersion → Result Schema)
    (levels : Nat) (references : List SchemaReference) (walk : Walk Value) :
    Result Unit × Walk Value :=
  DepthFirst.walk target
    (fun reference => getSchemaByVersion reference.subject reference.version)
    (fun referenced => referenced.references)
    (fun _ => .ok ())
    (fun reference referenced out => do
      let value ← parseReferenced fromStr reference referenced
      out.insert reference.name value)
    nestTooDeep levels references walk

/-- The walk of `get_validator`: from the root's references, with nothing visited. -/
def referenceClosure (getSchemaByVersion : String → SchemaVersion → Result Schema)
    (references : List SchemaReference) : Result (ReferenceSet Value) :=
  match collectReferenceClosure fromStr getSchemaByVersion maxReferenceDepth references
      ⟨[], [], ReferenceSet.empty⟩ with
  | (.ok (), walk) => .ok walk.out
  | (.error err, _) => .error err

end Parsing

/-! ## The final path segment -/

theorem rsplitOnce_eq_none {s : String} {separator : Char} (h : separator ∉ s.toList) :
    rsplitOnce s separator = none := by
  have hnil : s.toList.reverse.dropWhile (· ≠ separator) = [] := by
    rw [List.dropWhile_eq_nil_iff]
    intro c hc
    have hne : c ≠ separator := fun heq => h (heq ▸ List.mem_reverse.mp hc)
    simpa using hne
  unfold rsplitOnce
  rw [hnil]

theorem rsplitOnce_append {before after : List Char} {separator : Char}
    (h : separator ∉ after) :
    rsplitOnce (String.ofList (before ++ separator :: after)) separator =
      some (String.ofList before, String.ofList after) := by
  have hrev : (before ++ separator :: after).reverse =
      after.reverse ++ separator :: before.reverse := by simp
  have hall : ∀ c ∈ after.reverse, decide (c ≠ separator) = true := by
    intro c hc
    exact decide_eq_true fun heq => h (heq ▸ List.mem_reverse.mp hc)
  have hdrop : (after.reverse ++ separator :: before.reverse).dropWhile (· ≠ separator) =
      separator :: before.reverse := by
    rw [List.dropWhile_append_of_pos hall]
    simp
  have htake : (after.reverse ++ separator :: before.reverse).takeWhile (· ≠ separator) =
      after.reverse := by
    rw [List.takeWhile_append_of_pos hall]
    simp
  unfold rsplitOnce
  rw [String.toList_ofList, hrev, hdrop, htake]
  simp

/-- A string is its last segment, or splits before it. -/
theorem split_last (s : String) : ('/' ∉ s.toList ∧ lastSegment s = none) ∨
    ∃ before tail, '/' ∉ tail.toList ∧ s = before ++ "/" ++ tail ∧ lastSegment s = some tail := by
  by_cases hmem : '/' ∈ s.toList
  · obtain ⟨after, before, hrev, hfree⟩ :=
      List.eq_append_cons_of_mem (List.mem_reverse.mpr hmem)
    have hs : s = String.ofList (before.reverse ++ '/' :: after.reverse) := by
      rw [← String.toList_inj, String.toList_ofList, ← List.reverse_reverse s.toList, hrev]
      simp
    have htail : '/' ∉ after.reverse := fun h => hfree (List.mem_reverse.mp h)
    refine Or.inr ⟨String.ofList before.reverse, String.ofList after.reverse, ?_, ?_, ?_⟩
    · rwa [String.toList_ofList]
    · rw [hs, ← String.toList_inj]
      simp [String.toList_append]
    · unfold lastSegment
      rw [hs, rsplitOnce_append htail]
      rfl
  · exact Or.inl ⟨hmem, by unfold lastSegment; rw [rsplitOnce_eq_none hmem]; rfl⟩

end Schemreg.Json
