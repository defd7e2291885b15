import Mathlib.Algebra.Group.Nat.Defs
import Schemreg.Json.Closure
import Schemreg.Lib.DepthFirstLog

/-
  How many schemas the JSON walk collects.

  The limit is a number of keys of the set: twice `MAX_REFERENCES`, since a name has at most
  two keys. A name without a slash has one, and a name that is there already has none. The
  walk compares only when it inserts, so it goes on as long as the insertions succeed.

  The walk is followed with a record of the schemas it has inserted (`recordedClosure`). A
  pair that was requested and is not in the record is still pending.

  Proved:
  * `counts_schemas_iff`: the limit is one of 256 schemas exactly when the schemas that the
    traversal of the references leaves are at most 256, or the first 257 of them cannot all
    be inserted.
  * `shared_name_is_not_counted`: the limit fails for 257 versions under one name.
-/

namespace Schemreg.Json

open Index DepthFirst

variable {Value : Type} [DecidableEq Value]

section Definitions

variable (fromStr : String → Except String Value)
  (getSchemaByVersion : String → SchemaVersion → Result Schema)

/-- What the walk does when it leaves a schema: parse it, and insert it under the name of the
    reference. -/
def insertReferenced (reference : SchemaReference) (referenced : Schema)
    (out : ReferenceSet Value) : Result (ReferenceSet Value) := do
  let value ← parseReferenced fromStr reference referenced
  out.insert reference.name value

/-- A walk with a record of the schemas it has inserted. -/
abbrev RecordedWalk (Value : Type) :=
  DepthFirst.Walk (String × Int32) (ReferenceSet Value × List (SchemaReference × Schema))

/-- The walk of `get_validator`, with a record. -/
def recordedClosure (root : List SchemaReference) : Result Unit × RecordedWalk Value :=
  DepthFirst.walk target (fetchReference getSchemaByVersion) Schema.references always
    (logged (insertReferenced fromStr)) nestTooDeep maxReferenceDepth root
    ⟨[], [], (ReferenceSet.empty, [])⟩

/-- The pairs that were requested and have not been inserted: the current path. -/
def pending (walk : RecordedWalk Value) : List (String × Int32) :=
  walk.requested.filter fun pair => pair ∉ walk.out.2.map fun first => target first.1

/-- The references in the order in which a depth-first traversal of 32 levels leaves them, up
    to the first that cannot be fetched or is too deep. -/
def leavingOrder (root : List SchemaReference) : List (SchemaReference × Schema) :=
  traversal target (fetchReference getSchemaByVersion) Schema.references nestTooDeep
    maxReferenceDepth root

/-- The distinct pairs that can be reached are at most `n`. -/
def AtMost (root : List SchemaReference) (n : Nat) : Prop :=
  ∀ pairs : List (String × Int32), pairs.Nodup →
    (∀ pair ∈ pairs, ∃ r, InClosure getSchemaByVersion root r ∧ target r = pair) →
    pairs.length ≤ n

/-- The limit counts referenced schemas. -/
structure CountsSchemas (root : List SchemaReference) : Prop where
  distinct : (recordedClosure fromStr getSchemaByVersion root).2.requested.Nodup
  path : (pending (recordedClosure fromStr getSchemaByVersion root).2).length ≤ maxReferenceDepth
  requests : (recordedClosure fromStr getSchemaByVersion root).2.requested.length ≤
    maxReferences + (pending (recordedClosure fromStr getSchemaByVersion root).2).length
  accepted : (∃ set, referenceClosure fromStr getSchemaByVersion root = .ok set) →
    AtMost getSchemaByVersion root maxReferences
  refused : referenceClosure fromStr getSchemaByVersion root = .error ReferenceSet.tooMany →
    AtMost getSchemaByVersion root maxReferences →
    ∃ r, InClosure getSchemaByVersion root r ∧
      fetchReference getSchemaByVersion r = .error ReferenceSet.tooMany

/-- The first 257 schemas that the traversal leaves can be inserted: each is JSON, the names
    of the first 256 have fewer than 512 keys, and under each name the first document is the
    schema's own. -/
structure InsertsTooMany (root : List SchemaReference) : Prop where
  many : maxReferences < (leavingOrder getSchemaByVersion root).length
  parsed : ∀ first ∈ (leavingOrder getSchemaByVersion root).take (maxReferences + 1),
    ∃ doc, parseReferenced fromStr first.1 first.2 = .ok doc
  keys : size (keys fun first => first.1.name)
    ((leavingOrder getSchemaByVersion root).take maxReferences) < maxReferences * 2
  agreed : Agreed (fun first => first.1.name) (fun first => parseReferenced fromStr first.1 first.2)
    ((leavingOrder getSchemaByVersion root).take (maxReferences + 1))

end Definitions

variable {fromStr : String → Except String Value}
  {getSchemaByVersion : String → SchemaVersion → Result Schema} {root : List SchemaReference}
  {result : Result Unit} {run : RecordedWalk Value}

/-- The recorded walk, as a course. -/
abbrev RecordedCourse (fromStr : String → Except String Value)
    (getSchemaByVersion : String → SchemaVersion → Result Schema) (root : List SchemaReference)
    (result : Result Unit) (run : RecordedWalk Value) : Prop :=
  Course target (fetchReference getSchemaByVersion) Schema.references always
    (logged (insertReferenced fromStr)) nestTooDeep maxReferenceDepth root
    ⟨[], [], (ReferenceSet.empty, [])⟩ result run

theorem recordedClosure_course : RecordedCourse fromStr getSchemaByVersion root
    (recordedClosure fromStr getSchemaByVersion root).1
    (recordedClosure fromStr getSchemaByVersion root).2 :=
  walk_course maxReferenceDepth root _

/-- The record changes nothing: `get_validator`'s walk is the recorded one. -/
theorem referenceClosure_eq (h : RecordedCourse fromStr getSchemaByVersion root result run) :
    referenceClosure fromStr getSchemaByVersion root =
      (match result with
        | .ok () => .ok run.out.1
        | .error err => .error err) := by
  have hplain : Course target (fetchReference getSchemaByVersion) Schema.references always
      (insertReferenced fromStr) nestTooDeep maxReferenceDepth root
      ⟨[], [], ReferenceSet.empty⟩ _ _ := walk_course maxReferenceDepth root _
  obtain ⟨log, hlogged⟩ := hplain.logged []
  have hsame := h.walk_eq.symm.trans hlogged.walk_eq
  obtain ⟨hresult, hrun⟩ := Prod.mk.inj hsame
  have hwalk : collectReferenceClosure fromStr getSchemaByVersion maxReferenceDepth root
      ⟨[], [], ReferenceSet.empty⟩ = (result, run.put run.out.1) := by
    rw [hresult, hrun]
    rfl
  unfold referenceClosure
  rw [hwalk]
  cases result <;> rfl

/-! ## What is pending -/

/-- Every request has been inserted or is pending. -/
theorem length_requested (h : RecordedCourse fromStr getSchemaByVersion root result run) :
    run.requested.length = run.out.2.length + (pending run).length := by
  obtain ⟨new, hlog, hnodup, hnew⟩ := h.log_new rfl
  have hrequested : run.requested.Nodup :=
    (h.nodup List.nodup_nil).sublist (h.requested_prefix rfl).1.sublist
  rw [List.nil_append] at hlog
  have hinserted : (run.requested.filter fun pair =>
      pair ∈ run.out.2.map fun first => target first.1).Perm
        (run.out.2.map fun first => target first.1) := by
    rw [List.perm_ext_iff_of_nodup (hrequested.filter _) (hlog ▸ hnodup)]
    intro pair
    rw [List.mem_filter]
    constructor
    · rintro ⟨-, hmem⟩
      exact of_decide_eq_true hmem
    · intro hmem
      refine ⟨?_, decide_eq_true hmem⟩
      obtain ⟨first, hf, rfl⟩ := List.mem_map.mp hmem
      exact (hnew first (hlog ▸ hf)).2
  have hsplit := List.length_eq_length_filter_add (l := run.requested) fun pair =>
    decide (pair ∈ run.out.2.map fun first => target first.1)
  rw [hinserted.length_eq, List.length_map] at hsplit
  rw [hsplit]
  unfold pending
  simp

theorem size_logged {reference : SchemaReference} {referenced : Schema}
    {out out' : ReferenceSet Value × List (SchemaReference × Schema)}
    (h : logged (insertReferenced fromStr) reference referenced out = .ok out') :
    out'.2.length = out.2.length + 1 := by
  rw [(logged_eq_ok.mp h).2, List.length_append, List.length_singleton]

/-- At most one pair is pending on each level. -/
theorem length_pending_le (h : RecordedCourse fromStr getSchemaByVersion root result run) :
    (pending run).length ≤ maxReferenceDepth := by
  have hbound := (h.requests_pending (fun out => out.2.length) (p := 0) size_logged rfl).2
  have hsplit := length_requested h
  omega

theorem requested_reached (h : RecordedCourse fromStr getSchemaByVersion root result run) :
    ∀ pair ∈ run.requested, ∃ r, InClosure getSchemaByVersion root r ∧ target r = pair := by
  intro pair hpair
  exact h.reached (fun e he => Reached.root he) (fun n hn => by cases hn) pair
    ((h.requested_prefix rfl).1.subset hpair)

/-! ## The schemas that were inserted -/

/-- The set is the one that inserting the recorded schemas leaves. -/
theorem load_recorded (h : RecordedCourse fromStr getSchemaByVersion root result run) :
    load (fun first => first.1.name) (fun first => parseReferenced fromStr first.1 first.2)
      run.out.2 = .ok run.out.1 :=
  h.collects rfl

theorem dropLast_take_succ {α : Type} {l : List α} {n : Nat} (h : n < l.length) :
    (l.take (n + 1)).dropLast = l.take n := by
  rw [List.dropLast_eq_take, List.length_take, List.take_take]
  congr 1
  omega

/-- More than 256 schemas are inserted when the first 257 of the traversal can be. -/
theorem many_inserted_iff (h : RecordedCourse fromStr getSchemaByVersion root result run) :
    maxReferences < run.out.2.length ↔ InsertsTooMany fromStr getSchemaByVersion root := by
  have hload : maxReferences < run.out.2.length ↔
      maxReferences < (leavingOrder getSchemaByVersion root).length ∧
        ∃ set, load (fun first => first.1.name)
          (fun first => parseReferenced fromStr first.1 first.2)
          ((leavingOrder getSchemaByVersion root).take (maxReferences + 1)) = .ok set :=
    h.lt_length_log
  rw [hload, load_ok_iff]
  constructor
  · rintro ⟨hmany, hparsed, hkeys, hagreed⟩
    rw [dropLast_take_succ hmany] at hkeys
    exact ⟨hmany, hparsed, hkeys, hagreed⟩
  · intro h
    refine ⟨h.many, h.parsed, ?_, h.agreed⟩
    rw [dropLast_take_succ h.many]
    exact h.keys

/-- A walk that succeeds inserts one schema for each pair that can be reached. -/
theorem atMost_inserted (h : RecordedCourse fromStr getSchemaByVersion root (.ok ()) run) :
    AtMost getSchemaByVersion root run.out.2.length := by
  obtain ⟨firsts, horder, hout⟩ := walk_ok h.walk_eq
  have hlog := collect_logged hout
  rw [List.nil_append] at hlog
  intro pairs hnodup hreach
  have hsub : pairs ⊆ run.out.2.map fun first => target first.1 := by
    intro pair hpair
    obtain ⟨r, hr, rfl⟩ := hreach pair hpair
    obtain ⟨first, hf, htarget⟩ := horder.complete (fun _ _ => fetchReference_target) hr
    exact List.mem_map.mpr ⟨first, hlog ▸ hf, htarget⟩
  rw [← List.length_map (f := fun first : SchemaReference × Schema => target first.1)]
  exact (List.subperm_of_subset hnodup hsub).length_le

/-! ## The limit error -/

/-- The first character of a configuration error. -/
def initial : SchemaRegError → Option Char
  | .config message => message.toList.head?
  | _ => none

theorem initial_tooMany : initial ReferenceSet.tooMany = some 'J' := by decide +kernel

theorem nestTooDeep_ne_tooMany : nestTooDeep ≠ ReferenceSet.tooMany := by decide +kernel

theorem initial_twoDocuments (name : String) :
    initial (ReferenceSet.twoDocuments name) = some 't' := by
  simp [initial, ReferenceSet.twoDocuments, String.toList_append]

omit [DecidableEq Value] in
theorem initial_parseReferenced {r : SchemaReference} {s : Schema} {err : SchemaRegError}
    (h : parseReferenced fromStr r s = .error err) : initial err = some 'r' := by
  unfold parseReferenced at h
  cases hparse : fromStr s.schema with
  | ok v =>
    rw [hparse] at h
    cases h
  | error e =>
    rw [hparse] at h
    cases h
    simp [initial, String.toList_append]

/-- Only a set with 512 keys makes an insertion fail with the limit error. -/
theorem full_of_tooMany {r : SchemaReference} {s : Schema} {set : ReferenceSet Value}
    (h : insertReferenced fromStr r s set = .error ReferenceSet.tooMany) :
    maxReferences * 2 ≤ set.len := by
  unfold insertReferenced at h
  cases hparse : parseReferenced fromStr r s with
  | error err =>
    rw [hparse] at h
    cases h
    have hinitial := initial_parseReferenced hparse
    rw [initial_tooMany] at hinitial
    cases hinitial
  | ok doc =>
    rw [hparse] at h
    have hinsert : set.insert r.name doc = .error ReferenceSet.tooMany := h
    unfold ReferenceSet.insert at hinsert
    split at hinsert
    · assumption
    · dsimp only at hinsert
      split at hinsert
      · split at hinsert
        · have hinitial := initial_twoDocuments r.name
          rw [Except.error.inj hinsert, initial_tooMany] at hinitial
          cases hinitial
        · cases hinsert
      · cases hinsert

theorem length_keys_le (first : SchemaReference × Schema) :
    (keys (fun first : SchemaReference × Schema => first.1.name) first).length ≤ 2 := by
  unfold keys keysOf
  cases lastSegment first.1.name <;> simp

theorem length_flatMap_keys_le (firsts : List (SchemaReference × Schema)) :
    (firsts.flatMap (keys fun first : SchemaReference × Schema => first.1.name)).length ≤
      2 * firsts.length := by
  induction firsts with
  | nil => rfl
  | cons first firsts ih =>
    have hfirst := length_keys_le first
    rw [List.flatMap_cons, List.length_append, List.length_cons]
    omega

theorem size_keys_le (firsts : List (SchemaReference × Schema)) :
    size (keys fun first : SchemaReference × Schema => first.1.name) firsts ≤
      2 * firsts.length :=
  Nat.le_trans (List.dedup_sublist _).length_le (length_flatMap_keys_le firsts)

/-- The limit error is raised for a closure of more than 256 pairs, unless the registry itself
    answered with it. -/
theorem refused_is_large (h : RecordedCourse fromStr getSchemaByVersion root result run)
    (hresult : result = .error ReferenceSet.tooMany)
    (hsmall : AtMost getSchemaByVersion root maxReferences) :
    ∃ r, InClosure getSchemaByVersion root r ∧
      fetchReference getSchemaByVersion r = .error ReferenceSet.tooMany := by
  rcases h.error_cases (fun out => out.2.length) (p := 0) size_logged
      (fun e he => Reached.root he) rfl hresult with
    hdeep | ⟨out, hcheck⟩ | hfetch | ⟨r, s, hleave, hlt⟩
  · exact absurd hdeep.symm nestTooDeep_ne_tooMany
  · cases hcheck
  · exact hfetch
  · -- 512 keys are the keys of 256 schemas, and one more was requested
    have hkeys := full_of_tooMany (logged_eq_error.mp hleave)
    rw [(load_indexes (load_recorded h)).len_eq] at hkeys
    have hsize := size_keys_le run.out.2
    have hbound := hsmall run.requested
      ((h.nodup List.nodup_nil).sublist (h.requested_prefix rfl).1.sublist)
      (requested_reached h)
    omega

/-- A closure that is accepted has one pair for each schema inserted. -/
theorem accepted_atMost (h : RecordedCourse fromStr getSchemaByVersion root result run)
    (hset : ∃ set, referenceClosure fromStr getSchemaByVersion root = .ok set) :
    AtMost getSchemaByVersion root run.out.2.length := by
  obtain ⟨set, hset⟩ := hset
  rw [referenceClosure_eq h] at hset
  cases result with
  | error err => cases hset
  | ok u => exact atMost_inserted h

theorem result_of_refused (h : RecordedCourse fromStr getSchemaByVersion root result run)
    {err : SchemaRegError}
    (herror : referenceClosure fromStr getSchemaByVersion root = .error err) :
    result = .error err := by
  rw [referenceClosure_eq h] at herror
  cases result with
  | error e => rw [Except.error.inj herror]
  | ok u => cases herror

/-- When the limit is one of 256 referenced schemas. -/
theorem counts_schemas_iff (fromStr : String → Except String Value)
    (getSchemaByVersion : String → SchemaVersion → Result Schema) (root : List SchemaReference) :
    CountsSchemas fromStr getSchemaByVersion root ↔
      ¬ InsertsTooMany fromStr getSchemaByVersion root := by
  have hcourse : RecordedCourse fromStr getSchemaByVersion root
      (recordedClosure fromStr getSchemaByVersion root).1
      (recordedClosure fromStr getSchemaByVersion root).2 := recordedClosure_course
  have hlength := length_requested hcourse
  rw [← many_inserted_iff hcourse, Nat.not_lt]
  constructor
  · intro h
    have hrequests := h.requests
    omega
  · intro hfew
    refine ⟨(hcourse.nodup List.nodup_nil).sublist (hcourse.requested_prefix rfl).1.sublist,
      length_pending_le hcourse, by omega, ?_, ?_⟩
    · exact fun hset pairs hnodup hreach =>
        Nat.le_trans (accepted_atMost hcourse hset pairs hnodup hreach) hfew
    · exact fun herror hsmall => refused_is_large hcourse (result_of_refused hcourse herror) hsmall

/-! ## Versions of one subject -/

/-- So many versions of one subject, referenced under one name. -/
def versionsOf (n : Nat) : List SchemaReference :=
  (List.range n).map fun i => ⟨"address.json", "address-value", ⟨Int32.ofNat (i + 1)⟩⟩

/-- Every version has the same text. -/
def sameText (_ : String) (version : SchemaVersion) : Result Schema :=
  .ok ⟨none, none, .json, "true", some version, some "address-value", []⟩

/-- The set with the one document. -/
def onlyAddress : ReferenceSet String := ⟨AList.singleton "address.json" "true"⟩

theorem insert_only_address {set : ReferenceSet String}
    (h : set = ReferenceSet.empty ∨ set = onlyAddress) :
    set.insert "address.json" "true" = .ok onlyAddress := by
  rcases h with rfl | rfl <;> rfl

/-- References under the one name are all visited. -/
theorem same_name_course : ∀ (references : List SchemaReference) (walk : Walk String),
    (∀ r ∈ references, r.name = "address.json") →
    (walk.out = ReferenceSet.empty ∨ walk.out = onlyAddress) →
    ∃ walk', Course target (fetchReference sameText) Schema.references always
      (insertReferenced Except.ok) nestTooDeep maxReferenceDepth references walk (.ok ()) walk'
  | [], walk, _, _ => ⟨walk, Course.nil⟩
  | r :: references, walk, hname, hset => by
      have hrest : ∀ r ∈ references, r.name = "address.json" :=
        fun r hr => hname r (List.mem_cons_of_mem _ hr)
      by_cases hseen : target r ∈ walk.visited
      · obtain ⟨walk', hcourse⟩ := same_name_course references walk hrest hset
        exact ⟨walk', Course.seen hseen hcourse⟩
      · obtain ⟨walk', hcourse⟩ := same_name_course references
          ((walk.ask (target r)).put onlyAddress) hrest (Or.inr rfl)
        have hinsert := insert_only_address hset
        rw [← hname r List.mem_cons_self] at hinsert
        exact ⟨walk', Course.visit hseen rfl rfl Course.nil hinsert hcourse⟩

theorem versionsOf_accepted (n : Nat) :
    ∃ set, referenceClosure Except.ok sameText (versionsOf n) = .ok set := by
  have hname : ∀ r ∈ versionsOf n, r.name = "address.json" := by
    intro r hr
    obtain ⟨i, -, rfl⟩ := List.mem_map.mp hr
    rfl
  obtain ⟨walk, hcourse⟩ := same_name_course (versionsOf n) ⟨[], [], ReferenceSet.empty⟩ hname
    (Or.inl rfl)
  refine ⟨walk.out, ?_⟩
  have hwalk : collectReferenceClosure Except.ok sameText maxReferenceDepth (versionsOf n)
      ⟨[], [], ReferenceSet.empty⟩ = (.ok (), walk) := hcourse.walk_eq
  unfold referenceClosure
  rw [hwalk]

theorem nodup_versionsOf {n : Nat} (h : n < 2 ^ 31) : ((versionsOf n).map target).Nodup := by
  unfold versionsOf
  rw [List.map_map]
  refine List.Nodup.map_on ?_ List.nodup_range
  intro i hi j hj heq
  have hversion : Int32.ofNat (i + 1) = Int32.ofNat (j + 1) := congrArg Prod.snd heq
  have hint := congrArg Int32.toInt hversion
  have hlt := List.mem_range.mp hi
  have hlt' := List.mem_range.mp hj
  rw [Int32.toInt_ofNat_of_lt (by omega), Int32.toInt_ofNat_of_lt (by omega)] at hint
  omega

/-- 257 versions of one subject are accepted. -/
theorem shared_name_is_not_counted :
    ¬ ∀ (fromStr : String → Except String String)
        (getSchemaByVersion : String → SchemaVersion → Result Schema)
        (root : List SchemaReference), CountsSchemas fromStr getSchemaByVersion root := by
  intro h
  have hmost := (h Except.ok sameText (versionsOf 257)).accepted (versionsOf_accepted 257)
  have hcount := hmost ((versionsOf 257).map target) (nodup_versionsOf (by decide)) (by
    intro pair hpair
    obtain ⟨r, hr, rfl⟩ := List.mem_map.mp hpair
    exact ⟨r, Reached.root hr, rfl⟩)
  rw [List.length_map, versionsOf, List.length_map, List.length_range] at hcount
  exact absurd hcount (by decide)

end Schemreg.Json
