import Schemreg.Avro.SchemaOrder

/-
  The dependencies of an Avro schema are a set.

  Two lists are the same dependencies if one becomes the other by permuting its texts and by
  adding or dropping copies, which have the same fullname and equal JSON (`SameDependencies`).
  What is kept of either is then the same, up to the order and to the spelling of the texts
  (`kept_perm`), and whether a list of schemas can be ordered does not depend on its order.

  Proved: `dependencies_are_a_set`.
-/

namespace Schemreg.Avro

variable {Rest Json : Type} {api : Api Rest Json} {root text dep name : String}
  {deps deps' kept kept' texts : List String} {json : Json} {role : SchemaRole}
  {seen : List (String × Json)} {parsed parsed' : List (AvroSchema Rest)}

/-- The fullname that a text declares. -/
def fullnameOf (api : Api Rest Json) (text : String) : Option String :=
  (api.fromStr text).toOption.bind (topLevelFullname api)

theorem fullnameOf_ok (h : api.fromStr text = .ok json) :
    fullnameOf api text = topLevelFullname api json := by
  unfold fullnameOf
  rw [h]
  rfl

/-- One text is a copy of the other. -/
def IsCopy (api : Api Rest Json) (text other : String) : Prop :=
  ∃ json name, api.fromStr text = .ok json ∧ api.fromStr other = .ok json ∧
    topLevelFullname api json = some name

/-- The same dependencies, in another order and with other copies. -/
inductive SameDependencies (api : Api Rest Json) : List String → List String → Prop where
  | perm {deps deps' : List String} (h : deps.Perm deps') : SameDependencies api deps deps'
  | copy {text other : String} {deps : List String} (hmem : other ∈ deps)
      (h : IsCopy api text other) : SameDependencies api (text :: deps) deps
  | symm {deps deps' : List String} (h : SameDependencies api deps deps') :
      SameDependencies api deps' deps
  | trans {deps deps' deps'' : List String} (h : SameDependencies api deps deps')
      (h' : SameDependencies api deps' deps'') : SameDependencies api deps deps''

/-- The same documents are there. -/
theorem SameDependencies.documents (h : SameDependencies api deps deps') (document) :
    document ∈ deps.map api.fromStr ↔ document ∈ deps'.map api.fromStr := by
  induction h with
  | perm h => exact (h.map _).mem_iff
  | @copy text other deps hmem h =>
    obtain ⟨json, -, htext, hother, -⟩ := h
    rw [List.map_cons, List.mem_cons]
    refine ⟨?_, .inr⟩
    rintro (rfl | hdocument)
    · exact List.mem_map.mpr ⟨other, hmem, hother.trans htext.symm⟩
    · exact hdocument
  | symm _ ih => exact ih.symm
  | trans _ _ ih ih' => exact ih.trans ih'

/-- The documents without a fullname are there as often. -/
theorem SameDependencies.unnamed (h : SameDependencies api deps deps') :
    ((deps.filter fun dep => fullnameOf api dep = none).map api.fromStr).Perm
      ((deps'.filter fun dep => fullnameOf api dep = none).map api.fromStr) := by
  induction h with
  | perm h => exact (h.filter _).map _
  | copy hmem h =>
    obtain ⟨json, name, htext, -, hname⟩ := h
    rw [List.filter_cons, fullnameOf_ok htext, hname]
    exact .refl _
  | symm _ ih => exact ih.symm
  | trans _ _ ih ih' => exact ih.trans ih'

/-! ## The order of a list of schemas does not matter -/

theorem definedOnce_iff : DefinedOnce api parsed ↔
    parsed.Pairwise fun a b => ∀ name, Defines api a name → ¬ Defines api b name := by
  rw [List.pairwise_iff_getElem]
  constructor
  · intro h i j hi hj hlt name ha hb
    exact absurd (h i j _ _ name (List.getElem?_eq_getElem hi) (List.getElem?_eq_getElem hj) ha hb)
      (Nat.ne_of_lt hlt)
  · intro h i j a b name hi hj ha hb
    obtain ⟨hilt, rfl⟩ := List.getElem?_eq_some_iff.mp hi
    obtain ⟨hjlt, rfl⟩ := List.getElem?_eq_some_iff.mp hj
    rcases Nat.lt_trichotomy i j with hlt | heq | hlt
    · exact absurd hb (h i j hilt hjlt hlt name ha)
    · exact heq
    · exact absurd ha (h j i hjlt hilt hlt name hb)

theorem definedOnce_perm (h : parsed.Perm parsed') (honce : DefinedOnce api parsed) :
    DefinedOnce api parsed' := by
  rw [definedOnce_iff] at honce ⊢
  exact (h.pairwise_iff fun hab name hb ha => hab name ha hb).mp honce

theorem allResolved_iff (htop : QualifiesTopLevel api) : AllResolved api parsed ↔
    ∀ a ∈ parsed, ∀ name, Refers api a name → ¬ Defines api a name →
      ∃ b ∈ parsed, nameOf api b = some name := by
  constructor
  · intro h a ha name hrefers hnot
    obtain ⟨i, hi⟩ := List.mem_iff_getElem?.mp ha
    obtain ⟨j, b, -, hj, hb⟩ := h i a name hi hrefers hnot
    exact ⟨b, List.mem_of_getElem? hj, hb⟩
  · intro h i a name hi hrefers hnot
    obtain ⟨b, hmem, hb⟩ := h a (List.mem_of_getElem? hi) name hrefers hnot
    obtain ⟨j, hj⟩ := List.mem_iff_getElem?.mp hmem
    refine ⟨j, b, ?_, hj, hb⟩
    rintro rfl
    cases hi.symm.trans hj
    exact hnot (defines_nameOf htop hb)

/-- A cycle among some of the schemas is one among all of them. -/
theorem acyclic_of_subset (h : ∀ a ∈ parsed', a ∈ parsed)
    (hacyclic : ∀ i, ¬ Relation.TransGen (CrossReference api parsed) i i) (i : Nat) :
    ¬ Relation.TransGen (CrossReference api parsed') i i := by
  have hplace : ∀ i : Nat, ∃ k : Nat, ∀ a, parsed'[i]? = some a → parsed[k]? = some a := by
    intro i
    cases hi : parsed'[i]? with
    | none => exact ⟨i, fun a ha => nomatch ha⟩
    | some a =>
      obtain ⟨k, hk⟩ := List.mem_iff_getElem?.mp (h a (List.mem_of_getElem? hi))
      exact ⟨k, fun b hb => by rw [← hb, hk]⟩
  choose place hplace using hplace
  intro hcycle
  refine hacyclic (place i) (hcycle.lift place fun x y hxy => ?_)
  obtain ⟨a, b, name, hx, hy, hrest⟩ := hxy
  exact ⟨a, b, name, hplace x a hx, hplace y b hy, hrest⟩

theorem orderSchemata_perm (htop : QualifiesTopLevel api) (h : parsed.Perm parsed')
    (hok : ∃ out, orderSchemata api parsed role = .ok out) :
    ∃ out, orderSchemata api parsed' role = .ok out := by
  obtain ⟨out, hout⟩ := hok
  obtain ⟨⟨honce, hresolved, hacyclic⟩, -⟩ := orderable_of_ok htop hout
  refine ok_of_orderable htop role (definedOnce_perm h honce) ?_
    (acyclic_of_subset (fun a ha => h.mem_iff.mpr ha) hacyclic)
  rw [allResolved_iff htop] at hresolved ⊢
  intro a ha name hrefers hnot
  obtain ⟨b, hb, hname⟩ := hresolved a (h.mem_iff.mpr ha) name hrefers hnot
  exact ⟨b, h.mem_iff.mp hb, hname⟩

/-! ## What is kept -/

/-- Every text is JSON. -/
def AllJson (api : Api Rest Json) (texts : List String) : Prop :=
  ∀ text ∈ texts, ∃ json, api.fromStr text = .ok json

/-- The fullname of a text, with its JSON. -/
def declares (api : Api Rest Json) (text : String) : Option (String × Json) := do
  let json ← (api.fromStr text).toOption
  let name ← topLevelFullname api json
  return (name, json)

/-- One fullname has one JSON. -/
def Agree (declared : List (String × Json)) : Prop :=
  ∀ name json json', (name, json) ∈ declared → (name, json') ∈ declared → json = json'

theorem agree_congr {declared declared' : List (String × Json)}
    (h : ∀ x, x ∈ declared ↔ x ∈ declared') : Agree declared ↔ Agree declared' :=
  forall₃_congr fun name json json' => by rw [h, h]

theorem mem_declared : (name, json) ∈ texts.filterMap (declares api) ↔
    .ok json ∈ texts.map api.fromStr ∧ topLevelFullname api json = some name := by
  rw [List.mem_filterMap, List.mem_map, ← exists_and_right]
  refine exists_congr fun text => ?_
  rw [and_assoc]
  refine and_congr_right fun _ => ?_
  unfold declares
  cases api.fromStr text with
  | error e => simp [Except.toOption]
  | ok other =>
    cases hname : topLevelFullname api other with
    | none =>
      have hne : other = json → topLevelFullname api json ≠ some name := by
        rintro rfl
        rw [hname]
        exact nofun
      simpa [Except.toOption, hname] using hne
    | some otherName =>
      simp only [Except.toOption, Option.bind_eq_bind, Option.bind_some, hname, Option.pure_def,
        Option.some.injEq, Prod.mk.injEq, Except.ok.injEq]
      constructor
      · rintro ⟨rfl, rfl⟩
        exact ⟨rfl, hname⟩
      · rintro ⟨rfl, hother⟩
        exact ⟨Option.some.inj (hname.symm.trans hother), rfl⟩

theorem mem_declared_cons (h : (name, json) ∈ deps.filterMap (declares api)) :
    (name, json) ∈ (root :: deps).filterMap (declares api) := by
  rw [mem_declared] at h ⊢
  exact ⟨List.mem_cons_of_mem _ h.1, h.2⟩

/-- One text is kept for each fullname that has not been seen, and each text without one. -/
structure KeepsOnePerName (api : Api Rest Json) (seen : List String) (deps kept : List String) :
    Prop where
  sublist : kept.Sublist deps
  unnamed : (kept.filter fun dep => fullnameOf api dep = none) =
    deps.filter fun dep => fullnameOf api dep = none
  nodup : (kept.filterMap (fullnameOf api)).Nodup
  mem_names : ∀ name, name ∈ kept.filterMap (fullnameOf api) ↔
    name ∈ deps.filterMap (fullnameOf api) ∧ name ∉ seen

theorem mem_of_lookup (h : seen.lookup name = some json) : (name, json) ∈ seen := by
  obtain ⟨before, after, rfl, -⟩ := List.lookup_eq_some_iff.mp h
  exact List.mem_append_right _ List.mem_cons_self

theorem not_mem_of_lookup (h : seen.lookup name = none) (json : Json) : (name, json) ∉ seen := by
  intro hmem
  have hne := List.lookup_eq_none_iff.mp h (name, json) hmem
  simp at hne

theorem filterMap_named (h : fullnameOf api dep = some name) :
    (dep :: deps).filterMap (fullnameOf api) = name :: deps.filterMap (fullnameOf api) :=
  List.filterMap_cons_some h

theorem filterMap_unnamed (h : fullnameOf api dep = none) :
    (dep :: deps).filterMap (fullnameOf api) = deps.filterMap (fullnameOf api) :=
  List.filterMap_cons_none h

namespace KeepsOnePerName

variable {names : List String}

/-- A text without a fullname is kept. -/
theorem cons_unnamed (h : KeepsOnePerName api names deps kept) (hdep : fullnameOf api dep = none) :
    KeepsOnePerName api names (dep :: deps) (dep :: kept) := by
  refine ⟨h.sublist.cons_cons dep, ?_, ?_, fun name => ?_⟩
  · rw [List.filter_cons, List.filter_cons, h.unnamed]
  · rw [filterMap_unnamed hdep]
    exact h.nodup
  · rw [filterMap_unnamed hdep, filterMap_unnamed hdep]
    exact h.mem_names name

/-- A text whose fullname has been seen is dropped. -/
theorem cons_seen (h : KeepsOnePerName api names deps kept) (hdep : fullnameOf api dep = some name)
    (hseen : name ∈ names) : KeepsOnePerName api names (dep :: deps) kept := by
  refine ⟨h.sublist.cons dep, ?_, h.nodup, fun other => ?_⟩
  · rw [List.filter_cons, hdep, h.unnamed]
    rfl
  · rw [filterMap_named hdep, h.mem_names, List.mem_cons, or_and_right]
    refine (or_iff_right ?_).symm
    rintro ⟨rfl, hnot⟩
    exact hnot hseen

/-- A text with a new fullname is kept, and its fullname has been seen from then on. -/
theorem cons_new (h : KeepsOnePerName api (name :: names) deps kept)
    (hdep : fullnameOf api dep = some name) (hnew : name ∉ names) :
    KeepsOnePerName api names (dep :: deps) (dep :: kept) := by
  refine ⟨h.sublist.cons_cons dep, ?_, ?_, fun other => ?_⟩
  · rw [List.filter_cons, List.filter_cons, h.unnamed]
  · rw [filterMap_named hdep, List.nodup_cons]
    refine ⟨fun hmem => ?_, h.nodup⟩
    exact ((h.mem_names name).mp hmem).2 List.mem_cons_self
  · rw [filterMap_named hdep, filterMap_named hdep, List.mem_cons, List.mem_cons, h.mem_names,
      List.mem_cons]
    by_cases heq : other = name
    · subst heq
      simp [hnew]
    · simp [heq]

end KeepsOnePerName

variable [DecidableEq Json]

/-- What the loop keeps when it succeeds. -/
theorem dedupeLoop_keeps (h : dedupeLoop api role deps seen kept = .ok kept') :
    ∃ more, kept' = kept ++ more ∧ KeepsOnePerName api (seen.map Prod.fst) deps more := by
  induction deps generalizing seen kept with
  | nil =>
    cases h
    exact ⟨[], (List.append_nil _).symm, .refl [], rfl, List.nodup_nil, by simp⟩
  | cons dep deps ih =>
    rw [dedupeLoop] at h
    split at h
    · cases h
    · rename_i json hjson
      have hfullname := fullnameOf_ok hjson
      split at h
      · rename_i hnone
        obtain ⟨more, rfl, hmore⟩ := ih h
        exact ⟨dep :: more, by simp, hmore.cons_unnamed (hfullname.trans hnone)⟩
      · rename_i name hname
        have hdep := hfullname.trans hname
        split at h
        · rename_i previous hlookup
          split at h
          · obtain ⟨more, rfl, hmore⟩ := ih h
            refine ⟨more, rfl, hmore.cons_seen hdep ?_⟩
            exact List.mem_map.mpr ⟨_, mem_of_lookup hlookup, rfl⟩
          · cases h
        · rename_i hlookup
          obtain ⟨more, rfl, hmore⟩ := ih h
          refine ⟨dep :: more, by simp, hmore.cons_new hdep fun hmem => ?_⟩
          obtain ⟨⟨other, previous⟩, hseen, rfl⟩ := List.mem_map.mp hmem
          exact not_mem_of_lookup hlookup previous hseen

/-- The loop succeeds if the texts are JSON and agree with each other and with what has been
    seen. -/
theorem dedupeLoop_iff (hseen : Agree seen) :
    (∃ kept', dedupeLoop api role deps seen kept = .ok kept') ↔
      AllJson api deps ∧ Agree (seen ++ deps.filterMap (declares api)) := by
  induction deps generalizing seen kept with
  | nil =>
    refine ⟨fun _ => ⟨by simp [AllJson], ?_⟩, fun _ => ⟨kept, rfl⟩⟩
    rwa [List.filterMap_nil, List.append_nil]
  | cons dep deps ih =>
    rw [dedupeLoop]
    cases hjson : api.fromStr dep with
    | error e =>
      constructor
      · rintro ⟨_, h⟩
        cases h
      · rintro ⟨hall, -⟩
        obtain ⟨json, hok⟩ := hall dep List.mem_cons_self
        cases hjson.symm.trans hok
    | ok json =>
      have hall : AllJson api (dep :: deps) ↔ AllJson api deps := by
        unfold AllJson
        rw [List.forall_mem_cons]
        exact and_iff_right ⟨json, hjson⟩
      rw [hall]
      dsimp only
      cases hname : topLevelFullname api json with
      | none =>
        have hdep : declares api dep = none := by
          simp [declares, hjson, hname, Except.toOption]
        rw [List.filterMap_cons_none hdep]
        exact ih hseen
      | some name =>
        have hdep : declares api dep = some (name, json) := by
          simp [declares, hjson, hname, Except.toOption]
        rw [List.filterMap_cons_some hdep]
        dsimp only
        cases hlookup : seen.lookup name with
        | some previous =>
          have hmem := mem_of_lookup hlookup
          dsimp only
          by_cases hsame : previous = json
          · subst hsame
            rw [if_pos rfl, ih hseen]
            refine and_congr_right fun _ => agree_congr fun x => ?_
            rw [List.mem_append, List.mem_append, List.mem_cons]
            constructor
            · rintro (hx | hx)
              · exact .inl hx
              · exact .inr (.inr hx)
            · rintro (hx | rfl | hx)
              · exact .inl hx
              · exact .inl hmem
              · exact .inr hx
          · rw [if_neg hsame]
            constructor
            · rintro ⟨_, h⟩
              cases h
            · rintro ⟨-, hagree⟩
              exact absurd (hagree name previous json (List.mem_append_left _ hmem) (by simp)) hsame
        | none =>
          have hnew : Agree ((name, json) :: seen) := by
            intro other a b ha hb
            rcases List.mem_cons.mp ha with ha | ha
            · rcases List.mem_cons.mp hb with hb | hb
              · cases ha
                cases hb
                rfl
              · cases ha
                exact absurd hb (not_mem_of_lookup hlookup b)
            · rcases List.mem_cons.mp hb with hb | hb
              · cases hb
                exact absurd ha (not_mem_of_lookup hlookup a)
              · exact hseen other a b ha hb
          dsimp only
          rw [ih hnew]
          refine and_congr_right fun _ => agree_congr fun x => ?_
          simp only [List.mem_append, List.mem_cons, List.cons_append]
          rw [or_left_comm]

/-- `dedupe_dependencies` succeeds if all texts are JSON and agree, the root included. -/
theorem dedupeDependencies_iff : (∃ kept, dedupeDependencies api root deps role = .ok kept) ↔
    AllJson api (root :: deps) ∧ Agree ((root :: deps).filterMap (declares api)) := by
  unfold dedupeDependencies AllJson
  rw [List.forall_mem_cons]
  cases hjson : api.fromStr root with
  | error e =>
    constructor
    · rintro ⟨_, h⟩
      cases h
    · rintro ⟨⟨⟨json, hok⟩, -⟩, -⟩
      cases hok
  | ok json =>
    have hroot : ∃ other, (Except.ok json : Except String Json) = .ok other := ⟨json, rfl⟩
    rw [and_iff_right hroot]
    dsimp only
    cases hname : topLevelFullname api json with
    | none =>
      have hroot : declares api root = none := by
        simp [declares, hjson, hname, Except.toOption]
      have hnone : Agree ([] : List (String × Json)) := by simp [Agree]
      rw [List.filterMap_cons_none hroot]
      exact dedupeLoop_iff hnone
    | some name =>
      have hroot : declares api root = some (name, json) := by
        simp [declares, hjson, hname, Except.toOption]
      have hone : Agree [(name, json)] := by
        intro other a b ha hb
        cases List.mem_singleton.mp ha
        cases List.mem_singleton.mp hb
        rfl
      rw [List.filterMap_cons_some hroot]
      exact dedupeLoop_iff hone

/-- It keeps one text for each fullname other than the root's. -/
theorem dedupeDependencies_keeps (h : dedupeDependencies api root deps role = .ok kept) :
    KeepsOnePerName api (fullnameOf api root).toList deps kept := by
  unfold dedupeDependencies at h
  cases hjson : api.fromStr root with
  | error e =>
    rw [hjson] at h
    cases h
  | ok json =>
    rw [hjson] at h
    dsimp only at h
    rw [fullnameOf_ok hjson]
    cases hname : topLevelFullname api json with
    | none =>
      rw [hname] at h
      obtain ⟨more, rfl, hmore⟩ := dedupeLoop_keeps h
      exact hmore
    | some name =>
      rw [hname] at h
      obtain ⟨more, rfl, hmore⟩ := dedupeLoop_keeps h
      exact hmore

omit [DecidableEq Json] in
theorem perm_filter_named (kept : List String) :
    ((kept.filter fun dep => fullnameOf api dep = none).map api.fromStr ++
      (kept.filter fun dep => ¬ fullnameOf api dep = none).map api.fromStr).Perm
        (kept.map api.fromStr) := by
  rw [← List.map_append]
  refine List.Perm.map _ ?_
  have hsplit := List.filter_append_perm (fun dep => decide (fullnameOf api dep = none)) kept
  simpa using hsplit

section Kept

variable {names : List String} (h : KeepsOnePerName api names deps kept)
include h

omit [DecidableEq Json] in
/-- The kept documents with a fullname are distinct. -/
theorem KeepsOnePerName.nodup_named :
    ((kept.filter fun dep => ¬ fullnameOf api dep = none).map api.fromStr).Nodup := by
  have hnames : (kept.filter fun dep => ¬ fullnameOf api dep = none).map (fullnameOf api) =
      (kept.filterMap (fullnameOf api)).map some := by
    clear h
    induction kept with
    | nil => rfl
    | cons dep kept ih =>
      cases hdep : fullnameOf api dep with
      | none =>
        rw [filterMap_unnamed hdep, List.filter_cons_of_neg (by simp [hdep]), ih]
      | some name =>
        rw [filterMap_named hdep, List.filter_cons_of_pos (by simp [hdep]), List.map_cons, ih, hdep]
        rfl
  have hdistinct : ((kept.filter fun dep => ¬ fullnameOf api dep = none).map
      (fullnameOf api)).Nodup := by
    rw [hnames]
    exact h.nodup.map (Option.some_injective _)
  refine List.Nodup.of_map (fun document => document.toOption.bind (topLevelFullname api)) ?_
  rwa [List.map_map]

omit [DecidableEq Json] in
/-- The kept documents with a fullname are those of the dependencies whose fullname has not
    been seen. -/
theorem KeepsOnePerName.mem_named (hagree : Agree (deps.filterMap (declares api)))
    (document : Except String Json) :
    document ∈ (kept.filter fun dep => ¬ fullnameOf api dep = none).map api.fromStr ↔
      document ∈ deps.map api.fromStr ∧
        ∃ name, document.toOption.bind (topLevelFullname api) = some name ∧ name ∉ names := by
  simp only [List.mem_map, List.mem_filter, decide_not, Bool.not_eq_eq_eq_not, Bool.not_true,
    decide_eq_false_iff_not]
  constructor
  · rintro ⟨dep, ⟨hmem, hnamed⟩, rfl⟩
    obtain ⟨name, hname⟩ := Option.ne_none_iff_exists'.mp hnamed
    have hkept : name ∈ kept.filterMap (fullnameOf api) := List.mem_filterMap.mpr ⟨dep, hmem, hname⟩
    exact ⟨⟨dep, h.sublist.subset hmem, rfl⟩, name, hname, ((h.mem_names name).mp hkept).2⟩
  · rintro ⟨⟨dep, hmem, rfl⟩, name, hname, hnew⟩
    have hkept : name ∈ kept.filterMap (fullnameOf api) :=
      (h.mem_names name).mpr ⟨List.mem_filterMap.mpr ⟨dep, hmem, hname⟩, hnew⟩
    obtain ⟨other, hother, hotherName⟩ := List.mem_filterMap.mp hkept
    refine ⟨other, ⟨hother, by rw [hotherName]; exact nofun⟩, ?_⟩
    cases hjson : api.fromStr dep with
    | error e =>
      rw [hjson] at hname
      cases hname
    | ok json =>
      cases hjson' : api.fromStr other with
      | error e =>
        unfold fullnameOf at hotherName
        rw [hjson'] at hotherName
        cases hotherName
      | ok json' =>
        rw [fullnameOf_ok hjson'] at hotherName
        rw [hjson] at hname
        exact congrArg Except.ok (hagree name json' json
          (mem_declared.mpr ⟨List.mem_map.mpr ⟨other, h.sublist.subset hother, hjson'⟩, hotherName⟩)
          (mem_declared.mpr ⟨List.mem_map.mpr ⟨dep, hmem, hjson⟩, hname⟩))

end Kept

omit [DecidableEq Json] in
theorem SameDependencies.allJson (hsame : SameDependencies api deps deps')
    (h : AllJson api (root :: deps)) : AllJson api (root :: deps') := by
  intro text htext
  rcases List.mem_cons.mp htext with rfl | htext
  · exact h text List.mem_cons_self
  · obtain ⟨dep, hdep, hsame⟩ :=
      List.mem_map.mp ((hsame.documents _).mpr (List.mem_map.mpr ⟨text, htext, rfl⟩))
    rw [← hsame]
    exact h dep (List.mem_cons_of_mem _ hdep)

omit [DecidableEq Json] in
theorem SameDependencies.agree (hsame : SameDependencies api deps deps') :
    Agree (deps.filterMap (declares api)) ↔ Agree (deps'.filterMap (declares api)) :=
  agree_congr fun ⟨name, json⟩ => by rw [mem_declared, mem_declared, hsame.documents]

omit [DecidableEq Json] in
theorem SameDependencies.agree_cons (hsame : SameDependencies api deps deps') :
    Agree ((root :: deps).filterMap (declares api)) ↔
      Agree ((root :: deps').filterMap (declares api)) :=
  agree_congr fun ⟨name, json⟩ => by
    rw [mem_declared, mem_declared, List.map_cons, List.map_cons, List.mem_cons, List.mem_cons,
      hsame.documents]

omit [DecidableEq Json] in
/-- What is kept is the same, up to the order and the spelling. -/
theorem SameDependencies.kept_perm {names : List String} (hsame : SameDependencies api deps deps')
    (hagree : Agree (deps.filterMap (declares api))) (h : KeepsOnePerName api names deps kept)
    (h' : KeepsOnePerName api names deps' kept') :
    (kept.map api.fromStr).Perm (kept'.map api.fromStr) := by
  refine (perm_filter_named kept).symm.trans (.trans (.append ?_ ?_) (perm_filter_named kept'))
  · rw [h.unnamed, h'.unnamed]
    exact hsame.unnamed
  · refine (List.perm_ext_iff_of_nodup h.nodup_named h'.nodup_named).mpr fun document => ?_
    rw [h.mem_named hagree, h'.mem_named (hsame.agree.mp hagree), hsame.documents]

/-- Deduplication succeeds for the same dependencies. -/
theorem SameDependencies.dedupe (hsame : SameDependencies api deps deps')
    (h : ∃ kept, dedupeDependencies api root deps role = .ok kept) :
    ∃ kept, dedupeDependencies api root deps' role = .ok kept := by
  rw [dedupeDependencies_iff] at h ⊢
  exact ⟨hsame.allJson h.1, hsame.agree_cons.mp h.2⟩

/-! ## Parsing -/

omit [DecidableEq Json] in
/-- The parser takes a list as a set of documents: whether it succeeds, and what it makes of a
    document, does not depend on the order and the spelling of the texts. The schemas come in
    the order of the texts. -/
def ParsesAsSet (api : Api Rest Json) : Prop :=
  ∀ texts parsed, api.parseList texts = .ok parsed →
    ∃ schemaOf : Except String Json → AvroSchema Rest,
      ∀ texts', (texts'.map api.fromStr).Perm (texts.map api.fromStr) →
        api.parseList texts' = .ok (texts'.map fun text => schemaOf (api.fromStr text))

open ResolvedAvroSchema

omit [DecidableEq Json] in
theorem parseInputs_perm {inputs inputs' : List String} {resolved : ResolvedAvroSchema Rest}
    (htop : QualifiesTopLevel api) (hlist : ParsesAsSet api)
    (hperm : (inputs.map api.fromStr).Perm (inputs'.map api.fromStr))
    (h : parseInputs api root inputs role = .ok resolved) :
    ∃ resolved', parseInputs api root inputs' role = .ok resolved' ∧
      resolved'.root = resolved.root ∧ resolved'.schemata.Perm resolved.schemata := by
  unfold parseInputs at h ⊢
  cases inputs with
  | nil =>
    obtain rfl : inputs' = [] := by simpa using hperm
    exact ⟨resolved, h, rfl, .refl _⟩
  | cons input inputs =>
    obtain ⟨input', inputs', rfl⟩ : ∃ input' rest, inputs' = input' :: rest :=
      List.exists_cons_of_length_eq_add_one (by simpa using hperm.length_eq.symm)
    rw [List.isEmpty_cons, if_neg Bool.false_ne_true] at h ⊢
    cases hparsed : api.parseList (input :: inputs ++ [root]) with
    | error e =>
      rw [hparsed] at h
      cases h
    | ok parsed =>
      obtain ⟨schemaOf, hschemaOf⟩ := hlist _ _ hparsed
      have hall : ((input' :: inputs' ++ [root]).map api.fromStr).Perm
          ((input :: inputs ++ [root]).map api.fromStr) := by
        rw [List.map_append, List.map_append]
        exact hperm.symm.append_right _
      have hsame := hschemaOf _ (.refl _)
      rw [hsame] at h
      rw [hschemaOf _ hall]
      dsimp only at h ⊢
      rw [List.map_append, List.map_singleton, List.getLast?_concat] at h ⊢
      dsimp only at h ⊢
      obtain ⟨out, hout, h⟩ := Result.bind_eq_ok.mp h
      cases h
      have hschemas : ((input :: inputs).map (fun text => schemaOf (api.fromStr text)) ++
          [schemaOf (api.fromStr root)]).Perm
          ((input' :: inputs').map (fun text => schemaOf (api.fromStr text)) ++
            [schemaOf (api.fromStr root)]) := by
        refine List.Perm.append_right _ ?_
        have hmapped := hperm.map schemaOf
        rwa [List.map_map, List.map_map] at hmapped
      obtain ⟨out', hout'⟩ := orderSchemata_perm htop hschemas ⟨out, hout⟩
      refine ⟨⟨_, out'⟩, Result.bind_eq_ok.mpr ⟨out', hout', rfl⟩, rfl, ?_⟩
      exact ((orderable_of_ok htop hout').2.perm.trans hschemas.symm).trans
        (orderable_of_ok htop hout).2.perm.symm

/-- Parsing succeeds for the same dependencies, with the same root and the same schemas. -/
theorem SameDependencies.parse {resolved : ResolvedAvroSchema Rest} (htop : QualifiesTopLevel api)
    (hlist : ParsesAsSet api) (hsame : SameDependencies api deps deps')
    (hlength : deps'.length ≤ maxReferences)
    (h : ResolvedAvroSchema.parse api root deps role = .ok resolved) :
    ∃ resolved', ResolvedAvroSchema.parse api root deps' role = .ok resolved' ∧
      resolved'.root = resolved.root ∧ resolved'.schemata.Perm resolved.schemata := by
  unfold ResolvedAvroSchema.parse at h ⊢
  rw [if_neg (Nat.not_lt.mpr hlength)]
  split at h
  · cases h
  · obtain ⟨inputs, hinputs, hparse⟩ := Result.bind_eq_ok.mp h
    have hempty : deps = [] ↔ deps' = [] := by
      rw [← List.map_eq_nil_iff (f := api.fromStr), ← List.map_eq_nil_iff (f := api.fromStr),
        List.eq_nil_iff_forall_not_mem, List.eq_nil_iff_forall_not_mem]
      exact forall_congr' fun document => not_congr (hsame.documents document)
    by_cases hdeps : deps = []
    · obtain rfl := hdeps
      obtain rfl := hempty.mp rfl
      exact ⟨resolved, h, rfl, .refl _⟩
    · have hdeps' : deps' ≠ [] := fun hnil => hdeps (hempty.mpr hnil)
      rw [if_neg (by simpa using hdeps)] at hinputs
      obtain ⟨inputs', hinputs'⟩ := hsame.dedupe ⟨inputs, hinputs⟩
      have hagree := (dedupeDependencies_iff.mp ⟨inputs, hinputs⟩).2
      have hdepsAgree : Agree (deps.filterMap (declares api)) := fun name json json' hj hj' =>
        hagree name json json' (mem_declared_cons hj) (mem_declared_cons hj')
      have hperm := hsame.kept_perm hdepsAgree (dedupeDependencies_keeps hinputs)
        (dedupeDependencies_keeps hinputs')
      obtain ⟨resolved', hresolved', hrest⟩ := parseInputs_perm htop hlist hperm hparse
      refine ⟨resolved', Result.bind_eq_ok.mpr ⟨inputs', ?_, hresolved'⟩, hrest⟩
      rw [if_neg (by simpa using hdeps')]
      exact hinputs'

/-- The dependencies are a set: their order and their copies do not matter, and they are rejected
    exactly where they contradict each other. -/
theorem dependencies_are_a_set (htop : QualifiesTopLevel api) (hlist : ParsesAsSet api)
    (root : String) (role : SchemaRole) (hsame : SameDependencies api deps deps')
    (hlength : deps.length ≤ maxReferences) (hlength' : deps'.length ≤ maxReferences) :
    ((∃ kept, dedupeDependencies api root deps role = .ok kept) ↔
      ∃ kept, dedupeDependencies api root deps' role = .ok kept) ∧
    ((∃ kept, dedupeDependencies api root deps role = .ok kept) ↔
      AllJson api (root :: deps) ∧ Agree ((root :: deps).filterMap (declares api))) ∧
    (∀ kept, dedupeDependencies api root deps role = .ok kept →
      KeepsOnePerName api (fullnameOf api root).toList deps kept) ∧
    ((∃ resolved, ResolvedAvroSchema.parse api root deps role = .ok resolved) ↔
      ∃ resolved, ResolvedAvroSchema.parse api root deps' role = .ok resolved) ∧
    ∀ resolved resolved', ResolvedAvroSchema.parse api root deps role = .ok resolved →
      ResolvedAvroSchema.parse api root deps' role = .ok resolved' →
      resolved'.root = resolved.root ∧ resolved'.schemata.Perm resolved.schemata := by
  refine ⟨⟨hsame.dedupe, hsame.symm.dedupe⟩, dedupeDependencies_iff,
    fun kept h => dedupeDependencies_keeps h, ⟨?_, ?_⟩, ?_⟩
  · rintro ⟨resolved, h⟩
    obtain ⟨resolved', h', -⟩ := hsame.parse htop hlist hlength' h
    exact ⟨resolved', h'⟩
  · rintro ⟨resolved, h⟩
    obtain ⟨resolved', h', -⟩ := hsame.symm.parse htop hlist hlength h
    exact ⟨resolved', h'⟩
  · intro resolved resolved' h h'
    obtain ⟨other, hother, hrest⟩ := hsame.parse htop hlist hlength' h
    obtain rfl := Except.ok.inj (h'.symm.trans hother)
    exact hrest

/-! ## One definition in two spellings -/

namespace Spelling

def hash : String := "\x7b\"type\":\"fixed\",\"name\":\"Hash\",\"size\":16\x7d"

def spaced : String := "\x7b \"name\": \"Hash\", \"type\": \"fixed\", \"size\": 16 \x7d"

def card : String := "\x7b\"type\":\"record\",\"name\":\"Card\"," ++
  "\"fields\":[\x7b\"name\":\"id\",\"type\":\"Hash\"\x7d]\x7d"

/-- A JSON value is given by its text without blanks. -/
def fromStr (text : String) : Except String String :=
  if text = hash ∨ text = spaced then .ok hash
  else if text = card then .ok card
  else .error "expected value"

def schemaOf (document : Except String String) : AvroSchema Unit :=
  if document.toOption = some hash then .fixed ⟨"Hash", none⟩ ()
  else .record ⟨"Card", none⟩ [.ref ⟨"Hash", none⟩] ()

/-- What the parsers do with the three texts. -/
def parsing : Api Unit String where
  fullyQualifiedName := qualifying.fullyQualifiedName
  fullname := qualifying.fullname
  parseStr _ := .error "Unknown primitive type: Hash"
  parseList texts :=
    if (texts.map fromStr).all fun document => document.toOption.isSome then
      .ok (texts.map fun text => schemaOf (fromStr text))
    else .error "invalid JSON"
  fromStr := fromStr
  get json key :=
    if key = "name" then some (if json = hash then "Hash" else "Card") else none
  asStr := some

theorem parsesAsSet_parsing : ParsesAsSet parsing := by
  intro texts parsed h
  refine ⟨schemaOf, fun texts' hperm => if_pos ?_⟩
  have hall : ((texts.map fromStr).all fun document => document.toOption.isSome) = true := by
    by_contra hnot
    have herror : parsing.parseList texts = .error "invalid JSON" := if_neg hnot
    cases herror.symm.trans h
  rw [← hall]
  exact hperm.all_eq

end Spelling

open Spelling in
/-- The two spellings are one definition. -/
theorem spelling_is_ignored : ∃ resolved resolved',
    ResolvedAvroSchema.parse parsing card [spaced, hash] .writerLocal = .ok resolved ∧
      ResolvedAvroSchema.parse parsing card [hash] .writerLocal = .ok resolved' ∧
      resolved'.root = resolved.root ∧ resolved'.schemata.Perm resolved.schemata := by
  have htop : QualifiesTopLevel parsing := qualifiesTopLevel_qualifying
  have hspaced : fromStr spaced = .ok hash := if_pos (.inr rfl)
  have hhash : fromStr hash = .ok hash := if_pos (.inl rfl)
  have hcopy : IsCopy parsing spaced hash :=
    ⟨hash, "Hash", hspaced, hhash, by decide +kernel⟩
  have hsame : SameDependencies parsing [spaced, hash] [hash] :=
    .copy (List.mem_singleton.mpr rfl) hcopy
  have hset := dependencies_are_a_set htop parsesAsSet_parsing card .writerLocal hsame
    (by decide) (by decide)
  have hfirst : ∃ resolved, ResolvedAvroSchema.parse parsing card [spaced, hash] .writerLocal =
    .ok resolved := ⟨_, rfl⟩
  obtain ⟨resolved, hresolved⟩ := hfirst
  obtain ⟨resolved', hresolved'⟩ := hset.2.2.2.1.mp ⟨resolved, hresolved⟩
  exact ⟨resolved, resolved', hresolved, hresolved', hset.2.2.2.2 _ _ hresolved hresolved'⟩

end Schemreg.Avro
