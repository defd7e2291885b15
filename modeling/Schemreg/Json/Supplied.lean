import Mathlib.Algebra.GroupWithZero.Nat
import Mathlib.Algebra.Order.BigOperators.Group.List
import Mathlib.Algebra.Order.Group.Nat
import Schemreg.Json.Dependencies

/-
  Which documents a `ReferenceSet` answers with.

  The lookup strips a URI to its final segment, and `insert` strips every declared name to its
  final segment as well, absolute or not. So a URI that nobody declared is answered whenever
  its file name is that of a declared name.

  Proved:
  * `supplied_only_iff`: every answer is a document that was declared for the URI exactly when
    the file name of each declared name is itself declared, as a relative name.
  * `undeclared_url_is_answered`: the law fails for one declared absolute URL.
-/

namespace Schemreg.Json

open Index

variable {Value : Type} [DecidableEq Value] {deps : List (String × Value)}
  {set : ReferenceSet Value} {u : String} {schema : Value}

/-- The document was declared for the URI: under the URI itself, or under a relative name that
    the URI ends in. -/
inductive SuppliedFor (deps : List (String × Value)) (u : String) (schema : Value) : Prop where
  | declared (mem : (u, schema) ∈ deps)
  | relative {n before : String} (mem : (n, schema) ∈ deps) (noScheme : hasScheme n = false)
      (ends : u = before ++ "/" ++ n)

/-- A URI is answered with the first declaration under it, or else with the first one under
    its final segment. -/
theorem lookup_eq_some (accepted : insertAll deps = .ok set) :
    set.lookup u = some schema ↔
      ∃ dep, dep.2 = schema ∧ (first (keys Prod.fst) deps u = some dep ∨
        first (keys Prod.fst) deps u = none ∧
          ∃ tail, lastSegment u = some tail ∧ first (keys Prod.fst) deps tail = some dep) := by
  have hset : Indexes Prod.fst (fun dep => .ok dep.2) deps set := load_indexes accepted
  have hlook : set.lookup u = some schema ↔
      resolution Prod.fst (fun dep => .ok dep.2) deps u = some (.ok schema) := by
    rw [← hset.lookup]
    simp
  rw [hlook]
  unfold resolution
  cases huri : first (keys Prod.fst) deps u with
  | some dep => simp
  | none =>
    cases htail : lastSegment u with
    | none => simp
    | some tail => simp [and_comm]

/-- The first declaration under a declared name has the document of that name. -/
theorem first_declared (accepted : insertAll deps = .ok set) {dep dep' : String × Value}
    (hmem : dep' ∈ deps) (hfirst : first (keys Prod.fst) deps dep'.1 = some dep) :
    dep'.2 = dep.2 := by
  obtain ⟨-, -, hagreed⟩ := load_ok_iff.mp
    (show ∃ set, load Prod.fst (fun dep => .ok dep.2) deps = .ok set from ⟨set, accepted⟩)
  have hown := hagreed dep' hmem
  rw [hfirst] at hown
  have hdoc : dep.2 = dep'.2 := by simpa using hown
  exact hdoc.symm

theorem fileName_of_mem_keysOf {k n : String} (hk : k ∈ keysOf n) (hfree : '/' ∉ k.toList) :
    fileName n = k := by
  unfold fileName
  rcases mem_keysOf.mp hk with htail | rfl
  · rw [htail]
    rfl
  · rcases split_last k with ⟨-, hnone⟩ | ⟨before, tail, -, rfl, -⟩
    · rw [hnone]
      rfl
    · exact absurd (by simp [String.toList_append]) hfree

theorem slash_not_mem_fileName (n : String) : '/' ∉ (fileName n).toList := by
  unfold fileName
  rcases split_last n with ⟨hfree, hnone⟩ | ⟨-, tail, hfree, -, hsome⟩
  · rw [hnone]
    exact hfree
  · rw [hsome]
    exact hfree

/-! ## A URI that nobody declared -/

/-- A URI that ends in the file name `f`, longer than every declared name. -/
def strangerUri (deps : List (String × Value)) (f : String) : String :=
  String.ofList ('x' :: List.replicate (deps.map fun dep => dep.1.length).sum 'x') ++ ":" ++ "/" ++ f

omit [DecidableEq Value] in
theorem toList_strangerUri (f : String) : (strangerUri deps f).toList =
    'x' :: (List.replicate (deps.map fun dep => dep.1.length).sum 'x' ++
      ':' :: '/' :: f.toList) := by
  simp [strangerUri, String.toList_append]

omit [DecidableEq Value] in
theorem hasScheme_strangerUri (f : String) : hasScheme (strangerUri deps f) = true := by
  have hall : ∀ c ∈ List.replicate (deps.map fun dep => dep.1.length).sum 'x',
      (decide (c.isAlphanum = true ∨ c ∈ ['+', '-', '.'])) = true := by
    intro c hc
    rw [(List.mem_replicate.mp hc).2]
    decide
  unfold hasScheme
  rw [toList_strangerUri]
  simp only [Bool.and_eq_true]
  refine ⟨by decide, ?_⟩
  simp only [Bool.decide_or, Bool.decide_eq_true] at hall
  rw [List.dropWhile_append_of_pos hall]
  rfl

omit [DecidableEq Value] in
theorem strangerUri_undeclared (f : String) : ∀ dep ∈ deps, dep.1 ≠ strangerUri deps f := by
  intro dep hdep heq
  have hlong : (deps.map fun dep => dep.1.length).sum < (strangerUri deps f).length := by
    rw [← String.length_toList, toList_strangerUri, List.length_cons, List.length_append,
      List.length_replicate]
    omega
  have hle : dep.1.length ≤ (deps.map fun dep => dep.1.length).sum :=
    List.le_sum_of_mem (List.mem_map.mpr ⟨dep, hdep, rfl⟩)
  rw [heq] at hle
  omega

omit [DecidableEq Value] in
/-- It ends in no other name. -/
theorem strangerUri_ends {f n before : String} (hfree : '/' ∉ f.toList)
    (h : strangerUri deps f = before ++ "/" ++ n) : n = f := by
  have hscheme : '/' ∉
      'x' :: (List.replicate (deps.map fun dep => dep.1.length).sum 'x' ++ [':']) := by
    simp
  have hlist := congrArg String.toList h
  have hleft : (strangerUri deps f).toList =
      ('x' :: (List.replicate (deps.map fun dep => dep.1.length).sum 'x' ++ [':'])) ++
        '/' :: f.toList := by
    simp [strangerUri, String.toList_append]
  have hright : (before ++ "/" ++ n).toList = before.toList ++ '/' :: n.toList := by
    simp [String.toList_append]
  rw [hleft, hright] at hlist
  rw [← String.toList_inj]
  -- the slash of the URI is the only one
  rcases List.append_eq_append_iff.mp hlist with ⟨mid, hbefore, hrest⟩ | ⟨mid, hbefore, hrest⟩
  · cases mid with
    | nil => simpa using hrest.symm
    | cons c mid =>
      have hmem : '/' ∈ f.toList := by
        have htail : f.toList = mid ++ '/' :: n.toList := (List.cons.inj hrest).2
        rw [htail]
        simp
      exact absurd hmem hfree
  · cases mid with
    | nil => simpa using hrest
    | cons c mid =>
      have hc : '/' = c := (List.cons.inj hrest).1
      rw [hbefore, hc] at hscheme
      exact absurd (by simp) hscheme

/-! ## When every answer was supplied -/

/-- A URI that nobody declared, with the file name of a declared name, is answered. -/
theorem relative_of_supplied (accepted : insertAll deps = .ok set)
    (hlaw : ∀ u schema, hasScheme u = true → set.lookup u = some schema →
      SuppliedFor deps u schema) {dep : String × Value} (hdep : dep ∈ deps) :
    ∃ dep' ∈ deps, dep'.1 = fileName dep.1 ∧ hasScheme dep'.1 = false := by
  have hslash : '/' ∈ (strangerUri deps (fileName dep.1)).toList := by
    simp [strangerUri, String.toList_append]
  have hundeclared : first (keys Prod.fst) deps (strangerUri deps (fileName dep.1)) = none := by
    rw [first_eq_none_iff]
    intro other hother hkey
    exact strangerUri_undeclared _ other hother ((mem_keysOf_of_slash hslash).mp hkey).symm
  have hkey : fileName dep.1 ∈ keys Prod.fst dep := fileName_mem_keysOf dep.1
  obtain ⟨y, hfirst, -⟩ := exists_first hdep hkey
  have hanswer : set.lookup (strangerUri deps (fileName dep.1)) = some y.2 :=
    (lookup_eq_some accepted).mpr ⟨y, rfl, Or.inr ⟨hundeclared, fileName dep.1,
      lastSegment_append (slash_not_mem_fileName dep.1), hfirst⟩⟩
  cases hlaw _ _ (hasScheme_strangerUri _) hanswer with
  | declared mem => exact absurd rfl (strangerUri_undeclared _ _ mem)
  | relative mem noScheme ends =>
    have hname := strangerUri_ends (slash_not_mem_fileName dep.1) ends
    exact ⟨_, mem, hname, noScheme⟩

/-- Whatever is answered was declared, when every file name is. -/
theorem supplied_of_relative (accepted : insertAll deps = .ok set)
    (hcond : ∀ dep ∈ deps, ∃ dep' ∈ deps, dep'.1 = fileName dep.1 ∧ hasScheme dep'.1 = false)
    (hanswer : set.lookup u = some schema) : SuppliedFor deps u schema := by
  obtain ⟨y, rfl, hfirst | ⟨-, tail, htail, hfirst⟩⟩ := (lookup_eq_some accepted).mp hanswer
  · -- under the URI itself
    obtain ⟨hy, hkey⟩ := first_eq_some hfirst
    rcases mem_keysOf.mp hkey with hsegment | rfl
    · obtain ⟨dep', hdep', hname, -⟩ := hcond y hy
      have hu : fileName y.1 = u := fileName_of_mem_keysOf hkey (slash_not_mem_tail hsegment)
      rw [hu] at hname
      subst hname
      rw [← first_declared accepted hdep' hfirst]
      exact .declared hdep'
    · exact .declared hy
  · -- under the URI's final segment
    obtain ⟨hy, hkey⟩ := first_eq_some hfirst
    obtain ⟨dep', hdep', hname, hrelative⟩ := hcond y hy
    have hn : fileName y.1 = tail := fileName_of_mem_keysOf hkey (slash_not_mem_tail htail)
    rw [hn] at hname
    subst hname
    rcases split_last u with ⟨-, hnone⟩ | ⟨before, tail', -, hsplit, hsome⟩
    · rw [hnone] at htail
      cases htail
    · rw [hsome] at htail
      cases htail
      rw [← first_declared accepted hdep' hfirst]
      exact .relative hdep' hrelative hsplit

/-- When every answer is a document that was declared for the URI, over the URIs and over all
    strings. -/
theorem supplied_only_iff (accepted : insertAll deps = .ok set) :
    ((∀ u schema, hasScheme u = true → set.lookup u = some schema → SuppliedFor deps u schema) ↔
      ∀ dep ∈ deps, ∃ dep' ∈ deps, dep'.1 = fileName dep.1 ∧ hasScheme dep'.1 = false) ∧
    ((∀ u schema, set.lookup u = some schema → SuppliedFor deps u schema) ↔
      ∀ dep ∈ deps, ∃ dep' ∈ deps, dep'.1 = fileName dep.1 ∧ hasScheme dep'.1 = false) := by
  refine ⟨⟨?_, ?_⟩, ⟨?_, ?_⟩⟩
  · exact fun hlaw dep hdep => relative_of_supplied accepted hlaw hdep
  · exact fun hcond u schema _ => supplied_of_relative accepted hcond
  · exact fun hlaw dep hdep =>
      relative_of_supplied accepted (fun u schema _ => hlaw u schema) hdep
  · exact fun hcond u schema => supplied_of_relative accepted hcond

/-- An absolute URL that is declared beside its file name. -/
theorem file_name_beside_url : ∃ set,
    insertAll [("address.json", 1), ("https://example.com/address.json", 1)] = .ok set ∧
    ∀ u schema, hasScheme u = true → set.lookup u = some schema →
      SuppliedFor [("address.json", 1), ("https://example.com/address.json", 1)] u schema := by
  obtain ⟨set, hset⟩ : ∃ set, insertAll [("address.json", 1),
    ("https://example.com/address.json", 1)] = .ok set := ⟨_, rfl⟩
  exact ⟨set, hset, (supplied_only_iff hset).1.mpr (by decide +kernel)⟩

/-- A URL that nobody declared is answered with the document of another URL. -/
theorem undeclared_url_is_answered :
    ¬ ∀ (deps : List (String × Nat)) (set : ReferenceSet Nat), insertAll deps = .ok set →
      ∀ u schema, hasScheme u = true → set.lookup u = some schema →
        SuppliedFor deps u schema := by
  intro h
  obtain ⟨set, hset, hlook⟩ : ∃ set, insertAll [("https://example.com/address.json", 1)] = .ok set ∧
      set.lookup "https://attacker.example/address.json" = some 1 := ⟨_, rfl, by decide +kernel⟩
  cases h _ set hset _ 1 (by decide +kernel) hlook with
  | declared mem =>
    have hne : ("https://attacker.example/address.json", 1) ≠
        ("https://example.com/address.json", 1) := by decide +kernel
    exact hne (List.mem_singleton.mp mem)
  | relative mem noScheme ends =>
    have hn := congrArg Prod.fst (List.mem_singleton.mp mem)
    subst hn
    exact absurd noScheme (by decide +kernel)

end Schemreg.Json
