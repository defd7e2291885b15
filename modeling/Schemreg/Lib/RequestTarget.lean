import Mathlib.Data.List.TakeWhile

/-
  The target of a request: a path and a query.

  A client asks for the part of a URL between its authority and its fragment (`ofUrl`). The path
  is cut into segments before anything is decoded, and dot segments are resolved afterwards. A
  target that was joined from segments without separators reads back as these (`split_join`,
  `split_join_query`), also behind a scheme and an authority (`ofUrl_append`), and dot segments
  that are not there change nothing (`resolveDots_of_none`).
-/

namespace RequestTarget

/-- A path of some segments. -/
def join (segments : List (List Char)) : List Char := segments.flatMap fun segment => '/' :: segment

/-- The segments of the path, the first of them in front of the first slash, and the query. -/
def split (target : List Char) : List (List Char) × List Char :=
  ((target.takeWhile (· ≠ '?')).splitOn '/', (target.dropWhile (· ≠ '?')).drop 1)

/-- A query behind its path. -/
def mark (query : List Char) : List Char := if query = [] then [] else '?' :: query

/-- The parameters of a query, as they stand there. -/
def params (query : List Char) : List (List Char × List Char) :=
  ((query.splitOn '&').filter (· ≠ [])).map fun piece =>
    (piece.takeWhile (· ≠ '='), (piece.dropWhile (· ≠ '=')).drop 1)

/-- What ends an authority or a segment. A backslash counts as a slash. -/
def delimiters : List Char := ['/', '\\', '?', '#']

/-- A character of an authority or a segment that stands for itself in a URL. -/
def Plain (c : Char) : Prop := c ∉ delimiters ∧ 0x20 < c.toNat ∧ c.toNat < 0x7F

instance : DecidablePred Plain := fun c =>
  inferInstanceAs (Decidable (c ∉ delimiters ∧ 0x20 < c.toNat ∧ c.toNat < 0x7F))

/-- What is asked for: all that stands behind the scheme and the authority, up to the fragment. -/
def ofUrl (url : List Char) : List Char :=
  (((url.dropWhile (· ≠ ':')).drop 3).dropWhile fun c => c ∉ delimiters).takeWhile (· ≠ '#')

variable {segments : List (List Char)}

theorem nil_join_eq_intercalate : ∀ segments : List (List Char),
    join segments = ['/'].intercalate ([] :: segments)
  | [] => rfl
  | segment :: segments => by
      have ih := nil_join_eq_intercalate segments
      rw [List.intercalate_cons_cons, List.nil_append]
      cases segments with
      | nil => rw [join, List.flatMap_singleton, List.intercalate_singleton]; rfl
      | cons next rest =>
        rw [List.intercalate_cons_cons]
        rw [List.intercalate_cons_cons, List.nil_append] at ih
        show '/' :: (segment ++ join (next :: rest)) = _
        rw [ih, ← List.append_assoc]
        rfl

theorem splitOn_join (plain : ∀ segment ∈ segments, ∀ c ∈ segment, Plain c) :
    (join segments).splitOn '/' = [] :: segments := by
  rw [nil_join_eq_intercalate]
  refine List.splitOn_intercalate '/' ?_ (List.cons_ne_nil _ _)
  intro segment hmem hslash
  rcases List.mem_cons.mp hmem with rfl | hmem
  · cases hslash
  · exact (plain segment hmem '/' hslash).1 (by decide)

theorem join_ne (plain : ∀ segment ∈ segments, ∀ c ∈ segment, Plain c) {d : Char}
    (hd : d ∈ ['?', '#']) : ∀ c ∈ join segments, decide (c ≠ d) = true := by
  intro c hc
  have hsubset : ['?', '#'] ⊆ delimiters := by decide
  obtain ⟨segment, hsegment, hc⟩ := List.mem_flatMap.mp hc
  refine decide_eq_true ?_
  rintro rfl
  rcases List.mem_cons.mp hc with rfl | hc
  · exact absurd hd (by decide)
  · exact (plain segment hsegment c hc).1 (hsubset hd)

/-- A path reads back as its segments. -/
theorem split_join (plain : ∀ segment ∈ segments, ∀ c ∈ segment, Plain c) :
    split (join segments) = ([] :: segments, []) := by
  have hpath := join_ne plain (d := '?') (by decide)
  unfold split
  rw [List.takeWhile_eq_self_iff.mpr hpath, List.dropWhile_eq_nil_iff.mpr hpath,
    splitOn_join plain]
  rfl

/-- So does a path with a query behind it, whatever the query is. -/
theorem split_join_query (plain : ∀ segment ∈ segments, ∀ c ∈ segment, Plain c)
    (query : List Char) :
    split (join segments ++ mark query) = ([] :: segments, query) := by
  have hpath := join_ne plain (d := '?') (by decide)
  unfold mark
  split
  · rename_i hquery
    rw [List.append_nil, split_join plain, hquery]
  · unfold split
    rw [List.takeWhile_append_of_pos hpath, List.dropWhile_append_of_pos hpath,
      List.takeWhile_cons_of_neg (by decide), List.dropWhile_cons_of_neg (by decide),
      List.append_nil, splitOn_join plain]
    rfl

/-- A path and a query have no fragment. -/
theorem target_ne (plain : ∀ segment ∈ segments, ∀ c ∈ segment, Plain c) {query : List Char}
    (hquery : '#' ∉ query) : ∀ c ∈ join segments ++ mark query, decide (c ≠ '#') = true := by
  intro c hc
  rcases List.mem_append.mp hc with hc | hc
  · exact join_ne plain (by decide) c hc
  · unfold mark at hc
    split at hc
    · cases hc
    · refine decide_eq_true ?_
      rintro rfl
      rcases List.mem_cons.mp hc with h | h
      · exact absurd h (by decide)
      · exact hquery h

/-- A target begins where the authority ends. -/
theorem dropWhile_target {authority : List Char} (hauthority : ∀ c ∈ authority, Plain c)
    (query : List Char) :
    (authority ++ (join segments ++ mark query)).dropWhile (fun c => c ∉ delimiters) =
      join segments ++ mark query := by
  have hfree : ∀ c ∈ authority, decide (c ∉ delimiters) = true :=
    fun c hc => decide_eq_true (hauthority c hc).1
  rw [List.dropWhile_append_of_pos hfree]
  cases segments with
  | cons segment segments => rfl
  | nil =>
    unfold mark
    split <;> rfl

/-- A client asks for the target, whatever scheme and authority stand in front of it. -/
theorem ofUrl_append {scheme authority query : List Char} (hscheme : ':' ∉ scheme)
    (hauthority : ∀ c ∈ authority, Plain c)
    (plain : ∀ segment ∈ segments, ∀ c ∈ segment, Plain c) (hquery : '#' ∉ query) :
    ofUrl (scheme ++ (':' :: '/' :: '/' :: (authority ++ (join segments ++ mark query)))) =
      join segments ++ mark query := by
  have hfree : ∀ c ∈ scheme, decide (c ≠ ':') = true := by
    intro c hc
    refine decide_eq_true ?_
    rintro rfl
    exact hscheme hc
  unfold ofUrl
  rw [List.dropWhile_append_of_pos hfree, List.dropWhile_cons_of_neg (by decide)]
  show ((authority ++ _).dropWhile _).takeWhile _ = _
  rw [dropWhile_target hauthority,
    List.takeWhile_eq_self_iff.mpr (target_ne plain hquery)]

/-! ## Dot segments -/

variable {α : Type} [DecidableEq α] {dot dotDot : α}

/-- `.` names the same place, and `..` the one above. -/
def resolveDots (dot dotDot : α) : List α → List α → List α
  | out, [] => out
  | out, segment :: rest =>
      if segment = dot then resolveDots dot dotDot out rest
      else if segment = dotDot then resolveDots dot dotDot out.dropLast rest
      else resolveDots dot dotDot (out ++ [segment]) rest

theorem resolveDots_of_none : ∀ {segments out : List α},
    (∀ segment ∈ segments, segment ≠ dot ∧ segment ≠ dotDot) →
    resolveDots dot dotDot out segments = out ++ segments
  | [], out, _ => (List.append_nil out).symm
  | segment :: rest, out, h => by
      obtain ⟨hdot, hdotDot⟩ := h segment List.mem_cons_self
      rw [resolveDots, if_neg hdot, if_neg hdotDot,
        resolveDots_of_none fun s hs => h s (List.mem_cons_of_mem _ hs), List.append_assoc]
      rfl

end RequestTarget
