import Mathlib.Data.List.TakeWhile

/-
  Reading a query string as `application/x-www-form-urlencoded`.

  The reader splits at `&` and passes over empty pieces, splits each piece at its first `=`,
  reads `+` as a blank, and decodes both halves. Percent decoding is a parameter. Reading
  commutes with joining by `&` (`parse_append`), whatever is joined; the rest is about one
  name and what was written behind it (`parse_pair`).
-/

namespace FormUrlencoded

/-- A `+` stands for a blank. -/
def plusToBlank (b : UInt8) : UInt8 := if b = 0x2B then 0x20 else b

section

variable (decode : List UInt8 → List UInt8)

/-- A piece between two `&`, as a name and a value. -/
def pair (piece : List UInt8) : List UInt8 × List UInt8 :=
  (decode ((piece.takeWhile (· ≠ 0x3D)).map plusToBlank),
    decode (((piece.dropWhile (· ≠ 0x3D)).drop 1).map plusToBlank))

/-- The parameters of a query string, in order. -/
def parse (query : List UInt8) : List (List UInt8 × List UInt8) :=
  ((query.splitOnP (· = 0x26)).filter fun piece => !piece.isEmpty).map (pair decode)

end

variable {decode : List UInt8 → List UInt8} {name value : List UInt8}

theorem parse_append (xs ys : List UInt8) :
    parse decode (xs ++ 0x26 :: ys) = parse decode xs ++ parse decode ys := by
  unfold parse
  rw [List.splitOnP_append_cons _ _ (by decide), List.filter_append, List.map_append]

/-- A piece that is not empty is one parameter. -/
theorem parse_piece {piece : List UInt8} (hne : piece ≠ []) (h : 0x26 ∉ piece) :
    parse decode piece = [pair decode piece] := by
  have hsplit : piece.splitOnP (· = 0x26) = [piece] := by
    refine List.splitOnP_eq_singleton ?_
    intro b hb
    have hsep : b ≠ 0x26 := fun heq => h (heq ▸ hb)
    simpa using hsep
  unfold parse
  rw [hsplit]
  simp [hne]

theorem pair_eq (h : 0x3D ∉ name) : pair decode (name ++ 0x3D :: value) =
    (decode (name.map plusToBlank), decode (value.map plusToBlank)) := by
  have hall : ∀ b ∈ name, (decide (b ≠ 0x3D)) = true := by
    intro b hb
    have hne : b ≠ 0x3D := fun heq => h (heq ▸ hb)
    simpa using hne
  unfold pair
  rw [List.takeWhile_append_of_pos hall, List.dropWhile_append_of_pos hall]
  simp

/-- A name with a value: the value ends at its first `&`, and what follows is read on. -/
theorem parse_pair (decode : List UInt8 → List UInt8) (hname : 0x3D ∉ name)
    (hfree : 0x26 ∉ name) (value : List UInt8) : ∃ more, parse decode (name ++ 0x3D :: value) =
      (decode (name.map plusToBlank), decode ((value.takeWhile (· ≠ 0x26)).map plusToBlank)) ::
        more ∧ (0x26 ∉ value → more = []) := by
  have hpiece : ∀ before : List UInt8, 0x26 ∉ before → parse decode (name ++ 0x3D :: before) =
      [(decode (name.map plusToBlank), decode (before.map plusToBlank))] := by
    intro before hbefore
    rw [parse_piece (by simp) (by simp [hfree, hbefore]), pair_eq hname]
  have hend : 0x26 ∉ value.takeWhile (· ≠ 0x26) := by
    intro hmem
    exact absurd (List.mem_takeWhile_imp hmem) (by simp)
  have hvalue := List.takeWhile_append_dropWhile (p := fun b => decide (b ≠ 0x26)) (l := value)
  cases hrest : value.dropWhile (· ≠ 0x26) with
  | nil =>
    rw [hrest, List.append_nil] at hvalue
    rw [hvalue] at hend ⊢
    exact ⟨[], hpiece value hend, fun _ => rfl⟩
  | cons sep rest =>
    have hsep : sep = 0x26 := by
      have hhead := List.head?_dropWhile_not (fun b => decide (b ≠ 0x26)) value
      rw [hrest] at hhead
      simpa using hhead
    rw [hrest, hsep] at hvalue
    refine ⟨parse decode rest, ?_, ?_⟩
    · have hjoin : name ++ 0x3D :: value =
          (name ++ 0x3D :: value.takeWhile (· ≠ 0x26)) ++ 0x26 :: rest := by
        conv => lhs; rw [← hvalue]
        simp
      rw [hjoin, parse_append, hpiece _ hend]
      rfl
    · intro hno
      exact absurd (by rw [← hvalue]; simp) hno

end FormUrlencoded
