import Schemreg.Wire.MessageIndexes

/-
  The numbers of a message-index array, as mathematical numbers.

  `Sound b idx n`: the first `n` bytes of `b` split into varints whose values, without any
  bound, are the ZigZag forms of the count and of the path. The decoder's answer is sound
  exactly when none of the varints that it read has a tenth byte above 1 (`sound_iff`);
  otherwise it answers for the value modulo 2^64 (`wide_varint_is_reduced`).
-/

namespace Schemreg.Wire

open Checked Leb128

variable {b g : Bytes} {idx : List UInt32} {n : Nat}

/-- The first `n` bytes of `b` are varints whose values are twice the length of the path and
    twice each of its segments, or the single value 0 for the path `[0]`. -/
def Sound (b : Bytes) (idx : List UInt32) (n : Nat) : Prop :=
  n ≤ b.length ∧ ∃ gs : List Bytes, (∀ g ∈ gs, Varint g) ∧ b.take n = gs.flatten ∧
    (gs.map value = (2 * idx.length) :: idx.map (fun i => 2 * i.toNat) ∨
      (idx = [0] ∧ gs.map value = [0]))

/-- No varint that the decoder reads from `b` has a tenth byte above 1: neither the first,
    nor any of those that it announces. -/
def Fits (b : Bytes) : Prop :=
  ∃ g rest, split b = some (g, rest) ∧ ¬ WideTenth g ∧
    ∀ gs rest', splitN (value g / 2) rest = some (gs, rest') → ∀ g' ∈ gs, ¬ WideTenth g'

theorem Reads.value_eq {m : UInt32} (h : Reads g m) (hfits : ¬ WideTenth g) :
    value g = 2 * m.toNat := by
  rw [← h.2.2, raw_of_lt ((value_lt_word_iff h.1 h.2.1).mpr hfits)]

theorem map_value_of_reads {gs : List Bytes} {segs : List UInt32}
    (h : List.Forall₂ Reads gs segs) (hfits : ∀ g ∈ gs, ¬ WideTenth g) :
    gs.map value = segs.map fun i => 2 * i.toNat := by
  induction h with
  | nil => rfl
  | cons hread _ ih =>
    obtain ⟨hg, hgs⟩ := List.forall_mem_cons.mp hfits
    rw [List.map_cons, List.map_cons, hread.value_eq hg, ih hgs]

theorem varints_of_reads {gs : List Bytes} {segs : List UInt32}
    (h : List.Forall₂ Reads gs segs) : ∀ g ∈ gs, Varint g ∧ g.length ≤ maxGroups := by
  induction h with
  | nil => simp
  | cons hread _ ih => exact List.forall_mem_cons.mpr ⟨⟨hread.1, hread.2.1⟩, ih⟩

/-- The groups that the decoder has read when it succeeds. -/
structure ReadGroups (b : Bytes) (idx : List UInt32) (n : Nat) (g : Bytes) (gs : List Bytes)
    (count : UInt32) : Prop where
  first : Reads g count
  varints : ∀ g' ∈ gs, Varint g' ∧ g'.length ≤ maxGroups
  data : ∃ rest, b = g ++ (gs.flatten ++ rest)
  consumed : n = (g :: gs).flatten.length
  number : gs.length = count.toNat
  path : (gs = [] ∧ idx = [0]) ∨ (gs ≠ [] ∧ List.Forall₂ Reads gs idx)

theorem readGroups_of_ok (h : decodeProtobufMessageIndexes b = .ok (idx, n)) :
    ∃ g gs count, ReadGroups b idx n g gs count := by
  obtain ⟨g, rest, m, rfl, hread, hcases⟩ := decodeIndexes_eq_ok.mp h
  rcases hcases with ⟨rfl, rfl, rfl⟩ | ⟨hne, -, gs, rest', hreads, hlen, rfl, rfl⟩
  · exact ⟨g, [], 0, hread, by simp, ⟨rest, rfl⟩, by simp, rfl, Or.inl ⟨rfl, rfl⟩⟩
  · have hnumber : gs.length = m.toNat := hreads.length_eq.trans hlen
    have hgs : gs ≠ [] := by
      rintro rfl
      exact hne (UInt32.toNat_inj.mp hnumber.symm)
    exact ⟨g, gs, m, hread, varints_of_reads hreads, ⟨rest', rfl⟩, by simp, hnumber,
      Or.inr ⟨hgs, hreads⟩⟩

theorem ReadGroups.fits_iff {gs : List Bytes} {count : UInt32}
    (h : ReadGroups b idx n g gs count) : Fits b ↔ ∀ g' ∈ g :: gs, ¬ WideTenth g' := by
  obtain ⟨rest, rfl⟩ := h.data
  have hsplit := split_append h.first.1 (gs.flatten ++ rest)
  have hgs : ¬ WideTenth g → splitN (value g / 2) (gs.flatten ++ rest) = some (gs, rest) := by
    intro hfits
    rw [h.first.value_eq hfits, splitN_iff]
    exact ⟨by rw [h.number]; omega, fun g' hg' => (h.varints g' hg').1, rfl⟩
  constructor
  · rintro ⟨g', rest', hsplit', hg, hall⟩
    rw [hsplit] at hsplit'
    cases hsplit'
    exact List.forall_mem_cons.mpr ⟨hg, hall gs rest (hgs hg)⟩
  · intro hall
    obtain ⟨hg, hrest⟩ := List.forall_mem_cons.mp hall
    refine ⟨g, _, hsplit, hg, fun gs' rest' hsplit' => ?_⟩
    rw [hgs hg] at hsplit'
    cases hsplit'
    exact hrest

/-- When a message-index array that is accepted stands for the numbers that are returned. -/
theorem sound_iff (h : decodeProtobufMessageIndexes b = .ok (idx, n)) : Sound b idx n ↔ Fits b := by
  obtain ⟨g, gs, count, hread⟩ := readGroups_of_ok h
  obtain ⟨hn, -, hmax⟩ := decodeIndexes_bounds h
  rw [hread.fits_iff]
  obtain ⟨rest, hb⟩ := hread.data
  have htake : b.take n = (g :: gs).flatten := by
    rw [hread.consumed, hb, ← List.append_assoc, List.flatten_cons, List.take_left]
  have hvarints : ∀ g' ∈ g :: gs, Varint g' :=
    List.forall_mem_cons.mpr ⟨hread.first.1, fun g' hg' => (hread.varints g' hg').1⟩
  have hshort : ∀ g' ∈ g :: gs, g'.length ≤ maxGroups :=
    List.forall_mem_cons.mpr ⟨hread.first.2.1, fun g' hg' => (hread.varints g' hg').2⟩
  constructor
  · rintro ⟨-, gs', hgs', htake', hvalues⟩
    have hsame : gs' = g :: gs := flatten_inj hgs' hvarints (htake'.symm.trans htake)
    subst hsame
    -- every value is the double of a small number, so it fits
    have hsmall : ∀ v ∈ (g :: gs).map value, v < 2 ^ 64 := by
      intro v hv
      rcases hvalues with hvalues | ⟨-, hvalues⟩
      · rw [hvalues, List.mem_cons, List.mem_map] at hv
        rcases hv with rfl | ⟨i, -, rfl⟩
        · omega
        · have := i.toNat_lt
          omega
      · rw [hvalues, List.mem_singleton] at hv
        omega
    intro g' hg'
    rw [← value_lt_word_iff (hvarints g' hg') (hshort g' hg')]
    exact hsmall _ (List.mem_map_of_mem hg')
  · intro hfits
    obtain ⟨hg, hgs⟩ := List.forall_mem_cons.mp hfits
    refine ⟨hn, g :: gs, hvarints, htake, ?_⟩
    rcases hread.path with ⟨rfl, rfl⟩ | ⟨hne, hreads⟩
    · refine Or.inr ⟨rfl, ?_⟩
      have hzero : count.toNat = 0 := hread.number.symm
      rw [List.map_cons, List.map_nil, hread.first.value_eq hg, hzero]
    · refine Or.inl ?_
      rw [List.map_cons, hread.first.value_eq hg, map_value_of_reads hreads hgs,
        ← hread.number, hreads.length_eq]

/-- The path `[0, 1]` and three bytes of payload. -/
theorem nested_path_is_sound : Sound [0x04, 0x00, 0x02, 0x0A, 0x0B, 0x0C] [0, 1] 3 := by
  have hok : decodeProtobufMessageIndexes [0x04, 0x00, 0x02, 0x0A, 0x0B, 0x0C] = .ok ([0, 1], 3) := by
    decide +kernel
  refine (sound_iff hok).mpr ⟨[0x04], [0x00, 0x02, 0x0A, 0x0B, 0x0C], by decide +kernel, ?_, ?_⟩
  · rintro ⟨init, last, heq, hnine, -⟩
    have := congrArg List.length heq
    rw [List.length_append, hnine] at this
    cases this
  · intro gs rest' hsplit g' hg'
    have hgs : splitN (value [0x04] / 2) [0x00, 0x02, 0x0A, 0x0B, 0x0C] =
        some ([[0x00], [0x02]], [0x0A, 0x0B, 0x0C]) := by decide +kernel
    rw [hgs] at hsplit
    cases hsplit
    rintro ⟨init, last, rfl, hnine, -⟩
    have hlen : (init ++ [last]).length = 1 := by
      rcases List.mem_cons.mp hg' with heq | hg'
      · rw [heq]
        rfl
      · rw [List.mem_singleton.mp hg']
        rfl
    rw [List.length_append, hnine] at hlen
    cases hlen

/-- Nine bytes `0x80` and a byte `0x02` stand for 2^64; the decoder takes them for 0. -/
theorem wide_varint_is_reduced :
    ¬ ∀ (b : Bytes) (idx : List UInt32) (n : Nat),
      decodeProtobufMessageIndexes b = .ok (idx, n) → Sound b idx n := by
  intro h
  have hok : decodeProtobufMessageIndexes (List.replicate 9 0x80 ++ [0x02]) = .ok ([0], 10) := by
    decide +kernel
  obtain ⟨-, gs, hgs, htake, hvalues⟩ := h _ [0] 10 hok
  have hsplit : split (List.replicate 9 0x80 ++ [0x02]) =
      some (List.replicate 9 0x80 ++ [0x02], []) := by decide +kernel
  have hvarint := (split_eq_some hsplit).2
  have hone : gs = [List.replicate 9 0x80 ++ [0x02]] := by
    refine flatten_inj hgs (by simpa using hvarint) ?_
    rw [← htake]
    rfl
  subst hone
  revert hvalues
  decide +kernel

end Schemreg.Wire
