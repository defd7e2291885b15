import Mathlib.Data.List.Forall2
import Schemreg.Wire.Varint

/-
  What `decode_protobuf_message_indexes` reads.

  `Reads g n`: the decoder takes the group of bytes `g` for the number `n`, a varint of up to
  ten bytes whose `u64` is the ZigZag form of `n`. The decoder succeeds exactly on a group
  for the count, followed by a group for each segment of the path
  (`decodeIndexes_eq_ok`), and it panics exactly where one of the groups that it comes to
  is the extreme one (`decodeIndexes_safe`).
-/

namespace Schemreg.Wire

open Checked Leb128

/-- The decoder takes the group `g` for the number `n`. -/
def Reads (g : Bytes) (n : UInt32) : Prop :=
  Varint g ∧ g.length ≤ maxGroups ∧ (raw g).toNat = 2 * n.toNat

variable {data g rest : Bytes} {gs : List Bytes} {offset count n : Nat} {acc idx : List UInt32}

theorem Reads.zigzag {m : UInt32} (h : Reads g m) : zigzagDecodeU32 (raw g) = .ok m :=
  zigzagDecode_eq_ok.mpr h.2.2

/-! ## The segments -/

theorem drop_group (hdrop : data.drop offset = g ++ rest) :
    data.drop (offset + g.length) = rest := by
  rw [← List.drop_drop, hdrop, List.drop_left]

theorem add_length_le (hoffset : offset ≤ data.length) (hdrop : data.drop offset = g ++ rest) :
    offset + g.length ≤ data.length := by
  have := congrArg List.length hdrop
  rw [List.length_drop, List.length_append] at this
  omega

/-- One segment of the loop. -/
theorem readIndexes_succ (hoffset : offset ≤ data.length) (hdrop : data.drop offset = g ++ rest)
    (hg : Varint g) (hlen : g.length ≤ maxGroups) :
    readIndexes data (count + 1) offset acc = (zigzagDecodeU32 (raw g) >>= fun segment =>
      readIndexes data count (offset + g.length) (acc ++ [segment])) := by
  have hread := readVarint_varint hoffset hdrop hg
  rw [if_pos hlen] at hread
  rw [readIndexes, hread, Outcome.bind_ok]
  dsimp only
  rw [advance_of_le (add_length_le hoffset hdrop), Outcome.bind_ok]

/-- The loop reads one group for each segment. -/
theorem readIndexes_eq_ok (hoffset : offset ≤ data.length) :
    readIndexes data count offset acc = .ok (idx, n) ↔
      ∃ gs segs rest, List.Forall₂ Reads gs segs ∧ segs.length = count ∧
        data.drop offset = gs.flatten ++ rest ∧ idx = acc ++ segs ∧
        n = offset + gs.flatten.length := by
  induction count generalizing offset acc with
  | zero =>
    unfold readIndexes
    constructor
    · intro h
      cases h
      exact ⟨[], [], _, List.Forall₂.nil, rfl, rfl, by simp, by simp⟩
    · rintro ⟨gs, segs, rest, hreads, hlen, -, rfl, rfl⟩
      rw [List.length_eq_zero_iff.mp hlen] at hreads ⊢
      cases hreads
      simp
  | succ count ih =>
    constructor
    · intro hok
      obtain ⟨⟨result, c⟩, hread, -⟩ := Outcome.bind_eq_ok.mp hok
      obtain ⟨g, rest, hdrop, hg, hlen, -, -⟩ := (readVarint_eq_ok hoffset).mp hread
      rw [readIndexes_succ hoffset hdrop hg hlen] at hok
      obtain ⟨segment, hseg, hrest⟩ := Outcome.bind_eq_ok.mp hok
      obtain ⟨gs, segs, rest', hreads, hcount, hdata, rfl, rfl⟩ :=
        (ih (add_length_le hoffset hdrop)).mp hrest
      rw [drop_group hdrop] at hdata
      refine ⟨g :: gs, segment :: segs, rest',
        List.Forall₂.cons ⟨hg, hlen, zigzagDecode_eq_ok.mp hseg⟩ hreads, by simp [hcount], ?_,
        by simp, ?_⟩
      · rw [hdrop, hdata]
        simp
      · rw [List.flatten_cons, List.length_append]
        omega
    · rintro ⟨gs, segs, rest, hreads, hcount, hdrop, rfl, rfl⟩
      cases hreads with
      | nil => cases hcount
      | @cons g segment gs segs hread hreads =>
        rw [List.flatten_cons, List.append_assoc] at hdrop
        rw [readIndexes_succ hoffset hdrop hread.1 hread.2.1, hread.zigzag, Outcome.bind_ok,
          ih (add_length_le hoffset hdrop)]
        refine ⟨gs, segs, rest, hreads, Nat.succ.inj hcount, drop_group hdrop, by simp, ?_⟩
        rw [List.flatten_cons, List.length_append]
        omega

/-! ## The whole array -/

/-- What follows the count in `decode_protobuf_message_indexes`. -/
def afterCount (data : Bytes) (count : UInt32) (consumed : Nat) : Decoding (List UInt32 × Nat) :=
  if count = 0 then .ok ([0], consumed)
  else if count > maxMessageIndexCount then
    .err (.wireFormat ("Protobuf message-index count " ++ toString count ++
      " exceeds the maximum of " ++ toString maxMessageIndexCount))
  else readIndexes data count.toNat consumed []

theorem decodeIndexes_group (hdata : data = g ++ rest) (hg : Varint g)
    (hlen : g.length ≤ maxGroups) :
    decodeProtobufMessageIndexes data =
      (zigzagDecodeU32 (raw g) >>= fun count => afterCount data count g.length) := by
  have hread := readVarint_varint (Nat.zero_le data.length) hdata hg
  rw [if_pos hlen] at hread
  unfold decodeProtobufMessageIndexes
  rw [hread, Outcome.bind_ok]
  rfl

/-- The path that a count and its segments stand for: no segments are the path `[0]`. -/
theorem afterCount_eq_ok (hdata : data = g ++ rest) {m : UInt32} :
    afterCount data m g.length = .ok (idx, n) ↔
      (m = 0 ∧ idx = [0] ∧ n = g.length) ∨
      (m ≠ 0 ∧ m.toNat ≤ 512 ∧ ∃ gs rest', List.Forall₂ Reads gs idx ∧ idx.length = m.toNat ∧
        rest = gs.flatten ++ rest' ∧ n = g.length + gs.flatten.length) := by
  have hdrop : data.drop g.length = rest := by rw [hdata, List.drop_left]
  have hoffset : g.length ≤ data.length := by
    rw [hdata, List.length_append]
    omega
  have hmax : maxMessageIndexCount.toNat = 512 := rfl
  unfold afterCount
  by_cases hzero : m = 0
  · rw [if_pos hzero]
    constructor
    · intro h
      cases h
      exact Or.inl ⟨hzero, rfl, rfl⟩
    · rintro (⟨-, rfl, rfl⟩ | ⟨hne, -⟩)
      · rfl
      · exact absurd hzero hne
  · rw [if_neg hzero]
    by_cases hbig : m > maxMessageIndexCount
    · rw [if_pos hbig]
      have hlarge : 512 < m.toNat := by
        rw [← hmax]
        exact UInt32.lt_iff_toNat_lt.mp hbig
      constructor
      · intro h
        cases h
      · rintro (⟨hm, -⟩ | ⟨-, hle, -⟩)
        · exact absurd hm hzero
        · omega
    · rw [if_neg hbig, readIndexes_eq_ok hoffset, hdrop]
      have hsmall : m.toNat ≤ 512 := by
        rw [← hmax]
        exact Nat.le_of_not_lt fun h => hbig (UInt32.lt_iff_toNat_lt.mpr h)
      constructor
      · rintro ⟨gs, segs, rest', hreads, hlen, hrest, rfl, rfl⟩
        exact Or.inr ⟨hzero, hsmall, gs, rest', hreads, hlen, hrest, rfl⟩
      · rintro (⟨hm, -⟩ | ⟨-, -, gs, rest', hreads, hlen, hrest, rfl⟩)
        · exact absurd hm hzero
        · exact ⟨gs, idx, rest', hreads, hlen, hrest, by simp, rfl⟩

/-- `decode_protobuf_message_indexes` succeeds on a group for the count, followed by one group
    for each segment. -/
theorem decodeIndexes_eq_ok : decodeProtobufMessageIndexes data = .ok (idx, n) ↔
    ∃ g rest m, data = g ++ rest ∧ Reads g m ∧
      ((m = 0 ∧ idx = [0] ∧ n = g.length) ∨
        (m ≠ 0 ∧ m.toNat ≤ 512 ∧ ∃ gs rest', List.Forall₂ Reads gs idx ∧ idx.length = m.toNat ∧
          rest = gs.flatten ++ rest' ∧ n = g.length + gs.flatten.length)) := by
  constructor
  · intro hok
    obtain ⟨⟨result, c⟩, hread, -⟩ := Outcome.bind_eq_ok.mp hok
    obtain ⟨g, rest, hdata, hg, hlen, -, -⟩ :=
      (readVarint_eq_ok (Nat.zero_le data.length)).mp hread
    rw [List.drop_zero] at hdata
    rw [decodeIndexes_group hdata hg hlen] at hok
    obtain ⟨m, hm, hrest⟩ := Outcome.bind_eq_ok.mp hok
    exact ⟨g, rest, m, hdata, ⟨hg, hlen, zigzagDecode_eq_ok.mp hm⟩,
      (afterCount_eq_ok hdata).mp hrest⟩
  · rintro ⟨g, rest, m, hdata, hreads, hcases⟩
    rw [decodeIndexes_group hdata hreads.1 hreads.2.1, hreads.zigzag, Outcome.bind_ok]
    exact (afterCount_eq_ok hdata).mpr hcases

/-- A successful parse consumes no more than there is, and its path has between 1 and 512
    segments. -/
theorem decodeIndexes_bounds (h : decodeProtobufMessageIndexes data = .ok (idx, n)) :
    n ≤ data.length ∧ 1 ≤ idx.length ∧ idx.length ≤ 512 := by
  obtain ⟨g, rest, m, rfl, -, hcases⟩ := decodeIndexes_eq_ok.mp h
  rcases hcases with ⟨-, rfl, rfl⟩ | ⟨hne, hle, gs, rest', -, hlen, rfl, rfl⟩
  · refine ⟨?_, Nat.le_refl 1, by simp⟩
    rw [List.length_append]
    omega
  · have hpos : m.toNat ≠ 0 := fun h => hne (UInt32.toNat_inj.mp h)
    refine ⟨?_, by omega, by omega⟩
    simp only [List.length_append]
    omega

/-! ## Panics -/

/-- One of the next `count` groups that the loop comes to is extreme. -/
def MeetsExtreme : Nat → Bytes → Prop
  | 0, _ => False
  | count + 1, bs =>
    match split bs with
    | none => False
    | some (g, rest) => Extreme g ∨ ((∃ m, Reads g m) ∧ MeetsExtreme count rest)

/-- One of the groups that the decoder comes to is extreme: the count, or a segment after a
    count and segments that it accepts. -/
def HasExtreme (bs : Bytes) : Prop :=
  match split bs with
  | none => False
  | some (g, rest) => Extreme g ∨ ∃ m, Reads g m ∧ m.toNat ≤ 512 ∧ MeetsExtreme m.toNat rest

theorem meetsExtreme_succ {bs : Bytes} : MeetsExtreme (count + 1) bs ↔ ∃ g rest,
    split bs = some (g, rest) ∧ (Extreme g ∨ ((∃ m, Reads g m) ∧ MeetsExtreme count rest)) := by
  rw [MeetsExtreme]
  cases split bs with
  | none => simp
  | some first =>
    obtain ⟨g, rest⟩ := first
    simp

theorem hasExtreme_iff {bs : Bytes} : HasExtreme bs ↔ ∃ g rest, split bs = some (g, rest) ∧
    (Extreme g ∨ ∃ m, Reads g m ∧ m.toNat ≤ 512 ∧ MeetsExtreme m.toNat rest) := by
  unfold HasExtreme
  cases split bs with
  | none => simp
  | some first =>
    obtain ⟨g, rest⟩ := first
    simp

theorem Extreme.length (h : Extreme g) : g.length = maxGroups := by
  obtain ⟨last, rfl, -, -⟩ := h
  rw [List.length_append, List.length_replicate]
  rfl

theorem zigzag_raw_safe (hg : Varint g) (hlen : g.length ≤ maxGroups) :
    (zigzagDecodeU32 (raw g)).Safe ↔ ¬ Extreme g := by
  rw [zigzagDecode_safe, ne_eq, raw_eq_max_iff hg hlen]

/-- A byte string whose first varint, if there is one, is longer than ten bytes. -/
def NoGroup (bs : Bytes) : Prop := ∀ g rest, split bs = some (g, rest) → maxGroups < g.length

theorem NoGroup.not_meetsExtreme {bs : Bytes} (h : NoGroup bs) :
    ¬ MeetsExtreme (count + 1) bs := by
  rw [meetsExtreme_succ]
  rintro ⟨g, rest, hsplit, hext | ⟨⟨m, hreads⟩, -⟩⟩
  · exact absurd hext.length (Nat.ne_of_gt (h g rest hsplit))
  · exact absurd hreads.2.1 (Nat.not_le_of_lt (h g rest hsplit))

theorem NoGroup.not_hasExtreme {bs : Bytes} (h : NoGroup bs) : ¬ HasExtreme bs := by
  rw [hasExtreme_iff]
  rintro ⟨g, rest, hsplit, hext | ⟨m, hreads, -⟩⟩
  · exact absurd hext.length (Nat.ne_of_gt (h g rest hsplit))
  · exact absurd hreads.2.1 (Nat.not_le_of_lt (h g rest hsplit))

/-- What `read_varint` comes to: a group of up to ten bytes, or an error. -/
theorem readVarint_cases (hoffset : offset ≤ data.length) :
    (∃ g rest, data.drop offset = g ++ rest ∧ Varint g ∧ g.length ≤ maxGroups) ∨
    ((readVarint data offset).IsErr ∧ NoGroup (data.drop offset)) := by
  cases hread : readVarint data offset with
  | ok found =>
    obtain ⟨g, rest, hdrop, hg, hlen, -, -⟩ := (readVarint_eq_ok hoffset).mp hread
    exact Or.inl ⟨g, rest, hdrop, hg, hlen⟩
  | err e =>
    refine Or.inr ⟨⟨e, rfl⟩, ?_⟩
    intro g rest hsplit
    obtain ⟨hdrop, hg⟩ := split_eq_some hsplit
    apply Nat.lt_of_not_le
    intro hlen
    rw [readVarint_varint hoffset hdrop hg, if_pos hlen] at hread
    cases hread
  | panic p => exact absurd hread (readVarint_safe hoffset p)

theorem readIndexes_safe (hoffset : offset ≤ data.length) :
    (readIndexes data count offset acc).Safe ↔ ¬ MeetsExtreme count (data.drop offset) := by
  induction count generalizing offset acc with
  | zero =>
    unfold readIndexes MeetsExtreme
    simp
  | succ count ih =>
    rcases readVarint_cases hoffset with ⟨g, rest, hdrop, hg, hlen⟩ | ⟨⟨e, he⟩, hnone⟩
    · have hsplit : split (data.drop offset) = some (g, rest) := hdrop ▸ split_append hg rest
      -- the rest of the loop, after a segment that is accepted
      have hnext : ∀ segment : UInt32,
          (readIndexes data count (offset + g.length) (acc ++ [segment])).Safe ↔
            ¬ MeetsExtreme count rest := by
        intro segment
        rw [ih (add_length_le hoffset hdrop), drop_group hdrop]
      rw [readIndexes_succ hoffset hdrop hg hlen, Outcome.safe_bind, zigzag_raw_safe hg hlen,
        MeetsExtreme, hsplit, not_or, not_and]
      refine and_congr_right fun _ => ?_
      constructor
      · rintro hsafe ⟨m, hreads⟩
        exact (hnext m).mp (hsafe m hreads.zigzag)
      · intro hclear m hm
        exact (hnext m).mpr (hclear ⟨m, hg, hlen, zigzagDecode_eq_ok.mp hm⟩)
    · unfold readIndexes
      rw [he]
      exact iff_of_true (Outcome.safe_err e) hnone.not_meetsExtreme

theorem afterCount_safe (hdata : data = g ++ rest) {m : UInt32} :
    (afterCount data m g.length).Safe ↔ ¬ (m.toNat ≤ 512 ∧ MeetsExtreme m.toNat rest) := by
  have hdrop : data.drop g.length = rest := by rw [hdata, List.drop_left]
  have hoffset : g.length ≤ data.length := by
    rw [hdata, List.length_append]
    omega
  have hmax : maxMessageIndexCount.toNat = 512 := rfl
  unfold afterCount
  by_cases hzero : m = 0
  · subst hzero
    rw [if_pos rfl]
    exact iff_of_true (Outcome.safe_ok _) fun h => h.2
  · rw [if_neg hzero]
    by_cases hbig : m > maxMessageIndexCount
    · rw [if_pos hbig]
      refine iff_of_true (Outcome.safe_err _) fun h => ?_
      have := UInt32.lt_iff_toNat_lt.mp hbig
      omega
    · rw [if_neg hbig, readIndexes_safe hoffset, hdrop]
      have hsmall : m.toNat ≤ 512 := by
        rw [← hmax]
        exact Nat.le_of_not_lt fun h => hbig (UInt32.lt_iff_toNat_lt.mpr h)
      simp [hsmall]

/-- `decode_protobuf_message_indexes` panics exactly where it comes to an extreme group. -/
theorem decodeIndexes_safe : (decodeProtobufMessageIndexes data).Safe ↔ ¬ HasExtreme data := by
  have hread := readVarint_cases (Nat.zero_le data.length)
  rw [List.drop_zero] at hread
  rcases hread with ⟨g, rest, hdata, hg, hlen⟩ | ⟨⟨e, he⟩, hnone⟩
  · have hsplit : split data = some (g, rest) := hdata ▸ split_append hg rest
    rw [decodeIndexes_group hdata hg hlen, Outcome.safe_bind, zigzag_raw_safe hg hlen,
      HasExtreme, hsplit, not_or, not_exists]
    refine and_congr_right fun _ => ?_
    constructor
    · rintro hsafe m ⟨hreads, hmeets⟩
      exact (afterCount_safe hdata).mp (hsafe m hreads.zigzag) hmeets
    · intro hclear m hm
      rw [afterCount_safe hdata]
      exact fun hmeets => hclear m ⟨⟨hg, hlen, zigzagDecode_eq_ok.mp hm⟩, hmeets⟩
  · unfold decodeProtobufMessageIndexes
    rw [he]
    exact iff_of_true (Outcome.safe_err e) hnone.not_hasExtreme

end Schemreg.Wire
