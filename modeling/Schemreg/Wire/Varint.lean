import Schemreg.Wire.Model
import Schemreg.Lib.Leb128

/-
  What the varint loops compute.

  `write_varint` writes the shortest varint of its value (`writeVarint_eq`). `read_varint`
  reads the first varint of its input, up to ten bytes, and returns its value reduced to a
  `u64` (`readVarint_eq`): nine groups fill 63 bits, and of the tenth byte the shift keeps
  only the lowest bit (`value_lt_word_iff`).
-/

namespace Schemreg.Wire

open Checked Leb128

/-- The `u64` that `read_varint` makes of a group of bytes. -/
def raw (g : Bytes) : UInt64 := UInt64.ofNat (value g)

theorem toNat_raw (g : Bytes) : (raw g).toNat = value g % 2 ^ 64 := by
  unfold raw
  rw [UInt64.toNat_ofNat']

theorem raw_of_lt {g : Bytes} (h : value g < 2 ^ 64) : (raw g).toNat = value g := by
  rw [toNat_raw, Nat.mod_eq_of_lt h]

/-! ## Bytes and words -/

theorem low7_toNat (b : UInt8) : (b.toUInt64 &&& 0x7F).toNat = b.toNat % 128 := by
  rw [UInt64.toNat_and]
  have hmask : (0x7F : UInt64).toNat = 2 ^ 7 - 1 := rfl
  rw [hmask, Nat.and_two_pow_sub_one_eq_mod, UInt8.toNat_toUInt64]

theorem and_128 {x : Nat} (h : x < 256) : x &&& 128 = x / 128 * 128 := by
  have hall : ∀ i : Fin 256, i.val &&& 128 = i.val / 128 * 128 := by decide +kernel
  exact hall ⟨x, h⟩

/-- The high bit of a byte says whether the varint goes on. -/
theorem high_bit_eq_zero (b : UInt8) : b.toUInt64 &&& 0x80 = 0 ↔ b.toNat < 128 := by
  have hbits : (b.toUInt64 &&& 0x80).toNat = b.toNat / 128 * 128 := by
    rw [UInt64.toNat_and, UInt8.toNat_toUInt64]
    exact and_128 b.toNat_lt
  have hlt := b.toNat_lt
  rw [← UInt64.toNat_inj, hbits]
  show b.toNat / 128 * 128 = 0 ↔ b.toNat < 128
  omega

/-- Or-ing in a group above the bits that are there adds it, modulo the word. -/
theorem or_shift {x y k : Nat} (hx : x < 2 ^ k) (hk : k < 64) :
    x ||| (y <<< k % 2 ^ 64) = (x + 2 ^ k * y) % 2 ^ 64 := by
  have hword : 2 ^ 64 = 2 ^ k * 2 ^ (64 - k) := by
    rw [← Nat.pow_add]
    congr 1
    omega
  have hshift : y <<< k % 2 ^ 64 = 2 ^ k * (y % 2 ^ (64 - k)) := by
    rw [Nat.shiftLeft_eq, hword, Nat.mul_comm y, Nat.mul_mod_mul_left]
  rw [hshift, Nat.or_comm, ← Nat.two_pow_add_eq_or_of_lt hx]
  have hmod : (x + 2 ^ k * y) % 2 ^ 64 = x + 2 ^ k * (y % 2 ^ (64 - k)) := by
    rw [hword, Nat.mod_mul, Nat.add_mul_mod_self_left, Nat.mod_eq_of_lt hx,
      Nat.add_mul_div_left _ _ (Nat.two_pow_pos k), Nat.div_eq_of_lt hx, Nat.zero_add]
  omega

/-- One more byte of a group. -/
theorem raw_snoc {pre : Bytes} (b : UInt8) (hpre : pre.length ≤ 9) :
    raw pre ||| (b.toUInt64 &&& 0x7F) <<< UInt64.ofNat (7 * pre.length) = raw (pre ++ [b]) := by
  have hlt : value pre < 2 ^ (7 * pre.length) := by
    rw [Nat.pow_mul]
    exact value_lt pre
  have hword : value pre < 2 ^ 64 :=
    Nat.lt_of_lt_of_le hlt (Nat.pow_le_pow_right (by decide) (by omega))
  have hk : 7 * pre.length < 64 := by omega
  rw [← UInt64.toNat_inj, UInt64.toNat_or, UInt64.toNat_shiftLeft, raw_of_lt hword, low7_toNat,
    toNat_raw, value_append, UInt64.toNat_ofNat',
    Nat.mod_eq_of_lt (Nat.lt_trans hk (by decide)), Nat.mod_eq_of_lt hk, or_shift hlt hk]
  have hpow : 128 ^ pre.length = 2 ^ (7 * pre.length) := by rw [Nat.pow_mul]
  rw [hpow]
  simp [value]

/-! ## Reading -/

/-- What reading the bytes `rest` gives after the continued bytes `pre`. -/
def scan (pre rest : Bytes) : Decoding (UInt64 × Nat) :=
  match split rest with
  | some (g, _) =>
    if pre.length + g.length ≤ maxGroups then .ok (raw (pre ++ g), pre.length + g.length)
    else .err varintOverflow
  | none =>
    if maxGroups ≤ pre.length + rest.length then .err varintOverflow else .err truncatedVarint

theorem scan_more {pre rest : Bytes} {b : UInt8} (hb : 128 ≤ b.toNat) :
    scan pre (b :: rest) = scan (pre ++ [b]) rest := by
  unfold scan
  rw [split, if_neg (Nat.not_lt.mpr hb)]
  cases split rest with
  | none =>
    simp only [Option.map_none, List.length_cons, List.length_append, List.length_nil]
    rw [Nat.add_right_comm, Nat.add_assoc]
  | some first =>
    obtain ⟨g, after⟩ := first
    simp only [Option.map_some, List.length_cons, List.length_append, List.length_nil,
      List.append_assoc, List.cons_append, List.nil_append]
    rw [show pre.length + (g.length + 1) = pre.length + (0 + 1) + g.length by omega]

theorem scan_nil {pre : Bytes} (hpre : pre.length ≤ 9) : scan pre [] = .err truncatedVarint := by
  have hfew : ¬ maxGroups ≤ pre.length + ([] : Bytes).length := by
    show ¬ 10 ≤ pre.length + 0
    omega
  show (if maxGroups ≤ pre.length + ([] : Bytes).length then _ else _) = _
  rw [if_neg hfew]

/-- The last byte. -/
theorem scan_last {pre rest : Bytes} {b : UInt8} (hb : b.toNat < 128) (hpre : pre.length ≤ 9) :
    scan pre (b :: rest) = .ok (raw (pre ++ [b]), pre.length + 1) := by
  have hfits : pre.length + [b].length ≤ maxGroups := by
    show pre.length + 1 ≤ 10
    omega
  unfold scan
  rw [split, if_pos hb]
  dsimp only
  rw [if_pos hfits]
  rfl

/-- The tenth byte, continued. -/
theorem scan_full {pre rest : Bytes} {b : UInt8} (hb : 128 ≤ b.toNat) (hpre : 9 ≤ pre.length) :
    scan pre (b :: rest) = .err varintOverflow := by
  rw [scan_more hb]
  unfold scan
  cases hrest : split rest with
  | none =>
    have hmany : maxGroups ≤ (pre ++ [b]).length + rest.length := by
      rw [List.length_append]
      show 10 ≤ pre.length + 1 + rest.length
      omega
    dsimp only
    rw [if_pos hmany]
  | some first =>
    obtain ⟨g, after⟩ := first
    have hg := (split_eq_some hrest).2.length_pos
    have hlong : ¬ (pre ++ [b]).length + g.length ≤ maxGroups := by
      rw [List.length_append]
      show ¬ pre.length + 1 + g.length ≤ 10
      omega
    dsimp only
    rw [if_neg hlong]

/-- The loop after the continued bytes `pre`. -/
theorem readVarintLoop_eq {data : Bytes} {offset : Nat} :
    ∀ {groups : Nat} {pre rest : Bytes}, data.drop offset = pre ++ rest → offset ≤ data.length →
    groups + pre.length = maxGroups → 0 < groups →
    readVarintLoop data offset groups (raw pre) (7 * pre.length) (offset + pre.length) =
      scan pre rest
  | 0, _, _, _, _, _, hpos => absurd hpos (Nat.lt_irrefl 0)
  | groups + 1, pre, rest, hdrop, hoffset, hgroups, _ => by
      have hlen : data.length = offset + pre.length + rest.length := by
        have := congrArg List.length hdrop
        rw [List.length_drop, List.length_append] at this
        omega
      have hten : groups + 1 + pre.length = 10 := hgroups
      unfold readVarintLoop
      cases rest with
      | nil =>
        have hend : offset + pre.length ≥ data.length := by
          rw [hlen]
          simp
        rw [if_pos hend, scan_nil (by omega)]
      | cons b rest =>
        rw [List.length_cons] at hlen
        have hbyte : (index data (offset + pre.length) : Decoding UInt8) = .ok b := by
          rw [index_eq_ok, ← List.getElem?_drop, hdrop]
          simp
        have hadvance : (advance data (offset + pre.length) 1 : Decoding Nat) =
            .ok (offset + pre.length + 1) := advance_of_le (by omega)
        have hshift : (shlU64 (b.toUInt64 &&& 0x7F) (7 * pre.length) : Decoding UInt64) =
            .ok ((b.toUInt64 &&& 0x7F) <<< UInt64.ofNat (7 * pre.length)) := if_pos (by omega)
        rw [if_neg (by omega), hbyte, Outcome.bind_ok, hadvance, Outcome.bind_ok, hshift,
          Outcome.bind_ok, raw_snoc b (by omega)]
        dsimp only
        by_cases hb : b.toNat < 128
        · -- the last byte
          have hconsumed : (subUsize (offset + pre.length + 1) offset : Decoding Nat) =
              .ok (pre.length + 1) := by
            rw [subUsize_of_le (by omega)]
            congr 1
            omega
          rw [if_pos ((high_bit_eq_zero b).mpr hb), hconsumed, Outcome.bind_ok,
            scan_last hb (by omega)]
        · have hmore : 128 ≤ b.toNat := Nat.le_of_not_lt hb
          have hadd : (addU32 (7 * pre.length) 7 : Decoding Nat) = .ok (7 * pre.length + 7) :=
            if_pos (by omega)
          rw [if_neg (mt (high_bit_eq_zero b).mp hb), hadd, Outcome.bind_ok]
          by_cases hfull : 7 * pre.length + 7 ≥ 64
          · -- ten continued bytes
            rw [if_pos hfull, scan_full hmore (by omega)]
          · rw [if_neg hfull, scan_more hmore]
            have hnext := @readVarintLoop_eq data offset groups (pre ++ [b]) rest
              (by rw [hdrop]; simp) hoffset
              (by rw [List.length_append]; show groups + (pre.length + 1) = 10; omega) (by omega)
            rw [List.length_append] at hnext
            exact hnext

/-- `read_varint` reads the first varint from the offset on. -/
theorem readVarint_eq {data : Bytes} {offset : Nat} (h : offset ≤ data.length) :
    readVarint data offset = scan [] (data.drop offset) :=
  @readVarintLoop_eq data offset maxGroups [] _ rfl h rfl (by decide)

theorem readVarint_varint {data g rest : Bytes} {offset : Nat} (h : offset ≤ data.length)
    (hdata : data.drop offset = g ++ rest) (hg : Varint g) :
    readVarint data offset =
      if g.length ≤ maxGroups then .ok (raw g, g.length) else .err varintOverflow := by
  rw [readVarint_eq h, hdata]
  unfold scan
  rw [split_append hg]
  simp

theorem readVarint_eq_ok {data : Bytes} {offset : Nat} (h : offset ≤ data.length)
    {result : UInt64} {consumed : Nat} :
    readVarint data offset = .ok (result, consumed) ↔
      ∃ g rest, data.drop offset = g ++ rest ∧ Varint g ∧ g.length ≤ maxGroups ∧
        result = raw g ∧ consumed = g.length := by
  constructor
  · intro hok
    rw [readVarint_eq h] at hok
    unfold scan at hok
    split at hok
    · rename_i g rest hsplit
      obtain ⟨hdata, hg⟩ := split_eq_some hsplit
      split at hok
      · rename_i hlen
        cases hok
        exact ⟨g, rest, hdata, hg, by simpa using hlen, rfl, by simp⟩
      · cases hok
    · split at hok <;> cases hok
  · rintro ⟨g, rest, hdata, hg, hlen, rfl, rfl⟩
    rw [readVarint_varint h hdata hg, if_pos hlen]

theorem readVarint_safe {data : Bytes} {offset : Nat} (h : offset ≤ data.length) :
    (readVarint data offset).Safe := by
  rw [readVarint_eq h]
  unfold scan
  split
  · split
    · exact Outcome.safe_ok _
    · exact Outcome.safe_err _
  · split
    · exact Outcome.safe_err _
    · exact Outcome.safe_err _

/-! ## The tenth byte -/

/-- Ten bytes whose last one is above 1: the shift loses some of its bits. -/
def WideTenth (g : Bytes) : Prop :=
  ∃ init last, g = init ++ [last] ∧ init.length = 9 ∧ 1 < last.toNat

/-- A varint of up to ten bytes fits a `u64` unless its tenth byte is too wide. -/
theorem value_lt_word_iff {g : Bytes} (hg : Varint g) (hlen : g.length ≤ maxGroups) :
    value g < 2 ^ 64 ↔ ¬ WideTenth g := by
  obtain ⟨init, last, rfl, -, hlast⟩ := hg.split_last
  rw [List.length_append] at hlen
  have hten : init.length + 1 ≤ 10 := hlen
  have hinit := value_lt init
  have hsum : value (init ++ [last]) = value init + 128 ^ init.length * last.toNat := by
    rw [value_append]
    simp [value, Nat.mod_eq_of_lt hlast]
  rw [hsum]
  constructor
  · rintro hlt ⟨init', last', heq, hnine, hwide⟩
    obtain ⟨rfl, hlast'⟩ := List.append_inj' heq rfl
    cases hlast'
    rw [hnine] at hlt
    have : 128 ^ 9 * 2 ≤ 128 ^ 9 * last.toNat := Nat.mul_le_mul_left _ hwide
    have hword : (128 : Nat) ^ 9 * 2 = 2 ^ 64 := by decide
    omega
  · intro hnot
    rcases Nat.lt_or_ge init.length 9 with hshort | hnine
    · have hpow : (128 : Nat) ^ init.length * 128 ≤ 2 ^ 63 := by
        rw [← Nat.pow_succ]
        have hle : (128 : Nat) ^ (init.length + 1) ≤ 128 ^ 9 :=
          Nat.pow_le_pow_right (by decide) (by omega)
        exact Nat.le_trans hle (by decide)
      have hmul : 128 ^ init.length * last.toNat ≤ 128 ^ init.length * 127 :=
        Nat.mul_le_mul_left _ (by omega)
      omega
    · have hlen9 : init.length = 9 := by omega
      have hone : last.toNat ≤ 1 := by
        by_contra hwide
        exact hnot ⟨init, last, rfl, hlen9, by omega⟩
      have hmul : 128 ^ init.length * last.toNat ≤ 128 ^ init.length * 1 :=
        Nat.mul_le_mul_left _ hone
      rw [hlen9] at hmul hinit ⊢
      have hword : (128 : Nat) ^ 9 * 2 = 2 ^ 64 := by decide
      omega

/-- Nine bytes `0xFF` and an odd last byte: the varint that reads as `u64::MAX`. -/
def Extreme (g : Bytes) : Prop :=
  ∃ last : UInt8, g = List.replicate 9 0xFF ++ [last] ∧ last.toNat % 2 = 1 ∧ last.toNat < 128

theorem value_replicate_max (n : Nat) : value (List.replicate n 0xFF) = 128 ^ n - 1 := by
  have hb : (0xFF : UInt8).toNat = 255 := rfl
  induction n with
  | zero => rfl
  | succ n ih =>
    have hpos : 0 < 128 ^ n := Nat.pow_pos (by decide)
    rw [List.replicate_succ, value, ih, Nat.pow_succ, hb]
    omega

/-- Of the groups of continued bytes of one length, only `0xFF…` has the largest value. -/
theorem eq_replicate_of_value_max : ∀ {g : Bytes}, (∀ b ∈ g, 128 ≤ b.toNat) →
    value g = 128 ^ g.length - 1 → g = List.replicate g.length 0xFF
  | [], _, _ => rfl
  | b :: g, hg, h => by
      obtain ⟨hb, hrest⟩ := List.forall_mem_cons.mp hg
      have hlt := b.toNat_lt
      have hvalue := value_lt g
      rw [value, List.length_cons, Nat.pow_succ] at h
      have hhead : b = 0xFF := by
        rw [← UInt8.toNat_inj]
        show b.toNat = 255
        omega
      have htail := eq_replicate_of_value_max hrest (by omega)
      rw [List.length_cons, List.replicate_succ, ← htail, hhead]

theorem raw_eq_max_iff {g : Bytes} (hg : Varint g) (hlen : g.length ≤ maxGroups) :
    (raw g).toNat = 2 ^ 64 - 1 ↔ Extreme g := by
  have hword : (128 : Nat) ^ 9 = 2 ^ 63 := by decide
  constructor
  · intro hmax
    obtain ⟨init, last, rfl, hinit, hlast⟩ := hg.split_last
    rw [List.length_append] at hlen
    have hten : init.length + 1 ≤ 10 := hlen
    have hvalue := value_lt init
    have hnine : init.length = 9 := by
      by_contra hne
      have hshort : value (init ++ [last]) < 2 ^ 63 := by
        have hlt := value_lt (init ++ [last])
        rw [List.length_append] at hlt
        exact Nat.lt_of_lt_of_le hlt
          (Nat.le_trans (Nat.pow_le_pow_right (by decide) (by simp; omega)) (Nat.le_of_eq hword))
      rw [raw_of_lt (by omega)] at hmax
      omega
    rw [toNat_raw, value_append, hnine, hword] at hmax
    rw [hnine, hword] at hvalue
    simp only [value, Nat.mod_eq_of_lt hlast] at hmax
    have hfull : value init = 128 ^ init.length - 1 := by
      rw [hnine, hword]
      omega
    refine ⟨last, ?_, by omega, hlast⟩
    rw [eq_replicate_of_value_max hinit hfull, hnine]
  · rintro ⟨last, rfl, hodd, hlast⟩
    rw [toNat_raw, value_append, value_replicate_max, List.length_replicate, hword]
    simp only [value, Nat.mod_eq_of_lt hlast]
    omega

/-! ## Writing -/

theorem shr7_toNat (v : UInt64) : (v >>> 7).toNat = v.toNat / 128 := by
  rw [UInt64.toNat_shiftRight]
  simp [Nat.shiftRight_eq_div_pow]

theorem low_byte (v : UInt64) : (v &&& 0x7F).toUInt8 = UInt8.ofNat (v.toNat % 128) := by
  have hmask : (0x7F : UInt64).toNat = 2 ^ 7 - 1 := rfl
  rw [← UInt8.toNat_inj, UInt64.toNat_toUInt8, UInt64.toNat_and, hmask,
    Nat.and_two_pow_sub_one_eq_mod, UInt8.toNat_ofNat']

theorem continued_byte {n : Nat} (h : n < 128) :
    UInt8.ofNat n ||| 0x80 = UInt8.ofNat (n + 128) := by
  have hbit : (0x80 : UInt8).toNat = 2 ^ 7 * 1 := rfl
  rw [← UInt8.toNat_inj, UInt8.toNat_or, toNat_ofNat_lt (by omega), hbit, Nat.or_comm,
    ← Nat.two_pow_add_eq_or_of_lt h, toNat_ofNat_lt (by omega)]
  omega

theorem writeVarintLoop_eq : ∀ {groups : Nat} {v : UInt64}, v.toNat < 128 ^ groups → 0 < groups →
    writeVarintLoop groups v = encode v.toNat
  | 0, _, _, hpos => absurd hpos (Nat.lt_irrefl 0)
  | groups + 1, v, h, _ => by
      unfold writeVarintLoop
      dsimp only
      have hzero : v >>> 7 = 0 ↔ v.toNat < 128 := by
        rw [← UInt64.toNat_inj, shr7_toNat]
        show v.toNat / 128 = 0 ↔ v.toNat < 128
        omega
      rw [low_byte]
      by_cases hlt : v.toNat < 128
      · rw [if_pos (hzero.mpr hlt), encode_of_lt hlt, Nat.mod_eq_of_lt hlt]
      · have hge : 128 ≤ v.toNat := Nat.le_of_not_lt hlt
        rw [if_neg (mt hzero.mp hlt), encode_of_ge hge, continued_byte (Nat.mod_lt _ (by decide))]
        have hgroups : groups ≠ 0 := by
          rintro rfl
          rw [Nat.zero_add, Nat.pow_one] at h
          omega
        rw [writeVarintLoop_eq (v := v >>> 7) ?_ (Nat.pos_of_ne_zero hgroups), shr7_toNat]
        rw [shr7_toNat, Nat.div_lt_iff_lt_mul (by decide), ← Nat.pow_succ]
        exact h

/-- `write_varint` writes the shortest varint. -/
theorem writeVarint_eq (v : UInt64) : writeVarint v = encode v.toNat := by
  apply writeVarintLoop_eq
  · exact Nat.lt_trans v.toNat_lt (by decide)
  · decide

/-! ## ZigZag -/

theorem zigzagEncode_toNat (n : UInt32) : (zigzagEncode n).toNat = 2 * n.toNat := by
  have hn := n.toNat_lt
  unfold zigzagEncode
  rw [UInt64.toNat_shiftLeft, UInt32.toNat_toUInt64]
  show n.toNat <<< 1 % 2 ^ 64 = 2 * n.toNat
  rw [Nat.shiftLeft_eq]
  omega

theorem shr1_toNat (v : UInt64) : (v >>> 1).toNat = v.toNat / 2 := by
  rw [UInt64.toNat_shiftRight]
  simp [Nat.shiftRight_eq_div_pow]

theorem odd_iff (v : UInt64) : v &&& 1 = 1 ↔ v.toNat % 2 = 1 := by
  have hone : (1 : UInt64).toNat = 2 ^ 1 - 1 := rfl
  rw [← UInt64.toNat_inj, UInt64.toNat_and, hone, Nat.and_two_pow_sub_one_eq_mod]
  exact Iff.rfl

theorem toInt64_eq_minValue (v : UInt64) : v.toInt64 = Int64.minValue ↔ v.toNat = 2 ^ 63 := by
  have hmin : Int64.minValue = (UInt64.ofNat (2 ^ 63)).toInt64 := by decide
  have hword : (UInt64.ofNat (2 ^ 63)).toNat = 2 ^ 63 := by decide
  rw [hmin, ← hword, UInt64.toNat_inj]
  constructor
  · intro h
    have hback := congrArg Int64.toUInt64 h
    rwa [UInt64.toUInt64_toInt64, UInt64.toUInt64_toInt64] at hback
  · exact congrArg UInt64.toInt64

/-- The error path negates `i64::MIN` for one value: `u64::MAX`. -/
theorem zigzagDecode_odd {v : UInt64} (h : v.toNat % 2 = 1) :
    (v.toNat = 2 ^ 64 - 1 → zigzagDecodeU32 v = .panic .overflow) ∧
    (v.toNat ≠ 2 ^ 64 - 1 → (zigzagDecodeU32 v).IsErr) := by
  have hlt := v.toNat_lt
  have hone : (1 : UInt64).toNat = 1 := rfl
  have hadd : (addU64 (v >>> 1) 1 : Decoding UInt64) = .ok ((v >>> 1) + 1) := by
    unfold addU64
    rw [shr1_toNat, hone, if_pos (by omega)]
  have hnext : ((v >>> 1) + 1).toNat = v.toNat / 2 + 1 := by
    rw [UInt64.toNat_add, shr1_toNat, hone]
    omega
  unfold zigzagDecodeU32
  rw [if_pos ((odd_iff v).mpr h), hadd, Outcome.bind_ok]
  unfold negI64
  constructor
  · intro hmax
    rw [if_pos ((toInt64_eq_minValue _).mpr (by rw [hnext]; omega))]
    rfl
  · intro hmax
    rw [if_neg (mt (toInt64_eq_minValue _).mp (by rw [hnext]; omega))]
    exact ⟨_, rfl⟩

theorem zigzagDecode_even {v : UInt64} (h : v.toNat % 2 = 0) :
    (v.toNat / 2 < 2 ^ 32 → zigzagDecodeU32 v = .ok (UInt32.ofNat (v.toNat / 2))) ∧
    (2 ^ 32 ≤ v.toNat / 2 → (zigzagDecodeU32 v).IsErr) := by
  unfold zigzagDecodeU32
  rw [if_neg (mt (odd_iff v).mp (by omega))]
  dsimp only
  rw [shr1_toNat]
  constructor
  · intro hlt
    have hword : (v >>> 1).toUInt32 = UInt32.ofNat (v.toNat / 2) := by
      rw [← UInt32.toNat_inj, UInt64.toNat_toUInt32, shr1_toNat, UInt32.toNat_ofNat']
    rw [if_pos hlt, hword]
  · intro hge
    rw [if_neg (by omega)]
    exact ⟨_, rfl⟩

/-- The accepted words are the doubles of the `u32` values. -/
theorem zigzagDecode_eq_ok {v : UInt64} {n : UInt32} :
    zigzagDecodeU32 v = .ok n ↔ v.toNat = 2 * n.toNat := by
  have hn := n.toNat_lt
  constructor
  · intro hok
    rcases Nat.mod_two_eq_zero_or_one v.toNat with heven | hodd
    · rcases Nat.lt_or_ge (v.toNat / 2) (2 ^ 32) with hlt | hge
      · rw [(zigzagDecode_even heven).1 hlt] at hok
        have hval := congrArg UInt32.toNat (Outcome.ok.inj hok)
        rw [UInt32.toNat_ofNat', Nat.mod_eq_of_lt hlt] at hval
        omega
      · exact absurd ⟨n, hok⟩ ((zigzagDecode_even heven).2 hge).not_isOk
    · rcases eq_or_ne v.toNat (2 ^ 64 - 1) with hmax | hmax
      · rw [(zigzagDecode_odd hodd).1 hmax] at hok
        cases hok
      · exact absurd ⟨n, hok⟩ ((zigzagDecode_odd hodd).2 hmax).not_isOk
  · intro hval
    rw [(zigzagDecode_even (by omega)).1 (by omega), hval]
    congr 1
    rw [← UInt32.toNat_inj, UInt32.toNat_ofNat']
    omega

theorem zigzagDecode_safe {v : UInt64} : (zigzagDecodeU32 v).Safe ↔ v.toNat ≠ 2 ^ 64 - 1 := by
  have safe_of_err : (zigzagDecodeU32 v).IsErr → (zigzagDecodeU32 v).Safe := by
    rintro ⟨e, he⟩
    rw [he]
    exact Outcome.safe_err e
  rcases Nat.mod_two_eq_zero_or_one v.toNat with heven | hodd
  · refine ⟨fun _ => by omega, fun _ => ?_⟩
    rcases Nat.lt_or_ge (v.toNat / 2) (2 ^ 32) with hlt | hge
    · rw [(zigzagDecode_even heven).1 hlt]
      exact Outcome.safe_ok _
    · exact safe_of_err ((zigzagDecode_even heven).2 hge)
  · constructor
    · intro hsafe hmax
      exact hsafe _ ((zigzagDecode_odd hodd).1 hmax)
    · exact fun hmax => safe_of_err ((zigzagDecode_odd hodd).2 hmax)

end Schemreg.Wire
