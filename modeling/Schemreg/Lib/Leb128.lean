import Mathlib.Data.List.Basic
import Mathlib.Tactic.Ring

/-
  LEB-128: natural numbers as groups of bytes, seven bits a byte, the lowest first.

  A varint is a run of bytes with the high bit set, up to and including the first byte
  without it (`Varint`). `value` is the number it stands for, without any bound, and `encode`
  is its shortest form. No varint is a prefix of another, so a byte string has at most one
  first varint (`split`) and splits into a given number of them in at most one way
  (`splitN`).
-/

namespace Leb128

abbrev Bytes := List UInt8

/-- A run of continued bytes with its last byte. -/
inductive Varint : Bytes → Prop where
  | last {b : UInt8} (stops : b.toNat < 128) : Varint [b]
  | more {b : UInt8} {g : Bytes} (continues : 128 ≤ b.toNat) (rest : Varint g) : Varint (b :: g)

/-- The number a group of bytes stands for. -/
def value : Bytes → Nat
  | [] => 0
  | b :: g => b.toNat % 128 + 128 * value g

/-- The first varint of a byte string, and what follows it. -/
def split : Bytes → Option (Bytes × Bytes)
  | [] => none
  | b :: bs =>
    if b.toNat < 128 then some ([b], bs)
    else (split bs).map fun (g, rest) => (b :: g, rest)

/-- The first `n` varints of a byte string, and what follows them. -/
def splitN : Nat → Bytes → Option (List Bytes × Bytes)
  | 0, bs => some ([], bs)
  | n + 1, bs =>
    match split bs with
    | none => none
    | some (g, rest) => (splitN n rest).map fun (gs, rest) => (g :: gs, rest)

/-- The shortest varint of a number. -/
def encode (n : Nat) : Bytes :=
  if n < 128 then [UInt8.ofNat n] else UInt8.ofNat (n % 128 + 128) :: encode (n / 128)

variable {g g' bs rest rest' : Bytes} {n : Nat}

/-! ## The first varint -/

theorem Varint.ne_nil (h : Varint g) : g ≠ [] := by
  cases h <;> simp

theorem Varint.length_pos (h : Varint g) : 0 < g.length :=
  List.length_pos_of_ne_nil h.ne_nil

theorem split_append (h : Varint g) (rest : Bytes) : split (g ++ rest) = some (g, rest) := by
  induction h with
  | last stops => simp [split, stops]
  | @more b g continues _ ih =>
    have hb : ¬ b.toNat < 128 := by omega
    simp [split, hb, ih]

theorem split_eq_some (h : split bs = some (g, rest)) : bs = g ++ rest ∧ Varint g := by
  induction bs generalizing g with
  | nil => cases h
  | cons b bs ih =>
    unfold split at h
    split at h
    · rename_i stops
      cases h
      exact ⟨rfl, Varint.last stops⟩
    · rename_i continues
      obtain ⟨⟨g', rest'⟩, htail, heq⟩ := Option.map_eq_some_iff.mp h
      cases heq
      obtain ⟨rfl, hg⟩ := ih htail
      exact ⟨rfl, Varint.more (Nat.le_of_not_lt continues) hg⟩

/-- Every byte of a varint but its last is continued. -/
theorem Varint.split_last (h : Varint g) : ∃ init last, g = init ++ [last] ∧
    (∀ b ∈ init, 128 ≤ b.toNat) ∧ last.toNat < 128 := by
  induction h with
  | @last b stops => exact ⟨[], b, rfl, by simp, stops⟩
  | @more b g continues _ ih =>
    obtain ⟨init, last, rfl, hinit, hlast⟩ := ih
    exact ⟨b :: init, last, rfl, List.forall_mem_cons.mpr ⟨continues, hinit⟩, hlast⟩

/-! ## Several varints -/

theorem splitN_iff {gs : List Bytes} : splitN n bs = some (gs, rest) ↔
    gs.length = n ∧ (∀ g ∈ gs, Varint g) ∧ bs = gs.flatten ++ rest := by
  induction n generalizing bs gs with
  | zero =>
    unfold splitN
    constructor
    · intro h
      cases h
      exact ⟨rfl, by simp, rfl⟩
    · rintro ⟨hlen, -, rfl⟩
      rw [List.length_eq_zero_iff.mp hlen]
      rfl
  | succ n ih =>
    unfold splitN
    constructor
    · intro h
      split at h
      · cases h
      · rename_i g rest₁ hsplit
        obtain ⟨⟨gs', rest'⟩, htail, heq⟩ := Option.map_eq_some_iff.mp h
        cases heq
        obtain ⟨rfl, hg⟩ := split_eq_some hsplit
        obtain ⟨hlen, hgs, rfl⟩ := ih.mp htail
        exact ⟨by simp [hlen], List.forall_mem_cons.mpr ⟨hg, hgs⟩, by simp⟩
    · rintro ⟨hlen, hgs, rfl⟩
      cases gs with
      | nil => cases hlen
      | cons g gs =>
        obtain ⟨hg, hgs⟩ := List.forall_mem_cons.mp hgs
        have htail := ih.mpr ⟨Nat.succ.inj hlen, hgs, rfl⟩
        rw [List.flatten_cons, List.append_assoc, split_append hg]
        show (splitN n (gs.flatten ++ rest)).map _ = _
        rw [htail]
        rfl

/-- A byte string splits into varints in one way. -/
theorem flatten_inj {gs gs' : List Bytes} (h : ∀ g ∈ gs, Varint g) (h' : ∀ g ∈ gs', Varint g)
    (heq : gs.flatten = gs'.flatten) : gs = gs' := by
  induction gs generalizing gs' with
  | nil =>
    cases gs' with
    | nil => rfl
    | cons g' gs' =>
      have hne := (List.forall_mem_cons.mp h').1.ne_nil
      simp only [List.flatten_nil, List.flatten_cons] at heq
      exact absurd (List.append_eq_nil_iff.mp heq.symm).1 hne
  | cons g gs ih =>
    obtain ⟨hg, hgs⟩ := List.forall_mem_cons.mp h
    cases gs' with
    | nil =>
      simp only [List.flatten_nil, List.flatten_cons] at heq
      exact absurd (List.append_eq_nil_iff.mp heq).1 hg.ne_nil
    | cons g' gs' =>
      obtain ⟨hg', hgs'⟩ := List.forall_mem_cons.mp h'
      rw [List.flatten_cons, List.flatten_cons] at heq
      have hsplit := split_append hg gs.flatten
      rw [heq, split_append hg'] at hsplit
      obtain ⟨rfl, htail⟩ := Prod.mk.inj (Option.some.inj hsplit)
      rw [ih hgs hgs' htail.symm]

/-! ## Values -/

theorem value_lt (g : Bytes) : value g < 128 ^ g.length := by
  induction g with
  | nil => simp [value]
  | cons b g ih =>
    have hb : b.toNat % 128 < 128 := Nat.mod_lt _ (by decide)
    have hpow : 128 ^ (b :: g).length = 128 * 128 ^ g.length := by
      rw [List.length_cons, Nat.pow_succ]
      ring
    unfold value
    omega

theorem value_append (g g' : Bytes) : value (g ++ g') = value g + 128 ^ g.length * value g' := by
  induction g with
  | nil => simp [value]
  | cons b g ih =>
    rw [List.cons_append, value, ih, value, List.length_cons, Nat.pow_succ]
    ring

/-! ## Encoding -/

theorem encode_of_lt (h : n < 128) : encode n = [UInt8.ofNat n] := by
  rw [encode, if_pos h]

theorem encode_of_ge (h : 128 ≤ n) :
    encode n = UInt8.ofNat (n % 128 + 128) :: encode (n / 128) := by
  rw [encode, if_neg (Nat.not_lt.mpr h)]

theorem toNat_ofNat_lt {m : Nat} (h : m < 256) : (UInt8.ofNat m).toNat = m := by
  rw [UInt8.toNat_ofNat']
  exact Nat.mod_eq_of_lt h

theorem varint_encode (n : Nat) : Varint (encode n) := by
  induction n using Nat.strongRecOn with
  | ind n ih =>
    rcases Nat.lt_or_ge n 128 with hlt | hge
    · rw [encode_of_lt hlt]
      exact Varint.last (by rw [toNat_ofNat_lt (by omega)]; exact hlt)
    · rw [encode_of_ge hge]
      refine Varint.more ?_ (ih (n / 128) (by omega))
      rw [toNat_ofNat_lt (by omega)]
      omega

theorem value_encode (n : Nat) : value (encode n) = n := by
  induction n using Nat.strongRecOn with
  | ind n ih =>
    rcases Nat.lt_or_ge n 128 with hlt | hge
    · rw [encode_of_lt hlt]
      unfold value value
      rw [toNat_ofNat_lt (by omega)]
      omega
    · rw [encode_of_ge hge, value, ih (n / 128) (by omega), toNat_ofNat_lt (by omega)]
      omega

/-- A number below `128 ^ (k + 1)` takes at most `k + 1` bytes. -/
theorem length_encode_le : ∀ {k n : Nat}, n < 128 ^ (k + 1) → (encode n).length ≤ k + 1
  | 0, n, h => by
      rw [encode_of_lt (by simpa using h)]
      simp
  | k + 1, n, h => by
      rcases Nat.lt_or_ge n 128 with hlt | hge
      · rw [encode_of_lt hlt]
        simp
      · have hdiv : n / 128 < 128 ^ (k + 1) := by
          rw [Nat.div_lt_iff_lt_mul (by decide), ← Nat.pow_succ]
          exact h
        rw [encode_of_ge hge, List.length_cons]
        exact Nat.succ_le_succ (length_encode_le hdiv)

end Leb128
