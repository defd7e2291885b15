import Mathlib.Data.List.Forall2
import Schemreg.Utf8

/-
  Where the ASCII characters of a text are among its bytes.

  `Reads bytes cs` says that the bytes can be read as the characters in such a way that the
  ASCII bytes are the ASCII characters, in the same order, and that whatever is between them
  is between them on the other side. It holds of a string and its bytes (`reads_toUtf8`), and
  of any bytes and the string that the lossy decoder makes of them (`reads_fromUtf8Lossy`).
  So a split at ASCII separators cuts both at the same places (`Reads.split`).
-/

namespace Utf8

/-- Some bytes read as some characters. A character outside ASCII stands for one or more bytes
    outside ASCII. -/
inductive Reads : List UInt8 → List Char → Prop where
  | nil : Reads [] []
  | narrow {b bytes cs} (ascii : b < 0x80) (rest : Reads bytes cs) :
      Reads (b :: bytes) (Char.ofNat b.toNat :: cs)
  | wide {chunk bytes c cs} (nonempty : chunk ≠ []) (high : ∀ b ∈ chunk, 0x80 ≤ b)
      (char : 0x80 ≤ c.toNat) (rest : Reads bytes cs) : Reads (chunk ++ bytes) (c :: cs)

theorem toNat_ofNat_valid {n : Nat} (h : n.isValidChar) : (Char.ofNat n).toNat = n := by
  unfold Char.ofNat
  rw [dif_pos h]
  rfl

theorem toNat_ofNat_byte (b : UInt8) : (Char.ofNat b.toNat).toNat = b.toNat := by
  have hlt := b.toNat_lt
  exact toNat_ofNat_valid (Or.inl (by omega))

section Ascii

variable {bytes : List UInt8} {cs : List Char}

theorem Reads.chars_of_ascii (h : Reads bytes cs) (ascii : ∀ b ∈ bytes, b < 0x80) :
    cs = bytes.map fun b => Char.ofNat b.toNat := by
  induction h with
  | nil => rfl
  | narrow _ _ ih =>
    rw [List.map_cons, ← ih fun b hb => ascii b (List.mem_cons_of_mem _ hb)]
  | @wide chunk _ _ _ nonempty high _ _ _ =>
    obtain ⟨b, hb⟩ := List.exists_mem_of_ne_nil chunk nonempty
    exact absurd (ascii b (List.mem_append_left _ hb)) (UInt8.not_lt.mpr (high b hb))

theorem Reads.bytes_of_ascii (h : Reads bytes cs) (ascii : ∀ c ∈ cs, c.toNat < 0x80) :
    bytes = cs.map fun c => UInt8.ofNat c.toNat := by
  induction h with
  | nil => rfl
  | narrow _ _ ih =>
    rw [List.map_cons, ← ih fun c hc => ascii c (List.mem_cons_of_mem _ hc), toNat_ofNat_byte,
      UInt8.ofNat_toNat]
  | wide _ _ char _ _ =>
    exact absurd (ascii _ List.mem_cons_self) (Nat.not_lt.mpr char)

/-- An ASCII byte is read as its character. -/
theorem Reads.mem_char (h : Reads bytes cs) {b : UInt8} (hb : b < 0x80) (hmem : b ∈ bytes) :
    Char.ofNat b.toNat ∈ cs := by
  induction h with
  | nil => cases hmem
  | narrow _ _ ih =>
    rcases List.mem_cons.mp hmem with rfl | hrest
    · exact List.mem_cons_self
    · exact List.mem_cons_of_mem _ (ih hrest)
  | wide _ high _ _ ih =>
    rcases List.mem_append.mp hmem with hchunk | hrest
    · exact absurd hb (UInt8.not_lt.mpr (high b hchunk))
    · exact List.mem_cons_of_mem _ (ih hrest)

end Ascii

/-! ## A string and its bytes -/

theorem utf8EncodeChar_ascii {c : Char} (h : c.toNat < 0x80) :
    String.utf8EncodeChar c = [UInt8.ofNat c.toNat] := by
  have hle : c.val.toNat ≤ 0x7F := Nat.le_of_lt_succ h
  unfold String.utf8EncodeChar
  simp only [if_pos hle]
  rfl

theorem utf8EncodeChar_wide {c : Char} (h : 0x80 ≤ c.toNat) :
    ∀ b ∈ String.utf8EncodeChar c, 0x80 ≤ b := by
  have hgt : ¬ c.val.toNat ≤ 0x7F := Nat.not_le.mpr h
  intro b hb
  rw [UInt8.le_iff_toNat_le]
  unfold String.utf8EncodeChar at hb
  simp only [if_neg hgt] at hb
  split at hb
  · simp only [List.mem_cons, List.not_mem_nil, or_false] at hb
    rcases hb with rfl | rfl <;> simp <;> omega
  · split at hb
    · simp only [List.mem_cons, List.not_mem_nil, or_false] at hb
      rcases hb with rfl | rfl | rfl <;> simp <;> omega
    · simp only [List.mem_cons, List.not_mem_nil, or_false] at hb
      rcases hb with rfl | rfl | rfl | rfl <;> simp <;> omega

theorem reads_flatMap : ∀ cs : List Char, Reads (cs.flatMap String.utf8EncodeChar) cs
  | [] => .nil
  | c :: cs => by
      rw [List.flatMap_cons]
      by_cases h : c.toNat < 0x80
      · have hbyte : (UInt8.ofNat c.toNat).toNat = c.toNat := by
          rw [UInt8.toNat_ofNat']
          omega
        have hc : Char.ofNat (UInt8.ofNat c.toNat).toNat = c := by
          rw [hbyte, Char.ofNat_toNat]
        have hnarrow : UInt8.ofNat c.toNat < 0x80 := by
          rw [UInt8.lt_iff_toNat_lt, hbyte]
          exact h
        have hrest := Reads.narrow hnarrow (reads_flatMap cs)
        rw [hc] at hrest
        rw [utf8EncodeChar_ascii h]
        exact hrest
      · have hwide : 0x80 ≤ c.toNat := Nat.not_lt.mp h
        exact .wide String.utf8EncodeChar_ne_nil (utf8EncodeChar_wide hwide) hwide
          (reads_flatMap cs)

/-- A string and its bytes. -/
theorem reads_toUtf8 (s : String) : Reads (toUtf8 s) s.toList := reads_flatMap s.toList

theorem toUtf8_append (s t : String) : toUtf8 (s ++ t) = toUtf8 s ++ toUtf8 t := by
  unfold toUtf8
  rw [String.toList_append, List.flatMap_append]

/-- The ASCII characters of a string are among its bytes. -/
theorem mem_toUtf8 {s : String} {c : Char} (hc : c.toNat < 0x80) :
    UInt8.ofNat c.toNat ∈ toUtf8 s ↔ c ∈ s.toList := by
  have hbyte : (UInt8.ofNat c.toNat).toNat = c.toNat := by
    rw [UInt8.toNat_ofNat']
    omega
  constructor
  · intro h
    have hnarrow : UInt8.ofNat c.toNat < 0x80 := by
      rw [UInt8.lt_iff_toNat_lt, hbyte]
      exact hc
    have hmem := (reads_toUtf8 s).mem_char hnarrow h
    rwa [hbyte, Char.ofNat_toNat] at hmem
  · intro h
    refine List.mem_flatMap.mpr ⟨c, h, ?_⟩
    rw [utf8EncodeChar_ascii hc]
    exact List.mem_singleton_self _

/-! ## The lossy decoder -/

theorem toNat_charOf {lead : Nat} {rest : List UInt8} {n : Nat}
    (hn : rest.foldl (fun n b => n * 64 + b.toNat % 64) lead = n) (hvalid : n.isValidChar) :
    (charOf lead rest).toNat = n := by
  unfold charOf
  rw [hn, toNat_ofNat_valid hvalid]

/-- What the decoder does at a byte outside ASCII: whatever it takes is outside ASCII, and so
    is the character that it makes of it. -/
def TakesHigh (bytes : List UInt8) : Next → Prop
  | .done => False
  | .char c width => 0x80 ≤ c.toNat ∧ 0 < width ∧ ∀ b ∈ bytes.take width, 0x80 ≤ b
  | .bad (some len) => 0 < len ∧ ∀ b ∈ bytes.take len, 0x80 ≤ b
  | .bad none => bytes ≠ [] ∧ ∀ b ∈ bytes, 0x80 ≤ b

theorem isContinuation_iff {b : UInt8} :
    isContinuation b = true ↔ 0x80 ≤ b.toNat ∧ b.toNat ≤ 0xBF := by
  simp [isContinuation, UInt8.le_iff_toNat_le]

theorem second3_iff {first b : UInt8} : second3 first b = true ↔
    (0x80 ≤ b.toNat ∧ b.toNat ≤ 0xBF) ∧ (first = 0xE0 → 0xA0 ≤ b.toNat) ∧
      (first = 0xED → b.toNat ≤ 0x9F) := by
  unfold second3
  split
  · rename_i h
    subst h
    simp [UInt8.le_iff_toNat_le]
    omega
  · rename_i h
    split
    · rename_i h'
      subst h'
      simp [UInt8.le_iff_toNat_le]
      omega
    · rename_i h'
      rw [isContinuation_iff]
      simp [h, h']

theorem second4_iff {first b : UInt8} : second4 first b = true ↔
    (0x80 ≤ b.toNat ∧ b.toNat ≤ 0xBF) ∧ (first = 0xF0 → 0x90 ≤ b.toNat) ∧
      (first = 0xF4 → b.toNat ≤ 0x8F) := by
  unfold second4
  split
  · rename_i h
    subst h
    simp [UInt8.le_iff_toNat_le]
    omega
  · rename_i h
    split
    · rename_i h'
      subst h'
      simp [UInt8.le_iff_toNat_le]
      omega
    · rename_i h'
      rw [isContinuation_iff]
      simp [h, h']

theorem high_of_le {b : UInt8} {k : Nat} (hk : 0x80 ≤ k) (h : k ≤ b.toNat) : 0x80 ≤ b :=
  UInt8.le_iff_toNat_le.mpr (Nat.le_trans hk h)

theorem takesHigh_next2 {first : UInt8} (rest : List UInt8) (hlow : 0xC2 ≤ first.toNat)
    (hhigh : first.toNat ≤ 0xDF) : TakesHigh (first :: rest) (next2 first rest) := by
  have hfirst : 0x80 ≤ first := high_of_le (by decide) hlow
  cases rest with
  | nil => exact ⟨List.cons_ne_nil _ _, by simpa using hfirst⟩
  | cons b rest =>
    unfold next2
    dsimp only
    split
    · rename_i hb
      rw [isContinuation_iff] at hb
      have hchar : (charOf (first.toNat % 32) [b]).toNat =
          (first.toNat % 32) * 64 + b.toNat % 64 := toNat_charOf rfl (Or.inl (by omega))
      refine ⟨by rw [hchar]; omega, by decide, ?_⟩
      simp [UInt8.le_iff_toNat_le] at hfirst ⊢
      omega
    · exact ⟨by decide, by simpa using hfirst⟩

theorem takesHigh_next3 {first : UInt8} (rest : List UInt8) (hlow : 0xE0 ≤ first.toNat)
    (hhigh : first.toNat ≤ 0xEF) : TakesHigh (first :: rest) (next3 first rest) := by
  have hfirst : 0x80 ≤ first := high_of_le (by decide) hlow
  cases rest with
  | nil => exact ⟨List.cons_ne_nil _ _, by simpa using hfirst⟩
  | cons b rest =>
    unfold next3
    dsimp only
    split
    · rename_i hb
      obtain ⟨hb, hE0, hED⟩ := second3_iff.mp hb
      rw [← UInt8.toNat_inj] at hE0 hED
      have hbhigh : 0x80 ≤ b := UInt8.le_iff_toNat_le.mpr hb.1
      cases rest with
      | nil => exact ⟨List.cons_ne_nil _ _, by simpa using ⟨hfirst, hbhigh⟩⟩
      | cons b' rest =>
        dsimp only
        split
        · rename_i hb'
          rw [isContinuation_iff] at hb'
          have hchar : (charOf (first.toNat % 16) [b, b']).toNat =
              ((first.toNat % 16) * 64 + b.toNat % 64) * 64 + b'.toNat % 64 :=
            toNat_charOf rfl (by
              unfold Nat.isValidChar
              simp at hE0 hED
              omega)
          refine ⟨by rw [hchar]; simp at hE0; omega, by decide, ?_⟩
          simpa [UInt8.le_iff_toNat_le] using ⟨hfirst, hbhigh, hb'.1⟩
        · exact ⟨by decide, by simpa using ⟨hfirst, hbhigh⟩⟩
    · exact ⟨by decide, by simpa using hfirst⟩

theorem takesHigh_next4 {first : UInt8} (rest : List UInt8) (hlow : 0xF0 ≤ first.toNat)
    (hhigh : first.toNat ≤ 0xF4) : TakesHigh (first :: rest) (next4 first rest) := by
  have hfirst : 0x80 ≤ first := high_of_le (by decide) hlow
  cases rest with
  | nil => exact ⟨List.cons_ne_nil _ _, by simpa using hfirst⟩
  | cons b rest =>
    unfold next4
    dsimp only
    split
    · rename_i hb
      obtain ⟨hb, hF0, hF4⟩ := second4_iff.mp hb
      rw [← UInt8.toNat_inj] at hF0 hF4
      have hbhigh : 0x80 ≤ b := UInt8.le_iff_toNat_le.mpr hb.1
      cases rest with
      | nil => exact ⟨List.cons_ne_nil _ _, by simpa using ⟨hfirst, hbhigh⟩⟩
      | cons b' rest =>
        dsimp only
        split
        · rename_i hb'
          rw [isContinuation_iff] at hb'
          have hbhigh' : 0x80 ≤ b' := UInt8.le_iff_toNat_le.mpr hb'.1
          cases rest with
          | nil => exact ⟨List.cons_ne_nil _ _, by simpa using ⟨hfirst, hbhigh, hbhigh'⟩⟩
          | cons b'' rest =>
            dsimp only
            split
            · rename_i hb''
              rw [isContinuation_iff] at hb''
              have hchar : (charOf (first.toNat % 8) [b, b', b'']).toNat =
                  (((first.toNat % 8) * 64 + b.toNat % 64) * 64 + b'.toNat % 64) * 64 +
                    b''.toNat % 64 :=
                toNat_charOf rfl (by
                  unfold Nat.isValidChar
                  simp at hF0 hF4
                  omega)
              refine ⟨by rw [hchar]; simp at hF0; omega, by decide, ?_⟩
              simpa [UInt8.le_iff_toNat_le] using ⟨hfirst, hbhigh, hbhigh', hb''.1⟩
            · exact ⟨by decide, by simpa using ⟨hfirst, hbhigh, hbhigh'⟩⟩
        · exact ⟨by decide, by simpa using ⟨hfirst, hbhigh⟩⟩
    · exact ⟨by decide, by simpa using hfirst⟩

/-- The width that the first byte announces, by its number. -/
theorem next_cons (first : UInt8) (rest : List UInt8) : next (first :: rest) =
    if first.toNat < 0x80 then .char (charOf first.toNat []) 1
    else if 0xC2 ≤ first.toNat ∧ first.toNat ≤ 0xDF then next2 first rest
    else if 0xE0 ≤ first.toNat ∧ first.toNat ≤ 0xEF then next3 first rest
    else if 0xF0 ≤ first.toNat ∧ first.toNat ≤ 0xF4 then next4 first rest
    else .bad (some 1) := by
  unfold next
  simp only [UInt8.lt_iff_toNat_lt, UInt8.le_iff_toNat_le, Bool.and_eq_true, decide_eq_true_eq]
  rfl

theorem takesHigh_next {first : UInt8} (rest : List UInt8) (h : ¬ first < 0x80) :
    TakesHigh (first :: rest) (next (first :: rest)) := by
  have hnarrow : ¬ first.toNat < 0x80 := fun hlt => h (UInt8.lt_iff_toNat_lt.mpr hlt)
  rw [next_cons, if_neg hnarrow]
  split
  · rename_i h2
    exact takesHigh_next2 rest h2.1 h2.2
  · split
    · rename_i h3
      exact takesHigh_next3 rest h3.1 h3.2
    · split
      · rename_i h4
        exact takesHigh_next4 rest h4.1 h4.2
      · exact ⟨by decide, by simpa using h⟩

/-- The lossy decoder reads what there is. -/
theorem reads_decodeLossy : ∀ (n : Nat) (bytes : List UInt8), bytes.length ≤ n →
    Reads bytes (decodeLossy n bytes)
  | 0, [], _ => .nil
  | n + 1, [], _ => .nil
  | n + 1, first :: rest, hlen => by
      have hrest : rest.length ≤ n := Nat.le_of_succ_le_succ hlen
      have hdrop : ∀ k, 0 < k → ((first :: rest).drop k).length ≤ n := by
        intro k hk
        rw [List.length_drop]
        omega
      by_cases hfirst : first < 0x80
      · have hnext : next (first :: rest) = .char (charOf first.toNat []) 1 := by
          unfold next
          exact if_pos hfirst
        unfold decodeLossy
        rw [hnext]
        exact .narrow hfirst (reads_decodeLossy n rest hrest)
      · have htakes := takesHigh_next rest hfirst
        have hsplit : ∀ k, (first :: rest).take k ++ (first :: rest).drop k = first :: rest :=
          fun k => List.take_append_drop k _
        have hsome : ∀ k, 0 < k → (first :: rest).take k ≠ [] := by
          intro k hk
          cases k with
          | zero => cases hk
          | succ k => exact List.cons_ne_nil _ _
        unfold decodeLossy
        cases hnext : next (first :: rest) with
        | done =>
          rw [hnext] at htakes
          exact absurd htakes id
        | char c width =>
          rw [hnext] at htakes
          obtain ⟨hc, hwidth, hhigh⟩ := htakes
          have hread := Reads.wide (hsome width hwidth) hhigh hc
            (reads_decodeLossy n _ (hdrop width hwidth))
          rw [hsplit] at hread
          exact hread
        | bad errorLen =>
          rw [hnext] at htakes
          cases errorLen with
          | some len =>
            obtain ⟨hwidth, hhigh⟩ := htakes
            have hread := Reads.wide (hsome len hwidth) hhigh (c := '\uFFFD') (by decide)
              (reads_decodeLossy n _ (hdrop len hwidth))
            rw [hsplit] at hread
            exact hread
          | none =>
            have hread := Reads.wide htakes.1 htakes.2 (c := '\uFFFD') (by decide) Reads.nil
            rw [List.append_nil] at hread
            exact hread

/-- Some bytes and the string that the lossy decoder makes of them. -/
theorem reads_fromUtf8Lossy (bytes : List UInt8) : Reads bytes (fromUtf8Lossy bytes).toList := by
  unfold fromUtf8Lossy
  rw [String.toList_ofList]
  exact reads_decodeLossy _ _ (Nat.le_refl _)

/-! ## The bytes of a string decode to it -/

theorem charOf_eq {c : Char} {lead : Nat} {rest : List UInt8}
    (h : rest.foldl (fun n b => n * 64 + b.toNat % 64) lead = c.toNat) : charOf lead rest = c := by
  unfold charOf
  rw [h, Char.ofNat_toNat]

theorem next_lead2 {first : UInt8} (rest : List UInt8) (hlow : 0xC2 ≤ first.toNat)
    (hhigh : first.toNat ≤ 0xDF) : next (first :: rest) = next2 first rest := by
  rw [next_cons, if_neg (by omega), if_pos ⟨hlow, hhigh⟩]

theorem next_lead3 {first : UInt8} (rest : List UInt8) (hlow : 0xE0 ≤ first.toNat)
    (hhigh : first.toNat ≤ 0xEF) : next (first :: rest) = next3 first rest := by
  rw [next_cons, if_neg (by omega), if_neg (by omega), if_pos ⟨hlow, hhigh⟩]

theorem next_lead4 {first : UInt8} (rest : List UInt8) (hlow : 0xF0 ≤ first.toNat)
    (hhigh : first.toNat ≤ 0xF4) : next (first :: rest) = next4 first rest := by
  rw [next_cons, if_neg (by omega), if_neg (by omega), if_neg (by omega), if_pos ⟨hlow, hhigh⟩]

/-- The decoder reads a character where its bytes are. -/
theorem next_utf8EncodeChar (c : Char) (rest : List UInt8) :
    next (String.utf8EncodeChar c ++ rest) = .char c (String.utf8EncodeChar c).length := by
  have hvalid : c.val.toNat < 0xD800 ∨ 0xDFFF < c.val.toNat ∧ c.val.toNat < 0x110000 := c.valid
  have hbyte : ∀ {n : Nat}, n < 256 → (UInt8.ofNat n).toNat = n :=
    fun hn => UInt8.toNat_ofNat_of_lt' hn
  have hcont : ∀ n, (UInt8.ofNat (n % 64 + 0x80)).toNat = n % 64 + 0x80 :=
    fun n => hbyte (by omega)
  have hc : c.toNat = c.val.toNat := rfl
  unfold String.utf8EncodeChar
  generalize c.val.toNat = v at hvalid hc ⊢
  dsimp only
  split
  · have h0 := hbyte (n := v) (by omega)
    have hlt : UInt8.ofNat v < 0x80 := by
      rw [UInt8.lt_iff_toNat_lt, h0]
      exact Nat.lt_succ_of_le ‹_›
    show (if UInt8.ofNat v < 0x80 then _ else _) = _
    rw [if_pos hlt, charOf_eq (c := c)]
    · rfl
    · rw [hc, h0]
      rfl
  · split
    · have h0 := hbyte (n := v / 64 % 32 + 0xC0) (by omega)
      have h1 := hcont v
      have hb : isContinuation (UInt8.ofNat (v % 64 + 0x80)) = true := by
        rw [isContinuation_iff, h1]
        omega
      rw [List.cons_append, next_lead2 _ (by omega) (by omega)]
      show (if isContinuation _ then _ else _) = _
      rw [if_pos hb, charOf_eq (c := c)]
      · rfl
      · simp only [List.foldl_cons, List.foldl_nil, h0, h1]
        omega
    · split
      · have h0 := hbyte (n := v / 4096 % 16 + 0xE0) (by omega)
        have h1 := hcont (v / 64)
        have h2 := hcont v
        have hb : second3 (UInt8.ofNat (v / 4096 % 16 + 0xE0)) (UInt8.ofNat (v / 64 % 64 + 0x80)) =
            true := by
          simp only [second3_iff, ← UInt8.toNat_inj, h0, h1]
          simp
          omega
        have hb' : isContinuation (UInt8.ofNat (v % 64 + 0x80)) = true := by
          rw [isContinuation_iff, h2]
          omega
        rw [List.cons_append, next_lead3 _ (by omega) (by omega)]
        show (if second3 _ _ then (if isContinuation _ then _ else _) else _) = _
        rw [if_pos hb, if_pos hb', charOf_eq (c := c)]
        · rfl
        · simp only [List.foldl_cons, List.foldl_nil, h0, h1, h2]
          omega
      · have h0 := hbyte (n := v / 262144 % 8 + 0xF0) (by omega)
        have h1 := hcont (v / 4096)
        have h2 := hcont (v / 64)
        have h3 := hcont v
        have hb : second4 (UInt8.ofNat (v / 262144 % 8 + 0xF0))
            (UInt8.ofNat (v / 4096 % 64 + 0x80)) = true := by
          simp only [second4_iff, ← UInt8.toNat_inj, h0, h1]
          simp
          omega
        have hb' : isContinuation (UInt8.ofNat (v / 64 % 64 + 0x80)) = true := by
          rw [isContinuation_iff, h2]
          omega
        have hb'' : isContinuation (UInt8.ofNat (v % 64 + 0x80)) = true := by
          rw [isContinuation_iff, h3]
          omega
        rw [List.cons_append, next_lead4 _ (by omega) (by omega)]
        show (if second4 _ _ then
          (if isContinuation _ then (if isContinuation _ then _ else _) else _) else _) = _
        rw [if_pos hb, if_pos hb', if_pos hb'', charOf_eq (c := c)]
        · rfl
        · simp only [List.foldl_cons, List.foldl_nil, h0, h1, h2, h3]
          omega

theorem decode_flatMap : ∀ (cs : List Char) (n start : Nat),
    (cs.flatMap String.utf8EncodeChar).length ≤ n →
    decode n start (cs.flatMap String.utf8EncodeChar) = .ok cs
  | [], 0, _, _ => rfl
  | [], _ + 1, _, _ => rfl
  | c :: cs, n, start, hlen => by
      have hpos : 0 < (String.utf8EncodeChar c).length :=
        List.length_pos_of_ne_nil String.utf8EncodeChar_ne_nil
      rw [List.flatMap_cons, List.length_append] at hlen
      cases n with
      | zero => omega
      | succ n =>
        unfold decode
        rw [List.flatMap_cons, next_utf8EncodeChar]
        dsimp only
        rw [List.drop_left, decode_flatMap cs n _ (by omega)]
        rfl

/-- The bytes of a string decode to it. -/
theorem fromUtf8_toUtf8 (s : String) : fromUtf8 (toUtf8 s) = .ok s := by
  unfold fromUtf8 toUtf8
  rw [decode_flatMap _ _ _ (Nat.le_refl _)]
  exact congrArg Except.ok String.ofList_toList

theorem toUtf8_injective {s t : String} (h : toUtf8 s = toUtf8 t) : s = t := by
  have hs := fromUtf8_toUtf8 s
  rw [h, fromUtf8_toUtf8] at hs
  exact (Except.ok.inj hs).symm

/-! ## Splitting at ASCII separators -/

section Split

variable {sepByte : UInt8 → Bool} {sepChar : Char → Bool} {bytes : List UInt8} {cs : List Char}

theorem splitOnP_append_free {α : Type} {p : α → Bool} : ∀ {chunk : List α} (rest : List α),
    (∀ x ∈ chunk, p x = false) →
    (chunk ++ rest).splitOnP p = (rest.splitOnP p).modifyHead (chunk ++ ·)
  | [], rest, _ => by
      rw [List.nil_append]
      cases rest.splitOnP p <;> rfl
  | x :: chunk, rest, hfree => by
      have hx : p x = false := hfree x List.mem_cons_self
      have ih : (chunk ++ rest).splitOnP p = (rest.splitOnP p).modifyHead (chunk ++ ·) :=
        splitOnP_append_free rest fun y hy => hfree y (List.mem_cons_of_mem _ hy)
      rw [List.cons_append, List.splitOnP_cons_eq_if_modifyHead, if_neg (by simp [hx]), ih]
      cases rest.splitOnP p <;> rfl

/-- Bytes and characters are cut at the same places by separators in ASCII. -/
theorem Reads.split (h : Reads bytes cs)
    (hsame : ∀ b : UInt8, b < 0x80 → sepByte b = sepChar (Char.ofNat b.toNat))
    (hbyte : ∀ b : UInt8, 0x80 ≤ b → sepByte b = false)
    (hchar : ∀ c : Char, 0x80 ≤ c.toNat → sepChar c = false) :
    List.Forall₂ Reads (bytes.splitOnP sepByte) (cs.splitOnP sepChar) := by
  induction h with
  | nil => exact .cons .nil .nil
  | @narrow b bytes cs ascii _ ih =>
    rw [List.splitOnP_cons_eq_if_modifyHead, List.splitOnP_cons_eq_if_modifyHead, hsame b ascii]
    split
    · exact .cons .nil ih
    · cases hb : bytes.splitOnP sepByte with
      | nil => exact absurd hb (List.splitOnP_ne_nil _ _)
      | cons head tail =>
        rw [hb] at ih
        obtain ⟨head', tail', hhead, htail, hcs⟩ := List.forall₂_cons_left_iff.mp ih
        rw [hcs]
        exact .cons (.narrow ascii hhead) htail
  | @wide chunk bytes c cs nonempty high char _ ih =>
    rw [splitOnP_append_free _ fun b hb => hbyte b (high b hb),
      List.splitOnP_cons_eq_if_modifyHead, if_neg (by simp [hchar c char])]
    cases hb : bytes.splitOnP sepByte with
    | nil => exact absurd hb (List.splitOnP_ne_nil _ _)
    | cons head tail =>
      rw [hb] at ih
      obtain ⟨head', tail', hhead, htail, hcs⟩ := List.forall₂_cons_left_iff.mp ih
      rw [hcs]
      exact .cons (.wide nonempty high char hhead) htail

end Split

end Utf8
